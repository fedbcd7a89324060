import Atap.Sweep.Moves

/-!
# A linked slot has a claim on it

The executor's claim is there for as long as the turn is anywhere: in a queue, at a worker, on a
timer that can go off, in a park, at the gate or in somebody's hands (`Account.turn`). A slot marked
`QUEUED_SHARED` is part of a chain, or in the hands of one thread on its way in or out of one
(`Account.link`). So a slot that is linked has a claim on it, through every life, for as long as no
sweep takes the claim of a task whose turn is still somewhere (`linked_slot_has_claim`).

`orphaned` does take it. It releases a repeat that waits between its runs whenever the repeat is not
running, and a repeat whose timer has gone off is in the shared queue (`destroyed_while_linked`).
-/

namespace Atap.Sweep

variable {T : Type*}

namespace Mem

/-- The turn rests in a queue, or at a worker. -/
def queued (m : Mem) : ℕ := if m.mark = .nowhere then 0 else 1

/-- The slot is, or is to be, part of a chain. -/
def chained (m : Mem) : ℕ := if m.mark = .shared then 1 else 0

/-- The turn rests at the gate. -/
def atGate (m : Mem) : ℕ := if m.gate = some .waiting then 1 else 0

theorem chained_le_queued (m : Mem) : m.chained ≤ m.queued := by
  unfold chained queued
  split
  case isTrue h => rw [h]; exact le_refl 1
  case isFalse => exact Nat.zero_le _

end Mem

/-- What the words of the slot say, against what all threads have in hand. -/
structure Account (m : Mem) (K : Stake → ℕ) : Prop where
  /-- The slot is alive, on its way out, empty, or the table's. -/
  phase : m.avail.toNat + K .doomed + K .empty + (if 0 < m.listeners then 1 else 0) = 1
  live : 0 < m.listeners → m.state ≠ .free
  claim : m.listeners = m.handles + m.held.toNat + K .claim
  room : m.listeners < 2 ^ 32
  /-- The turn is in one place, and the executor's claim is there for it. -/
  turn : m.queued + (m.armed && m.held).toNat + m.parked.toNat + m.atGate + K .turn ≤ m.held.toNat
  link : m.linked.toNat + K .link = m.chained
  /-- A timer that can go off has the turn. -/
  watch : m.manager = true ∨ 0 < K .watch → m.armed = true → m.held = true

section Account

variable {m : Mem} {K : Stake → ℕ} {a : List Stake}

theorem Account.held (h : Account m K) (ht : 0 < K .turn ∨ 0 < K .link ∨ 0 < m.linked.toNat) :
    m.held = true := by
  have hle := m.chained_le_queued
  have := h.turn
  have := h.link
  exact Bool.toNat_eq_one.mp (Nat.le_antisymm (Bool.toNat_le _) (by omega))

theorem Account.listeners_pos (h : Account m K)
    (hx : 0 < K .turn ∨ 0 < K .link ∨ 0 < m.linked.toNat ∨ 0 < K .claim) : 0 < m.listeners := by
  have hc := h.claim
  rcases hx with hx | hx | hx | hx
  · rw [h.held (.inl hx)] at hc; simp only [Bool.toNat_true] at hc; omega
  · rw [h.held (.inr (.inl hx))] at hc; simp only [Bool.toNat_true] at hc; omega
  · rw [h.held (.inr (.inr hx))] at hc; simp only [Bool.toNat_true] at hc; omega
  · omega

theorem Account.lapse {i : Stake} (hi : i = .turn ∨ i = .watch) (h : Account m (hold K [i])) :
    Account m (hold K []) := by
  rcases hi with rfl | rfl
  · exact ⟨h.phase, h.live, h.claim, h.room, le_trans (Nat.le_succ _) h.turn, h.link, h.watch⟩
  · exact ⟨h.phase, h.live, h.claim, h.room, h.turn, h.link,
      fun hw => h.watch (hw.imp_right Nat.lt_succ_of_lt)⟩

theorem Account.turn_held (h : Account m (hold K [.turn])) :
    m.queued + (m.armed && m.held).toNat + m.parked.toNat + m.atGate + (K .turn + 1) ≤
      m.held.toNat := h.turn

theorem Account.turn_else (h : Account m (hold K [])) :
    m.queued + (m.armed && m.held).toNat + m.parked.toNat + m.atGate + K .turn ≤
      m.held.toNat := h.turn

/-- A thread with the turn can put it away, and no link leads to the slot. -/
theorem Account.room_of_turn (h : Account m (hold K [.turn])) :
    1 + (m.armed && m.held).toNat + m.parked.toNat + m.atGate + K .turn ≤ m.held.toNat ∧
      m.linked.toNat + K .link = 0 := by
  have hle := m.chained_le_queued
  have h1 := Bool.toNat_le m.held
  have ht := h.turn_held
  have hk : m.linked.toNat + K .link = m.chained := h.link
  omega

/-- The turn is put into the shared queue. -/
theorem Account.queue (h : Account m (hold K [.turn])) :
    Account { m with mark := .shared } (hold K [.link]) := by
  obtain ⟨ht, hk⟩ := h.room_of_turn
  exact ⟨h.phase, h.live, h.claim, h.room, ht, congrArg Nat.succ hk, h.watch⟩

/-- The turn is put where a worker finds it. -/
theorem Account.place (h : Account m (hold K [.turn])) :
    Account { m with mark := .atWorker } (hold K []) := by
  obtain ⟨ht, hk⟩ := h.room_of_turn
  exact ⟨h.phase, h.live, h.claim, h.room, ht, hk, h.watch⟩

theorem Account.takeLocal (hm : m.mark = .atWorker) (h : Account m (hold K [])) :
    Account { m with mark := .nowhere } (hold K [.turn]) := by
  have ht := h.turn_else
  have hk : m.linked.toNat + K .link = m.chained := h.link
  simp only [Mem.queued, Mem.chained, hm, reduceCtorEq, if_false] at ht hk
  refine ⟨h.phase, h.live, h.claim, h.room, ?_, hk, h.watch⟩
  change 0 + (m.armed && m.held).toNat + m.parked.toNat + m.atGate + (K .turn + 1) ≤ m.held.toNat
  omega

theorem Account.claimShared (h : Account m (hold K [.link])) :
    Account { m with mark := .nowhere } (hold K [.turn]) := by
  have hle := m.chained_le_queued
  have hc : m.chained ≤ 1 := by unfold Mem.chained; split <;> omega
  have ht : m.queued + _ + _ + _ + K .turn ≤ _ := h.turn
  have hk : m.linked.toNat + (K .link + 1) = m.chained := h.link
  refine ⟨h.phase, h.live, h.claim, h.room, ?_, ?_, h.watch⟩
  · change 0 + (m.armed && m.held).toNat + m.parked.toNat + m.atGate + (K .turn + 1) ≤ m.held.toNat
    omega
  · change m.linked.toNat + K .link = 0
    omega

theorem Account.linkIn (h : Account m (hold K [.link])) :
    Account { m with linked := true } (hold K []) := by
  have hc : m.chained ≤ 1 := by unfold Mem.chained; split <;> omega
  have hk : m.linked.toNat + (K .link + 1) = m.chained := h.link
  refine ⟨h.phase, h.live, h.claim, h.room, h.turn, ?_, h.watch⟩
  change 1 + K .link = m.chained
  omega

theorem Account.unlink (hl : m.linked = true) (h : Account m (hold K [])) :
    Account { m with linked := false } (hold K [.link]) := by
  have hk : m.linked.toNat + K .link = m.chained := h.link
  rw [hl, Bool.toNat_true] at hk
  refine ⟨h.phase, h.live, h.claim, h.room, h.turn, ?_, h.watch⟩
  change 0 + (K .link + 1) = m.chained
  omega

/-- The turn goes to a timer, which may go off from now on. -/
theorem Account.arm (h : Account m (hold K [.turn])) :
    Account { m with armed := true } (hold K [.watch]) := by
  have hh := h.held (.inl (hold_pos (List.mem_singleton_self _)))
  have ht := h.turn_held
  refine ⟨h.phase, h.live, h.claim, h.room, ?_, h.link, fun _ _ => hh⟩
  change m.queued + (true && m.held).toNat + m.parked.toNat + m.atGate + K .turn ≤ m.held.toNat
  rw [hh] at ht ⊢
  simp only [Bool.true_and, Bool.toNat_true] at ht ⊢
  omega

theorem Account.disarm (ha : m.armed = true) (h : Account m (hold K [.watch])) :
    Account { m with armed := false } (hold K [.turn]) := by
  have hh := h.watch (.inr (hold_pos (List.mem_singleton_self _))) ha
  have ht : m.queued + (m.armed && m.held).toNat + m.parked.toNat + m.atGate + K .turn ≤
    m.held.toNat := h.turn
  refine ⟨h.phase, h.live, h.claim, h.room, ?_, h.link, fun _ _ => hh⟩
  change m.queued + 0 + m.parked.toNat + m.atGate + (K .turn + 1) ≤ m.held.toNat
  rw [ha, hh] at ht
  rw [hh]
  simp only [Bool.and_self, Bool.toNat_true] at ht ⊢
  omega

theorem Account.off (h : Account m (hold K [])) :
    Account { m with armed := false } (hold K []) := by
  have ht := h.turn_else
  refine ⟨h.phase, h.live, h.claim, h.room, ?_, h.link, fun _ => nofun⟩
  change m.queued + 0 + m.parked.toNat + m.atGate + K .turn ≤ m.held.toNat
  omega

theorem Account.park (h : Account m (hold K [.turn])) :
    Account { m with parked := true } (hold K []) := by
  have ht := h.turn_held
  refine ⟨h.phase, h.live, h.claim, h.room, ?_, h.link, h.watch⟩
  change m.queued + (m.armed && m.held).toNat + 1 + m.atGate + K .turn ≤ m.held.toNat
  omega

theorem Account.unpark (hp : m.parked = true) (h : Account m (hold K [])) :
    Account { m with parked := false } (hold K [.turn]) := by
  have ht := h.turn_else
  rw [hp, Bool.toNat_true] at ht
  refine ⟨h.phase, h.live, h.claim, h.room, ?_, h.link, h.watch⟩
  change m.queued + (m.armed && m.held).toNat + 0 + m.atGate + (K .turn + 1) ≤ m.held.toNat
  omega

theorem Account.clearParked (h : Account m (hold K a)) :
    Account { m with parked := false } (hold K a) := by
  have ht := h.turn
  refine ⟨h.phase, h.live, h.claim, h.room, ?_, h.link, h.watch⟩
  change m.queued + (m.armed && m.held).toNat + 0 + m.atGate + hold K a .turn ≤ m.held.toNat
  omega

theorem Account.wait (h : Account m (hold K [.turn])) :
    Account { m with gate := some .waiting } (hold K []) := by
  have ht := h.turn_held
  refine ⟨h.phase, h.live, h.claim, h.room, ?_, h.link, h.watch⟩
  change m.queued + (m.armed && m.held).toNat + m.parked.toNat + 1 + K .turn ≤ m.held.toNat
  omega

theorem Mem.atGate_of_ne {g : Option Gate} (hg : g ≠ some .waiting) :
    Mem.atGate { m with gate := g } = 0 := if_neg hg

theorem Account.leave {g : Option Gate} (hw : m.gate = some .waiting) (hg : g ≠ some .waiting)
    (h : Account m (hold K [])) : Account { m with gate := g } (hold K [.turn]) := by
  have ht := h.turn_else
  rw [Mem.atGate, if_pos hw] at ht
  refine ⟨h.phase, h.live, h.claim, h.room, ?_, h.link, h.watch⟩
  rw [Mem.atGate_of_ne hg]
  change m.queued + (m.armed && m.held).toNat + m.parked.toNat + 0 + (K .turn + 1) ≤ m.held.toNat
  omega

theorem Account.shut {g : Option Gate} (hg : g ≠ some .waiting) (h : Account m (hold K a)) :
    Account { m with gate := g } (hold K a) := by
  have ht := h.turn
  refine ⟨h.phase, h.live, h.claim, h.room, ?_, h.link, h.watch⟩
  rw [Mem.atGate_of_ne hg]
  change m.queued + (m.armed && m.held).toNat + m.parked.toNat + 0 + hold K a .turn ≤ m.held.toNat
  omega

/-- The executor's claim becomes somebody's own, with the turn nowhere else. -/
theorem Account.giveBack {b : List Stake} (hb : b.count .claim = 0 ∧ b.count .doomed = 0 ∧
      b.count .empty = 0 ∧ b.count .link = 0)
    (hh : m.held = true) (hr : m.queued = 0 ∧ m.parked = false ∧ m.atGate = 0 ∧ K .turn = 0)
    (hw : m.manager = true ∨ 0 < K .watch → m.armed = false) (h : Account m (hold K b)) :
    Account { m with held := false } (hold K [.claim]) := by
  obtain ⟨hp, hl, hc, hs, ht, hk, -⟩ := h
  obtain ⟨hq, hpk, hg, hkt⟩ := hr
  obtain ⟨h1, h2, h3, h4⟩ := hb
  simp only [hold, h1, h2, h3, h4, hh, Bool.toNat_true] at hp hc hk
  refine ⟨hp, hl, ?_, hs, ?_, hk, fun hx ha => ?_⟩
  · change m.listeners = m.handles + 0 + (K .claim + 1)
    omega
  · change m.queued + (m.armed && false).toNat + m.parked.toNat + m.atGate + K .turn ≤ 0
    rw [hq, hpk, hg, hkt, Bool.and_false]
    exact le_refl 0
  · exact absurd ha (by rw [hw hx]; exact Bool.false_ne_true)

theorem Account.release (h : Account m (hold K [.turn])) :
    Account { m with held := false } (hold K [.claim]) := by
  have hh := h.held (.inl (hold_pos (List.mem_singleton_self _)))
  have ht := h.turn_held
  rw [hh, Bool.toNat_true, Bool.and_true] at ht
  refine h.giveBack ⟨rfl, rfl, rfl, rfl⟩ hh ⟨by omega, ?_, by omega, by omega⟩ fun _ => ?_
  · exact Bool.toNat_eq_zero.mp (by omega)
  · exact Bool.toNat_eq_zero.mp (by omega)

/-- A sweep that finds the turn nowhere gives the claim back as well. -/
theorem Account.sweep (hk : K .turn = 0 ∧ K .watch = 0) (hh : m.held = true)
    (hm : m.mark = .nowhere) (hp : m.parked = false) (hg : m.gate ≠ some .waiting)
    (hd : m.manager = false) (h : Account m (hold K [])) :
    Account { m with held := false } (hold K [.claim]) := by
  refine h.giveBack ⟨rfl, rfl, rfl, rfl⟩ hh ⟨if_pos hm, hp, if_neg hg, hk.1⟩ fun hx => ?_
  rw [hd, hk.2] at hx
  exact absurd hx nofun

/-- A claim is made next to one that is there. -/
theorem Account.add (ha : .turn ∈ a ∨ .claim ∈ a) (hb : m.listeners + 1 < 2 ^ 32)
    (h : Account m (hold K a)) : Account m.addListener (hold K (.claim :: a)) := by
  have hpos : 0 < m.listeners := h.listeners_pos (ha.imp hold_pos fun x => .inr (.inr (hold_pos x)))
  have hadd : m.addListener = { m with listeners := m.listeners + 1 } := by
    rw [Mem.addListener, fetchAdd_of_lt hb]
  obtain ⟨hp, hl, hc, -, ht, hk, hw⟩ := h
  rw [hadd]
  refine ⟨?_, fun _ => hl hpos, ?_, hb, ht, hk, hw⟩
  · rw [if_pos (Nat.succ_pos _)]
    rwa [if_pos hpos] at hp
  · rw [hold_cons, if_pos rfl, hc, Nat.add_assoc]

theorem Account.use (hx : 0 < m.handles) (h : Account m (hold K [])) :
    Account { m with handles := m.handles - 1 } (hold K [.claim]) := by
  have hc : m.listeners = m.handles + m.held.toNat + K .claim := h.claim
  refine ⟨h.phase, h.live, ?_, h.room, h.turn, h.link, h.watch⟩
  change m.listeners = m.handles - 1 + m.held.toNat + (K .claim + 1)
  omega

theorem Account.back (h : Account m (hold K [.claim])) :
    Account { m with handles := m.handles + 1 } (hold K []) := by
  have hc : m.listeners = m.handles + m.held.toNat + (K .claim + 1) := h.claim
  refine ⟨h.phase, h.live, ?_, h.room, h.turn, h.link, h.watch⟩
  change m.listeners = m.handles + 1 + m.held.toNat + K .claim
  omega

/-- A claim that is dropped leaves the others, or a slot to destroy. -/
theorem Account.drop (h : Account m (hold K [.claim])) :
    Account m.dropListener (hold K (if m.listeners = 1 then [.doomed] else [])) := by
  have hc : m.listeners = m.handles + m.held.toNat + (K .claim + 1) := h.claim
  have hpos : 0 < m.listeners := by omega
  have hdrop : m.dropListener = { m with listeners := m.listeners - 1 } := by
    rw [Mem.dropListener, fetchSub_of_pos hpos]
  have hp : m.avail.toNat + K .doomed + K .empty + (if 0 < m.listeners then 1 else 0) = 1 := h.phase
  rw [if_pos hpos] at hp
  rw [hdrop]
  split
  case isTrue h1 =>
    refine ⟨?_, fun _ => h.live hpos, ?_, by change m.listeners - 1 < 2 ^ 32; omega, h.turn, h.link,
      h.watch⟩
    · change m.avail.toNat + (K .doomed + 1) + K .empty + (if 0 < m.listeners - 1 then 1 else 0) = 1
      rw [h1, if_neg (lt_irrefl 0)]
      omega
    · change m.listeners - 1 = m.handles + m.held.toNat + K .claim
      omega
  case isFalse h1 =>
    refine ⟨?_, fun _ => h.live hpos, ?_, by have := h.room; change m.listeners - 1 < 2 ^ 32; omega,
      h.turn, h.link, h.watch⟩
    · change m.avail.toNat + K .doomed + K .empty + (if 0 < m.listeners - 1 then 1 else 0) = 1
      rw [if_pos (by omega)]
      exact hp
    · change m.listeners - 1 = m.handles + m.held.toNat + K .claim
      omega

/-- There is no claim on a slot that is being destroyed, or is empty. -/
theorem Account.listeners_eq_zero (h : Account m K)
    (hx : 0 < K .doomed ∨ 0 < K .empty ∨ 0 < m.avail.toNat) : m.listeners = 0 := by
  have hp := h.phase
  split at hp <;> omega

theorem Account.setFree (h : Account m (hold K [.doomed])) :
    Account { m with state := .free } (hold K [.empty]) := by
  have hz := h.listeners_eq_zero (.inl (hold_pos (List.mem_singleton_self _)))
  have hp : m.avail.toNat + (K .doomed + 1) + K .empty + (if 0 < m.listeners then 1 else 0) = 1 :=
    h.phase
  refine ⟨?_, fun hpos => absurd hpos (by rw [hz]; exact lt_irrefl 0), h.claim, h.room, h.turn,
    h.link, h.watch⟩
  change m.avail.toNat + K .doomed + (K .empty + 1) + (if 0 < m.listeners then 1 else 0) = 1
  omega

theorem Account.free (h : Account m (hold K [.empty])) :
    Account { m with avail := true } (hold K []) := by
  have hp : m.avail.toNat + K .doomed + (K .empty + 1) + (if 0 < m.listeners then 1 else 0) = 1 :=
    h.phase
  refine ⟨?_, h.live, h.claim, h.room, h.turn, h.link, h.watch⟩
  change 1 + K .doomed + K .empty + (if 0 < m.listeners then 1 else 0) = 1
  omega

theorem Account.alloc (ha : m.avail = true) (h : Account m (hold K [])) :
    Account { m with avail := false } (hold K [.empty]) := by
  have hp : m.avail.toNat + K .doomed + K .empty + (if 0 < m.listeners then 1 else 0) = 1 := h.phase
  rw [ha, Bool.toNat_true] at hp
  refine ⟨?_, h.live, h.claim, h.room, h.turn, h.link, h.watch⟩
  change 0 + K .doomed + (K .empty + 1) + (if 0 < m.listeners then 1 else 0) = 1
  omega

/-- A life begins with a slot that nobody counts on. -/
theorem Account.initSlot (k : TaskKind) (h : Account m (hold K [.empty])) :
    Account (m.initSlot k) (hold K [.turn, .claim]) := by
  have hz := h.listeners_eq_zero (.inr (.inl (hold_pos (List.mem_singleton_self _))))
  have hle := m.chained_le_queued
  have hp : m.avail.toNat + K .doomed + (K .empty + 1) + (if 0 < m.listeners then 1 else 0) = 1 :=
    h.phase
  have hc : m.listeners = m.handles + m.held.toNat + K .claim := h.claim
  have ht : m.queued + _ + _ + _ + K .turn ≤ m.held.toNat := h.turn
  have hk : m.linked.toNat + K .link = m.chained := h.link
  refine ⟨?_, fun _ => nofun, ?_, (show 2 < 2 ^ 32 by decide), ?_, ?_, fun _ => nofun⟩
  · change m.avail.toNat + K .doomed + K .empty + 1 = 1
    omega
  · change 2 = m.handles + 1 + (K .claim + 1)
    omega
  · change 0 + 0 + 0 + 0 + (K .turn + 1) ≤ 1
    omega
  · change m.linked.toNat + K .link = 0
    omega

/-- **A move keeps the account.** -/
theorem Account.move {calm : Prop} {m' : Mem} {a' : List Stake}
    (hc : calm → K .turn = 0 ∧ K .watch = 0)
    (hm : Move calm m a m' a') (h : Account m (hold K a)) : Account m' (hold K a') := by
  induction hm with
  | pass s k b hs =>
    exact ⟨h.phase, fun hpos hx => h.live hpos (hs hx), h.claim, h.room, h.turn, h.link, h.watch⟩
  | perm _ hp ih => rw [← hold_perm hp]; exact ih h
  | gone ha hs =>
    refine absurd hs (h.live (h.listeners_pos ?_))
    rcases ha with ha | ha | ha
    · exact .inl (hold_pos ha)
    · exact .inr (.inr (.inr (hold_pos ha)))
    · exact .inr (.inl (hold_pos ha))
  | lapse hi => exact h.lapse hi
  | queue => exact h.queue
  | place => exact h.place
  | takeLocal hm => exact h.takeLocal hm
  | claimShared => exact h.claimShared
  | unmarked hm =>
    have hk := h.link
    rw [Mem.chained, if_neg hm] at hk
    exact absurd (Nat.add_eq_zero_iff.mp hk).2 (Nat.succ_ne_zero _)
  | link => exact h.linkIn
  | unlink hl => exact h.unlink hl
  | arm => exact h.arm
  | disarm ha => exact h.disarm ha
  | off => exact h.off
  | watch hd =>
    exact ⟨h.phase, h.live, h.claim, h.room, h.turn, h.link, fun _ => h.watch (.inl hd)⟩
  | park => exact h.park
  | unpark hp => exact h.unpark hp
  | clearParked => exact h.clearParked
  | wait => exact h.wait
  | leave hw hg => exact h.leave hw hg
  | shut hg => exact h.shut hg
  | release => exact h.release
  | sweep hx hh hm hp hg hd => exact h.sweep (hc hx) hh hm hp hg hd
  | add ha hb => exact h.add ha hb
  | use hx => exact h.use hx
  | back => exact h.back
  | drop h1 => simpa only [if_neg h1] using h.drop
  | dropLast h1 => simpa only [if_pos h1] using h.drop
  | setFree => exact h.setFree
  | free => exact h.free
  | alloc ha => exact h.alloc ha
  | init k => exact h.initSlot k
  | giveUp =>
    exact ⟨h.phase, h.live, h.claim, h.room, h.turn, h.link,
      fun hx => h.watch (.inr (hx.resolve_left nofun))⟩

end Account

section Run

variable {s : Config T Mem (List Job)} {t : T} {c : Act} {m' : Mem} {l' : List Job}

/-- Nobody has the turn in hand, or may take it from a timer. -/
def calm [Fintype T] (loc : T → List Job) : Bool :=
  decide (∀ t, ∀ i ∈ stakes (loc t), i ≠ .turn ∧ i ≠ .watch)

/-- The condition on a step: the next job is fine where it is the one that is done. -/
def Orderly [Fintype T] (s : Config T Mem (List Job)) (t : T) (c : Act) : Prop :=
  (call s.mem c).isNone = true → ∀ j ∈ (s.loc t).head?, j.fine s.mem (calm s.loc) = true

instance [Fintype T] : Decidable (Orderly s t c) :=
  inferInstanceAs (Decidable (_ → _))

variable [Fintype T]

theorem Fresh.account (h : Fresh s) : Account s.mem (inHand stakes s.loc) := by
  have hz (i : Stake) : inHand stakes s.loc i = 0 := inHand_eq_zero fun t => by rw [h.loc t]; nofun
  constructor
  · rw [hz, hz, h.avail, h.listeners]; rfl
  · rw [h.listeners]; exact fun hx => absurd hx (lt_irrefl 0)
  · rw [hz, h.listeners, h.handles, h.held]; rfl
  · rw [h.listeners]; decide
  · rw [hz, Mem.queued, Mem.atGate, h.mark, h.armed, h.parked, h.gate]; exact Nat.zero_le _
  · rw [hz, Mem.chained, h.linked, h.mark]; rfl
  · rw [h.armed]; exact fun _ hx => absurd hx Bool.false_ne_true

/-- What a step does to what its thread has in hand at the front. -/
theorem next_move (hg : Orderly s t c) (h : machine.next s.mem (s.loc t) c = some (m', l')) :
    ∃ a a' b, stakes (s.loc t) = a ++ b ∧ stakes l' = a' ++ b ∧
      Move (calm s.loc = true) s.mem a m' a' := by
  simp only [machine] at h
  split at h
  case h_1 _ _ m₁ js hc =>
    cases h
    exact ⟨[], stakes js, stakes _, rfl, stakes_append .., call_move hc⟩
  case h_2 j l hc hl =>
    obtain ⟨⟨m₁, js⟩, hj, h⟩ := Option.map_eq_some_iff.mp h
    obtain ⟨rfl, rfl⟩ := Prod.mk.inj h
    have hf : j.fine s.mem (calm s.loc) = true :=
      hg (by rw [hc]; rfl) j (by rw [hl]; rfl)
    exact ⟨j.stakes, stakes js, stakes l, by rw [hl]; rfl, stakes_append .., jobStep_move hf hj⟩
  case h_3 => cases h

/-- **A step keeps the account**: what its thread has in hand at the front moves, and all else that
is in hand stays. -/
theorem account_step [DecidableEq T] (hi : Account s.mem (inHand stakes s.loc))
    (hg : Orderly s t c) (h : machine.next s.mem (s.loc t) c = some (m', l')) :
    Account m' (inHand stakes (Function.update s.loc t l')) := by
  obtain ⟨a, a', b, ha, ha', hm⟩ := next_move hg h
  obtain ⟨K, hK, hK'⟩ := exists_hold_update ha ha'
  have hcalm (hc : calm s.loc = true) : K .turn = 0 ∧ K .watch = 0 := by
    have hc := of_decide_eq_true hc
    have h1 : hold K a .turn = 0 := hK ▸ inHand_eq_zero fun t ht => (hc t _ ht).1 rfl
    have h2 : hold K a .watch = 0 := hK ▸ inHand_eq_zero fun t ht => (hc t _ ht).2 rfl
    exact ⟨Nat.eq_zero_of_add_eq_zero_right h1, Nat.eq_zero_of_add_eq_zero_right h2⟩
  rw [hK']
  exact Account.move hcalm hm (hK ▸ hi)

theorem account_of_reach [DecidableEq T] (hs : machine.Reach Fresh Orderly s) :
    Account s.mem (inHand stakes s.loc) :=
  hs.invariant (I := fun s => Account s.mem (inHand stakes s.loc)) (fun _ h => h.account)
    fun _ _ _ _ _ hi hg h => account_step hi hg h

/-- **A linked slot has a claim on it.** In every run on which no sweep takes the claim of a task
whose turn is somewhere, no timer is refused after it went off, and the count does not wrap: a slot
that is marked `QUEUED_SHARED`, or is part of a queue's chain, has a claim on it and is not free. -/
theorem linked_slot_has_claim [DecidableEq T] (hs : machine.Reach Fresh Orderly s)
    (h : s.mem.mark = .shared ∨ s.mem.linked = true) :
    0 < s.mem.listeners ∧ s.mem.state ≠ .free := by
  have ha := account_of_reach hs
  have hpos : 0 < s.mem.listeners := by
    refine ha.listeners_pos ?_
    rcases h with h | h
    · -- The slot is linked, or somebody is about to link it, or has just unlinked it.
      have hk := ha.link
      rw [Mem.chained, if_pos h] at hk
      omega
    · exact .inr (.inr (.inl (by rw [h]; decide)))
  exact ⟨hpos, ha.live hpos⟩

end Run

/-! ### A repeat in the queue as the manager is given up -/

/-- A user, a worker and the manager, before the first spawn. -/
def newSlot : Config (Fin 3) Mem (List Job) where
  mem :=
    { state := .free, kind := .once, task := false, listeners := 0, held := false, mark := .nowhere
      linked := false, armed := false, parked := false, gate := none, avail := true, handles := 0
      manager := true }
  loc := fun _ => []

theorem newSlot_fresh : Fresh newSlot := by
  constructor <;> intros <;> rfl

/-- The user spawns a repeat with a time between its runs. -/
def spawned : List (Fin 3 × Act) :=
  (0, .spawn .repeatEvery false) :: List.replicate 7 (0, .go)

/-- The worker takes it off the queue, runs it, and puts it on its timer. -/
def firstRun : List (Fin 3 × Act) :=
  (1, .pop) :: List.replicate 8 (1, .go) ++ [(1, .again), (1, .go), (1, .go), (1, .go)]

/-- The user drops the handle. -/
def dropped : List (Fin 3 × Act) := [.drop, .go, .no, .go, .go].map (0, ·)

/-- The timer goes off, and the manager puts the repeat on the queue. -/
def requeued : List (Fin 3 × Act) := (2, .fire) :: List.replicate 6 (2, .go)

/-- A repeat that its timer has put on the queue, with no handle left. -/
theorem linked_slot_has_claim_requeued : ∃ s : Config (Fin 3) Mem (List Job),
    machine.Reach Fresh Orderly s ∧ s.mem.linked = true ∧ s.mem.handles = 0 ∧
      0 < s.mem.listeners ∧ s.mem.state ≠ .free := by
  obtain ⟨s, hs, hl, hh⟩ : ∃ s : Config (Fin 3) _ _, machine.Reach Fresh Orderly s ∧
      s.mem.linked = true ∧ s.mem.handles = 0 :=
    (Machine.Reach.init newSlot_fresh).exists_of_run (spawned ++ firstRun ++ dropped ++ requeued)
      (by decide +kernel)
  exact ⟨s, hs, hl, hh, linked_slot_has_claim hs (.inr hl)⟩

/-- The manager does not come back, and `orphaned` sweeps the table. -/
def swept : List (Fin 3 × Act) := (2, .giveUp) :: (2, .orphan) :: List.replicate 14 (2, .go)

/-- **A slot destroyed while it is linked.** The repeat in the queue waits between its runs and is
not running, so the sweep gives its claim back, the last one. The slot is part of the queue's chain
and marked `QUEUED_SHARED`; it is free, and the table has its id to hand out. -/
theorem destroyed_while_linked : ∃ s : Config (Fin 3) Mem (List Job),
    machine.Reach Fresh Machine.unguarded s ∧ s.mem.linked = true ∧ s.mem.mark = .shared ∧
      s.mem.listeners = 0 ∧ s.mem.state = .free ∧ s.mem.avail = true ∧ ∀ t, s.loc t = [] := by
  refine (Machine.Reach.init newSlot_fresh).exists_of_run
    (spawned ++ firstRun ++ dropped ++ requeued ++ swept) ?_
  decide +kernel

end Atap.Sweep
