import Atap.Claims.Count

/-!
# Every life of a slot ends once

The accounts of all slots are kept by every step at which a claim is made with another one
behind it (`accounts_of_reach`). Two things follow.

* A claim is only made on a slot that has one: a job that is about to make a claim has the turn
  or a claim in hand, and the manager's handling of a timeout has the claim of the run it is
  about, for as long as that run is not dropped.
* A slot is destroyed once for every time it was filled, and its id is put back once for every
  time it was handed out.

The handling of a timeout makes its claim on the series of a run without one of its own. When
the run is dropped between the look at the series and the claim, the series can be on its way to
being destroyed, and the claim brings it back: it is destroyed, and its id freed, a second time
(`destroyed_twice`).
-/

namespace Atap.Claims

variable {T : Type*}

/-- Before the first spawn: every slot is `Free`, and no thread is at work. -/
structure Fresh (s : Config T Mem (List Job)) : Prop where
  free : ∀ x, s.mem.free x = true
  listeners : ∀ x, s.mem.listeners x = 0
  held : ∀ x, s.mem.held x = false
  task : ∀ x, s.mem.task x = none
  rest : ∀ x r, s.mem.rest x r = false
  avail : ∀ x, s.mem.avail x = true
  handles : ∀ x, s.mem.handles x = 0
  runs : ∀ x, s.mem.runs x = ∅
  lives : ∀ x, s.mem.lives x = 0
  destroyed : ∀ x, s.mem.destroyed x = 0
  allocs : ∀ x, s.mem.allocs x = 0
  freed : ∀ x, s.mem.freed x = 0
  loc : ∀ t, s.loc t = []

section Run

variable [Fintype T]

theorem Fresh.inHand {s : Config T Mem (List Job)} (h : Fresh s) (i : Stake) :
    inHand stakes s.loc i = 0 :=
  inHand_eq_zero fun t => by rw [h.loc t]; exact List.not_mem_nil

theorem Fresh.account {s : Config T Mem (List Job)} (h : Fresh s) (x : ℕ) :
    Account s.mem (Atap.inHand stakes s.loc) x := by
  refine ⟨?_, ?_, ?_, ?_, ?_, ?_, ⟨none, fun s' => ?_, ?_, fun p => ?_⟩, ?_, ?_⟩
  · simp [atRest, h.rest, h.inHand]
  · simp [h.handles, h.held, h.runs, h.listeners, h.inHand]
  · simp [h.listeners]
  · simp [h.avail, h.listeners, live, h.inHand]
  · simp [h.free, h.listeners, live, h.inHand]
  · simp [h.task, h.inHand]
  · simp [h.inHand]
  · simp [h.task]
  · simp [h.runs]
  · simp [h.lives, h.destroyed, h.listeners, live, h.inHand]
  · simp [h.allocs, h.avail, h.freed]

variable [DecidableEq T] {m' : Mem} {l' : List Job} {c : Act} {s : Config T Mem (List Job)} {t : T}

/-- **A step keeps the account of every slot**: what its thread has in hand at the front moves,
and all else that is in hand stays. -/
theorem accounts_step (hi : ∀ x, Account s.mem (inHand stakes s.loc) x) (hg : Guarded s t c)
    (h : machine.next s.mem (s.loc t) c = some (m', l')) (x : ℕ) :
    Account m' (inHand stakes (Function.update s.loc t l')) x := by
  obtain ⟨a, a', b, ha, ha', hm⟩ := next_move hg h
  obtain ⟨K, hK, hK'⟩ := exists_hold_update ha ha'
  rw [hK']
  exact Account.move hm (hK ▸ hi) x

theorem accounts_of_reach (hs : machine.Reach Fresh Guarded s) (x : ℕ) :
    Account s.mem (inHand stakes s.loc) x :=
  hs.invariant (I := fun s => ∀ x, Account s.mem (inHand stakes s.loc) x) (fun _ h => h.account)
    (fun _ _ _ _ _ hi hg h => accounts_step hi hg h) x

omit [DecidableEq T] in
/-- A job that is about to make a claim on a slot has a stake that keeps the slot alive. -/
theorem listeners_pos_of_adds {j : Job} {x : ℕ} (ha : ∀ x, Account s.mem (inHand stakes s.loc) x)
    (hj : j ∈ s.loc t) (hx : j.adds = some x) (hb : Backed s.mem j) : 0 < s.mem.listeners x := by
  have hin {i : Stake} (hi : i ∈ j.stakes) : 0 < inHand stakes s.loc i :=
    inHand_pos (List.mem_flatMap.mpr ⟨j, hj, hi⟩)
  refine (ha x).listeners_pos ?_
  unfold Job.adds at hx
  split at hx
  · obtain rfl := Option.some.inj hx
    exact .inr (.inr (.inl (hin (List.mem_cons_self ..))))
  · obtain rfl := Option.some.inj hx
    exact .inr (.inl (hin (List.mem_cons_self ..)))
  · obtain rfl := Option.some.inj hx
    exact .inl (hin (List.mem_cons_self ..))
  · obtain rfl := Option.some.inj hx
    exact .inl (hin (List.mem_cons_self ..))
  · obtain rfl := Option.some.inj hx
    exact .inr (.inr (.inr ⟨_, hb⟩))
  · cases hx

/-- **Claims are made on live slots, and every life ends once.** In every run on which a claim is
made while another one is behind it: whatever is about to make a claim finds one there, for as
long as it is about to; every life of a slot but the one going on, if one is, was destroyed
exactly once; and every id handed out but the one in use, if it is, was put back exactly once. -/
theorem claims_on_live_slots (hs : machine.Reach Fresh Guarded s) :
    (∀ t, ∀ j ∈ s.loc t, ∀ x, j.adds = some x → Backed s.mem j →
      1 ≤ s.mem.listeners x ∧ s.mem.free x = false) ∧
    (∀ x, s.mem.lives x =
        s.mem.destroyed x + (live (s.mem.listeners x) + inHand stakes s.loc (.doomed x)) ∧
      live (s.mem.listeners x) + inHand stakes s.loc (.doomed x) ≤ 1) ∧
    (∀ x, s.mem.allocs x = s.mem.freed x + (!s.mem.avail x).toNat) ∧
    ∀ x, s.mem.listeners x = 0 → (∀ t, s.loc t = []) →
      s.mem.lives x = s.mem.destroyed x ∧ s.mem.allocs x = s.mem.freed x := by
  have ha := accounts_of_reach hs
  refine ⟨fun t j hj x hx hb => ?_, fun x => ?_, fun x => ?_, fun x h0 hl => ?_⟩
  · have hpos := listeners_pos_of_adds ha hj hx hb
    exact ⟨hpos, (ha x).free_eq_false hpos⟩
  · have hp := (ha x).phase
    have hv := (ha x).lives
    omega
  · have hi := (ha x).ids
    cases hav : s.mem.avail x <;> simp_all
  · have hin (i : Stake) : inHand stakes s.loc i = 0 :=
      total_eq_zero_of_forall fun t => by rw [hl t]; rfl
    have hp := (ha x).phase
    have hv := (ha x).lives
    have hi := (ha x).ids
    simp only [hin, h0, live, lt_irrefl, if_false] at hp hv
    omega

end Run

/-! ### A series timed out as its last run ends -/

/-- A user, a worker and the manager, before the first spawn. -/
def newSlots : Config (Fin 3) Mem (List Job) where
  mem :=
    { free := fun _ => true, listeners := fun _ => 0, held := fun _ => false
      task := fun _ => none, parent := fun _ => none, series := fun _ => false
      deadline := fun _ => 0, rest := fun _ _ => false, avail := fun _ => true
      handles := fun _ => 0, runs := fun _ => ∅, lives := fun _ => 0, destroyed := fun _ => 0
      allocs := fun _ => 0, freed := fun _ => 0 }
  loc := fun _ => []

theorem newSlots_fresh : Fresh newSlots := by
  constructor <;> intros <;> rfl

/-- The user spawns a schedule of one run with a timeout, and drops its handle. -/
def scheduled : List (Fin 3 × Act) :=
  [.spawn .series, .id 0, .go, .go, .go, .go, .go, .id 1, .time 0, .go, .go, .go, .no, .go, .go,
    .go, .go, .go, .drop 0, .go, .no, .go, .go].map (0, ·)

/-- The worker begins the run, with a deadline. -/
def begun : List (Fin 3 × Act) := [.pick 1, .go, .go, .time 5].map (1, ·)

/-- The manager handles the timeout up to the claim on the series. -/
def timing : List (Fin 3 × Act) := [.timeout 1 5, .go, .go, .go, .go].map (2, ·)

/-- The manager is about to make its claim on the series of a run that is not dropped. -/
theorem claims_on_live_slots_timing : ∃ s, machine.Reach Fresh Guarded s ∧
    Job.timeAdd 1 0 ∈ s.loc (2 : Fin 3) ∧ 1 ≤ s.mem.listeners 0 ∧ s.mem.free 0 = false ∧
      s.mem.lives 0 =
        s.mem.destroyed 0 + (live (s.mem.listeners 0) + inHand stakes s.loc (.doomed 0)) := by
  obtain ⟨s, hs, hloc, hrun⟩ : ∃ s, machine.Reach Fresh Guarded s ∧
      s.loc (2 : Fin 3) = [.timeAdd 1 0] ∧ 1 ∈ s.mem.runs 0 :=
    (Machine.Reach.init newSlots_fresh).exists_of_run (scheduled ++ begun ++ timing)
      (by decide +kernel)
  have hmem : Job.timeAdd 1 0 ∈ s.loc 2 := hloc ▸ List.mem_singleton_self _
  obtain ⟨hadd, hlives, -⟩ := claims_on_live_slots hs
  obtain ⟨hpos, hfree⟩ := hadd 2 _ hmem 0 rfl hrun
  exact ⟨s, hs, hmem, hpos, hfree, (hlives 0).1⟩

/-- The worker ends the run and drops it, and with it the last claim on the series. -/
def ended : List (Fin 3 × Act) := [.go, .go, .go, .go, .go, .go].map (1, ·)

/-- The manager makes its claim, finds the run over, and drops the claim again: it destroys the
series and frees its id. -/
def timedOut : List (Fin 3 × Act) := [.go, .no, .go, .go, .go, .go, .go, .go, .go].map (2, ·)

/-- The worker destroys the series, and frees its id. -/
def destroyed : List (Fin 3 × Act) := [.go, .go, .go, .go, .go].map (1, ·)

/-- **A life that ends twice.** The schedule in slot `0` was filled once and its id handed out
once; it is destroyed twice, and its id is put on the free list twice. -/
theorem destroyed_twice : ∃ s, machine.Reach Fresh Machine.unguarded s ∧
    s.mem.lives 0 = 1 ∧ s.mem.destroyed 0 = 2 ∧ s.mem.allocs 0 = 1 ∧ s.mem.freed 0 = 2 ∧
      s.loc (2 : Fin 3) = [] := by
  refine (Machine.Reach.init newSlots_fresh).exists_of_run
    (scheduled ++ begun ++ timing ++ ended ++ timedOut ++ destroyed) ?_
  decide +kernel

end Atap.Claims
