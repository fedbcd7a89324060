import Atap.Claims.Moves

/-!
# Every claim is counted

The **account** of a slot sets what there is of it in the memory against what the threads have
in hand, the latter as a number for each stake.

* `Account.turn`: the executor's turn is in one place, and only while the executor has its claim.
* `Account.claim`: handles, the executor, the runs of a series and whatever a thread has in hand
  are the claims, and `listeners` is their number.
* `Account.phase`: an id is available, or its slot is being filled, or it is live, or one thread
  is somewhere in the ending of it. `Account.used` says when the slot does not read `Free`.
* `Account.kept` and `Account.series`: a slot has one task at most, in it or out of it, and the
  series the task publishes into counts it as a run.
* `Account.lives` and `Account.ids`: what was begun was ended once, but for what is going on.

`Account.move` is the one result: every move keeps every account. Each move has its lemma, and
in it only the laws that speak of what the move touches are proved again.
-/

namespace Atap.Claims

open Function

/-- How many places a turn rests in. -/
def atRest (r : Place → Bool) : ℕ :=
  (r .pool).toNat + (r .timer).toNat + (r .park).toNat + (r .gate).toNat + (r .clock).toNat

theorem atRest_put_le (r : Place → Bool) (p : Place) :
    atRest (update r p true) ≤ atRest r + 1 := by
  cases p <;> simp [atRest] <;> omega

theorem atRest_take_le (r : Place → Bool) (p : Place) :
    atRest (update r p false) ≤ atRest r := by
  cases p <;> simp [atRest]

theorem atRest_take_lt {r : Place → Bool} {p : Place} (h : r p = true) :
    atRest (update r p false) < atRest r := by
  cases p <;> simp [atRest, h]

/-- A slot with a claim on it is live. -/
def live (listeners : ℕ) : ℕ := if 0 < listeners then 1 else 0

theorem live_of_pos {n : ℕ} (h : 0 < n) : live n = 1 := if_pos h

/-- The task of the slot `x` publishes into `s`: the task in the slot, as well as those `out` of
it, in `box`. It is one of the runs there. -/
structure Publishes (task : Option (Option ℕ)) (runs : ℕ → Finset ℕ) (out : ℕ)
    (box : Option ℕ → ℕ) (x : ℕ) (s : Option ℕ) : Prop where
  box_eq : ∀ s', box s' = if s' = s then out else 0
  task_eq : ∀ s', task = some s' → s' = s
  mem_runs : ∀ p, x ∈ runs p ↔ s = some p ∧ 0 < task.isSome.toNat + out

/-- **The account of a slot**: what there is of it in the memory, and what the threads have in
hand. -/
structure Account (m : Mem) (K : Stake → ℕ) (x : ℕ) : Prop where
  turn : atRest (m.rest x) + K (.turn x) + K (.run x) ≤ (m.held x).toNat
  claim : m.handles x + (m.held x).toNat + (m.runs x).card + K (.claim x) = m.listeners x
  room : m.listeners x < 2 ^ 32
  phase : (m.avail x).toNat + K (.init x) + live (m.listeners x) + K (.doomed x) +
    K (.claiming x) + K (.dropping x) + K (.clearing x) + K (.freeing x) = 1
  used : (!m.free x).toNat = live (m.listeners x) + K (.doomed x) + K (.claiming x) +
    K (.dropping x) + K (.clearing x)
  kept : (m.task x).isSome.toNat + K (.run x) ≤
    live (m.listeners x) + K (.doomed x) + K (.claiming x)
  series : ∃ s, Publishes (m.task x) m.runs (K (.run x) + K (.dropping x)) (K <| .box x ·) x s
  lives : m.lives x = m.destroyed x + live (m.listeners x) + K (.doomed x)
  ids : m.allocs x + (m.avail x).toNat = m.freed x + 1

variable {K : Stake → ℕ} {x y : ℕ} {s : Option ℕ} {i : Stake} {m m' : Mem} {a a' : List Stake}

@[simp] theorem hold_claimOn (y : ℕ) : hold K (claimOn s) (.claim y) =
    K (.claim y) + if s = some y then 1 else 0 := by
  cases s <;> simp [claimOn, hold_cons]

@[simp] theorem hold_claimOn_of_ne (h : ∀ p, i ≠ .claim p) : hold K (claimOn s) i = K i := by
  cases s with
  | none => rfl
  | some p => simp [claimOn, hold_cons, (h p).symm]

/-! ### Turns -/

theorem Account.lapse (h : Account m (hold K [.turn x]) y) : Account m (hold K []) y := by
  refine ⟨?_, h.claim, h.room, h.phase, h.used, h.kept, h.series, h.lives, h.ids⟩
  have := h.turn
  simp only [hold, List.count_cons, List.count_nil] at *
  omega

theorem Account.put {r : Place} (h : Account m (hold K [.turn x]) y) :
    Account (m.put x r) (hold K []) y := by
  refine ⟨?_, h.claim, h.room, h.phase, h.used, h.kept, h.series, h.lives, h.ids⟩
  have hr := atRest_put_le (m.rest x) r
  have ht := h.turn
  rcases eq_or_ne y x with rfl | hy
  · simp [hold, Mem.put] at *
    omega
  · simpa [hold, Mem.put, hy, hy.symm] using ht

theorem Account.take {r : Place} (hr : m.rest x r = true) (h : Account m (hold K a) y) :
    Account (m.take x r) (hold K (.turn x :: a)) y := by
  refine ⟨?_, h.claim, h.room, h.phase, h.used, h.kept, h.series, h.lives, h.ids⟩
  have hr := atRest_take_lt hr
  have ht := h.turn
  rcases eq_or_ne y x with rfl | hy
  · simp [hold, Mem.take] at *
    omega
  · simpa [hold, Mem.take, hy, List.count_cons, hy.symm] using ht

theorem Account.clearParked (h : Account m (hold K [.clearing x]) y) :
    Account (m.take x .park) (hold K [.clearing x]) y := by
  refine ⟨?_, h.claim, h.room, h.phase, h.used, h.kept, h.series, h.lives, h.ids⟩
  have hr := atRest_take_le (m.rest x) .park
  have ht := h.turn
  rcases eq_or_ne y x with rfl | hy
  · simp [hold, Mem.take] at *
    omega
  · simpa [hold, Mem.take, hy] using ht

theorem Account.release (hh : m.held x = true) (h : Account m (hold K [.turn x]) y) :
    Account { m with held := update m.held x false } (hold K [.claim x]) y := by
  refine ⟨?_, ?_, h.room, h.phase, h.used, h.kept, h.series, h.lives, h.ids⟩
  · have ht := h.turn
    rcases eq_or_ne y x with rfl | hy
    · simp [hold, hh] at *
      omega
    · simpa [hold, hy, hy.symm] using ht
  · have hc := h.claim
    rcases eq_or_ne y x with rfl | hy
    · simp [hold, hh] at *
      omega
    · simpa [hold, hy, hy.symm] using hc

/-! ### Claims -/

/-- Whoever has the turn or a claim, or publishes into a series, keeps its slot alive. -/
theorem Account.listeners_pos (h : Account m K x)
    (hx : 0 < K (.turn x) ∨ 0 < K (.run x) ∨ 0 < K (.claim x) ∨ (m.runs x).Nonempty) :
    0 < m.listeners x := by
  have ht := h.turn
  have hc := h.claim
  rcases hx with hx | hx | hx | hx
  · omega
  · omega
  · omega
  · have := hx.card_pos
    omega

theorem Account.free_eq_false (h : Account m K x) (hx : 0 < m.listeners x) : m.free x = false := by
  have hu := h.used
  rw [live_of_pos hx] at hu
  cases hf : m.free x with
  | false => rfl
  | true =>
    rw [hf] at hu
    simp only [Bool.not_true, Bool.toNat_false] at hu
    omega

theorem Account.add (hx : 0 < m.listeners x) (hb : m.listeners x + 1 < 2 ^ 32)
    (h : Account m (hold K a) y) : Account (m.addListener x) (hold K (.claim x :: a)) y := by
  have hadd := fetchAdd_of_lt hb
  have hl : live ((m.addListener x).listeners y) = live (m.listeners y) := by
    rcases eq_or_ne y x with rfl | hy
    · simp [live, Mem.addListener, hadd, hx]
    · simp [Mem.addListener, hy]
  refine ⟨h.turn, ?_, ?_, hl ▸ h.phase, hl ▸ h.used, hl ▸ h.kept, h.series,
    hl ▸ h.lives, h.ids⟩
  · have hc := h.claim
    rcases eq_or_ne y x with rfl | hy
    · simp [hold, Mem.addListener, hadd] at *
      omega
    · simpa [hold, Mem.addListener, hy, List.count_cons, hy.symm] using hc
  · have hr := h.room
    rcases eq_or_ne y x with rfl | hy
    · simpa [Mem.addListener, hadd] using hb
    · simpa [Mem.addListener, hy] using hr

theorem Account.use (hx : 0 < m.handles x) (h : Account m (hold K []) y) :
    Account { m with handles := update m.handles x (m.handles x - 1) }
      (hold K [.claim x]) y := by
  refine ⟨h.turn, ?_, h.room, h.phase, h.used, h.kept, h.series, h.lives, h.ids⟩
  have hc := h.claim
  rcases eq_or_ne y x with rfl | hy
  · simp [hold] at *
    omega
  · simpa [hold, hy, hy.symm] using hc

theorem Account.back (h : Account m (hold K [.claim x]) y) :
    Account { m with handles := update m.handles x (m.handles x + 1) } (hold K []) y := by
  refine ⟨h.turn, ?_, h.room, h.phase, h.used, h.kept, h.series, h.lives, h.ids⟩
  have hc := h.claim
  rcases eq_or_ne y x with rfl | hy
  · simp [hold] at *
    omega
  · simpa [hold, hy, hy.symm] using hc

theorem Account.claim_dropListener (hx : 0 < m.listeners x) {b : List Stake}
    (hb : b.count (.claim y) = 0) (h : Account m (hold K [.claim x]) y) :
    (m.handles y + (m.held y).toNat + (m.runs y).card + hold K b (.claim y) =
      (m.dropListener x).listeners y) ∧ (m.dropListener x).listeners y < 2 ^ 32 := by
  have hsub := fetchSub_of_pos (w := 32) hx
  have hc := h.claim
  have hr := h.room
  rcases eq_or_ne y x with rfl | hy
  · simp [hold, Mem.dropListener, hsub, hb] at *
    omega
  · simp [hold, Mem.dropListener, hy, hy.symm, hb] at *
    omega

theorem Account.drop (hx : 0 < m.listeners x) (h1 : m.listeners x ≠ 1)
    (h : Account m (hold K [.claim x]) y) : Account (m.dropListener x) (hold K []) y := by
  have hsub := fetchSub_of_pos (w := 32) hx
  have hl : live ((m.dropListener x).listeners y) = live (m.listeners y) := by
    rcases eq_or_ne y x with rfl | hy
    · have hgt : 1 < m.listeners y := by omega
      simp [live, Mem.dropListener, hsub, hx, hgt]
    · simp [Mem.dropListener, hy]
  obtain ⟨hc, hr⟩ := h.claim_dropListener hx (b := []) rfl
  exact ⟨h.turn, hc, hr, hl ▸ h.phase, hl ▸ h.used, hl ▸ h.kept, h.series,
    hl ▸ h.lives, h.ids⟩

/-- The last claim takes the slot's life with it, and leaves it to be destroyed. -/
theorem Account.dropLast (h1 : m.listeners x = 1) (h : Account m (hold K [.claim x]) y) :
    Account (m.dropListener x) (hold K [.doomed x]) y := by
  have hl : live ((m.dropListener x).listeners y) + [Stake.doomed x].count (.doomed y) =
      live (m.listeners y) := by
    rcases eq_or_ne y x with rfl | hy
    · simp [live, Mem.dropListener, h1, fetchSub]
    · simp [Mem.dropListener, hy, hy.symm]
  obtain ⟨hc, hr⟩ := h.claim_dropListener (h1 ▸ Nat.one_pos) (b := [.doomed x]) rfl
  refine ⟨h.turn, hc, hr, ?_, ?_, ?_, h.series, ?_, h.ids⟩
  · have hp := h.phase
    change (m.avail y).toNat + _ + _ + _ + _ + _ + _ + _ = 1
    simp [hold] at *
    omega
  · have hu := h.used
    change (!m.free y).toNat = _
    simp [hold] at *
    omega
  · have hk := h.kept
    change (m.task y).isSome.toNat + _ ≤ _
    simp [hold] at *
    omega
  · have hv := h.lives
    change m.lives y = m.destroyed y + _ + _
    simp [hold] at *
    omega

/-! ### The task in the slot -/

namespace Publishes

variable {task : Option (Option ℕ)} {runs : ℕ → Finset ℕ} {out : ℕ} {box : Option ℕ → ℕ}

theorem eq_of_box (h : Publishes task runs out box x s) {s' : Option ℕ} (hb : 0 < box s') :
    s' = s := by
  by_contra hne
  have := h.box_eq s'
  rw [if_neg hne] at this
  omega

/-- The task is taken out of the slot. -/
theorem takeOut {s₀ : Option ℕ} (h : Publishes (some s) runs out box x s₀) :
    Publishes none runs (out + 1) (fun s' => box s' + if s = s' then 1 else 0) x s₀ := by
  obtain rfl := h.task_eq s rfl
  refine ⟨fun s' => ?_, nofun, fun p => ?_⟩
  · rw [h.box_eq]
    by_cases hs : s = s'
    · simp [hs]
    · simp [hs, Ne.symm hs]
  · rw [h.mem_runs]
    simp

/-- The task is put back into the slot. -/
theorem putBack {s₀ : Option ℕ}
    (h : Publishes none runs (out + 1) (fun s' => box s' + if s = s' then 1 else 0) x s₀) :
    Publishes (some s) runs out box x s₀ := by
  have hb : 0 < box s + if s = s then 1 else 0 := by simp
  obtain rfl := h.eq_of_box hb
  refine ⟨fun s' => ?_, by simp, fun p => ?_⟩
  · have := h.box_eq s'
    by_cases hs : s = s'
    · simp_all
    · simp_all [Ne.symm hs]
  · rw [h.mem_runs]
    simp

/-- The last task out of the slot is dropped. -/
theorem dropOut {s₀ : Option ℕ}
    (h : Publishes none m.runs 1 (fun s' => box s' + if s = s' then 1 else 0) x s₀) :
    Publishes none (m.dropRun x s).runs 0 box x s := by
  have hb : 0 < box s + if s = s then 1 else 0 := by simp
  obtain rfl := h.eq_of_box hb
  refine ⟨fun s' => ?_, nofun, fun p => ?_⟩
  · have := h.box_eq s'
    by_cases hs : s = s'
    · simp_all
    · simp_all [Ne.symm hs]
  · have hm := h.mem_runs p
    cases s with
    | none => simpa [Mem.dropRun] using hm
    | some q =>
      rcases eq_or_ne p q with rfl | hp
      · simp [Mem.dropRun]
      · simpa [Mem.dropRun, hp, hp.symm] using hm

end Publishes

theorem mem_dropRun_of_ne (hy : y ≠ x) (p : ℕ) : y ∈ (m.dropRun x s).runs p ↔ y ∈ m.runs p := by
  cases s with
  | none => rfl
  | some q => rcases eq_or_ne p q with rfl | hp <;> simp_all [Mem.dropRun]

theorem Account.task_eq_none (h : Account m K x) (hr : 0 < K (.run x) + K (.dropping x)) :
    m.task x = none := by
  have hk := h.kept
  have hp := h.phase
  cases ht : m.task x with
  | none => rfl
  | some s =>
    rw [ht, Option.isSome_some, Bool.toNat_true] at hk
    omega

/-- The task goes out of the slot with the turn. -/
theorem Account.takeTask (hs : m.task x = some s) (h : Account m (hold K [.turn x]) y) :
    Account (m.setTask x none) (hold K [.run x, .box x s]) y := by
  have ht := h.turn
  have hk := h.kept
  obtain ⟨s₀, hp⟩ := h.series
  refine ⟨?_, h.claim, h.room, h.phase, h.used, ?_, ⟨s₀, ?_⟩, h.lives, h.ids⟩
  · simp [hold_cons, Mem.setTask] at *
    omega
  · rcases eq_or_ne y x with rfl | hy
    · simp [hold_cons, Mem.setTask, hs] at *
      omega
    · simpa [hold_cons, Mem.setTask, hy, hy.symm] using hk
  · rcases eq_or_ne y x with rfl | hy
    · rw [hs] at hp
      simpa [hold_cons, Mem.setTask, add_right_comm] using hp.takeOut
    · simpa [hold_cons, Mem.setTask, hy, hy.symm] using hp

/-- The task goes back into its slot. -/
theorem Account.putTask (h : Account m (hold K [.run x, .box x s]) y) :
    Account (m.setTask x (some s)) (hold K [.turn x]) y := by
  have ht := h.turn
  have hk := h.kept
  have hph := h.phase
  obtain ⟨s₀, hp⟩ := h.series
  refine ⟨?_, h.claim, h.room, h.phase, h.used, ?_, ⟨s₀, ?_⟩, h.lives, h.ids⟩
  · simp [hold_cons, Mem.setTask] at *
    omega
  · rcases eq_or_ne y x with rfl | hy
    · simp [hold_cons, Mem.setTask] at *
      omega
    · simpa [hold_cons, Mem.setTask, hy, hy.symm] using hk
  · rcases eq_or_ne y x with rfl | hy
    · have hn : m.task y = none := h.task_eq_none (by simp [hold_cons])
      have hb : Publishes (some s) m.runs (K (.run y) + K (.dropping y)) (K <| .box y ·) y s₀ :=
        .putBack (by simpa [hold_cons, hn, add_right_comm] using hp)
      simpa [hold_cons, Mem.setTask] using hb
    · simpa [hold_cons, Mem.setTask, hy, hy.symm] using hp

theorem dropRun_eq : m.dropRun x s = { m with runs := (m.dropRun x s).runs } := by
  cases s <;> rfl

theorem Account.mem_runs_of_box {p : ℕ} (h : Account m K x) (hb : 0 < K (.box x (some p))) :
    x ∈ m.runs p := by
  obtain ⟨s₀, hp⟩ := h.series
  obtain rfl := hp.eq_of_box hb
  have hbox := hp.box_eq (some p)
  rw [if_pos rfl] at hbox
  exact (hp.mem_runs p).mpr ⟨rfl, by omega⟩

/-- A task out of its slot is dropped: the claim on its series is there to be given back. -/
theorem claim_dropRun (hx : ∀ p, s = some p → x ∈ m.runs p)
    (h : m.handles y + (m.held y).toNat + (m.runs y).card + K (.claim y) = m.listeners y) :
    m.handles y + (m.held y).toNat + ((m.dropRun x s).runs y).card +
      hold K (claimOn s) (.claim y) = m.listeners y := by
  cases s with
  | none => simpa [Mem.dropRun] using h
  | some p =>
    rcases eq_or_ne y p with rfl | hy
    · have hc := Finset.card_erase_add_one (hx y rfl)
      simp [Mem.dropRun] at *
      omega
    · simpa [Mem.dropRun, hy, hy.symm] using h

theorem series_dropRun {n : ℕ}
    (h : ∃ s', Publishes (m.task y) m.runs (n + if x = y then 1 else 0)
      (fun s' => K (.box y s') + if x = y ∧ s = s' then 1 else 0) y s')
    (ho : x = y → n = 0) (hn : x = y → m.task y = none) :
    ∃ s', Publishes (m.task y) (m.dropRun x s).runs n (K <| .box y ·) y s' := by
  obtain ⟨s₀, hp⟩ := h
  by_cases hy : x = y
  · subst hy
    rw [ho rfl, hn rfl] at *
    have hp' : Publishes none m.runs 1 (fun s' => K (.box x s') + if s = s' then 1 else 0) x
        s₀ := by
      simpa using hp
    exact ⟨s, hp'.dropOut⟩
  · refine ⟨s₀, ?_, hp.task_eq, fun p => ?_⟩
    · simpa [hy] using hp.box_eq
    · rw [mem_dropRun_of_ne (Ne.symm hy)]
      simpa [hy] using hp.mem_runs p

theorem Account.dropTask (hx : Account m (hold K [.run x, .box x s]) x)
    (h : Account m (hold K [.run x, .box x s]) y) :
    Account (m.dropRun x s) (hold K (.turn x :: claimOn s)) y := by
  have hm (p : ℕ) (hp : s = some p) : x ∈ m.runs p :=
    hx.mem_runs_of_box (by simp [hold_cons, hp])
  have hk := h.kept
  have hp := h.phase
  rw [dropRun_eq]
  refine ⟨?_, ?_, h.room, ?_, ?_, ?_, ?_, ?_, h.ids⟩
  · have ht := h.turn
    simp [hold_cons] at *
    omega
  · simpa [hold_cons] using claim_dropRun (K := K) hm h.claim
  · simpa [hold_cons] using hp
  · simpa [hold_cons] using h.used
  · simp [hold_cons] at *
    omega
  · have hs := series_dropRun (K := K) (x := x) (y := y) (s := s) (m := m)
      (n := K (.run y) + K (.dropping y))
      (by simpa [hold_cons, add_right_comm] using h.series)
      (by rintro rfl; simp [hold_cons] at hk hp; omega)
      (by rintro rfl; exact h.task_eq_none (by simp [hold_cons]))
    simpa [hold_cons] using hs
  · simpa [hold_cons] using h.lives

/-! ### The life of a slot -/

theorem Account.alloc (ha : m.avail x = true) (h : Account m (hold K a) y) :
    Account { m with
      avail := update m.avail x false
      allocs := update m.allocs x (m.allocs x + 1) } (hold K (.init x :: a)) y := by
  refine ⟨h.turn, h.claim, h.room, ?_, h.used, h.kept, h.series, h.lives, ?_⟩
  · have hp := h.phase
    rcases eq_or_ne y x with rfl | hy
    · simp [hold_cons, ha] at *
      omega
    · simpa [hold_cons, hy, hy.symm] using hp
  · have hi := h.ids
    rcases eq_or_ne y x with rfl | hy
    · simp [ha] at *
      omega
    · simpa [hy] using hi

theorem Account.refused (h : Account m (hold K (.init x :: a)) y) :
    Account m (hold K (.freeing x :: a)) y := by
  refine ⟨h.turn, h.claim, h.room, ?_, h.used, h.kept, h.series, h.lives, h.ids⟩
  have hp := h.phase
  simp [hold_cons] at *
  omega

theorem Account.destroy (h : Account m (hold K [.doomed x]) y) :
    Account { m with
      parent := update m.parent x none
      destroyed := update m.destroyed x (m.destroyed x + 1) }
      (hold K [.claiming x]) y := by
  refine ⟨h.turn, h.claim, h.room, ?_, ?_, ?_, h.series, ?_, h.ids⟩
  · have hp := h.phase
    simp [hold_cons] at *
    omega
  · have hu := h.used
    simp [hold_cons] at *
    omega
  · have hk := h.kept
    simp [hold_cons] at *
    omega
  · have hv := h.lives
    rcases eq_or_ne y x with rfl | hy
    · simp [hold_cons] at *
      omega
    · simpa [hold_cons, hy, hy.symm] using hv

theorem Account.claimDead (hs : m.task x = some s) (h : Account m (hold K [.claiming x]) y) :
    Account (m.setTask x none) (hold K [.dropping x, .box x s]) y := by
  have hk := h.kept
  have hp := h.phase
  obtain ⟨s₀, hsr⟩ := h.series
  refine ⟨h.turn, h.claim, h.room, ?_, ?_, ?_, ⟨s₀, ?_⟩, h.lives, h.ids⟩
  · simp [hold_cons, Mem.setTask] at *
    omega
  · have hu := h.used
    simp [hold_cons, Mem.setTask] at *
    omega
  · rcases eq_or_ne y x with rfl | hy
    · simp [hold_cons, Mem.setTask, hs] at *
      omega
    · simpa [hold_cons, Mem.setTask, hy, hy.symm] using hk
  · rcases eq_or_ne y x with rfl | hy
    · rw [hs] at hsr
      simpa [hold_cons, Mem.setTask, add_assoc] using hsr.takeOut
    · simpa [hold_cons, Mem.setTask, hy, hy.symm] using hsr

/-- A slot without claims is nobody's turn. -/
theorem Account.idle (h : Account m K x) (hl : live (m.listeners x) = 0) :
    m.handles x = 0 ∧ m.held x = false ∧ m.runs x = ∅ ∧ K (.claim x) = 0 ∧ K (.turn x) = 0 ∧
      K (.run x) = 0 := by
  have ht := h.turn
  have hc := h.claim
  have h0 : m.listeners x = 0 := by
    by_contra hne
    rw [live_of_pos (Nat.pos_of_ne_zero hne)] at hl
    cases hl
  have hh : (m.held x).toNat = 0 := by omega
  refine ⟨by omega, ?_, Finset.card_eq_zero.mp (by omega), by omega, by omega, by omega⟩
  cases hb : m.held x with
  | false => rfl
  | true =>
    rw [hb] at hh
    cases hh

theorem Account.claimNone (hs : m.task x = none) (h : Account m (hold K [.claiming x]) y) :
    Account m (hold K [.clearing x]) y := by
  have hk := h.kept
  have hp := h.phase
  refine ⟨h.turn, h.claim, h.room, ?_, ?_, ?_, h.series, h.lives, h.ids⟩
  · simp [hold_cons] at *
    omega
  · have hu := h.used
    simp [hold_cons] at *
    omega
  · rcases eq_or_ne y x with rfl | hy
    · have hl : live (m.listeners y) = 0 := by
        simp [hold_cons] at hp
        omega
      obtain ⟨-, -, -, -, -, hr⟩ := h.idle hl
      simp [hold_cons] at hr
      simp [hold_cons, hs, hr]
    · simpa [hold_cons, hy, hy.symm] using hk

theorem Account.dropDead (hx : Account m (hold K [.dropping x, .box x s]) x)
    (h : Account m (hold K [.dropping x, .box x s]) y) :
    Account (m.dropRun x s) (hold K (.clearing x :: claimOn s)) y := by
  have hm (p : ℕ) (hp : s = some p) : x ∈ m.runs p :=
    hx.mem_runs_of_box (by simp [hold_cons, hp])
  have hp := h.phase
  rw [dropRun_eq]
  refine ⟨?_, ?_, h.room, ?_, ?_, ?_, ?_, ?_, h.ids⟩
  · simpa [hold_cons] using h.turn
  · simpa [hold_cons] using claim_dropRun (K := K) hm h.claim
  · simp [hold_cons] at *
    omega
  · have hu := h.used
    simp [hold_cons] at *
    omega
  · simpa [hold_cons] using h.kept
  · have ho : x = y → K (.run y) + K (.dropping y) = 0 := by
      rintro rfl
      simp [hold_cons] at hp
      obtain ⟨-, -, -, -, -, hr⟩ := h.idle (by omega)
      simp [hold_cons] at hr
      omega
    have hs := series_dropRun (K := K) (x := x) (y := y) (s := s) (m := m)
      (n := K (.run y) + K (.dropping y))
      (by simpa [hold_cons, add_assoc] using h.series) ho
      (by rintro rfl; exact h.task_eq_none (by simp [hold_cons]))
    simpa [hold_cons] using hs
  · simpa [hold_cons] using h.lives

theorem Account.setFree (h : Account m (hold K [.clearing x]) y) :
    Account { m with free := update m.free x true } (hold K [.freeing x]) y := by
  have hp := h.phase
  refine ⟨h.turn, h.claim, h.room, ?_, ?_, h.kept, h.series, h.lives, h.ids⟩
  · simp [hold_cons] at *
    omega
  · have hu := h.used
    rcases eq_or_ne y x with rfl | hy
    · simp [hold_cons] at *
      omega
    · simpa [hold_cons, hy, hy.symm] using hu

theorem Account.free (h : Account m (hold K [.freeing x]) y) :
    Account { m with
      avail := update m.avail x true
      freed := update m.freed x (m.freed x + 1) } (hold K []) y := by
  have hp := h.phase
  have hi := h.ids
  refine ⟨h.turn, h.claim, h.room, ?_, h.used, h.kept, h.series, h.lives, ?_⟩
  · rcases eq_or_ne y x with rfl | hy
    · simp [hold_cons] at *
      omega
    · simpa [hold_cons, hy, hy.symm] using hp
  · rcases eq_or_ne y x with rfl | hy
    · simp [hold_cons] at *
      omega
    · simpa [hy] using hi

/-- What is left of a slot that is being filled: nothing. -/
theorem Account.empty (h : Account m K x) (hi : 0 < K (.init x)) :
    live (m.listeners x) = 0 ∧ m.task x = none ∧ K (.doomed x) = 0 ∧ K (.claiming x) = 0 ∧
      K (.dropping x) = 0 ∧ K (.clearing x) = 0 ∧ K (.freeing x) = 0 ∧ m.avail x = false ∧
      K (.init x) = 1 := by
  have hp := h.phase
  have hk := h.kept
  refine ⟨by omega, ?_, by omega, by omega, by omega, by omega, by omega, ?_, by omega⟩
  · cases ht : m.task x with
    | none => rfl
    | some s =>
      rw [ht, Option.isSome_some, Bool.toNat_true] at hk
      omega
  · cases ha : m.avail x with
    | false => rfl
    | true =>
      rw [ha, Bool.toNat_true] at hp
      omega

theorem Account.not_mem_runs (h : Account m K x) (hi : 0 < K (.init x)) (p : ℕ) :
    x ∉ m.runs p := by
  obtain ⟨s, hp⟩ := h.series
  obtain ⟨hl, ht, -, -, hd, -⟩ := h.empty hi
  obtain ⟨-, -, -, -, -, hr⟩ := h.idle hl
  rw [hp.mem_runs p, ht, hr, hd]
  simp

theorem card_runs_initSlot {k : Kind} {timed : Bool} (hx : ∀ p, x ∉ m.runs p) :
    ((m.initSlot x k timed).runs y).card =
      (m.runs y).card + if k.publishes = some y then 1 else 0 := by
  cases hk : k.publishes with
  | none => simp [Mem.initSlot, hk]
  | some p =>
    rcases eq_or_ne y p with rfl | hy
    · simp [Mem.initSlot, hk, hx]
    · simp [Mem.initSlot, hk, hy, hy.symm]

theorem mem_runs_initSlot {k : Kind} {timed : Bool} (p : ℕ) :
    y ∈ (m.initSlot x k timed).runs p ↔ y ∈ m.runs p ∨ y = x ∧ k.publishes = some p := by
  cases hk : k.publishes with
  | none => simp [Mem.initSlot, hk]
  | some q =>
    rcases eq_or_ne p q with rfl | hp
    · simp [Mem.initSlot, hk, or_comm]
    · simp [Mem.initSlot, hk, hp, hp.symm]

theorem Account.init_of_ne {k : Kind} {timed : Bool} (hy : y ≠ x) (hm : ∀ p, x ∉ m.runs p)
    (h : Account m (hold K (.init x :: claimOn k.publishes)) y) :
    Account (m.initSlot x k timed) (hold K [.turn x, .claim x]) y := by
  refine ⟨?_, ?_, ?_, ?_, ?_, ?_, ?_, ?_, h.ids⟩
  · simpa [hold_cons, Mem.initSlot, hy, hy.symm] using h.turn
  · have hc := h.claim
    rw [card_runs_initSlot hm]
    simp [hold_cons, Mem.initSlot, hy, hy.symm] at *
    omega
  · simpa [Mem.initSlot, hy] using h.room
  · simpa [hold_cons, Mem.initSlot, hy, hy.symm] using h.phase
  · simpa [hold_cons, Mem.initSlot, hy, hy.symm] using h.used
  · simpa [hold_cons, Mem.initSlot, hy, hy.symm] using h.kept
  · obtain ⟨s, hp⟩ := h.series
    refine ⟨s, ?_, ?_, fun p => ?_⟩
    · simpa [hold_cons] using hp.box_eq
    · simpa [Mem.initSlot, hy] using hp.task_eq
    · rw [mem_runs_initSlot]
      simpa [hold_cons, Mem.initSlot, hy, hy.symm] using hp.mem_runs p
  · simpa [hold_cons, Mem.initSlot, hy, hy.symm] using h.lives

theorem Account.init_self {k : Kind} {timed : Bool} (hm : ∀ p, x ∉ m.runs p)
    (h : Account m (hold K (.init x :: claimOn k.publishes)) x) :
    Account (m.initSlot x k timed) (hold K [.turn x, .claim x]) x := by
  have hi : 0 < hold K (.init x :: claimOn k.publishes) (.init x) := by simp [hold_cons]
  obtain ⟨hl, ht, hd, hc, hr, hcl, hf, ha, hi⟩ := h.empty hi
  obtain ⟨hh, hhe, hru, hcm, htu, hrn⟩ := h.idle hl
  have hv := h.lives
  obtain ⟨s, hp⟩ := h.series
  simp only [hold_cons, reduceCtorEq, if_false, if_true, add_zero, ne_eq, not_false_eq_true,
    implies_true, hold_claimOn_of_ne, hold_claimOn] at hd hc hr hcl hf hi hcm htu hrn hv
  have hk : k.publishes ≠ some x := fun hk => by simp [hk] at hcm
  refine ⟨?_, ?_, ?_, ?_, ?_, ?_, ⟨k.publishes, fun s' => ?_, ?_, fun p => ?_⟩, ?_, h.ids⟩
  · simp [hold_cons, Mem.initSlot, atRest, htu, hrn]
  · rw [card_runs_initSlot hm]
    simp [hk] at hcm
    simp [hold_cons, Mem.initSlot, hh, hru, hcm, hk]
  · simp [Mem.initSlot]
  · have hi' : K (.init x) = 0 := by omega
    simp [hold_cons, Mem.initSlot, live, ha, hi', hd, hc, hr, hcl, hf]
  · simp [hold_cons, Mem.initSlot, live, hd, hc, hr, hcl]
  · have := Bool.toNat_le ((m.initSlot x k timed).task x).isSome
    simp [hold_cons, Mem.initSlot, live, hrn, hd, hc] at *
    omega
  · have hb := hp.box_eq s'
    simp [hold_cons, hrn, hr] at *
    exact hb
  · intro s' hs'
    simp only [Mem.initSlot, update_self] at hs'
    split at hs'
    · cases hs'
    · exact (Option.some.inj hs').symm
  · rw [mem_runs_initSlot]
    have hns : k.publishes = some p → k.schedules = false := by
      cases k <;> simp [Kind.publishes, Kind.schedules]
    constructor
    · rintro (hx | ⟨-, hk⟩)
      · exact absurd hx (hm p)
      · simp [hk, hns hk, Mem.initSlot]
    · rintro ⟨hk, -⟩
      exact .inr ⟨rfl, hk⟩
  · rw [hl, hd] at hv
    simp [hold_cons, Mem.initSlot, live, hd, hv]

/-! ### Every move -/

/-- **A move keeps the account of every slot.** -/
theorem Account.move (h : Move m a m' a') (hi : ∀ y, Account m (hold K a) y) (y : ℕ) :
    Account m' (hold K a') y := by
  induction h with
  | pass =>
    have h := hi y
    exact ⟨h.turn, h.claim, h.room, h.phase, h.used, h.kept, h.series, h.lives, h.ids⟩
  | perm _ hp ih =>
    have he : hold K _ = hold K _ := funext fun i => congrArg (K i + ·) (hp.count_eq i)
    exact he ▸ ih hi
  | @gone a b x hx hf =>
    -- a slot somebody has a stake in does not read `Free`
    have hpos := (hi x).listeners_pos (hx.imp hold_pos fun h => .inr (.inl (hold_pos h)))
    rw [(hi x).free_eq_false hpos] at hf
    cases hf
  | lapse => exact (hi y).lapse
  | put => exact (hi y).put
  | take hr => exact (hi y).take hr
  | add hx hb =>
    have hpos := (hi _).listeners_pos (hx.imp hold_pos (.imp hold_pos (.imp_left hold_pos)))
    exact (hi y).add hpos hb
  | use hx => exact (hi y).use hx
  | back => exact (hi y).back
  | @drop x h1 =>
    have hpos := (hi x).listeners_pos (.inr (.inr (.inl (hold_pos (List.mem_singleton_self _)))))
    exact (hi y).drop hpos h1
  | dropLast h1 => exact (hi y).dropLast h1
  | release hh => exact (hi y).release hh
  | takeTask hs => exact (hi y).takeTask hs
  | putTask => exact (hi y).putTask
  | dropTask => exact (hi _).dropTask (hi y)
  | alloc ha => exact (hi y).alloc ha
  | @init x k timed =>
    have hm := (hi x).not_mem_runs (by simp [hold_cons])
    rcases eq_or_ne y x with rfl | hy
    · exact (hi y).init_self hm
    · exact (hi y).init_of_ne hy hm
  | refused => exact (hi y).refused
  | destroy => exact (hi y).destroy
  | claimDead hs => exact (hi y).claimDead hs
  | claimNone hs => exact (hi y).claimNone hs
  | dropDead => exact (hi _).dropDead (hi y)
  | clearParked => exact (hi y).clearParked
  | setFree => exact (hi y).setFree
  | free => exact (hi y).free

end Atap.Claims
