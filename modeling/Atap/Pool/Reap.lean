import Atap.Pool.Census

/-!
# Stopping idle workers

`reap` goes over the slots and asks a worker to stop that has been parked for long enough, unless
the count of live workers is at the floor. A worker that was asked to stop is in the count until it
has left, so the count the pass compares with the floor says nothing of how many of those it counts
are going already, and nothing lowers it between two workers of one pass.

* `Passes mgr`: the manager makes passes, and the other threads move their own states, come up, and
  leave when they were asked to.
* `floor_broken`: the count is one above the floor and two workers have been idle for long enough.
  **One pass asks both to stop**, and fewer than the floor are left.
* `Reaps lim mgr`: a pass that finds the count above the floor finds it above by more than what is
  counted and is going.
* `floor_kept`: then **the floor is never broken**.
-/

namespace Atap.Pool.Census

open Function

section Steps

variable {n : ℕ} {lim : Limits} {a : Act n} {m m' : Mem n} {l l' : Local n}

/-- How a thread comes to leave, and the manager to ask a worker to stop. -/
theorem Step.of_decided (hs : Step lim a m l m' l') (h : l'.pc.decided = true) :
    (∃ i, m.state i = .stopping ∧ m' = m ∧ l' = ⟨some i, .leaving⟩) ∨
      ∃ highest index, l.pc = .reapFloor highest index ∧ lim.floor < m.live ∧ m' = m ∧
        l'.pc = .reapStop highest index := by
  cases hs
  case quiet hpc _ _ _ _ | active hpc | stop hpc =>
    exact absurd (hpc.decided.symm.trans h) (by decide)
  case left hdecided _ _ => exact absurd (hdecided.symm.trans h) (by decide)
  case floor highest index hpc hlt => exact .inr ⟨highest, index, hpc, hlt, rfl, rfl⟩
  case goes i hl hst => exact .inl ⟨i, hst, rfl, rfl⟩
  all_goals cases h

theorem stopping_setState {i j : Fin n} {st : WorkerState} (h : m.state i = .stopping)
    (hj : i = j → st = .stopping ∨ 0 < l.holds i) :
    (m.setState j st).state i = .stopping ∨ 0 < l.holds i := by
  rcases eq_or_ne i j with rfl | hne
  · exact (hj rfl).imp_left (update_self ..).trans
  · exact .inl ((update_of_ne hne ..).trans h)

/-- Who was asked to stop stays so, until its slot is given up by its owner. -/
theorem Step.stopping (hs : Step lim a m l m' l') {i : Fin n} (h : m.state i = .stopping) :
    m'.state i = .stopping ∨ 0 < l.holds i := by
  cases hs
  case quiet hstate _ _ => exact .inl (by rw [hstate]; exact h)
  case active j st pc' hact _ _ =>
    refine stopping_setState h ?_
    rintro rfl
    cases h ▸ hact
  case stop j pc' _ _ _ => exact stopping_setState h fun _ => .inl rfl
  case claim s j _ _ hempty =>
    refine stopping_setState h ?_
    rintro rfl
    cases h.symm.trans hempty
  case recClaim j _ hdead =>
    refine stopping_setState h ?_
    rintro rfl
    cases h.symm.trans hdead
  case giveUp s j hpc hj =>
    refine stopping_setState h ?_
    rintro rfl
    simp [Local.holds, hpc, Pc.claims, hj]
  case leave j hl | die j hl =>
    refine stopping_setState h ?_
    rintro rfl
    simp [Local.holds, hl]
  case recEmpty j hpc =>
    refine stopping_setState h ?_
    rintro rfl
    simp [Local.holds, hpc, Pc.claims]
  all_goals exact .inl h

end Steps

section Kept

variable {n : ℕ} {T : Type*} [Fintype T] [DecidableEq T] {lim : Limits}

theorem Inv.owner_unique {m : Mem n} {loc : T → Local n} (hi : Inv lim m loc) {t u : T} {i : Fin n}
    (ht : 0 < (loc t).holds i) (hu : 0 < (loc u).holds i) : t = u := by
  by_contra hne
  have hsum := add_le_total (w := Local.holds i) (f := loc) hne
  have ho := hi.owner i
  have := Bool.toNat_le (m.state i).occupied
  omega

/-- A thread that leaves was asked to. -/
def Asked (s : Config T (Mem n) (Local n)) : Prop :=
  ∀ t i, s.loc t = ⟨some i, .leaving⟩ → s.mem.state i = .stopping

theorem Asked.step {m m' : Mem n} {loc : T → Local n} {a : Act n} {t : T} {l' : Local n}
    (h : Asked ⟨m, loc⟩) (hi : Inv lim m loc) (hs : Step lim a m (loc t) m' l') :
    Asked ⟨m', update loc t l'⟩ := by
  intro u i hu
  rcases eq_or_ne u t with rfl | hne
  · change update loc u l' u = _ at hu
    rw [update_self] at hu
    obtain ⟨j, hj, rfl, hl⟩ | ⟨highest, index, -, -, -, hpc⟩ := hs.of_decided (by rw [hu]; rfl)
    · cases hu.symm.trans hl
      exact hj
    · cases (congrArg Local.pc hu).symm.trans hpc
  · change update loc t l' u = _ at hu
    rw [update_of_ne hne] at hu
    refine (hs.stopping (h u i hu)).resolve_right fun ht => hne (hi.owner_unique ?_ ht)
    simp [Local.holds, hu]

theorem inv_asked_of_reach {s : Config T (Mem n) (Local n)}
    (hr : (machine lim).Reach Fresh Machine.unguarded s) : Inv lim s.mem s.loc ∧ Asked s := by
  refine hr.invariant (I := fun s => Inv lim s.mem s.loc ∧ Asked s) (fun s h => ⟨h.inv, ?_⟩)
    fun s t a m' l' hi _ hn => ⟨hi.1.step (next_step hn), hi.2.step hi.1 (next_step hn)⟩
  intro t i ht
  rw [h.loc t] at ht
  cases ht

/-- The thread is in a pass. -/
def Pc.reaps : Pc → Bool
  | reap | reapAlive .. | reapQuiet .. | reapBusied .. | reapTarget .. | reapTick ..
  | reapFloor .. | reapStop .. => true
  | _ => false

/-- The thread is at work, comes up, or leaves. -/
def Pc.calm : Pc → Bool
  | idle | started | leaving | left => true
  | _ => false

/-- What such a thread does, and those who wake it. -/
def Act.calm : Act n → Bool
  | go | born _ | move .. | leave | wake _ => true
  | _ => false

/-- The manager makes passes, and the other threads are at work or leave. -/
def Passes (mgr : T) (s : Config T (Mem n) (Local n)) (t : T) (a : Act n) : Prop :=
  if t = mgr then (s.loc t).pc = .idle ∧ a = .reap ∨ (s.loc t).pc.reaps = true
  else (s.loc t).pc.calm = true ∧ a.calm = true

instance (mgr : T) (s : Config T (Mem n) (Local n)) (t : T) (a : Act n) :
    Decidable (Passes mgr s t a) :=
  inferInstanceAs (Decidable (ite ..))

/-- The pass is about to ask a worker to stop. -/
def Pc.stops : Pc → Bool
  | reapStop .. => true
  | _ => false

theorem Pc.decided_of_stops {pc : Pc} (h : pc.stops = true) : pc.decided = true := by
  cases pc <;> first | rfl | cases h

/-- The pass is about to compare the count with the floor. -/
def Pc.compares : Pc → Bool
  | reapFloor .. => true
  | _ => false

/-- The slot is counted, for a thread that goes or is gone. -/
def going : WorkerState → Bool
  | .stopping | .dead | .recovering => true
  | _ => false

theorem count_occupied (state : Fin n → WorkerState) :
    count WorkerState.occupied state = count WorkerState.active state + count going state := by
  unfold count total
  rw [← Finset.sum_add_distrib]
  refine Finset.sum_congr rfl fun i _ => ?_
  cases state i <;> rfl

/-- When the pass finds the count above the floor, it is so without those that are going, and
without the places no slot is for. -/
def Reaps (lim : Limits) (mgr : T) (s : Config T (Mem n) (Local n)) (t : T) (a : Act n) : Prop :=
  Passes mgr s t a ∧ ((s.loc t).pc.compares = true → lim.floor < s.mem.live →
    lim.floor + count going s.mem.state + count (fun l : Local n => l.pc.pending) s.loc <
      s.mem.live)

instance (mgr : T) (s : Config T (Mem n) (Local n)) (t : T) (a : Act n) :
    Decidable (Reaps lim mgr s t a) :=
  inferInstanceAs (Decidable (_ ∧ (_ → _ → _)))

/-- The pool before the passes: the manager is not in one, and the floor is kept. -/
structure Ready (lim : Limits) (mgr : T) (s : Config T (Mem n) (Local n)) : Prop where
  reach : (machine lim).Reach Fresh Machine.unguarded s
  manager : (s.loc mgr).pc = .idle
  floor : lim.floor ≤ count WorkerState.active s.mem.state

/-- What holds while the manager makes passes. -/
structure Kept (lim : Limits) (mgr : T) (s : Config T (Mem n) (Local n)) : Prop where
  inv : Inv lim s.mem s.loc
  asked : Asked s
  floor : lim.floor ≤ count WorkerState.active s.mem.state
  /-- A worker the pass is about to stop is one that can be spared. -/
  spared : (s.loc mgr).pc.stops = true → lim.floor < count WorkerState.active s.mem.state

theorem Ready.kept {mgr : T} {s : Config T (Mem n) (Local n)} (h : Ready lim mgr s) :
    Kept lim mgr s := by
  obtain ⟨hinv, hasked⟩ := inv_asked_of_reach h.reach
  refine ⟨hinv, hasked, h.floor, fun hd => ?_⟩
  rw [h.manager] at hd
  cases hd

omit [Fintype T] in
/-- A step among the passes takes no worker away, but for the one the manager asks to stop. -/
theorem Step.active_eq {mgr t : T} {s : Config T (Mem n) (Local n)} {a : Act n} {m' : Mem n}
    {l' : Local n} (hs : Step lim a s.mem (s.loc t) m' l') (hok : Passes mgr s t a)
    (hasked : Asked s) : count WorkerState.active m'.state = count WorkerState.active s.mem.state ∨
      t = mgr ∧ (s.loc t).pc.stops = true ∧
        count WorkerState.active s.mem.state ≤ count WorkerState.active m'.state + 1 := by
  have hpc : (s.loc t).pc.reaps = true ∨ (s.loc t).pc.calm = true := by
    unfold Passes at hok
    split at hok
    · exact hok.elim (fun h => .inr (by rw [h.1]; rfl)) .inl
    · exact .inr hok.1
  cases hs
  case quiet hstate _ _ => exact .inl (by rw [hstate])
  case active i st pc' hst hst' _ =>
    have hc := count_update WorkerState.active s.mem.state i st
    rw [hst, hst'] at hc
    exact .inl (by simpa [Mem.setState] using hc)
  case stop i pc' _ hstop _ =>
    refine .inr ?_
    have hc := count_update WorkerState.active s.mem.state i .stopping
    have := Bool.toNat_le (s.mem.state i).active
    obtain ⟨hmgr, hstops⟩ : t = mgr ∧ (s.loc t).pc.stops = true := by
      unfold Passes at hok
      split at hok
      case isTrue ht =>
        refine ⟨ht, ?_⟩
        obtain ⟨rfl, hidle⟩ | ⟨highest, hpc⟩ := hstop
        · rw [hidle] at hok
          rcases hok with ⟨-, hok⟩ | hok <;> cases hok
        · rw [hpc]
          rfl
      case isFalse =>
        exfalso
        obtain ⟨rfl, -⟩ | ⟨highest, hpc⟩ := hstop
        · cases hok.2
        · rw [hpc] at hok
          cases hok.1
    exact ⟨hmgr, hstops, by simp only [Mem.setState]; omega⟩
  case leave i hl =>
    have hc := count_update WorkerState.active s.mem.state i .empty
    rw [hasked t i hl] at hc
    exact .inl hc
  case claim s' i h _ _ | giveUp s' i h _ | die i h | recClaim i h _ | recEmpty i h =>
    simp [h, Pc.reaps, Pc.calm] at hpc
  all_goals exact .inl rfl

theorem Kept.step {mgr t : T} {s : Config T (Mem n) (Local n)} {a : Act n} {m' : Mem n}
    {l' : Local n} (hk : Kept lim mgr s) (hs : Step lim a s.mem (s.loc t) m' l')
    (hok : Reaps lim mgr s t a) : Kept lim mgr ⟨m', update s.loc t l'⟩ := by
  have hact := hs.active_eq hok.1 hk.asked
  refine ⟨hk.inv.step hs, hk.asked.step hk.inv hs, ?_, fun hd => ?_⟩
  · rcases hact with hact | ⟨rfl, hd, hact⟩
    · exact hk.floor.trans hact.ge
    · have := hk.spared hd
      change _ ≤ count _ m'.state
      omega
  · change (update s.loc t l' mgr).pc.stops = true at hd
    change _ < count _ m'.state
    rcases eq_or_ne mgr t with rfl | hne
    · rw [update_self] at hd
      obtain ⟨i, -, -, rfl⟩ | ⟨highest, index, hpc, hlt, rfl, -⟩ :=
        hs.of_decided (Pc.decided_of_stops hd)
      · cases hd
      · have habove := hok.2 (by rw [hpc]; rfl) hlt
        have hlive := hk.inv.live
        rw [count_occupied] at hlive
        omega
    · rw [update_of_ne hne] at hd
      rcases hact with hact | ⟨rfl, -⟩
      · rw [hact]
        exact hk.spared hd
      · exact absurd rfl hne

/-- **The floor is kept**: with at least the floor live and not asked to stop before the passes,
there are as many in every interleaving of them with the threads that leave. -/
theorem floor_kept {mgr : T} {s : Config T (Mem n) (Local n)}
    (hr : (machine lim).Reach (Ready lim mgr) (Reaps lim mgr) s) :
    lim.floor ≤ count WorkerState.active s.mem.state := by
  have hk : Kept lim mgr s := hr.invariant (fun _ h => h.kept)
    fun s t a m' l' hk hok hn => hk.step (next_step hn) hok
  exact hk.floor

end Kept

/-- A manager, and two threads for workers. -/
abbrev Crew := Config (Fin 3) (Mem 2) (Local 2)

def crew : Crew := ⟨empty, fun _ => ⟨none, .idle⟩⟩

theorem fresh_crew : Fresh crew := ⟨rfl, fun _ => rfl, fun _ => rfl, rfl, fun _ => rfl⟩

/-- Two workers are started and park. -/
def parking : List (Fin 3 × Act 2) :=
  (0, .start 2) :: List.replicate 6 (0, .go) ++ [(1, .born 0), (1, .go), (0, .start 2)] ++
    List.replicate 10 (0, .go) ++
    [(2, .born 1), (2, .go), (1, .move .idle .parked), (2, .move .idle .parked)]

/-- A pass up to the first worker it asks to stop. -/
def firstStop : List (Fin 3 × Act 2) := (0, .reap) :: List.replicate 7 (0, .go)

/-- Two parked workers that a schedule of passes takes to a state with `p`. -/
theorem exists_of_parked {Ok : Crew → Fin 3 → Act 2 → Prop} [∀ s t a, Decidable (Ok s t a)]
    {p : Crew → Prop} [DecidablePred p] (sched : List (Fin 3 × Act 2))
    (h : ((machine limits).run Machine.unguarded crew parking).any (fun s : Crew =>
      decide ((s.loc 0).pc = .idle ∧ 1 ≤ count WorkerState.active s.mem.state ∧
        ((machine limits).run Ok s sched).any (p ·) = true)) = true) :
    ∃ s, (machine limits).Reach (Ready limits 0) Ok s ∧ p s := by
  obtain ⟨s, hs, hidle, hactive, h⟩ := (Machine.Reach.init fresh_crew).exists_of_run parking h
  exact (Machine.Reach.init ⟨hs, hidle, hactive⟩).exists_of_run sched h

/-- One of two workers is asked to stop and leaves, and the pass finds the other one is the last. -/
theorem floor_kept_crew : ∃ s : Crew, (machine limits).Reach (Ready limits 0) (Reaps limits 0) s ∧
    s.mem.state 0 = .empty ∧ s.loc 0 = ⟨none, .idle⟩ ∧
    limits.floor ≤ count WorkerState.active s.mem.state := by
  obtain ⟨s, hs, he, hloc⟩ : ∃ s : Crew,
      (machine limits).Reach (Ready limits 0) (Reaps limits 0) s ∧ s.mem.state 0 = .empty ∧
      s.loc 0 = ⟨none, .idle⟩ :=
    exists_of_parked (firstStop ++ [(1, .leave), (1, .go), (1, .go)] ++ List.replicate 6 (0, .go))
      (by decide +kernel)
  exact ⟨s, hs, he, hloc, floor_kept hs⟩

/-- **The floor is broken**: two workers have been idle for long enough, the floor is one, and one
pass asks both to stop. -/
theorem floor_broken : ∃ s : Crew, (machine limits).Reach (Ready limits 0) (Passes 0) s ∧
    s.loc 0 = ⟨none, .idle⟩ ∧ count WorkerState.active s.mem.state < limits.floor :=
  exists_of_parked (firstStop ++ List.replicate 7 (0, .go)) (by decide +kernel)

end Atap.Pool.Census
