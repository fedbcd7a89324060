import Atap.Series.Machine

/-!
# The state a schedule is left in

The slot of a series is moved by the runs that publish into it, by a stop, and where a run or the
timer of the spawn is refused; the end of the schedule leaves it alone. In every state reached, a
slot in `Running` has a run between `begin` and the end of `publish`; in a slot that is still
`Pending` no run has got past the first exchange of `begin`, and a refusal is on its way there; and
a slot that is not has been given a cause. So once the series is off its clock and its runs are
over, its state is terminal exactly if one run got as far as `publish`, a run or that timer was
refused, or it was stopped (`series_settles`).

A run that panics does not get that far. A series all of whose runs do, whose deadline passes before
its first run, or whose timer is refused after a delay, is left `Pending` for good, with nobody to
wake whoever waits on it (`series_left_pending`).
-/

namespace Atap.Series

variable {T α : Type*}

/-- The series is off its clock, and every run it launched is over. -/
@[mk_iff]
structure Quiet (s : Config T (Mem α) (Pc α)) : Prop where
  clock : s.mem.clock = false
  launched : s.mem.launched = []
  loc : ∀ t, (s.loc t).listens = true

instance [Fintype T] (s : Config T (Mem α) (Pc α)) : Decidable (Quiet s) :=
  decidable_of_iff' _ (quiet_iff s)

namespace Pc

/-- The thread has been refused a run or a timer, and is about to see to the state. -/
def fails : Pc α → Bool
  | fail | tickFail | tickStore => true
  | _ => false

/-- The thread is about to move a `Pending` slot. -/
def moves : Pc α → Bool
  | fail | tickFail | tickStore | beginPending _ _ => true
  | _ => false

theorem fails_eq_false {pc : Pc α} (h : pc.listens = true) : pc.fails = false := by
  cases pc <;> first | rfl | cases h

theorem moves_eq_false {pc : Pc α} (h : pc.listens = true) : pc.moves = false := by
  cases pc <;> first | rfl | cases h

end Pc

/-- Something that makes the state terminal has come about. -/
def Caused (m : Mem α) : Prop :=
  (∃ k, m.tried k = true) ∨ m.refused = true ∨ m.stopped = true

/-- What the two states that are not terminal say about the threads, and what a state that is not
`Pending`, or is about to be none, says about what came before. -/
structure Settling (m : Mem α) (loc : T → Pc α) : Prop where
  owner : m.state = .running → ∃ t, (loc t).owns = true
  pending : m.state = .pending → m.stopped = false ∧
    (m.refused = true → ∃ t, (loc t).fails = true) ∧
    ∀ k, m.tried k = true → ∃ t x, loc t = .beginPending k x
  cause : (m.state ≠ .pending ∨ ∃ t, (loc t).moves = true) → Caused m

variable {m m' : Mem α} {pc pc' : Pc α} {a : Act α}

/-- A slot in `Running` after a step has its owner in the thread that moved, or had it in
another. -/
theorem Step.owner (h : Step m pc a m' pc') (hr : m'.state = .running) :
    pc'.owns = true ∨ m.state = .running ∧ pc.owns = false := by
  cases h
  case fail | tickStore | publish | take => cases hr
  case stop dest saw hs => exact absurd hr dest.state_ne_running
  case publishNot hn => exact absurd hr hn
  case listen hl _ _ => exact .inr ⟨hr, Pc.owns_eq_false hl⟩
  all_goals first | exact .inl rfl | exact .inr ⟨hr, rfl⟩

/-- A slot that is `Pending` after a step was so before it. A run that has got as far as `publish`
stands before the first exchange of `begin`, and a refusal has its thread on the way to the slot. -/
theorem Step.pending (h : Step m pc a m' pc') (hp : m'.state = .pending) :
    m.state = .pending ∧ m'.stopped = m.stopped ∧
      (m'.refused = true → pc'.fails = true ∨ m.refused = true ∧ pc.fails = false) ∧
      (∀ k x, pc ≠ .beginPending k x) ∧
      ∀ k, m'.tried k = true → m.tried k = true ∨ ∃ x, pc' = .beginPending k x := by
  cases h
  case fail | tickStore | beginPending | beginReady | beginTaken | publish | take => cases hp
  case stop dest saw hs => exact absurd hp dest.state_ne_pending
  case notPending hn | failNot hn => exact absurd hp hn
  case tickSettled hs =>
    rw [show m.state = .pending from hp] at hs
    cases hs
  case done k x =>
    refine ⟨hp, rfl, fun hr => .inr ⟨hr, rfl⟩, nofun, fun k' hk' => ?_⟩
    rcases eq_or_ne k' k with rfl | hne
    · exact .inr ⟨x, rfl⟩
    · exact .inl (by simpa [hne] using hk')
  case listen hl _ _ =>
    refine ⟨hp, rfl, fun hr => .inr ⟨hr, Pc.fails_eq_false hl⟩, ?_, fun _ hk => .inl hk⟩
    rintro k x rfl
    cases hl
  all_goals
    refine ⟨hp, rfl, fun hr => ?_, nofun, fun _ hk => .inl hk⟩
    first | exact .inl rfl | exact .inr ⟨hr, rfl⟩

theorem Step.caused (h : Step m pc a m' pc') (hc : Caused m) : Caused m' := by
  cases h
  case done k x => exact .inl ⟨k, Function.update_self ..⟩
  case noDelay | startNone | startRefused | tickRefused | noSchedule => exact .inr (.inl rfl)
  case stop => exact .inr (.inr rfl)
  all_goals exact hc

/-- A slot that is not `Pending` after a step, or whose thread is about to move it, was so before,
or the step is what brings it about. -/
theorem Step.cause (h : Step m pc a m' pc') (hc : m'.state ≠ .pending ∨ pc'.moves = true) :
    Caused m' ∨ m.state ≠ .pending ∨ pc.moves = true := by
  cases h
  case done k x => exact .inl (.inl ⟨k, Function.update_self ..⟩)
  case noDelay | startNone | startRefused | tickRefused | noSchedule =>
    exact .inl (.inr (.inl rfl))
  case stop => exact .inl (.inr (.inr rfl))
  case fail | tickFail | tickStore | beginPending => exact .inr (.inr rfl)
  case tickOver hs =>
    refine .inr (.inl fun hp => ?_)
    rw [hp] at hs
    cases hs
  case beginReady hs | beginTaken hs | publish hs | take hs => exact .inr (.inl (by simp [hs]))
  case listen _ hl _ => exact .inr (.inl (hc.resolve_right (by simp [Pc.moves_eq_false hl])))
  all_goals exact .inr (.inl (hc.resolve_right Bool.false_ne_true))

variable [DecidableEq T] {n : ℕ} {s : Config T (Mem α) (Pc α)} {t : T}

theorem Settling.step {loc : T → Pc α} (hi : Settling m loc) (h : Step m (loc t) a m' pc') :
    Settling m' (Function.update loc t pc') := by
  refine ⟨fun hr => ?_, fun hp => ?_, fun hc => ?_⟩
  · refine exists_update (P := (Pc.owns · = true)) ((h.owner hr).imp_right fun ho => ?_)
    exact ⟨hi.owner ho.1, by simp [ho.2]⟩
  · obtain ⟨hp, hstop, hfails, hpc, htried⟩ := h.pending hp
    obtain ⟨hstop₀, hfails₀, htried₀⟩ := hi.pending hp
    refine ⟨hstop.trans hstop₀, fun hr => ?_, fun k hk => ?_⟩
    · refine exists_update (P := (Pc.fails · = true)) ((hfails hr).imp_right fun hf => ?_)
      exact ⟨hfails₀ hf.1, by simp [hf.2]⟩
    · refine exists_update (P := fun pc => ∃ x, pc = Pc.beginPending k x)
        ((htried k hk).symm.imp_right fun hk => ⟨htried₀ k hk, ?_⟩)
      rintro ⟨x, hx⟩
      exact hpc k x hx
  · by_cases hold : m.state ≠ .pending ∨ ∃ u, (loc u).moves = true
    · exact h.caused (hi.cause hold)
    -- nothing was about to move the slot, so this step is what did
    · have hnew : m'.state ≠ .pending ∨ pc'.moves = true := by
        refine hc.imp_right fun hu => ?_
        obtain ⟨u, hu⟩ := hu
        rcases eq_or_ne u t with rfl | hne
        · rwa [Function.update_self] at hu
        · rw [Function.update_of_ne hne] at hu
          exact absurd (.inr ⟨u, hu⟩) hold
      exact (h.cause hnew).resolve_right fun ho => hold (ho.imp_right fun ht => ⟨t, ht⟩)

theorem settling_of_reach (hs : (machine α).Reach (Fresh n) Machine.unguarded s) :
    Settling s.mem s.loc := by
  refine hs.invariant (I := fun s => Settling s.mem s.loc) (fun s h => ?_)
    fun s t a m' pc' hi _ hn => hi.step (next_step hn)
  refine ⟨fun hr => ?_, fun _ => ⟨h.stopped, fun hr => ?_, fun k hk => ?_⟩, fun hc => ?_⟩
  · cases h.state.symm.trans hr
  · cases h.refused.symm.trans hr
  · cases (h.tried k).symm.trans hk
  · obtain ⟨t, ht, hrest⟩ := h.loc
    obtain ⟨u, hu⟩ := hc.resolve_left (not_not.mpr h.state)
    rcases eq_or_ne u t with rfl | hne
    · rw [ht] at hu
      cases hu
    · rw [hrest u hne] at hu
      cases hu

/-- **When a series is left in a terminal state.** Once it is off its clock and its runs are over,
for every number of runs it is allowed and every outcome of each, its state is terminal exactly if
one of them got as far as `publish`, a run or the timer of the spawn was refused, or it was
stopped. -/
theorem series_settles (hs : (machine α).Reach (Fresh n) Machine.unguarded s) (hq : Quiet s) :
    s.mem.state.terminal = true ↔
      (∃ k, s.mem.tried k = true) ∨ s.mem.refused = true ∨ s.mem.stopped = true := by
  have hi := settling_of_reach hs
  constructor
  · intro ht
    refine hi.cause (.inl fun hp => ?_)
    rw [hp] at ht
    cases ht
  · intro hc
    have hrunning : s.mem.state ≠ .running := by
      intro hr
      obtain ⟨t, ht⟩ := hi.owner hr
      cases (Pc.owns_eq_false (hq.loc t)).symm.trans ht
    have hpending : s.mem.state ≠ .pending := by
      intro hp
      obtain ⟨hstop, hfails, htried⟩ := hi.pending hp
      obtain ⟨k, hk⟩ | hr | hst := hc
      · obtain ⟨t, x, ht⟩ := htried k hk
        have hl := hq.loc t
        rw [ht] at hl
        cases hl
      · obtain ⟨t, ht⟩ := hfails hr
        cases (Pc.fails_eq_false (hq.loc t)).symm.trans ht
      · cases hstop.symm.trans hst
    simp [TaskState.terminal, hrunning, hpending]

/-! ### A series of one run -/

/-- A series of `n` runs, about to be started by thread `0`. -/
def newSeries (n : ℕ) : Config (Fin 3) (Mem ℕ) (Pc ℕ) where
  mem := ⟨.pending, .series, n, false, 0, false, none, false, [], 0, fun _ => false, fun _ => none,
    false, false, false⟩
  loc t := if t = 0 then .start else .idle

theorem newSeries_fresh (n : ℕ) : Fresh n (newSeries n) where
  state := rfl
  kind := rfl
  runsLeft := rfl
  clock := rfl
  launched := rfl
  runs := rfl
  tried _ := rfl
  released := rfl
  refused := rfl
  stopped := rfl
  loc := ⟨0, rfl, fun _ hu => if_neg hu⟩

/-- The one run of a series is launched, and the schedule is over. -/
def startedOnce : List (Fin 3 × Act ℕ) := [.go, .go, .go, .go, .go].map (0, ·)

/-- The run of a series of one run publishes `7`. -/
theorem series_settles_once : ∃ s : Config (Fin 3) _ _,
    (machine ℕ).Reach (Fresh 1) Machine.unguarded s ∧ Quiet s ∧
    s.mem.released = true ∧ s.mem.tried 0 = true ∧ s.mem.state.terminal = true := by
  obtain ⟨s, hs, hq, hr, ht⟩ : ∃ s : Config (Fin 3) _ _,
      (machine ℕ).Reach (Fresh 1) Machine.unguarded s ∧ Quiet s ∧ s.mem.released = true ∧
      s.mem.tried 0 = true :=
    (Machine.Reach.init (newSeries_fresh 1)).exists_of_run (startedOnce ++
      [.pick 0, .done 7, .go, .go, .go, .go].map (1, ·)) (by decide +kernel)
  exact ⟨s, hs, hq, hr, ht, (series_settles hs hq).mpr (.inl ⟨0, ht⟩)⟩

/-- **A series left pending.** The one run of the series panics; the schedule has ended and given
its reference back, and nothing will move the state again. -/
theorem series_left_pending : ∃ s : Config (Fin 3) _ _,
    (machine ℕ).Reach (Fresh 1) Machine.unguarded s ∧ Quiet s ∧
    s.mem.released = true ∧ s.mem.runs = 1 ∧ s.mem.state = .pending := by
  refine (Machine.Reach.init (newSeries_fresh 1)).exists_of_run
    (startedOnce ++ [.pick 0, .panic].map (1, ·)) ?_
  decide +kernel

end Atap.Series
