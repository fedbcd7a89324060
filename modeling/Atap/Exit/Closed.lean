import Atap.Exit.Machine

/-!
# What an ending leaves behind

Once the executor's reference on a task has been given back and no run of it is left, nothing can
reach what hangs on the task any more: its registrations should have been let go, and its gate
closed. Most endings see to that before they give the reference back. The ones that do not are the
conditions of `ended_let_go` (`Orderly`):

* `take_down`, for a parked task that is cancelled, swept or turned down, closes nothing
  (`taken_down_left_open`), and neither does a timeout that claims a park whose task somebody else
  has just stopped;
* a schedule that ends before its first output leaves the closing to a run in flight, and a run
  that ends without publishing does not do it;
* a schedule whose timer is turned down at the spawn, after its first run was launched, keeps the
  kind of a series, so that a registration made later waits for outputs that never come;
* an ending that finds no extras attached relies on the state and the kind to tell a registration
  made later that nothing more comes. A panic closes before it moves the state, and a sweep, or a
  pool that turns a repeat down, can leave a repeat as `Ready` or `Taken`.

`Ended` says what an ending has to bring about; it is kept by every step (`Step.ended`). A series
that gave its reference back with its registrations open has a run in flight that will close them
(`Tidy.late`).
-/

namespace Atap.Exit

open Function

open Gate (GateState)

variable {T : Type*}

namespace Mem

/-- Everything that hangs on the task has been let go, or nothing was ever registered and whoever
registers is told at once that nothing comes. -/
def Ended (m : Mem) : Prop :=
  (m.closed = true ∨ m.registered = false ∧ m.gate = none ∧ m.publishesNothingMore = true) ∧
    ∀ g ∈ m.gate, g = .finished

/-- A series without a gate that has had its runs. -/
def Late (m : Mem) : Prop := m.kind = .once ∧ m.gate = none

theorem publishesNothingMore_of_over {m : Mem} (h : m.task.isOver = true) :
    m.publishesNothingMore = true := by
  unfold publishesNothingMore
  cases ht : m.task <;> rw [ht] at h <;> first | rfl | cases h

theorem publishesNothingMore_of_none {m : Mem} (hg : m.gate = none) :
    m.publishesNothingMore = true ↔
      m.task.isOver = true ∨ (m.task = .ready ∨ m.task = .taken) ∧ m.kind = .once := by
  unfold publishesNothingMore
  cases m.task <;> simp [hg, TaskState.isOver, TaskState.stopped]

theorem closeExtras_of_extras {m : Mem} (h : m.extras = true) :
    m.closeExtras =
      { m with closed := true, regs := 0, gate := m.gate.map fun _ => .finished } := by
  simp [closeExtras, h]

theorem closeExtras_of_not {m : Mem} (h : ¬ m.extras = true) : m.closeExtras = m := by
  cases m
  simp_all [closeExtras]

theorem begins_of_pending {m : Mem} (h : m.task = .pending) : m.begins = true := by
  rw [begins, h]; rfl

/-- A task that publishes nothing more, and has no gate, does not begin. -/
theorem not_begins {m : Mem} (hg : m.gate = none) (h : m.publishesNothingMore = true) :
    m.begins = false := by
  unfold begins
  rcases (publishesNothingMore_of_none hg).mp h with ho | ⟨hr, hk⟩
  · cases ht : m.task <;> rw [ht] at ho <;> first | (cases ho; done) | simp [TaskState.begins]
  · rw [hg, hk]
    rcases hr with hr | hr <;> rw [hr] <;> rfl

end Mem

namespace Pc

/-- The thread is in a copy of a schedule. -/
def inCopy : Pc → Bool
  | copy | copyPublish | copyClose => true
  | _ => false

/-- The thread is spawning the task. -/
def spawns : Pc → Bool
  | spawn | spawnFail | spawnMove | spawnRelease | launched false | timer false => true
  | _ => false

/-- What the endings are held to, with `n` copies in flight. -/
def orderly (m : Mem) (n : ℕ) (a : Act) : Pc → Bool
  | unpark _ => !m.parked
  | wakeQueue => a != .refuse
  | downMove => m.task == .running
  | spawnMove => m.task == .pending
  | close | panicClose => m.extras || m.publishesNothingMore
  | closeFinished => m.task != .pending || 0 < n
  | copy => a != .panic || m.kind.repeats || m.closed || 1 < n
  | copyPublish => m.task == .running || m.kind.repeats || m.closed || 1 < n
  | _ => true

end Pc

/-- The copies of a schedule that are launched and not over. -/
def inFlight [Fintype T] (s : Config T Mem Pc) : ℕ := s.mem.copies + count Pc.inCopy s.loc

/-- No parked task is taken down, a timeout that claims a park finds the task running, the timer of
a schedule is taken unless it has no output yet, an ending that finds no extras has moved the state
or the kind on, and a schedule is not left without an output by the last of its runs. -/
def Orderly [Fintype T] (s : Config T Mem Pc) (t : T) (a : Act) : Prop :=
  (s.loc t).orderly s.mem (inFlight s) a = true

instance [Fintype T] (s : Config T Mem Pc) (t : T) (a : Act) : Decidable (Orderly s t a) :=
  inferInstanceAs (Decidable (_ = _))

/-- What a thread may rely on where it stands. -/
def View (m : Mem) : Pc → Prop
  | .spawn | .spawnFail | .spawnMove => m.out = false ∧ m.registered = false ∧ m.gate = none
  | .spawnRelease =>
    m.out = false ∧ m.registered = false ∧ m.gate = none ∧ m.publishesNothingMore = true
  | .launched false | .timer false =>
    (m.out = false ∧ m.registered = false ∧ m.gate = none) ∧ m.schedule = true
  | .launched true | .timer true | .start | .startRefused | .letGoFail | .finishWaiting
  | .after => m.gate.isSome = true
  | .panicFail | .release | .finishKind => m.Ended
  | .tick | .tickCount | .endSchedule | .copy | .copyPublish => m.schedule = true
  | .endKind => m.schedule = true ∧ m.gate = none
  | .closeFinished => m.schedule = true ∧ m.Late
  | .copyClose => m.schedule = true ∧ m.task ≠ .pending
  | .takeDown _ | .takeRelease _ => False
  | _ => True

section Step

variable {m m' : Mem} {pc pc' : Pc} {a : Act}

theorem Step.schedule (h : Step m pc a m' pc') : m'.schedule = m.schedule := by
  cases h
  all_goals rfl

/-- A task has a gate from its spawn on, or never. -/
theorem Step.isSome_gate (h : Step m pc a m' pc') : m'.gate.isSome = m.gate.isSome := by
  cases h
  case panicClose | close | finishWaiting | closeFinished | copyClose =>
    unfold Mem.closeExtras
    dsimp only
    split <;> simp
  case begin | pickCopy | startRefused | writeFinish => exact Option.isSome_map
  case give h | giveOwed h | letGo h | afterPending h | writeGate h => rw [h]; rfl
  case afterWait h | afterLast h => rw [h]; rfl
  all_goals rfl

theorem Step.gate_eq_none (h : Step m pc a m' pc') (hg : m.gate = none) : m'.gate = none := by
  have := h.isSome_gate
  rw [hg] at this
  exact Option.isNone_iff_eq_none.mp (Option.isSome_eq_false_iff.mp this)

theorem Step.closed (h : Step m pc a m' pc') (hc : m.closed = true) : m'.closed = true := by
  cases h
  case panicClose | close | finishWaiting | closeFinished | copyClose =>
    exact Bool.or_eq_true_iff.mpr (.inr hc)
  case register => exact Bool.or_eq_true_iff.mpr (.inl hc)
  all_goals exact hc

/-- A gate that is closed stays closed. -/
theorem Step.finished (h : Step m pc a m' pc') (hg : ∀ g ∈ m.gate, g = .finished) :
    ∀ g ∈ m'.gate, g = .finished := by
  have hsome {g : GateState} (h : m.gate = some g) : g = .finished := hg g h
  have hmap (f : GateState → GateState) (hf : f .finished = .finished) :
      ∀ g ∈ m.gate.map f, g = .finished := by
    intro g hmem
    obtain ⟨g', hg', rfl⟩ := Option.map_eq_some_iff.mp hmem
    rw [hg g' hg', hf]
  cases h
  case panicClose | close | finishWaiting | closeFinished | copyClose =>
    unfold Mem.closeExtras
    dsimp only
    split
    · exact hmap _ rfl
    · exact hg
  case begin | pickCopy | startRefused | writeFinish => exact hmap _ rfl
  case give h | giveOwed h | afterPending h => cases hsome h
  case afterWait hne h => exact absurd (hsome h) hne
  case letGo | writeGate | afterLast => exact fun g h => (Option.some.inj h).symm
  all_goals exact hg

theorem Step.kind_once (h : Step m pc a m' pc') (hk : m.kind = .once) : m'.kind = .once := by
  cases h
  all_goals first | exact hk | rfl

/-- What can happen to the state of a task that publishes nothing more. -/
theorem Step.task (h : Step m pc a m' pc') (hg : m.gate = none)
    (hm : m.publishesNothingMore = true) :
    m'.task = m.task ∨ m'.task.isOver = true ∨ m.task = .ready ∧ m'.task = .taken := by
  have hrun : m.task ≠ .running := by
    intro hr
    rw [Mem.publishesNothingMore, hr] at hm
    cases hm
  have htry (x : TaskState) :
      (m.tryTask x .failed).task = m.task ∨ (m.tryTask x .failed).task.isOver = true ∨
        m.task = .ready ∧ (m.tryTask x .failed).task = .taken := by
    unfold Mem.tryTask
    dsimp only
    split
    · exact .inr (.inl rfl)
    · exact .inl rfl
  have hfail : m.failTask.task = m.task ∨ m.failTask.task.isOver = true ∨
      m.task = .ready ∧ m.failTask.task = .taken := by
    unfold Mem.failTask TaskState.fail
    dsimp only
    split
    · exact .inl rfl
    · exact .inr (.inl rfl)
  cases h
  case spawnMove | panicFail | takeDown | letGoFail => exact htry _
  case dead | sweepFail => exact hfail
  case begin h | copy h => rw [Mem.not_begins hg hm] at h; cases h
  case publish h | copyPublish h => exact absurd h hrun
  case stop e _ => cases e <;> exact .inr (.inl rfl)
  case startRefused =>
    dsimp only
    split
    · exact .inr (.inl rfl)
    · exact .inl rfl
  case take h => exact .inr (.inr ⟨h, rfl⟩)
  case spawnFail | lost | timeout | downMove | writeOff => exact .inr (.inl rfl)
  all_goals exact .inl rfl

/-- A task without a gate that publishes nothing more never will. -/
theorem Step.publishesNothingMore (h : Step m pc a m' pc') (hg : m.gate = none)
    (hm : m.publishesNothingMore = true) : m'.publishesNothingMore = true := by
  rw [Mem.publishesNothingMore_of_none (h.gate_eq_none hg)]
  rcases (Mem.publishesNothingMore_of_none hg).mp hm with ho | ⟨hr, hk⟩
  · rcases h.task hg hm with ht | ht | ⟨ht, -⟩
    · exact .inl (by rw [ht]; exact ho)
    · exact .inl ht
    · rw [ht] at ho
      cases ho
  · rcases h.task hg hm with ht | ht | ⟨-, ht⟩
    · exact .inr ⟨by rw [ht]; exact hr, h.kind_once hk⟩
    · exact .inl ht
    · exact .inr ⟨.inr ht, h.kind_once hk⟩

/-- A first registration, which closes what it attaches when nothing more comes. -/
theorem Step.registered (h : Step m pc a m' pc') :
    m'.registered = m.registered ∨
      m.out = true ∧ (m.publishesNothingMore = true → m'.closed = true) := by
  cases h
  case register h => exact .inr ⟨h, fun hm => Bool.or_eq_true_iff.mpr (.inr hm)⟩
  all_goals exact .inl rfl

/-- **What an ending has brought about stays.** -/
theorem Step.ended (h : Step m pc a m' pc') (he : m.Ended) : m'.Ended := by
  refine ⟨?_, h.finished he.2⟩
  rcases he.1 with hc | ⟨hr, hg, hm⟩
  · exact .inl (h.closed hc)
  · rcases h.registered with heq | ⟨-, hclosed⟩
    · exact .inr ⟨heq.trans hr, h.gate_eq_none hg, h.publishesNothingMore hg hm⟩
    · exact .inl (hclosed hm)

/-- An ending that closes the extras, or finds none and has moved the state or the kind on. -/
theorem Mem.ended_closeExtras (hg : m.gate.isSome = true → m.extras = true)
    (hr : m.registered = true → m.extras = true)
    (hm : m.extras = true ∨ m.publishesNothingMore = true) : m.closeExtras.Ended := by
  by_cases hx : m.extras = true
  · rw [Mem.closeExtras_of_extras hx]
    refine ⟨.inl rfl, fun g hmem => ?_⟩
    obtain ⟨_, -, rfl⟩ := Option.map_eq_some_iff.mp hmem
    rfl
  · rw [Mem.closeExtras_of_not hx]
    have hnone : m.gate = none := Option.not_isSome_iff_eq_none.mp fun h => hx (hg h)
    refine ⟨.inr ⟨Bool.eq_false_iff.mpr fun h => hx (hr h), hnone, hm.resolve_left hx⟩, ?_⟩
    rw [hnone]
    exact nofun

theorem Step.task_ne_pending (h : Step m pc a m' pc') (ht : m.task ≠ .pending) :
    m'.task ≠ .pending := by
  have htry (x y : TaskState) (hy : y ≠ .pending) : (m.tryTask x y).task ≠ .pending := by
    unfold Mem.tryTask
    dsimp only
    split <;> assumption
  cases h
  case spawnMove | panicFail | takeDown | letGoFail => exact htry _ _ nofun
  case dead | sweepFail =>
    unfold Mem.failTask TaskState.fail
    dsimp only
    split
    · exact ht
    · exact nofun
  case stop e _ => cases e <;> exact nofun
  case startRefused =>
    dsimp only
    split
    · exact nofun
    · exact ht
  all_goals first | exact ht | exact nofun

/-- Only the spawn hands the handle out. -/
theorem Step.out (h : Step m pc a m' pc') (hpc : pc.spawns = false) (hg : m.gate = none)
    (hv : View m pc) (ho : m.out = false) : m'.out = false := by
  cases h
  case spawn | spawnDelay | spawnRelease | spawnLast => cases hpc
  case givenLast => rw [View, hg] at hv; cases hv
  case timer g =>
    cases g
    · cases hpc
    · rw [View, hg] at hv; cases hv
  all_goals exact ho

/-- A thread that is not part of the spawn does not become part of it. -/
theorem Step.spawns (h : Step m pc a m' pc') (hpc : pc'.spawns = true) : pc.spawns = true := by
  cases h
  case launchedMore g => cases g <;> first | rfl | cases hpc
  all_goals first | (cases hpc; done) | rfl

/-- A thread that does not move may rely on what it did. -/
theorem View.of_step {u : Pc} (hu : View m u) (h : Step m pc a m' pc') (hv : View m pc)
    (hpc : u.spawns = true → pc.spawns = false) : View m' u := by
  have hspawn (hs : u.spawns = true)
      (hview : m.out = false ∧ m.registered = false ∧ m.gate = none) :
      m'.out = false ∧ m'.registered = false ∧ m'.gate = none := by
    obtain ⟨ho, hr, hg⟩ := hview
    refine ⟨h.out (hpc hs) hg hv ho, ?_, h.gate_eq_none hg⟩
    rcases h.registered with heq | ⟨hout, -⟩
    · exact heq.trans hr
    · cases ho.symm.trans hout
  cases u
  case spawn | spawnFail | spawnMove => exact hspawn rfl hu
  case spawnRelease =>
    obtain ⟨ho, hr, hg, hm⟩ := hu
    obtain ⟨ho', hr', hg'⟩ := hspawn rfl ⟨ho, hr, hg⟩
    exact ⟨ho', hr', hg', h.publishesNothingMore hg hm⟩
  case launched g | timer g =>
    cases g
    · exact ⟨hspawn rfl hu.1, h.schedule.trans hu.2⟩
    · exact h.isSome_gate.trans hu
  case start | startRefused | letGoFail | finishWaiting | after => exact h.isSome_gate.trans hu
  case panicFail | release | finishKind => exact h.ended hu
  case tick | tickCount | endSchedule | copy | copyPublish => exact h.schedule.trans hu
  case endKind => exact ⟨h.schedule.trans hu.1, h.gate_eq_none hu.2⟩
  case closeFinished =>
    exact ⟨h.schedule.trans hu.1, h.kind_once hu.2.1, h.gate_eq_none hu.2.2⟩
  case copyClose => exact ⟨h.schedule.trans hu.1, h.task_ne_pending hu.2⟩
  case takeDown | takeRelease => exact hu
  all_goals trivial

/-- What the thread that moves may rely on. -/
theorem Step.view {n : ℕ} (h : Step m pc a m' pc') (hv : View m pc)
    (ho : pc.orderly m n a = true)
    (hx : m.gate.isSome = true ∨ m.schedule = true → m.extras = true)
    (hr : m.registered = true → m.extras = true) : View m' pc' := by
  have hclose (hm : m.extras = true ∨ m.publishesNothingMore = true) : m.closeExtras.Ended :=
    Mem.ended_closeExtras (fun hg => hx (.inl hg)) hr hm
  have hended : m.Ended → m'.Ended := h.ended
  cases h
  case spawnRefused | seriesRefused => exact hv
  case spawnLaunch h | endSchedule h => exact ⟨hv, h⟩
  case spawnFail => exact ⟨hv.1, hv.2.1, hv.2.2, rfl⟩
  case spawnMove =>
    refine ⟨hv.1, hv.2.1, hv.2.2, Mem.publishesNothingMore_of_over ?_⟩
    rw [Mem.tryTask, if_pos (beq_iff_eq.mp ho)]
    rfl
  case launchedMore g => cases g <;> exact hv
  case givenLast | givenRefused => exact hv
  case spawnLast => exact ⟨hv.2, hv.1.2.2⟩
  case timerRefused => exact hv.1
  case panicClose | close => exact hclose (Bool.or_eq_true_iff.mp ho)
  case panicFail | finishKind => exact hended hv
  case downLost h => exact absurd (beq_iff_eq.mp ho) h
  case rewait h => exact h
  case fireSeries h | tick h => exact h
  case unpark h => rw [Pc.orderly, h] at ho; cases ho
  case wakeRefused => cases ho
  case takeDown | takeReleaseStop | takeRelease => exact hv.elim
  case give | letGo | afterPending | afterLast | writeGate => rfl
  case startSeries | startDown | letGoFail | afterFinished => exact hv
  case startRefused => exact Option.isSome_map.trans hv
  case finishWaiting => exact hclose (.inl (hx (.inl hv)))
  case tickOver | tickLaunch | tickLast => exact hv
  case endGiven h => exact h
  case endKind => exact ⟨hv.1, rfl, hv.2⟩
  case closeFinished => exact hclose (.inl (hx (.inr hv.1)))
  case pickCopy hs => exact hs
  case copy => exact hv
  case copyLost h =>
    refine ⟨hv, fun hp => ?_⟩
    rw [Mem.begins_of_pending hp] at h
    cases h
  case copyPublish => exact ⟨hv, nofun⟩
  all_goals trivial

theorem Step.extras (h : Step m pc a m' pc') (hx : m.extras = true) : m'.extras = true := by
  cases h
  case register => rfl
  all_goals exact hx

theorem Step.attached (h : Step m pc a m' pc') (hr : m.registered = true → m.extras = true)
    (hr' : m'.registered = true) : m'.extras = true := by
  cases h
  case register => rfl
  all_goals exact hr hr'

/-- Nothing hangs on receivers that are closed, or that were never registered on. -/
theorem Step.regs (h : Step m pc a m' pc')
    (hi : m.closed = true ∨ m.registered = false → m.regs = 0)
    (hc : m'.closed = true ∨ m'.registered = false) : m'.regs = 0 := by
  cases h
  case panicClose | close | finishWaiting | closeFinished | copyClose =>
    by_cases hx : m.extras = true
    · rw [Mem.closeExtras_of_extras hx]
    · rw [Mem.closeExtras_of_not hx] at hc ⊢
      exact hi hc
  case register =>
    rcases hc with hc | hc
    · exact if_pos hc
    · cases hc
  case prune => exact Nat.sub_eq_zero_of_le ((hi hc).le.trans (Nat.zero_le 1))
  all_goals exact hi hc

/-- **A copy that ends a series lets go of what hangs on it.** The copies in flight become fewer
only as one ends: without an output, or past `close_finished_series`. -/
theorem Step.flight (h : Step m pc a m' pc') :
    m.copies + pc.inCopy.toNat ≤ m'.copies + pc'.inCopy.toNat ∨
      m' = m ∧ (pc = .copy ∧ a = .panic ∨ pc = .copyPublish ∧ m.task ≠ .running ∨
        pc = .copyClose ∧ m.seriesDone = false) ∨
      pc = .copyClose ∧ m' = m.closeExtras := by
  cases h
  case copyPanic => exact .inr (.inl ⟨rfl, .inl ⟨rfl, rfl⟩⟩)
  case copyStopped h => exact .inr (.inl ⟨rfl, .inr (.inl ⟨rfl, h⟩)⟩)
  case copyOpen h => exact .inr (.inl ⟨rfl, .inr (.inr ⟨rfl, h⟩)⟩)
  case copyClose => exact .inr (.inr ⟨rfl, rfl⟩)
  case pickCopy h _ => exact .inl (Nat.sub_add_cancel h).ge
  case spawnLaunch | startSeries | tickLaunch => exact .inl (Nat.le_succ _)
  all_goals exact .inl le_rfl

/-- The reference is given back by an ending, or by a series that has left its registrations to a
run in flight. -/
theorem Step.released (h : Step m pc a m' pc') (hv : View m pc) (hr : m'.released = true) :
    m.released = true ∨ m.Ended ∨ pc = .releaseLate := by
  cases h
  case spawnRelease => exact .inr (.inl ⟨.inr hv.2, by rw [hv.2.2.1]; exact nofun⟩)
  case release => exact .inr (.inl hv)
  case takeReleaseStop | takeRelease => exact hv.elim
  case releaseLate => exact .inr (.inr rfl)
  all_goals exact .inl hr

/-- A series leaves its registrations to a run in flight while it has no output. -/
theorem Step.leavesLate (h : Step m pc a m' pc') (hv : View m pc) (hpc : pc' = .releaseLate) :
    m' = m ∧ pc = .closeFinished ∧ m.Late ∧ m.task = .pending := by
  subst hpc
  cases h
  case closeLate h =>
    refine ⟨rfl, rfl, hv.2, ?_⟩
    rw [Mem.seriesDone, hv.2.1, hv.2.2] at h
    simpa [TaskKind.repeats] using h

end Step

/-- What holds of a task through all its endings. -/
structure Tidy [Fintype T] (m : Mem) (loc : T → Pc) : Prop where
  extras : m.gate.isSome = true ∨ m.schedule = true → m.extras = true
  attached : m.registered = true → m.extras = true
  regs : m.closed = true ∨ m.registered = false → m.regs = 0
  view : ∀ t, View m (loc t)
  alone : ∀ t u, (loc t).spawns = true → (loc u).spawns = true → t = u
  /-- A reference given back has been preceded by an ending, or a run in flight will be one. -/
  late : m.released = true ∨ (∃ t, loc t = .releaseLate) →
    m.Ended ∨ m.Late ∧ 0 < inFlight ⟨m, loc⟩

section Run

variable [Fintype T] [DecidableEq T] {m m' : Mem} {pc' : Pc} {a : Act} {loc : T → Pc} {t : T}

namespace Tidy

/-- A series that has left its registrations open keeps a run in flight, or is closed by it. -/
theorem late_step (hi : Tidy m loc) (h : Step m (loc t) a m' pc')
    (ho : (loc t).orderly m (inFlight ⟨m, loc⟩) a = true)
    (hl : m.Ended ∨ m.Late ∧ 0 < inFlight ⟨m, loc⟩) :
    m'.Ended ∨ m'.Late ∧ 0 < inFlight ⟨m', update loc t pc'⟩ := by
  rcases hl with he | ⟨⟨hk, hg⟩, hpos⟩
  · exact .inl (h.ended he)
  have hc := count_update Pc.inCopy loc t pc'
  have hrepeats : m.kind.repeats = false := by rw [hk]; rfl
  have hshut (hclosed : m.closed = true) : m.Ended :=
    ⟨.inl hclosed, by rw [hg]; exact nofun⟩
  -- A copy that ends without an output is not the last one in flight.
  have hsilent (heq : m' = m) (hin : (loc t).inCopy = true)
      (hlast : m.closed = true ∨ 1 < inFlight ⟨m, loc⟩) :
      m'.Ended ∨ m'.Late ∧ 0 < inFlight ⟨m', update loc t pc'⟩ := by
    subst heq
    rcases hlast with hclosed | hone
    · exact .inl (hshut hclosed)
    · refine .inr ⟨⟨hk, hg⟩, ?_⟩
      rw [hin, Bool.toNat_true] at hc
      dsimp only [inFlight] at hone ⊢
      omega
  rcases h.flight with hle | ⟨heq, hcase⟩ | ⟨hpc, rfl⟩
  · refine .inr ⟨⟨h.kind_once hk, h.gate_eq_none hg⟩, ?_⟩
    dsimp only [inFlight] at hpos ⊢
    omega
  · rcases hcase with ⟨hpc, rfl⟩ | ⟨hpc, hrun⟩ | ⟨hpc, hdone⟩
    · rw [hpc] at ho
      refine hsilent heq (by rw [hpc]; rfl) ?_
      simpa [Pc.orderly, hrepeats] using ho
    · rw [hpc] at ho
      refine hsilent heq (by rw [hpc]; rfl) ?_
      simpa [Pc.orderly, hrepeats, hrun] using ho
    · have hv := hi.view t
      rw [hpc] at hv
      rw [Mem.seriesDone, hrepeats, hg] at hdone
      exact absurd (by simpa using hdone) hv.2
  · have hv := hi.view t
    rw [hpc] at hv
    exact .inl (Mem.ended_closeExtras (fun hg => hi.extras (.inl hg)) hi.attached
      (.inl (hi.extras (.inr hv.1))))

/-- **A step keeps the endings in order.** -/
theorem step (hi : Tidy m loc) (ho : (loc t).orderly m (inFlight ⟨m, loc⟩) a = true)
    (h : Step m (loc t) a m' pc') : Tidy m' (update loc t pc') where
  extras := fun hx => h.extras (hi.extras (by rwa [h.isSome_gate, h.schedule] at hx))
  attached := h.attached hi.attached
  regs := h.regs hi.regs
  view := forall_update (h.view (hi.view t) ho hi.extras hi.attached) fun u hu =>
    (hi.view u).of_step h (hi.view t) fun hs =>
      Bool.eq_false_iff.mpr fun ht => hu (hi.alone u t hs ht)
  alone := by
    have hback (u : T) (hu : (update loc t pc' u).spawns = true) :
        (loc u).spawns = true := by
      rcases eq_or_ne u t with rfl | hne
      · rw [update_self] at hu
        exact h.spawns hu
      · rwa [update_of_ne hne] at hu
    exact fun u v hu hv => hi.alone u v (hback u hu) (hback v hv)
  late := by
    rintro (hr | ⟨u, hu⟩)
    · rcases h.released (hi.view t) hr with hr | he | hpc
      · exact hi.late_step h ho (hi.late (.inl hr))
      · exact .inl (h.ended he)
      · exact hi.late_step h ho (hi.late (.inr ⟨t, hpc⟩))
    · rcases eq_or_ne u t with rfl | hne
      · rw [update_self] at hu
        obtain ⟨rfl, hpc, hl, hp⟩ := h.leavesLate (hi.view u) hu
        rw [hpc, Pc.orderly, hp] at ho
        exact hi.late_step h (by rw [hpc, Pc.orderly, hp]; exact ho)
          (.inr ⟨hl, by simpa using ho⟩)
      · rw [update_of_ne hne] at hu
        exact hi.late_step h ho (hi.late (.inr ⟨u, hu⟩))

end Tidy

omit [DecidableEq T] in
theorem Fresh.tidy {s : Config T Mem Pc} (h : Fresh s) : Tidy s.mem s.loc where
  extras := h.extras
  attached := by rw [h.registered]; exact nofun
  regs := fun _ => h.regs
  view t := by
    rcases h.loc t with ht | ⟨ht, hg⟩
    · rw [ht]; trivial
    · have ho := h.out t ht
      rw [ht]
      exact ⟨ho, h.registered, hg⟩
  alone t u ht hu := by
    have hspawn (v : T) (hv : (s.loc v).spawns = true) : s.loc v = .spawn := by
      rcases h.loc v with hl | ⟨hl, -⟩
      · rw [hl] at hv; cases hv
      · exact hl
    exact h.alone t u (hspawn t ht) (hspawn u hu)
  late := by
    rintro (hr | ⟨t, ht⟩)
    · cases h.released.symm.trans hr
    · rcases h.loc t with hl | ⟨hl, -⟩ <;> cases ht.symm.trans hl

theorem tidy_of_reach {s : Config T Mem Pc} (hs : machine.Reach Fresh Orderly s) :
    Tidy s.mem s.loc :=
  hs.invariant (I := fun s => Tidy s.mem s.loc) (fun _ h => h.tidy)
    fun _ _ _ _ _ hi ho hn => hi.step ho (next_step hn)

end Run

namespace Pc

/-- The thread is in a run of the task. -/
def inRun : Pc → Bool
  | begin | execute | publish | published | finishSeries | again | panicClose | panicFail | dead
  | parkLook | copy | copyPublish | copyClose => true
  | _ => false

theorem inRun_of_inCopy {pc : Pc} (h : pc.inCopy = true) : pc.inRun = true := by
  cases pc <;> first | rfl | cases h

end Pc

/-- No run of the task is queued or in flight. -/
structure Quiet (s : Config T Mem Pc) : Prop where
  queued : s.mem.queued = 0
  parked : s.mem.parked = false
  woken : s.mem.woken = false
  copies : s.mem.copies = 0
  runs : ∀ t, (s.loc t).inRun = false

theorem Quiet.inFlight [Fintype T] {s : Config T Mem Pc} (h : Quiet s) : inFlight s = 0 := by
  have hnone : count Pc.inCopy s.loc = 0 := count_eq_zero.mpr fun t =>
    Bool.eq_false_iff.mpr fun hc => by
      cases (h.runs t).symm.trans (Pc.inRun_of_inCopy hc)
  rw [Exit.inFlight, h.copies, hnone]

/-- **An ended task is closed.** In every interleaving of its runs, its gives, the stops and
timeouts that reach it, the sweeps over the table and the registrations on it, in which the
endings are held to `Orderly`: once the reference on the task was given back and no run of it is
queued or in flight, its receivers are closed if there ever was a registration, every registration
has been let go, and its gate, if it has one, is finished. -/
theorem ended_let_go [Fintype T] [DecidableEq T] {s : Config T Mem Pc}
    (hs : machine.Reach Fresh Orderly s) (hr : s.mem.released = true) (hq : Quiet s) :
    (s.mem.registered = true → s.mem.closed = true) ∧ s.mem.regs = 0 ∧
      ∀ g ∈ s.mem.gate, g = .finished := by
  have hi := tidy_of_reach hs
  have he : s.mem.Ended := by
    rcases hi.late (.inl hr) with he | ⟨-, hpos⟩
    · exact he
    · exact absurd hq.inFlight hpos.ne'
  have hcases : s.mem.closed = true ∨ s.mem.registered = false := he.1.imp_right And.left
  refine ⟨fun hreg => hcases.resolve_right ?_, hi.regs hcases, he.2⟩
  rw [hreg]
  exact nofun

/-- A task that waits for gives, just spawned, with two threads. -/
def waiting : Config (Fin 2) Mem Pc where
  mem := { task := .pending, kind := .once, gate := some .waiting, schedule := false,
           extras := true, out := true, closed := false, regs := 0, registered := false,
           parked := false, woken := false, armed := false, clock := false, queued := 0,
           copies := 0, released := false }
  loc _ := .idle

theorem waiting_fresh : Fresh waiting where
  task := rfl
  schedule := rfl
  gate _ h := (Option.some.inj h).symm
  extras _ := rfl
  closed := rfl
  regs := rfl
  registered := rfl
  parked := rfl
  woken := rfl
  armed := rfl
  clock := rfl
  queued := rfl
  copies := rfl
  released := rfl
  loc _ := .inl rfl
  alone _ _ h := nomatch h
  out _ h := nomatch h

/-- Somebody registers, a give starts a run, and the run begins. -/
def begun : List (Fin 2 × Act) :=
  [(1, .register), (1, .give), (1, .go), (0, .pick), (0, .go)]

/-- The reference was given back, every thread is idle, and nothing is queued. -/
def isOver (s : Config (Fin 2) Mem Pc) : Bool :=
  s.mem.released && s.mem.queued == 0 && !s.mem.parked && !s.mem.woken && s.mem.copies == 0 &&
    s.loc 0 == .idle && s.loc 1 == .idle

theorem quiet_of_over {s : Config (Fin 2) Mem Pc} (h : isOver s = true) :
    s.mem.released = true ∧ Quiet s := by
  simp only [isOver, Bool.and_eq_true, beq_iff_eq, Bool.not_eq_true'] at h
  obtain ⟨⟨⟨⟨⟨⟨hr, hq⟩, hp⟩, hw⟩, hc⟩, h0⟩, h1⟩ := h
  refine ⟨hr, hq, hp, hw, hc, Fin.forall_fin_two.mpr ⟨?_, ?_⟩⟩
  · rw [h0]; rfl
  · rw [h1]; rfl

/-- A run that panics closes the gate and lets the registration go. -/
theorem ended_let_go_panic : ∃ s : Config (Fin 2) _ _,
    machine.Reach Fresh Orderly s ∧ s.mem.released = true ∧ Quiet s ∧ s.mem.regs = 0 ∧
      ∀ g ∈ s.mem.gate, g = .finished := by
  obtain ⟨s, hs, h⟩ : ∃ s, machine.Reach Fresh Orderly s ∧ isOver s = true :=
    (Machine.Reach.init waiting_fresh).exists_of_run
      (begun ++ [(0, .panic), (0, .go), (0, .go), (0, .go)]) (by decide +kernel)
  obtain ⟨hr, hq⟩ := quiet_of_over h
  exact ⟨s, hs, hr, hq, (ended_let_go hs hr hq).2⟩

/-- **A parked task that is cancelled is left open.** The run parks; the cancel takes it down and
gives the reference back, and the registration still hangs on the task and the gate still reads
`RUNNING`. -/
theorem taken_down_left_open : ∃ s : Config (Fin 2) _ _,
    machine.Reach Fresh Machine.unguarded s ∧ s.mem.released = true ∧ Quiet s ∧
      s.mem.closed = false ∧ s.mem.regs = 1 ∧ s.mem.gate = some .running := by
  obtain ⟨s, hs, hover, h⟩ : ∃ s, machine.Reach Fresh Machine.unguarded s ∧ isOver s = true ∧
      s.mem.closed = false ∧ s.mem.regs = 1 ∧ s.mem.gate = some .running :=
    (Machine.Reach.init waiting_fresh).exists_of_run (begun ++ [(0, .park), (0, .go)] ++
      (1, .stop .cancelled) :: List.replicate 5 (1, .go)) (by decide +kernel)
  obtain ⟨hr, hq⟩ := quiet_of_over hover
  exact ⟨s, hs, hr, hq, h⟩

end Atap.Exit
