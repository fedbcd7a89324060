import Atap.Common
import Atap.Interleave.Machine
import Atap.Slot.State
import Mathlib.Data.List.Basic

/-!
# A schedule and its slot

A task spawned with `at_rate` has a slot that is never run. The thread that spawned it, and from
then on the manager at every tick of its clock, launches copies of the task, each with a slot of
its own; a copy that ends well publishes its output into the slot of the series. This module is
the slot of one series that takes no gives, as a machine: every atomic operation on its words is
one step.

The programs, by function:

* the **driver**: `start_series` in the thread that spawns, `tick` and `end_schedule` in the
  manager, with `count_run`, `finish_series` and `release`;
* a **run**: a launched copy that is picked up, and that panics or calls `publish`, with `begin`,
  `recycle`, the write of the payload, `fill` and the move from `Running` to `Ready`;
* a **listener**: a read between `enter_read` and `leave_read`, a take with `claim_result` and
  `empty`, and `stop` for a cancel or for the timeout of a run.

Whether the pool takes a run, whether the kernel takes a timer, whether the deadline has passed
at a tick, when ticks come, and what each run does are left to the schedule of the machine.
`runs`, `tried`, `outs`, `released`, `refused` and `stopped` are a history; no step reads them but
`runs`, which numbers the runs.
-/

namespace Atap.Series

open Function

/-- The slot of a series, its clock, and the runs it has launched. -/
structure Mem (α : Type*) where
  /-- `TaskData::state`. -/
  state : TaskState
  /-- `TaskData::kind`. -/
  kind : TaskKind
  /-- `TaskData::runs_left`. -/
  runsLeft : ℕ
  /-- `TaskData::start_delay` is not zero. -/
  delayed : Bool
  /-- `TaskData::readers`. -/
  readers : ℕ
  /-- `TaskData::filled`. -/
  filled : Bool
  /-- The bytes of the payload: the output last written there, with the number of its run. -/
  payload : Option (ℕ × α)
  /-- A timer of the series is armed. -/
  clock : Bool
  /-- Runs launched and not picked up, by number. -/
  launched : List ℕ
  /-- How many runs were launched. -/
  runs : ℕ
  /-- The runs that got as far as `publish`. -/
  tried : ℕ → Bool
  /-- What each run returned. -/
  outs : ℕ → Option α
  /-- The executor's reference was given back. -/
  released : Bool
  /-- The pool refused a run, the kernel the timer of the spawn, or no run was allowed to it. -/
  refused : Bool
  /-- A `stop` moved the state. -/
  stopped : Bool

/-- Where a thread stands in the code. `first` tells `start_series` from `tick`, and a run is
named by its number. -/
inductive Pc (α : Type*)
  | idle
  /-- The spawn of the series. -/
  | start
  | launch (first : Bool)
  /-- `count_run`. -/
  | count (first : Bool)
  /-- `start_series`, before `schedule`. -/
  | schedule
  /-- The spawn, before the move to `Failed`. -/
  | fail
  /-- `tick`, before the look at the start delay. -/
  | tick
  /-- `tick`, before `schedule`. -/
  | tickSchedule
  /-- `tick`, before the look at the bounds. -/
  | tickBounds
  /-- `tick`, before the look at the state. -/
  | tickState
  /-- `tick`, before the last look at the state. -/
  | tickFail
  /-- `tick`, before the store of `Failed`. -/
  | tickStore
  /-- `finish_series`. -/
  | finish
  | release
  /-- A copy of the task, before it is over. -/
  | run (k : ℕ)
  /-- `begin`, before the exchange from `Pending`. -/
  | beginPending (k : ℕ) (x : α)
  /-- `begin`, before the look at the kind. -/
  | beginKind (k : ℕ) (x : α)
  /-- `begin`, before the exchange from `Ready`. -/
  | beginReady (k : ℕ) (x : α)
  /-- `begin`, before the exchange from `Taken`. -/
  | beginTaken (k : ℕ) (x : α)
  | recycle (k : ℕ) (x : α)
  /-- `publish`, before the payload is written. -/
  | write (k : ℕ) (x : α)
  /-- `publish`, before `fill`. -/
  | fill
  /-- `publish`, before the exchange from `Running`. -/
  | publish
  /-- `enter_read`, before the look at the state. -/
  | entering
  /-- `enter_read` returned `true` and found this in the payload. -/
  | reading (saw : Option (ℕ × α))
  /-- `enter_read`, before the count is taken back. -/
  | backingOut
  /-- `claim_result`, waiting the readers out. -/
  | takeWait
  /-- A take, before `empty`. -/
  | takeEmpty
  /-- `stop`, before the load of the state. -/
  | stopLook (dest : Ending)
  /-- `stop`, before the load of the kind. -/
  | stopKind (dest : Ending) (saw : TaskState)
  /-- `stop`, before the exchange. -/
  | stopMove (dest : Ending) (saw : TaskState)
  deriving DecidableEq

namespace Pc

variable {α : Type*}

/-- The thread is a listener, or does nothing at all. -/
def listens : Pc α → Bool
  | idle | entering | reading _ | backingOut | takeWait | takeEmpty | stopLook _ | stopKind _ _
  | stopMove _ _ => true
  | _ => false

/-- The thread is in `stop`. -/
def stops : Pc α → Bool
  | stopLook _ | stopKind _ _ | stopMove _ _ => true
  | _ => false

/-- The thread spawns the series, or handles one of its ticks. -/
def drives : Pc α → Bool
  | start | launch _ | count _ | schedule | fail | tick | tickSchedule | tickBounds | tickState
  | tickFail | tickStore | finish | release => true
  | _ => false

/-- The thread is in a run. -/
def runs : Pc α → Bool
  | run _ | beginPending _ _ | beginKind _ _ | beginReady _ _ | beginTaken _ _ | recycle _ _
  | write _ _ | fill | publish => true
  | _ => false

/-- The thread has moved the slot to `Running`. -/
def owns : Pc α → Bool
  | recycle _ _ | write _ _ | fill | publish => true
  | _ => false

theorem owns_eq_false {pc : Pc α} (h : pc.listens = true) : pc.owns = false := by
  cases pc <;> first | rfl | cases h

theorem runs_eq_false {pc : Pc α} (h : pc.listens = true) : pc.runs = false := by
  cases pc <;> first | rfl | cases h

theorem drives_eq_false {pc : Pc α} (h : pc.listens = true) : pc.drives = false := by
  cases pc <;> first | rfl | cases h

theorem drives_eq_false_of_runs {pc : Pc α} (h : pc.runs = true) : pc.drives = false := by
  cases pc <;> first | rfl | cases h

end Pc

inductive Act (α : Type*)
  | go
  /-- The pool or the kernel turns down what it is handed. -/
  | refuse
  /-- The deadline has passed. -/
  | late
  /-- A timer of the series goes off. -/
  | tick
  /-- A worker picks up a launched run. -/
  | pick (k : ℕ)
  /-- The run returns this. -/
  | done (x : α)
  /-- The run panics. -/
  | panic
  | read
  | take
  /-- The series is cancelled, or timed out by one of its runs. -/
  | stop (dest : Ending)
  deriving DecidableEq

variable {α : Type*}

/-- `count_run`: what is left of the runs, and whether that was the last one allowed. -/
def countRun (left : ℕ) : ℕ × Bool :=
  if left = unlimited then (left, false) else (left - 1, left - 1 = 0)

/-- `isOver`: a series has come to an end, which `Ready` and `Taken` are not. -/
def isOver : TaskState → Bool
  | .cancelled | .timedOut | .failed => true
  | _ => false

/-- The steps of the thread that spawns the series, and of the manager at its ticks. -/
def driveStep (m : Mem α) : Pc α → Act α → Option (Mem α × Pc α)
  | .start, .go =>
    if m.delayed then some ({ m with clock := true }, .idle)
    else if m.runsLeft = 0 then some ({ m with refused := true }, .fail)
    else some (m, .launch true)
  | .start, .refuse => if m.delayed then some ({ m with refused := true }, .fail) else none
  | .launch b, .go =>
    some ({ m with launched := m.launched ++ [m.runs], runs := m.runs + 1 }, .count b)
  | .launch b, .refuse => some ({ m with refused := true }, if b then .fail else .tickFail)
  | .count b, .go =>
    if (countRun m.runsLeft).2 then some ({ m with runsLeft := (countRun m.runsLeft).1 }, .finish)
    else some ({ m with runsLeft := (countRun m.runsLeft).1, clock := !b },
      if b then .schedule else .idle)
  | .schedule, .go => some ({ m with clock := true }, .idle)
  | .schedule, .refuse => some ({ m with refused := true }, .fail)
  | .fail, .go =>
    some ({ m with state := if m.state = .pending then .failed else m.state }, .release)
  | .idle, .tick => if m.clock then some ({ m with clock := false }, .tick) else none
  | .tick, .go =>
    some ({ m with delayed := false }, if m.delayed then .tickSchedule else .tickBounds)
  | .tickSchedule, .go => some (m, .tickBounds)
  | .tickSchedule, .refuse => some (m, .finish)
  | .tickBounds, .go => some (m, if m.runsLeft = 0 then .finish else .tickState)
  | .tickBounds, .late => some (m, .finish)
  | .tickState, .go => some (m, if isOver m.state then .tickFail else .launch false)
  | .tickFail, .go => some (m, if m.state.terminal then .release else .tickStore)
  | .tickStore, .go => some ({ m with state := .failed }, .release)
  | .finish, .go => some ({ m with kind := .once }, .release)
  | .release, .go => some ({ m with released := true }, .idle)
  | _, _ => none

/-- The steps of a run: a copy of the task, and `publish`. -/
def runStep (m : Mem α) : Pc α → Act α → Option (Mem α × Pc α)
  | .idle, .pick k =>
    if k ∈ m.launched then some ({ m with launched := m.launched.erase k }, .run k) else none
  | .run k, .done x =>
    some ({ m with
      tried := update m.tried k true
      outs := update m.outs k (some x) }, .beginPending k x)
  | .run _, .panic => some (m, .idle)
  | .beginPending k x, .go =>
    if m.state = .pending then some ({ m with state := .running }, .write k x)
    else some (m, .beginKind k x)
  | .beginKind k x, .go => some (m, if m.kind.repeats then .beginReady k x else .idle)
  | .beginReady k x, .go =>
    if m.state = .ready then some ({ m with state := .running }, .recycle k x)
    else some (m, .beginTaken k x)
  | .beginTaken k x, .go =>
    if m.state = .taken then some ({ m with state := .running }, .recycle k x)
    else some (m, .idle)
  | .recycle k x, .go =>
    if m.readers = 0 then some ({ m with filled := false }, .write k x) else none
  | .write k x, .go => some ({ m with payload := some (k, x) }, .fill)
  | .fill, .go => some ({ m with filled := true }, .publish)
  | .publish, .go =>
    some ({ m with state := if m.state = .running then .ready else m.state }, .idle)
  | _, _ => none

/-- The steps of a listener. -/
def listenStep (m : Mem α) : Pc α → Act α → Option (Mem α × Pc α)
  | .idle, .read => some ({ m with readers := m.readers + 1 }, .entering)
  | .entering, .go => some (m, if m.state = .ready then .reading m.payload else .backingOut)
  | .reading _, .go => some ({ m with readers := m.readers - 1 }, .idle)
  | .backingOut, .go => some ({ m with readers := m.readers - 1 }, .idle)
  | .idle, .take =>
    if m.state = .ready then some ({ m with state := .taken }, .takeWait) else some (m, .idle)
  | .takeWait, .go => if m.readers = 0 then some (m, .takeEmpty) else none
  | .takeEmpty, .go => some ({ m with filled := false }, .idle)
  | .idle, .stop dest => some (m, .stopLook dest)
  | .stopLook dest, .go => some (m, .stopKind dest m.state)
  -- A one shot that has been taken is finished; a series in the same state is between runs.
  | .stopKind dest saw, .go =>
    some (m, if saw.stopReturns m.kind.repeats then .idle else .stopMove dest saw)
  | .stopMove dest saw, .go =>
    if m.state = saw then some ({ m with state := dest.state, stopped := true }, .idle)
    else some (m, .stopLook dest)
  | _, _ => none

/-- One step of one thread. -/
def next (m : Mem α) (pc : Pc α) (a : Act α) : Option (Mem α × Pc α) :=
  (driveStep m pc a).or ((runStep m pc a).or (listenStep m pc a))

/-- The slot of a series as a machine. -/
def machine (α : Type*) : Machine (Mem α) (Pc α) (Act α) := ⟨next⟩

/-- A series just spawned: one thread is about to start it, and no other does anything. `n` is
the number of runs it is allowed. -/
structure Fresh {T : Type*} (n : ℕ) (s : Config T (Mem α) (Pc α)) : Prop where
  state : s.mem.state = .pending
  kind : s.mem.kind = .series
  runsLeft : s.mem.runsLeft = n
  clock : s.mem.clock = false
  launched : s.mem.launched = []
  runs : s.mem.runs = 0
  tried : ∀ k, s.mem.tried k = false
  released : s.mem.released = false
  refused : s.mem.refused = false
  stopped : s.mem.stopped = false
  loc : ∃ t, s.loc t = .start ∧ ∀ u, u ≠ t → s.loc u = .idle

/-! ### What a step can do -/

/-- One step of one thread, case by case. -/
inductive Step (m : Mem α) : Pc α → Act α → Mem α → Pc α → Prop
  | delay (h : m.delayed = true) : Step m .start .go { m with clock := true } .idle
  | noDelay (h : m.delayed = true) : Step m .start .refuse { m with refused := true } .fail
  | startNone (h : m.runsLeft = 0) : Step m .start .go { m with refused := true } .fail
  | start (h : m.runsLeft ≠ 0) : Step m .start .go m (.launch true)
  | launch (b : Bool) : Step m (.launch b) .go
      { m with launched := m.launched ++ [m.runs], runs := m.runs + 1 } (.count b)
  | startRefused : Step m (.launch true) .refuse { m with refused := true } .fail
  | tickRefused : Step m (.launch false) .refuse { m with refused := true } .tickFail
  | countLast (b : Bool) (h : (countRun m.runsLeft).2 = true) :
      Step m (.count b) .go { m with runsLeft := (countRun m.runsLeft).1 } .finish
  | countFirst (h : (countRun m.runsLeft).2 = false) : Step m (.count true) .go
      { m with runsLeft := (countRun m.runsLeft).1, clock := false } .schedule
  | countTick (h : (countRun m.runsLeft).2 = false) : Step m (.count false) .go
      { m with runsLeft := (countRun m.runsLeft).1, clock := true } .idle
  | schedule : Step m .schedule .go { m with clock := true } .idle
  | noSchedule : Step m .schedule .refuse { m with refused := true } .fail
  | fail (h : m.state = .pending) : Step m .fail .go { m with state := .failed } .release
  | failNot (h : m.state ≠ .pending) : Step m .fail .go m .release
  | goOff (h : m.clock = true) : Step m .idle .tick { m with clock := false } .tick
  | tickDelayed (h : m.delayed = true) : Step m .tick .go { m with delayed := false } .tickSchedule
  | tick (h : m.delayed = false) : Step m .tick .go { m with delayed := false } .tickBounds
  | tickSchedule : Step m .tickSchedule .go m .tickBounds
  | tickNoSchedule : Step m .tickSchedule .refuse m .finish
  | tickNone (h : m.runsLeft = 0) : Step m .tickBounds .go m .finish
  | tickMore (h : m.runsLeft ≠ 0) : Step m .tickBounds .go m .tickState
  | tickLate : Step m .tickBounds .late m .finish
  | tickOver (h : isOver m.state = true) : Step m .tickState .go m .tickFail
  | tickLaunch (h : isOver m.state = false) : Step m .tickState .go m (.launch false)
  | tickSettled (h : m.state.terminal = true) : Step m .tickFail .go m .release
  | tickFail (h : m.state.terminal = false) : Step m .tickFail .go m .tickStore
  | tickStore : Step m .tickStore .go { m with state := .failed } .release
  | finish : Step m .finish .go { m with kind := .once } .release
  | release : Step m .release .go { m with released := true } .idle
  | pick {k : ℕ} (h : k ∈ m.launched) :
      Step m .idle (.pick k) { m with launched := m.launched.erase k } (.run k)
  | done (k : ℕ) (x : α) : Step m (.run k) (.done x) { m with
      tried := update m.tried k true
      outs := update m.outs k (some x) } (.beginPending k x)
  | panic (k : ℕ) : Step m (.run k) .panic m .idle
  | beginPending {k : ℕ} {x : α} (h : m.state = .pending) :
      Step m (.beginPending k x) .go { m with state := .running } (.write k x)
  | notPending {k : ℕ} {x : α} (h : m.state ≠ .pending) :
      Step m (.beginPending k x) .go m (.beginKind k x)
  | repeats {k : ℕ} {x : α} (h : m.kind.repeats = true) :
      Step m (.beginKind k x) .go m (.beginReady k x)
  | turnedAway {k : ℕ} {x : α} (h : m.kind.repeats = false) : Step m (.beginKind k x) .go m .idle
  | beginReady {k : ℕ} {x : α} (h : m.state = .ready) :
      Step m (.beginReady k x) .go { m with state := .running } (.recycle k x)
  | notReady {k : ℕ} {x : α} (h : m.state ≠ .ready) :
      Step m (.beginReady k x) .go m (.beginTaken k x)
  | beginTaken {k : ℕ} {x : α} (h : m.state = .taken) :
      Step m (.beginTaken k x) .go { m with state := .running } (.recycle k x)
  | notTaken {k : ℕ} {x : α} (h : m.state ≠ .taken) : Step m (.beginTaken k x) .go m .idle
  | recycle {k : ℕ} {x : α} (h : m.readers = 0) :
      Step m (.recycle k x) .go { m with filled := false } (.write k x)
  | write (k : ℕ) (x : α) : Step m (.write k x) .go { m with payload := some (k, x) } .fill
  | fill : Step m .fill .go { m with filled := true } .publish
  | publish (h : m.state = .running) : Step m .publish .go { m with state := .ready } .idle
  | publishNot (h : m.state ≠ .running) : Step m .publish .go m .idle
  /-- A listener that leaves the state alone. -/
  | listen {pc pc' : Pc α} {a : Act α} (r : ℕ) (f : Bool) (hpc : pc.listens = true)
      (hpc' : pc'.listens = true)
      (hs : pc'.stops = true → pc.stops = true ∨ ∃ dest, a = .stop dest) :
      Step m pc a { m with readers := r, filled := f } pc'
  | take (h : m.state = .ready) : Step m .idle .take { m with state := .taken } .takeWait
  | stop {dest : Ending} {saw : TaskState} (h : m.state = saw) :
      Step m (.stopMove dest saw) .go { m with state := dest.state, stopped := true } .idle

variable {m m' : Mem α} {pc pc' : Pc α} {a : Act α}

theorem driveStep_step (h : driveStep m pc a = some (m', pc')) : Step m pc a m' pc' := by
  unfold driveStep at h
  split at h
  case h_1 =>
    split at h
    · exact yield h (.delay ‹_›)
    · exact yield_ite h .startNone .start
  case h_2 =>
    split at h
    · exact yield h (.noDelay ‹_›)
    · cases h
  case h_4 b =>
    cases h
    cases b
    · exact .tickRefused
    · exact .startRefused
  case h_5 b =>
    split at h
    · exact yield h (.countLast b ‹_›)
    · cases h
      cases b
      · exact .countTick (Bool.eq_false_iff.mpr ‹_›)
      · exact .countFirst (Bool.eq_false_iff.mpr ‹_›)
  case h_8 =>
    cases h
    split
    · exact .fail ‹_›
    · exact .failNot ‹_›
  case h_9 =>
    split at h
    · exact yield h (.goOff ‹_›)
    · cases h
  case h_10 => exact yield_snd h .tickDelayed fun hc => .tick (Bool.eq_false_iff.mpr hc)
  case h_13 => exact yield_snd h .tickNone .tickMore
  case h_15 => exact yield_snd h .tickOver fun hc => .tickLaunch (Bool.eq_false_iff.mpr hc)
  case h_16 => exact yield_snd h .tickSettled fun hc => .tickFail (Bool.eq_false_iff.mpr hc)
  case h_20 => cases h
  case h_3 | h_6 | h_7 | h_11 | h_12 | h_14 | h_17 | h_18 | h_19 =>
    cases h
    constructor

theorem runStep_step (h : runStep m pc a = some (m', pc')) : Step m pc a m' pc' := by
  unfold runStep at h
  split at h
  case h_1 =>
    split at h
    · exact yield h (.pick ‹_›)
    · cases h
  case h_4 => exact yield_ite h .beginPending .notPending
  case h_5 => exact yield_snd h .repeats fun hc => .turnedAway (Bool.eq_false_iff.mpr hc)
  case h_6 => exact yield_ite h .beginReady .notReady
  case h_7 => exact yield_ite h .beginTaken .notTaken
  case h_8 =>
    split at h
    · exact yield h (.recycle ‹_›)
    · cases h
  case h_11 =>
    cases h
    split
    · exact .publish ‹_›
    · exact .publishNot ‹_›
  case h_12 => cases h
  case h_2 | h_3 | h_9 | h_10 =>
    cases h
    constructor

theorem listenStep_step (h : listenStep m pc a = some (m', pc')) : Step m pc a m' pc' := by
  unfold listenStep at h
  split at h
  case h_2 =>
    cases h
    split <;> exact .listen m.readers m.filled rfl rfl nofun
  case h_5 =>
    split at h
    · exact yield h (.take ‹_›)
    · exact yield h (.listen m.readers m.filled rfl rfl nofun)
  case h_6 =>
    split at h
    · exact yield h (.listen m.readers m.filled rfl rfl nofun)
    · cases h
  case h_8 dest => exact yield h (.listen m.readers m.filled rfl rfl fun _ => .inr ⟨dest, rfl⟩)
  case h_9 => exact yield h (.listen m.readers m.filled rfl rfl fun _ => .inl rfl)
  case h_10 =>
    cases h
    split <;> exact .listen m.readers m.filled rfl rfl fun _ => .inl rfl
  case h_11 =>
    split at h
    · exact yield h (.stop ‹_›)
    · exact yield h (.listen m.readers m.filled rfl rfl fun _ => .inl rfl)
  case h_12 => cases h
  all_goals
    cases h
    exact .listen _ _ rfl rfl nofun

/-- Every step of the machine is one of the cases. -/
theorem next_step (h : (machine α).next m pc a = some (m', pc')) : Step m pc a m' pc' := by
  rcases Option.or_eq_some_iff.mp h with h | ⟨-, h⟩
  · exact driveStep_step h
  · rcases Option.or_eq_some_iff.mp h with h | ⟨-, h⟩
    · exact runStep_step h
    · exact listenStep_step h

end Atap.Series
