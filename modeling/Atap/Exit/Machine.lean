import Atap.Gate.Machine
import Atap.Slot.State

/-!
# The ways a task can end

There are more than a dozen places in the executor where a task comes to its end and the
executor's reference on it is given back. This module is one task, of any kind, with or without a
gate, with all of them: what each does, and in which order. A step is one operation of the
executor on the task (a `try_state`, a `close_extras`, a `release`), so other threads come between
the parts of an ending; how a walk of the registrations is made up of atomic operations is not
here.

The programs, by function:

* `create` and `create_series`, with the pool or the kernel turning the task down;
* `run`: a task turned away, an output published, a panic, the death of the thread (`fail`), the
  next run of a repeat, and a park (`park_task`, `wake_parked`, `unpark`, `take_down`);
* `stop` for a cancel or the timeout of a run in the series, `timed_out`, `fire`;
* `give` with `start_waiting`, `rewait` with `after_run`, `let_go_waiting`, `finish_waiting` and
  `write_off`;
* a schedule: `start_series`, `tick`, `end_schedule` and the copies it launches, with `publish`
  and `close_finished_series`;
* the sweeps over the table: a shutdown, `orphaned` and `write_off_pool`;
* `register`, with the look at `publishes_nothing_more`.

What the task does, what the pool and the kernel turn down, when a series has had its runs and
when the sweeps come are left to the schedule of the machine. Whether the task is in its slot is
not here either: an entry for a task that is running finds nothing to do.
-/

namespace Atap.Exit

open Gate (GateState)

/-- A slot, as far as its end is concerned. -/
structure Mem where
  /-- `TaskData::state`. -/
  task : TaskState
  /-- `TaskData::kind`. -/
  kind : TaskKind
  /-- The gate of a task that takes input. -/
  gate : Option GateState
  /-- The task was spawned as a schedule. -/
  schedule : Bool
  /-- Extras are attached. -/
  extras : Bool
  /-- The handle has been handed out. -/
  out : Bool
  /-- `CLOSED` of the receivers. -/
  closed : Bool
  /-- Registrations hung on the task. -/
  regs : ℕ
  /-- There was ever a registration. -/
  registered : Bool
  /-- `TaskData::parked`. -/
  parked : Bool
  /-- A parked task that was woken is in a queue. -/
  woken : Bool
  /-- `TaskData::armed`. -/
  armed : Bool
  /-- The schedule is on the clock. -/
  clock : Bool
  /-- Runs in a queue. -/
  queued : ℕ
  /-- Copies a schedule has launched and no thread has picked up. -/
  copies : ℕ
  /-- The executor's reference was given back. -/
  released : Bool
  deriving DecidableEq

/-- The sweeps over the table. -/
inductive Sweep
  | shutdown
  | orphaned
  | writeOffPool
  deriving DecidableEq

/-- Where a thread stands in the code. `given` tells a series started by a give from one started
at its spawn, and `stops` an `unpark` that is part of `stopped`. -/
inductive Pc
  | idle
  /-- `create` or `create_series`, before the task is queued, timed or started. -/
  | spawn
  /-- `create`, before the store of `Failed`. -/
  | spawnFail
  /-- `create_series`, before the move to `Failed`. -/
  | spawnMove
  /-- `create` or `create_series`, before `release`. -/
  | spawnRelease
  /-- `start_series`, before `count_run`. -/
  | launched (given : Bool)
  /-- `start_series`, before `schedule`. -/
  | timer (given : Bool)
  /-- `run`, before `begin`. -/
  | begin
  /-- The run itself. -/
  | execute
  /-- `run`, before the move to `Ready`. -/
  | publish
  /-- `run`, before the look at the kind and the bounds of the series. -/
  | published
  /-- `run`, before `finish_series`. -/
  | finishSeries
  /-- `run`, before the next run is queued or timed. -/
  | again
  /-- Nothing is left to run the task: the states it is tried to be failed from. -/
  | lost (l : List TaskState)
  /-- Before `close_extras`, with `release` to follow. -/
  | close
  | release
  /-- `run` after a panic, before `close_extras`. -/
  | panicClose
  /-- `run` after a panic, before the move to `Failed`. -/
  | panicFail
  /-- `fail`. -/
  | dead
  /-- `park_task`, before the look at the state. -/
  | parkLook
  | unpark (stops : Bool)
  /-- `take_down`, before the move to `Failed`. -/
  | takeDown (stops : Bool)
  /-- `take_down`, before `release`. -/
  | takeRelease (stops : Bool)
  /-- `wake_parked`, before the task is queued. -/
  | wakeQueue
  /-- `stopped`, before `let_go_waiting`. -/
  | stopLetGo
  /-- `timed_out`, with the park claimed. -/
  | downMove
  /-- `fire`, before the task is queued. -/
  | fired
  /-- `start_waiting`. -/
  | start
  /-- `start_waiting`, turned down. -/
  | startRefused
  /-- `let_go_waiting`, before `close_waiting`. -/
  | letGo
  /-- `let_go_waiting`, before the move to `Failed`. -/
  | letGoFail
  /-- `finish_waiting`, before `close_extras`. -/
  | finishWaiting
  /-- `finish_waiting`, before `finish_series`. -/
  | finishKind
  /-- `after_run`. -/
  | after
  /-- `write_off`, before `close_waiting`. -/
  | writeGate
  /-- `write_off`, before the gate is finished. -/
  | writeFinish
  | tick
  /-- `tick`, before `count_run`. -/
  | tickCount
  | endSchedule
  /-- The end of a series, before `finish_series`. -/
  | endKind
  /-- The end of a series, before `close_finished_series`. -/
  | closeFinished
  /-- The end of a series whose registrations are left to a run in flight, before `release`. -/
  | releaseLate
  /-- A copy, before it is over. -/
  | copy
  /-- `publish`, before the move to `Ready`. -/
  | copyPublish
  /-- `publish`, before `close_finished_series`. -/
  | copyClose
  /-- A sweep that has come to the task. -/
  | sweep (w : Sweep)
  /-- A sweep, before the move to `Failed`. -/
  | sweepFail
  deriving DecidableEq

inductive Act
  | go
  /-- The pool or the kernel turns down what it is handed. -/
  | refuse
  /-- A start delay puts the task on a timer. -/
  | delay
  /-- A copy of a schedule is launched. -/
  | launch
  /-- The series has had its runs. -/
  | last
  /-- The series has runs left. -/
  | more
  /-- A worker picks up a queued run. -/
  | pick
  /-- A worker picks up a parked task that was woken. -/
  | resume
  /-- A worker picks up a copy. -/
  | pickCopy
  | panic
  /-- The thread goes down with the run. -/
  | die
  | park
  /-- What a parked task watches happens, or its deadline comes. -/
  | wake
  /-- The task's timer goes off. -/
  | fire
  /-- A tick of the clock. -/
  | tick
  /-- The task is cancelled, or timed out by one of its runs. -/
  | stop (dest : Ending)
  /-- The timer of a run goes off. -/
  | timeout
  | give
  /-- The last handle that can give is dropped. -/
  | abandon
  | writeOff
  | register
  /-- A walk finds a registration whose far end is finished. -/
  | prune
  /-- A listener takes the output. -/
  | take
  | sweep (w : Sweep)
  /-- A queued task is drained by a shutdown or `write_off_pool`. -/
  | drain
  deriving DecidableEq

namespace Mem

/-- `TaskData::publishes_nothing_more`. -/
def publishesNothingMore (m : Mem) : Bool :=
  match m.task with
  | .cancelled | .timedOut | .failed | .free => true
  | .pending | .running => false
  | .ready | .taken =>
    match m.gate with
    | some g => g == .finished
    | none => m.kind == .once

/-- `close_extras`, which does nothing without extras. -/
def closeExtras (m : Mem) : Mem where
  __ := m
  closed := m.extras || m.closed
  regs := if m.extras then 0 else m.regs
  gate := if m.extras then m.gate.map fun _ => .finished else m.gate

/-- `Receivers::register`, with the extras it attaches. -/
def register (m : Mem) : Mem where
  __ := m
  extras := true
  registered := true
  closed := m.closed || m.publishesNothingMore
  regs := if m.closed || m.publishesNothingMore then 0 else m.regs + 1

/-- `TaskData::begin` succeeds. -/
def begins (m : Mem) : Bool :=
  m.task.begins (m.kind.repeats || m.gate.isSome)

/-- `Gate::begin`. -/
def beginGate (m : Mem) : Mem :=
  { m with gate := m.gate.map fun g => if g = .queued then .running else g }

/-- A `try_state` whose result nothing depends on. -/
def tryTask (m : Mem) (old new : TaskState) : Mem :=
  { m with task := if m.task = old then new else m.task }

/-- The store of `Failed` in a task that has not settled. -/
def failTask (m : Mem) : Mem :=
  { m with task := m.task.fail }

/-- `close_finished_series` has something to close. -/
def seriesDone (m : Mem) : Bool := !(m.kind.repeats || m.gate.isSome || m.task == .pending)

/-- A sweep leaves the task alone. -/
def spares (m : Mem) (w : Sweep) : Bool :=
  (w == .orphaned && !m.kind.waits && !m.kind.schedules && !m.armed) ||
    (m.task == .running && !m.kind.schedules)

end Mem

/-- The steps of a spawn, and of the start of a series. -/
def spawnStep (m : Mem) : Pc → Act → Option (Mem × Pc)
  | .spawn, .go =>
    if m.schedule then none else some ({ m with queued := m.queued + 1, out := true }, .idle)
  | .spawn, .delay => some ({ m with armed := true, out := true }, .idle)
  | .spawn, .refuse => some (m, if m.schedule then .spawnMove else .spawnFail)
  | .spawn, .launch =>
    if m.schedule then some ({ m with copies := m.copies + 1 }, .launched false) else none
  | .spawnFail, .go => some ({ m with task := .failed }, .spawnRelease)
  | .spawnMove, .go => some (m.tryTask .pending .failed, .spawnRelease)
  | .spawnRelease, .go => some ({ m with released := true, out := true }, .idle)
  | .launched g, .more => some (m, .timer g)
  | .launched g, .last => some ({ m with out := true }, if g then .after else .endKind)
  | .timer _, .go => some ({ m with clock := true, out := true }, .idle)
  | .timer g, .refuse => some (m, if g then .startRefused else .spawnMove)
  | _, _ => none

/-- The steps of a run. -/
def runStep (m : Mem) : Pc → Act → Option (Mem × Pc)
  | .idle, .pick =>
    if 0 < m.queued then some ({ m with queued := m.queued - 1 }, .begin) else none
  | .begin, .go =>
    if m.begins then some ({ m.beginGate with task := .running }, .execute)
    else some (m, if m.task = .running then .idle else .close)
  | .idle, .resume =>
    if m.woken then
      some ({ m with woken := false }, if m.task = .running then .execute else .close)
    else none
  | .execute, .go => some (m, .publish)
  | .execute, .panic => some (m, .panicClose)
  | .execute, .die => some (m, .dead)
  | .execute, .park => some ({ m with parked := true }, .parkLook)
  | .publish, .go =>
    if m.task = .running then some ({ m with task := .ready }, .published) else some (m, .close)
  | .published, .go =>
    some (m, if m.gate.isSome then .after else if m.kind.repeats then .finishSeries else .close)
  | .published, .more => if m.kind.repeats then some (m, .again) else none
  | .finishSeries, .go => some ({ m with kind := .once }, .close)
  | .again, .go =>
    some (if m.kind.waits then { m with armed := true } else { m with queued := m.queued + 1 },
      .idle)
  | .again, .refuse => some (m, .lost [.ready])
  | .panicClose, .go => some (m.closeExtras, .panicFail)
  | .panicFail, .go => some (m.tryTask .running .failed, .release)
  | .dead, .go => some (m.failTask, .close)
  | .idle, .drain =>
    if 0 < m.queued then some ({ m with queued := m.queued - 1 }, .dead) else none
  | _, _ => none

/-- The steps that end a task, and of a timer that is turned down. -/
def endStep (m : Mem) : Pc → Act → Option (Mem × Pc)
  | .idle, .fire =>
    if m.armed then some ({ m with armed := false }, if m.schedule then .tick else .fired)
    else none
  | .fired, .go => some ({ m with queued := m.queued + 1 }, .idle)
  | .fired, .refuse => some (m, .lost [.ready, .taken, .pending])
  | .lost [], .go => some (m, .close)
  | .lost (s :: l), .go =>
    if m.task = s then some ({ m with task := .failed }, .close) else some (m, .lost l)
  | .close, .go => some (m.closeExtras, .release)
  | .release, .go => some ({ m with released := true }, .idle)
  | .idle, .sweep w =>
    some (if w = .shutdown then { m with armed := false } else m, .sweep w)
  | .sweep w, .go =>
    some (m, if w ≠ .writeOffPool ∧ m.parked = true then .unpark false
      else if m.spares w then .idle else .sweepFail)
  | .sweepFail, .go => some (m.failTask, .close)
  | _, _ => none

/-- The steps of a park, of a stop and of a timeout. -/
def stopStep (m : Mem) : Pc → Act → Option (Mem × Pc)
  | .parkLook, .go => some (m, if m.task = .running then .idle else .unpark false)
  | .parkLook, .refuse => some (m, .unpark false)
  | .unpark stops, .go =>
    if m.parked then some ({ m with parked := false }, .takeDown stops)
    else some (m, if stops then .stopLetGo else .idle)
  | .takeDown stops, .go => some (m.tryTask .running .failed, .takeRelease stops)
  | .takeRelease stops, .go =>
    some ({ m with released := true }, if stops then .stopLetGo else .idle)
  | .idle, .wake => if m.parked then some ({ m with parked := false }, .wakeQueue) else none
  | .wakeQueue, .go => some ({ m with woken := true }, .idle)
  | .wakeQueue, .refuse => some (m, .takeDown false)
  | .idle, .stop e =>
    if m.task.stopReturns m.kind.repeats then none
    else some ({ m with task := e.state }, .unpark true)
  | .stopLetGo, .go => some (m, if m.gate.isSome then .letGo else .idle)
  | .idle, .timeout =>
    if m.parked then some ({ m with parked := false }, .downMove)
    else if m.task = .running then some ({ m with task := .timedOut }, .unpark true) else none
  | .downMove, .go =>
    if m.task = .running then some ({ m with task := .timedOut }, .close) else some (m, .release)
  | _, _ => none

/-- The steps of a task that takes gives. -/
def gateStep (m : Mem) : Pc → Act → Option (Mem × Pc)
  | .idle, .give =>
    match m.gate with
    | some .waiting => some ({ m with gate := some .queued }, .start)
    | some .running =>
      some (if m.kind.repeats then m else { m with gate := some .pending }, .idle)
    | _ => none
  | .start, .go =>
    if m.schedule then some ({ m with copies := m.copies + 1 }, .launched true)
    else some ({ m with queued := m.queued + 1 }, .idle)
  | .start, .delay => some ({ m with armed := true }, .idle)
  | .start, .refuse => some (m, .startRefused)
  | .startRefused, .go =>
    some ({ m with
      gate := m.gate.map fun _ => .finished
      task := if m.task = .pending ∨ m.task = .ready ∨ m.task = .taken then .failed
        else m.task }, .finishWaiting)
  | .idle, .abandon => some (m, .letGo)
  | .letGo, .go =>
    if m.gate = some .waiting then some ({ m with gate := some .finished }, .letGoFail)
    else some (m, .idle)
  | .letGoFail, .go => some (m.tryTask .pending .failed, .finishWaiting)
  | .finishWaiting, .go => some (m.closeExtras, .finishKind)
  | .finishKind, .go => some ({ m with kind := .once }, .release)
  | .after, .go =>
    match m.gate with
    | some .pending => some ({ m with gate := some .queued }, .start)
    | some .queued | some .running => some ({ m with gate := some .waiting }, .idle)
    | some .waiting => some (m, .idle)
    | _ => some (m, .finishWaiting)
  | .after, .last =>
    match m.gate with
    | some .queued | some .running => some ({ m with gate := some .finished }, .finishWaiting)
    | _ => none
  | .idle, .writeOff => some (if m.task.isOver then m else { m with task := .failed }, .writeGate)
  | .writeGate, .go =>
    if m.gate = some .waiting then some ({ m with gate := some .finished }, .finishWaiting)
    else some (m, .writeFinish)
  | .writeFinish, .go => some ({ m with gate := m.gate.map fun _ => .finished }, .idle)
  | _, _ => none

/-- The steps of a schedule and its copies. -/
def seriesStep (m : Mem) : Pc → Act → Option (Mem × Pc)
  | .idle, .tick =>
    if m.clock ∧ m.schedule then some ({ m with clock := false }, .tick) else none
  | .tick, .go => some (m, .endSchedule)
  | .tick, .launch =>
    if m.task.stopped || m.task == .failed then some (m, .close)
    else some ({ m with copies := m.copies + 1 }, .tickCount)
  | .tickCount, .more => some ({ m with clock := true }, .idle)
  | .tickCount, .last => some (m, .endSchedule)
  | .endSchedule, .go => some (m, if m.gate.isSome then .after else .endKind)
  | .endKind, .go => some ({ m with kind := .once }, .closeFinished)
  | .closeFinished, .go =>
    if m.seriesDone then some (m.closeExtras, .release) else some (m, .releaseLate)
  | .releaseLate, .go => some ({ m with released := true }, .idle)
  | .idle, .pickCopy =>
    if 0 < m.copies ∧ m.schedule then some ({ m.beginGate with copies := m.copies - 1 }, .copy)
    else none
  | .copy, .go =>
    if m.begins then some ({ m with task := .running }, .copyPublish) else some (m, .copyClose)
  | .copy, .panic => some (m, .idle)
  | .copyPublish, .go =>
    if m.task = .running then some ({ m with task := .ready }, .copyClose) else some (m, .idle)
  | .copyClose, .go => some (if m.seriesDone then m.closeExtras else m, .idle)
  | _, _ => none

/-- The steps of whoever registers on the task, or takes its output. -/
def listenStep (m : Mem) : Pc → Act → Option (Mem × Pc)
  | .idle, .register => if m.out then some (m.register, .idle) else none
  | .idle, .prune => some ({ m with regs := m.regs - 1 }, .idle)
  | .idle, .take => if m.task = .ready then some ({ m with task := .taken }, .idle) else none
  | _, _ => none

/-- One step of one thread. -/
def next (m : Mem) (pc : Pc) (a : Act) : Option (Mem × Pc) :=
  (spawnStep m pc a).or <| (runStep m pc a).or <| (endStep m pc a).or <| (stopStep m pc a).or <|
    (gateStep m pc a).or <| (seriesStep m pc a).or (listenStep m pc a)

/-- A task and its endings as a machine. -/
def machine : Machine Mem Pc Act := ⟨next⟩

/-- A task that is being spawned, or one that waits for its first give. -/
structure Fresh {T : Type*} (s : Config T Mem Pc) : Prop where
  task : s.mem.task = .pending
  schedule : s.mem.schedule = s.mem.kind.schedules
  gate : ∀ g ∈ s.mem.gate, g = .waiting
  /-- A gate and a schedule have extras from the start. -/
  extras : s.mem.gate.isSome = true ∨ s.mem.schedule = true → s.mem.extras = true
  closed : s.mem.closed = false
  regs : s.mem.regs = 0
  registered : s.mem.registered = false
  parked : s.mem.parked = false
  woken : s.mem.woken = false
  armed : s.mem.armed = false
  clock : s.mem.clock = false
  queued : s.mem.queued = 0
  copies : s.mem.copies = 0
  released : s.mem.released = false
  /-- A task that waits is not started by its spawn. -/
  loc : ∀ t, s.loc t = .idle ∨ s.loc t = .spawn ∧ s.mem.gate = none
  /-- One thread spawns the task, -/
  alone : ∀ t u, s.loc t = .spawn → s.loc u = .spawn → t = u
  /-- and nobody has the handle before it is done. -/
  out : ∀ t, s.loc t = .spawn → s.mem.out = false

/-! ### What a step can do -/

/-- One step of one thread, case by case. -/
inductive Step (m : Mem) : Pc → Act → Mem → Pc → Prop
  | spawn (h : m.schedule = false) :
      Step m .spawn .go { m with queued := m.queued + 1, out := true } .idle
  | spawnDelay : Step m .spawn .delay { m with armed := true, out := true } .idle
  | spawnRefused (h : m.schedule = false) : Step m .spawn .refuse m .spawnFail
  | seriesRefused (h : m.schedule = true) : Step m .spawn .refuse m .spawnMove
  | spawnLaunch (h : m.schedule = true) :
      Step m .spawn .launch { m with copies := m.copies + 1 } (.launched false)
  | spawnFail : Step m .spawnFail .go { m with task := .failed } .spawnRelease
  | spawnMove : Step m .spawnMove .go (m.tryTask .pending .failed) .spawnRelease
  | spawnRelease : Step m .spawnRelease .go { m with released := true, out := true } .idle
  | launchedMore (g : Bool) : Step m (.launched g) .more m (.timer g)
  | givenLast : Step m (.launched true) .last { m with out := true } .after
  | spawnLast : Step m (.launched false) .last { m with out := true } .endKind
  | timer (g : Bool) : Step m (.timer g) .go { m with clock := true, out := true } .idle
  | givenRefused : Step m (.timer true) .refuse m .startRefused
  | timerRefused : Step m (.timer false) .refuse m .spawnMove
  | pick : Step m .idle .pick { m with queued := m.queued - 1 } .begin
  | begin (h : m.begins = true) : Step m .begin .go { m.beginGate with task := .running } .execute
  | beginRunning : Step m .begin .go m .idle
  | turnedAway : Step m .begin .go m .close
  | resume : Step m .idle .resume { m with woken := false } .execute
  | resumeStopped : Step m .idle .resume { m with woken := false } .close
  | done : Step m .execute .go m .publish
  | panic : Step m .execute .panic m .panicClose
  | die : Step m .execute .die m .dead
  | park : Step m .execute .park { m with parked := true } .parkLook
  | publish (h : m.task = .running) : Step m .publish .go { m with task := .ready } .published
  | publishLost : Step m .publish .go m .close
  | rewait (h : m.gate.isSome = true) : Step m .published .go m .after
  | seriesOver : Step m .published .go m .finishSeries
  | onceOver : Step m .published .go m .close
  | more : Step m .published .more m .again
  | finishSeries : Step m .finishSeries .go { m with kind := .once } .close
  | againTimed : Step m .again .go { m with armed := true } .idle
  | again : Step m .again .go { m with queued := m.queued + 1 } .idle
  | againRefused : Step m .again .refuse m (.lost [.ready])
  | panicClose : Step m .panicClose .go m.closeExtras .panicFail
  | panicFail : Step m .panicFail .go (m.tryTask .running .failed) .release
  | dead : Step m .dead .go m.failTask .close
  | drain : Step m .idle .drain { m with queued := m.queued - 1 } .dead
  | fireSeries (h : m.schedule = true) : Step m .idle .fire { m with armed := false } .tick
  | fire : Step m .idle .fire { m with armed := false } .fired
  | fired : Step m .fired .go { m with queued := m.queued + 1 } .idle
  | firedRefused : Step m .fired .refuse m (.lost [.ready, .taken, .pending])
  | lostNone : Step m (.lost []) .go m .close
  | lost (l : List TaskState) : Step m (.lost l) .go { m with task := .failed } .close
  | lostNext (l l' : List TaskState) : Step m (.lost l) .go m (.lost l')
  | close : Step m .close .go m.closeExtras .release
  | release : Step m .release .go { m with released := true } .idle
  | sweepShutdown : Step m .idle (.sweep .shutdown) { m with armed := false } (.sweep .shutdown)
  | sweep (w : Sweep) : Step m .idle (.sweep w) m (.sweep w)
  | sweepParked (w : Sweep) : Step m (.sweep w) .go m (.unpark false)
  | sweepSpared (w : Sweep) : Step m (.sweep w) .go m .idle
  | swept (w : Sweep) : Step m (.sweep w) .go m .sweepFail
  | sweepFail : Step m .sweepFail .go m.failTask .close
  | parked : Step m .parkLook .go m .idle
  | parkStopped : Step m .parkLook .go m (.unpark false)
  | parkRefused : Step m .parkLook .refuse m (.unpark false)
  | unpark (b : Bool) (h : m.parked = true) :
      Step m (.unpark b) .go { m with parked := false } (.takeDown b)
  | unparkStop : Step m (.unpark true) .go m .stopLetGo
  | unparkNone : Step m (.unpark false) .go m .idle
  | takeDown (b : Bool) : Step m (.takeDown b) .go (m.tryTask .running .failed) (.takeRelease b)
  | takeReleaseStop : Step m (.takeRelease true) .go { m with released := true } .stopLetGo
  | takeRelease : Step m (.takeRelease false) .go { m with released := true } .idle
  | wake : Step m .idle .wake { m with parked := false } .wakeQueue
  | wakeQueue : Step m .wakeQueue .go { m with woken := true } .idle
  | wakeRefused : Step m .wakeQueue .refuse m (.takeDown false)
  | stop (e : Ending) (h : m.task.isOver = false) :
      Step m .idle (.stop e) { m with task := e.state } (.unpark true)
  | stopLetGo (h : m.gate.isSome = true) : Step m .stopLetGo .go m .letGo
  | stopDone : Step m .stopLetGo .go m .idle
  | timeoutParked : Step m .idle .timeout { m with parked := false } .downMove
  | timeout (h : m.task = .running) :
      Step m .idle .timeout { m with task := .timedOut } (.unpark true)
  | downMove (h : m.task = .running) : Step m .downMove .go { m with task := .timedOut } .close
  | downLost (h : m.task ≠ .running) : Step m .downMove .go m .release
  | give (h : m.gate = some .waiting) : Step m .idle .give { m with gate := some .queued } .start
  | giveOwed (h : m.gate = some .running) :
      Step m .idle .give { m with gate := some .pending } .idle
  | giveReplaced : Step m .idle .give m .idle
  | startSeries (h : m.schedule = true) :
      Step m .start .go { m with copies := m.copies + 1 } (.launched true)
  | start : Step m .start .go { m with queued := m.queued + 1 } .idle
  | startDelay : Step m .start .delay { m with armed := true } .idle
  | startDown : Step m .start .refuse m .startRefused
  | startRefused : Step m .startRefused .go { m with
      gate := m.gate.map fun _ => .finished
      task := if m.task = .pending ∨ m.task = .ready ∨ m.task = .taken then .failed
        else m.task } .finishWaiting
  | abandon : Step m .idle .abandon m .letGo
  | letGo (h : m.gate = some .waiting) :
      Step m .letGo .go { m with gate := some .finished } .letGoFail
  | letGoLost : Step m .letGo .go m .idle
  | letGoFail : Step m .letGoFail .go (m.tryTask .pending .failed) .finishWaiting
  | finishWaiting : Step m .finishWaiting .go m.closeExtras .finishKind
  | finishKind : Step m .finishKind .go { m with kind := .once } .release
  | afterPending (h : m.gate = some .pending) :
      Step m .after .go { m with gate := some .queued } .start
  | afterWait (g : GateState) (hg : g ≠ .finished) (h : m.gate = some g) :
      Step m .after .go { m with gate := some .waiting } .idle
  | afterWaiting : Step m .after .go m .idle
  | afterFinished : Step m .after .go m .finishWaiting
  | afterLast (g : GateState) (h : m.gate = some g) :
      Step m .after .last { m with gate := some .finished } .finishWaiting
  | writeOff (h : m.task.isOver = false) :
      Step m .idle .writeOff { m with task := .failed } .writeGate
  | writeOver : Step m .idle .writeOff m .writeGate
  | writeGate (h : m.gate = some .waiting) :
      Step m .writeGate .go { m with gate := some .finished } .finishWaiting
  | writeLost : Step m .writeGate .go m .writeFinish
  | writeFinish :
      Step m .writeFinish .go { m with gate := m.gate.map fun _ => .finished } .idle
  | tick (h : m.schedule = true) : Step m .idle .tick { m with clock := false } .tick
  | tickOver : Step m .tick .go m .endSchedule
  | tickStopped : Step m .tick .launch m .close
  | tickLaunch : Step m .tick .launch { m with copies := m.copies + 1 } .tickCount
  | tickMore : Step m .tickCount .more { m with clock := true } .idle
  | tickLast : Step m .tickCount .last m .endSchedule
  | endGiven (h : m.gate.isSome = true) : Step m .endSchedule .go m .after
  | endSchedule (h : m.gate = none) : Step m .endSchedule .go m .endKind
  | endKind : Step m .endKind .go { m with kind := .once } .closeFinished
  | closeFinished (h : m.seriesDone = true) :
      Step m .closeFinished .go m.closeExtras .release
  | closeLate (h : m.seriesDone = false) : Step m .closeFinished .go m .releaseLate
  | releaseLate : Step m .releaseLate .go { m with released := true } .idle
  | pickCopy (h : 0 < m.copies) (hs : m.schedule = true) :
      Step m .idle .pickCopy { m.beginGate with copies := m.copies - 1 } .copy
  | copy (h : m.begins = true) : Step m .copy .go { m with task := .running } .copyPublish
  | copyLost (h : m.begins = false) : Step m .copy .go m .copyClose
  | copyPanic : Step m .copy .panic m .idle
  | copyPublish (h : m.task = .running) :
      Step m .copyPublish .go { m with task := .ready } .copyClose
  | copyStopped (h : m.task ≠ .running) : Step m .copyPublish .go m .idle
  | copyClose (h : m.seriesDone = true) : Step m .copyClose .go m.closeExtras .idle
  | copyOpen (h : m.seriesDone = false) : Step m .copyClose .go m .idle
  | register (h : m.out = true) : Step m .idle .register m.register .idle
  | prune : Step m .idle .prune { m with regs := m.regs - 1 } .idle
  | take (h : m.task = .ready) : Step m .idle .take { m with task := .taken } .idle

section Steps

variable {m m' : Mem} {pc pc' : Pc} {a : Act}

theorem spawnStep_step (h : spawnStep m pc a = some (m', pc')) : Step m pc a m' pc' := by
  unfold spawnStep at h
  split at h
  case h_1 => exact yield_unless h fun hs => .spawn (Bool.eq_false_iff.mpr hs)
  case h_4 => exact yield_guard h .spawnLaunch
  case h_12 => cases h
  case h_3 => exact yield_snd h .seriesRefused fun hc => .spawnRefused (Bool.eq_false_iff.mpr hc)
  case h_9 g =>
    cases h
    cases g
    · exact .spawnLast
    · exact .givenLast
  case h_2 | h_5 | h_6 | h_7 | h_8 | h_10 =>
    cases h
    constructor
  case h_11 g =>
    cases h
    cases g
    · exact .timerRefused
    · exact .givenRefused

theorem runStep_step (h : runStep m pc a = some (m', pc')) : Step m pc a m' pc' := by
  unfold runStep at h
  split at h
  case h_1 => exact yield_guard h fun _ => .pick
  case h_2 =>
    split at h
    · exact yield h (.begin ‹_›)
    · exact yield_snd h (fun _ => .beginRunning) fun _ => .turnedAway
  case h_3 =>
    obtain ⟨-, h⟩ := Option.ite_none_right_eq_some.mp h
    cases h
    split
    · exact .resume
    · exact .resumeStopped
  case h_8 => exact yield_ite h .publish fun _ => .publishLost
  case h_10 => exact yield_guard h fun _ => .more
  case h_17 => exact yield_guard h fun _ => .drain
  case h_18 => cases h
  case h_9 =>
    cases h
    split
    · exact .rewait ‹_›
    · split
      · exact .seriesOver
      · exact .onceOver
  case h_12 => exact yield_fst h (fun _ => .againTimed) fun _ => .again
  case h_4 | h_5 | h_6 | h_7 | h_11 | h_13 | h_14 | h_15 | h_16 =>
    cases h
    constructor

theorem endStep_step (h : endStep m pc a = some (m', pc')) : Step m pc a m' pc' := by
  unfold endStep at h
  split at h
  case h_1 =>
    obtain ⟨-, h⟩ := Option.ite_none_right_eq_some.mp h
    cases h
    split
    · exact .fireSeries ‹_›
    · exact .fire
  case h_5 s l => exact yield_ite h (fun _ => .lost _) fun _ => .lostNext _ l
  case h_11 => cases h
  case h_8 w =>
    cases h
    split
    case isTrue hw => subst hw; exact .sweepShutdown
    case isFalse => exact .sweep w
  case h_9 w =>
    cases h
    split
    · exact .sweepParked w
    · split
      · exact .sweepSpared w
      · exact .swept w
  case h_2 | h_3 | h_4 | h_6 | h_7 | h_10 =>
    cases h
    constructor

theorem stopStep_step (h : stopStep m pc a = some (m', pc')) : Step m pc a m' pc' := by
  unfold stopStep at h
  split at h
  case h_3 b =>
    split at h
    · exact yield h (.unpark b ‹_›)
    · cases h
      cases b
      · exact .unparkNone
      · exact .unparkStop
  case h_6 => exact yield_guard h fun _ => .wake
  case h_9 e =>
    exact yield_unless h fun ho => .stop e (TaskState.isOver_of_not_stopReturns ho)
  case h_11 =>
    split at h
    · exact yield h .timeoutParked
    · exact yield_guard h .timeout
  case h_12 => exact yield_ite h .downMove .downLost
  case h_13 => cases h
  case h_1 => exact yield_snd h (fun _ => .parked) fun _ => .parkStopped
  case h_5 b =>
    cases h
    cases b
    · exact .takeRelease
    · exact .takeReleaseStop
  case h_2 | h_4 | h_7 | h_8 =>
    cases h
    constructor
  case h_10 => exact yield_snd h .stopLetGo fun _ => .stopDone

theorem gateStep_step (h : gateStep m pc a = some (m', pc')) : Step m pc a m' pc' := by
  unfold gateStep at h
  split at h
  case h_1 =>
    split at h
    case h_1 hg => exact yield h (.give hg)
    case h_2 hg => exact yield_fst h (fun _ => .giveReplaced) fun _ => .giveOwed hg
    case h_3 => cases h
  case h_2 => exact yield_ite h .startSeries fun _ => .start
  case h_7 => exact yield_ite h .letGo fun _ => .letGoLost
  case h_11 =>
    split at h
    · exact yield h (.afterPending ‹_›)
    · exact yield h (.afterWait .queued nofun ‹_›)
    · exact yield h (.afterWait .running nofun ‹_›)
    · exact yield h .afterWaiting
    · exact yield h .afterFinished
  case h_12 =>
    split at h
    case h_1 hg => exact yield h (.afterLast _ hg)
    case h_2 hg => exact yield h (.afterLast _ hg)
    case h_3 => cases h
  case h_14 => exact yield_ite h .writeGate fun _ => .writeLost
  case h_16 => cases h
  case h_13 =>
    exact yield_fst h (fun _ => .writeOver) fun hc => .writeOff (Bool.eq_false_iff.mpr hc)
  case h_3 | h_4 | h_5 | h_6 | h_8 | h_9 | h_10 | h_15 =>
    cases h
    constructor

theorem seriesStep_step (h : seriesStep m pc a = some (m', pc')) : Step m pc a m' pc' := by
  unfold seriesStep at h
  split at h
  case h_1 => exact yield_guard h fun ⟨_, hs⟩ => .tick hs
  case h_3 => exact yield_ite h (fun _ => .tickStopped) fun _ => .tickLaunch
  case h_8 => exact yield_ite h .closeFinished fun hc => .closeLate (Bool.eq_false_iff.mpr hc)
  case h_10 => exact yield_guard h fun ⟨hc, hs⟩ => .pickCopy hc hs
  case h_11 => exact yield_ite h .copy fun hc => .copyLost (Bool.eq_false_iff.mpr hc)
  case h_13 => exact yield_ite h .copyPublish .copyStopped
  case h_15 => cases h
  case h_6 =>
    exact yield_snd h .endGiven fun hc => .endSchedule (Option.not_isSome_iff_eq_none.mp hc)
  case h_2 | h_4 | h_5 | h_7 | h_9 | h_12 =>
    cases h
    constructor
  case h_14 => exact yield_fst h .copyClose fun hc => .copyOpen (Bool.eq_false_iff.mpr hc)

theorem listenStep_step (h : listenStep m pc a = some (m', pc')) : Step m pc a m' pc' := by
  unfold listenStep at h
  split at h
  case h_1 => exact yield_guard h .register
  case h_2 => exact yield h .prune
  case h_3 => exact yield_guard h .take
  case h_4 => cases h

/-- **What a step of the code can do**, said once. -/
theorem next_step (h : next m pc a = some (m', pc')) : Step m pc a m' pc' := by
  simp only [next, Option.or_eq_some_iff] at h
  rcases h with h | ⟨-, h | ⟨-, h | ⟨-, h | ⟨-, h | ⟨-, h | ⟨-, h⟩⟩⟩⟩⟩⟩
  · exact spawnStep_step h
  · exact runStep_step h
  · exact endStep_step h
  · exact stopStep_step h
  · exact gateStep_step h
  · exact seriesStep_step h
  · exact listenStep_step h

end Steps

end Atap.Exit
