import Atap.Gate.Machine
import Atap.Slot.State

/-!
# How a task that waits for gives comes to its end

The gate of `Atap.Gate.Machine` is here together with the state of the task, so that a cancel can
meet the gives, the drops of handles and the ends of runs. What a give hands over is not here, and
neither are the words a run is timed by: this is about who closes the gate and who lets the task
go.

The programs, by function:

* `give` with `Gate::trigger` and `start_waiting`, and the clone and the drop of a handle that can
  give, with `abandon`;
* `let_go_waiting` and `finish_waiting`;
* `cancel`: `stop` and `stopped`, with `unpark` and `take_down`;
* `run`: the claim of the task, `begin`, the run itself, and its ends: an output that is published,
  a panic, a task stopped before or during the run, the death of the thread (`fail`), a park
  (`park_task`, `wake_parked`), and another run of the same series;
* `rewait` with `Gate::after_run`;
* a schedule (`at_rate`): the clock that launches copies and the copies, which share the gate.

What the task does, whether the pool and the kernel take what they are handed, when a series has
had its runs, and when ticks come are left to the schedule of the machine. `closings`, `dropped`
and `released` are a history; no step reads them.
-/

namespace Atap.Closing

open Gate (GateState Opening Ongoing spendGive)

/-- A slot whose task waits for gives, and its gate. -/
structure Mem where
  /-- `TaskData::state`. -/
  task : TaskState
  /-- `TaskData::kind` repeats. -/
  repeats : Bool
  /-- `Gate::state`. -/
  gate : GateState
  /-- `Gate::gives_left`. -/
  givesLeft : ℕ
  /-- `Gate::givers`. -/
  givers : ℕ
  /-- `Gate::series`. -/
  series : Bool
  /-- The task is a schedule, whose runs are copies. -/
  schedule : Bool
  /-- The task, or a schedule's prototype, is in its slot. -/
  boxed : Bool
  /-- `TaskData::parked`. -/
  parked : Bool
  /-- Runs in the pool or on a timer, and series on their way to the clock. -/
  queued : ℕ
  /-- Copies a schedule has launched and no thread has picked up. -/
  launched : ℕ
  /-- How often the gate was closed. -/
  closings : ℕ
  /-- How often the task was dropped. -/
  dropped : ℕ
  /-- How often the reference on the task was given back. -/
  released : ℕ
  deriving DecidableEq

/-- What a thread is when it is in none of the programs. -/
inductive Home
  /-- A thread without a handle that can give. -/
  | out
  /-- A thread with a handle that can give. -/
  | holds
  /-- A thread of the pool, or the manager. -/
  | worker
  deriving DecidableEq

/-- Who takes a parked task down. -/
inductive Down
  /-- A cancel, which goes on to `let_go_waiting`. -/
  | cancel (b : Home)
  /-- The thread that parked it, or the manager that was to wake it. -/
  | run
  deriving DecidableEq

/-- Where a thread stands in the code. A list of states is what is left of a chain of `try_state`,
tried in order. -/
inductive Pc
  | idle (b : Home)
  /-- `give`, before the look at `finished`. -/
  | check
  /-- `trigger`, before the load of the state. -/
  | look
  /-- `trigger`, before the load of the gives left. -/
  | limit (saw : Opening)
  /-- `trigger`, before the exchange. -/
  | move (saw : Opening)
  /-- `spend_give`. -/
  | spend (saw : Opening)
  /-- `start_waiting`. -/
  | start (b : Home)
  /-- `start_waiting`, before the gate is finished. -/
  | startFinish (b : Home)
  /-- `start_waiting`, before a `try_state`. -/
  | startFail (b : Home) (l : List TaskState)
  /-- `let_go_waiting`, before `close_waiting`. -/
  | letGo (b : Home)
  /-- `let_go_waiting`, before `try_state`. -/
  | letGoFail (b : Home)
  /-- `finish_waiting`, before `close_extras`. -/
  | finish (b : Home)
  /-- `finish_waiting`, before the task is claimed. -/
  | dropSlot (b : Home)
  /-- `finish_waiting`, before `finish_series`. -/
  | finishSeries (b : Home)
  | release (b : Home)
  /-- `stop`, before the load of the state. -/
  | stopLook (b : Home)
  /-- `stop`, before the load of the kind. -/
  | stopKind (b : Home) (saw : TaskState)
  /-- `stop`, before `try_state`. -/
  | stopMove (b : Home) (saw : TaskState)
  /-- `unpark`, before `claim_parked`. -/
  | unpark (d : Down)
  /-- `take_down`, before the task is claimed. -/
  | takeDown (d : Down)
  /-- `take_down`, before `try_state`. -/
  | takeFail (d : Down)
  /-- `take_down`, before `release`. -/
  | takeRelease (d : Down)
  /-- `run`, before the task is claimed. -/
  | claim
  /-- `TaskData::begin`, before a `try_state`. -/
  | begin (l : List TaskState)
  /-- `run`, before the look at the state `begin` turned away. -/
  | resume
  /-- `prepare`, before `Gate::begin`. -/
  | prepare
  /-- The run itself. -/
  | execute
  /-- `run`, before the move to `Ready`. -/
  | publish
  /-- `run`, before the look at the kind and the bounds of the series. -/
  | kind
  /-- `rearm`, before `after_run` or before another run of the series. -/
  | rearm (isOver : Bool)
  /-- `run`, before the next run of the series is queued or timed. -/
  | requeue
  /-- Nothing is left to run the task, before a `try_state`. -/
  | lost (l : List TaskState)
  /-- `run`, `fire`, `tick` or `fail`, before `close_extras` with the task not in hand. -/
  | lostClose
  /-- `run`, before `close_extras` with the task in hand. -/
  | abortClose (panicked : Bool)
  /-- `run`, before the task is dropped. -/
  | abortDrop (panicked : Bool)
  /-- `run`, before the move to `Failed`. -/
  | abortFail
  /-- `fail`, before the look at the state. -/
  | deadLook
  /-- `fail`, before the store of `Failed`. -/
  | deadFail
  /-- `park_task`, before `rearm`. -/
  | parkRearm
  /-- `park_task`, before `park`. -/
  | parkSet
  /-- `park_task`, before `watch_park`. -/
  | parkWatch
  /-- `park_task`, before the look at the state. -/
  | parkLook
  /-- `wake_parked`, before the task is queued. -/
  | wakeQueue
  /-- `after_run`, before the load of the state. -/
  | afterLook
  /-- `after_run`, before the exchange from `PENDING`. -/
  | afterPending
  /-- `after_run`, before the load of the gives left. -/
  | afterLimit (saw : Ongoing)
  /-- `after_run`, before the load of the givers. -/
  | afterGivers (saw : Ongoing)
  /-- `after_run`, before the exchange to `FINISHED` or `WAITING`. -/
  | afterMove (saw : Ongoing) (isOver : Bool)
  /-- `after_run`, before the second load of the givers. -/
  | afterRecheck
  /-- `after_run`, before `close_waiting`. -/
  | afterClose
  /-- The manager, with the series on its clock. -/
  | clock
  /-- A copy, before `Gate::begin`. -/
  | copyBegin
  /-- A copy, in its run. -/
  | copyRun
  /-- A copy that publishes, before a `try_state` of `begin`. -/
  | copyLand (l : List TaskState)
  /-- A copy that publishes, before the move to `Ready`. -/
  | copyPublish
  deriving DecidableEq

inductive Act
  | go
  /-- A handle is cloned for this thread: `add_giver`. -/
  | join
  /-- The thread's handle is dropped: `drop_giver`. -/
  | leave
  | give
  | cancel
  /-- A listener takes the output. -/
  | take
  /-- A thread picks up a queued run, or the manager a started series. -/
  | pick
  /-- A thread picks up a launched copy. -/
  | pickCopy
  /-- What a parked task watches happens, or its deadline comes. -/
  | wake
  | panic
  /-- The thread goes down with the run. -/
  | die
  | park
  /-- The series has runs left. -/
  | more
  /-- A tick of the clock. -/
  | tick
  /-- The pool or the kernel turns down what it is handed. -/
  | refuse
  deriving DecidableEq

/-- The states a run can start from, in the order `begin` tries them. -/
def resting : List TaskState := [.pending, .ready, .taken]

namespace Mem

/-- `Gate::finish`, and an exchange to `FINISHED` that is won. -/
def finish (m : Mem) : Mem :=
  { m with gate := .finished, closings := m.closings + (decide (m.gate ≠ .finished)).toNat }

/-- A `try_state` whose result nothing depends on. -/
def tryTask (m : Mem) (old new : TaskState) : Mem :=
  { m with task := if m.task = old then new else m.task }

/-- `Gate::begin`. -/
def beginGate (m : Mem) : Mem :=
  { m with gate := if m.gate = .queued then .running else m.gate }

/-- The task is claimed from its slot and dropped. -/
def dropBoxed (m : Mem) : Mem :=
  { m with boxed := false, dropped := m.dropped + m.boxed.toNat }

end Mem

/-- Where a thread goes once it has taken a parked task down. -/
def Down.after : Down → Pc
  | cancel b => .letGo b
  | run => .idle .worker

/-- The steps of a thread that gives, and of the clone and the drop of its handle. -/
def giveStep (m : Mem) : Pc → Act → Option (Mem × Pc)
  | .idle .out, .join =>
    if 0 < m.givers then some ({ m with givers := m.givers + 1 }, .idle .holds) else none
  | .idle .holds, .leave =>
    some ({ m with givers := m.givers - 1 }, if m.givers = 1 then .letGo .out else .idle .out)
  | .idle .holds, .give => some (m, .check)
  | .check, .go => some (m, if m.gate = .finished then .idle .holds else .look)
  | .look, .go =>
    match m.gate.target m.series with
    | .ok saw => some (m, .limit saw)
    | .error _ => some (m, .idle .holds)
  | .limit saw, .go => some (m, if m.givesLeft = 0 then .idle .holds else .move saw)
  | .move saw, .go =>
    if m.gate = saw.state then some ({ m with gate := saw.dest }, .spend saw) else some (m, .look)
  | .spend .waiting, .go =>
    some ({ m with givesLeft := spendGive m.givesLeft }, .start .holds)
  | .spend .running, .go =>
    some ({ m with givesLeft := spendGive m.givesLeft }, .idle .holds)
  | .start b, .go => some ({ m with queued := m.queued + 1 }, .idle b)
  | .start b, .refuse => some (m, .startFinish b)
  | .startFinish b, .go => some (m.finish, .startFail b resting)
  | .startFail b [], .go => some (m, .finish b)
  | .startFail b (s :: l), .go =>
    if m.task = s then some ({ m with task := .failed }, .finish b) else some (m, .startFail b l)
  | _, _ => none

/-- The steps of `let_go_waiting`, `finish_waiting` and `release`. -/
def letGoStep (m : Mem) : Pc → Act → Option (Mem × Pc)
  | .letGo b, .go =>
    if m.gate = .waiting then some (m.finish, .letGoFail b) else some (m, .idle b)
  | .letGoFail b, .go => some (m.tryTask .pending .failed, .finish b)
  | .finish b, .go => some (m.finish, .dropSlot b)
  -- A schedule's prototype stays with its slot.
  | .dropSlot b, .go => some (if m.schedule then m else m.dropBoxed, .finishSeries b)
  | .finishSeries b, .go => some ({ m with repeats := false }, .release b)
  | .release b, .go => some ({ m with released := m.released + 1 }, .idle b)
  | _, _ => none

/-- The steps of a cancel, and of a listener that takes the output. -/
def stopStep (m : Mem) : Pc → Act → Option (Mem × Pc)
  | .idle b, .cancel => some (m, .stopLook b)
  | .stopLook b, .go => some (m, .stopKind b m.task)
  | .stopKind b saw, .go =>
    some (m, if saw.stopReturns m.repeats then .idle b else .stopMove b saw)
  | .stopMove b saw, .go =>
    if m.task = saw then some ({ m with task := .cancelled }, .unpark (.cancel b))
    else some (m, .stopLook b)
  | .unpark d, .go =>
    if m.parked then some ({ m with parked := false }, .takeDown d) else some (m, d.after)
  | .takeDown d, .go => some (m.dropBoxed, .takeFail d)
  | .takeFail d, .go => some (m.tryTask .running .failed, .takeRelease d)
  | .takeRelease d, .go => some ({ m with released := m.released + 1 }, d.after)
  | .idle b, .take =>
    if m.task = .ready then some ({ m with task := .taken }, .idle b) else none
  | _, _ => none

/-- The steps of a run up to its end. -/
def runStep (m : Mem) : Pc → Act → Option (Mem × Pc)
  | .idle .worker, .pick =>
    if 0 < m.queued then
      some ({ m with queued := m.queued - 1 }, if m.schedule then .clock else .claim)
    else none
  | .claim, .go =>
    if m.boxed then some ({ m with boxed := false }, .begin resting)
    else some (m, .idle .worker)
  | .begin [], .go => some (m, .resume)
  | .begin (s :: l), .go =>
    if m.task = s then some ({ m with task := .running }, .prepare) else some (m, .begin l)
  -- Only a task back from a park is turned away while it is still running.
  | .resume, .go => some (m, if m.task = .running then .execute else .abortClose false)
  | .prepare, .go => some (m.beginGate, .execute)
  | .execute, .go => some (m, .publish)
  | .execute, .panic => some (m, .abortClose true)
  | .execute, .die => some ({ m with dropped := m.dropped + 1 }, .deadLook)
  | .execute, .park => some (m, .parkRearm)
  | .publish, .go =>
    if m.task = .running then some ({ m with task := .ready }, .kind)
    else some (m, .abortClose false)
  | .kind, .go => some (m, .rearm true)
  | .kind, .more => if m.repeats then some (m, .rearm false) else none
  | .rearm isOver, .go => some ({ m with boxed := true }, if isOver then .afterLook else .requeue)
  | .requeue, .go => some ({ m with queued := m.queued + 1 }, .idle .worker)
  | .requeue, .refuse => some (m, .lost [.ready])
  | .parkRearm, .go => some ({ m with boxed := true }, .parkSet)
  | .parkSet, .go => some ({ m with parked := true }, .parkWatch)
  | .parkWatch, .go => some (m, .parkLook)
  | .parkWatch, .refuse => some (m, .unpark .run)
  | .parkLook, .go => some (m, if m.task = .running then .idle .worker else .unpark .run)
  | .idle .worker, .wake =>
    if m.parked then some ({ m with parked := false }, .wakeQueue) else none
  | .wakeQueue, .go => some ({ m with queued := m.queued + 1 }, .idle .worker)
  | .wakeQueue, .refuse => some (m, .takeDown .run)
  | _, _ => none

/-- The steps of a run that closes the gate itself, and of a timer nothing takes up. -/
def abortStep (m : Mem) : Pc → Act → Option (Mem × Pc)
  | .abortClose p, .go => some (m.finish, .abortDrop p)
  | .abortDrop p, .go =>
    some ({ m with dropped := m.dropped + 1 }, if p then .abortFail else .release .worker)
  | .abortFail, .go => some (m.tryTask .running .failed, .release .worker)
  | .deadLook, .go => some (m, if m.task.terminal then .lostClose else .deadFail)
  | .deadFail, .go => some ({ m with task := .failed }, .lostClose)
  | .idle .worker, .refuse =>
    if 0 < m.queued ∧ m.schedule = false then
      some ({ m with queued := m.queued - 1 }, .lost [.ready, .taken, .pending])
    else none
  | .lost [], .go => some (m, .lostClose)
  | .lost (s :: l), .go =>
    if m.task = s then some ({ m with task := .failed }, .lostClose) else some (m, .lost l)
  | .lostClose, .go => some (m.finish, .release .worker)
  | _, _ => none

/-- The steps of `after_run`. -/
def afterStep (m : Mem) : Pc → Act → Option (Mem × Pc)
  | .afterLook, .go =>
    match m.gate with
    | .pending => some (m, .afterPending)
    | .queued => some (m, .afterLimit .queued)
    | .running => some (m, .afterLimit .running)
    | .waiting => some (m, .idle .worker)
    | .finished => some (m, .finish .worker)
  | .afterPending, .go =>
    if m.gate = .pending then some ({ m with gate := .queued }, .start .worker)
    else some (m, .afterLook)
  | .afterLimit saw, .go =>
    some (m, if m.givesLeft = 0 then .afterMove saw true else .afterGivers saw)
  | .afterGivers saw, .go => some (m, .afterMove saw (m.givers = 0))
  | .afterMove saw isOver, .go =>
    if m.gate = saw.state then
      some (if isOver then m.finish else { m with gate := .waiting },
        if isOver then .finish .worker else .afterRecheck)
    else some (m, .afterLook)
  | .afterRecheck, .go => some (m, if m.givers = 0 then .afterClose else .idle .worker)
  | .afterClose, .go =>
    if m.gate = .waiting then some (m.finish, .finish .worker) else some (m, .idle .worker)
  | _, _ => none

/-- The steps of a schedule. -/
def scheduleStep (m : Mem) : Pc → Act → Option (Mem × Pc)
  | .clock, .go => some (m, .afterLook)
  | .clock, .tick =>
    if m.task.stopped || m.task == .failed then some (m, .lostClose)
    else some ({ m with launched := m.launched + 1 }, .clock)
  | .idle .worker, .pickCopy =>
    if 0 < m.launched then some ({ m with launched := m.launched - 1 }, .copyBegin) else none
  | .copyBegin, .go => some (m.beginGate, .copyRun)
  | .copyRun, .go => some (m, .copyLand resting)
  | .copyRun, .panic => some (m, .idle .worker)
  | .copyLand [], .go => some (m, .idle .worker)
  | .copyLand (s :: l), .go =>
    if m.task = s then some ({ m with task := .running }, .copyPublish)
    else some (m, .copyLand l)
  | .copyPublish, .go => some (m.tryTask .running .ready, .idle .worker)
  | _, _ => none

/-- One step of one thread. -/
def next (m : Mem) (pc : Pc) (a : Act) : Option (Mem × Pc) :=
  (giveStep m pc a).or <| (letGoStep m pc a).or <| (stopStep m pc a).or <|
    (runStep m pc a).or <| (abortStep m pc a).or <| (afterStep m pc a).or (scheduleStep m pc a)

/-- A waiting task and its gate as a machine. -/
def machine : Machine Mem Pc Act := ⟨next⟩

/-- A waiting task just spawned. Every thread holds a handle that can give, holds none, or belongs
to the pool. -/
structure Fresh {T : Type*} [Fintype T] (s : Config T Mem Pc) : Prop where
  task : s.mem.task = .pending
  repeats : s.mem.repeats = s.mem.series
  /-- A schedule's gives start series. -/
  schedule : s.mem.schedule = true → s.mem.series = true
  gate : s.mem.gate = .waiting
  boxed : s.mem.boxed = true
  parked : s.mem.parked = false
  queued : s.mem.queued = 0
  launched : s.mem.launched = 0
  closings : s.mem.closings = 0
  dropped : s.mem.dropped = 0
  released : s.mem.released = 0
  loc : ∀ t, ∃ b, s.loc t = .idle b
  givers : s.mem.givers = count (· matches .idle .holds) s.loc
  /-- There is a handle that can give. -/
  held : 0 < s.mem.givers

/-! ### What a step can do -/

/-- One step of one thread, case by case. -/
inductive Step (m : Mem) : Pc → Act → Mem → Pc → Prop
  | join (h : 0 < m.givers) :
      Step m (.idle .out) .join { m with givers := m.givers + 1 } (.idle .holds)
  | leave (h : m.givers ≠ 1) :
      Step m (.idle .holds) .leave { m with givers := m.givers - 1 } (.idle .out)
  | lastLeave (h : m.givers = 1) :
      Step m (.idle .holds) .leave { m with givers := m.givers - 1 } (.letGo .out)
  | give : Step m (.idle .holds) .give m .check
  | checkClosed : Step m .check .go m (.idle .holds)
  | checkOpen : Step m .check .go m .look
  | look (saw : Opening) : Step m .look .go m (.limit saw)
  | lookNone : Step m .look .go m (.idle .holds)
  | limitSpent (saw : Opening) : Step m (.limit saw) .go m (.idle .holds)
  | limitLeft (saw : Opening) : Step m (.limit saw) .go m (.move saw)
  | moveWon (saw : Opening) (h : m.gate = saw.state) :
      Step m (.move saw) .go { m with gate := saw.dest } (.spend saw)
  | moveLost (saw : Opening) : Step m (.move saw) .go m .look
  | spendStart : Step m (.spend .waiting) .go
      { m with givesLeft := spendGive m.givesLeft } (.start .holds)
  | spendOwed : Step m (.spend .running) .go
      { m with givesLeft := spendGive m.givesLeft } (.idle .holds)
  | start (b : Home) : Step m (.start b) .go { m with queued := m.queued + 1 } (.idle b)
  | startRefused (b : Home) : Step m (.start b) .refuse m (.startFinish b)
  | startFinish (b : Home) : Step m (.startFinish b) .go m.finish (.startFail b resting)
  | startFail (b : Home) (l : List TaskState) (x : TaskState) (pc : Pc)
      (h : pc = .finish b ∨ ∃ l', pc = .startFail b l') :
      Step m (.startFail b l) .go { m with task := x } pc
  | letGoWon (b : Home) (h : m.gate = .waiting) :
      Step m (.letGo b) .go m.finish (.letGoFail b)
  | letGoLost (b : Home) (h : m.gate ≠ .waiting) : Step m (.letGo b) .go m (.idle b)
  | letGoFail (b : Home) :
      Step m (.letGoFail b) .go (m.tryTask .pending .failed) (.finish b)
  | finish (b : Home) : Step m (.finish b) .go m.finish (.dropSlot b)
  | dropSlot (b : Home) (h : m.schedule = false) :
      Step m (.dropSlot b) .go m.dropBoxed (.finishSeries b)
  | keepSlot (b : Home) (h : m.schedule = true) :
      Step m (.dropSlot b) .go m (.finishSeries b)
  | finishSeries (b : Home) :
      Step m (.finishSeries b) .go { m with repeats := false } (.release b)
  | release (b : Home) :
      Step m (.release b) .go { m with released := m.released + 1 } (.idle b)
  | cancel (b : Home) : Step m (.idle b) .cancel m (.stopLook b)
  | stopLook (b : Home) : Step m (.stopLook b) .go m (.stopKind b m.task)
  | stopOver (b : Home) (saw : TaskState) : Step m (.stopKind b saw) .go m (.idle b)
  | stopKind (b : Home) (saw : TaskState) : Step m (.stopKind b saw) .go m (.stopMove b saw)
  | stopMove (b : Home) (saw : TaskState) :
      Step m (.stopMove b saw) .go { m with task := .cancelled } (.unpark (.cancel b))
  | stopLost (b : Home) (saw : TaskState) : Step m (.stopMove b saw) .go m (.stopLook b)
  | unpark (d : Down) (h : m.parked = true) :
      Step m (.unpark d) .go { m with parked := false } (.takeDown d)
  | unparkNone (d : Down) : Step m (.unpark d) .go m d.after
  | takeDown (d : Down) : Step m (.takeDown d) .go m.dropBoxed (.takeFail d)
  | takeFail (d : Down) :
      Step m (.takeFail d) .go (m.tryTask .running .failed) (.takeRelease d)
  | takeRelease (d : Down) :
      Step m (.takeRelease d) .go { m with released := m.released + 1 } d.after
  | take (b : Home) : Step m (.idle b) .take { m with task := .taken } (.idle b)
  | pickRun (h : 0 < m.queued) (hs : m.schedule = false) :
      Step m (.idle .worker) .pick { m with queued := m.queued - 1 } .claim
  | pickSeries (h : 0 < m.queued) (hs : m.schedule = true) :
      Step m (.idle .worker) .pick { m with queued := m.queued - 1 } .clock
  | claim (h : m.boxed = true) : Step m .claim .go { m with boxed := false } (.begin resting)
  | claimNone (h : m.boxed = false) : Step m .claim .go m (.idle .worker)
  | begin (l : List TaskState) : Step m (.begin l) .go { m with task := .running } .prepare
  | beginLost (l l' : List TaskState) : Step m (.begin l) .go m (.begin l')
  | beginNone : Step m (.begin []) .go m .resume
  | resume : Step m .resume .go m .execute
  | resumeStopped : Step m .resume .go m (.abortClose false)
  | prepare : Step m .prepare .go m.beginGate .execute
  | done : Step m .execute .go m .publish
  | panic : Step m .execute .panic m (.abortClose true)
  | die : Step m .execute .die { m with dropped := m.dropped + 1 } .deadLook
  | park : Step m .execute .park m .parkRearm
  | publish : Step m .publish .go { m with task := .ready } .kind
  | publishLost : Step m .publish .go m (.abortClose false)
  | isOver : Step m .kind .go m (.rearm true)
  | more : Step m .kind .more m (.rearm false)
  | rearmOver : Step m (.rearm true) .go { m with boxed := true } .afterLook
  | rearmMore : Step m (.rearm false) .go { m with boxed := true } .requeue
  | requeue : Step m .requeue .go { m with queued := m.queued + 1 } (.idle .worker)
  | requeueRefused : Step m .requeue .refuse m (.lost [.ready])
  | parkRearm : Step m .parkRearm .go { m with boxed := true } .parkSet
  | parkSet : Step m .parkSet .go { m with parked := true } .parkWatch
  | parkWatch : Step m .parkWatch .go m .parkLook
  | parkRefused : Step m .parkWatch .refuse m (.unpark .run)
  | parked : Step m .parkLook .go m (.idle .worker)
  | parkStopped : Step m .parkLook .go m (.unpark .run)
  | wake (h : m.parked = true) :
      Step m (.idle .worker) .wake { m with parked := false } .wakeQueue
  | wakeQueue : Step m .wakeQueue .go { m with queued := m.queued + 1 } (.idle .worker)
  | wakeRefused : Step m .wakeQueue .refuse m (.takeDown .run)
  | abortClose (p : Bool) : Step m (.abortClose p) .go m.finish (.abortDrop p)
  | abortDrop : Step m (.abortDrop false) .go
      { m with dropped := m.dropped + 1 } (.release .worker)
  | panicDrop : Step m (.abortDrop true) .go { m with dropped := m.dropped + 1 } .abortFail
  | abortFail : Step m .abortFail .go (m.tryTask .running .failed) (.release .worker)
  | deadSettled : Step m .deadLook .go m .lostClose
  | deadLook : Step m .deadLook .go m .deadFail
  | deadFail : Step m .deadFail .go { m with task := .failed } .lostClose
  | fireRefused (h : 0 < m.queued) : Step m (.idle .worker) .refuse
      { m with queued := m.queued - 1 } (.lost [.ready, .taken, .pending])
  | lost (l : List TaskState) (x : TaskState) (pc : Pc)
      (h : pc = .lostClose ∨ ∃ l', pc = .lost l') :
      Step m (.lost l) .go { m with task := x } pc
  | lostClose : Step m .lostClose .go m.finish (.release .worker)
  | afterPending : Step m .afterLook .go m .afterPending
  | afterOngoing (saw : Ongoing) : Step m .afterLook .go m (.afterLimit saw)
  | afterWaiting (h : m.gate = .waiting) : Step m .afterLook .go m (.idle .worker)
  | afterFinished (h : m.gate = .finished) : Step m .afterLook .go m (.finish .worker)
  | owedWon (h : m.gate = .pending) :
      Step m .afterPending .go { m with gate := .queued } (.start .worker)
  | owedLost : Step m .afterPending .go m .afterLook
  | limitOver (saw : Ongoing) : Step m (.afterLimit saw) .go m (.afterMove saw true)
  | limitOpen (saw : Ongoing) : Step m (.afterLimit saw) .go m (.afterGivers saw)
  | givers (saw : Ongoing) (isOver : Bool) : Step m (.afterGivers saw) .go m (.afterMove saw isOver)
  | overWon (saw : Ongoing) : Step m (.afterMove saw true) .go m.finish (.finish .worker)
  | waitWon (saw : Ongoing) :
      Step m (.afterMove saw false) .go { m with gate := .waiting } .afterRecheck
  | endLost (saw : Ongoing) (isOver : Bool) : Step m (.afterMove saw isOver) .go m .afterLook
  | recheckGone : Step m .afterRecheck .go m .afterClose
  | recheckHeld (h : m.givers ≠ 0) : Step m .afterRecheck .go m (.idle .worker)
  | recloseWon (h : m.gate = .waiting) : Step m .afterClose .go m.finish (.finish .worker)
  | recloseLost (h : m.gate ≠ .waiting) : Step m .afterClose .go m (.idle .worker)
  | seriesOver : Step m .clock .go m .afterLook
  | tick : Step m .clock .tick { m with launched := m.launched + 1 } .clock
  | tickStopped : Step m .clock .tick m .lostClose
  | pickCopy : Step m (.idle .worker) .pickCopy
      { m with launched := m.launched - 1 } .copyBegin
  | copyBegin : Step m .copyBegin .go m.beginGate .copyRun
  | copyDone : Step m .copyRun .go m (.copyLand resting)
  | copyPanic : Step m .copyRun .panic m (.idle .worker)
  | copyLand (l : List TaskState) (x : TaskState) (pc : Pc)
      (h : pc = .idle .worker ∨ pc = .copyPublish ∨ ∃ l', pc = .copyLand l') :
      Step m (.copyLand l) .go { m with task := x } pc
  | copyPublish : Step m .copyPublish .go (m.tryTask .running .ready) (.idle .worker)

section Steps

variable {m m' : Mem} {pc pc' : Pc} {a : Act}

theorem giveStep_step (h : giveStep m pc a = some (m', pc')) : Step m pc a m' pc' := by
  unfold giveStep at h
  split at h
  case h_1 => exact yield_guard h .join
  case h_5 =>
    split at h
    all_goals cases h
    · exact .look _
    · exact .lookNone
  case h_7 saw => exact yield_ite h (.moveWon saw) fun _ => .moveLost saw
  case h_14 b s l =>
    exact yield_ite h (fun _ => .startFail b _ .failed _ (.inl rfl)) fun _ => .startFail b _ m.task
      _ (.inr ⟨l, rfl⟩)
  case h_15 => cases h
  case h_2 => exact yield_snd h .lastLeave .leave
  case h_4 => exact yield_snd h (fun _ => .checkClosed) fun _ => .checkOpen
  case h_6 saw => exact yield_snd h (fun _ => .limitSpent saw) fun _ => .limitLeft saw
  case h_3 | h_8 | h_9 | h_10 | h_11 | h_12 =>
    cases h
    constructor
  case h_13 b => exact yield h (.startFail b _ m.task _ (.inl rfl))

theorem letGoStep_step (h : letGoStep m pc a = some (m', pc')) : Step m pc a m' pc' := by
  unfold letGoStep at h
  split at h
  case h_1 b =>
    split at h
    all_goals cases h
    · exact .letGoWon b ‹_›
    · exact .letGoLost b ‹_›
  case h_7 => cases h
  case h_4 b => exact yield_fst h (.keepSlot b) fun hc => .dropSlot b (Bool.eq_false_iff.mpr hc)
  case h_2 | h_3 | h_5 | h_6 =>
    cases h
    constructor

theorem stopStep_step (h : stopStep m pc a = some (m', pc')) : Step m pc a m' pc' := by
  unfold stopStep at h
  split at h
  case h_4 b saw => exact yield_ite h (fun _ => .stopMove b saw) fun _ => .stopLost b saw
  case h_5 d => exact yield_ite h (.unpark d) fun _ => .unparkNone d
  case h_9 b => exact yield_guard h fun _ => .take b
  case h_10 => cases h
  case h_3 b saw => exact yield_snd h (fun _ => .stopOver b saw) fun _ => .stopKind b saw
  case h_1 | h_2 | h_6 | h_7 | h_8 =>
    cases h
    constructor

theorem runStep_step (h : runStep m pc a = some (m', pc')) : Step m pc a m' pc' := by
  unfold runStep at h
  split at h
  case h_1 =>
    obtain ⟨hq, h⟩ := Option.ite_none_right_eq_some.mp h
    cases h
    split
    · exact .pickSeries hq ‹_›
    · exact .pickRun hq (Bool.eq_false_iff.mpr ‹_›)
  case h_2 => exact yield_ite h .claim fun hc => .claimNone (Bool.eq_false_iff.mpr hc)
  case h_4 s l => exact yield_ite h (fun _ => .begin _) fun _ => .beginLost _ l
  case h_11 => exact yield_ite h (fun _ => .publish) fun _ => .publishLost
  case h_13 => exact yield_guard h fun _ => .more
  case h_22 => exact yield_guard h .wake
  case h_25 => cases h
  case h_5 => exact yield_snd h (fun _ => .resume) fun _ => .resumeStopped
  case h_14 isOver =>
    cases h
    cases isOver
    · exact .rearmMore
    · exact .rearmOver
  case h_21 => exact yield_snd h (fun _ => .parked) fun _ => .parkStopped
  case h_3 | h_6 | h_7 | h_8 | h_9 | h_10 | h_12 | h_15 | h_16 | h_17 | h_18 | h_19 | h_20 |
      h_23 | h_24 =>
    cases h
    constructor

theorem abortStep_step (h : abortStep m pc a = some (m', pc')) : Step m pc a m' pc' := by
  unfold abortStep at h
  split at h
  case h_6 => exact yield_guard h fun ⟨hq, _⟩ => .fireRefused hq
  case h_8 s l =>
    exact yield_ite h (fun _ => .lost _ .failed _ (.inl rfl)) fun _ => .lost _ m.task _ (.inr ⟨l,
      rfl⟩)
  case h_10 => cases h
  case h_2 p =>
    cases h
    cases p
    · exact .abortDrop
    · exact .panicDrop
  case h_4 => exact yield_snd h (fun _ => .deadSettled) fun _ => .deadLook
  case h_7 => exact yield h (.lost _ m.task _ (.inl rfl))
  case h_1 | h_3 | h_5 | h_9 =>
    cases h
    constructor

theorem afterStep_step (h : afterStep m pc a = some (m', pc')) : Step m pc a m' pc' := by
  unfold afterStep at h
  split at h
  case h_1 =>
    split at h
    · exact yield h .afterPending
    · exact yield h (.afterOngoing .queued)
    · exact yield h (.afterOngoing .running)
    · exact yield h (.afterWaiting ‹_›)
    · exact yield h (.afterFinished ‹_›)
  case h_2 => exact yield_ite h .owedWon fun _ => .owedLost
  case h_5 saw isOver =>
    split at h
    · cases h
      cases isOver
      · exact .waitWon saw
      · exact .overWon saw
    · exact yield h (.endLost saw isOver)
  case h_7 => exact yield_ite h .recloseWon .recloseLost
  case h_8 => cases h
  case h_3 saw => exact yield_snd h (fun _ => .limitOver saw) fun _ => .limitOpen saw
  case h_4 saw => exact yield h (.givers saw _)
  case h_6 => exact yield_snd h (fun _ => .recheckGone) .recheckHeld

theorem scheduleStep_step (h : scheduleStep m pc a = some (m', pc')) : Step m pc a m' pc' := by
  unfold scheduleStep at h
  split at h
  case h_2 => exact yield_ite h (fun _ => .tickStopped) fun _ => .tick
  case h_3 => exact yield_guard h fun _ => .pickCopy
  case h_8 s l =>
    exact yield_ite h (fun _ => .copyLand _ .running _ (.inr (.inl rfl))) fun _ => .copyLand _
      m.task _ (.inr (.inr ⟨l, rfl⟩))
  case h_10 => cases h
  case h_7 => exact yield h (.copyLand _ m.task _ (.inl rfl))
  case h_1 | h_4 | h_5 | h_6 | h_9 =>
    cases h
    constructor

/-- **What a step of the code can do**, said once. -/
theorem next_step (h : next m pc a = some (m', pc')) : Step m pc a m' pc' := by
  simp only [next, Option.or_eq_some_iff] at h
  rcases h with h | ⟨-, h | ⟨-, h | ⟨-, h | ⟨-, h | ⟨-, h | ⟨-, h⟩⟩⟩⟩⟩⟩
  · exact giveStep_step h
  · exact letGoStep_step h
  · exact stopStep_step h
  · exact runStep_step h
  · exact abortStep_step h
  · exact afterStep_step h
  · exact scheduleStep_step h

end Steps

end Atap.Closing
