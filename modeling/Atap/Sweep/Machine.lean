import Atap.Interleave.Machine
import Atap.Interleave.Word
import Atap.Slot.State

/-!
# A slot and the queues it is linked in

The shared and the blocking queue are lists through the slots themselves, so a slot that is
destroyed while it is linked takes the rest of the queue with it. What keeps it is the executor's
claim: it goes with the **turn** to do something with the task, which is in a queue, at a worker,
on a timer, in a park, at the task's gate or in the hands of one thread, and it is given back by
whoever has the turn and nothing left to do with it. When the manager has gone for good, and at
shutdown, **sweeps** walk the whole table and give claims back as well, without having the turn.

This module is one slot through all its lives, as a machine: every atomic operation on its words
is one step. A thread is a list of jobs, the next one first; a job is named after the operation it
stands before. It covers

* spawns, handles that are cloned, dropped and used, gives and cancels;
* the mark and the link of the queues: pushes and pops, `promote`, refills and what is taken from
  a worker's ring or LIFO slot, or put back from it;
* runs, parks, rounds, and the going back to the gate, with every way they end;
* timers, timeouts and parks that go off, a manager that comes back (`recover_waits`), and one that
  is gone for good;
* the sweeps: `orphaned`, the one of a shutdown, and that of `write_off_pool`.

Schedules are not here: their slots are never queued. Whether the pool, the kernel or the memory
takes what it is asked for is left to the schedule, as is which run a timeout is for, how many runs
and gives there are, and who is the last giver. A session ends with its shutdown.
-/

namespace Atap.Sweep

/-- `TaskData::queued`. -/
inductive Mark
  /-- `QUEUED_NOWHERE`. -/
  | nowhere
  /-- `QUEUED_SHARED`. -/
  | shared
  /-- `QUEUED_LOCAL`. -/
  | atWorker
  deriving DecidableEq

/-- Where the gate of a task stands. -/
inductive Gate
  | waiting
  /-- A run is owed, queued or under way. -/
  | busy
  | finished
  deriving DecidableEq

/-- The words of the slot, its link, and what is left of the runtime. -/
structure Mem where
  state : TaskState
  kind : TaskKind
  /-- `TaskData::task` is not null. -/
  task : Bool
  listeners : ℕ
  held : Bool
  mark : Mark
  /-- The slot is part of a queue's chain. -/
  linked : Bool
  armed : Bool
  parked : Bool
  /-- The gate of a task that takes gives. -/
  gate : Option Gate
  /-- The id is the table's to hand out. -/
  avail : Bool
  /-- Handles that are not being cloned, dropped or used. -/
  handles : ℕ
  /-- `EXECUTOR_KQUEUE_ID` is not `DEAD_KQUEUE_ID`. -/
  manager : Bool

/-- What is done once the slot was found not to be `Free`. -/
inductive Todo
  /-- `drop_listener`, before the count goes down. -/
  | drop
  /-- `release`, before the swap of `held`. -/
  | release
  /-- The `release` of a sweep. -/
  | sweep
  /-- `run`, before `claim`. -/
  | run
  /-- `TaskHandle::clone`, before the count goes up. -/
  | clone
  | stop
  /-- `give`, before the gate is asked. -/
  | give
  | abandon
  | writeOff
  /-- `fail`, before the load of the state. -/
  | fail
  /-- `take`, before `claim_queued`. -/
  | claimShared
  /-- `promote`, before the exchange. -/
  | relink
  /-- `fire`, before `claim_armed`. -/
  | fire
  /-- `wake_parked` or `recover_waits`, before `claim_parked`. -/
  | wake
  /-- `timed_out`, before `claim_parked`. -/
  | timedOut
  /-- `orphaned`, before the look at `parked`. -/
  | orphan
  /-- A shutdown, before `disarm`. -/
  | shut
  /-- `write_off_pool`, before the load of the state. -/
  | writeOffPool
  deriving DecidableEq

/-- Who hands a task on, and so what is done with one that nobody takes. -/
inductive Giver
  /-- `create`. -/
  | spawn
  /-- A repeat that goes round again. -/
  | round
  /-- `fire`. -/
  | timer
  /-- `start_waiting`. -/
  | give
  /-- `wake_parked` or `recover_waits`. -/
  | wake
  /-- A worker that stops, is recovered, or has no room. -/
  | worker
  deriving DecidableEq

/-- What a thread has to do next. -/
inductive Job
  /-- `slot`, before something is done with it. -/
  | look (k : Todo)
  | todo (k : Todo)
  /-- A handle goes back to its owner. -/
  | back
  /-- `destroy`, before the extras are taken out. -/
  | destroy
  /-- `destroy`, before the task is taken out. -/
  | destroyTask
  /-- `destroy`, before `parked` is cleared. -/
  | destroyParked
  /-- `destroy`, before the slot reads `Free`. -/
  | setFree
  /-- `DATA.free`. -/
  | free
  /-- `create`, before `TaskData::init`. -/
  | init (k : TaskKind) (waits : Bool)
  /-- `create`, before the task is handed on. -/
  | start (waits : Bool)
  /-- `submit` or `submit_local`, before the pool is asked. -/
  | queue (g : Giver)
  /-- `push`, before `slot`. -/
  | push (g : Giver)
  /-- `push`, before `mark_queued`. -/
  | mark
  /-- `push`, before the exchange. -/
  | link
  /-- `submit_local` or a refill, before `slot`. -/
  | pushLocal (g : Giver)
  /-- `submit_local` or a refill, before `mark_queued`. -/
  | markLocal (g : Giver)
  /-- `submit_local` or a refill, before the LIFO slot or the ring takes the task. -/
  | place (g : Giver)
  /-- `wait_for`, before `arm`. -/
  | arm (g : Giver)
  /-- `wait_for`, before `arm_timer`. -/
  | timer (g : Giver)
  /-- `wait_for`, before `disarm`. -/
  | disarm (g : Giver)
  /-- `try_state` from each of these to `Failed`, until one lands. -/
  | settle (l : List TaskState)
  /-- `set_state` to `Failed`. -/
  | setFailed
  /-- `close_extras`, or the gate's `finish` by itself. -/
  | closeExtras
  /-- `claim` of a task that is dropped. -/
  | takeTask
  | finishSeries
  /-- A task whose mark was claimed. -/
  | hand
  /-- `begin`, before the exchange from `Pending`. -/
  | begin
  /-- `begin`, before the look at the kind. -/
  | beginKind
  /-- `begin`, before the exchange from `Ready`. -/
  | beginReady
  /-- `begin`, before the exchange from `Taken`. -/
  | beginTaken
  /-- `run`, before the look whether the task comes back from a park. -/
  | beginState
  /-- `run`, before the task's own code. -/
  | execute
  /-- `run`, before the exchange to `Ready`. -/
  | publish
  /-- `run`, before what follows a published run. -/
  | published
  /-- `run`, before `rearm` for another round. -/
  | rearm
  /-- `rewait`, before `rearm`. -/
  | rewaitPut
  /-- `rewait_series`, before the count goes up. -/
  | rewaitAdd
  | afterRun
  /-- `after_run`, before the last look at the givers. -/
  | lastLook
  | startWaiting
  /-- `park_task`, before the count goes up. -/
  | parkAdd
  /-- `park_task`, before `rearm`. -/
  | parkPut
  /-- `park_task`, before `park`. -/
  | parkFlag
  /-- `park_task`, before `watch_park`. -/
  | parkWatch
  /-- `park_task`, before the load of the state. -/
  | parkState
  | unpark
  /-- `let_go_waiting`. -/
  | letGo
  /-- `write_off`, before `close_waiting`. -/
  | writeOffGate
  /-- `timed_out`, before the exchange to `TimedOut`; `parked` if it claimed a park. -/
  | timeState (parked : Bool)
  /-- `orphaned`, before the load of the kind. -/
  | orphanKind
  /-- `orphaned`, before the load of `armed`. -/
  | orphanArmed
  /-- A shutdown, before the look at `parked`. -/
  | shutParked
  /-- A sweep, before the load of the state. -/
  | sweepState
  deriving DecidableEq

inductive Act
  /-- The next step, or the branch on which things go well. -/
  | go
  /-- The branch on which something is refused. -/
  | no
  /-- A worker's LIFO slot or ring is to have the task. -/
  | atWorker
  /-- The task is to wait for a timer. -/
  | arm
  | park
  | panic
  /-- The thread goes down, or the queue is emptied for good. -/
  | die
  /-- Another round, or another run. -/
  | again
  /-- The series, or the task, is over. -/
  | isOver
  | spawn (k : TaskKind) (waits : Bool)
  | clone
  | drop
  | cancel
  | give
  /-- A copy into the task panicked. -/
  | writeOff
  /-- The slot is popped off the queue it is linked in. -/
  | pop
  /-- The slot is popped off its band to go to the one above. -/
  | promote
  /-- An entry of a ring or a LIFO slot, or `run_awaited`, leads to the task. -/
  | takeLocal
  /-- The task's timer goes off. -/
  | fire
  /-- What a parked task watches happens, or a restarted manager finds it parked. -/
  | wake
  /-- The timer of a run's deadline goes off. -/
  | timeout
  /-- The manager is gone for good: its supervisor has given up, or a shutdown has begun. -/
  | giveUp
  | orphan
  | shut
  | writeOffPool
  deriving DecidableEq

namespace Mem

/-- `TaskData::add_listener`. -/
def addListener (m : Mem) : Mem := { m with listeners := fetchAdd 32 m.listeners }

/-- `TaskData::drop_listener`. -/
def dropListener (m : Mem) : Mem := { m with listeners := fetchSub 32 m.listeners }

/-- `TaskData::init`. -/
def initSlot (m : Mem) (k : TaskKind) : Mem :=
  { m with
    state := .pending, kind := k, task := true, listeners := 2, held := true, mark := .nowhere
    armed := false, parked := false, gate := none }

/-- The gate's `finish`, if there is a gate. -/
def finishGate (m : Mem) : Mem := { m with gate := m.gate.map fun _ => .finished }

/-- A handle is put to use for as long as `js` takes. -/
def useHandle (m : Mem) (js : List Job) : Option (Mem × List Job) :=
  if 0 < m.handles then some ({ m with handles := m.handles - 1 }, js) else none

end Mem

/-- The end of a task whose reference goes back. -/
def finishRun : List Job := [.closeExtras, .look .release]

def takeDown : List Job := [.takeTask, .settle [.running], .look .release]

def finishWaiting : List Job := [.closeExtras, .takeTask, .finishSeries, .look .release]

/-- What is done with a task that nobody takes. -/
def Giver.refused : Giver → List Job
  | spawn => [.setFailed, .look .release]
  | round => .settle [.ready] :: finishRun
  | timer => .settle [.ready, .taken, .pending] :: finishRun
  | give => .closeExtras :: .settle [.pending, .ready, .taken] :: finishWaiting
  | wake => takeDown
  | worker => [.look .fail]

/-- What is done where there is no task behind an id. -/
def Todo.missing : Todo → List Job
  | clone => [.back, .back]
  | _ => []

/-- What is done with a slot that is not `Free`. -/
def todoStep (m : Mem) : Todo → Act → Option (Mem × List Job)
  | .drop, .go => some (m.dropListener, if m.listeners = 1 then [.destroy] else [])
  | .release, .go => some ({ m with held := false }, if m.held then [.look .drop] else [])
  | .sweep, .go => some ({ m with held := false }, if m.held then [.look .drop] else [])
  | .run, .go => some ({ m with task := false }, if m.task then [.begin] else [])
  | .clone, .go => some (m.addListener, [.back, .back])
  | .stop, .go =>
    if m.state.stopReturns m.kind.repeats then some (m, [])
    else some ({ m with state := .cancelled }, [.unpark, .letGo])
  | .give, .go =>
    if m.gate = some .waiting then some ({ m with gate := some .busy }, [.startWaiting])
    else some (m, [])
  -- The gives are used up.
  | .give, .no => some (m, [])
  | .abandon, .go => some (m, [.letGo])
  | .abandon, .no => some (m, [])
  | .writeOff, .go =>
    some ({ m with state := if m.state.isOver then m.state else .failed }, [.writeOffGate])
  | .fail, .go => some (m, if m.state.terminal then finishRun else .setFailed :: finishRun)
  | .claimShared, .go =>
    if m.mark = .shared then some ({ m with mark := .nowhere }, [.hand]) else some (m, [])
  | .relink, .go => some ({ m with linked := true }, [])
  | .fire, .go =>
    if m.armed then some ({ m with armed := false }, [.queue .timer]) else some (m, [])
  | .wake, .go =>
    if m.parked then some ({ m with parked := false }, [.queue .wake]) else some (m, [])
  | .timedOut, .go =>
    if m.parked then
      some ({ m with parked := false }, [.takeTask, .timeState true, .look .release])
    else some (m, [.timeState false])
  | .orphan, .go => some (m, if m.parked then [.unpark] else [.orphanKind])
  | .shut, .go => some ({ m with armed := false }, [.shutParked])
  | .writeOffPool, .go => some (m, [.sweepState])
  | _, _ => none

/-- The making and the end of a life, and the use of handles. -/
def lifeStep (m : Mem) : Job → Act → Option (Mem × List Job)
  | .look k, .go => some (m, if m.state = .free then k.missing else [.todo k])
  | .todo k, a => todoStep m k a
  | .back, .go => some ({ m with handles := m.handles + 1 }, [])
  | .destroy, .go => some (m.finishGate, [.destroyTask])
  | .destroyTask, .go => some ({ m with task := false }, [.destroyParked])
  | .destroyParked, .go => some ({ m with parked := false }, [.setFree])
  | .setFree, .go => some ({ m with state := .free }, [.free])
  | .free, .go => some ({ m with avail := true }, [])
  | .init k waits, .go => some (m.initSlot k, [.start waits, .back])
  | .init _ _, .no => some (m, [.free])
  | .start true, .go => some ({ m with gate := some .waiting }, [])
  | .start false, .go => some (m, [.queue .spawn])
  | .start false, .arm => some (m, [.arm .spawn])
  | _, _ => none

/-- The pool, and the timers. -/
def poolStep (m : Mem) : Job → Act → Option (Mem × List Job)
  | .queue g, .go => some (m, [.push g])
  | .queue .spawn, .atWorker => some (m, [.pushLocal .spawn])
  | .queue g, .no => some (m, g.refused)
  | .push g, .go => some (m, if m.state = .free then g.refused else [.mark])
  | .mark, .go => some ({ m with mark := .shared }, [.link])
  | .pushLocal g, .go => some (m, if m.state = .free then g.refused else [.markLocal g])
  | .markLocal g, .go => some ({ m with mark := .atWorker }, [.place g])
  | .link, .go => some ({ m with linked := true }, [])
  | .place _, .go => some (m, [])
  | .place g, .no =>
    if m.mark = .atWorker then some ({ m with mark := .nowhere }, [.queue g]) else some (m, [])
  | .arm g, .go => some ({ m with armed := true }, [.timer g])
  | .timer _, .go => if m.manager then some (m, []) else none
  | .timer g, .no => some (m, [.disarm g])
  | .disarm g, .go => some ({ m with armed := false }, g.refused)
  | .hand, .go => some (m, [.look .run])
  | .hand, .no => some (m, [.queue .worker])
  | .hand, .atWorker => some (m, [.pushLocal .worker])
  | .hand, .die => some (m, [.look .fail])
  | _, _ => none

/-- A run, and what follows it. -/
def runStep (m : Mem) : Job → Act → Option (Mem × List Job)
  | .begin, .go =>
    if m.state = .pending then some ({ m with state := .running }, [.execute])
    else some (m, [.beginKind])
  | .beginKind, .go =>
    some (m, if m.kind.repeats || m.gate.isSome then [.beginReady] else [.beginState])
  | .beginReady, .go =>
    if m.state = .ready then some ({ m with state := .running }, [.execute])
    else some (m, [.beginTaken])
  | .beginTaken, .go =>
    if m.state = .taken then some ({ m with state := .running }, [.execute])
    else some (m, [.beginState])
  | .beginState, .go => some (m, if m.state = .running then [.execute] else finishRun)
  | .execute, .go => some (m, [.publish])
  | .execute, .park => some (m, [.parkAdd])
  | .execute, .panic => some (m, [.closeExtras, .settle [.running], .look .release])
  | .execute, .die => some (m, [.look .fail])
  | .publish, .go =>
    if m.state = .running then some ({ m with state := .ready }, [.published])
    else some (m, finishRun)
  | .published, .go =>
    if m.kind.repeats then none
    else some (m, if m.gate.isSome then [.rewaitPut] else finishRun)
  | .published, .again => if m.kind.repeats then some (m, [.rearm]) else none
  | .published, .isOver =>
    if m.kind.repeats then
      some (m, if m.gate.isSome then [.rewaitPut] else .finishSeries :: finishRun)
    else none
  | .rearm, .go =>
    some ({ m with task := true }, [if m.kind.waits then .arm .round else .queue .round])
  | .rewaitPut, .go => some ({ m with task := true }, [.rewaitAdd])
  | .rewaitAdd, .go => some (m.addListener, [.afterRun, .look .drop])
  | .afterRun, .go =>
    match m.gate with
    | some .busy => some ({ m with gate := some .waiting }, [.lastLook])
    | some .waiting => some (m, [])
    | some .finished | none => some (m, finishWaiting)
  | .afterRun, .again => if m.gate = some .busy then some (m, [.startWaiting]) else none
  | .afterRun, .isOver =>
    if m.gate = some .busy then some ({ m with gate := some .finished }, finishWaiting) else none
  | .lastLook, .go => some (m, [])
  | .lastLook, .isOver =>
    if m.gate = some .waiting then some ({ m with gate := some .finished }, finishWaiting)
    else some (m, [])
  | .startWaiting, .go => some (m, [.queue .give])
  | .startWaiting, .arm => some (m, [.arm .give])
  | .parkAdd, .go => some (m.addListener, [.parkPut, .look .drop])
  | .parkPut, .go => some ({ m with task := true }, [.parkFlag])
  | .parkFlag, .go => some ({ m with parked := true }, [.parkWatch])
  | .parkWatch, .go => if m.manager then some (m, [.parkState]) else none
  | .parkWatch, .no => some (m, [.unpark])
  | .parkState, .go => some (m, if m.state = .running then [] else [.unpark])
  | _, _ => none

/-- Endings and sweeps. -/
def endStep (m : Mem) : Job → Act → Option (Mem × List Job)
  | .settle [], .go => some (m, [])
  | .settle (s :: l), .go =>
    if m.state = s then some ({ m with state := .failed }, []) else some (m, [.settle l])
  | .setFailed, .go => some ({ m with state := .failed }, [])
  | .closeExtras, .go => some (m.finishGate, [])
  | .takeTask, .go => some ({ m with task := false }, [])
  | .finishSeries, .go => some ({ m with kind := .once }, [])
  | .unpark, .go =>
    if m.parked then some ({ m with parked := false }, takeDown) else some (m, [])
  | .letGo, .go =>
    if m.gate = some .waiting then
      some ({ m with gate := some .finished }, .settle [.pending] :: finishWaiting)
    else some (m, [])
  | .writeOffGate, .go =>
    if m.gate = some .waiting then some ({ m with gate := some .finished }, finishWaiting)
    else some (m.finishGate, [])
  | .timeState parked, .go =>
    if m.state = .running then
      some ({ m with state := .timedOut }, if parked then [.closeExtras] else [.unpark, .letGo])
    else some (m, [])
  | .orphanKind, .go => some (m, if m.kind.waits then [.sweepState] else [.orphanArmed])
  | .orphanArmed, .go => some (m, if m.armed then [.sweepState] else [])
  | .shutParked, .go => some (m, if m.parked then [.unpark] else [.sweepState])
  | .sweepState, .go =>
    some (m, if m.state = .running then []
      else if m.state.terminal then [.closeExtras, .look .sweep]
      else [.setFailed, .closeExtras, .look .sweep])
  | _, _ => none

/-- What is begun from outside: by a user, by a thread that looks for work, by an event of the
manager's queue, or once the manager is gone. -/
def call (m : Mem) : Act → Option (Mem × List Job)
  | .spawn k waits =>
    if m.avail && !k.schedules then some ({ m with avail := false }, [.init k waits]) else none
  | .clone => m.useHandle [.look .clone]
  | .drop => m.useHandle [.look .abandon, .look .drop]
  | .cancel => m.useHandle [.look .stop, .back]
  | .give => m.useHandle [.look .give, .back]
  | .writeOff => m.useHandle [.look .writeOff, .back]
  | .pop => if m.linked then some ({ m with linked := false }, [.look .claimShared]) else none
  | .promote => if m.linked then some ({ m with linked := false }, [.look .relink]) else none
  | .takeLocal =>
    if m.mark = .atWorker then some ({ m with mark := .nowhere }, [.hand]) else none
  | .fire => if m.manager then some (m, [.look .fire]) else none
  | .wake => if m.manager then some (m, [.look .wake]) else none
  | .timeout => if m.manager then some (m, [.look .timedOut]) else none
  | .giveUp => some ({ m with manager := false }, [])
  | .orphan => if m.manager then none else some (m, [.look .orphan])
  | .shut => if m.manager then none else some (m, [.look .shut])
  | .writeOffPool => if m.manager then none else some (m, [.look .writeOffPool])
  | _ => none

/-- One job is done; what it leaves to do comes before the rest. -/
def jobStep (m : Mem) (j : Job) (a : Act) : Option (Mem × List Job) :=
  (lifeStep m j a).or ((poolStep m j a).or ((runStep m j a).or (endStep m j a)))

/-- A thread goes on with its jobs, or begins something in the middle of them: a task's own code
spawns and waits, and the drop of a value drops the handles in it. -/
def machine : Machine Mem (List Job) Act where
  next m l a :=
    match call m a, l with
    | some (m', js), l => some (m', js ++ l)
    | none, j :: l => (jobStep m j a).map fun r => (r.1, r.2 ++ l)
    | none, [] => none

/-- Before the first spawn. -/
structure Fresh {T : Type*} (s : Config T Mem (List Job)) : Prop where
  state : s.mem.state = .free
  listeners : s.mem.listeners = 0
  held : s.mem.held = false
  mark : s.mem.mark = .nowhere
  linked : s.mem.linked = false
  armed : s.mem.armed = false
  parked : s.mem.parked = false
  gate : s.mem.gate = none
  avail : s.mem.avail = true
  handles : s.mem.handles = 0
  loc : ∀ t, s.loc t = []

end Atap.Sweep
