import Atap.Interleave.Machine
import Atap.Interleave.Word
import Mathlib.Data.Finset.Card

/-!
# The claims on a slot

A slot lives as long as somebody has a claim on it, and `listeners` counts the claims: one for
each handle, one that is the executor's own, one for each run of a series on the series' slot,
and one for as long as a park, the end of a waiting task's run, or a timeout needs it. Whoever
drops the last one destroys what is in the slot and puts its id on the free list. This module
is every place a claim is made or dropped, as a machine over all slots; one atomic operation is
one step.

A thread is a list of **jobs** it still has to do, the next one first: `drop_listener` of the
last claim is followed by `destroy` and by `DATA.free`, the drop of a task by the drop of its
claim on its series, and so on. A job is named after the operation it stands before.

The executor's claim on a task goes with the **turn** to do something with it: it is in the
pool, on a timer, on the clock, parked, or resting at its gate (`Place`), or in the hands of one
thread. Whoever has it gives the claim back when there is nothing left to do.

What the claims do not depend on is left to the schedule: whether a move of the task's state
lands, how a run ends, whether the pool or the kernel takes what it is handed, and when timers
fire. Shutdown, and what follows the death of a worker or of the manager, are not here.

`runs`, `lives`, `destroyed`, `allocs` and `freed` are a history; no step reads them.
-/

namespace Atap.Claims

open Function

/-- Where a task's turn rests between threads. -/
inductive Place
  /-- Marked queued, `TaskData::queued`. -/
  | pool
  /-- Waiting on a timer, `TaskData::armed`. -/
  | timer
  /-- Parked, `TaskData::parked`. -/
  | park
  /-- Between gives: its gate reads `WAITING`. -/
  | gate
  /-- A series on the manager's clock. -/
  | clock
  deriving DecidableEq

/-- What a slot is made for. -/
inductive Kind
  | once
  /-- One run of the schedule in the slot `p`: a `SeriesRun`. -/
  | run (p : ℕ)
  /-- A task that waits for gives. -/
  | waits
  /-- A schedule. -/
  | series
  /-- A schedule that waits for gives. -/
  | waitingSeries
  deriving DecidableEq

namespace Kind

/-- The slot's runs are tasks of their own. -/
def schedules : Kind → Bool
  | series | waitingSeries => true
  | _ => false

/-- The task rests at its gate once it is spawned. -/
def takesInput : Kind → Bool
  | waits | waitingSeries => true
  | _ => false

/-- The series a task publishes into. -/
def publishes : Kind → Option ℕ
  | run p => some p
  | _ => none

end Kind

/-- The slots, the table, and the handles nobody is using. -/
structure Mem where
  /-- The slot reads `TaskState::Free`. -/
  free : ℕ → Bool
  /-- `TaskData::listeners`. -/
  listeners : ℕ → ℕ
  /-- `TaskData::held`. -/
  held : ℕ → Bool
  /-- `TaskData::task`: a task in the slot, and the series its `SeriesRun` publishes into, if it
  is one. -/
  task : ℕ → Option (Option ℕ)
  /-- `Extras::parent`. -/
  parent : ℕ → Option ℕ
  /-- The slot holds a schedule. -/
  series : ℕ → Bool
  /-- `TaskData::run_deadline`, `0` for none. -/
  deadline : ℕ → ℕ
  rest : ℕ → Place → Bool
  /-- The id is the table's to hand out. -/
  avail : ℕ → Bool
  /-- Handles that are not being cloned, dropped or used. -/
  handles : ℕ → ℕ
  /-- The runs whose `SeriesRun` is not dropped, by series. -/
  runs : ℕ → Finset ℕ
  /-- How often a slot was initialised. -/
  lives : ℕ → ℕ
  /-- How often a slot was destroyed. -/
  destroyed : ℕ → ℕ
  /-- How often an id was handed out. -/
  allocs : ℕ → ℕ
  /-- How often an id was put back on the free list. -/
  freed : ℕ → ℕ

/-- What is done once a slot was found not to be `Free`. -/
inductive Todo
  /-- `drop_listener`, before the count goes down. -/
  | drop
  /-- `release`, before the swap of `held`. -/
  | release
  /-- `run`, before `claim`. -/
  | run
  | stop
  /-- `give`, before the gate is asked. -/
  | give
  /-- `wake_parked`, before `claim_parked`. -/
  | wake
  /-- `fire`, before `claim_armed`. -/
  | fire
  /-- `fire` of a series on the clock. -/
  | tick
  /-- `abandon`, before `let_go_waiting`. -/
  | abandon
  /-- `timed_out`, before the look at the deadline. -/
  | timedOut (word : ℕ)
  deriving DecidableEq

/-- What a thread has to do next. `s` is the series of a task in hand. -/
inductive Job
  /-- `slot`, before something is done with it. -/
  | look (x : ℕ) (k : Todo)
  | todo (x : ℕ) (k : Todo)
  /-- `TaskHandle::clone`, before `slot`. -/
  | cloneLook (x : ℕ)
  /-- `TaskHandle::clone`, before the count goes up. -/
  | cloneAdd (x : ℕ)
  /-- A handle goes back to its owner. -/
  | back (x : ℕ)
  /-- `destroy`, before the extras are taken out. -/
  | destroy (x : ℕ)
  /-- `destroy`, before the task is taken out. -/
  | claimDead (x : ℕ)
  /-- `destroy`, before the task is dropped. -/
  | dropDead (x : ℕ) (s : Option ℕ)
  /-- `destroy`, before `parked` is cleared. -/
  | clearParked (x : ℕ)
  /-- `destroy`, before the slot reads `Free`. -/
  | setFree (x : ℕ)
  /-- `DATA.free`. -/
  | free (x : ℕ)
  /-- `create` or `create_series`, before `DATA.alloc`. -/
  | alloc (k : Kind)
  /-- `create` or `create_series`, before `TaskData::init`. -/
  | init (x : ℕ) (k : Kind)
  /-- `create` or `create_series`, before the task is handed on. -/
  | enqueue (x : ℕ) (k : Kind)
  /-- `run`, before `begin`. -/
  | begin (x : ℕ) (s : Option ℕ)
  /-- `run`, before the task's own code. -/
  | execute (x : ℕ) (s : Option ℕ)
  /-- `run`, before `untime_run`. -/
  | untime (x : ℕ) (s : Option ℕ)
  /-- `run`, before what follows a run. -/
  | settle (x : ℕ) (s : Option ℕ)
  /-- A task in hand is dropped, and the executor's claim given back. -/
  | dropTask (x : ℕ) (s : Option ℕ)
  /-- `park_task`, before the count goes up. -/
  | parkAdd (x : ℕ) (s : Option ℕ)
  /-- `park_task`, before `rearm`. -/
  | parkPut (x : ℕ) (s : Option ℕ)
  /-- `park_task`, before `park`. -/
  | parkFlag (x : ℕ)
  /-- `park_task`, before `watch_park`. -/
  | parkWatch (x : ℕ)
  | unpark (x : ℕ)
  /-- `take_down` or `finish_waiting`, before `claim`. -/
  | takeDown (x : ℕ)
  /-- `run`, before `rearm` for another round. -/
  | putBack (x : ℕ) (s : Option ℕ)
  /-- The pool or a timer is handed the task. -/
  | requeue (x : ℕ)
  /-- `rewait`, before `rearm`. -/
  | rewaitPut (x : ℕ) (s : Option ℕ)
  /-- `rewait_series`, before the count goes up. -/
  | rewaitAdd (x : ℕ)
  /-- `rewait_series`, before `after_run`. -/
  | afterRun (x : ℕ)
  /-- `let_go_waiting`. -/
  | letGo (x : ℕ)
  | startWaiting (x : ℕ)
  /-- `wake_parked`, before `queue`. -/
  | resume (x : ℕ)
  /-- `start_series` or `tick`. -/
  | tick (x : ℕ)
  /-- `launch`, before `slot`. -/
  | launchLook (x : ℕ)
  /-- `launch`, before the count goes up. -/
  | launchAdd (x : ℕ)
  /-- `start_series` or `tick`, after the launch. -/
  | afterLaunch (x : ℕ)
  /-- `timed_out`, before the parent is read. -/
  | timeParent (x : ℕ)
  /-- `timed_out`, before `slot` of the parent. -/
  | timeSeries (x p : ℕ)
  /-- `timed_out`, before the parent's count goes up. -/
  | timeAdd (x p : ℕ)
  /-- `timed_out`, before `claim_parked`, with the claim it made. -/
  | timeRun (x : ℕ) (h : Option ℕ)
  deriving DecidableEq

inductive Act
  /-- The next step, or the branch on which things go well. -/
  | go
  /-- The branch on which a move does not land or something is refused. -/
  | no
  /-- A timer takes the task. -/
  | arm
  /-- The run parks. -/
  | park
  /-- The run is followed by another. -/
  | again
  /-- The run, or the series, is over and the task goes back to its gate. -/
  | rewait
  /-- A waiting task takes no more gives. -/
  | isOver
  /-- The run begins with a deadline. -/
  | time (word : ℕ)
  /-- `DATA.alloc` gives this id. -/
  | id (x : ℕ)
  /-- A user spawns a task. -/
  | spawn (k : Kind)
  | clone (x : ℕ)
  | drop (x : ℕ)
  | cancel (x : ℕ)
  | give (x : ℕ)
  /-- A worker picks up a queued task. -/
  | pick (x : ℕ)
  /-- The clock of a series goes off. -/
  | tick (x : ℕ)
  /-- The timer of a task goes off. -/
  | fire (x : ℕ)
  /-- What a parked task watches happens. -/
  | wake (x : ℕ)
  /-- The timer of a run's deadline goes off. -/
  | timeout (x word : ℕ)
  deriving DecidableEq

namespace Mem

/-- The turn of `x` comes to rest. -/
def put (m : Mem) (x : ℕ) (a : Place) : Mem :=
  { m with rest := update m.rest x (update (m.rest x) a true) }

/-- The turn of `x` is taken from where it rests. -/
def take (m : Mem) (x : ℕ) (a : Place) : Mem :=
  { m with rest := update m.rest x (update (m.rest x) a false) }

/-- `TaskData::add_listener`. -/
def addListener (m : Mem) (x : ℕ) : Mem :=
  { m with listeners := update m.listeners x (fetchAdd 32 (m.listeners x)) }

/-- `TaskData::drop_listener`. -/
def dropListener (m : Mem) (x : ℕ) : Mem :=
  { m with listeners := update m.listeners x (fetchSub 32 (m.listeners x)) }

/-- The slot's task pointer is written. -/
def setTask (m : Mem) (x : ℕ) (b : Option (Option ℕ)) : Mem :=
  { m with task := update m.task x b }

/-- The task of the run `x` is dropped, and with it a `SeriesRun`. -/
def dropRun (m : Mem) (x : ℕ) : Option ℕ → Mem
  | some p => { m with runs := update m.runs p ((m.runs p).erase x) }
  | none => m

/-- A handle is put to use for as long as `js` takes. -/
def useHandle (m : Mem) (x : ℕ) (js : List Job) : Option (Mem × List Job) :=
  if 0 < m.handles x then
    some ({ m with handles := update m.handles x (m.handles x - 1) }, js)
  else none

/-- `TaskData::init`, and `attach_extras` with the parent of a run that has a timeout. -/
def initSlot (m : Mem) (x : ℕ) (k : Kind) (timed : Bool) : Mem :=
  { m with
    free := update m.free x false
    listeners := update m.listeners x 2
    held := update m.held x true
    task := update m.task x (if k.schedules then none else some k.publishes)
    parent := update m.parent x (if timed then k.publishes else none)
    series := update m.series x k.schedules
    deadline := update m.deadline x 0
    rest := update m.rest x fun _ => false
    runs := match k.publishes with
      | some p => update m.runs p (insert x (m.runs p))
      | none => m.runs
    lives := update m.lives x (m.lives x + 1) }

end Mem

/-- What drops the claim a `SeriesRun` has on its series. -/
def dropSeries : Option ℕ → List Job
  | some p => [.look p .drop]
  | none => []

/-- The end of `timed_out` for the series it has a claim on. -/
def stopSeries : Option ℕ → List Job
  | some p => [.look p .stop, .look p .drop]
  | none => []

/-- The handle of a task just spawned: a user keeps it, `spawn_run` drops it. -/
def spawned (x : ℕ) : Kind → Job
  | .run _ => .look x .drop
  | _ => .back x

/-- `slot`, and what is done with one that is not `Free`. -/
def todoStep (m : Mem) (x : ℕ) : Todo → Act → Option (Mem × List Job)
  | .drop, .go =>
    some (m.dropListener x, if m.listeners x = 1 then [.destroy x] else [])
  | .release, .go =>
    if m.held x then
      some ({ m with held := update m.held x false }, [.look x .drop])
    else some (m, [])
  | .run, .go =>
    match m.task x with
    | some s => some (m.setTask x none, [.begin x s])
    | none => some (m, [])
  | .stop, .go => some (m, [.unpark x, .letGo x])
  | .stop, .no => some (m, [])
  | .give, .go => if m.rest x .gate then some (m.take x .gate, [.startWaiting x]) else some (m, [])
  | .wake, .go => if m.rest x .park then some (m.take x .park, [.resume x]) else some (m, [])
  | .fire, .go =>
    if m.rest x .timer then
      some (m.take x .timer, [if m.series x then .tick x else .requeue x])
    else some (m, [])
  | .tick, .go => some (m, [.tick x])
  | .abandon, .go => some (m, [.letGo x])
  | .abandon, .no => some (m, [])
  | .timedOut word, .go =>
    some (m, if word ≠ 0 ∧ m.deadline x = word then [.timeParent x] else [])
  | _, _ => none

/-- The making and the end of a slot's life, and the use of its handles. -/
def lifeStep (m : Mem) : Job → Act → Option (Mem × List Job)
  | .look x k, .go => some (m, if m.free x then [] else [.todo x k])
  | .todo x k, c => todoStep m x k c
  | .cloneLook x, .go => some (m, if m.free x then [.back x, .back x] else [.cloneAdd x])
  | .cloneAdd x, .go => some (m.addListener x, [.back x, .back x])
  | .back x, .go => some ({ m with handles := update m.handles x (m.handles x + 1) }, [])
  | .destroy x, .go =>
    some ({ m with
      parent := update m.parent x none
      destroyed := update m.destroyed x (m.destroyed x + 1) }, [.claimDead x])
  | .claimDead x, .go =>
    match m.task x with
    | some s => some (m.setTask x none, [.dropDead x s])
    | none => some (m, [.clearParked x])
  | .dropDead x s, .go => some (m.dropRun x s, dropSeries s ++ [.clearParked x])
  | .clearParked x, .go => some (m.take x .park, [.setFree x])
  | .setFree x, .go => some ({ m with free := update m.free x true }, [.free x])
  | .free x, .go =>
    some ({ m with
      avail := update m.avail x true
      freed := update m.freed x (m.freed x + 1) }, [])
  | .alloc k, .id x =>
    if m.avail x then
      some ({ m with
        avail := update m.avail x false
        allocs := update m.allocs x (m.allocs x + 1) }, [.init x k])
    else none
  | .alloc k, .no => some (m, dropSeries k.publishes)
  | .init x k, .go => some (m.initSlot x k false, [.enqueue x k, spawned x k])
  | .init x k, .time _ => some (m.initSlot x k true, [.enqueue x k, spawned x k])
  | .init x k, .no => some (m, .free x :: dropSeries k.publishes)
  | .enqueue x k, .go =>
    if k.takesInput then some (m.put x .gate, [])
    else if k.schedules then some (m, [.tick x])
    else some (m.put x .pool, [])
  | .enqueue x _, .arm => some (m.put x .timer, [])
  | .enqueue x _, .no => some (m, [.look x .release])
  | _, _ => none

/-- A run, and what follows it. -/
def runStep (m : Mem) : Job → Act → Option (Mem × List Job)
  | .begin x s, .go => some (m, [.execute x s])
  | .begin x s, .time word =>
    some ({ m with deadline := update m.deadline x word }, [.execute x s])
  | .begin x s, .no => some (m, [.dropTask x s])
  | .execute x s, .go => some (m, [.untime x s])
  | .execute x s, .park => some (m, [.parkAdd x s])
  | .untime x s, .go =>
    some ({ m with deadline := update m.deadline x 0 }, [.settle x s])
  | .settle x s, .go => some (m, [.dropTask x s])
  | .settle x s, .again => some (m, [.putBack x s])
  | .settle x s, .rewait => some (m, [.rewaitPut x s])
  | .dropTask x s, .go => some (m.dropRun x s, dropSeries s ++ [.look x .release])
  | .parkAdd x s, .go => some (m.addListener x, [.parkPut x s, .look x .drop])
  | .parkPut x s, .go => some (m.setTask x (some s), [.parkFlag x])
  | .parkFlag x, .go => some (m.put x .park, [.parkWatch x])
  | .parkWatch _, .go => some (m, [])
  | .parkWatch x, .no => some (m, [.unpark x])
  | .unpark x, .go => if m.rest x .park then some (m.take x .park, [.takeDown x]) else some (m, [])
  | .takeDown x, .go =>
    match m.task x with
    | some s => some (m.setTask x none, [.dropTask x s])
    | none => some (m, [.look x .release])
  | .putBack x s, .go => some (m.setTask x (some s), [.requeue x])
  | .requeue x, .go => some (m.put x .pool, [])
  | .requeue x, .arm => some (m.put x .timer, [])
  | .requeue x, .no => some (m, [.look x .release])
  | .requeue x, .isOver => some (m, [.takeDown x])
  | .resume x, .go => some (m.put x .pool, [])
  | .resume x, .no => some (m, [.takeDown x])
  | _, _ => none

/-- Gives, series, and timeouts. -/
def seriesStep (m : Mem) : Job → Act → Option (Mem × List Job)
  | .rewaitPut x s, .go => some (m.setTask x (some s), [.rewaitAdd x])
  | .rewaitAdd x, .go => some (m.addListener x, [.afterRun x, .look x .drop])
  | .afterRun x, .go => some (m.put x .gate, [])
  | .afterRun x, .again => some (m, [.startWaiting x])
  | .afterRun x, .isOver => some (m, [.takeDown x])
  | .letGo x, .go => if m.rest x .gate then some (m.take x .gate, [.takeDown x]) else some (m, [])
  | .startWaiting x, .go => some (m, [if m.series x then .tick x else .requeue x])
  | .startWaiting x, .arm => some (m.put x .timer, [])
  | .startWaiting x, .no => some (m, [.takeDown x])
  | .tick x, .go => some (m, [.launchLook x])
  | .tick x, .no => some (m, [.look x .release])
  | .tick x, .isOver => some (m, [.takeDown x])
  | .tick x, .rewait => some (m, [.rewaitAdd x])
  | .launchLook x, .go =>
    some (m, if m.free x then [.alloc (.run x), .afterLaunch x] else [.launchAdd x])
  | .launchAdd x, .go => some (m.addListener x, [.alloc (.run x), .afterLaunch x])
  | .afterLaunch x, .go => some (m.put x .clock, [])
  | .afterLaunch x, .no => some (m, [.look x .release])
  | .afterLaunch x, .isOver => some (m, [.takeDown x])
  | .afterLaunch x, .rewait => some (m, [.rewaitAdd x])
  | .timeParent x, .go =>
    some (m, match m.parent x with
      | some p => [.timeSeries x p]
      | none => [.timeRun x none])
  | .timeSeries x p, .go => some (m, if m.free p then [.timeRun x none] else [.timeAdd x p])
  | .timeAdd x p, .go => some (m.addListener p, [.timeRun x (some p)])
  | .timeRun x h, .go =>
    if m.rest x .park then some (m.take x .park, .takeDown x :: stopSeries h)
    else some (m, .unpark x :: .letGo x :: stopSeries h)
  | .timeRun x h, .no => if m.rest x .park then none else some (m, dropSeries h)
  | _, _ => none

/-- What is begun from outside: by a user, by a worker that looks for work, or by an event of
the manager's queue. -/
def call (m : Mem) : Act → Option (Mem × List Job)
  | .spawn k => if k.publishes = none then some (m, [.alloc k]) else none
  | .clone x => m.useHandle x [.cloneLook x]
  | .drop x => m.useHandle x [.look x .abandon, .look x .drop]
  | .cancel x => m.useHandle x [.look x .stop, .back x]
  | .give x => m.useHandle x [.look x .give, .back x]
  | .pick x => if m.rest x .pool then some (m.take x .pool, [.look x .run]) else none
  | .tick x => if m.rest x .clock then some (m.take x .clock, [.look x .tick]) else none
  | .fire x => some (m, [.look x .fire])
  | .wake x => some (m, [.look x .wake])
  | .timeout x word => some (m, [.look x (.timedOut word)])
  | _ => none

/-- One job is done; what it leaves to do comes before the rest. -/
def jobStep (m : Mem) (j : Job) (c : Act) : Option (Mem × List Job) :=
  (lifeStep m j c).or ((runStep m j c).or (seriesStep m j c))

/-- A thread goes on with its jobs, or begins something in the middle of them: a task's own code
spawns and waits, and the drop of a value drops the handles in it. -/
def machine : Machine Mem (List Job) Act where
  next m l c :=
    match call m c, l with
    | some (m', js), l => some (m', js ++ l)
    | none, j :: l => (jobStep m j c).map fun r => (r.1, r.2 ++ l)
    | none, [] => none

end Atap.Claims
