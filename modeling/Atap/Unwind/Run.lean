import Atap.Slot.State
import Mathlib.Logic.Function.Basic

/-!
# One run, and the runs inside it

`executor::run` takes a task out of its slot, runs its program, and puts it back, settles it or
drops it. The program may wait for other tasks, and a worker that waits runs queued tasks itself,
by `run` again (`run_nested`): a call of `run` is a **tree**. Program code is called in four places,
and may panic in each:

* when the output of the run before is dropped (`recycle`, inside `begin`);
* in the task itself, while it prepares, executes or steps: **the only one inside `catch_unwind`**;
* when the task is dropped;
* when the last output is dropped with the slot (`destroy`, inside `release`).

`runTask` and `runBody` evaluate such a tree on what the thread and the slots hold. What the program
code does is part of the tree: `Panics` says which drops panic, and a `Body` lists what happens
while the task runs, which is also what other threads do meanwhile, and ends in a `Fate`. Other
threads do what they like with every slot but those of the tasks that this thread is in, which they
can only stop, or hold and let go.

Left out are the receivers an output is forwarded to, whose deliveries have an unwind boundary of
their own, the timers of a run, and the deaths the fault injection asks for.
-/

namespace Atap.Unwind

/-- What a slot holds of a task. -/
structure Slot where
  state : TaskState
  /-- `TaskKind::repeats`. -/
  repeats : Bool
  /-- `takes_input`. -/
  input : Bool
  /-- The task is in its slot, and not with a thread. -/
  task : Bool
  /-- The payload holds an output. -/
  filled : Bool
  handles : ℕ
  /-- The reference of the executor was given back. -/
  released : Bool
  deriving DecidableEq

/-- The slots, and what a worker thread keeps of the runs it is in. -/
structure Mem where
  slots : ℕ → Slot
  /-- `CURRENT`. -/
  current : Option ℕ
  /-- `DEPTH`. -/
  depth : ℕ
  /-- The notes of the worker, by depth. -/
  nested : ℕ → Option ℕ

def Mem.set (m : Mem) (id : ℕ) (s : Slot) : Mem := { m with slots := Function.update m.slots id s }

/-- Which drops of a task's own values panic. -/
structure Panics where
  /-- The output of the run before. -/
  output : Bool
  /-- The task. -/
  task : Bool
  /-- The output that goes with the slot. -/
  last : Bool
  deriving DecidableEq

/-- `AfterRun`. -/
inductive AfterRun
  | wait
  | again
  | finish
  deriving DecidableEq

/-- What a run is told by the rest of the executor. -/
structure Answers where
  /-- `watch_park`. -/
  watched : Bool
  /-- `count_run`, or `past_deadline`. -/
  isOver : Bool
  /-- The pool, or the kernel, takes the task for its next run. -/
  armed : Bool
  /-- `Gate::after_run`. -/
  after : AfterRun
  deriving DecidableEq

/-- How a call ends. -/
inductive Exit
  | returned
  | unwound
  deriving DecidableEq

/-- How a task ends, inside `catch_unwind`. -/
inductive Fate
  | done
  | parked
  | panicked
  deriving DecidableEq

/-- What stops a task from outside. -/
inductive Stop
  | cancelled
  | timedOut
  | failed
  deriving DecidableEq

def Stop.state : Stop → TaskState
  | .cancelled => .cancelled
  | .timedOut => .timedOut
  | .failed => .failed

mutual

/-- A call of `run`, with what the program of the task does. -/
inductive Run
  | call (id : ℕ) (p : Panics) (a : Answers) (body : Body)

/-- What happens while a task runs. -/
inductive Body
  | finish (fate : Fate)
  /-- The task waits, and the worker has a task to run meanwhile. -/
  | help (r : Run) (rest : Body)
  /-- A task is stopped. -/
  | stop (j : ℕ) (dest : Stop) (rest : Body)
  /-- Handles of a task come and go, and the executor's reference keeps the slot. -/
  | handles (j : ℕ) (n : ℕ) (rest : Body)
  /-- Anything happens to a task this thread is not in. -/
  | other (j : ℕ) (f : Slot → Slot) (rest : Body)

end

def Run.id : Run → ℕ
  | .call id _ _ _ => id

/-! ### What `run` does to the slot -/

/-- `destroy`, once nobody holds the slot. -/
def destroy (p : Panics) (s : Slot) : Exit × Slot :=
  if s.task = true ∧ p.task = true then (.unwound, { s with task := false })
  else if s.filled = true ∧ p.last = true then (.unwound, { s with task := false })
  else (.returned, { s with task := false, filled := false, state := .free })

def release (p : Panics) (s : Slot) : Exit × Slot :=
  if s.released then (.returned, s)
  else if s.handles = 0 then destroy p { s with released := true }
  else (.returned, { s with released := true })

/-- The task is dropped and the reference given back. -/
def dropTask (p : Panics) (s : Slot) : Exit × Slot :=
  if p.task then (.unwound, s) else release p s

/-- `try_state(Running, Failed)`. -/
def failRunning (s : Slot) : Slot :=
  if s.state = .running then { s with state := .failed } else s

/-- The outcome of `claim` and `begin`. -/
inductive Entered
  /-- There is nothing to run. -/
  | nothing
  /-- The run is over before it began. -/
  | left (e : Exit) (s : Slot)
  | begun (s : Slot)

/-- `recycle`, after the move into `Running`. -/
def recycle (p : Panics) (s : Slot) : Entered :=
  if s.filled = true ∧ p.output = true then .left .unwound { s with filled := false }
  else .begun { s with filled := false }

/-- `claim`, `begin`, and the drop of a task that is turned away. -/
def enter (p : Panics) (s : Slot) : Entered :=
  if s.state = .free ∨ s.task = false then .nothing
  else
    let s := { s with task := false }
    match s.state with
    | .pending => .begun { s with state := .running }
    -- back from a park
    | .running => .begun s
    | .ready | .taken =>
      if s.repeats = true ∨ s.input = true then recycle p { s with state := .running }
      else .left (dropTask p s).1 (dropTask p s).2
    | _ => .left (dropTask p s).1 (dropTask p s).2

def finishWaiting (p : Panics) (s : Slot) : Exit × Slot :=
  let s := { s with task := false }
  if p.task then (.unwound, s) else release p { s with repeats := false }

def rewait (p : Panics) (a : Answers) (s : Slot) : Exit × Slot :=
  let s := { s with task := true }
  match a.after with
  | .wait => (.returned, s)
  | .again => if a.armed then (.returned, s) else finishWaiting p { s with state := .failed }
  | .finish => finishWaiting p s

def parkTask (p : Panics) (a : Answers) (s : Slot) : Exit × Slot :=
  if a.watched = true ∧ s.state = .running then (.returned, { s with task := true })
  else if p.task then (.unwound, s)
  else release p (failRunning s)

/-- A run that finished: its output is published, and the task goes round again, back to wait for
its next give, or is over. -/
def publish (p : Panics) (a : Answers) (s : Slot) : Exit × Slot :=
  if s.state ≠ .running then dropTask p { s with filled := true }
  else
    let s := { s with filled := true, state := .ready }
    if s.repeats = false then if s.input then rewait p a s else dropTask p s
    else if a.isOver then
      if s.input then rewait p a s else dropTask p { s with repeats := false }
    else if a.armed then (.returned, { s with task := true })
    else release p { s with task := true, state := .failed }

/-- What `run` does once the task is out of `catch_unwind`. -/
def conclude (p : Panics) (a : Answers) (s : Slot) : Fate → Exit × Slot
  | .done => publish p a s
  | .parked => parkTask p a s
  | .panicked => if p.task then (.unwound, s) else release p (failRunning s)

/-! ### The tree -/

/-- A task is stopped, unless it is over already. -/
def Mem.stop (m : Mem) (j : ℕ) (dest : Stop) : Mem :=
  if (m.slots j).state.isOver then m else m.set j { m.slots j with state := dest.state }

/-- The handles of a task that the executor still refers to. -/
def Mem.setHandles (m : Mem) (j n : ℕ) : Mem :=
  if (m.slots j).released then m else m.set j { m.slots j with handles := n }

/-- `run_nested`, before the run. -/
def Mem.descend (m : Mem) (id : ℕ) : Mem :=
  { m with nested := Function.update m.nested m.depth (some id), depth := m.depth + 1 }

/-- `run_nested`, once the run has returned. -/
def Mem.ascend (m : Mem) (depth : ℕ) : Mem :=
  { m with nested := Function.update m.nested depth none, depth := depth }

variable (limit : ℕ)

mutual

/-- `run`, on a thread that is inside the runs of `stack`. -/
def runTask : Run → List ℕ → Mem → Exit × Mem
  | .call id p a body, stack, m =>
    match enter p (m.slots id) with
    | .nothing => (.returned, m)
    | .left e s => (e, m.set id s)
    | .begun s =>
      let r := runBody body (id :: stack) { m.set id s with current := some id }
      let q := conclude p a (r.2.slots id) r.1
      (q.1, { r.2.set id q.2 with current := m.current })

/-- What happens while the first task of the stack runs. -/
def runBody : Body → List ℕ → Mem → Fate × Mem
  | .finish fate, _, m => (fate, m)
  | .stop j dest rest, stack, m => runBody rest stack (m.stop j dest)
  | .handles j n rest, stack, m => runBody rest stack (m.setHandles j n)
  | .other j f rest, stack, m =>
    runBody rest stack (if j ∈ stack then m else m.set j (f (m.slots j)))
  | .help r rest, stack, m =>
    -- too deep to help
    if limit ≤ m.depth then runBody rest stack m
    else
      match runTask r stack (m.descend r.id) with
      | (.returned, m') => runBody rest stack (m'.ascend m.depth)
      -- a panic that gets out of `run` goes on through the task that waits
      | (.unwound, m') => (.panicked, m')

end

end Atap.Unwind
