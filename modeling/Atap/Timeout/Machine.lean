import Atap.Interleave.Machine
import Atap.Slot.State

/-!
# The timeout of a run

A task with a timeout has its clock started at the beginning of each run: the deadline is stored
in the slot as a word, and a timer that carries the word is put on the manager's queue. When the
timer fires, the manager compares the word it carries with the one in the slot, and ends the run.
This module is one slot, through all its runs and all the tasks it is given to, as a machine:
every atomic operation on its words is one step.

The programs, by function:

* a **run**: `run` with `begin`, `time_run` and `arm_timeout`, a wait in the kernel between
  `waiting_on` and `stopped_waiting`, `park_task`, `untime_run`, and the move to `Ready` or
  `Failed`; a run whose thread dies ends in `fail`;
* the **manager**: `timed_out` with `stopped`, `interrupt`, `unpark` and `take_down`,
  `wake_parked`, and a restarted manager that arms the timer again;
* a **cancel**: `stop` with `stopped`.

When timers fire, what runs do and when they end are left to the schedule of the machine. So is
when the slot is given to another task, once nothing of the last one is under way. The series a
run belongs to is another slot and is not here.

`run` and `log` are a history: the word of the run under way, and for every time the manager
ended or interrupted a run, the word its timer carried with the word of that run. No step reads
them.
-/

namespace Atap.Timeout

/-- `TaskData::waiting`: the record of a wait in the kernel. -/
inductive Wait
  | no
  /-- A thread waits, and can be woken. -/
  | on
  /-- A cancel or a timeout is waking it. -/
  | claimed
  deriving DecidableEq

/-- A slot, and the timer of its run. -/
structure Mem where
  /-- `TaskData::state`. -/
  state : TaskState
  /-- The task runs again after a run: it repeats, or waits for gives. -/
  again : Bool
  /-- `TaskData::run_deadline`. -/
  deadline : ℕ
  /-- The timer on the manager's queue, by the word it carries. -/
  timer : Option ℕ
  /-- `TaskData::parked`. -/
  parked : Bool
  /-- A parked run was woken and is in a queue. -/
  woken : Bool
  /-- `TaskData::waiting`. -/
  waiting : Wait
  /-- The word of the run under way, `0` before its clock is started. -/
  run : Option ℕ
  /-- What the manager did for a timer: the word it carried, and that of the run. -/
  log : List (ℕ × Option ℕ)
  deriving DecidableEq

/-- Where a thread stands in the code. -/
inductive Pc
  | idle
  /-- `run`, before `time_run`. -/
  | time
  /-- `run`, before `arm_timeout`. -/
  | arm (w : ℕ)
  /-- The run itself. -/
  | running
  /-- The run, in a wait in the kernel. -/
  | inWait
  /-- `park_task`, before the look at the state. -/
  | parkLook
  /-- `run`, before `untime_run`. -/
  | untime (ok : Bool)
  /-- `untime_run`, before the timer is taken off the queue. -/
  | unarm (ok : Bool)
  /-- `run`, before the move to `Ready` or `Failed`. -/
  | settle (ok : Bool)
  /-- The thread of the run has died, before `fail`. -/
  | dead
  /-- A restarted manager, before it arms this timer again. -/
  | rearm (w : ℕ)
  /-- `timed_out`, before the look at the word. -/
  | check (w : ℕ)
  /-- `timed_out`, before `claim_parked`. -/
  | claimPark (w : ℕ)
  /-- `timed_out`, with the parked task dropped and before the move. -/
  | downMove (w : ℕ)
  /-- `timed_out`, before the move. -/
  | move (w : ℕ)
  /-- `interrupt`, before `claim_waiting`; `none` is a cancel. -/
  | interrupt (w : Option ℕ)
  /-- `interrupt`, before `release_waiting`. -/
  | interrupted (w : Option ℕ)
  | unpark (w : Option ℕ)
  | takeDown
  /-- `stop`, before the load of the state. -/
  | stopLook
  /-- `stop`, before the exchange. -/
  | stopMove (saw : TaskState)
  deriving DecidableEq

inductive Act
  | go
  /-- A worker takes the task up. -/
  | begin
  /-- The clock of the run is started, with this word; the task of an untimed run has none. -/
  | clock (w : ℕ)
  | wait
  | park
  /-- The run ends, in an output or in a panic. -/
  | finish (ok : Bool)
  /-- The thread of the run dies. -/
  | die
  /-- A worker takes up a run that was parked. -/
  | resume
  /-- What a park was watching happens. -/
  | wake
  /-- A queue or the kernel turns down what it is handed. -/
  | refuse
  /-- The timer fires. -/
  | fire
  /-- The manager is restarted. -/
  | restart
  | take
  | cancel
  /-- The slot is freed, and given to another task. -/
  | reuse (again : Bool)
  deriving DecidableEq

/-- `begin`: the states a run can start from. -/
def Mem.begins (m : Mem) : Bool := m.state.begins m.again

/-- The steps of a run. -/
def runStep (m : Mem) : Pc → Act → Option (Mem × Pc)
  | .idle, .begin => if m.begins then some ({ m with state := .running, run := some 0 }, .time)
    else none
  | .time, .clock w =>
    some (if w = 0 then (m, .running) else ({ m with deadline := w, run := some w }, .arm w))
  | .arm w, .go => some ({ m with timer := some w }, .running)
  | .arm _, .refuse => some (m, .running)
  | .running, .wait => some ({ m with waiting := .on }, .inWait)
  -- `clear_waiting` waits for whoever is waking the thread.
  | .inWait, .go =>
    if m.waiting = .claimed then none else some ({ m with waiting := .no }, .running)
  | .running, .park => some ({ m with parked := true }, .parkLook)
  | .parkLook, .go => some (m, if m.state = .running then .idle else .unpark none)
  | .parkLook, .refuse => some (m, .unpark none)
  | .idle, .resume =>
    if m.woken then
      if m.state = .running then some ({ m with woken := false }, .running)
      else some ({ m with woken := false, run := none }, .idle)
    else none
  | .running, .finish ok => some (m, .untime ok)
  | .untime ok, .go =>
    some ({ m with deadline := 0 }, if m.deadline = 0 then .settle ok else .unarm ok)
  | .unarm ok, .go => some ({ m with timer := none }, .settle ok)
  | .settle ok, .go => some ({ m with
      state := if m.state = .running then (if ok then .ready else .failed) else m.state
      run := none }, .idle)
  | .running, .die => some (m, .dead)
  | .dead, .go => some ({ m with
      state := m.state.fail
      run := none }, .idle)
  | _, _ => none

/-- The steps of the manager. -/
def managerStep (m : Mem) : Pc → Act → Option (Mem × Pc)
  | .idle, .fire => m.timer.map fun w => ({ m with timer := none }, .check w)
  | .idle, .restart => some (m, if m.deadline = 0 then .idle else .rearm m.deadline)
  | .rearm w, .go => some ({ m with timer := some w }, .idle)
  | .idle, .wake => if m.parked then some ({ m with parked := false, woken := true }, .idle)
    else none
  -- The pool turns the woken task down.
  | .idle, .refuse => if m.parked then some ({ m with parked := false }, .takeDown) else none
  | .check w, .go => some (m, if w = 0 ∨ m.deadline ≠ w then .idle else .claimPark w)
  | .claimPark w, .go =>
    if m.parked then some ({ m with parked := false, log := (w, m.run) :: m.log }, .downMove w)
    else some (m, .move w)
  | .downMove w, .go => some ({ m with
      state := if m.state = .running then .timedOut else m.state
      log := if m.state = .running then (w, m.run) :: m.log else m.log
      run := none }, .idle)
  | .move w, .go =>
    if m.state = .running then
      some ({ m with state := .timedOut, log := (w, m.run) :: m.log }, .interrupt (some w))
    else some (m, .idle)
  | _, _ => none

/-- The steps of a cancel, of what a cancel and a timeout do to a stopped task, and of whoever
takes an output or gives the slot to another task. -/
def stopStep (m : Mem) : Pc → Act → Option (Mem × Pc)
  | .idle, .cancel => some (m, .stopLook)
  | .stopLook, .go =>
    some (m, if m.state.stopReturns m.again then .idle else .stopMove m.state)
  | .stopMove saw, .go =>
    if m.state = saw then some ({ m with state := .cancelled }, .interrupt none)
    else some (m, .stopLook)
  | .interrupt o, .go =>
    if m.waiting = .on then some ({ m with
      waiting := .claimed
      log := o.elim m.log fun w => (w, m.run) :: m.log }, .interrupted o)
    else some (m, .unpark o)
  | .interrupted o, .go => some ({ m with waiting := .no }, .unpark o)
  | .unpark o, .go =>
    if m.parked then some ({ m with
      parked := false
      log := o.elim m.log fun w => (w, m.run) :: m.log }, .takeDown)
    else some (m, .idle)
  | .takeDown, .go => some ({ m with
      state := if m.state = .running then .failed else m.state
      run := none }, .idle)
  | .idle, .take => if m.state = .ready then some ({ m with state := .taken }, .idle) else none
  | .idle, .reuse b =>
    if m.run = none ∧ m.state.terminal then
      some ({ m with state := .pending, again := b, deadline := 0 }, .idle)
    else none
  | _, _ => none

/-- One step of one thread. -/
def next (m : Mem) (pc : Pc) (a : Act) : Option (Mem × Pc) :=
  (runStep m pc a).or ((managerStep m pc a).or (stopStep m pc a))

/-- A slot and its timer as a machine. -/
def machine : Machine Mem Pc Act := ⟨next⟩

/-- A slot just given to a task that has not begun. -/
structure Fresh {T : Type*} (s : Config T Mem Pc) : Prop where
  state : s.mem.state = .pending
  deadline : s.mem.deadline = 0
  parked : s.mem.parked = false
  woken : s.mem.woken = false
  waiting : s.mem.waiting = .no
  run : s.mem.run = none
  log : s.mem.log = []
  loc : ∀ t, s.loc t = .idle

/-! ### What a step can do -/

/-- One step of one thread, case by case. -/
inductive Step (m : Mem) : Pc → Act → Mem → Pc → Prop
  | begin (h : m.begins = true) :
      Step m .idle .begin { m with state := .running, run := some 0 } .time
  | untimed : Step m .time (.clock 0) m .running
  | clock {w : ℕ} (h : w ≠ 0) :
      Step m .time (.clock w) { m with deadline := w, run := some w } (.arm w)
  | arm (w : ℕ) : Step m (.arm w) .go { m with timer := some w } .running
  | armRefused (w : ℕ) : Step m (.arm w) .refuse m .running
  | wait : Step m .running .wait { m with waiting := .on } .inWait
  | waited (h : m.waiting ≠ .claimed) : Step m .inWait .go { m with waiting := .no } .running
  | park : Step m .running .park { m with parked := true } .parkLook
  | parked (h : m.state = .running) : Step m .parkLook .go m .idle
  | parkStopped (h : m.state ≠ .running) : Step m .parkLook .go m (.unpark none)
  | parkRefused : Step m .parkLook .refuse m (.unpark none)
  | resume (hw : m.woken = true) (h : m.state = .running) :
      Step m .idle .resume { m with woken := false } .running
  | resumeStopped (hw : m.woken = true) (h : m.state ≠ .running) :
      Step m .idle .resume { m with woken := false, run := none } .idle
  | finish (ok : Bool) : Step m .running (.finish ok) m (.untime ok)
  | untimeNone (ok : Bool) (h : m.deadline = 0) :
      Step m (.untime ok) .go { m with deadline := 0 } (.settle ok)
  | untime (ok : Bool) (h : m.deadline ≠ 0) :
      Step m (.untime ok) .go { m with deadline := 0 } (.unarm ok)
  | unarm (ok : Bool) : Step m (.unarm ok) .go { m with timer := none } (.settle ok)
  | settle (ok : Bool) : Step m (.settle ok) .go { m with
      state := if m.state = .running then (if ok then .ready else .failed) else m.state
      run := none } .idle
  | die : Step m .running .die m .dead
  | dead : Step m .dead .go { m with
      state := m.state.fail
      run := none } .idle
  | fire {w : ℕ} (h : m.timer = some w) : Step m .idle .fire { m with timer := none } (.check w)
  | restart (h : m.deadline ≠ 0) : Step m .idle .restart m (.rearm m.deadline)
  | restartNone (h : m.deadline = 0) : Step m .idle .restart m .idle
  | rearm (w : ℕ) : Step m (.rearm w) .go { m with timer := some w } .idle
  | wake (h : m.parked = true) :
      Step m .idle .wake { m with parked := false, woken := true } .idle
  | wakeRefused (h : m.parked = true) :
      Step m .idle .refuse { m with parked := false } .takeDown
  | checkOther (w : ℕ) (h : w = 0 ∨ m.deadline ≠ w) : Step m (.check w) .go m .idle
  | check {w : ℕ} (h0 : w ≠ 0) (h : m.deadline = w) : Step m (.check w) .go m (.claimPark w)
  | claimPark (w : ℕ) (h : m.parked = true) : Step m (.claimPark w) .go
      { m with parked := false, log := (w, m.run) :: m.log } (.downMove w)
  | claimNone (w : ℕ) (h : m.parked = false) : Step m (.claimPark w) .go m (.move w)
  | downMove (w : ℕ) : Step m (.downMove w) .go { m with
      state := if m.state = .running then .timedOut else m.state
      log := if m.state = .running then (w, m.run) :: m.log else m.log
      run := none } .idle
  | move (w : ℕ) (h : m.state = .running) : Step m (.move w) .go
      { m with state := .timedOut, log := (w, m.run) :: m.log } (.interrupt (some w))
  | moveLost (w : ℕ) (h : m.state ≠ .running) : Step m (.move w) .go m .idle
  | cancel : Step m .idle .cancel m .stopLook
  | stopOver : Step m .stopLook .go m .idle
  | stopLook (h : m.state.isOver = false) : Step m .stopLook .go m (.stopMove m.state)
  | stopMove {saw : TaskState} (h : m.state = saw) :
      Step m (.stopMove saw) .go { m with state := .cancelled } (.interrupt none)
  | stopLost {saw : TaskState} (h : m.state ≠ saw) : Step m (.stopMove saw) .go m .stopLook
  | interrupt (o : Option ℕ) (h : m.waiting = .on) : Step m (.interrupt o) .go { m with
      waiting := .claimed
      log := o.elim m.log fun w => (w, m.run) :: m.log } (.interrupted o)
  | interruptNone (o : Option ℕ) (h : m.waiting ≠ .on) : Step m (.interrupt o) .go m (.unpark o)
  | interrupted (o : Option ℕ) :
      Step m (.interrupted o) .go { m with waiting := .no } (.unpark o)
  | unpark (o : Option ℕ) (h : m.parked = true) : Step m (.unpark o) .go { m with
      parked := false
      log := o.elim m.log fun w => (w, m.run) :: m.log } .takeDown
  | unparkNone (o : Option ℕ) (h : m.parked = false) : Step m (.unpark o) .go m .idle
  | takeDown : Step m .takeDown .go { m with
      state := if m.state = .running then .failed else m.state
      run := none } .idle
  | take (h : m.state = .ready) : Step m .idle .take { m with state := .taken } .idle
  | reuse (b : Bool) (hr : m.run = none) (h : m.state.terminal = true) :
      Step m .idle (.reuse b) { m with state := .pending, again := b, deadline := 0 } .idle

variable {m m' : Mem} {pc pc' : Pc} {a : Act}

theorem runStep_step (h : runStep m pc a = some (m', pc')) : Step m pc a m' pc' := by
  unfold runStep at h
  split at h
  case h_2 w =>
    split at h
    case isTrue hw =>
      subst hw
      exact yield h .untimed
    case isFalse hw => exact yield h (.clock hw)
  case h_10 =>
    obtain ⟨hw, h⟩ := Option.ite_none_right_eq_some.mp h
    exact yield_ite h (.resume hw) (.resumeStopped hw)
  case h_17 => cases h
  case h_1 => exact yield_guard h .begin
  case h_6 => exact yield_unless h .waited
  case h_8 => exact yield_snd h .parked .parkStopped
  case h_12 ok =>
    cases h
    split
    · exact .untimeNone ok ‹_›
    · exact .untime ok ‹_›
  case h_3 | h_4 | h_5 | h_7 | h_9 | h_11 | h_13 | h_14 | h_15 | h_16 =>
    cases h
    constructor

theorem managerStep_step (h : managerStep m pc a = some (m', pc')) : Step m pc a m' pc' := by
  unfold managerStep at h
  split at h
  case h_1 =>
    obtain ⟨w, hw, heq⟩ := Option.map_eq_some_iff.mp h
    obtain ⟨rfl, rfl⟩ := Prod.mk.inj heq
    exact .fire hw
  case h_2 => exact yield_snd h .restartNone .restart
  case h_4 => exact yield_guard h .wake
  case h_5 => exact yield_guard h .wakeRefused
  case h_6 w =>
    exact yield_snd h (.checkOther w) fun hw => .check (not_or.mp hw).1 (not_ne_iff.mp (not_or.mp
      hw).2)
  case h_7 w => exact yield_ite h (.claimPark w) fun hc => .claimNone w (Bool.eq_false_iff.mpr hc)
  case h_9 w => exact yield_ite h (.move w) (.moveLost w)
  case h_10 => cases h
  case h_3 | h_8 =>
    cases h
    constructor

theorem stopStep_step (h : stopStep m pc a = some (m', pc')) : Step m pc a m' pc' := by
  unfold stopStep at h
  split at h
  case h_2 =>
    exact yield_snd h (fun _ => .stopOver) fun hs =>
      .stopLook (TaskState.isOver_of_not_stopReturns hs)
  case h_3 => exact yield_ite h .stopMove .stopLost
  case h_4 o => exact yield_ite h (.interrupt o) (.interruptNone o)
  case h_6 o => exact yield_ite h (.unpark o) fun hc => .unparkNone o (Bool.eq_false_iff.mpr hc)
  case h_8 => exact yield_guard h .take
  case h_9 b => exact yield_guard h fun hr => .reuse b hr.1 hr.2
  case h_10 => cases h
  case h_1 | h_5 | h_7 =>
    cases h
    constructor

/-- Every step of the machine is one of the cases. -/
theorem next_step (h : machine.next m pc a = some (m', pc')) : Step m pc a m' pc' := by
  rcases Option.or_eq_some_iff.mp h with h | ⟨-, h⟩
  · exact runStep_step h
  · rcases Option.or_eq_some_iff.mp h with h | ⟨-, h⟩
    · exact managerStep_step h
    · exact stopStep_step h

end Atap.Timeout
