import Atap.Interleave.Machine
import Atap.Slot.State
import Mathlib.Logic.Function.Basic

/-!
# The registrations on a task's outputs

Whatever a task's outputs are forwarded to hangs on the task as a list of registrations. A **walk**
hands the readable output to each of them that has not had it, one walk at a time: a walk that
finds another under way leaves a request (`REWALK`) and goes. A walk takes the whole list off,
looks at each registration under a read of the output, and puts back the ones that stay. This
module is that protocol for one task as a machine: every atomic operation is one step.

The programs, by function:

* `register`: the extras that are attached if there are none, the push, the look at
  `publishes_nothing_more`, and a walk;
* `walk` with its `pass` and `visit`;
* a **run**: `begin` with `recycle`, the output it leaves, `note_output`, the move to `Ready`,
  `forward_output`, and `close_extras` when it was the last; or a panic, which closes first and
  moves the state then;
* the other ends: a task that is turned away after a cancel, and a schedule that has had its runs
  (`finish_series` with `close_finished_series`);
* a listener that takes the output, and a cancel.

The push of a node is one exchange: one that fails only goes round again. Reads by listeners, which
only hold `recycle` up, are not here. A task is open (`more`) while it may publish after the run
under way: while its kind repeats, or its gate is not finished.

`outputs`, `log` and `gone` are a history; no step reads them but `outputs`, which numbers the
outputs.
-/

namespace Atap.Receivers

open Function

/-- A task, and the registrations that hang on it. -/
structure Mem where
  /-- `TaskData::state`. -/
  state : TaskState
  /-- The task may publish after the run under way. -/
  more : Bool
  /-- Extras are attached. -/
  extras : Bool
  /-- `Receivers::head`, the latest registration first. -/
  head : List ℕ
  /-- `LOCKED`. -/
  locked : Bool
  /-- `REWALK`. -/
  rewalk : Bool
  /-- `CLOSED`. -/
  closed : Bool
  /-- `Receivers::generation`. -/
  generation : ℕ
  /-- `TaskData::readers`. -/
  readers : ℕ
  /-- The payload: the number of the output that is there. -/
  payload : ℕ
  /-- `Node::handed`. -/
  handed : ℕ → Option ℕ
  /-- The far end of a registration takes nothing more. -/
  finished : ℕ → Bool
  /-- How many registrations there were. -/
  nodes : ℕ
  /-- How many outputs were published. -/
  outputs : ℕ
  /-- What each registration was handed, the latest first. -/
  log : ℕ → List ℕ
  /-- Which registrations were let go. -/
  gone : ℕ → Bool

/-- Where a walk stands. `c` is `CLOSED` as the pass saw it, `rd` the generation if the output is
readable, and the lists are what a pass has in its hands: what it has yet to look at, and what
stays. -/
inductive Walk
  /-- Before the request. -/
  | ask
  /-- Before the load of the head. -/
  | look
  /-- Before the load of the flags, with the head found empty. -/
  | flags
  /-- Before the lock is taken. -/
  | lock
  /-- Before the request is taken. -/
  | take
  /-- `pass`, before the load of `CLOSED`. -/
  | close
  /-- `pass`, before the list is taken off. -/
  | swap (c : Bool)
  /-- `enter_read`, before the count. -/
  | enter (c : Bool) (todo : List ℕ)
  /-- `enter_read`, before the look at the state. -/
  | check (c : Bool) (todo : List ℕ)
  /-- `enter_read`, before the count is taken back. -/
  | back (c : Bool) (todo : List ℕ)
  /-- `pass`, before the load of the generation. -/
  | count (c : Bool) (todo : List ℕ)
  | visit (c : Bool) (rd : Option ℕ) (todo kept : List ℕ)
  /-- `visit`, before the look at the far end. -/
  | keep (c : Bool) (rd : Option ℕ) (i : ℕ) (todo kept : List ℕ)
  /-- `leave_read`. -/
  | leave (kept : List ℕ)
  /-- Before what stays is put back. -/
  | push (kept : List ℕ)
  /-- Before the lock is let go. -/
  | unlock
  /-- Before the last look at the request. -/
  | recheck
  deriving DecidableEq

/-- What a walk is part of. -/
inductive Caller
  | register
  | forward
  | close
  /-- `close_extras` after a panic. -/
  | panicked
  deriving DecidableEq

/-- Where a thread stands in the code. `panicked` tells the end of a run that panicked. -/
inductive Pc
  | idle
  | walk (r : Caller) (w : Walk)
  /-- `register`, before the push. -/
  | push
  /-- `publishes_nothing_more`, before the load of the state. -/
  | regState
  /-- `publishes_nothing_more`, before the load of the kind, or of the gate. -/
  | regKind
  /-- `register`, before `CLOSED` is set. -/
  | regClose
  /-- `begin`, before the look at the kind. -/
  | beginKind
  /-- `begin`, before the exchange from `Ready`. -/
  | beginReady
  /-- `begin`, before the exchange from `Taken`. -/
  | beginTaken
  | recycle
  /-- The run itself. -/
  | run
  /-- `note_output`, before the load of the extras. -/
  | note
  /-- `note_output`, before the count. -/
  | count
  /-- A run, before the move to `Ready`. -/
  | publish
  /-- `forward_output`, before the load of the extras. -/
  | forward
  /-- A run that has published, before it looks whether it was the last. -/
  | published
  /-- `finish_series`. -/
  | finish
  /-- `close_extras`, before the load of the extras. -/
  | closeLook (panicked : Bool)
  /-- `Receivers::close`, before `CLOSED` is set. -/
  | close (panicked : Bool)
  /-- A run that panicked, before the move to `Failed`. -/
  | fail
  /-- `close_finished_series`, before the load of the state. -/
  | closeFinished
  deriving DecidableEq

inductive Act
  | go
  /-- Somebody registers on the task. -/
  | register
  /-- A run begins. -/
  | begin
  /-- The run panics, or the far end does as it is handed a value. -/
  | panic
  /-- The series has had its runs. -/
  | last
  /-- A queued run finds the task stopped. -/
  | turnAway
  /-- A schedule has had its runs. -/
  | endSeries
  | take
  /-- The task is cancelled, timed out or failed from outside. -/
  | stop (dest : Ending)
  /-- The far end of a registration takes nothing more. -/
  | farEnd (i : ℕ)
  deriving DecidableEq

/-- Where a thread goes once its walk is over. -/
def Caller.after : Caller → Pc
  | register | close => .idle
  | forward => .published
  | panicked => .fail

namespace Mem

/-- A registration has not had the output of generation `g`. -/
def unseen (m : Mem) (g i : ℕ) : Bool :=
  match m.handed i with
  | none => true
  | some h => h < g

/-- The output is handed to a registration. -/
def deliver (m : Mem) (g i : ℕ) : Mem :=
  { m with
    handed := update m.handed i (some g)
    log := update m.log i (m.payload :: m.log i) }

/-- A registration is let go. -/
def drop (m : Mem) (i : ℕ) : Mem := { m with gone := update m.gone i true }

end Mem

/-- A pass is over, with `kept` to be put back. -/
def passOver (kept : List ℕ) : Walk := if kept = [] then .take else .push kept

/-- One step of a walk; `none` for the walk is its return. -/
def walkStep (m : Mem) : Walk → Act → Option (Mem × Option Walk)
  | .ask, .go => some ({ m with rewalk := true }, some .look)
  | .look, .go => some (m, some (if m.head = [] then .flags else .lock))
  | .flags, .go => some (m, if m.locked then some .lock else none)
  | .lock, .go => some ({ m with locked := true }, if m.locked then none else some .take)
  | .take, .go => some ({ m with rewalk := false }, some (if m.rewalk then .close else .unlock))
  | .close, .go => some (m, some (.swap m.closed))
  | .swap c, .go =>
    some ({ m with head := [] }, some (if m.head = [] then .take else .enter c m.head))
  | .enter c l, .go => some ({ m with readers := m.readers + 1 }, some (.check c l))
  | .check c l, .go => some (m, some (if m.state = .ready then .count c l else .back c l))
  | .back c l, .go => some ({ m with readers := m.readers - 1 }, some (.visit c none l []))
  | .count c l, .go => some (m, some (.visit c (some m.generation) l []))
  | .visit _ none [] kept, .go => some (m, some (passOver kept))
  | .visit _ (some _) [] kept, .go => some (m, some (.leave kept))
  | .visit c none (i :: l) kept, .go => some (m, some (.keep c none i l kept))
  | .visit c (some g) (i :: l) kept, .go =>
    some (if m.unseen g i then m.deliver g i else m, some (.keep c (some g) i l kept))
  -- The far end panics as it is handed the value, and the registration goes.
  | .visit c (some g) (i :: l) kept, .panic =>
    if m.unseen g i then some ((m.deliver g i).drop i, some (.visit c (some g) l kept)) else none
  | .keep c rd i l kept, .go =>
    some (if c || m.finished i then m.drop i else m,
      some (.visit c rd l (if c || m.finished i then kept else i :: kept)))
  | .leave kept, .go => some ({ m with readers := m.readers - 1 }, some (passOver kept))
  | .push kept, .go => some ({ m with head := kept ++ m.head }, some .take)
  | .unlock, .go => some ({ m with locked := false }, some .recheck)
  | .recheck, .go => some (m, if m.rewalk then some .lock else none)
  | _, _ => none

/-- The steps of `register` up to its walk. -/
def registerStep (m : Mem) : Pc → Act → Option (Mem × Pc)
  | .idle, .register => some ({ m with extras := true }, .push)
  | .push, .go => some ({ m with head := m.nodes :: m.head, nodes := m.nodes + 1 }, .regState)
  | .regState, .go =>
    match m.state with
    | .pending | .running => some (m, .walk .register .ask)
    | .ready | .taken => some (m, .regKind)
    | _ => some (m, .regClose)
  | .regKind, .go => some (m, if m.more then .walk .register .ask else .regClose)
  | .regClose, .go => some ({ m with closed := true }, .walk .register .ask)
  | _, _ => none

/-- The steps of a run, and of the ends of a task. -/
def runStep (m : Mem) : Pc → Act → Option (Mem × Pc)
  | .idle, .begin =>
    if m.state = .pending then some ({ m with state := .running }, .run) else some (m, .beginKind)
  | .beginKind, .go => some (m, if m.more then .beginReady else .idle)
  | .beginReady, .go =>
    if m.state = .ready then some ({ m with state := .running }, .recycle)
    else some (m, .beginTaken)
  | .beginTaken, .go =>
    if m.state = .taken then some ({ m with state := .running }, .recycle) else some (m, .idle)
  | .recycle, .go => if m.readers = 0 then some (m, .run) else none
  | .run, .go => some ({ m with payload := m.outputs + 1 }, .note)
  | .run, .panic => some (m, .closeLook true)
  | .note, .go => some (m, if m.extras then .count else .publish)
  | .count, .go => some ({ m with generation := m.generation + 1 }, .publish)
  | .publish, .go =>
    if m.state = .running then
      some ({ m with state := .ready, outputs := m.outputs + 1 }, .forward)
    else some (m, .closeLook false)
  | .forward, .go => some (m, if m.extras then .walk .forward .ask else .published)
  | .published, .go => some (m, if m.more then .idle else .closeLook false)
  | .published, .last => if m.more then some (m, .finish) else none
  | .finish, .go => some ({ m with more := false }, .closeLook false)
  | .closeLook p, .go => some (m, if m.extras then .close p else if p then .fail else .idle)
  | .close p, .go =>
    some ({ m with closed := true, rewalk := true },
      .walk (if p then .panicked else .close) .ask)
  | .fail, .go => some ({ m with state := if m.state = .running then .failed else m.state }, .idle)
  | .idle, .turnAway => if m.state.isOver then some (m, .closeLook false) else none
  | .idle, .endSeries => if m.more then some ({ m with more := false }, .closeFinished) else none
  | .closeFinished, .go => some (m, if m.state = .pending then .idle else .closeLook false)
  | _, _ => none

/-- The steps of whoever takes the output, stops the task, or is a far end. -/
def otherStep (m : Mem) : Pc → Act → Option (Mem × Pc)
  | .idle, .take => if m.state = .ready then some ({ m with state := .taken }, .idle) else none
  | .idle, .stop e =>
    if m.state.stopReturns m.more then none
    else some ({ m with state := e.state }, .idle)
  | .idle, .farEnd i => some ({ m with finished := update m.finished i true }, .idle)
  | _, _ => none

/-- One step of one thread. -/
def next (m : Mem) (pc : Pc) (a : Act) : Option (Mem × Pc) :=
  match pc with
  | .walk r w => (walkStep m w a).map fun x => (x.1, x.2.elim r.after (.walk r))
  | _ => (registerStep m pc a).or ((runStep m pc a).or (otherStep m pc a))

/-- A task and its registrations as a machine. -/
def machine : Machine Mem Pc Act := ⟨next⟩

/-- A task just spawned, that nobody has registered on. -/
structure Fresh {T : Type*} (s : Config T Mem Pc) : Prop where
  state : s.mem.state = .pending
  head : s.mem.head = []
  locked : s.mem.locked = false
  rewalk : s.mem.rewalk = false
  closed : s.mem.closed = false
  readers : s.mem.readers = 0
  handed : ∀ i, s.mem.handed i = none
  nodes : s.mem.nodes = 0
  outputs : s.mem.outputs = 0
  log : ∀ i, s.mem.log i = []
  gone : ∀ i, s.mem.gone i = false
  loc : ∀ t, s.loc t = .idle

/-! ### What a step can do -/

/-- One step of a walk, case by case. -/
inductive WalkStep (m : Mem) : Walk → Act → Mem → Option Walk → Prop
  | ask : WalkStep m .ask .go { m with rewalk := true } (some .look)
  | lookNone (h : m.head = []) : WalkStep m .look .go m (some .flags)
  | look (h : m.head ≠ []) : WalkStep m .look .go m (some .lock)
  | flagsLocked (h : m.locked = true) : WalkStep m .flags .go m (some .lock)
  | flags (h : m.locked = false) : WalkStep m .flags .go m none
  | lockHeld (h : m.locked = true) : WalkStep m .lock .go m none
  | lock (h : m.locked = false) : WalkStep m .lock .go { m with locked := true } (some .take)
  | take (h : m.rewalk = true) : WalkStep m .take .go { m with rewalk := false } (some .close)
  | takeNone (h : m.rewalk = false) : WalkStep m .take .go m (some .unlock)
  | close : WalkStep m .close .go m (some (.swap m.closed))
  | swapNone (c : Bool) (h : m.head = []) : WalkStep m (.swap c) .go m (some .take)
  | swap (c : Bool) (h : m.head ≠ []) :
      WalkStep m (.swap c) .go { m with head := [] } (some (.enter c m.head))
  | enter (c : Bool) (l : List ℕ) :
      WalkStep m (.enter c l) .go { m with readers := m.readers + 1 } (some (.check c l))
  | check (c : Bool) (l : List ℕ) (h : m.state = .ready) :
      WalkStep m (.check c l) .go m (some (.count c l))
  | checkLost (c : Bool) (l : List ℕ) (h : m.state ≠ .ready) :
      WalkStep m (.check c l) .go m (some (.back c l))
  | back (c : Bool) (l : List ℕ) :
      WalkStep m (.back c l) .go { m with readers := m.readers - 1 } (some (.visit c none l []))
  | count (c : Bool) (l : List ℕ) :
      WalkStep m (.count c l) .go m (some (.visit c (some m.generation) l []))
  | blindOver (c : Bool) (kept : List ℕ) :
      WalkStep m (.visit c none [] kept) .go m (some (passOver kept))
  | visitOver (c : Bool) (g : ℕ) (kept : List ℕ) :
      WalkStep m (.visit c (some g) [] kept) .go m (some (.leave kept))
  | blind (c : Bool) (i : ℕ) (l kept : List ℕ) :
      WalkStep m (.visit c none (i :: l) kept) .go m (some (.keep c none i l kept))
  | visit (c : Bool) (g i : ℕ) (l kept : List ℕ) (h : m.unseen g i = true) :
      WalkStep m (.visit c (some g) (i :: l) kept) .go (m.deliver g i)
        (some (.keep c (some g) i l kept))
  | visitSeen (c : Bool) (g i : ℕ) (l kept : List ℕ) (h : m.unseen g i = false) :
      WalkStep m (.visit c (some g) (i :: l) kept) .go m (some (.keep c (some g) i l kept))
  | visitPanic (c : Bool) (g i : ℕ) (l kept : List ℕ) (h : m.unseen g i = true) :
      WalkStep m (.visit c (some g) (i :: l) kept) .panic ((m.deliver g i).drop i)
        (some (.visit c (some g) l kept))
  | letGo (c : Bool) (rd : Option ℕ) (i : ℕ) (l kept : List ℕ)
      (h : c = true ∨ m.finished i = true) :
      WalkStep m (.keep c rd i l kept) .go (m.drop i) (some (.visit c rd l kept))
  | keep (rd : Option ℕ) (i : ℕ) (l kept : List ℕ) (h : m.finished i = false) :
      WalkStep m (.keep false rd i l kept) .go m (some (.visit false rd l (i :: kept)))
  | leave (kept : List ℕ) :
      WalkStep m (.leave kept) .go { m with readers := m.readers - 1 } (some (passOver kept))
  | push (kept : List ℕ) :
      WalkStep m (.push kept) .go { m with head := kept ++ m.head } (some .take)
  | unlock : WalkStep m .unlock .go { m with locked := false } (some .recheck)
  | recheckAsked (h : m.rewalk = true) : WalkStep m .recheck .go m (some .lock)
  | recheck (h : m.rewalk = false) : WalkStep m .recheck .go m none

/-- One step of one thread, case by case. -/
inductive Step (m : Mem) : Pc → Act → Mem → Pc → Prop
  | walk (r : Caller) {w w' : Walk} {a : Act} {m' : Mem} (h : WalkStep m w a m' (some w')) :
      Step m (.walk r w) a m' (.walk r w')
  | walked (r : Caller) {w : Walk} {a : Act} {m' : Mem} (h : WalkStep m w a m' none) :
      Step m (.walk r w) a m' r.after
  | register : Step m .idle .register { m with extras := true } .push
  | push : Step m .push .go
      { m with head := m.nodes :: m.head, nodes := m.nodes + 1 } .regState
  | regEarly (h : m.state = .pending ∨ m.state = .running) :
      Step m .regState .go m (.walk .register .ask)
  | regState (h : m.state = .ready ∨ m.state = .taken) : Step m .regState .go m .regKind
  | regOver (h : m.state.isOver = true) : Step m .regState .go m .regClose
  | regMore (h : m.more = true) : Step m .regKind .go m (.walk .register .ask)
  | regKind (h : m.more = false) : Step m .regKind .go m .regClose
  | regClose : Step m .regClose .go { m with closed := true } (.walk .register .ask)
  | begin (h : m.state = .pending) : Step m .idle .begin { m with state := .running } .run
  | beginLater (h : m.state ≠ .pending) : Step m .idle .begin m .beginKind
  | beginKind (h : m.more = true) : Step m .beginKind .go m .beginReady
  | beginNone (h : m.more = false) : Step m .beginKind .go m .idle
  | beginReady (h : m.state = .ready) :
      Step m .beginReady .go { m with state := .running } .recycle
  | beginLost (h : m.state ≠ .ready) : Step m .beginReady .go m .beginTaken
  | beginTaken (h : m.state = .taken) :
      Step m .beginTaken .go { m with state := .running } .recycle
  | beginOver (h : m.state ≠ .taken) : Step m .beginTaken .go m .idle
  | recycle (h : m.readers = 0) : Step m .recycle .go m .run
  | run : Step m .run .go { m with payload := m.outputs + 1 } .note
  | panic : Step m .run .panic m (.closeLook true)
  | note (h : m.extras = true) : Step m .note .go m .count
  | noteNone (h : m.extras = false) : Step m .note .go m .publish
  | count : Step m .count .go { m with generation := m.generation + 1 } .publish
  | publish (h : m.state = .running) :
      Step m .publish .go { m with state := .ready, outputs := m.outputs + 1 } .forward
  | publishLost (h : m.state ≠ .running) : Step m .publish .go m (.closeLook false)
  | forward (h : m.extras = true) : Step m .forward .go m (.walk .forward .ask)
  | forwardNone (h : m.extras = false) : Step m .forward .go m .published
  | again (h : m.more = true) : Step m .published .go m .idle
  | isOver (h : m.more = false) : Step m .published .go m (.closeLook false)
  | last (h : m.more = true) : Step m .published .last m .finish
  | finish : Step m .finish .go { m with more := false } (.closeLook false)
  | closeLook (p : Bool) (h : m.extras = true) : Step m (.closeLook p) .go m (.close p)
  | closeNone (h : m.extras = false) : Step m (.closeLook false) .go m .idle
  | panicNone (h : m.extras = false) : Step m (.closeLook true) .go m .fail
  | close : Step m (.close false) .go
      { m with closed := true, rewalk := true } (.walk .close .ask)
  | panicClose : Step m (.close true) .go
      { m with closed := true, rewalk := true } (.walk .panicked .ask)
  | fail : Step m .fail .go
      { m with state := if m.state = .running then .failed else m.state } .idle
  | turnAway (h : m.state.isOver = true) : Step m .idle .turnAway m (.closeLook false)
  | endSeries (h : m.more = true) :
      Step m .idle .endSeries { m with more := false } .closeFinished
  | closeFinished (h : m.state ≠ .pending) : Step m .closeFinished .go m (.closeLook false)
  | closeLater (h : m.state = .pending) : Step m .closeFinished .go m .idle
  | take (h : m.state = .ready) : Step m .idle .take { m with state := .taken } .idle
  | stop (e : Ending) (h : m.state.isOver = false) :
      Step m .idle (.stop e) { m with state := e.state } .idle
  | farEnd (i : ℕ) : Step m .idle (.farEnd i)
      { m with finished := update m.finished i true } .idle

section Steps

variable {m m' : Mem} {pc pc' : Pc} {w : Walk} {o : Option Walk} {a : Act}

theorem walkStep_step (h : walkStep m w a = some (m', o)) : WalkStep m w a m' o := by
  unfold walkStep at h
  split at h
  case h_16 c g i l kept => exact yield_guard h (.visitPanic c g i l kept)
  case h_22 => cases h
  case h_2 =>
    cases h
    split
    · exact .lookNone ‹_›
    · exact .look ‹_›
  case h_3 => exact yield_snd h .flagsLocked fun hc => .flags (Bool.eq_false_iff.mpr hc)
  case h_4 =>
    cases h
    cases hl : m.locked with
    | false => exact .lock hl
    | true =>
      have : { m with locked := true } = m := by rw [← hl]
      rw [this]
      exact .lockHeld hl
  case h_5 =>
    cases h
    cases hr : m.rewalk with
    | true => exact .take hr
    | false =>
      have : { m with rewalk := false } = m := by rw [← hr]
      rw [this]
      exact .takeNone hr
  case h_7 c =>
    cases h
    split
    case isTrue hh =>
      have : { m with head := [] } = m := by rw [← hh]
      rw [this]
      exact .swapNone c hh
    case isFalse hh => exact .swap c hh
  case h_9 c l =>
    cases h
    split
    · exact .check c l ‹_›
    · exact .checkLost c l ‹_›
  case h_15 c g i l kept =>
    exact yield_fst h (.visit c g i l kept) fun hc => .visitSeen c g i l kept
      (Bool.eq_false_iff.mpr hc)
  case h_17 c rd i l kept =>
    cases h
    by_cases hc : (c || m.finished i) = true
    · rw [if_pos hc, if_pos hc]
      exact .letGo c rd i l kept (Bool.or_eq_true_iff.mp hc)
    · rw [if_neg hc, if_neg hc]
      obtain ⟨rfl, hf⟩ := Bool.or_eq_false_iff.mp (Bool.eq_false_iff.mpr hc)
      exact .keep rd i l kept hf
  case h_1 | h_6 | h_8 | h_10 | h_11 | h_12 | h_13 | h_14 | h_18 | h_19 | h_20 =>
    cases h
    constructor
  case h_21 => exact yield_snd h .recheckAsked fun hc => .recheck (Bool.eq_false_iff.mpr hc)

theorem registerStep_step (h : registerStep m pc a = some (m', pc')) : Step m pc a m' pc' := by
  unfold registerStep at h
  split at h
  case h_3 =>
    split at h
    · exact yield h (.regEarly (.inl ‹_›))
    · exact yield h (.regEarly (.inr ‹_›))
    · exact yield h (.regState (.inl ‹_›))
    · exact yield h (.regState (.inr ‹_›))
    · cases h
      refine .regOver ?_
      cases hs : m.state <;> first | rfl | exact absurd hs ‹_›
  case h_6 => cases h
  case h_4 => exact yield_snd h .regMore fun hc => .regKind (Bool.eq_false_iff.mpr hc)
  case h_1 | h_2 | h_5 =>
    cases h
    constructor

theorem runStep_step (h : runStep m pc a = some (m', pc')) : Step m pc a m' pc' := by
  unfold runStep at h
  split at h
  case h_1 => exact yield_ite h .begin .beginLater
  case h_3 => exact yield_ite h .beginReady .beginLost
  case h_4 => exact yield_ite h .beginTaken .beginOver
  case h_5 => exact yield_guard h .recycle
  case h_10 => exact yield_ite h .publish .publishLost
  case h_13 => exact yield_guard h .last
  case h_18 => exact yield_guard h .turnAway
  case h_19 => exact yield_guard h .endSeries
  case h_21 => cases h
  case h_2 => exact yield_snd h .beginKind fun hc => .beginNone (Bool.eq_false_iff.mpr hc)
  case h_8 => exact yield_snd h .note fun hc => .noteNone (Bool.eq_false_iff.mpr hc)
  case h_11 => exact yield_snd h .forward fun hc => .forwardNone (Bool.eq_false_iff.mpr hc)
  case h_12 => exact yield_snd h .again fun hc => .isOver (Bool.eq_false_iff.mpr hc)
  case h_15 p =>
    cases h
    split
    case isTrue hx => exact .closeLook p hx
    case isFalse hx =>
      cases p
      · exact .closeNone (Bool.eq_false_iff.mpr hx)
      · exact .panicNone (Bool.eq_false_iff.mpr hx)
  case h_16 p =>
    cases h
    cases p
    · exact .close
    · exact .panicClose
  case h_6 | h_7 | h_9 | h_14 | h_17 =>
    cases h
    constructor
  case h_20 => exact yield_snd h .closeLater .closeFinished

theorem otherStep_step (h : otherStep m pc a = some (m', pc')) : Step m pc a m' pc' := by
  unfold otherStep at h
  split at h
  case h_1 => exact yield_guard h .take
  case h_2 e =>
    exact yield_unless h fun ho => .stop e (TaskState.isOver_of_not_stopReturns ho)
  case h_3 i => exact yield h (.farEnd i)
  case h_4 => cases h

/-- **What a step of the code can do**, said once. -/
theorem next_step (h : next m pc a = some (m', pc')) : Step m pc a m' pc' := by
  unfold next at h
  split at h
  case h_1 r w =>
    obtain ⟨⟨m₁, o⟩, hw, heq⟩ := Option.map_eq_some_iff.mp h
    obtain ⟨rfl, rfl⟩ := Prod.mk.inj heq
    cases o with
    | none => exact .walked r (walkStep_step hw)
    | some w' => exact .walk r (walkStep_step hw)
  case h_2 =>
    simp only [Option.or_eq_some_iff] at h
    rcases h with h | ⟨-, h | ⟨-, h⟩⟩
    · exact registerStep_step h
    · exact runStep_step h
    · exact otherStep_step h

end Steps

end Atap.Receivers
