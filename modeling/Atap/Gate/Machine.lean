import Atap.Common
import Atap.Interleave.Machine
import Mathlib.Logic.Function.Basic

/-!
# The gate of a task that waits for gives

A task spawned with `wait_for` runs when it is given a value. A give leaves its value in a
mailbox and then asks the gate what to do; a run moves the gate on and then copies the
mailbox; the end of a run asks the gate what follows. This module is that protocol as a
machine: every atomic operation, and every section under the mailbox's lock, is one step.

The programs, by function:

* `give` (`executor.rs`): the look at `finished`, `Mailbox::replace`, `Gate::trigger` with its
  `spend_give`, and `start_waiting`;
* the last handle going: `drop_giver`, and `abandon` with its `close_waiting`;
* a run: `Gated::prepare` (`Gate::begin`, then the copy of the mailbox), the run itself, and
  `rewait` with `Gate::after_run` and `start_waiting` or `finish_waiting`;
* a schedule (`at_rate`): the clock that launches copies of the task and ends the series, and
  the copies, each with its own `prepare` and its own drop.

A run that goes round again inside a series, the ticks of a schedule, when a series is over,
and whether the pool takes what it is handed are left to the schedule of the machine. The
task's own state is not here: nothing is cancelled, timed out or written off from outside.

`given`, `started`, `verdict`, `handed` and `released` are a history; no step reads them.
-/

namespace Atap.Gate

/-- Where a waiting task is between gives. -/
inductive GateState
  /-- Nothing is owed. -/
  | waiting
  /-- A give was taken, and the run it starts is queued or delayed. -/
  | queued
  /-- A run, or a series of them, is under way. -/
  | running
  /-- A single run is under way, and a give that landed during it is owed one more. -/
  | pending
  /-- No more gives are taken. -/
  | finished
  deriving DecidableEq

/-- What a give did. -/
inductive Trigger
  | start
  | replaced
  | closed
  deriving DecidableEq

/-- The states a give can move the gate from. -/
inductive Opening
  | waiting
  | running
  deriving DecidableEq

namespace Opening

/-- The state an opening was seen as. -/
def state : Opening → GateState
  | waiting => .waiting
  | running => .running

/-- The state a give moves the gate to. -/
def dest : Opening → GateState
  | waiting => .queued
  | running => .pending

end Opening

/-- What `Gate::trigger` does in the state it saw: a move it tries, or what it returns at once.
A give during a series only replaces the value; one during a single run is owed a run of its
own. -/
def GateState.target (series : Bool) : GateState → Except Trigger Opening
  | waiting => .ok .waiting
  | running => if series then .error .replaced else .ok .running
  | queued => .error .replaced
  | pending => .error .replaced
  | finished => .error .closed

/-- The states the end of a run moves the gate from when nothing more is owed. -/
inductive Ongoing
  | queued
  | running
  deriving DecidableEq

/-- The state an ongoing run was seen in. -/
def Ongoing.state : Ongoing → GateState
  | queued => .queued
  | running => .running

/-- What `spend_give` leaves of the gives left. -/
def spendGive (left : ℕ) : ℕ := if left = unlimited ∨ left = 0 then left else left - 1

/-- The shared half of a task that waits for gives. -/
structure Mem (α : Type*) where
  /-- `Gate::state`. -/
  state : GateState
  /-- `Gate::gives_left`. -/
  givesLeft : ℕ
  /-- `Gate::givers`. -/
  givers : ℕ
  /-- `Gate::series`: a give starts a series rather than a single run. -/
  series : Bool
  /-- The task is a schedule, whose runs are copies. -/
  schedule : Bool
  /-- `Mailbox::value`, stamped with the number of values left there before it. -/
  box : Option (ℕ × α)
  /-- Runs or series that `start_waiting` has put in the pool, on a timer or on the clock, and
  runs a series puts back. -/
  queued : ℕ
  /-- Copies a schedule has launched and no thread has picked up. -/
  launched : ℕ
  /-- How many values were ever left in the mailbox. -/
  given : ℕ
  /-- How many gives won a move of the gate. -/
  started : ℕ
  /-- Whether the give of each value returned `Ok` or an error. -/
  verdict : ℕ → Option Bool
  /-- Which values were handed to a run. -/
  handed : ℕ → Bool
  /-- How often the task was let go. -/
  released : ℕ

/-- Where a thread goes once the task is let go. -/
inductive Back
  /-- The last handle was dropped. -/
  | out
  /-- The run is over. -/
  | worker
  /-- The give of this value could not be started. -/
  | refused (k : ℕ)
  deriving DecidableEq

/-- Where a thread stands in the code. A `drives` flag tells the run that ends with
`after_run` from a schedule's copies, and `k` is the stamp of the value a give left. -/
inductive Pc (α : Type*)
  /-- Holds no handle that can give. -/
  | out
  /-- Holds a handle that can give. -/
  | holds
  /-- `give`, before the look at `finished`. -/
  | check (x : α)
  /-- `give`, before `replace`. -/
  | replace (x : α)
  /-- `trigger`, before the load of the state. -/
  | look (k : ℕ)
  /-- `trigger`, before the load of the gives left. -/
  | limit (k : ℕ) (saw : Opening)
  /-- `trigger`, before the exchange. -/
  | move (k : ℕ) (saw : Opening)
  /-- `spend_give`. -/
  | spend (k : ℕ) (saw : Opening)
  /-- `start_waiting`, for a give. -/
  | start (k : ℕ)
  /-- `abandon`, before `close_waiting`. -/
  | closing
  /-- A thread of the pool, or the manager, with nothing in hand. -/
  | worker
  /-- The manager, with the series on its clock. -/
  | clock
  /-- `prepare`, before `begin`. -/
  | prepare (drives : Bool)
  /-- `prepare`, before the copy of the mailbox. -/
  | copy (drives : Bool)
  /-- The run itself. -/
  | execute (drives : Bool)
  /-- The drop of a copy, before the look at `finished`. -/
  | dropLook
  /-- The drop of a copy, before `clear`. -/
  | dropClear
  /-- `after_run`, before the load of the state. -/
  | afterLook
  /-- `after_run`, before the exchange from `PENDING`. -/
  | afterPending
  /-- `after_run`, before the load of the gives left. -/
  | afterLimit (saw : Ongoing)
  /-- `after_run`, before the load of the givers. -/
  | afterGivers (saw : Ongoing)
  /-- `after_run`, before the exchange to `FINISHED` or `WAITING`. -/
  | afterMove (saw : Ongoing) (isOver : Bool)
  /-- `after_run`, before the second load of the givers. -/
  | afterRecheck
  /-- `after_run`, before `close_waiting`. -/
  | afterClose
  /-- `start_waiting`, for the run owed to a give. -/
  | again
  /-- `finish_waiting`, before the gate is finished. -/
  | finish (b : Back)
  /-- `finish_waiting`, before the task is dropped. -/
  | dropTask (b : Back)
  /-- `finish_waiting`, before the reference is given back. -/
  | release (b : Back)
  deriving DecidableEq

inductive Act (α : Type*)
  | go
  /-- A handle is cloned for this thread: `add_giver`. -/
  | join
  /-- The thread's handle is dropped: `drop_giver`. -/
  | leave
  | give (x : α)
  /-- A thread picks up a queued run, or the manager a started series. -/
  | pick
  /-- A thread picks up a launched copy. -/
  | pickCopy
  /-- The clock launches a copy. -/
  | launch
  /-- A run of a series goes round again. -/
  | more
  /-- The pool turns a start down. -/
  | refuse
  deriving DecidableEq

variable {α : Type*}

namespace Mem

/-- The give of the value `k` returns. -/
def answer (m : Mem α) (k : ℕ) (ok : Bool) : Mem α :=
  { m with verdict := Function.update m.verdict k (some ok) }

/-- `Mailbox::replace`. -/
def leaveValue (m : Mem α) (x : α) : Mem α :=
  { m with box := some (m.given, x), given := m.given + 1 }

/-- `Mailbox::latest`, for a run that is handed the value. -/
def handOver (m : Mem α) : Mem α where
  __ := m
  handed :=
    match m.box with
    | some (k, _) => Function.update m.handed k true
    | none => m.handed

/-- Where a thread goes once the task is let go, and what a refused give returns. -/
def goBack (m : Mem α) : Back → Mem α × Pc α
  | .out => (m, .out)
  | .worker => (m, .worker)
  | .refused k => (m.answer k false, .holds)

end Mem

/-- The steps of a thread that gives, or that holds a handle that can. -/
def giveStep (m : Mem α) : Pc α → Act α → Option (Mem α × Pc α)
  | .out, .join => if 0 < m.givers then some ({ m with givers := m.givers + 1 }, .holds) else none
  | .holds, .leave =>
    some ({ m with givers := m.givers - 1 }, if m.givers = 1 then .closing else .out)
  | .holds, .give x => some (m, .check x)
  | .check x, .go => some (m, if m.state = .finished then .holds else .replace x)
  | .replace x, .go => some (m.leaveValue x, .look m.given)
  | .look k, .go =>
    match m.state.target m.series with
    | .ok saw => some (m, .limit k saw)
    | .error .closed => some (m.answer k false, .holds)
    | .error _ => some (m.answer k true, .holds)
  | .limit k saw, .go =>
    if m.givesLeft = 0 then some (m.answer k false, .holds) else some (m, .move k saw)
  | .move k saw, .go =>
    if m.state = saw.state then
      some ({ m with state := saw.dest, started := m.started + 1 }, .spend k saw)
    else some (m, .look k)
  | .spend k .waiting, .go => some ({ m with givesLeft := spendGive m.givesLeft }, .start k)
  | .spend k .running, .go =>
    some ({ m with givesLeft := spendGive m.givesLeft }.answer k true, .holds)
  | .start k, .go => some ({ m with queued := m.queued + 1 }.answer k true, .holds)
  | .start k, .refuse => some ({ m with state := .finished }, .dropTask (.refused k))
  | .closing, .go =>
    if m.state = .waiting then some ({ m with state := .finished }, .finish .out)
    else some (m, .out)
  | _, _ => none

/-- The steps of a thread that runs the task, or drives a series of it. -/
def runStep (m : Mem α) : Pc α → Act α → Option (Mem α × Pc α)
  | .worker, .pick =>
    if 0 < m.queued then
      some ({ m with queued := m.queued - 1 }, if m.schedule then .clock else .prepare true)
    else none
  | .worker, .pickCopy =>
    if 0 < m.launched then some ({ m with launched := m.launched - 1 }, .prepare false) else none
  | .clock, .launch => some ({ m with launched := m.launched + 1 }, .clock)
  | .clock, .go => some (m, .afterLook)
  | .prepare d, .go =>
    some ({ m with state := if m.state = .queued then .running else m.state }, .copy d)
  | .copy d, .go => some (m.handOver, .execute d)
  | .execute true, .more =>
    if m.series then some ({ m with queued := m.queued + 1 }, .worker) else none
  | .execute true, .go => some (m, .afterLook)
  | .execute false, .go => some (m, .dropLook)
  | .dropLook, .go => some (m, if m.state = .finished then .dropClear else .worker)
  | .dropClear, .go => some ({ m with box := none }, .worker)
  | .again, .go => some ({ m with queued := m.queued + 1 }, .worker)
  | .again, .refuse => some ({ m with state := .finished }, .dropTask .worker)
  | _, _ => none

/-- The steps of `after_run`, and of `finish_waiting`. -/
def endStep (m : Mem α) : Pc α → Act α → Option (Mem α × Pc α)
  | .afterLook, .go =>
    match m.state with
    | .pending => some (m, .afterPending)
    | .queued => some (m, .afterLimit .queued)
    | .running => some (m, .afterLimit .running)
    | .waiting => some (m, .worker)
    | .finished => some (m, .finish .worker)
  | .afterPending, .go =>
    if m.state = .pending then some ({ m with state := .queued }, .again)
    else some (m, .afterLook)
  | .afterLimit saw, .go =>
    some (m, if m.givesLeft = 0 then .afterMove saw true else .afterGivers saw)
  | .afterGivers saw, .go => some (m, .afterMove saw (m.givers = 0))
  | .afterMove saw isOver, .go =>
    if m.state = saw.state then
      some ({ m with state := if isOver then .finished else .waiting },
        if isOver then .finish .worker else .afterRecheck)
    else some (m, .afterLook)
  | .afterRecheck, .go => some (m, if m.givers = 0 then .afterClose else .worker)
  | .afterClose, .go =>
    if m.state = .waiting then some ({ m with state := .finished }, .finish .worker)
    else some (m, .worker)
  | .finish b, .go => some ({ m with state := .finished }, .dropTask b)
  -- A schedule's prototype stays with its slot; any other task goes here, and its mailbox with
  -- it.
  | .dropTask b, .go => some ({ m with box := if m.schedule then m.box else none }, .release b)
  | .release b, .go => some ({ m with released := m.released + 1 }.goBack b)
  | _, _ => none

/-- One step of one thread. -/
def next (m : Mem α) (pc : Pc α) (a : Act α) : Option (Mem α × Pc α) :=
  match pc with
  | .out | .holds | .check _ | .replace _ | .look _ | .limit _ _ | .move _ _ | .spend _ _
  | .start _ | .closing => giveStep m pc a
  | .worker | .clock | .prepare _ | .copy _ | .execute _ | .dropLook | .dropClear
  | .again => runStep m pc a
  | _ => endStep m pc a

/-- The gate as a machine. -/
def machine (α : Type*) : Machine (Mem α) (Pc α) (Act α) := ⟨next⟩

/-- A waiting task just spawned with a limit of `n` gives. Every thread holds a handle that can
give, holds none, or belongs to the pool. -/
structure Fresh {T : Type*} [Fintype T] (n : ℕ) (s : Config T (Mem α) (Pc α)) : Prop where
  state : s.mem.state = .waiting
  givesLeft : s.mem.givesLeft = n
  /-- A schedule's gives start series. -/
  schedule : s.mem.schedule = true → s.mem.series = true
  box : s.mem.box = none
  queued : s.mem.queued = 0
  launched : s.mem.launched = 0
  given : s.mem.given = 0
  started : s.mem.started = 0
  verdict : ∀ k, s.mem.verdict k = none
  handed : ∀ k, s.mem.handed k = false
  released : s.mem.released = 0
  loc : ∀ t, s.loc t = .out ∨ s.loc t = .holds ∨ s.loc t = .worker
  givers : s.mem.givers = count (· matches .holds) s.loc

/-- A task just spawned with one thread of the pool, and a handle for each of three others. -/
def threeGivers (n : ℕ) : Config (Fin 4) (Mem ℕ) (Pc ℕ) where
  mem := ⟨.waiting, n, 3, false, false, none, 0, 0, 0, 0, fun _ => none, fun _ => false, 0⟩
  loc t := if t = 0 then .worker else .holds

theorem threeGivers_fresh (n : ℕ) : Fresh n (threeGivers n) where
  state := rfl
  givesLeft := rfl
  schedule := nofun
  box := rfl
  queued := rfl
  launched := rfl
  given := rfl
  started := rfl
  verdict _ := rfl
  handed _ := rfl
  released := rfl
  loc t := by
    rcases eq_or_ne t 0 with rfl | ht
    · exact .inr (.inr rfl)
    · exact .inr (.inl (if_neg ht))
  givers := rfl

/-- The schedule of a give of `x` by `t`, and of the `n` steps of it that follow. -/
def giving (t : Fin 4) (x n : ℕ) : List (Fin 4 × Act ℕ) :=
  (t, .give x) :: List.replicate n (t, .go)

/-! ### What a step can do -/

/-- The steps of the code, one constructor for each way a step can go. -/
inductive Step (m : Mem α) : Pc α → Mem α → Pc α → Prop
  | join (h : 0 < m.givers) : Step m .out { m with givers := m.givers + 1 } .holds
  | leave (h : m.givers ≠ 1) : Step m .holds { m with givers := m.givers - 1 } .out
  | lastLeave (h : m.givers = 1) : Step m .holds { m with givers := m.givers - 1 } .closing
  | give (x : α) : Step m .holds m (.check x)
  | checkClosed (x : α) (h : m.state = .finished) : Step m (.check x) m .holds
  | checkOpen (x : α) (h : m.state ≠ .finished) : Step m (.check x) m (.replace x)
  | replace (x : α) : Step m (.replace x) (m.leaveValue x) (.look m.given)
  | lookOpen (k : ℕ) (saw : Opening) (h : m.state = saw.state)
      (hs : saw = .running → m.series = false) : Step m (.look k) m (.limit k saw)
  | lookReplaced (k : ℕ) (h : m.state = .queued ∨ m.state = .pending ∨
      m.state = .running ∧ m.series = true) : Step m (.look k) (m.answer k true) .holds
  | lookClosed (k : ℕ) (h : m.state = .finished) : Step m (.look k) (m.answer k false) .holds
  | limitSpent (k : ℕ) (saw : Opening) (h : m.givesLeft = 0) :
      Step m (.limit k saw) (m.answer k false) .holds
  | limitLeft (k : ℕ) (saw : Opening) (h : m.givesLeft ≠ 0) :
      Step m (.limit k saw) m (.move k saw)
  | moveWon (k : ℕ) (saw : Opening) (h : m.state = saw.state) :
      Step m (.move k saw) { m with state := saw.dest, started := m.started + 1 } (.spend k saw)
  | moveLost (k : ℕ) (saw : Opening) (h : m.state ≠ saw.state) :
      Step m (.move k saw) m (.look k)
  | spendStart (k : ℕ) :
      Step m (.spend k .waiting) { m with givesLeft := spendGive m.givesLeft } (.start k)
  | spendOwed (k : ℕ) : Step m (.spend k .running)
      ({ m with givesLeft := spendGive m.givesLeft }.answer k true) .holds
  | start (k : ℕ) : Step m (.start k) ({ m with queued := m.queued + 1 }.answer k true) .holds
  | startRefused (k : ℕ) :
      Step m (.start k) { m with state := .finished } (.dropTask (.refused k))
  | closeWon (h : m.state = .waiting) :
      Step m .closing { m with state := .finished } (.finish .out)
  | closeLost (h : m.state ≠ .waiting) : Step m .closing m .out
  | pickRun (h : 0 < m.queued) (hs : m.schedule = false) :
      Step m .worker { m with queued := m.queued - 1 } (.prepare true)
  | pickSeries (h : 0 < m.queued) (hs : m.schedule = true) :
      Step m .worker { m with queued := m.queued - 1 } .clock
  | pickCopy (h : 0 < m.launched) :
      Step m .worker { m with launched := m.launched - 1 } (.prepare false)
  | launch : Step m .clock { m with launched := m.launched + 1 } .clock
  | seriesOver : Step m .clock m .afterLook
  | begin (d : Bool) (h : m.state = .queued) :
      Step m (.prepare d) { m with state := .running } (.copy d)
  | beginLost (d : Bool) (h : m.state ≠ .queued) : Step m (.prepare d) m (.copy d)
  | copy (d : Bool) : Step m (.copy d) m.handOver (.execute d)
  | more (h : m.series = true) :
      Step m (.execute true) { m with queued := m.queued + 1 } .worker
  | runOver : Step m (.execute true) m .afterLook
  | copyOver : Step m (.execute false) m .dropLook
  | dropFinished (h : m.state = .finished) : Step m .dropLook m .dropClear
  | dropOpen (h : m.state ≠ .finished) : Step m .dropLook m .worker
  | dropClear : Step m .dropClear { m with box := none } .worker
  | again : Step m .again { m with queued := m.queued + 1 } .worker
  | againRefused : Step m .again { m with state := .finished } (.dropTask .worker)
  | afterPending (h : m.state = .pending) : Step m .afterLook m .afterPending
  | afterOngoing (saw : Ongoing) (h : m.state = saw.state) : Step m .afterLook m (.afterLimit saw)
  | afterWaiting (h : m.state = .waiting) : Step m .afterLook m .worker
  | afterFinished (h : m.state = .finished) : Step m .afterLook m (.finish .worker)
  | owedWon (h : m.state = .pending) : Step m .afterPending { m with state := .queued } .again
  | owedLost (h : m.state ≠ .pending) : Step m .afterPending m .afterLook
  | limitOver (saw : Ongoing) (h : m.givesLeft = 0) :
      Step m (.afterLimit saw) m (.afterMove saw true)
  | limitOpen (saw : Ongoing) (h : m.givesLeft ≠ 0) :
      Step m (.afterLimit saw) m (.afterGivers saw)
  | givers (saw : Ongoing) : Step m (.afterGivers saw) m (.afterMove saw (m.givers = 0))
  | overWon (saw : Ongoing) (h : m.state = saw.state) :
      Step m (.afterMove saw true) { m with state := .finished } (.finish .worker)
  | waitWon (saw : Ongoing) (h : m.state = saw.state) :
      Step m (.afterMove saw false) { m with state := .waiting } .afterRecheck
  | endLost (saw : Ongoing) (isOver : Bool) (h : m.state ≠ saw.state) :
      Step m (.afterMove saw isOver) m .afterLook
  | recheckGone (h : m.givers = 0) : Step m .afterRecheck m .afterClose
  | recheckHeld (h : m.givers ≠ 0) : Step m .afterRecheck m .worker
  | recloseWon (h : m.state = .waiting) :
      Step m .afterClose { m with state := .finished } (.finish .worker)
  | recloseLost (h : m.state ≠ .waiting) : Step m .afterClose m .worker
  | finish (b : Back) : Step m (.finish b) { m with state := .finished } (.dropTask b)
  | dropTask (b : Back) :
      Step m (.dropTask b) { m with box := if m.schedule then m.box else none } (.release b)
  | release (b : Back) : Step m (.release b) ({ m with released := m.released + 1 }.goBack b).1
      ({ m with released := m.released + 1 }.goBack b).2

section Steps

variable {m m' : Mem α} {pc pc' : Pc α} {a : Act α}

theorem lookStep {k : ℕ} (h : giveStep m (.look k) .go = some (m', pc')) :
    Step m (.look k) m' pc' := by
  simp only [giveStep] at h
  cases hs : m.state <;> simp only [hs, GateState.target] at h
  case running =>
    cases hser : m.series <;> simp only [hser, Bool.false_eq_true, if_true, if_false] at h <;>
      obtain ⟨rfl, rfl⟩ := by simpa using h
    · exact .lookOpen k .running hs fun _ => hser
    · exact .lookReplaced k (.inr (.inr ⟨hs, hser⟩))
  all_goals obtain ⟨rfl, rfl⟩ := by simpa using h
  case waiting => exact .lookOpen k .waiting hs nofun
  case queued => exact .lookReplaced k (.inl hs)
  case pending => exact .lookReplaced k (.inr (.inl hs))
  case finished => exact .lookClosed k hs

theorem giveStep_step (h : giveStep m pc a = some (m', pc')) : Step m pc m' pc' := by
  by_cases hlook : ∃ k, pc = .look k ∧ a = .go
  · obtain ⟨k, rfl, rfl⟩ := hlook
    exact lookStep h
  unfold giveStep at h
  split at h
  case h_6 k => exact absurd ⟨k, rfl, rfl⟩ hlook
  case h_1 => exact yield_guard h fun hg => .join hg
  case h_14 => cases h
  all_goals try split at h
  all_goals simp only [Option.some.injEq, Prod.mk.injEq] at h
  all_goals obtain ⟨rfl, rfl⟩ := h
  case h_2.isTrue => exact .lastLeave ‹_›
  case h_2.isFalse => exact .leave ‹_›
  case h_3 => exact .give _
  case h_4.isTrue => exact .checkClosed _ ‹_›
  case h_4.isFalse => exact .checkOpen _ ‹_›
  case h_5 => exact .replace _
  case h_7.isTrue => exact .limitSpent _ _ ‹_›
  case h_7.isFalse => exact .limitLeft _ _ ‹_›
  case h_8.isTrue => exact .moveWon _ _ ‹_›
  case h_8.isFalse => exact .moveLost _ _ ‹_›
  case h_9 => exact .spendStart _
  case h_10 => exact .spendOwed _
  case h_11 => exact .start _
  case h_12 => exact .startRefused _
  case h_13.isTrue => exact .closeWon ‹_›
  case h_13.isFalse => exact .closeLost ‹_›

theorem runStep_step (h : runStep m pc a = some (m', pc')) : Step m pc m' pc' := by
  unfold runStep at h
  split at h
  case h_1 =>
    obtain ⟨hq, h⟩ := Option.ite_none_right_eq_some.mp h
    obtain ⟨rfl, rfl⟩ := by simpa using h
    split
    · exact .pickSeries hq ‹_›
    · exact .pickRun hq (Bool.eq_false_of_not_eq_true ‹_›)
  case h_2 => exact yield_guard h fun hq => .pickCopy hq
  case h_7 => exact yield_guard h fun hs => .more hs
  case h_14 => cases h
  all_goals simp only [Option.some.injEq, Prod.mk.injEq] at h
  all_goals obtain ⟨rfl, rfl⟩ := h
  case h_3 => exact .launch
  case h_4 => exact .seriesOver
  case h_5 =>
    split
    · exact .begin _ ‹_›
    · exact .beginLost _ ‹_›
  case h_6 => exact .copy _
  case h_8 => exact .runOver
  case h_9 => exact .copyOver
  case h_10 =>
    split
    · exact .dropFinished ‹_›
    · exact .dropOpen ‹_›
  case h_11 => exact .dropClear
  case h_12 => exact .again
  case h_13 => exact .againRefused

theorem endStep_step (h : endStep m pc a = some (m', pc')) : Step m pc m' pc' := by
  unfold endStep at h
  split at h
  case h_1 =>
    cases hs : m.state <;> simp only [hs] at h <;> obtain ⟨rfl, rfl⟩ := by simpa using h
    · exact .afterWaiting hs
    · exact .afterOngoing .queued hs
    · exact .afterOngoing .running hs
    · exact .afterPending hs
    · exact .afterFinished hs
  case h_9 b =>
    obtain ⟨rfl, rfl⟩ := by simpa only [Option.some.injEq, Prod.mk.injEq] using h
    exact .dropTask b
  case h_10 b =>
    have hb := Option.some.inj h
    obtain ⟨rfl, rfl⟩ := Prod.mk.inj hb
    exact .release b
  case h_11 => cases h
  all_goals try split at h
  all_goals simp only [Option.some.injEq, Prod.mk.injEq] at h
  all_goals obtain ⟨rfl, rfl⟩ := h
  case h_2.isTrue => exact .owedWon ‹_›
  case h_2.isFalse => exact .owedLost ‹_›
  case h_3.isTrue => exact .limitOver _ ‹_›
  case h_3.isFalse => exact .limitOpen _ ‹_›
  case h_4 => exact .givers _
  case h_5.isTrue saw isOver hs =>
    cases isOver
    · exact .waitWon saw hs
    · exact .overWon saw hs
  case h_5.isFalse => exact .endLost _ _ ‹_›
  case h_6.isTrue => exact .recheckGone ‹_›
  case h_6.isFalse => exact .recheckHeld ‹_›
  case h_7.isTrue => exact .recloseWon ‹_›
  case h_7.isFalse => exact .recloseLost ‹_›
  case h_8 => exact .finish _

/-- **What a step of the code can do**, said once. -/
theorem next_step (h : next m pc a = some (m', pc')) : Step m pc m' pc' := by
  unfold next at h
  split at h
  all_goals first
    | exact giveStep_step h
    | exact runStep_step h
    | exact endStep_step h

end Steps

end Atap.Gate
