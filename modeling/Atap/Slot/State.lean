import Mathlib.Data.Nat.Notation

/-!
# Task states and task kinds

The two enumerations a slot's header is read through (`task_state.rs`, `task_kind.rs`). The
header holds raw words; `TaskState.ofWord` and `TaskKind.ofByte` are the decoders the code
reads them with, and the round trips `TaskState.ofWord_word` and `TaskKind.ofByte_byte` are
what lets the models keep the decoded value in memory.
-/

namespace Atap

/-- The lifecycle of one spawned task. -/
inductive TaskState
  | free
  | pending
  | running
  | ready
  | taken
  | cancelled
  | failed
  | timedOut
  deriving DecidableEq

namespace TaskState

/-- The raw value stored in the state word. -/
def word : TaskState → ℕ
  | free => 0
  | pending => 1
  | running => 2
  | ready => 3
  | taken => 4
  | cancelled => 5
  | failed => 6
  | timedOut => 7

/-- `TaskState::from_u32`: anything unrecognised reads as `failed`. -/
def ofWord : ℕ → TaskState
  | 0 => free
  | 1 => pending
  | 2 => running
  | 3 => ready
  | 4 => taken
  | 5 => cancelled
  | 7 => timedOut
  | _ => failed

theorem ofWord_word (s : TaskState) : ofWord s.word = s := by
  cases s <;> rfl

/-- Whether a read on this state returns without waiting. -/
def terminal (s : TaskState) : Bool := !(s == pending || s == running)

/-- Whether the task was stopped before it could finish, by a cancel or a timeout. -/
def stopped (s : TaskState) : Bool := s == cancelled || s == timedOut

/-- The task is over, one way or another, and no move leaves this state: what `stop` and
`write_off` return on. -/
def isOver (s : TaskState) : Bool := s.stopped || s == failed || s == free

/-- The states a slot can be in while a run owns it: the run's own, or one an ending put
there. -/
def heldByRun (s : TaskState) : Bool := s == running || s.stopped || s == failed

/-- What `stop` returns on: the task is over, or its output was taken and no run follows. -/
def stopReturns (repeats : Bool) (s : TaskState) : Bool := s.isOver || (s == taken && !repeats)

/-- What `begin` starts a run from, the first or, where `again` has it, a later one. -/
def begins (again : Bool) (s : TaskState) : Bool :=
  s == pending || again && (s == ready || s == taken)

/-- The state that `fail` leaves. -/
def fail (s : TaskState) : TaskState := if s.terminal then s else failed

theorem isOver_of_not_stopReturns {s : TaskState} {repeats : Bool}
    (h : ¬ s.stopReturns repeats = true) : s.isOver = false :=
  Bool.eq_false_iff.mpr fun ho => h (by rw [stopReturns, ho]; rfl)

theorem not_heldByRun_of_begins {s : TaskState} {again : Bool} (h : s.begins again = true) :
    s.heldByRun = false := by
  cases s <;> first | rfl | simp [begins] at h

theorem terminal_of_over {s : TaskState} (h : s.isOver = true) : s.terminal = true := by
  cases s <;> first | rfl | cases h

theorem terminal_of_heldByRun {s : TaskState} (h : s.heldByRun = true) (hne : s ≠ running) :
    s.terminal = true := by
  cases s <;> first | rfl | exact absurd rfl hne | cases h

theorem running_of_heldByRun {s : TaskState} (h : s.heldByRun = true) (ho : s.isOver = false) :
    s = running := by
  revert h ho
  cases s <;> decide

end TaskState

/-- How a task can be ended early: by a cancel, by a timeout, or by a write-off. -/
inductive Ending
  | cancelled
  | timedOut
  | failed
  deriving DecidableEq

/-- The state an ending leaves the task in. -/
def Ending.state : Ending → TaskState
  | cancelled => .cancelled
  | timedOut => .timedOut
  | failed => .failed

namespace Ending

variable (e : Ending)

theorem heldByRun_state : e.state.heldByRun = true := by cases e <;> rfl

theorem state_ne_free : e.state ≠ .free := by cases e <;> nofun

theorem state_ne_pending : e.state ≠ .pending := by cases e <;> nofun

theorem state_ne_running : e.state ≠ .running := by cases e <;> nofun

theorem state_ne_ready : e.state ≠ .ready := by cases e <;> nofun

end Ending

/-- How a slot behaves once its run has finished. -/
inductive TaskKind
  | once
  | repeating
  | repeatEvery
  | series
  deriving DecidableEq

namespace TaskKind

/-- Whether a run of this is followed by another. -/
def repeats (k : TaskKind) : Bool := k != once

/-- Whether a run of this is followed by a wait rather than by the next run. -/
def waits (k : TaskKind) : Bool := k == repeatEvery

/-- Whether this is a schedule, whose slot never reaches a worker. -/
def schedules (k : TaskKind) : Bool := k == series

/-- The discriminant of a kind. -/
def code : TaskKind → ℕ
  | once => 0
  | repeating => 1
  | repeatEvery => 2
  | series => 3

/-- `TaskKind::WAITS`, the bit of the kind byte that marks a task spawned with `wait_for`. -/
def waitsBit : ℕ := 0x80

/-- The kind byte of a slot: the discriminant, with the wait bit for a task that takes
gives. -/
def byte (k : TaskKind) (takesInput : Bool) : ℕ :=
  k.code ||| if takesInput then waitsBit else 0

/-- `TaskKind::from_u8`: the wait bit is looked past, and anything unrecognised reads as
`once`. -/
def ofByte (raw : ℕ) : TaskKind :=
  match raw &&& (0xff ^^^ waitsBit) with
  | 1 => repeating
  | 2 => repeatEvery
  | 3 => series
  | _ => once

/-- `TaskData::takes_input`, on the raw byte. -/
def takesInput (raw : ℕ) : Bool := raw &&& waitsBit != 0

theorem ofByte_byte (k : TaskKind) (b : Bool) : ofByte (k.byte b) = k := by
  cases k <;> cases b <;> rfl

theorem takesInput_byte (k : TaskKind) (b : Bool) : takesInput (k.byte b) = b := by
  cases k <;> cases b <;> rfl

end TaskKind

end Atap
