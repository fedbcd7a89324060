import Mathlib.Algebra.Group.Nat.Defs
import Mathlib.Data.Int.Notation

/-!
# What several modules read

Constants (`constants.rs`), the errors a call can end with (`errors.rs`) and the states of a worker
(`worker_state.rs`), each as far as a modelled function uses it.
-/

namespace Atap

/-- `FILE_CHUNK`. -/
def fileChunk : ℕ := 64 * 1024

/-- `HELP_DEPTH`. -/
def helpDepth : ℕ := 64

/-- `u32::MAX`, which stands for no limit on the runs, or the gives. -/
def unlimited : ℕ := 2 ^ 32 - 1

inductive RuntimeError
  | checkError (code : Option ℤ)
  | finished
  | cancelled
  | notReady
  | closed
  | tooLong
  | badPath
  | badVariable
  deriving DecidableEq

inductive WorkerState
  | empty
  | starting
  | idle
  | running
  | parked
  | stopping
  | dead
  | recovering
  deriving DecidableEq

namespace WorkerState

/-- Whether a thread is meant to be behind the slot. -/
def alive : WorkerState → Bool
  | starting | idle | running | parked | stopping => true
  | empty | dead | recovering => false

/-- Whether the worker is on a task. -/
def busy (st : WorkerState) : Bool := st == running

/-- Whether the worker is free to take work. -/
def available : WorkerState → Bool
  | starting | idle | parked => true
  | _ => false

/-- Live and not asked to stop. -/
def active : WorkerState → Bool
  | starting | idle | running | parked => true
  | empty | stopping | dead | recovering => false

/-- The slot is in use. -/
def occupied : WorkerState → Bool
  | empty => false
  | _ => true

end WorkerState

end Atap
