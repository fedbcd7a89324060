import Atap.Interleave.Machine
import Atap.Slot.State

/-!
# A wait in the kernel, and a stop

A task that waits in the kernel does so on the queue of its thread, and says in its slot which queue
that is. Whoever stops the task takes the record, which keeps the waiter from leaving, pokes the
queue and lets the waiter go. This module is one slot with the threads that run its task, one at a
time, and those that stop it, as a machine: every atomic operation and every system call is one
step.

The programs, by function:

* a **run**: any number of waits, each with `waiting_on`, a wait in the kernel as `wait_for` makes
  it, and `stopped_waiting`, both of them with `clear_waiting`;
* a **stop**: `stop` with `interrupt`, and in it `claim_waiting` and `release_waiting`.

A thread makes a queue when it first needs one and closes it when it ends, and descriptors are
reused. Who stops a task holds a handle to it, so the slot is not given to another task. What else
`stopped` does is for tasks that are not in the kernel, and is not here.

The kernel is assumed to take a trigger on an open queue. `waits` is a history, and no step reads
it: how many waits there have been.
-/

namespace Atap.Wait

open Function (update update_of_ne)

/-- `TaskData::waiting`. -/
inductive Word
  /-- `NOT_WAITING`. -/
  | no
  | on (queue : ℕ)
  /-- `CANCELLING`. -/
  | cancelling
  deriving DecidableEq

/-- The slot, and the queues of all threads. -/
structure Mem where
  /-- `TaskData::state`. -/
  state : TaskState
  /-- `TaskKind::repeats`. -/
  repeats : Bool
  waiting : Word
  /-- Some thread runs the task. -/
  held : Bool
  /-- The queues that are open. -/
  opened : ℕ → Bool
  /-- The queues on which a trigger is pending. -/
  triggered : ℕ → Bool
  waits : ℕ

/-- Why a task is stopped. -/
inductive Why
  | cancel
  | timeout
  deriving DecidableEq

/-- The state a stop leaves the task in. -/
def Why.state : Why → TaskState
  | cancel => .cancelled
  | timeout => .timedOut

theorem Why.stopped_state (w : Why) : w.state.stopped = true := by cases w <;> rfl

/-- Where a thread stands in the code. -/
inductive Pc
  | idle
  /-- In a run, and in no wait. -/
  | running
  /-- `waiting_on`, before the first look at the state. -/
  | look
  /-- `waiting_on`, before `set_waiting`. -/
  | set
  /-- `waiting_on`, before the second look. -/
  | lookAgain
  /-- In the kernel. -/
  | kernel
  /-- `wait_for`, back with a trigger and before the look at the state. -/
  | woken
  /-- `clear_waiting`, before the load; whether the wait took place. -/
  | clear (left : Bool)
  /-- `clear_waiting`, before the exchange, with what was loaded. -/
  | clearSwap (left : Bool) (saw : Option ℕ)
  /-- `stopped_waiting`, before the look at the state. -/
  | lookLast
  /-- The wait is over, and whether to carry on. -/
  | told (carry : Bool)
  /-- `stop`, before the load of the state. -/
  | stopLoad (why : Why)
  /-- `stop`, before the exchange. -/
  | stopSwap (why : Why) (saw : TaskState)
  /-- `claim_waiting`, before the load. -/
  | claimLoad
  /-- `claim_waiting`, before the exchange. -/
  | claimSwap (queue : ℕ)
  /-- `interrupt`, before the timer is deleted; the queue, and which wait it is. -/
  | delete (queue wait : ℕ)
  /-- `interrupt`, before the trigger. -/
  | trigger (queue wait : ℕ)
  /-- `interrupt`, before `release_waiting`. -/
  | release (queue wait : ℕ)
  deriving DecidableEq

/-- A thread, with its queue if it has made one. -/
structure Local where
  queue : Option ℕ
  pc : Pc
  deriving DecidableEq

inductive Act
  | go
  /-- `kqueue::id`, for a thread that has no queue: the kernel gives it a descriptor. -/
  | create (queue : ℕ)
  /-- The thread ends, and closes its queue. -/
  | close
  /-- The thread takes the task up. -/
  | begin
  /-- The run ends. -/
  | finish
  | wait
  /-- The wait ends by its own event, by its bound or by a failure; whether a trigger came with
  it. -/
  | leave (with_ : Bool)
  /-- The kernel hands out a trigger. -/
  | wake
  /-- The thread stops the task. -/
  | stop (why : Why)
  deriving DecidableEq

/-- What was loaded from a record that is not being cancelled. -/
def Word.seen : Word → Option (Option ℕ)
  | no => some none
  | on q => some (some q)
  | cancelling => none

/-- The record a load found. -/
def Word.ofSeen : Option ℕ → Word
  | none => no
  | some q => on q

/-- The steps of a run, on the queue of its thread. -/
def runStep (m : Mem) (q : ℕ) : Pc → Act → Option (Mem × Pc)
  | .running, .wait => some (m, .look)
  | .look, .go => some (m, if m.state.stopped then .told false else .set)
  | .set, .go =>
    some (if m.waiting = .no then { m with waiting := .on q, waits := m.waits + 1 } else m,
      .lookAgain)
  | .lookAgain, .go => some (m, if m.state.stopped then .clear false else .kernel)
  | .kernel, .leave with_ =>
    some (if with_ then { m with triggered := update m.triggered q false } else m,
      .clear true)
  | .kernel, .wake =>
    if m.triggered q then
      some ({ m with triggered := update m.triggered q false }, .woken)
    else none
  | .woken, .go => some (m, if m.state.stopped then .clear true else .kernel)
  | .clear left, .go => some (m, (m.waiting.seen).elim (.clear left) (.clearSwap left))
  | .clearSwap left saw, .go =>
    if m.waiting = .ofSeen saw then
      some ({ m with waiting := .no }, if left then .lookLast else .told false)
    else some (m, .clear left)
  | .lookLast, .go => some (m, .told !m.state.stopped)
  | .told _, .go => some (m, .running)
  | _, _ => none

/-- The steps of a stop. -/
def stopStep (m : Mem) : Pc → Act → Option (Mem × Pc)
  | .idle, .stop why => some (m, .stopLoad why)
  | .stopLoad why, .go =>
    some (m, if m.state.stopReturns m.repeats then .idle else .stopSwap why m.state)
  | .stopSwap why saw, .go =>
    if m.state = saw then some ({ m with state := why.state }, .claimLoad)
    else some (m, .stopLoad why)
  | .claimLoad, .go =>
    some (m, match m.waiting with | .on q => .claimSwap q | _ => .idle)
  | .claimSwap q, .go =>
    if m.waiting = .on q then some ({ m with waiting := .cancelling }, .delete q m.waits)
    else some (m, .claimLoad)
  | .delete q w, .go => some (m, .trigger q w)
  | .trigger q w, .go =>
    some ({ m with triggered := update m.triggered q true }, .release q w)
  | .release _ _, .go => some ({ m with waiting := .no }, .idle)
  | _, _ => none

/-- The task can be taken up for a run. -/
def startable (s : TaskState) : Bool := s == .pending || s == .ready || s == .taken

def next (m : Mem) (l : Local) (a : Act) : Option (Mem × Local) :=
  match l.pc, a with
  | .idle, .create q | .running, .create q =>
    if l.queue = none ∧ m.opened q = false then
      some ({ m with
        opened := update m.opened q true
        triggered := update m.triggered q false }, { l with queue := some q })
    else none
  | .idle, .close =>
    l.queue.map fun q => ({ m with opened := update m.opened q false },
      { l with queue := none })
  | .idle, .begin =>
    if m.held = false ∧ startable m.state then
      some ({ m with held := true, state := .running }, { l with pc := .running })
    else none
  | .running, .finish =>
    some ({ m with held := false, state := if m.state = .running then .ready else m.state },
      { l with pc := .idle })
  | _, _ =>
    match (l.queue.bind fun q => runStep m q l.pc a).or (stopStep m l.pc a) with
    | some (m', pc') => some (m', { l with pc := pc' })
    | none => none

def machine : Machine Mem Local Act := ⟨next⟩

/-! ### Where a thread stands -/

namespace Pc

/-- The thread runs the task. -/
def runs : Pc → Bool
  | running | look | set | lookAgain | kernel | woken | clear _ | clearSwap _ _ | lookLast
  | told _ => true
  | _ => false

/-- The thread has recorded its wait and not taken the record back. -/
def recorded : Pc → Bool
  | lookAgain | kernel | woken | clear _ | clearSwap _ _ => true
  | _ => false

/-- The thread is in a wait, or about to be. -/
def waits : Pc → Bool
  | look | set | lookLast | told _ => true
  | pc => pc.recorded

/-- The thread has stopped the task, and still has to look for a wait. -/
def claims : Pc → Bool
  | claimLoad | claimSwap _ => true
  | _ => false

/-- The thread has taken the record of a wait: the queue, and which wait it is. -/
def holds : Pc → Option (ℕ × ℕ)
  | delete q w | trigger q w | release q w => some (q, w)
  | _ => none

/-- The thread has stopped the task. -/
def won (pc : Pc) : Bool := pc.claims || pc.holds.isSome

/-- The thread is about to make a system call on a queue that may not be its own. -/
def calls : Pc → Option (ℕ × ℕ)
  | delete q w | trigger q w => some (q, w)
  | _ => none

/-- The thread has poked the queue. -/
def releases : Pc → Bool
  | release _ _ => true
  | _ => false

/-- The state a stop has loaded. -/
def saw : Pc → Option TaskState
  | stopSwap _ saw => some saw
  | _ => none

/-- The thread is in `clear_waiting`. -/
def clears : Pc → Bool
  | clear _ | clearSwap _ _ => true
  | _ => false

/-- The thread has no part in the record. -/
def plain (pc : Pc) : Bool := !pc.recorded && !pc.won

end Pc

/-! ### What a step can do -/

/-- The steps, one constructor for each thing a step can do. -/
inductive Step (m : Mem) (l : Local) : Mem → Local → Prop
  | create (q : ℕ) (hpc : l.pc.plain = true ∧ l.pc.waits = false) (h : l.queue = none)
      (hf : m.opened q = false) :
      Step m l { m with
        opened := update m.opened q true
        triggered := update m.triggered q false } { l with queue := some q }
  | close (q : ℕ) (hpc : l.pc = .idle) (h : l.queue = some q) :
      Step m l { m with opened := update m.opened q false } { l with queue := none }
  | begin (hpc : l.pc = .idle) (hh : m.held = false) (hs : startable m.state = true) :
      Step m l { m with held := true, state := .running } { l with pc := .running }
  | finish (hpc : l.pc = .running) :
      Step m l { m with held := false, state := if m.state = .running then .ready else m.state }
        { l with pc := .idle }
  /-- A step that has no part in the record and changes nothing. -/
  | plain (pc : Pc) (hp : l.pc.plain = true) (hp' : pc.plain = true) (hr : pc.runs = l.pc.runs)
      (hq : pc.waits = true → l.queue ≠ none) (hs : ∀ saw ∈ pc.saw, saw.stopped = false) :
      Step m l m { l with pc := pc }
  | record (q : ℕ) (hpc : l.pc = .set) (h : l.queue = some q) :
      Step m l (if m.waiting = .no then { m with waiting := .on q, waits := m.waits + 1 } else m)
        { l with pc := .lookAgain }
  | enter (hpc : l.pc = .lookAgain ∨ l.pc = .woken) (hs : m.state.stopped = false) :
      Step m l m { l with pc := .kernel }
  | wake (q : ℕ) (hpc : l.pc = .kernel) (h : l.queue = some q) (ht : m.triggered q = true) :
      Step m l { m with triggered := update m.triggered q false } { l with pc := .woken }
  /-- The waiter goes to `clear_waiting`. -/
  | leave (q : ℕ) (f : ℕ → Bool) (left : Bool) (hpc : l.pc.recorded = true)
      (h : l.queue = some q) (hf : ∀ q', q' ≠ q → f q' = m.triggered q') :
      Step m l { m with triggered := f } { l with pc := .clear left }
  /-- The waiter goes round in `clear_waiting`. -/
  | spin (pc : Pc) (hpc : l.pc.clears = true) (hpc' : pc.clears = true) :
      Step m l m { l with pc := pc }
  | cleared (pc : Pc) (hpc : l.pc.clears = true) (hpc' : pc = .lookLast ∨ pc = .told false)
      (h : m.waiting ≠ .cancelling) : Step m l { m with waiting := .no } { l with pc := pc }
  | stopped (why : Why) (saw : TaskState) (hpc : l.pc = .stopSwap why saw) (h : m.state = saw) :
      Step m l { m with state := why.state } { l with pc := .claimLoad }
  | missed (hpc : l.pc = .claimLoad) (h : ∀ q, m.waiting ≠ .on q) :
      Step m l m { l with pc := .idle }
  /-- The stop goes round in `claim_waiting`. -/
  | seek (pc : Pc) (hpc : l.pc.claims = true) (hpc' : pc.claims = true) :
      Step m l m { l with pc := pc }
  | claim (q : ℕ) (hpc : l.pc = .claimSwap q) (h : m.waiting = .on q) :
      Step m l { m with waiting := .cancelling } { l with pc := .delete q m.waits }
  | delete (q w : ℕ) (hpc : l.pc = .delete q w) : Step m l m { l with pc := .trigger q w }
  | trigger (q w : ℕ) (hpc : l.pc = .trigger q w) :
      Step m l { m with triggered := update m.triggered q true }
        { l with pc := .release q w }
  | release (q w : ℕ) (hpc : l.pc = .release q w) :
      Step m l { m with waiting := .no } { l with pc := .idle }

section Inversion

variable {m m' : Mem} {l l' : Local} {q : ℕ} {pc' : Pc} {a : Act}

theorem runStep_step (hq : l.queue = some q) (h : runStep m q l.pc a = some (m', pc')) :
    Step m l m' { l with pc := pc' } := by
  have hsome : l.queue ≠ none := hq ▸ Option.some_ne_none q
  generalize hpc : l.pc = pc at h
  unfold runStep at h
  split at h
  case h_1 | h_10 | h_11 =>
    cases h
    exact .plain _ (hpc ▸ rfl) rfl (hpc ▸ rfl) (fun _ => hsome) nofun
  case h_2 =>
    cases h
    split
    · exact .plain _ (hpc ▸ rfl) rfl (hpc ▸ rfl) (fun _ => hsome) nofun
    · exact .plain _ (hpc ▸ rfl) rfl (hpc ▸ rfl) (fun _ => hsome) nofun
  case h_3 =>
    cases h
    exact .record q hpc hq
  case h_4 =>
    cases h
    split
    · exact .leave q m.triggered false (hpc ▸ rfl) hq fun _ _ => rfl
    · rename_i hs
      exact .enter (.inl hpc) (Bool.eq_false_iff.mpr hs)
  case h_5 with_ =>
    cases h
    cases with_ with
    | true =>
      exact .leave q _ true (hpc ▸ rfl) hq fun q' hne => update_of_ne hne ..
    | false => exact .leave q m.triggered true (hpc ▸ rfl) hq fun _ _ => rfl
  case h_6 =>
    obtain ⟨ht, h⟩ := Option.ite_none_right_eq_some.mp h
    cases h
    exact .wake q hpc hq ht
  case h_7 =>
    cases h
    split
    · exact .leave q m.triggered true (hpc ▸ rfl) hq fun _ _ => rfl
    · rename_i hs
      exact .enter (.inr hpc) (Bool.eq_false_iff.mpr hs)
  case h_8 left =>
    cases h
    refine .spin _ (hpc ▸ rfl) ?_
    cases m.waiting.seen <;> rfl
  case h_9 left saw =>
    split at h
    case isTrue hw =>
      cases h
      refine .cleared _ (hpc ▸ rfl) ?_ ?_
      · cases left
        · exact .inr rfl
        · exact .inl rfl
      · rw [hw]
        cases saw <;> exact nofun
    case isFalse =>
      cases h
      exact .spin _ (hpc ▸ rfl) rfl
  case h_12 => cases h

theorem stopStep_step (h : stopStep m l.pc a = some (m', pc')) :
    Step m l m' { l with pc := pc' } := by
  generalize hpc : l.pc = pc at h
  unfold stopStep at h
  split at h
  case h_1 =>
    cases h
    exact .plain _ (hpc ▸ rfl) rfl (hpc ▸ rfl) nofun nofun
  case h_2 why =>
    cases h
    split
    · exact .plain _ (hpc ▸ rfl) rfl (hpc ▸ rfl) nofun nofun
    · rename_i hgo
      refine .plain _ (hpc ▸ rfl) rfl (hpc ▸ rfl) nofun ?_
      intro saw hsaw
      cases hsaw
      have ho := TaskState.isOver_of_not_stopReturns hgo
      simp only [TaskState.isOver, Bool.or_eq_false_iff] at ho
      exact ho.1.1
  case h_3 why saw =>
    split at h
    · cases h
      exact .stopped why saw hpc ‹_›
    · cases h
      exact .plain _ (hpc ▸ rfl) rfl (hpc ▸ rfl) nofun nofun
  case h_4 =>
    cases h
    split
    · exact .seek _ (hpc ▸ rfl) rfl
    · rename_i hw
      exact .missed hpc hw
  case h_5 q =>
    split at h
    · cases h
      exact .claim q hpc ‹_›
    · cases h
      exact .seek _ (hpc ▸ rfl) rfl
  case h_6 q w =>
    cases h
    exact .delete q w hpc
  case h_7 q w =>
    cases h
    exact .trigger q w hpc
  case h_8 q w =>
    cases h
    exact .release q w hpc
  case h_9 => cases h

/-- Every step is one of these. -/
theorem next_step (h : next m l a = some (m', l')) : Step m l m' l' := by
  unfold next at h
  split at h
  case h_1 q hpc | h_2 q hpc =>
    exact yield_guard h fun ⟨hq, hf⟩ => .create q (hpc ▸ ⟨rfl, rfl⟩) hq hf
  case h_3 hpc =>
    obtain ⟨q, hq, h⟩ := Option.map_eq_some_iff.mp h
    cases h
    exact .close q hpc hq
  case h_4 hpc => exact yield_guard h fun ⟨hh, hs⟩ => .begin hpc hh hs
  case h_5 hpc =>
    cases h
    exact .finish hpc
  case h_6 =>
    split at h
    case h_2 => cases h
    case h_1 m₁ pc₁ hor =>
      cases h
      obtain hrun | ⟨-, hstop⟩ := Option.or_eq_some_iff.mp hor
      · obtain ⟨q, hq, hrun⟩ := Option.bind_eq_some_iff.mp hrun
        exact runStep_step hq hrun
      · exact stopStep_step hstop

end Inversion

end Atap.Wait
