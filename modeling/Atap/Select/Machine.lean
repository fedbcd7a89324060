import Atap.Interleave.Machine
import Atap.Slot.State

/-!
# Racing tasks

`join_first` waits for the first of some tasks to settle. It leaves the queue of its thread in the
slots of those tasks, and `wake`, which whoever settles a task calls, pokes the queue it finds
there. Before it returns `join_first` takes its queue back out of the slots. This module is the
slots and the threads as a machine: every load, every compare-exchange and every system call is one
step.

A thread is a stack of calls. A `join_first` that finds nothing settled may help, and what it helps
with can race tasks and settle them on the same thread and the same queue; so the calls nest. A
thread makes its queue when it first needs one and closes it when it ends, and descriptors are
reused.

* A `wake` may be for any slot at any time, and a task may settle, or start over, at any time.
* The tasks a `join_first` races are in its hands until it returns, and a slot is destroyed by the
  last hand. `handles` counts those hands; other hands would only keep a slot for longer.
* The wait on the queue is bounded, so it may end whether it is poked or not.
* `joins` and the number beside a registration are a history, and no step reads them: which
  `join_first` it was.
-/

namespace Atap.Select

open Function

/-- The slots, by the ids of their tasks, and the descriptors. -/
structure Mem where
  /-- `TaskData::state`. -/
  state : ℕ → TaskState
  /-- `TaskData::select`: the queue, and whose registration it is; `none` is `NO_SELECT`. -/
  select : ℕ → Option (ℕ × ℕ)
  /-- In how many hands of a `join_first` the task is. -/
  handles : ℕ → ℕ
  /-- The queues that are open. -/
  opened : ℕ → Bool
  /-- How many calls of `join_first` there have been. -/
  joins : ℕ

/-- Where a `join_first` stands in the code. -/
inductive JoinPc
  /-- The first `settled_any`, with the ids it has yet to look at. -/
  | early (rest : List ℕ)
  /-- Before `kqueue::id`. -/
  | queue
  /-- `settled_any` where there is no queue. -/
  | poll (rest : List ℕ)
  /-- `help_once`, or the sleep, where there is no queue. -/
  | sleep
  /-- Registering, before the slot of the next id is looked up. -/
  | look (rest : List ℕ)
  /-- Registering, before `set_select`. -/
  | set (id : ℕ) (rest : List ℕ)
  /-- `settled_any` in the loop. -/
  | scan (rest : List ℕ)
  /-- `help_once`, or `wait_any`. -/
  | wait
  /-- Taking the registrations back, before the slot of the next id is looked up. -/
  | clear (rest : List ℕ) (winner : Option ℕ)
  /-- Taking a registration back, before `clear_select`. -/
  | unset (id : ℕ) (rest : List ℕ) (winner : Option ℕ)
  /-- About to return. -/
  | done (winner : Option ℕ)
  deriving DecidableEq

/-- One call of `join_first`. -/
structure Join where
  /-- Which call it is. -/
  no : ℕ
  ids : List ℕ
  registered : List ℕ
  pc : JoinPc
  deriving DecidableEq

inductive Frame
  | join (j : Join)
  /-- `wake`, before the load of the registration. -/
  | wake (id : ℕ)
  /-- `wake`, before the call on the queue it has loaded. -/
  | call (queue no : ℕ)
  deriving DecidableEq

/-- A thread: its queue if it has made one, and the calls it is in, the innermost first. -/
structure Local where
  queue : Option ℕ
  stack : List Frame
  deriving DecidableEq

inductive Act
  /-- The next step of the innermost call. -/
  | go
  /-- `kqueue::id`, for a thread that has no queue: the kernel gives it a descriptor. -/
  | create (queue : ℕ)
  /-- `kqueue::id`, and the kernel gives nothing. -/
  | fail
  /-- The thread ends, and closes its queue. -/
  | close
  | join (ids : List ℕ)
  | wake (id : ℕ)
  /-- A task gets another state. -/
  | settle (id : ℕ) (state : TaskState)
  /-- An empty slot gets a task. -/
  | place (id : ℕ)
  /-- `TaskData::destroy`. -/
  | destroy (id : ℕ)
  deriving DecidableEq

/-- One step of a `join_first` that is not about to return. -/
def joinStep (m : Mem) (queue : Option ℕ) (j : Join) : Option (Mem × Join) :=
  match j.pc with
  | .early [] => some (m, { j with pc := .queue })
  | .early (id :: rest) =>
    some (m, { j with pc := if (m.state id).terminal then .done (some id) else .early rest })
  | .queue => queue.map fun _ => (m, { j with registered := [], pc := .look j.ids })
  | .poll [] => some (m, { j with pc := .sleep })
  | .poll (id :: rest) =>
    some (m, { j with pc := if (m.state id).terminal then .done (some id) else .poll rest })
  | .sleep => some (m, { j with pc := .poll j.ids })
  | .look [] => some (m, { j with pc := .scan j.ids })
  | .look (id :: rest) =>
    some (m, { j with pc := if m.state id = .free then .look rest else .set id rest })
  | .set id rest =>
    queue.map fun q =>
      if m.select id = none then
        ({ m with select := update m.select id (some (q, j.no)) },
          { j with registered := j.registered ++ [id], pc := .look rest })
      else (m, { j with pc := .look rest })
  | .scan [] => some (m, { j with pc := .wait })
  | .scan (id :: rest) =>
    some (m, { j with
      pc := if (m.state id).terminal then .clear j.registered (some id) else .scan rest })
  | .wait => some (m, { j with pc := .scan j.ids })
  | .clear [] winner => some (m, { j with pc := .done winner })
  | .clear (id :: rest) winner =>
    some (m, { j with
      pc := if m.state id = .free then .clear rest winner else .unset id rest winner })
  | .unset id rest winner =>
    queue.map fun q =>
      (if (m.select id).map Prod.fst = some q then
        { m with select := update m.select id none } else m,
        { j with pc := .clear rest winner })
  | .done _ => none

/-- Whether a thread is where it may call something: in no call, or helping from a `join_first`. -/
def callable : List Frame → Bool
  | [] => true
  | .join j :: _ => j.pc == .wait || j.pc == .sleep
  | _ => false

/-- Where a `join_first` starts: over nothing it returns at once. -/
def start : List ℕ → JoinPc
  | [] => .done none
  | ids => .early ids

def next (m : Mem) (l : Local) : Act → Option (Mem × Local)
  | .go =>
    match l.stack with
    | [] => none
    | .join j :: rest =>
      match j.pc with
      | .done _ =>
        some ({ m with handles := fun id => m.handles id - j.ids.count id },
          { l with stack := rest })
      | _ => (joinStep m l.queue j).map fun r => (r.1, { l with stack := .join r.2 :: rest })
    | .wake id :: rest =>
      match m.select id with
      | none => some (m, { l with stack := rest })
      | some (q, no) => some (m, { l with stack := .call q no :: rest })
    | .call _ _ :: rest => some (m, { l with stack := rest })
  | .create q =>
    if l.queue = none ∧ m.opened q = false then
      some ({ m with opened := update m.opened q true }, { l with queue := some q })
    else none
  | .fail =>
    match l.stack with
    | .join j :: rest =>
      if j.pc = .queue ∧ l.queue = none then
        some (m, { l with stack := .join { j with pc := .poll j.ids } :: rest })
      else none
    | _ => none
  | .close =>
    if l.stack = [] then
      l.queue.map fun q => ({ m with opened := update m.opened q false },
        { l with queue := none })
    else none
  | .join ids =>
    if callable l.stack then
      some ({ m with handles := fun id => m.handles id + ids.count id, joins := m.joins + 1 },
        { l with stack := .join ⟨m.joins, ids, [], start ids⟩ :: l.stack })
    else none
  | .wake id =>
    if callable l.stack then some (m, { l with stack := .wake id :: l.stack }) else none
  | .settle id st =>
    if m.state id ≠ .free ∧ st ≠ .free then
      some ({ m with state := update m.state id st }, l)
    else none
  | .place id =>
    if m.state id = .free then
      some ({ m with state := update m.state id .pending }, l)
    else none
  | .destroy id =>
    if m.handles id = 0 then
      some ({ m with
        state := update m.state id .free
        select := update m.select id none }, l)
    else none

def machine : Machine Mem Local Act := ⟨next⟩

/-! ### What a call holds -/

/-- The ids a `join_first` has yet to register. -/
def JoinPc.asks : JoinPc → List ℕ
  | look rest => rest
  | set id rest => id :: rest
  | _ => []

/-- The id whose slot a `join_first` has found and is about to register in. -/
def JoinPc.found : JoinPc → Option ℕ
  | set id _ => some id
  | _ => none

/-- The ids a `join_first` has registered for and not yet taken its registration back from. -/
def Join.holding (j : Join) : List ℕ :=
  match j.pc with
  | .look _ | .set _ _ | .scan _ | .wait => j.registered
  | .clear rest _ => rest
  | .unset id rest _ => id :: rest
  | _ => []

/-- The tasks a call has in its hands. -/
def Frame.ids : Frame → List ℕ
  | join j => j.ids
  | _ => []

def Local.ids (l : Local) : List ℕ := l.stack.flatMap Frame.ids

/-! ### What a step can do -/

/-- What a step of a `join_first` can do, short of returning. -/
inductive JoinStep (m : Mem) (queue : Option ℕ) (j : Join) : Mem → Join → Prop
  /-- A step that changes no slot. A registration is passed by only in an empty slot. -/
  | move (j' : Join) (hno : j'.no = j.no) (hids : j'.ids = j.ids)
      (hsub : ∀ id ∈ j'.holding, id ∈ j.holding)
      (hkeep : ∀ id ∈ j.holding, id ∈ j'.holding ∨ m.state id = .free)
      (hasks : ∀ id ∈ j'.pc.asks, id ∈ j.pc.asks ∨ id ∈ j.ids)
      (hfound : ∀ id ∈ j'.pc.found, m.state id ≠ .free) : JoinStep m queue j m j'
  | took (id : ℕ) (rest : List ℕ) (q : ℕ) (hq : queue = some q) (hpc : j.pc = .set id rest)
      (hs : m.select id = none) :
      JoinStep m queue j { m with select := update m.select id (some (q, j.no)) }
        { j with registered := j.registered ++ [id], pc := .look rest }
  | cleared (id : ℕ) (rest : List ℕ) (winner : Option ℕ) (q : ℕ) (hq : queue = some q)
      (hpc : j.pc = .unset id rest winner) :
      JoinStep m queue j { m with select := update m.select id none }
        { j with pc := .clear rest winner }
  /-- The registration is somebody else's. -/
  | kept (id : ℕ) (rest : List ℕ) (winner : Option ℕ) (q : ℕ) (hq : queue = some q)
      (hpc : j.pc = .unset id rest winner) (hs : (m.select id).map Prod.fst ≠ some q) :
      JoinStep m queue j m { j with pc := .clear rest winner }

/-- The steps, one constructor for each thing a step can do. -/
inductive Step (m : Mem) (l : Local) (a : Act) : Mem → Local → Prop
  | create (q : ℕ) (h : l.queue = none) (hf : m.opened q = false) :
      Step m l a { m with opened := update m.opened q true } { l with queue := some q }
  | close (q : ℕ) (hstack : l.stack = []) (h : l.queue = some q) :
      Step m l a { m with opened := update m.opened q false } { l with queue := none }
  /-- A task gets another state, or an empty slot a task. -/
  | settle (id : ℕ) (st : TaskState) (h : st ≠ .free) :
      Step m l a { m with state := update m.state id st } l
  | destroy (id : ℕ) (h : m.handles id = 0) :
      Step m l a { m with
        state := update m.state id .free
        select := update m.select id none } l
  | join (ids : List ℕ) :
      Step m l a { m with handles := fun id => m.handles id + ids.count id, joins := m.joins + 1 }
        { l with stack := .join ⟨m.joins, ids, [], start ids⟩ :: l.stack }
  | wake (id : ℕ) : Step m l a m { l with stack := .wake id :: l.stack }
  | heard (id q no : ℕ) (rest : List Frame) (hstack : l.stack = .wake id :: rest)
      (h : m.select id = some (q, no)) : Step m l a m { l with stack := .call q no :: rest }
  /-- A `wake` is over. -/
  | pop (f : Frame) (rest : List Frame) (hstack : l.stack = f :: rest) (hf : ∀ j, f ≠ .join j) :
      Step m l a m { l with stack := rest }
  | inner (j : Join) (rest : List Frame) (m' : Mem) (j' : Join)
      (hstack : l.stack = .join j :: rest) (h : JoinStep m l.queue j m' j') :
      Step m l a m' { l with stack := .join j' :: rest }
  | ret (j : Join) (rest : List Frame) (winner : Option ℕ) (hstack : l.stack = .join j :: rest)
      (hpc : j.pc = .done winner) (ha : a = .go) :
      Step m l a { m with handles := fun id => m.handles id - j.ids.count id }
        { l with stack := rest }

section Inversion

variable {m m' : Mem} {l l' : Local} {j j' : Join} {queue : Option ℕ} {a : Act}

/-- A step between two places that hold the same and ask for no more. -/
theorem JoinStep.of_pc (pc : JoinPc) (hh : { j with pc := pc }.holding = j.holding)
    (hasks : ∀ id ∈ pc.asks, id ∈ j.pc.asks) (hfound : pc.found = none) :
    JoinStep m queue j m { j with pc := pc } := by
  refine .move _ rfl rfl ?_ ?_ ?_ ?_
  · intro id hid
    exact hh ▸ hid
  · intro id hid
    exact .inl (hh.symm ▸ hid)
  · intro id hid
    exact .inl (hasks id hid)
  · intro id hid
    rw [hfound] at hid
    cases hid

theorem joinStep_joinStep (h : joinStep m queue j = some (m', j')) :
    JoinStep m queue j m' j' := by
  obtain ⟨no, ids, registered, pc⟩ := j
  unfold joinStep at h
  split at h
  case h_3 hpc =>
    obtain ⟨q, -, h⟩ := Option.map_eq_some_iff.mp h
    cases h
    cases hpc
    exact .move _ rfl rfl nofun nofun (fun _ => .inr) nofun
  case h_8 id rest hpc =>
    cases h
    cases hpc
    split
    · exact .of_pc _ rfl (fun _ => List.mem_cons_of_mem _) rfl
    · rename_i hfree
      refine .move _ rfl rfl (fun _ hid => hid) (fun _ => .inl) (fun _ => .inl) ?_
      intro id' hid'
      cases hid'
      exact hfree
  case h_9 id rest hpc =>
    obtain ⟨q, hq, h⟩ := Option.map_eq_some_iff.mp h
    cases hpc
    split at h
    · cases h
      exact .took id rest q hq rfl ‹_›
    · cases h
      exact .of_pc _ rfl (fun _ => List.mem_cons_of_mem _) rfl
  case h_14 id rest winner hpc =>
    cases h
    cases hpc
    split
    · rename_i hfree
      refine .move _ rfl rfl (fun _ => List.mem_cons_of_mem _) ?_ nofun nofun
      intro id' hid'
      obtain rfl | hid' := List.mem_cons.mp hid'
      · exact .inr hfree
      · exact .inl hid'
    · exact .of_pc _ rfl nofun rfl
  case h_15 id rest winner hpc =>
    obtain ⟨q, hq, h⟩ := Option.map_eq_some_iff.mp h
    cases hpc
    split at h
    · cases h
      exact .cleared id rest winner q hq rfl
    · cases h
      exact .kept id rest winner q hq rfl ‹_›
  case h_16 => cases h
  case h_2 hpc | h_5 hpc | h_11 hpc =>
    cases h
    cases hpc
    split <;> exact .of_pc _ rfl nofun rfl
  all_goals
    rename_i hpc
    cases h
    cases hpc
    exact .of_pc _ rfl nofun rfl

/-- Every step is one of these. -/
theorem next_step (h : next m l a = some (m', l')) : Step m l a m' l' := by
  cases a with
  | go =>
    unfold next at h
    dsimp only at h
    split at h
    case h_1 => cases h
    case h_2 j rest hstack =>
      split at h
      case h_1 winner hpc =>
        cases h
        exact .ret j rest winner hstack hpc rfl
      case h_2 =>
        obtain ⟨⟨m₁, j₁⟩, hj, h⟩ := Option.map_eq_some_iff.mp h
        cases h
        exact .inner j rest m₁ j₁ hstack (joinStep_joinStep hj)
    case h_3 id rest hstack =>
      split at h
      case h_1 =>
        cases h
        exact .pop _ rest hstack nofun
      case h_2 q no hs =>
        cases h
        exact .heard id q no rest hstack hs
    case h_4 q no rest hstack =>
      cases h
      exact .pop _ rest hstack nofun
  | create q => exact yield_guard h fun ⟨hq, hf⟩ => .create q hq hf
  | fail =>
    unfold next at h
    dsimp only at h
    split at h
    case h_1 j rest hstack =>
      obtain ⟨⟨hpc, -⟩, h⟩ := Option.ite_none_right_eq_some.mp h
      cases h
      obtain ⟨no, ids, registered, pc⟩ := j
      cases hpc
      exact .inner _ rest m _ hstack (.of_pc _ rfl nofun rfl)
    case h_2 => cases h
  | close =>
    obtain ⟨hstack, h⟩ := Option.ite_none_right_eq_some.mp h
    obtain ⟨q, hq, h⟩ := Option.map_eq_some_iff.mp h
    cases h
    exact .close q hstack hq
  | join ids => exact yield_guard h fun _ => .join ids
  | wake id => exact yield_guard h fun _ => .wake id
  | settle id st => exact yield_guard h fun ⟨_, hst⟩ => .settle id st hst
  | place id => exact yield_guard h fun _ => .settle id .pending nofun
  | destroy id => exact yield_guard h fun hh => .destroy id hh

end Inversion

end Atap.Select
