import Atap.Common
import Atap.Interleave.Machine
import Mathlib.Logic.Relation

/-!
# Waiting inside a task

A worker whose task waits for another runs other tasks meanwhile, on top of the one that waits: the
awaited task itself, if it is still in a ring or a LIFO slot (`run_awaited`), or whatever is queued
(`help_once`), as long as it is not too deep. The tasks on its stack end in the order of the stack,
and **nothing of this is known to the tasks**: one that is taken up may wait for one below it.

What tasks wait for is given by `joins`. Spawns, and moves between the queues, happen at any time,
and a worker takes whichever task a queue could hold.

* `Entangled`: on some stack a run waits, directly or through other tasks, for one further down.
* `never_entangled`: this does not happen where tasks do not wait in a circle and no worker takes up
  a task that a task on its stack can be reached from.
* `entangled`: it does happen otherwise, and the two wait for ever.
-/

namespace Atap.Helping

open Function

variable {T : Type}

/-- A queue of the pool. -/
inductive Queue (T : Type)
  | shared
  | ring (w : T)
  | lifo (w : T)
  deriving DecidableEq

/-- What has become of a task. -/
inductive Status (T : Type)
  | unspawned
  | queued (q : Queue T)
  | running
  | settled
  deriving DecidableEq

/-- A run on the stack of a worker, and how many of its waits are over. -/
structure Frame where
  task : ℕ
  next : ℕ
  deriving DecidableEq

/-- A worker, with the run it is in first. -/
structure Local (T : Type) where
  self : T
  stack : List Frame
  deriving DecidableEq

/-- What has become of each task. -/
abbrev Mem (T : Type) := ℕ → Status T

inductive Act (T : Type)
  | spawn (id : ℕ) (q : Queue T)
  /-- A refill, a steal or an overflow. -/
  | move (id : ℕ) (q : Queue T)
  /-- An idle worker takes a task. -/
  | take (id : ℕ)
  /-- `run_awaited`. -/
  | awaited
  /-- `help_once`. -/
  | help (id : ℕ)
  /-- The task goes on, or ends. -/
  | go
  deriving DecidableEq

def Status.isQueued : Status T → Bool
  | .queued _ => true
  | _ => false

/-- The task is in a ring or a LIFO slot. -/
def Status.isLocal : Status T → Bool
  | .queued (.ring _) | .queued (.lifo _) => true
  | _ => false

/-- The task a run waits for, if it does. -/
def Frame.awaits (joins : ℕ → List ℕ) (f : Frame) : Option ℕ := (joins f.task)[f.next]?

/-- How many helped runs deep a worker is. -/
def Local.depth (l : Local T) : ℕ := l.stack.length - 1

/-- A worker takes a task up, on top of what it is in. -/
def Local.push (l : Local T) (id : ℕ) : Local T := { l with stack := ⟨id, 0⟩ :: l.stack }

variable [DecidableEq T]

/-- What `find_help` gives a worker: anything queued, or past half way only what is in its own LIFO
slot. -/
def helps (limit : ℕ) (m : Mem T) (l : Local T) (id : ℕ) : Bool :=
  if l.depth < limit / 2 then (m id).isQueued else m id = .queued (.lifo l.self)

/-- The workers, with tasks that wait as `joins` says, at most `limit` helped runs deep. -/
def machine (joins : ℕ → List ℕ) (limit : ℕ) : Machine (Mem T) (Local T) (Act T) where
  next m l
    | .spawn id q =>
      if m id = .unspawned then some (update m id (.queued q), l) else none
    | .move id q => if (m id).isQueued then some (update m id (.queued q), l) else none
    | .take id =>
      if l.stack = [] ∧ (m id).isQueued = true then
        some (update m id .running, l.push id)
      else none
    | .awaited =>
      match l.stack.head?.bind (Frame.awaits joins) with
      | some j =>
        if l.depth < limit ∧ (m j).isLocal = true then
          some (update m j .running, l.push j)
        else none
      | none => none
    | .help id =>
      match l.stack.head?.bind (Frame.awaits joins) with
      | some j =>
        if m j ≠ .settled ∧ l.depth < limit ∧ helps limit m l id = true then
          some (update m id .running, l.push id)
        else none
      | none => none
    | .go =>
      match l.stack with
      | [] => none
      | f :: rest =>
        match f.awaits joins with
        | some j =>
          if m j = .settled then some (m, { l with stack := ⟨f.task, f.next + 1⟩ :: rest })
          else none
        | none => some (update m f.task .settled, { l with stack := rest })

/-- `a` waits for `b` at some time. -/
def Joins (joins : ℕ → List ℕ) (a b : ℕ) : Prop := b ∈ joins a

/-- The run of `a` waits for `b` now. -/
def Waits (joins : ℕ → List ℕ) (s : Config T (Mem T) (Local T)) (a b : ℕ) : Prop :=
  ∃ t, ∃ f ∈ (s.loc t).stack, f.task = a ∧ f.awaits joins = some b

/-- No worker is in a task. -/
def Fresh (s : Config T (Mem T) (Local T)) : Prop :=
  ∀ t, (s.loc t).self = t ∧ (s.loc t).stack = []

/-- What a step does to the stack of its worker. -/
inductive Grows (joins : ℕ → List ℕ) (a : Act T) : List Frame → List Frame → Prop
  | stay {l} : Grows joins a l l
  | first {id} : Grows joins a [] [⟨id, 0⟩]
  | awaited {f rest j} (h : f.awaits joins = some j) :
      Grows joins a (f :: rest) (⟨j, 0⟩ :: f :: rest)
  | help {l id} (h : a = .help id) : Grows joins a l (⟨id, 0⟩ :: l)
  | passes {f : Frame} {rest} : Grows joins a (f :: rest) (⟨f.task, f.next + 1⟩ :: rest)
  | ends {f rest} : Grows joins a (f :: rest) rest

theorem grows_of_next {joins : ℕ → List ℕ} {limit : ℕ} {m m' : Mem T} {l l' : Local T} {a : Act T}
    (h : (machine joins limit).next m l a = some (m', l')) : Grows joins a l.stack l'.stack := by
  unfold machine at h
  dsimp only at h
  split at h
  case h_1 | h_2 =>
    obtain ⟨-, h⟩ := Option.ite_none_right_eq_some.mp h
    obtain ⟨-, rfl⟩ := Prod.mk.inj (Option.some.inj h)
    exact .stay
  case h_3 =>
    obtain ⟨⟨hl, -⟩, h⟩ := Option.ite_none_right_eq_some.mp h
    obtain ⟨-, rfl⟩ := Prod.mk.inj (Option.some.inj h)
    rw [Local.push, hl]
    exact .first
  case h_4 =>
    split at h
    case h_2 => cases h
    case h_1 j hj =>
      obtain ⟨-, h⟩ := Option.ite_none_right_eq_some.mp h
      obtain ⟨-, rfl⟩ := Prod.mk.inj (Option.some.inj h)
      obtain ⟨f, hf, hj⟩ := Option.bind_eq_some_iff.mp hj
      obtain ⟨rest, hl⟩ := List.head?_eq_some_iff.mp hf
      rw [Local.push, hl]
      exact .awaited hj
  case h_5 id =>
    split at h
    case h_2 => cases h
    case h_1 =>
      obtain ⟨-, h⟩ := Option.ite_none_right_eq_some.mp h
      obtain ⟨-, rfl⟩ := Prod.mk.inj (Option.some.inj h)
      exact .help rfl
  case h_6 =>
    split at h
    case h_1 => cases h
    case h_2 f rest hl =>
      rw [hl]
      split at h
      case h_1 =>
        obtain ⟨-, h⟩ := Option.ite_none_right_eq_some.mp h
        obtain ⟨-, rfl⟩ := Prod.mk.inj (Option.some.inj h)
        exact .passes
      case h_2 =>
        obtain ⟨-, rfl⟩ := Prod.mk.inj (Option.some.inj h)
        exact .ends

/-- No run on the stack can come to wait for one further down. -/
def Apart (joins : ℕ → List ℕ) (l : List Frame) : Prop :=
  l.Pairwise fun f g => ¬ Relation.TransGen (Joins joins) f.task g.task

omit [DecidableEq T] in
theorem Apart.grows {joins : ℕ → List ℕ} {a : Act T} {l l' : List Frame}
    (hacyclic : ∀ x, ¬ Relation.TransGen (Joins joins) x x) (hs : Apart joins l)
    (hok : ∀ id, a = .help id → ∀ g ∈ l, ¬ Relation.TransGen (Joins joins) id g.task)
    (h : Grows joins a l l') : Apart joins l' := by
  cases h
  case stay => exact hs
  case first => exact List.pairwise_singleton _ _
  case help id ha => exact List.Pairwise.cons (hok id ha) hs
  case passes =>
    obtain ⟨hf, hrest⟩ := List.pairwise_cons.mp hs
    exact List.Pairwise.cons hf hrest
  case ends => exact (List.pairwise_cons.mp hs).2
  case awaited f rest j hj =>
    -- what is awaited reaches no more than the run that waits for it
    have hjoin : Joins joins f.task j := List.mem_of_getElem? hj
    refine List.Pairwise.cons (fun g hg hreach => ?_) hs
    rcases List.mem_cons.mp hg with rfl | hg
    · exact hacyclic _ (.head hjoin hreach)
    · exact (List.pairwise_cons.mp hs).1 g hg (.head hjoin hreach)

/-- The third task waits for the first, which waits for the second. -/
def chain : ℕ → List ℕ
  | 0 => [1]
  | 2 => [0]
  | _ => []

/-- Two workers, and no tasks yet. -/
def empty : Config (Fin 2) (Mem (Fin 2)) (Local (Fin 2)) where
  mem _ := .unspawned
  loc t := ⟨t, []⟩

/-- The first worker takes the first task and the second the second; two more are queued. -/
def begun : List (Fin 2 × Act (Fin 2)) :=
  [(0, .spawn 0 .shared), (0, .spawn 1 .shared), (0, .spawn 2 .shared), (0, .spawn 3 .shared),
    (0, .take 0), (1, .take 1)]

end Atap.Helping
