import Atap.Claims.Machine
import Atap.Interleave.Stakes

/-!
# What one step does with the claims

A job comes with **stakes**: what its thread has in hand for as long as the job is to be done.
A claim, the turn of a task, a task out of its slot, or the part of a slot's life that only one
thread can be in. A step is then one of a few moves: it passes a stake between the memory and
the thread, or turns one into another, whichever of the many jobs it is.

* `Job.stakes`: what a job has in hand.
* `Move`: the moves. The two things a move asks for beyond what its own memory shows are the
  conditions under which a claim may be made: there is one already, and the count does not wrap.
* `jobStep_move` and `call_move`: every step of the machine is a move.
-/

namespace Atap.Claims

open Function

/-- What a thread can have in hand. -/
inductive Stake
  /-- A claim of somebody's own. -/
  | claim (x : ℕ)
  /-- The executor's turn at a task, and with it the executor's claim. -/
  | turn (x : ℕ)
  /-- The turn at a task, with the task out of its slot. -/
  | run (x : ℕ)
  /-- A task out of its slot, and the series it publishes into. -/
  | box (x : ℕ) (s : Option ℕ)
  /-- The slot is being filled. -/
  | init (x : ℕ)
  /-- The last claim is gone, and `destroy` is not begun. -/
  | doomed (x : ℕ)
  /-- `destroy` is begun, and the task may be in the slot. -/
  | claiming (x : ℕ)
  /-- `destroy` has the task out of the slot. -/
  | dropping (x : ℕ)
  /-- `destroy` has no task left to drop. -/
  | clearing (x : ℕ)
  /-- The id is to be put on the free list. -/
  | freeing (x : ℕ)
  deriving DecidableEq

/-- A claim on the series, where there is one. -/
def claimOn : Option ℕ → List Stake
  | some p => [.claim p]
  | none => []

/-- What there is in hand between `slot` and what is done with it. -/
def Todo.stakes (x : ℕ) : Todo → List Stake
  | .drop => [.claim x]
  | .release | .run | .tick => [.turn x]
  | .stop | .give | .wake | .fire | .abandon | .timedOut _ => []

/-- What there is in hand before a job. -/
def Job.stakes : Job → List Stake
  | .look x k | .todo x k => k.stakes x
  | .cloneLook x | .cloneAdd x | .back x => [.claim x]
  | .destroy x => [.doomed x]
  | .claimDead x => [.claiming x]
  | .dropDead x s => [.dropping x, .box x s]
  | .clearParked x | .setFree x => [.clearing x]
  | .free x => [.freeing x]
  | .alloc k => claimOn k.publishes
  | .init x k => .init x :: claimOn k.publishes
  | .begin x s | .execute x s | .untime x s | .settle x s | .dropTask x s | .parkAdd x s
  | .parkPut x s | .putBack x s | .rewaitPut x s => [.run x, .box x s]
  | .enqueue x _ | .parkFlag x | .takeDown x | .requeue x | .rewaitAdd x | .afterRun x
  | .startWaiting x | .resume x | .tick x | .launchLook x | .launchAdd x | .afterLaunch x =>
    [.turn x]
  | .parkWatch _ | .unpark _ | .letGo _ | .timeParent _ | .timeSeries _ _ | .timeAdd _ _ => []
  | .timeRun _ h => claimOn h

/-- What there is in hand before a list of jobs. -/
def stakes (l : List Job) : List Stake := l.flatMap Job.stakes

@[simp] theorem stakes_cons (j : Job) (l : List Job) : stakes (j :: l) = j.stakes ++ stakes l :=
  rfl

theorem stakes_singleton (j : Job) : stakes [j] = j.stakes := List.append_nil _

theorem stakes_append (l l' : List Job) : stakes (l ++ l') = stakes l ++ stakes l' :=
  List.flatMap_append

@[simp] theorem stakes_dropSeries (s : Option ℕ) : stakes (dropSeries s) = claimOn s := by
  cases s <;> rfl

@[simp] theorem stakes_stopSeries (s : Option ℕ) : stakes (stopSeries s) = claimOn s := by
  cases s <;> rfl

@[simp] theorem stakes_spawned (x : ℕ) (k : Kind) : (spawned x k).stakes = [.claim x] := by
  cases k <;> rfl

/-- One step, by what it passes between the memory and the thread. -/
inductive Move : Mem → List Stake → Mem → List Stake → Prop
  /-- What is in hand stays there. -/
  | pass {m : Mem} {a : List Stake} (p : ℕ → Option ℕ) (d : ℕ → ℕ) :
      Move m a { m with parent := p, deadline := d } a
  | perm {m m' : Mem} {a a' b : List Stake} (h : Move m a m' a') (hp : a'.Perm b) : Move m a m' b
  /-- The slot of a task in hand reads `Free`. -/
  | gone {m : Mem} {a b : List Stake} {x : ℕ} (hx : Stake.turn x ∈ a ∨ Stake.claim x ∈ a)
      (h : m.free x = true) : Move m a m b
  /-- A turn is let go without a word. -/
  | lapse {m : Mem} {x : ℕ} : Move m [.turn x] m []
  | put {m : Mem} {x : ℕ} {r : Place} : Move m [.turn x] (m.put x r) []
  | take {m : Mem} {a : List Stake} {x : ℕ} {r : Place} (h : m.rest x r = true) :
      Move m a (m.take x r) (.turn x :: a)
  | add {m : Mem} {a : List Stake} {x : ℕ}
      (hx : Stake.turn x ∈ a ∨ Stake.run x ∈ a ∨ Stake.claim x ∈ a ∨ (m.runs x).Nonempty)
      (hb : m.listeners x + 1 < 2 ^ 32) : Move m a (m.addListener x) (.claim x :: a)
  | use {m : Mem} {x : ℕ} (h : 0 < m.handles x) :
      Move m [] { m with handles := update m.handles x (m.handles x - 1) } [.claim x]
  | back {m : Mem} {x : ℕ} :
      Move m [.claim x] { m with handles := update m.handles x (m.handles x + 1) } []
  | drop {m : Mem} {x : ℕ} (h : m.listeners x ≠ 1) : Move m [.claim x] (m.dropListener x) []
  | dropLast {m : Mem} {x : ℕ} (h : m.listeners x = 1) :
      Move m [.claim x] (m.dropListener x) [.doomed x]
  | release {m : Mem} {x : ℕ} (h : m.held x = true) :
      Move m [.turn x] { m with held := update m.held x false } [.claim x]
  | takeTask {m : Mem} {x : ℕ} {s : Option ℕ} (h : m.task x = some s) :
      Move m [.turn x] (m.setTask x none) [.run x, .box x s]
  | putTask {m : Mem} {x : ℕ} {s : Option ℕ} :
      Move m [.run x, .box x s] (m.setTask x (some s)) [.turn x]
  | dropTask {m : Mem} {x : ℕ} {s : Option ℕ} :
      Move m [.run x, .box x s] (m.dropRun x s) (.turn x :: claimOn s)
  | alloc {m : Mem} {a : List Stake} {x : ℕ} (h : m.avail x = true) :
      Move m a { m with
        avail := update m.avail x false
        allocs := update m.allocs x (m.allocs x + 1) } (.init x :: a)
  | init {m : Mem} {x : ℕ} {k : Kind} {timed : Bool} :
      Move m (.init x :: claimOn k.publishes) (m.initSlot x k timed) [.turn x, .claim x]
  | refused {m : Mem} {a : List Stake} {x : ℕ} : Move m (.init x :: a) m (.freeing x :: a)
  | destroy {m : Mem} {x : ℕ} :
      Move m [.doomed x] { m with
        parent := update m.parent x none
        destroyed := update m.destroyed x (m.destroyed x + 1) } [.claiming x]
  | claimDead {m : Mem} {x : ℕ} {s : Option ℕ} (h : m.task x = some s) :
      Move m [.claiming x] (m.setTask x none) [.dropping x, .box x s]
  | claimNone {m : Mem} {x : ℕ} (h : m.task x = none) : Move m [.claiming x] m [.clearing x]
  | dropDead {m : Mem} {x : ℕ} {s : Option ℕ} :
      Move m [.dropping x, .box x s] (m.dropRun x s) (.clearing x :: claimOn s)
  | clearParked {m : Mem} {x : ℕ} : Move m [.clearing x] (m.take x .park) [.clearing x]
  | setFree {m : Mem} {x : ℕ} :
      Move m [.clearing x] { m with free := update m.free x true } [.freeing x]
  | free {m : Mem} {x : ℕ} :
      Move m [.freeing x] { m with
        avail := update m.avail x true
        freed := update m.freed x (m.freed x + 1) } []

/-- The slot a job is about to make a claim on. -/
def Job.adds : Job → Option ℕ
  | .cloneAdd x | .parkAdd x _ | .rewaitAdd x | .launchAdd x => some x
  | .timeAdd _ p => some p
  | _ => none

/-- The run that is being timed out still has its claim on its series. Every other claim is made
by somebody who has one. -/
def Backed (m : Mem) : Job → Prop
  | .timeAdd x p => x ∈ m.runs p
  | _ => True

instance (m : Mem) : DecidablePred (Backed m) := fun j => by
  cases j <;> unfold Backed <;> infer_instance

/-- A claim may be made: it is backed by one, and the count does not wrap. -/
@[mk_iff]
structure Sound (m : Mem) (j : Job) : Prop where
  backed : Backed m j
  room : ∀ x ∈ j.adds, m.listeners x + 1 < 2 ^ 32

instance (m : Mem) (j : Job) : Decidable (Sound m j) :=
  decidable_of_iff' _ (sound_iff m j)

variable {m m' : Mem} {j : Job} {js l : List Job} {c : Act} {x : ℕ}

theorem Move.same {a : List Stake} : Move m a m a := .pass m.parent m.deadline

/-- A turn that rests somewhere is taken up, or there is none to take. -/
theorem take_move {r : Place} {l : List Job} (hl : stakes l = [.turn x])
    (h : (if m.rest x r then some (m.take x r, l) else some (m, [])) = some (m', js)) :
    Move m [] m' (stakes js) := by
  split at h
  case isTrue hr =>
    cases h
    exact hl ▸ .take hr
  case isFalse =>
    cases h
    exact .same

/-- What follows `slot` is a move. -/
theorem todoStep_move {k : Todo} (h : todoStep m x k c = some (m', js)) :
    Move m (k.stakes x) m' (stakes js) := by
  unfold todoStep at h
  split at h
  case h_1 =>
    cases h
    split
    · exact .dropLast ‹_›
    · exact .drop ‹_›
  case h_2 =>
    split at h
    · cases h
      exact .release ‹_›
    · cases h
      exact .lapse
  case h_3 =>
    split at h
    · cases h
      exact .takeTask ‹_›
    · cases h
      exact .lapse
  case h_6 | h_7 => exact take_move rfl h
  case h_8 => exact take_move (by split <;> rfl) h
  case h_12 =>
    cases h
    split <;> exact .same
  case h_13 => cases h
  all_goals
    cases h
    exact .same

/-- The making and the end of a slot's life are moves. -/
theorem lifeStep_move (hj : Sound m j) (h : lifeStep m j c = some (m', js)) :
    Move m j.stakes m' (stakes js) := by
  unfold lifeStep at h
  split at h
  case h_1 x k =>
    cases h
    split
    case isTrue hf =>
      cases k
      case drop | release | run | tick =>
        exact .gone (x := x) (by simp [Job.stakes, Todo.stakes]) hf
      all_goals exact .same
    case isFalse =>
      rw [stakes_singleton]
      exact .same
  case h_2 x k => exact todoStep_move h
  case h_3 x =>
    cases h
    split
    case isTrue hf => exact .gone (x := x) (by simp [Job.stakes]) hf
    case isFalse => exact .same
  case h_4 x =>
    cases h
    exact .add (by simp [Job.stakes]) (hj.room x rfl)
  case h_7 x =>
    split at h
    case h_1 s hs =>
      cases h
      exact .claimDead hs
    case h_2 hs =>
      cases h
      exact .claimNone hs
  case h_8 x s =>
    cases h
    refine (Move.dropDead (x := x) (s := s)).perm ?_
    rw [stakes_append, stakes_dropSeries]
    exact (List.perm_append_singleton (.clearing x) (claimOn s)).symm
  case h_12 k x =>
    split at h
    case isTrue ha =>
      cases h
      rw [stakes_singleton]
      exact .alloc ha
    case isFalse => cases h
  case h_13 k =>
    cases h
    rw [stakes_dropSeries]
    exact .same
  case h_14 | h_15 =>
    cases h
    rw [stakes_cons, stakes_singleton, stakes_spawned]
    exact .init
  case h_16 =>
    cases h
    rw [stakes_cons, stakes_dropSeries]
    exact .refused
  case h_17 x k =>
    split at h
    · cases h
      exact .put
    · split at h
      · cases h
        exact .same
      · cases h
        exact .put
  all_goals cases h
  case h_5 => exact .back
  case h_6 => exact .destroy
  case h_9 => exact .clearParked
  case h_10 => exact .setFree
  case h_11 => exact .free
  case h_18 => exact .put
  case h_19 => exact .same

/-- A run and what follows it are moves. -/
theorem runStep_move (hj : Sound m j) (h : runStep m j c = some (m', js)) :
    Move m j.stakes m' (stakes js) := by
  unfold runStep at h
  split at h
  case h_10 x s =>
    cases h
    refine (Move.dropTask (x := x) (s := s)).perm ?_
    rw [stakes_append, stakes_dropSeries]
    exact (List.perm_append_singleton (.turn x) (claimOn s)).symm
  case h_11 x s =>
    cases h
    refine (Move.add (.inr (.inl (List.mem_cons_self ..))) (hj.room x rfl)).perm ?_
    exact (List.perm_append_singleton (Stake.claim x) [Stake.run x, Stake.box x s]).symm
  case h_16 => exact take_move rfl h
  case h_17 =>
    split at h
    case h_1 s hs =>
      cases h
      exact .takeTask hs
    case h_2 =>
      cases h
      exact .same
  all_goals cases h
  case h_12 | h_18 => exact .putTask
  case h_13 | h_19 | h_20 | h_23 => exact .put
  case h_2 | h_6 => exact .pass _ _
  all_goals exact .same

/-- Gives, series and timeouts are moves. -/
theorem seriesStep_move (hj : Sound m j) (h : seriesStep m j c = some (m', js)) :
    Move m j.stakes m' (stakes js) := by
  unfold seriesStep at h
  split at h
  case h_2 x =>
    cases h
    exact (Move.add (.inl (List.mem_cons_self ..)) (hj.room x rfl)).perm (.swap ..)
  case h_6 => exact take_move rfl h
  case h_7 | h_20 | h_21 =>
    cases h
    split <;> exact .same
  case h_14 x =>
    cases h
    split
    case isTrue hf => exact .gone (.inl (List.mem_cons_self ..)) hf
    case isFalse => exact .same
  case h_15 x =>
    cases h
    exact .add (.inl (List.mem_cons_self ..)) (hj.room x rfl)
  case h_22 x p =>
    cases h
    exact .add (.inr (.inr (.inr ⟨x, hj.backed⟩))) (hj.room p rfl)
  case h_23 x s =>
    split at h
    case isTrue hr =>
      cases h
      rw [stakes_cons, stakes_stopSeries]
      exact .take hr
    case isFalse =>
      cases h
      rw [stakes_cons, stakes_cons, stakes_stopSeries]
      exact .same
  case h_24 x s =>
    split at h
    case isTrue => cases h
    case isFalse =>
      cases h
      rw [stakes_dropSeries]
      exact .same
  all_goals cases h
  case h_1 => exact .putTask
  case h_3 | h_8 | h_16 => exact .put
  all_goals exact .same

theorem jobStep_move (hj : Sound m j) (h : jobStep m j c = some (m', js)) :
    Move m j.stakes m' (stakes js) := by
  rcases Option.or_eq_some_iff.mp h with h | ⟨-, h⟩
  · exact lifeStep_move hj h
  · rcases Option.or_eq_some_iff.mp h with h | ⟨-, h⟩
    · exact runStep_move hj h
    · exact seriesStep_move hj h

theorem useHandle_move (hl : stakes l = [.claim x]) (h : m.useHandle x l = some (m', js)) :
    Move m [] m' (stakes js) := by
  unfold Mem.useHandle at h
  split at h
  case isTrue hx =>
    cases h
    exact hl ▸ .use hx
  case isFalse => cases h

/-- What is begun from outside is a move. -/
theorem call_move (h : call m c = some (m', js)) : Move m [] m' (stakes js) := by
  unfold call at h
  split at h
  case h_1 k =>
    split at h
    case isTrue hk =>
      cases h
      rw [stakes_singleton, Job.stakes, hk]
      exact .same
    case isFalse => cases h
  case h_2 | h_3 | h_4 | h_5 => exact useHandle_move rfl h
  case h_6 | h_7 =>
    split at h
    case isTrue hr =>
      cases h
      exact .take hr
    case isFalse => cases h
  case h_11 => cases h
  all_goals
    cases h
    exact .same

/-- The steps of a run on which every claim is made with another behind it, and with room in
the count. -/
def Guarded {T : Type*} (s : Config T Mem (List Job)) (t : T) (c : Act) : Prop :=
  call s.mem c = none → ∀ j ∈ (s.loc t).head?, Sound s.mem j

instance {T : Type*} (s : Config T Mem (List Job)) (t : T) (c : Act) : Decidable (Guarded s t c) :=
  decidable_of_iff ((call s.mem c).isSome = true ∨ ∀ j ∈ (s.loc t).head?, Sound s.mem j) <| by
    unfold Guarded
    cases call s.mem c <;> simp

/-- **Every step is a move**, on the stakes at the front of what its thread has in hand. -/
theorem next_move {l' : List Job} (hg : call m c = none → ∀ j ∈ l.head?, Sound m j)
    (h : machine.next m l c = some (m', l')) :
    ∃ a a' b, stakes l = a ++ b ∧ stakes l' = a' ++ b ∧ Move m a m' a' := by
  cases hc : call m c with
  | some r =>
    obtain ⟨m₁, js⟩ := r
    simp only [machine, hc, Option.some.injEq, Prod.mk.injEq] at h
    obtain ⟨rfl, rfl⟩ := h
    exact ⟨[], stakes js, stakes l, rfl, stakes_append js l, call_move hc⟩
  | none =>
    cases l with
    | nil => simp [machine, hc] at h
    | cons j l =>
      simp only [machine, hc, Option.map_eq_some_iff, Prod.mk.injEq] at h
      obtain ⟨⟨m₁, js⟩, hj, rfl, rfl⟩ := h
      exact ⟨j.stakes, stakes js, stakes l, rfl, stakes_append js l,
        jobStep_move (hg hc j rfl) hj⟩

end Atap.Claims
