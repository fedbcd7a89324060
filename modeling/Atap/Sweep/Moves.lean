import Atap.Interleave.Stakes
import Atap.Sweep.Machine

/-!
# What one step does with the claims and the turn

A job comes with what its thread has in hand for as long as the job is to be done (`Job.stakes`),
and a step is one of a few moves (`Move`): it passes the turn between the memory and a thread,
makes or drops a claim, or turns one stake into another, whichever of the many jobs it is.

Two moves ask for more than what they touch. A sweep gives the executor's claim back without having
the turn; `Orderly` has it find the turn nowhere, and nobody about to take it up again. And a timer
that is refused is taken for one that never went off.
-/

namespace Atap.Sweep

/-- What a thread can have in hand. -/
inductive Stake
  /-- A claim of somebody's own. -/
  | claim
  /-- The turn at the task, and with it the executor's claim. -/
  | turn
  /-- The slot is marked `QUEUED_SHARED` and not part of a chain. -/
  | link
  /-- The thread may yet take the turn from a timer. -/
  | watch
  /-- The last claim is gone, and the slot is being destroyed. -/
  | doomed
  /-- The slot is empty, and its id on its way from or to the table. -/
  | empty
  deriving DecidableEq

/-- What there is in hand between `slot` and what is done with it. -/
def Todo.stakes : Todo → List Stake
  | .drop | .clone => [.claim]
  | .release | .run | .fail => [.turn]
  | .claimShared | .relink => [.link]
  | .fire => [.watch]
  | _ => []

/-- What there is in hand before a job. -/
def Job.stakes : Job → List Stake
  | .look k | .todo k => k.stakes
  | .back => [.claim]
  | .destroy | .destroyTask | .destroyParked | .setFree => [.doomed]
  | .free | .init _ _ => [.empty]
  | .start _ | .queue _ | .push _ | .mark | .pushLocal _ | .markLocal _ | .arm _ | .hand | .begin
  | .beginKind | .beginReady | .beginTaken | .beginState | .execute | .publish | .published
  | .rearm | .rewaitPut | .rewaitAdd | .afterRun | .startWaiting | .parkAdd | .parkPut
  | .parkFlag => [.turn]
  | .link => [.link]
  | .timer _ | .disarm _ => [.watch]
  | _ => []

/-- What there is in hand before a list of jobs. -/
def stakes (l : List Job) : List Stake := l.flatMap Job.stakes

theorem stakes_append (l l' : List Job) : stakes (l ++ l') = stakes l ++ stakes l' :=
  List.flatMap_append

@[simp] theorem stakes_refused (g : Giver) : stakes g.refused = [.turn] := by
  cases g <;> rfl

/-- One step, by what it passes between the memory and the thread. `calm` says that nobody has the
turn in hand, or may take it from a timer. -/
inductive Move (calm : Prop) : Mem → List Stake → Mem → List Stake → Prop
  /-- What is in hand stays there. -/
  | pass {m : Mem} {a : List Stake} (s : TaskState) (k : TaskKind) (b : Bool)
      (hs : s = .free → m.state = .free) :
      Move calm m a { m with state := s, kind := k, task := b } a
  | perm {m m' : Mem} {a a' b : List Stake} (h : Move calm m a m' a') (hp : a'.Perm b) :
      Move calm m a m' b
  /-- The slot of a task in hand reads `Free`. -/
  | gone {m : Mem} {a b : List Stake} (ha : .turn ∈ a ∨ .claim ∈ a ∨ .link ∈ a)
      (h : m.state = .free) : Move calm m a m b
  /-- A turn, or the chance of one, is let go without a word. -/
  | lapse {m : Mem} {i : Stake} (hi : i = .turn ∨ i = .watch) : Move calm m [i] m []
  | queue {m : Mem} : Move calm m [.turn] { m with mark := .shared } [.link]
  | place {m : Mem} : Move calm m [.turn] { m with mark := .atWorker } []
  | takeLocal {m : Mem} (h : m.mark = .atWorker) :
      Move calm m [] { m with mark := .nowhere } [.turn]
  | claimShared {m : Mem} : Move calm m [.link] { m with mark := .nowhere } [.turn]
  | unmarked {m : Mem} {a : List Stake} (h : m.mark ≠ .shared) : Move calm m [.link] m a
  | link {m : Mem} : Move calm m [.link] { m with linked := true } []
  | unlink {m : Mem} (h : m.linked = true) : Move calm m [] { m with linked := false } [.link]
  | arm {m : Mem} : Move calm m [.turn] { m with armed := true } [.watch]
  | disarm {m : Mem} (h : m.armed = true) : Move calm m [.watch] { m with armed := false } [.turn]
  | off {m : Mem} : Move calm m [] { m with armed := false } []
  | watch {m : Mem} (h : m.manager = true) : Move calm m [] m [.watch]
  | park {m : Mem} : Move calm m [.turn] { m with parked := true } []
  | unpark {m : Mem} (h : m.parked = true) : Move calm m [] { m with parked := false } [.turn]
  | clearParked {m : Mem} {a : List Stake} : Move calm m a { m with parked := false } a
  | wait {m : Mem} : Move calm m [.turn] { m with gate := some .waiting } []
  | leave {m : Mem} {g : Option Gate} (h : m.gate = some .waiting) (hg : g ≠ some .waiting) :
      Move calm m [] { m with gate := g } [.turn]
  | shut {m : Mem} {a : List Stake} {g : Option Gate} (hg : g ≠ some .waiting) :
      Move calm m a { m with gate := g } a
  | release {m : Mem} : Move calm m [.turn] { m with held := false } [.claim]
  | sweep {m : Mem} (hc : calm) (hh : m.held = true) (hm : m.mark = .nowhere)
      (hp : m.parked = false) (hg : m.gate ≠ some .waiting) (hd : m.manager = false) :
      Move calm m [] { m with held := false } [.claim]
  | add {m : Mem} {a : List Stake} (ha : .turn ∈ a ∨ .claim ∈ a)
      (hb : m.listeners + 1 < 2 ^ 32) : Move calm m a m.addListener (.claim :: a)
  | use {m : Mem} (h : 0 < m.handles) :
      Move calm m [] { m with handles := m.handles - 1 } [.claim]
  | back {m : Mem} : Move calm m [.claim] { m with handles := m.handles + 1 } []
  | drop {m : Mem} (h : m.listeners ≠ 1) : Move calm m [.claim] m.dropListener []
  | dropLast {m : Mem} (h : m.listeners = 1) : Move calm m [.claim] m.dropListener [.doomed]
  | setFree {m : Mem} : Move calm m [.doomed] { m with state := .free } [.empty]
  | free {m : Mem} : Move calm m [.empty] { m with avail := true } []
  | alloc {m : Mem} (h : m.avail = true) : Move calm m [] { m with avail := false } [.empty]
  | init {m : Mem} (k : TaskKind) : Move calm m [.empty] (m.initSlot k) [.turn, .claim]
  | giveUp {m : Mem} : Move calm m [] { m with manager := false } []

/-- What keeps a job from taking a claim away that somebody counts on. -/
def Job.fine (m : Mem) (calm : Bool) : Job → Bool
  -- A sweep finds the turn nowhere, and the manager's thread gone.
  | .todo .sweep => !m.held || (m.mark == .nowhere && !m.parked && m.gate != some .waiting &&
      !m.manager && calm)
  -- A timer that is refused has not gone off meanwhile.
  | .disarm _ => m.armed
  -- The count does not wrap.
  | .todo .clone | .rewaitAdd | .parkAdd => decide (m.listeners + 1 < 2 ^ 32)
  | _ => true

section Step

variable {m m' : Mem} {j : Job} {js l : List Job} {a : Act} {c : Bool} {calm : Prop}

theorem Move.same {b : List Stake} : Move calm m b m b := .pass m.state m.kind m.task id

/-- A move of the task's state, to one that is not `Free`. -/
theorem Move.state {b : List Stake} {s : TaskState} (h : s ≠ .free) :
    Move calm m b { m with state := s } b := .pass s m.kind m.task fun hs => absurd hs h

theorem Move.task {b : List Stake} (x : Bool) : Move calm m b { m with task := x } b :=
  .pass m.state m.kind x id

theorem Move.finishGate {b : List Stake} : Move calm m b m.finishGate b :=
  .shut (by cases m.gate <;> nofun)

/-- `release` gives the claim back, if it was not given back already. -/
theorem Move.giveBack : Move calm m [.turn] { m with held := false }
    (stakes (if m.held then [.look .drop] else [])) := by
  split
  case isTrue => exact .release
  case isFalse hh =>
    have : { m with held := false } = m := by rw [← Bool.eq_false_iff.mpr hh]
    rw [this]
    exact .lapse (.inl rfl)

/-- A sweep gives the claim back, if it was not given back already. -/
theorem Move.sweepBack (hf : (Job.todo .sweep).fine m c = true) :
    Move (c = true) m [] { m with held := false }
      (stakes (if m.held then [.look .drop] else [])) := by
  split
  case isTrue hh =>
    simp only [Job.fine, hh, Bool.not_true, Bool.false_or, Bool.and_eq_true, beq_iff_eq,
      Bool.not_eq_true', bne_iff_ne] at hf
    obtain ⟨⟨⟨⟨hm, hp⟩, hg⟩, hd⟩, hc⟩ := hf
    exact .sweep hc hh hm hp hg hd
  case isFalse hh =>
    have : { m with held := false } = m := by rw [← Bool.eq_false_iff.mpr hh]
    rw [this]
    exact .same

/-- What follows `slot` is a move. -/
theorem todoStep_move {k : Todo} (hf : (Job.todo k).fine m c = true)
    (h : todoStep m k a = some (m', js)) : Move (c = true) m k.stakes m' (stakes js) := by
  unfold todoStep at h
  split at h
  case h_6 =>
    split at h
    all_goals cases h
    · exact .same
    · exact .state nofun
  case h_7 =>
    split at h
    all_goals cases h
    · exact .leave ‹_› nofun
    · exact .same
  case h_13 =>
    split at h
    all_goals cases h
    · exact .claimShared
    · exact .unmarked ‹_›
  case h_15 =>
    split at h
    all_goals cases h
    · exact .disarm ‹_›
    · exact .lapse (.inr rfl)
  case h_16 | h_17 =>
    split at h
    all_goals cases h
    · exact .unpark ‹_›
    · exact .same
  all_goals cases h
  case h_1 =>
    split
    · exact .dropLast ‹_›
    · exact .drop ‹_›
  case h_2 => exact .giveBack
  case h_3 => exact .sweepBack hf
  case h_4 =>
    split
    · exact .task false
    case isFalse ht =>
      have : { m with task := false } = m := by rw [← Bool.eq_false_iff.mpr ht]
      rw [this]
      exact .lapse (.inl rfl)
  case h_5 => exact .add (.inr (List.mem_singleton_self _)) (of_decide_eq_true hf)
  case h_11 =>
    split
    · exact .same
    · exact .state nofun
  case h_12 | h_18 => split <;> exact .same
  case h_14 => exact .link
  case h_19 => exact .off
  all_goals exact .same

/-- The making and the end of a life are moves. -/
theorem lifeStep_move (hf : j.fine m c = true) (h : lifeStep m j a = some (m', js)) :
    Move (c = true) m j.stakes m' (stakes js) := by
  unfold lifeStep at h
  split at h
  case h_2 k => exact todoStep_move hf h
  all_goals cases h
  case h_1 k =>
    split
    case isTrue hs =>
      cases k
      case fire => exact .lapse (.inr rfl)
      case drop | release | run | clone | fail | claimShared | relink =>
        exact .gone (by simp [Job.stakes, Todo.stakes]) hs
      all_goals exact .same
    case isFalse =>
      rw [stakes, List.flatMap_singleton]
      exact .same
  case h_3 => exact .back
  case h_4 => exact .finishGate
  case h_5 => exact .task false
  case h_6 => exact .clearParked
  case h_7 => exact .setFree
  case h_8 => exact .free
  case h_9 k waits => exact .init k
  case h_11 => exact .wait
  all_goals exact .same

/-- What the pool and the timers do are moves. -/
theorem poolStep_move (hf : j.fine m c = true) (h : poolStep m j a = some (m', js)) :
    Move (c = true) m j.stakes m' (stakes js) := by
  unfold poolStep at h
  split at h
  case h_10 =>
    split at h
    all_goals cases h
    · exact .takeLocal ‹_›
    · exact .same
  case h_12 =>
    obtain ⟨-, h⟩ := Option.ite_none_right_eq_some.mp h
    cases h
    exact .lapse (.inr rfl)
  all_goals cases h
  case h_3 g => rw [stakes_refused]; exact .same
  case h_4 g | h_6 g =>
    split
    · rw [stakes_refused]; exact .same
    · exact .same
  case h_5 => exact .queue
  case h_7 => exact .place
  case h_8 => exact .link
  case h_11 => exact .arm
  case h_14 g => rw [stakes_refused]; exact .disarm hf
  all_goals exact .same

/-- A run and what follows it are moves. -/
theorem runStep_move (hf : j.fine m c = true) (h : runStep m j a = some (m', js)) :
    Move (c = true) m j.stakes m' (stakes js) := by
  unfold runStep at h
  split at h
  case h_1 | h_3 | h_4 | h_10 =>
    split at h
    all_goals cases h
    · exact .state nofun
    · exact .same
  case h_11 =>
    obtain ⟨-, h⟩ := Option.ite_none_left_eq_some.mp h
    cases h
    split <;> exact .same
  case h_12 | h_18 | h_27 =>
    obtain ⟨-, h⟩ := Option.ite_none_right_eq_some.mp h
    cases h
    exact .same
  case h_13 =>
    obtain ⟨-, h⟩ := Option.ite_none_right_eq_some.mp h
    cases h
    split <;> exact .same
  case h_17 =>
    split at h
    all_goals cases h
    · exact .wait
    · exact .lapse (.inl rfl)
    · exact .same
    · exact .same
  case h_19 =>
    obtain ⟨-, h⟩ := Option.ite_none_right_eq_some.mp h
    cases h
    exact .shut nofun
  case h_21 =>
    split at h
    all_goals cases h
    · exact .leave ‹_› nofun
    · exact .same
  all_goals cases h
  case h_2 | h_5 | h_29 => split <;> exact .same
  case h_14 => split <;> exact .task true
  case h_15 | h_25 => exact .task true
  case h_16 | h_24 =>
    exact (Move.add (.inl (List.mem_singleton_self _)) (of_decide_eq_true hf)).perm (.swap ..)
  case h_26 => exact .park
  all_goals exact .same

/-- Endings and sweeps are moves. -/
theorem endStep_move (h : endStep m j a = some (m', js)) :
    Move (c = true) m j.stakes m' (stakes js) := by
  unfold endStep at h
  split at h
  case h_2 =>
    split at h
    all_goals cases h
    · exact .state nofun
    · exact .same
  case h_7 =>
    split at h
    all_goals cases h
    · exact .unpark ‹_›
    · exact .same
  case h_8 =>
    split at h
    all_goals cases h
    · exact .leave ‹_› nofun
    · exact .same
  case h_9 =>
    split at h
    all_goals cases h
    · exact .leave ‹_› nofun
    · exact .finishGate
  case h_10 parked =>
    split at h
    all_goals cases h
    · cases parked <;> exact .state nofun
    · exact .same
  all_goals cases h
  case h_3 => exact .state nofun
  case h_4 => exact .finishGate
  case h_5 => exact .task false
  case h_6 => exact .pass m.state .once m.task id
  case h_11 | h_12 | h_13 => split <;> exact .same
  case h_14 =>
    split
    · exact .same
    · split <;> exact .same
  all_goals exact .same

theorem jobStep_move (hf : j.fine m c = true) (h : jobStep m j a = some (m', js)) :
    Move (c = true) m j.stakes m' (stakes js) := by
  simp only [jobStep, Option.or_eq_some_iff] at h
  rcases h with h | ⟨-, h | ⟨-, h | ⟨-, h⟩⟩⟩
  · exact lifeStep_move hf h
  · exact poolStep_move hf h
  · exact runStep_move hf h
  · exact endStep_move h

theorem useHandle_move (hl : stakes l = [.claim]) (h : m.useHandle l = some (m', js)) :
    Move calm m [] m' (stakes js) := by
  unfold Mem.useHandle at h
  obtain ⟨hx, h⟩ := Option.ite_none_right_eq_some.mp h
  cases h
  exact hl ▸ .use hx

/-- What is begun from outside is a move. -/
theorem call_move (h : call m a = some (m', js)) : Move calm m [] m' (stakes js) := by
  unfold call at h
  split at h
  case h_1 =>
    obtain ⟨ha, h⟩ := Option.ite_none_right_eq_some.mp h
    cases h
    exact .alloc (Bool.and_eq_true_iff.mp ha).1
  case h_2 | h_3 | h_4 | h_5 | h_6 => exact useHandle_move rfl h
  case h_7 | h_8 =>
    obtain ⟨hl, h⟩ := Option.ite_none_right_eq_some.mp h
    cases h
    exact .unlink hl
  case h_9 =>
    obtain ⟨hm, h⟩ := Option.ite_none_right_eq_some.mp h
    cases h
    exact .takeLocal hm
  case h_10 =>
    obtain ⟨hm, h⟩ := Option.ite_none_right_eq_some.mp h
    cases h
    exact .watch hm
  case h_11 | h_12 =>
    obtain ⟨-, h⟩ := Option.ite_none_right_eq_some.mp h
    cases h
    exact .same
  case h_13 =>
    cases h
    exact .giveUp
  case h_14 | h_15 | h_16 =>
    obtain ⟨-, h⟩ := Option.ite_none_left_eq_some.mp h
    cases h
    exact .same
  case h_17 => cases h

end Step

end Atap.Sweep
