import Atap.Data.Tree
import Atap.Interleave.Machine

/-!
# Gathering the outputs of a set of tasks

A task that receives a set of handles runs with one output of every task in it, in the shape of
the set. Each handle of the set is registered on its task's outputs as a leaf, whose deliveries
fill the leaf's place in the current round; the delivery that fills the last place empties the
round out of the slots, under their lock, and gives it to the receiving task once the lock is let
go. This module is that as a machine, over a set of any shape (`Tree`): a handle, or tuples,
arrays and lists of sets, with a task in as many places as one likes.

The programs, by function:

* the **spawn**: `HandleSet::link` for one leaf after the other, and `settle`;
* a **walk** of one task's registrations (`Receivers::walk`), which only one thread is in at a
  time: `GatherLeaf::deliver` with `Gather::fill`, `write_off` after a copy that panicked, and
  `leaf_gone` for a registration that is let go;
* `let_go`, from a fill, from a leaf that is gone, and from `settle`.

When tasks publish, when walks come, in which order a walk visits its registrations and which of
them it lets go are left to the schedule of the machine. So is whether the output is readable:
a walk delivers the output last published, or nothing. A section under the lock of the slots is
one step.

`deliveries`, `past` and `given` are a history, all three with the newest first; no step reads
them.
-/

namespace Atap.Gather

open Function

variable {U V : Type*}

/-- An output as it is delivered: whose it is, which of its outputs, and the value. -/
structure Item (U V : Type*) where
  task : U
  number : ℕ
  value : V
  deriving DecidableEq

/-- A round that filled: what is handed on, the deliveries it was made of, and how many outputs
each task had published by then. -/
structure Round (U V : Type*) where
  value : Tree (Item U V)
  deliveries : List (List ℕ × Item U V)
  published : U → ℕ

/-- A set, its slots, and the tasks it gathers from. -/
structure Mem (U V : Type*) where
  /-- The handles of the set, by the task of each. -/
  set : Tree U
  /-- `Gather::slots`. -/
  slots : Tree (Option (Item U V))
  /-- `Gather::target` is there. -/
  held : Bool
  /-- `Gather::leaves`. -/
  leaves : ℕ
  /-- `Gather::broken`. -/
  broken : Bool
  /-- `Gather::giving`. -/
  giving : ℕ
  /-- `LOCKED`, in the registrations of each task. -/
  walking : U → Bool
  /-- How many outputs each task has published. -/
  published : U → ℕ
  /-- The outputs each task has published. -/
  outs : U → ℕ → Option V
  /-- The places whose leaf is registered. -/
  linked : List ℕ → Bool
  /-- `Node::handed` of the leaf of each place. -/
  handed : List ℕ → ℕ
  /-- The places whose task publishes nothing more. -/
  gone : List ℕ → Bool
  /-- What was delivered since the last round filled, and where. -/
  deliveries : List (List ℕ × Item U V)
  /-- The rounds that filled. -/
  past : List (Round U V)
  /-- The rounds given to the target. -/
  given : List (Tree (Item U V))

/-- Who filled the last place of a round. -/
inductive Back (U : Type*)
  /-- A walk of this task, with a delivery to this place. -/
  | walk (u : U) (p : List ℕ)
  /-- The spawn of an empty set. -/
  | settle
  deriving DecidableEq

/-- Where a thread stands in the code. -/
inductive Pc (U V : Type*)
  | idle
  /-- The spawn, with these leaves to link. -/
  | link (rest : List (List ℕ × U))
  | settle
  /-- `walk`, with the lock held and before the next registration. -/
  | walk (u : U)
  /-- `fill`, before the lock of the slots. -/
  | fill (u : U) (p : List ℕ) (d : Item U V)
  /-- `fill`, before the copy of the target. -/
  | assembled (b : Back U) (r : Tree (Item U V))
  /-- `fill`, before the give. -/
  | give (b : Back U) (r : Tree (Item U V))
  /-- `fill`, before `giving` is lowered. -/
  | lower (b : Back U)
  /-- `fill`, before the look at `broken`. -/
  | look (b : Back U)
  | writeOff (u : U) (p : List ℕ)
  /-- `leaf_gone`, before the store of `broken`. -/
  | leave (u : U) (p : List ℕ)
  /-- `leaf_gone`, before the lock of the slots. -/
  | leaveLook (u : U) (p : List ℕ)
  /-- `let_go`, in a walk or at the end of `settle`. -/
  | letGo (u : Option U)

inductive Act (U V : Type*)
  | go
  /-- A task of the set publishes an output. -/
  | publish (u : U) (x : V)
  /-- A walk of this task's registrations begins. -/
  | walk (u : U)
  /-- The walk hands the output to the leaf of this place. -/
  | deliver (p : List ℕ)
  /-- The walk hands the output on, and the copy of it panics. -/
  | panic (p : List ℕ)
  /-- The walk lets the leaf of this place go. -/
  | drop (p : List ℕ)
  /-- The walk is over. -/
  | stop

/-- Where a thread goes once a fill returns. -/
def Back.pc : Back U → Pc U V
  | .walk u _ => .walk u
  | .settle => .letGo none

/-- The task whose walk a fill is part of. -/
def Back.task : Back U → Option U
  | .walk u _ => some u
  | .settle => none

namespace Mem

/-- A delivery to the place `p`, in `fill` under the lock. -/
def put (m : Mem U V) (p : List ℕ) (d : Item U V) : Mem U V :=
  { m with slots := m.slots.set (some d) p, deliveries := (p, d) :: m.deliveries }

/-- `HandleSet::assemble` under the lock: the round `r` is emptied out of the slots. -/
def assemble (m : Mem U V) (r : Tree (Item U V)) : Mem U V :=
  { m with
    giving := m.giving + 1
    slots := m.slots.map fun _ => none
    past := ⟨r, m.deliveries, m.published⟩ :: m.past
    deliveries := [] }

end Mem

/-- The end of `fill` under the lock. -/
def handOn (m : Mem U V) (b : Back U) : Option (Mem U V × Pc U V) :=
  if m.slots.full then m.slots.sequence.map fun r => (m.assemble r, .assembled b r)
  else some (m, b.pc)

/-- A full round can be taken out, so no thread stops at the end of `fill`. -/
theorem isSome_handOn (m : Mem U V) (b : Back U) : (handOn m b).isSome := by
  unfold handOn
  split
  case isTrue hf =>
    obtain ⟨r, hr⟩ := Tree.exists_sequence_of_full hf
    rw [hr]
    rfl
  case isFalse => rfl

section Steps

variable [DecidableEq U]

/-- The leaf of the place `p` is a registration on `u` that has not been let go. -/
def Mem.listens (m : Mem U V) (u : U) (p : List ℕ) : Prop :=
  m.set.get? p = some u ∧ m.linked p = true ∧ m.gone p = false

instance (m : Mem U V) (u : U) (p : List ℕ) : Decidable (m.listens u p) :=
  inferInstanceAs (Decidable (_ ∧ _ ∧ _))

/-- The steps of the spawn, of a task that publishes, and of the beginning of a walk. -/
def taskStep (m : Mem U V) : Pc U V → Act U V → Option (Mem U V × Pc U V)
  | .link ((p, _) :: rest), .go =>
    some ({ m with leaves := m.leaves + 1, linked := update m.linked p true }, .link rest)
  | .link [], .go => some (m, .settle)
  | .settle, .go => if m.leaves = 0 then handOn m .settle else some (m, .idle)
  | .idle, .publish u x => some ({ m with
      outs := update m.outs u (update (m.outs u) (m.published u) (some x))
      published := update m.published u (m.published u + 1) }, .idle)
  | .idle, .walk u =>
    if m.walking u then none
    else some ({ m with walking := update m.walking u true }, .walk u)
  | _, _ => none

/-- The steps of a walk. -/
def walkStep (m : Mem U V) : Pc U V → Act U V → Option (Mem U V × Pc U V)
  | .walk u, .deliver p =>
    if m.listens u p ∧ m.handed p < m.published u then
      (m.outs u (m.published u - 1)).map fun x =>
        ({ m with handed := update m.handed p (m.published u) },
          .fill u p ⟨u, m.published u - 1, x⟩)
    else none
  | .walk u, .panic p =>
    if m.listens u p ∧ m.handed p < m.published u then
      some ({ m with handed := update m.handed p (m.published u) }, .writeOff u p)
    else none
  | .walk u, .drop p => if m.listens u p then some (m, .leave u p) else none
  | .walk u, .stop => some ({ m with walking := update m.walking u false }, .idle)
  | .writeOff u p, .go => some ({ m with held := false }, .leave u p)
  | .leave u p, .go =>
    some ({ m with broken := true, gone := update m.gone p true }, .leaveLook u p)
  | .leaveLook u p, .go =>
    match m.slots.get? p with
    | some (some _) => some (m, .walk u)
    | _ => some (m, if m.giving = 0 then .letGo (some u) else .walk u)
  | _, _ => none

/-- The steps of `fill` and of `let_go`. -/
def fillStep (m : Mem U V) : Pc U V → Act U V → Option (Mem U V × Pc U V)
  | .fill u p d, .go => handOn (m.put p d) (.walk u p)
  | .assembled b r, .go => some (m, if m.held then .give b r else .lower b)
  | .give b r, .go => some ({ m with given := r :: m.given }, .lower b)
  | .lower b, .go => some ({ m with giving := m.giving - 1 }, .look b)
  | .look b, .go => some (m, if m.broken then .letGo b.task else b.pc)
  | .letGo u, .go => some ({ m with held := false }, u.elim .idle .walk)
  | _, _ => none

/-- One step of one thread. -/
def next (m : Mem U V) (pc : Pc U V) (a : Act U V) : Option (Mem U V × Pc U V) :=
  (taskStep m pc a).or ((walkStep m pc a).or (fillStep m pc a))

/-- The gathering of a set as a machine. -/
def machine (U V : Type*) [DecidableEq U] : Machine (Mem U V) (Pc U V) (Act U V) := ⟨next⟩

end Steps

/-- A set about to be linked by one thread, with its slots empty. Its tasks may have published. -/
structure Fresh {T : Type*} (handles : Tree U) (s : Config T (Mem U V) (Pc U V)) : Prop where
  set : s.mem.set = handles
  slots : s.mem.slots = handles.map fun _ => none
  held : s.mem.held = true
  leaves : s.mem.leaves = 0
  broken : s.mem.broken = false
  giving : s.mem.giving = 0
  walking : ∀ u, s.mem.walking u = false
  handed : ∀ p, s.mem.handed p = 0
  gone : ∀ p, s.mem.gone p = false
  linked : ∀ p, s.mem.linked p = false
  deliveries : s.mem.deliveries = []
  past : s.mem.past = []
  given : s.mem.given = []
  loc : ∃ t, s.loc t = .link handles.leaves ∧ ∀ u, u ≠ t → s.loc u = .idle

/-! ### What a step can do -/

section Step

variable [DecidableEq U]

/-- One step of one thread, case by case. -/
inductive Step (m : Mem U V) : Pc U V → Act U V → Mem U V → Pc U V → Prop
  | link (p : List ℕ) (u : U) (rest : List (List ℕ × U)) : Step m (.link ((p, u) :: rest)) .go
      { m with leaves := m.leaves + 1, linked := update m.linked p true } (.link rest)
  | linked : Step m (.link []) .go m .settle
  | settle (h : m.leaves ≠ 0) : Step m .settle .go m .idle
  | settlePart (h : m.leaves = 0) (hf : m.slots.full = false) :
      Step m .settle .go m (.letGo none)
  | settleRound {r : Tree (Item U V)} (h : m.leaves = 0) (hr : m.slots.sequence = some r) :
      Step m .settle .go (m.assemble r) (.assembled .settle r)
  | publish (u : U) (x : V) : Step m .idle (.publish u x) { m with
      outs := update m.outs u (update (m.outs u) (m.published u) (some x))
      published := update m.published u (m.published u + 1) } .idle
  | walk {u : U} (h : m.walking u = false) :
      Step m .idle (.walk u) { m with walking := update m.walking u true } (.walk u)
  | deliver {u : U} {p : List ℕ} {x : V} (hl : m.listens u p) (hp : m.handed p < m.published u)
      (hx : m.outs u (m.published u - 1) = some x) :
      Step m (.walk u) (.deliver p) { m with handed := update m.handed p (m.published u) }
        (.fill u p ⟨u, m.published u - 1, x⟩)
  | panic {u : U} {p : List ℕ} (hl : m.listens u p) (hp : m.handed p < m.published u) :
      Step m (.walk u) (.panic p) { m with handed := update m.handed p (m.published u) }
        (.writeOff u p)
  | drop {u : U} {p : List ℕ} (hl : m.listens u p) : Step m (.walk u) (.drop p) m (.leave u p)
  | stop (u : U) :
      Step m (.walk u) .stop { m with walking := update m.walking u false } .idle
  | writeOff (u : U) (p : List ℕ) : Step m (.writeOff u p) .go { m with held := false } (.leave u p)
  | leave (u : U) (p : List ℕ) : Step m (.leave u p) .go
      { m with broken := true, gone := update m.gone p true } (.leaveLook u p)
  | leaveFull (u : U) {p : List ℕ} {d : Item U V} (h : m.slots.get? p = some (some d)) :
      Step m (.leaveLook u p) .go m (.walk u)
  | leaveGiving (u : U) (p : List ℕ) (h : m.giving ≠ 0) : Step m (.leaveLook u p) .go m (.walk u)
  | leaveEmpty (u : U) {p : List ℕ} (h : ∀ d, m.slots.get? p ≠ some (some d)) (hg : m.giving = 0) :
      Step m (.leaveLook u p) .go m (.letGo (some u))
  | fillPart (u : U) {p : List ℕ} {d : Item U V} (h : (m.put p d).slots.full = false) :
      Step m (.fill u p d) .go (m.put p d) (.walk u)
  | fillRound (u : U) {p : List ℕ} {d : Item U V} {r : Tree (Item U V)}
      (hr : (m.put p d).slots.sequence = some r) :
      Step m (.fill u p d) .go ((m.put p d).assemble r) (.assembled (.walk u p) r)
  | copyTarget (b : Back U) (r : Tree (Item U V)) (h : m.held = true) :
      Step m (.assembled b r) .go m (.give b r)
  | noTarget (b : Back U) (r : Tree (Item U V)) (h : m.held = false) :
      Step m (.assembled b r) .go m (.lower b)
  | give (b : Back U) (r : Tree (Item U V)) :
      Step m (.give b r) .go { m with given := r :: m.given } (.lower b)
  | lower (b : Back U) : Step m (.lower b) .go { m with giving := m.giving - 1 } (.look b)
  | lookBroken (b : Back U) (h : m.broken = true) : Step m (.look b) .go m (.letGo b.task)
  | look (b : Back U) (h : m.broken = false) : Step m (.look b) .go m b.pc
  | letGo (u : Option U) :
      Step m (.letGo u) .go { m with held := false } (u.elim .idle .walk)

variable {m m' : Mem U V} {pc pc' : Pc U V} {a : Act U V}

theorem taskStep_step (h : taskStep m pc a = some (m', pc')) : Step m pc a m' pc' := by
  unfold taskStep at h
  split at h
  case h_3 =>
    split at h
    case isTrue hl =>
      unfold handOn at h
      split at h
      · obtain ⟨r, hr, heq⟩ := Option.map_eq_some_iff.mp h
        obtain ⟨rfl, rfl⟩ := Prod.mk.inj heq
        exact .settleRound hl hr
      · exact yield h (.settlePart hl (Bool.eq_false_iff.mpr ‹_›))
    case isFalse hl => exact yield h (.settle hl)
  case h_5 =>
    split at h
    · cases h
    · exact yield h (.walk (Bool.eq_false_iff.mpr ‹_›))
  case h_6 => cases h
  case h_1 | h_2 | h_4 =>
    cases h
    constructor

theorem walkStep_step (h : walkStep m pc a = some (m', pc')) : Step m pc a m' pc' := by
  unfold walkStep at h
  split at h
  case h_1 =>
    obtain ⟨hl, h⟩ := Option.ite_none_right_eq_some.mp h
    obtain ⟨x, hx, heq⟩ := Option.map_eq_some_iff.mp h
    obtain ⟨rfl, rfl⟩ := Prod.mk.inj heq
    exact .deliver hl.1 hl.2 hx
  case h_2 => exact yield_guard h fun hl => .panic hl.1 hl.2
  case h_3 => exact yield_guard h .drop
  case h_7 u p =>
    split at h
    · exact yield h (.leaveFull u ‹_›)
    · cases h
      split
      · exact .leaveEmpty u ‹_› ‹_›
      · exact .leaveGiving u p ‹_›
  case h_8 => cases h
  case h_4 | h_5 | h_6 =>
    cases h
    constructor

theorem fillStep_step (h : fillStep m pc a = some (m', pc')) : Step m pc a m' pc' := by
  unfold fillStep at h
  split at h
  case h_1 u p d =>
    unfold handOn at h
    split at h
    · obtain ⟨r, hr, heq⟩ := Option.map_eq_some_iff.mp h
      obtain ⟨rfl, rfl⟩ := Prod.mk.inj heq
      exact .fillRound u hr
    · exact yield h (.fillPart u (Bool.eq_false_iff.mpr ‹_›))
  case h_7 => cases h
  case h_2 b r =>
    exact yield_snd h (.copyTarget b r) fun hc => .noTarget b r (Bool.eq_false_iff.mpr hc)
  case h_5 b => exact yield_snd h (.lookBroken b) fun hc => .look b (Bool.eq_false_iff.mpr hc)
  case h_3 | h_4 | h_6 =>
    cases h
    constructor

/-- Every step of the machine is one of the cases. -/
theorem next_step (h : (machine U V).next m pc a = some (m', pc')) : Step m pc a m' pc' := by
  rcases Option.or_eq_some_iff.mp h with h | ⟨-, h⟩
  · exact taskStep_step h
  · rcases Option.or_eq_some_iff.mp h with h | ⟨-, h⟩
    · exact walkStep_step h
    · exact fillStep_step h

end Step

end Atap.Gather
