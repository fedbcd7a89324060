import Mathlib.Data.List.Basic
import Mathlib.Data.Option.Basic

/-!
# Trees with their values at the leaves

A `Tree α` is a value, or a list of trees: the shape tuples, arrays and lists have when they are
nested. A leaf is addressed by the path of indices down to it.

* `get?`, `set`: what stands at the leaf a path leads to, and another value put there. A path that
  does not lead to a leaf has no value, and putting one there changes nothing.
* `shape`: the tree without its values. Putting a value at a leaf, and `map`, leave it alone.
* `full`, `sequence`: a tree of options whose leaves all hold a value, and the tree of those
  values.
* `leaves`: every leaf with its path, from left to right; `mem_leaves` says that these are the
  paths `get?` knows.
-/

namespace Atap

variable {α β : Type*}

/-- A value, or a list of trees. -/
inductive Tree (α : Type*)
  | leaf (a : α)
  | node (subs : List (Tree α))
  deriving Repr

namespace Tree

/-- The induction rule of trees, with the hypothesis for every tree in the list. -/
@[elab_as_elim, induction_eliminator]
theorem induction {P : Tree α → Prop} (leaf : ∀ a, P (.leaf a))
    (node : ∀ subs, (∀ t ∈ subs, P t) → P (.node subs)) (t : Tree α) : P t :=
  Tree.rec leaf (fun subs h => node subs h) nofun
    (fun t ts ht hts u hu => by
      rcases List.mem_cons.mp hu with rfl | hu
      · exact ht
      · exact hts u hu) t

mutual

/-- The tree with another value at every leaf. -/
def map (f : α → β) : Tree α → Tree β
  | leaf a => leaf (f a)
  | node ts => node (mapList f ts)

/-- `map` for each tree of a list. -/
def mapList (f : α → β) : List (Tree α) → List (Tree β)
  | [] => []
  | t :: ts => map f t :: mapList f ts

end

/-- The value at the leaf a path leads to. -/
def get? : List ℕ → Tree α → Option α
  | [], leaf a => some a
  | i :: p, node ts => ts[i]?.bind (get? p)
  | _, _ => none

/-- Another value at the leaf a path leads to. -/
def set (b : α) : List ℕ → Tree α → Tree α
  | [], leaf _ => leaf b
  | i :: p, node ts => node (ts.modify i (set b p))
  | _, t => t

mutual

/-- Every leaf holds a value. -/
def full : Tree (Option α) → Bool
  | leaf a => a.isSome
  | node ts => fullList ts

/-- `full` for each tree of a list. -/
def fullList : List (Tree (Option α)) → Bool
  | [] => true
  | t :: ts => full t && fullList ts

end

mutual

/-- The values at the leaves, if every leaf holds one. -/
def sequence : Tree (Option α) → Option (Tree α)
  | leaf a => a.map leaf
  | node ts => (sequenceList ts).map node

/-- `sequence` for each tree of a list. -/
def sequenceList : List (Tree (Option α)) → Option (List (Tree α))
  | [] => some []
  | t :: ts => (sequence t).bind fun t' => (sequenceList ts).map (t' :: ·)

end

mutual

/-- Every leaf with its path, from left to right. -/
def leaves : Tree α → List (List ℕ × α)
  | leaf a => [([], a)]
  | node ts => leavesFrom 0 ts

/-- `leaves` for each tree of a list, the first of which has the index `i`. -/
def leavesFrom (i : ℕ) : List (Tree α) → List (List ℕ × α)
  | [] => []
  | t :: ts => (leaves t).map (fun l => (i :: l.1, l.2)) ++ leavesFrom (i + 1) ts

end

/-- The tree without its values. -/
def shape (t : Tree α) : Tree Unit := t.map fun _ => ()

theorem mapList_eq (f : α → β) (ts : List (Tree α)) : mapList f ts = ts.map (map f) := by
  induction ts with
  | nil => rfl
  | cons t ts ih => rw [mapList, ih, List.map_cons]

/-! ### Leaves and paths -/

@[simp] theorem get?_leaf_nil (a : α) : get? [] (leaf a) = some a := rfl

@[simp] theorem get?_node_cons (i : ℕ) (p : List ℕ) (ts : List (Tree α)) :
    get? (i :: p) (node ts) = ts[i]?.bind (get? p) := rfl

@[simp] theorem get?_leaf_cons (i : ℕ) (p : List ℕ) (a : α) : get? (i :: p) (leaf a) = none := rfl

@[simp] theorem get?_node_nil (ts : List (Tree α)) : get? [] (node ts) = none := rfl

theorem get?_map (f : α → β) (p : List ℕ) (t : Tree α) : (t.map f).get? p = (t.get? p).map f := by
  induction p generalizing t with
  | nil => cases t <;> rfl
  | cons i p ih =>
    cases t with
    | leaf a => rfl
    | node ts =>
      rw [map, mapList_eq, get?_node_cons, get?_node_cons, List.getElem?_map]
      cases ts[i]? with
      | none => rfl
      | some t => exact ih t

theorem isSome_get?_shape (p : List ℕ) (t : Tree α) :
    (t.shape.get? p).isSome = (t.get? p).isSome := by
  rw [shape, get?_map, Option.isSome_map]

/-- Trees of one shape have their leaves in the same places. -/
theorem isSome_get?_of_shape {t : Tree α} {u : Tree β} (h : t.shape = u.shape) (p : List ℕ) :
    (t.get? p).isSome = (u.get? p).isSome := by
  rw [← isSome_get?_shape, h, isSome_get?_shape]

/-- Putting a value at a leaf. -/
theorem get?_set_self {t : Tree α} {p : List ℕ} {b : α} (h : (t.get? p).isSome = true) :
    (t.set b p).get? p = some b := by
  induction p generalizing t with
  | nil =>
    cases t with
    | leaf a => rfl
    | node ts => cases h
  | cons i p ih =>
    cases t with
    | leaf a => cases h
    | node ts =>
      rw [get?_node_cons] at h
      rw [set, get?_node_cons, List.getElem?_modify_eq]
      cases hi : ts[i]? with
      | none =>
        rw [hi] at h
        cases h
      | some t =>
        rw [hi] at h
        exact ih h

/-- The other leaves stay as they are. -/
theorem get?_set_ne {t : Tree α} {p q : List ℕ} {b : α} (h : q ≠ p) :
    (t.set b p).get? q = t.get? q := by
  induction p generalizing t q with
  | nil =>
    cases t with
    | leaf a =>
      cases q with
      | nil => exact absurd rfl h
      | cons j q => rfl
    | node ts => rfl
  | cons i p ih =>
    cases t with
    | leaf a => rfl
    | node ts =>
      cases q with
      | nil => rfl
      | cons j q =>
        rw [set, get?_node_cons, get?_node_cons]
        rcases eq_or_ne i j with rfl | hne
        · have hq : q ≠ p := fun hq => h (by rw [hq])
          rw [List.getElem?_modify_eq]
          cases ts[i]? with
          | none => rfl
          | some t => exact ih hq
        · rw [List.getElem?_modify_ne _ _ hne]

theorem shape_set (t : Tree α) (p : List ℕ) (b : α) : (t.set b p).shape = t.shape := by
  unfold shape
  induction p generalizing t with
  | nil => cases t <;> rfl
  | cons i p ih =>
    cases t with
    | leaf a => rfl
    | node ts =>
      rw [set, map, map, mapList_eq, mapList_eq]
      congr 1
      apply List.ext_getElem?
      intro j
      rw [List.getElem?_map, List.getElem?_map]
      rcases eq_or_ne i j with rfl | hne
      · rw [List.getElem?_modify_eq]
        cases ts[i]? with
        | none => rfl
        | some t => exact congrArg some (ih t)
      · rw [List.getElem?_modify_ne _ _ hne]

theorem shape_map (f : α → β) (t : Tree α) : (t.map f).shape = t.shape := by
  unfold shape
  induction t with
  | leaf a => rfl
  | node ts ih =>
    rw [map, map, map, mapList_eq, mapList_eq, mapList_eq, List.map_map]
    exact congrArg node (List.map_congr_left ih)

mutual

/-- The leaves of a tree are what its paths lead to. -/
theorem mem_leaves {p : List ℕ} {a : α} : ∀ {t : Tree α}, (p, a) ∈ leaves t ↔ t.get? p = some a
  | leaf b => by
    cases p with
    | nil => simp [leaves, eq_comm]
    | cons i p => simp [leaves]
  | node ts => by
    rw [leaves, mem_leavesFrom]
    cases p with
    | nil => simp
    | cons i p => simp

theorem mem_leavesFrom {i : ℕ} {p : List ℕ} {a : α} :
    ∀ {ts : List (Tree α)}, (p, a) ∈ leavesFrom i ts ↔
      ∃ j q, p = (i + j) :: q ∧ ts[j]?.bind (get? q) = some a
  | [] => by simp [leavesFrom]
  | t :: ts => by
    rw [leavesFrom, List.mem_append, mem_leavesFrom, List.mem_map]
    constructor
    · rintro (⟨⟨q, b⟩, hq, heq⟩ | ⟨j, q, rfl, hq⟩)
      · obtain ⟨rfl, rfl⟩ := Prod.mk.inj heq
        exact ⟨0, q, rfl, mem_leaves.mp hq⟩
      · exact ⟨j + 1, q, by rw [Nat.add_assoc, Nat.add_comm 1], hq⟩
    · rintro ⟨j, q, rfl, hq⟩
      cases j with
      | zero => exact .inl ⟨(q, a), mem_leaves.mpr hq, rfl⟩
      | succ j => exact .inr ⟨j, q, by rw [Nat.add_assoc, Nat.add_comm 1], hq⟩

end

/-! ### Trees of options -/

mutual

theorem exists_sequence_of_full : ∀ {t : Tree (Option α)}, t.full = true → ∃ r, t.sequence = some r
  | leaf a, h => by
    obtain ⟨b, rfl⟩ := Option.isSome_iff_exists.mp h
    exact ⟨leaf b, rfl⟩
  | node ts, h => by
    obtain ⟨rs, hrs⟩ := exists_sequenceList_of_full h
    exact ⟨node rs, by rw [sequence, hrs]; rfl⟩

theorem exists_sequenceList_of_full :
    ∀ {ts : List (Tree (Option α))}, fullList ts = true → ∃ rs, sequenceList ts = some rs
  | [], _ => ⟨[], rfl⟩
  | t :: ts, h => by
    rw [fullList, Bool.and_eq_true] at h
    obtain ⟨r, hr⟩ := exists_sequence_of_full h.1
    obtain ⟨rs, hrs⟩ := exists_sequenceList_of_full h.2
    exact ⟨r :: rs, by rw [sequenceList, hr, hrs]; rfl⟩

end

mutual

theorem map_some_of_sequence :
    ∀ {t : Tree (Option α)} {r : Tree α}, t.sequence = some r → t = r.map some
  | leaf a, r, h => by
    obtain ⟨b, rfl, rfl⟩ := Option.map_eq_some_iff.mp h
    rfl
  | node ts, r, h => by
    obtain ⟨rs, hrs, rfl⟩ := Option.map_eq_some_iff.mp h
    rw [map, map_some_of_sequenceList hrs]

theorem map_some_of_sequenceList :
    ∀ {ts : List (Tree (Option α))} {rs : List (Tree α)}, sequenceList ts = some rs →
      ts = mapList some rs
  | [], rs, h => by
    obtain rfl := Option.some.inj h
    rfl
  | t :: ts, rs, h => by
    obtain ⟨r, hr, h⟩ := Option.bind_eq_some_iff.mp h
    obtain ⟨rs, hrs, rfl⟩ := Option.map_eq_some_iff.mp h
    rw [mapList, ← map_some_of_sequence hr, ← map_some_of_sequenceList hrs]

end

end Tree

end Atap
