import Mathlib.Data.List.Infix

/-!
# Searching a buffer that grows

`lineEnd d l` is the length of the shortest prefix of `l` that ends in `d`. A search for `d` in a
buffer that grows need not begin at the front again: an occurrence that the last search did not see
ends in what came since, and so begins less than `d.length` before it (`position_resume`).
-/

namespace Atap

variable {α : Type*} [DecidableEq α] {d l m : List α} {i k s : ℕ}

/-- Where the first window of `l` that is `d` begins. -/
def position (d l : List α) : Option ℕ := l.tails.findIdx? (d.isPrefixOf ·)

/-- The length of the shortest prefix of `l` that ends in `d`. -/
def lineEnd (d l : List α) : Option ℕ :=
  (List.range (l.length + 1)).find? fun k => d.isSuffixOf (l.take k)

omit [DecidableEq α] in
/-- The prefix of `l` of length `k` ends in `d`. -/
def EndsAt (d l : List α) (k : ℕ) : Prop := k ≤ l.length ∧ d <:+ l.take k

theorem lineEnd_eq_some : lineEnd d l = some k ↔ EndsAt d l k ∧ ∀ j < k, ¬ EndsAt d l j := by
  simp only [lineEnd, List.find?_range_eq_some, List.isSuffixOf_iff_suffix, List.mem_range,
    Nat.lt_succ_iff, Bool.not_eq_true', ← Bool.not_eq_true]
  constructor
  · rintro ⟨hs, hk, hm⟩
    exact ⟨⟨hk, hs⟩, fun j hj he => hm j hj he.2⟩
  · rintro ⟨⟨hk, hs⟩, hm⟩
    exact ⟨hs, hk, fun j hj he => hm j hj ⟨hj.le.trans hk, he⟩⟩

theorem lineEnd_eq_none : lineEnd d l = none ↔ ∀ k, ¬ EndsAt d l k := by
  simp only [lineEnd, List.find?_range_eq_none, List.isSuffixOf_iff_suffix, Nat.lt_succ_iff,
    Bool.not_eq_true', ← Bool.not_eq_true, EndsAt, not_and]

section EndsAt

omit [DecidableEq α]

theorem EndsAt.length_le (h : EndsAt d l k) : d.length ≤ k :=
  h.2.length_le.trans (List.length_take_le _ _)

/-- What `d` is a prefix of ends at its end. -/
theorem endsAt_of_prefix_drop (hi : i ≤ l.length) (h : d <+: l.drop i) :
    EndsAt d l (i + d.length) := by
  have hlen : d.length ≤ l.length - i := by simpa using h.length_le
  refine ⟨by omega, ?_⟩
  rw [List.take_add, ← List.prefix_iff_eq_take.mp h]
  exact List.suffix_append _ _

theorem EndsAt.prefix_drop (h : EndsAt d l (i + d.length)) : d <+: l.drop i := by
  have hd := List.suffix_iff_eq_drop.mp h.2
  rw [List.length_take, Nat.min_eq_left h.1, Nat.add_sub_cancel, List.drop_take,
    Nat.add_sub_cancel_left] at hd
  exact List.prefix_iff_eq_take.mpr hd

theorem endsAt_append (hk : k ≤ l.length) : EndsAt d (l ++ m) k ↔ EndsAt d l k := by
  unfold EndsAt
  rw [List.take_append_of_le_length hk, List.length_append]
  exact and_congr_left fun _ => ⟨fun _ => hk, fun _ => by omega⟩

end EndsAt

/-- A line stays where it is as the buffer grows. -/
theorem lineEnd_append_of_some (h : lineEnd d l = some k) : lineEnd d (l ++ m) = some k := by
  obtain ⟨he, hm⟩ := lineEnd_eq_some.mp h
  refine lineEnd_eq_some.mpr ⟨(endsAt_append he.1).mpr he, fun j hj => ?_⟩
  rw [endsAt_append (hj.le.trans he.1)]
  exact hm j hj

/-- A line that was not there ends in what is new. -/
theorem lt_of_lineEnd_append (h : lineEnd d l = none) (hk : lineEnd d (l ++ m) = some k) :
    l.length < k := by
  by_contra hle
  exact lineEnd_eq_none.mp h k ((endsAt_append (not_lt.mp hle)).mp (lineEnd_eq_some.mp hk).1)

theorem position_eq_some (h : position d l = some i) :
    i ≤ l.length ∧ d <+: l.drop i ∧ ∀ j < i, ¬ d <+: l.drop j := by
  obtain ⟨hi, hp, hm⟩ := List.findIdx?_eq_some_iff_getElem.mp h
  simp only [List.getElem_tails, List.isPrefixOf_iff_prefix] at hp hm
  exact ⟨Nat.lt_succ_iff.mp (by simpa using hi), hp, hm⟩

theorem position_eq_none (h : position d l = none) (i : ℕ) : ¬ d <+: l.drop i := fun hp => by
  have := List.findIdx?_eq_none_iff.mp h (l.drop i)
    ((List.mem_tails _ _).mpr (List.drop_suffix _ _))
  rw [List.isPrefixOf_iff_prefix.mpr hp] at this
  cases this

/-- **A search that resumes.** Where no prefix of up to `s` ends in `d`, a search from
`d.length - 1` before `s` finds what one from the front would. -/
theorem position_resume (hd : d ≠ []) (hs : ∀ k ≤ s, ¬ EndsAt d l k) :
    ((position d (l.drop (s - (d.length - 1)))).map (s - (d.length - 1) + ·)).map (· + d.length) =
      lineEnd d l := by
  have hpos : 0 < d.length := List.length_pos_iff.mpr hd
  set b := s - (d.length - 1) with hb
  -- An end of `d` lies past `s`, so its window begins at `b` or later.
  have hwin {k : ℕ} (hk : EndsAt d l k) : ∃ i, k = b + i + d.length ∧ d <+: (l.drop b).drop i := by
    have hlt : s < k := not_le.mp fun hle => hs k hle hk
    have hle := hk.length_le
    refine ⟨k - d.length - b, by omega, ?_⟩
    rw [List.drop_drop]
    refine EndsAt.prefix_drop ?_
    rwa [show b + (k - d.length - b) + d.length = k by omega]
  cases hp : position d (l.drop b) with
  | none =>
    refine (lineEnd_eq_none.mpr fun k hk => ?_).symm
    obtain ⟨i, -, hi⟩ := hwin hk
    exact position_eq_none hp i hi
  | some i =>
    obtain ⟨hi, hpre, hmin⟩ := position_eq_some hp
    change some (b + i + d.length) = lineEnd d l
    refine (lineEnd_eq_some.mpr ⟨?_, fun j hj he => ?_⟩).symm
    · rw [List.drop_drop] at hpre
      have hlen := hpre.length_le
      rw [List.length_drop] at hlen
      exact endsAt_of_prefix_drop (by omega) hpre
    · obtain ⟨i', rfl, hi'⟩ := hwin he
      exact hmin i' (by omega) hi'

end Atap
