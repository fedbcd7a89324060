import Mathlib.Logic.Function.Basic

/-!
# Names that threads own

Names are handed out one at a time, as a kernel hands out descriptors: a thread has at most one,
takes one that nobody has, and may give it back. `Handed` is what one thread can do to its name, and
`Owned` what that keeps: every name somebody has is taken, and nobody else has it.
-/

namespace Atap

open Function

variable {T N : Type*} [DecidableEq N] {taken taken' : N → Bool} {own : T → Option N}
  {o o' : Option N} {t u : T} {n : N}

/-- What a thread can do to its name, and to which names are taken. -/
inductive Handed (taken : N → Bool) (o : Option N) : (N → Bool) → Option N → Prop
  | same : Handed taken o taken o
  | take (n : N) (h : taken n = false) : Handed taken o (update taken n true) (some n)
  | give (n : N) (h : o = some n) : Handed taken o (update taken n false) none

/-- The names threads have are taken, and each has its own. -/
structure Owned (taken : N → Bool) (own : T → Option N) : Prop where
  taken : ∀ t n, own t = some n → taken n = true
  unique : ∀ t u n, own t = some n → own u = some n → t = u

omit [DecidableEq N] in
theorem Owned.of_none (h : ∀ t, own t = none) : Owned taken own := by
  constructor
  · intro t n hn
    rw [h t] at hn
    cases hn
  · intro t u n hn
    rw [h t] at hn
    cases hn

/-- What another thread has is taken and another's before and after. -/
theorem Owned.other (h : Owned taken own) (hh : Handed taken (own t) taken' o') (hu : u ≠ t)
    (hn : own u = some n) : taken' n = true ∧ o' ≠ some n := by
  have htaken := h.taken u n hn
  cases hh with
  | same => exact ⟨htaken, fun ht => hu (h.unique u t n hn ht)⟩
  | take n' hfree =>
    have hne : n ≠ n' := by
      rintro rfl
      rw [htaken] at hfree
      cases hfree
    refine ⟨(update_of_ne hne ..).trans htaken, ?_⟩
    rintro ⟨⟩
    exact hne rfl
  | give n' ht =>
    have hne : n ≠ n' := by
      rintro rfl
      exact hu (h.unique u t n hn ht)
    exact ⟨(update_of_ne hne ..).trans htaken, nofun⟩

theorem Handed.taken_of_eq (hh : Handed taken o taken' o') (h : ∀ n, o = some n → taken n = true)
    (hn : o' = some n) : taken' n = true := by
  cases hh with
  | same => exact h n hn
  | take n' =>
    cases hn
    exact update_self ..
  | give => cases hn

theorem Owned.step [DecidableEq T] (h : Owned taken own) (hh : Handed taken (own t) taken' o') :
    Owned taken' (update own t o') := by
  constructor
  · intro u n hn
    by_cases hu : u = t
    · subst hu
      rw [update_self] at hn
      exact hh.taken_of_eq (h.taken u) hn
    · rw [update_of_ne hu] at hn
      exact (h.other hh hu hn).1
  · intro u v n hu hv
    by_cases hut : u = t <;> by_cases hvt : v = t
    · rw [hut, hvt]
    · subst hut
      rw [update_self] at hu
      rw [update_of_ne hvt] at hv
      exact absurd hu (h.other hh hvt hv).2
    · subst hvt
      rw [update_self] at hv
      rw [update_of_ne hut] at hu
      exact absurd hv (h.other hh hut hu).2
    · rw [update_of_ne hut] at hu
      rw [update_of_ne hvt] at hv
      exact h.unique u v n hu hv

/-- The same, where the name is a part of what a thread has. -/
theorem Owned.step_of [DecidableEq T] {L : Type*} {f : T → L} {l' : L} {name : L → Option N}
    (h : Owned taken fun t => name (f t)) (hh : Handed taken (name (f t)) taken' (name l')) :
    Owned taken' fun u => name (update f t l' u) := by
  have he : (fun u => name (update f t l' u)) =
      update (fun u => name (f u)) t (name l') := by
    funext u
    exact Function.apply_update (fun _ => name) f t l' u
  rw [he]
  exact h.step hh

end Atap
