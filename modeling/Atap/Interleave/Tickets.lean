import Mathlib.Algebra.Order.Group.Nat
import Mathlib.Logic.Function.Basic

/-!
# Numbered requests and their answers

Requests are numbered as they are made. Each is in the hands of one thread until it is
answered, once. `Tickets issued answer held` is that discipline for the number of requests
made so far, the answers given, and the request each thread has in hand; `issue` and `settle`
are the two ways a step can change it.
-/

namespace Atap

open Function

variable {T B : Type*}

/-- Every request made is either answered or in the hands of exactly one thread. -/
structure Tickets (issued : ℕ) (answer : ℕ → Option B) (held : T → Option ℕ) : Prop where
  /-- A request in hand was made and is not answered. -/
  unanswered : ∀ t k, held t = some k → k < issued ∧ answer k = none
  /-- No two threads have one request in hand. -/
  alone : ∀ t u k, held t = some k → held u = some k → t = u
  /-- A request not answered is in some thread's hands. -/
  found : ∀ k, k < issued → answer k = none → ∃ t, held t = some k
  /-- Nothing is answered before it is made. -/
  unmade : ∀ k, issued ≤ k → answer k = none

namespace Tickets

variable {n : ℕ} {answer : ℕ → Option B} {held : T → Option ℕ}

/-- Before any request. -/
theorem empty (ha : ∀ k, answer k = none) (hh : ∀ t, held t = none) : Tickets 0 answer held where
  unanswered t k h := by rw [hh t] at h; cases h
  alone t _ k h := by rw [hh t] at h; cases h
  found k h := absurd h (Nat.not_lt_zero k)
  unmade k _ := ha k

theorem lt_of_answer (h : Tickets n answer held) {k : ℕ} (ha : answer k ≠ none) : k < n := by
  by_contra hlt
  exact ha (h.unmade k (Nat.le_of_not_lt hlt))

variable [DecidableEq T]

/-- A thread with nothing in hand makes a request. -/
theorem issue (h : Tickets n answer held) {t : T} (ht : held t = none) :
    Tickets (n + 1) answer (update held t (some n)) where
  unanswered u k hu := by
    rcases eq_or_ne u t with rfl | hne
    · obtain rfl : n = k := by simpa using hu
      exact ⟨Nat.lt_succ_self n, h.unmade n le_rfl⟩
    · rw [update_of_ne hne] at hu
      obtain ⟨hlt, hnone⟩ := h.unanswered u k hu
      exact ⟨Nat.lt_succ_of_lt hlt, hnone⟩
  alone u v k hu hv := by
    -- The new number is above every number in hand.
    have hold : ∀ w, w ≠ t → update held t (some n) w = some k → k < n := by
      intro w hw hk
      rw [update_of_ne hw] at hk
      exact (h.unanswered w k hk).1
    have hnew : update held t (some n) t = some k → k = n := by
      intro hk
      rw [update_self] at hk
      exact (Option.some.inj hk).symm
    by_cases hut : u = t <;> by_cases hvt : v = t
    · rw [hut, hvt]
    · exact absurd (hnew (hut ▸ hu)) (hold v hvt hv).ne
    · exact absurd (hnew (hvt ▸ hv)) (hold u hut hu).ne
    · rw [update_of_ne hut] at hu
      rw [update_of_ne hvt] at hv
      exact h.alone u v k hu hv
  found k hk ha := by
    rcases Nat.lt_succ_iff_lt_or_eq.mp hk with hlt | rfl
    · obtain ⟨u, hu⟩ := h.found k hlt ha
      refine ⟨u, ?_⟩
      rw [update_of_ne]
      · exact hu
      · rintro rfl
        rw [ht] at hu
        cases hu
    · exact ⟨t, update_self ..⟩
  unmade k hk := h.unmade k (Nat.le_of_succ_le hk)

/-- A thread answers the request it has in hand. -/
theorem settle (h : Tickets n answer held) {t : T} {k : ℕ} (ht : held t = some k) (b : B) :
    Tickets n (update answer k (some b)) (update held t none) where
  unanswered u l hu := by
    rcases eq_or_ne u t with rfl | hne
    · rw [update_self] at hu
      cases hu
    · rw [update_of_ne hne] at hu
      have hlk : l ≠ k := by
        rintro rfl
        exact hne (h.alone u t l hu ht)
      rw [update_of_ne hlk]
      exact h.unanswered u l hu
  alone u v l hu hv := by
    have hne : ∀ w, update held t none w = some l → held w = some l := by
      intro w hw
      rcases eq_or_ne w t with rfl | hwt
      · rw [update_self] at hw
        cases hw
      · rwa [update_of_ne hwt] at hw
    exact h.alone u v l (hne u hu) (hne v hv)
  found l hl ha := by
    rcases eq_or_ne l k with rfl | hlk
    · rw [update_self] at ha
      cases ha
    · rw [update_of_ne hlk] at ha
      obtain ⟨u, hu⟩ := h.found l hl ha
      refine ⟨u, ?_⟩
      rw [update_of_ne]
      · exact hu
      · rintro rfl
        exact hlk (Option.some.inj (hu.symm.trans ht))
  unmade l hl := by
    have hlk : l ≠ k := by
      rintro rfl
      exact absurd (h.unanswered t l ht).1 (Nat.not_lt.mpr hl)
    rw [update_of_ne hlk]
    exact h.unmade l hl

end Tickets

end Atap
