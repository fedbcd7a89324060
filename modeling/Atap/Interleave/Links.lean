import Mathlib.Data.List.Nodup
import Mathlib.Logic.Function.Basic

/-!
# Lists threaded through memory

A list of cells kept in the cells themselves: each holds the place of the next one, where the
cell `i` is written `i + 1` and `0` is the end. `Links next c l` says that following `next`
from `c` visits exactly the cells `l` and then ends, so a list that is `Links`ed to has no
cycle.

* `Links.congr`: writing cells that are not on the list leaves it alone.
* `Links.cons`: a cell written to point at the head goes in front.
-/

namespace Atap

/-- Following `next` from `c` visits exactly the cells of the list, and ends. -/
def Links (next : ℕ → ℕ) : ℕ → List ℕ → Prop
  | c, [] => c = 0
  | c, i :: l => c = i + 1 ∧ Links next (next i) l

variable {next next' : ℕ → ℕ} {c i : ℕ} {l l' : List ℕ}

/-- Writing cells that are not on the list leaves it alone. -/
theorem Links.congr (h : Links next c l) (hn : ∀ i ∈ l, next' i = next i) : Links next' c l := by
  induction l generalizing c with
  | nil => exact h
  | cons j l ih =>
    obtain ⟨hc, hl⟩ := h
    refine ⟨hc, ?_⟩
    rw [hn j List.mem_cons_self]
    exact ih hl fun i hi => hn i (List.mem_cons_of_mem j hi)

/-- A cell off the list that points at its head goes in front of it. -/
theorem Links.cons (h : Links next c l) (hi : next i = c) : Links next (i + 1) (i :: l) :=
  ⟨rfl, by rwa [hi]⟩

theorem Links.eq_nil (h : Links next 0 l) : l = [] := by
  cases l with
  | nil => rfl
  | cons i l => exact absurd h.1.symm (Nat.succ_ne_zero i)

/-- A place that is not the end is the place of the first cell. -/
theorem Links.eq_cons (h : Links next c l) (hc : c ≠ 0) :
    ∃ l', l = (c - 1) :: l' ∧ Links next (next (c - 1)) l' := by
  cases l with
  | nil => exact absurd h hc
  | cons i l =>
    obtain ⟨rfl, hl⟩ := h
    exact ⟨l, rfl, hl⟩

end Atap
