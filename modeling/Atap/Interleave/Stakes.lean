import Atap.Interleave.Machine
import Mathlib.Data.List.Count

/-!
# Stakes

What a thread has in hand for as long as it stands where it does, as a list of **stakes**: claims,
turns, or a part of something's life that only one thread can be in. A step hands some of them on
and leaves the others where they are. So an account that adds what all threads have in hand to what
is in the memory need only be kept for the stakes a step touches, against everything else that is in
hand, whatever that is (`exists_hold_update`).
-/

namespace Atap

variable {S L T : Type*} [DecidableEq S]

/-- The stakes `a`, next to everything else that is in hand. -/
def hold (K : S → ℕ) (a : List S) (i : S) : ℕ := K i + a.count i

section Hold

variable {K : S → ℕ} {a : List S} {i : S}

@[simp] theorem hold_nil : hold K [] i = K i := rfl

@[simp] theorem hold_cons (j : S) : hold K (j :: a) i = hold K a i + if j = i then 1 else 0 := by
  simp only [hold, List.count_cons, beq_iff_eq]
  omega

theorem hold_pos (h : i ∈ a) : 0 < hold K a i :=
  lt_of_lt_of_le (List.count_pos_iff.mpr h) (Nat.le_add_left ..)

theorem hold_perm {b : List S} (h : a.Perm b) : hold K a = hold K b :=
  funext fun i => congrArg (K i + ·) (h.count_eq i)

end Hold

/-- What all threads have in hand. -/
def inHand [Fintype T] (st : L → List S) (f : T → L) (i : S) : ℕ :=
  total (fun l => (st l).count i) f

section InHand

variable [Fintype T] {st : L → List S} {f : T → L} {t : T} {i : S}

theorem inHand_pos (h : i ∈ st (f t)) : 0 < inHand st f i :=
  lt_of_lt_of_le (List.count_pos_iff.mpr h) (le_total (w := fun l => (st l).count i) t)

theorem inHand_eq_zero (h : ∀ t, i ∉ st (f t)) : inHand st f i = 0 :=
  total_eq_zero_of_forall fun t => List.count_eq_zero.mpr (h t)

/-- A thread whose stakes begin with `a`, and then with `a'`, leaves everything else that is in hand
as it is. -/
theorem exists_hold_update [DecidableEq T] {l : L} {a a' b : List S} (h : st (f t) = a ++ b)
    (h' : st l = a' ++ b) : ∃ K : S → ℕ, inHand st f = hold K a ∧
      inHand st (Function.update f t l) = hold K a' := by
  have hle (i : S) : a.count i ≤ inHand st f i := by
    have := le_total (w := fun l => (st l).count i) (f := f) t
    rw [h, List.count_append] at this
    exact le_trans (Nat.le_add_right ..) this
  refine ⟨fun i => inHand st f i - a.count i, funext fun i => ?_, funext fun i => ?_⟩
  · exact (Nat.sub_add_cancel (hle i)).symm
  · have hu := total_update_add (fun l => (st l).count i) f t l
    rw [h, h', List.count_append, List.count_append] at hu
    have := hle i
    change inHand st _ i + _ = inHand st f i + _ at hu
    change _ = inHand st f i - a.count i + a'.count i
    omega

end InHand

end Atap
