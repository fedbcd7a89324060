import Atap.Interleave.Machine

/-!
# Infinite runs, fairness and progress

`Machine.Trace` is an infinite interleaving: at each time some thread takes a step the guard
allows, or nothing happens. `Trace.WeaklyFair E A` is the assumption that a kind of step `A`
is not put off forever once `E` holds for good.

* `Trace.eventually_step`: a thread that has something to do takes its next step.
* `Trace.leads_to`: **the progress rule**. While `P` holds and no goal step is taken, every
  step lowers a rank or leaves alone the kinds of step that would help; some kind always helps,
  and each is fair; so a goal step is taken.
* `Trace.ofRun`: a finite run, with nothing happening after it, is an infinite one, and is
  fair to whatever is over at its end.
-/

namespace Atap.Machine

variable {T M L C I : Type*} [DecidableEq T]

/-- An infinite interleaving: what happens at each time, and what is reached. -/
structure Trace (P : Machine M L C) (Init : Config T M L → Prop)
    (Ok : Config T M L → T → C → Prop) where
  st : ℕ → Config T M L
  lab : ℕ → Option (T × C)
  init : Init (st 0)
  idle : ∀ i, lab i = none → st (i + 1) = st i
  step : ∀ i t c, lab i = some (t, c) →
    Ok (st i) t c ∧ P.fire (st i) t c = some (st (i + 1))

namespace Trace

variable {P : Machine M L C} {Init : Config T M L → Prop} {Ok : Config T M L → T → C → Prop}
  (τ : P.Trace Init Ok)

/-- Every configuration of a trace is reached. -/
theorem reach (i : ℕ) : P.Reach Init Ok (τ.st i) := by
  induction i with
  | zero => exact .init τ.init
  | succ i ih =>
    cases hl : τ.lab i with
    | none => rw [τ.idle i hl]; exact ih
    | some tc =>
      obtain ⟨hok, hf⟩ := τ.step i tc.1 tc.2 hl
      exact .step ih hok hf

/-- What every step keeps is kept from any time on. -/
theorem persists {Q : Config T M L → Prop} {i : ℕ} (hi : Q (τ.st i))
    (hstep : ∀ j t c, i ≤ j → τ.lab j = some (t, c) → Q (τ.st j) → Q (τ.st (j + 1))) {j : ℕ}
    (hij : i ≤ j) : Q (τ.st j) := by
  induction j, hij using Nat.le_induction with
  | base => exact hi
  | succ j hij ih =>
    cases hl : τ.lab j with
    | none => rw [τ.idle j hl]; exact ih
    | some tc => exact hstep j tc.1 tc.2 hij hl ih

/-- A thread stays where it is until it takes a step. -/
theorem loc_succ {i : ℕ} {t : T} (h : ∀ c, τ.lab i ≠ some (t, c)) :
    (τ.st (i + 1)).loc t = (τ.st i).loc t := by
  cases hl : τ.lab i with
  | none => rw [τ.idle i hl]
  | some uc =>
    obtain ⟨u, c⟩ := uc
    obtain ⟨m', l', -, hs⟩ := fire_eq_some.mp (τ.step i u c hl).2
    have hne : t ≠ u := by
      rintro rfl
      exact h c hl
    rw [hs]
    exact Function.update_of_ne hne _ _

/-- Steps of the kind `A` are not put off forever while `E` holds. -/
def WeaklyFair (E : Config T M L → Prop) (A : Config T M L → T → C → Prop) : Prop :=
  ∀ i, (∀ j, i ≤ j → E (τ.st j)) → ∃ j t c, i ≤ j ∧ τ.lab j = some (t, c) ∧ A (τ.st j) t c

variable {τ}

/-- **A thread that is scheduled fairly takes its next step**, and stays where it is until
then. -/
theorem eventually_step {b : L → Bool} {t : T}
    (hfair : τ.WeaklyFair (fun s => b (s.loc t) = true) fun _ u _ => u = t) {i : ℕ}
    (hi : b ((τ.st i).loc t) = true) :
    ∃ j c, i ≤ j ∧ τ.lab j = some (t, c) ∧
      ∀ x, i ≤ x → x ≤ j → (τ.st x).loc t = (τ.st i).loc t := by
  classical
  have hex : ∃ j, i ≤ j ∧ ∃ c, τ.lab j = some (t, c) := by
    by_contra hnone
    have hstay : ∀ j, i ≤ j → (τ.st j).loc t = (τ.st i).loc t := by
      intro j hij
      induction j, hij using Nat.le_induction with
      | base => rfl
      | succ j hij ih => rw [τ.loc_succ fun c hc => hnone ⟨j, hij, c, hc⟩, ih]
    obtain ⟨j, u, c, hij, hl, rfl⟩ := hfair i fun j hij =>
      (congrArg b (hstay j hij)).trans hi
    exact hnone ⟨j, hij, c, hl⟩
  -- Up to its first step the thread has not moved.
  obtain ⟨hij, c, hl⟩ := Nat.find_spec hex
  refine ⟨Nat.find hex, c, hij, hl, fun x hix => ?_⟩
  induction x, hix using Nat.le_induction with
  | base => exact fun _ => rfl
  | succ x hix ih =>
    intro hx
    rw [τ.loc_succ fun c' hc' => Nat.find_min hex (Nat.lt_of_succ_le hx) ⟨hix, c', hc'⟩]
    exact ih (Nat.le_of_succ_le hx)

/-- **The progress rule.** `H i` says that steps of the kind `A i` help. -/
theorem leads_to {Q : Config T M L → Prop} {G : Config T M L → T → C → Prop}
    {φ : Config T M L → ℕ} {H E : I → Config T M L → Prop}
    {A : I → Config T M L → T → C → Prop} (hfair : ∀ i, τ.WeaklyFair (E i) (A i))
    (hhelp : ∀ n, Q (τ.st n) → ∃ i, H i (τ.st n)) (hE : ∀ n i, H i (τ.st n) → E i (τ.st n))
    (hstep : ∀ n t c, Q (τ.st n) → τ.lab n = some (t, c) → G (τ.st n) t c ∨
      Q (τ.st (n + 1)) ∧ (φ (τ.st (n + 1)) < φ (τ.st n) ∨
        φ (τ.st (n + 1)) = φ (τ.st n) ∧
          ∀ i, H i (τ.st n) → H i (τ.st (n + 1)) ∧ ¬ A i (τ.st n) t c))
    {n : ℕ} (hn : Q (τ.st n)) :
    ∃ j t c, n ≤ j ∧ τ.lab j = some (t, c) ∧ Q (τ.st j) ∧ G (τ.st j) t c := by
  induction hr : φ (τ.st n) using Nat.strong_induction_on generalizing n with
  | _ r ih =>
    subst hr
    by_contra hnone
    have hgoal : ∀ j t c, n ≤ j → τ.lab j = some (t, c) → Q (τ.st j) → ¬ G (τ.st j) t c :=
      fun j t c hij hl hq hg => hnone ⟨j, t, c, hij, hl, hq, hg⟩
    -- No goal step and no lower rank from `n` on: what helps at `n` helps for good.
    obtain ⟨i, hi⟩ := hhelp n hn
    have hkeep : ∀ j, n ≤ j → Q (τ.st j) ∧ φ (τ.st j) = φ (τ.st n) ∧ H i (τ.st j) := by
      intro j hj
      refine τ.persists (Q := fun s => Q s ∧ φ s = φ (τ.st n) ∧ H i s) ⟨hn, rfl, hi⟩
        (fun j t c hj hl ⟨hq, hφ, hh⟩ => ?_) hj
      rcases hstep j t c hq hl with hg | ⟨hq', hlt | ⟨heq, hrest⟩⟩
      · exact absurd hg (hgoal j t c hj hl hq)
      · obtain ⟨l, u, d, hjl, hl', hq'', hg⟩ := ih _ (hφ ▸ hlt) hq' rfl
        exact absurd hg (hgoal l u d (by omega) hl' hq'')
      · exact ⟨hq', heq.trans hφ, (hrest i hh).1⟩
    obtain ⟨j, t, c, hj, hl, ha⟩ := hfair i n fun j hj => hE j i (hkeep j hj).2.2
    obtain ⟨hq, hφ, hh⟩ := hkeep j hj
    rcases hstep j t c hq hl with hg | ⟨hq', hlt | ⟨-, hrest⟩⟩
    · exact hgoal j t c hj hl hq hg
    · rw [(hkeep (j + 1) (by omega)).2.1, hφ] at hlt
      exact lt_irrefl _ hlt
    · exact (hrest i hh).2 ha

section OfRun

variable [∀ s t c, Decidable (Ok s t c)] {s : Config T M L} {sched : List (T × C)}

theorem exists_run_take (h : (P.run Ok s sched).isSome = true) (i : ℕ) :
    ∃ s', P.run Ok s (sched.take i) = some s' := by
  rw [← List.take_append_drop i sched, run_append] at h
  cases hr : P.run Ok s (sched.take i) with
  | none => rw [hr] at h; cases h
  | some s' => exact ⟨s', rfl⟩

/-- A finite run, with nothing happening after it. -/
def ofRun (sched : List (T × C)) (hs : Init s) (h : (P.run Ok s sched).isSome = true) :
    P.Trace Init Ok where
  st i := (P.run Ok s (sched.take i)).getD s
  lab i := sched[i]?
  init := hs
  idle i hl := by
    have hlen := List.getElem?_eq_none_iff.mp hl
    rw [List.take_of_length_le hlen, List.take_of_length_le (by omega)]
  step i t c hl := by
    obtain ⟨s₁, h₁⟩ := exists_run_take h i
    obtain ⟨s₂, h₂⟩ := exists_run_take h (i + 1)
    rw [h₁, h₂]
    rw [List.take_add_one, hl, run_append, h₁] at h₂
    obtain ⟨hok, h₂⟩ := Option.ite_none_right_eq_some.mp h₂
    obtain ⟨s₃, hf, hs₃⟩ := Option.bind_eq_some_iff.mp h₂
    obtain rfl : s₃ = s₂ := by simpa [run] using hs₃
    exact ⟨hok, hf⟩

/-- A finite run is fair to what is over at its end. -/
theorem ofRun_weaklyFair {E : Config T M L → Prop} {A : Config T M L → T → C → Prop}
    (hs : Init s) (h : (P.run Ok s sched).isSome = true)
    (hE : ∀ s', P.run Ok s sched = some s' → ¬ E s') :
    (ofRun sched hs h : P.Trace Init Ok).WeaklyFair E A := by
  intro i hi
  have hend := hi (max i sched.length) (le_max_left _ _)
  obtain ⟨s', hs'⟩ := Option.isSome_iff_exists.mp h
  change E ((P.run Ok s (sched.take _)).getD s) at hend
  rw [List.take_of_length_le (le_max_right _ _), hs'] at hend
  exact absurd hend (hE s' hs')

end OfRun

end Trace

end Atap.Machine
