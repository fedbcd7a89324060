import Mathlib.Init

/-!
# Runs of one component

A component that runs step by step, with nothing beside it that is modelled as a thread of its own:
`next s a` is one step from the state `s`, under what the surroundings do in it, `a`; `none` means
that the step is not enabled. `Run.Reach` and its invariant rule are for such a component what
`Machine.Reach` and its rule are for threads.
-/

namespace Atap.Run

variable {S A : Type*}

/-- What is reached from an initial state by steps that all meet the guard `Ok`. -/
inductive Reach (next : S → A → Option S) (Init : S → Prop) (Ok : S → A → Prop) : S → Prop
  | init {s : S} (h : Init s) : Reach next Init Ok s
  | step {s s' : S} {a : A} (hs : Reach next Init Ok s) (hok : Ok s a) (hn : next s a = some s') :
      Reach next Init Ok s'

variable {next : S → A → Option S} {Init : S → Prop} {Ok : S → A → Prop} {s s' : S}

/-- **The invariant rule**: what holds at the start and is kept by every guarded step holds in every
state reached. -/
theorem Reach.invariant {I : S → Prop} (h0 : ∀ s, Init s → I s)
    (hstep : ∀ s a s', I s → Ok s a → next s a = some s' → I s')
    (hs : Reach next Init Ok s) : I s := by
  induction hs with
  | init h => exact h0 _ h
  | step _ hok hn ih => exact hstep _ _ _ ih hok hn

/-- The steps of `acts` in order, up to one the guard refuses. -/
def exec (next : S → A → Option S) (Ok : S → A → Prop) [∀ s a, Decidable (Ok s a)] (s : S)
    (acts : List A) : Option S :=
  acts.foldlM (fun s a => if Ok s a then next s a else none) s

/-- A run reaches its last state. -/
theorem Reach.exec [∀ s a, Decidable (Ok s a)] {acts : List A} (hs : Reach next Init Ok s)
    (h : exec next Ok s acts = some s') : Reach next Init Ok s' := by
  induction acts generalizing s with
  | nil =>
    cases h
    exact hs
  | cons a rest ih =>
    obtain ⟨s₁, hn, h⟩ := Option.bind_eq_some_iff.mp h
    obtain ⟨hok, hn⟩ := Option.ite_none_right_eq_some.mp hn
    exact ih (hs.step hok hn) h

end Atap.Run
