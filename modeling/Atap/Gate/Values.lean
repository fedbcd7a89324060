import Atap.Gate.OneRun
import Atap.Interleave.Tickets

/-!
# Where the values given are

Every value left in the mailbox is numbered, and its give has it in hand until it returns, so
the gives are numbered requests in the sense of `Tickets`. The mailbox holds the latest value
left, and is emptied only once the gate is `FINISHED`.

* `Values`: the two together, with the threads that are about to empty the mailbox.
* `Values.step`, `values_of_reach`: kept by every step, so held in every interleaving.
-/

namespace Atap.Gate

open Function

variable {T α : Type*}

/-- The value whose give the thread has in hand, from `replace` to its return. -/
def Pc.serial : Pc α → Option ℕ
  | look k | limit k _ | move k _ | spend k _ | start k | finish (.refused k)
  | dropTask (.refused k) | release (.refused k) => some k
  | _ => none

/-- Gives return once, and the mailbox holds the latest value. -/
structure Values (m : Mem α) (loc : T → Pc α) : Prop where
  gives : Tickets m.given m.verdict fun t => (loc t).serial
  latest : ∀ k x, m.box = some (k, x) → k + 1 = m.given
  kept : 0 < m.given → m.state ≠ .finished → m.box ≠ none
  clearing : ∀ t, loc t = .dropClear → m.state = .finished

section Step

variable {m m' : Mem α} {pc pc' : Pc α}

/-- A finished gate stays finished. -/
theorem Step.finished (h : Step m pc m' pc') (hf : m.state = .finished) :
    m'.state = .finished := by
  cases h
  case moveWon k saw h | waitWon saw h => cases saw <;> cases hf.symm.trans h
  case begin d h | owedWon h => cases hf.symm.trans h
  case release b => cases b <;> exact hf
  case startRefused | closeWon | againRefused | overWon | recloseWon | finish => rfl
  all_goals exact hf

variable {loc : T → Pc α} {t : T}

theorem Values.latest_step (hi : Values m loc) (h : Step m (loc t) m' pc') :
    ∀ k x, m'.box = some (k, x) → k + 1 = m'.given := by
  have hlatest := hi.latest
  generalize loc t = pc at *
  cases h
  case replace x =>
    rintro k y ⟨⟩
    rfl
  case dropTask b =>
    intro k y hbox
    change (if m.schedule = true then m.box else none) = some (k, y) at hbox
    split at hbox
    · exact hlatest k y hbox
    · cases hbox
  case dropClear => exact nofun
  case release b => cases b <;> exact hlatest
  all_goals exact hlatest

/-- Only a finished gate empties the mailbox. -/
theorem Values.kept_step [Fintype T] (hi : Values m loc) (ht : Turns m loc)
    (h : Step m (loc t) m' pc') :
    0 < m'.given → m'.state ≠ .finished → m'.box ≠ none := by
  intro hgiven hopen
  have hstate : m.state ≠ .finished := fun hf => hopen (h.finished hf)
  have hkept := hi.kept
  have hclear := hi.clearing t
  have hends := ht.finished_of_ends (t := t)
  generalize loc t = pc at *
  cases h
  case replace x => exact nofun
  case dropTask b | release b => exact absurd (hends rfl) hstate
  case dropClear => exact absurd (hclear rfl) hstate
  all_goals exact hkept hgiven hstate

variable [DecidableEq T]

/-- A step leaves the gives as they were, makes a new one, or lets one return. -/
theorem Step.gives (h : Step m (loc t) m' pc')
    (hg : Tickets m.given m.verdict fun u => (loc u).serial) :
    Tickets m'.given m'.verdict fun u => (update loc t pc' u).serial := by
  have hupd : (fun u => (update loc t pc' u).serial) =
      update (fun u => (loc u).serial) t pc'.serial :=
    Function.comp_update Pc.serial loc t pc'
  have hsame : pc'.serial = (loc t).serial →
      (fun u => (update loc t pc' u).serial) = fun u => (loc u).serial := by
    intro hp
    rw [hupd, hp]
    exact update_eq_self t fun u => (loc u).serial
  generalize hpc : loc t = pc at *
  cases h
  case replace x =>
    rw [hupd]
    exact hg.issue (t := t) (by rw [hpc]; rfl)
  case lookReplaced k _ | spendOwed k | start k =>
    rw [hupd]; exact hg.settle (t := t) (k := k) (by rw [hpc]; rfl) true
  case lookClosed k _ => rw [hupd]; exact hg.settle (t := t) (k := k) (by rw [hpc]; rfl) false
  case limitSpent k saw _ =>
    rw [hupd]
    exact hg.settle (t := t) (k := k) (by rw [hpc]; rfl) false
  case finish b | dropTask b => cases b <;> (rw [hsame rfl]; exact hg)
  case release b =>
    cases b
    case refused k => rw [hupd]; exact hg.settle (t := t) (k := k) (by rw [hpc]; rfl) false
    all_goals
      rw [hsame rfl]
      exact hg
  all_goals
    rw [hsame rfl]
    exact hg

theorem Values.clearing_step (hi : Values m loc) (h : Step m (loc t) m' pc') (u : T)
    (hu : update loc t pc' u = .dropClear) : m'.state = .finished := by
  rcases eq_or_ne u t with rfl | hne
  · rw [update_self] at hu
    generalize loc u = pc at h
    cases h
    case dropFinished h => exact h
    case release b => cases b <;> cases hu
    all_goals cases hu
  · rw [update_of_ne hne] at hu
    exact h.finished (hi.clearing u hu)

variable [Fintype T]

/-- **A step keeps the gives and the mailbox in order.** -/
theorem Values.step (hi : Values m loc) (ht : Turns m loc) (h : Step m (loc t) m' pc') :
    Values m' (update loc t pc') where
  gives := h.gives hi.gives
  latest := hi.latest_step h
  kept := hi.kept_step ht h
  clearing := hi.clearing_step h

omit [DecidableEq T] in
theorem Fresh.values {n : ℕ} {s : Config T (Mem α) (Pc α)} (h : Fresh n s) :
    Values s.mem s.loc where
  gives := by
    rw [h.given]
    exact .empty h.verdict fun u => by rcases h.loc u with hl | hl | hl <;> rw [hl] <;> rfl
  latest k x hbox := by
    rw [h.box] at hbox
    cases hbox
  kept hg := absurd hg (by rw [h.given]; decide)
  clearing u hu := by rcases h.loc u with hl | hl | hl <;> rw [hl] at hu <;> cases hu

end Step

end Atap.Gate
