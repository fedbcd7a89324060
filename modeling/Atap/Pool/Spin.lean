import Atap.Pool.Injector

/-!
# The tag goes round

What one thread does to the queue on its own, without another taking a step in between. A task that
is pushed into an empty band and taken again leaves the queue as it was, but for the tag of the
served side, which has moved on by two: once for the flip, once for the pop. So the tag can be
brought round to any value of the same parity, while some other thread holds a head it has loaded.
-/

namespace Atap.Injector

open Function

section Alone

variable {live : ℕ → Bool} {m : Mem} {b : Band} {id : ℕ}

/-- The next `k` steps of one thread, no other taking any. -/
def runs (live : ℕ → Bool) : ℕ → Mem → Pc → Option (Mem × Pc)
  | 0, m, pc => some (m, pc)
  | k + 1, m, pc => (step live m pc .go).bind fun r => runs live k r.1 r.2

theorem runs_add {j k : ℕ} {m' : Mem} {pc pc' : Pc} (h : runs live j m pc = some (m', pc')) :
    runs live (j + k) m pc = runs live k m' pc' := by
  induction j generalizing m pc with
  | zero =>
    cases h
    rw [Nat.zero_add]
  | succ j ih =>
    obtain ⟨r, hr, h⟩ := Option.bind_eq_some_iff.mp h
    rw [Nat.succ_add, runs, hr]
    exact ih h

/-- A task is pushed. -/
theorem runs_push (live : ℕ → Bool) (m : Mem) (id : ℕ) (b : Band) :
    runs live 4 m (.pushCount id b) = some
      ({ m with
        len := m.len + 1
        next := update m.next id (m.incoming b)
        incoming := update m.incoming b (id + 1)
        pushed := update m.pushed b (id :: m.pushed b) }, .pushed id) := by
  simp [runs, step, pushStep, Mem.setNext]

/-- A thread that finds the served side empty takes the pushed side. -/
theorem runs_lock (hready : m.ready b = 0) (hflip : m.flipping b = false)
    (hin : m.incoming b = id + 1) :
    runs live 4 m (.popLoad b .take) = some
      ({ m with
        flipping := update m.flipping b true
        incoming := update m.incoming b 0
        pushed := update m.pushed b [] },
        .flipLink b .take (m.bumps b) (id + 1) 0 (m.pushed b) []) := by
  simp [runs, step, pushStep, popStep, flipStep, For.empty, hready, hflip, hin]

/-- A pushed side of one task is turned round. -/
theorem runs_turn (v : ℕ) (rest : List ℕ) (hnext : m.next id = 0) :
    runs live 4 m (.flipLink b .take v (id + 1) 0 rest []) = some
      ({ m with
        next := update m.next id 0
        ready := update m.ready b (id + 1)
        bumps := update m.bumps b (v + 1)
        flipping := update m.flipping b false
        served := update m.served b [id] }, .popLoad b .again) := by
  simp [runs, step, pushStep, popStep, flipStep, Mem.setNext, Flip.done, hnext]

/-- A task is popped off the served side. -/
theorem runs_pop (hlive : live id = true) (hready : m.ready b = id + 1) :
    runs live 5 m (.popLoad b .again) = some
      ({ m with
        len := m.len - 1
        ready := update m.ready b (m.next id)
        bumps := update m.bumps b (m.bumps b + 1)
        served := update m.served b (m.served b).tail }, .took id) := by
  simp [runs, step, pushStep, popStep, flipStep, For.got, Mem.sameReady, hready, hlive]

/-- A task that is pushed into an empty band and taken again moves the tag on by two. -/
theorem runs_take (hlive : live id = true) (hready : m.ready b = 0) (hflip : m.flipping b = false)
    (hin : m.incoming b = id + 1) (hnext : m.next id = 0) (hserved : m.served b = []) :
    runs live 13 m (.popLoad b .take) = some
      ({ m with
        len := m.len - 1
        incoming := update m.incoming b 0
        bumps := update m.bumps b (m.bumps b + 2)
        pushed := update m.pushed b [] }, .took id) := by
  refine (runs_add (k := 9) (runs_lock hready hflip hin)).trans ?_
  refine (runs_add (k := 5) (runs_turn _ _ ?_)).trans ?_
  · exact hnext
  refine (runs_pop hlive (update_self ..)).trans ?_
  simp [update_eq_self_iff, hnext, hready, hflip, hserved]

end Alone

end Atap.Injector
