import Atap.Common
import Atap.Unwind.Run

/-!
# A panic stays in its task

`catch_unwind` is around the task and nothing else. A run whose drops do not panic (`Contained`)
therefore returns, whatever its task does and whatever is run inside it, and leaves the thread as it
found it (`Restored`); a run whose drops do panic takes the thread, or the task that was waiting,
down with it.

* `kept_runTask`: no run touches what a task this thread is in is left with, beyond what stops it.
* `panic_contained`: a task that panics settles, its reference is given back, its run returns, and
  **the slot of every other task is as what happened inside left it**.
* `drop_escapes`: a drop outside of it that panics takes its run with it.
* `panic_escapes`: the three drops that are outside.
-/

namespace Atap.Unwind

open Function

variable {limit : ℕ}

/-! ### Contained runs -/

/-- None of the drops panic. -/
def Panics.none (p : Panics) : Bool := !p.output && !p.task && !p.last

mutual

/-- Program code panics only inside `task.run`, in a run and in those inside it. -/
def Run.Contained : Run → Bool
  | .call _ p _ body => p.none && body.Contained

def Body.Contained : Body → Bool
  | .finish _ => true
  | .help r rest => r.Contained && rest.Contained
  | .stop _ _ rest => rest.Contained
  | .handles _ _ rest => rest.Contained
  | .other _ _ rest => rest.Contained

end

theorem Panics.none_iff {p : Panics} :
    p.none = true ↔ p.output = false ∧ p.task = false ∧ p.last = false := by
  simp [Panics.none, and_assoc]

section Slot

variable {p : Panics} {a : Answers} {s : Slot}

theorem destroy_returned (hp : p.none = true) : (destroy p s).1 = .returned := by
  obtain ⟨-, ht, hl⟩ := Panics.none_iff.mp hp
  simp [destroy, ht, hl]

theorem release_returned (hp : p.none = true) : (release p s).1 = .returned := by
  unfold release
  split
  · rfl
  · split
    · exact destroy_returned hp
    · rfl

theorem dropTask_returned (hp : p.none = true) : (dropTask p s).1 = .returned := by
  unfold dropTask
  rw [(Panics.none_iff.mp hp).2.1]
  exact release_returned hp

theorem finishWaiting_returned (hp : p.none = true) : (finishWaiting p s).1 = .returned := by
  unfold finishWaiting
  dsimp only
  rw [(Panics.none_iff.mp hp).2.1]
  exact release_returned hp

theorem rewait_returned (hp : p.none = true) : (rewait p a s).1 = .returned := by
  unfold rewait
  dsimp only
  split
  · rfl
  · split
    · rfl
    · exact finishWaiting_returned hp
  · exact finishWaiting_returned hp

theorem publish_returned (hp : p.none = true) : (publish p a s).1 = .returned := by
  unfold publish
  dsimp only
  split
  · exact dropTask_returned hp
  · split
    · split
      · exact rewait_returned hp
      · exact dropTask_returned hp
    · split
      · split
        · exact rewait_returned hp
        · exact dropTask_returned hp
      · split
        · rfl
        · exact release_returned hp

theorem parkTask_returned (hp : p.none = true) : (parkTask p a s).1 = .returned := by
  unfold parkTask
  rw [(Panics.none_iff.mp hp).2.1]
  split
  · rfl
  · exact release_returned hp

theorem conclude_returned (hp : p.none = true) (f : Fate) : (conclude p a s f).1 = .returned := by
  cases f
  case done => exact publish_returned hp
  case parked => exact parkTask_returned hp
  case panicked =>
    change (if p.task = true then (Exit.unwound, s) else release p (failRunning s)).1 = _
    rw [(Panics.none_iff.mp hp).2.1]
    exact release_returned hp

theorem enter_returned {e : Exit} {s' : Slot} (hp : p.none = true)
    (h : enter p s = .left e s') : e = .returned := by
  unfold enter recycle at h
  rw [(Panics.none_iff.mp hp).1] at h
  dsimp only at h
  split at h
  · cases h
  · split at h
    · cases h
    · cases h
    · split at h
      · simp at h
      · obtain ⟨rfl, -⟩ := Entered.left.inj h
        exact dropTask_returned hp
    · split at h
      · simp at h
      · obtain ⟨rfl, -⟩ := Entered.left.inj h
        exact dropTask_returned hp
    · obtain ⟨rfl, -⟩ := Entered.left.inj h
      exact dropTask_returned hp

/-- A task that is begun is with the thread, and running. -/
theorem enter_begun {s' : Slot} (h : enter p s = .begun s') :
    s'.state = .running ∧ s'.task = false := by
  unfold enter recycle at h
  dsimp only at h
  split at h
  · cases h
  · split at h
    · obtain rfl := Entered.begun.inj h
      exact ⟨rfl, rfl⟩
    · obtain rfl := Entered.begun.inj h
      exact ⟨‹_›, rfl⟩
    · split at h
      · split at h
        · cases h
        · obtain rfl := Entered.begun.inj h
          exact ⟨rfl, rfl⟩
      · cases h
    · split at h
      · split at h
        · cases h
        · obtain rfl := Entered.begun.inj h
          exact ⟨rfl, rfl⟩
      · cases h
    · cases h

/-- A task that is with a thread is not run. -/
theorem enter_of_task (h : s.task = false) : enter p s = .nothing := by
  unfold enter
  rw [if_pos (.inr h)]

theorem release_released : (release p s).2.released = true := by
  unfold release
  split
  · assumption
  · split
    · unfold destroy
      split
      · rfl
      · split <;> rfl
    · rfl

theorem release_terminal (h : s.state.terminal = true) : (release p s).2.state.terminal = true := by
  unfold release
  split
  · exact h
  · split
    · unfold destroy
      split
      · exact h
      · split
        · exact h
        · rfl
    · exact h

end Slot

/-! ### The tasks a thread is in -/

/-- The slot of a task a thread is in: it runs, or it was stopped meanwhile. -/
def Kept (s : Slot) : Prop := s.task = false ∧ s.state.heldByRun = true

section Mem

variable {m : Mem} {id j n : ℕ} {s : Slot} {dest : Stop}

@[simp]
theorem Mem.set_self : (m.set id s).slots id = s := update_self ..

theorem Mem.set_of_ne (h : j ≠ id) : (m.set id s).slots j = m.slots j := update_of_ne h ..

theorem Kept.stop (h : Kept (m.slots j)) : Kept ((m.stop id dest).slots j) := by
  unfold Mem.stop
  split
  · exact h
  · by_cases hj : j = id
    case neg => rwa [Mem.set_of_ne hj]
    case pos =>
      subst hj
      rw [Mem.set_self]
      exact ⟨h.1, by cases dest <;> rfl⟩

theorem Kept.setHandles (h : Kept (m.slots j)) : Kept ((m.setHandles id n).slots j) := by
  unfold Mem.setHandles
  split
  · exact h
  · by_cases hj : j = id
    case neg => rwa [Mem.set_of_ne hj]
    case pos =>
      subst hj
      rw [Mem.set_self]
      exact h

/-- A task that was begun joins those the thread is in. -/
theorem kept_of_enter {p : Panics} {stack : List ℕ} (hs : ∀ j ∈ stack, Kept (m.slots j))
    (he : enter p (m.slots id) = .begun s) : ∀ j ∈ id :: stack, Kept ((m.set id s).slots j) := by
  intro j hj
  by_cases hne : j = id
  case pos =>
    subst hne
    rw [Mem.set_self]
    exact ⟨(enter_begun he).2, by rw [(enter_begun he).1]; rfl⟩
  case neg =>
    rw [Mem.set_of_ne hne]
    exact hs j ((List.mem_cons.mp hj).resolve_left hne)

end Mem

mutual

/-- No run touches the slot of a task the thread is in, beyond what stops it. -/
theorem kept_runTask (limit : ℕ) (r : Run) (stack : List ℕ) (m : Mem)
    (h : ∀ j ∈ stack, Kept (m.slots j)) :
    ∀ j ∈ stack, Kept ((runTask limit r stack m).2.slots j) := by
  obtain ⟨id, p, a, body⟩ := r
  unfold runTask
  split
  case h_1 => exact h
  case h_2 e s he =>
    intro j hj
    have hne : j ≠ id := by
      rintro rfl
      rw [enter_of_task (h j hj).1] at he
      cases he
    rw [Mem.set_of_ne hne]
    exact h j hj
  case h_3 s he =>
    intro j hj
    have hne : j ≠ id := by
      rintro rfl
      rw [enter_of_task (h j hj).1] at he
      cases he
    change Kept ((Mem.set _ id _).slots j)
    rw [Mem.set_of_ne hne]
    exact kept_runBody limit body (id :: stack) { m.set id s with current := some id }
      (kept_of_enter h he) j (List.mem_cons_of_mem _ hj)

theorem kept_runBody (limit : ℕ) (b : Body) (stack : List ℕ) (m : Mem)
    (h : ∀ j ∈ stack, Kept (m.slots j)) :
    ∀ j ∈ stack, Kept ((runBody limit b stack m).2.slots j) := by
  cases b
  case finish => exact h
  case stop j dest rest =>
    exact kept_runBody limit rest stack _ fun j hj => (h j hj).stop
  case handles j n rest =>
    exact kept_runBody limit rest stack _ fun j hj => (h j hj).setHandles
  case other i f rest =>
    refine kept_runBody limit rest stack _ fun j hj => ?_
    split
    case isTrue => exact h j hj
    case isFalse hi =>
      have hne : j ≠ i := fun he => hi (he ▸ hj)
      rw [Mem.set_of_ne hne]
      exact h j hj
  case help r rest =>
    unfold runBody
    split
    · exact kept_runBody limit rest stack m h
    · have hr := kept_runTask limit r stack (m.descend r.id) h
      split
      case h_1 m' he =>
        rw [he] at hr
        exact kept_runBody limit rest stack _ hr
      case h_2 m' he =>
        rw [he] at hr
        exact hr

end

/-! ### What is restored -/

/-- The thread is as it was: at its depth, in its task, and with its notes. -/
structure Restored (m m' : Mem) : Prop where
  depth : m'.depth = m.depth
  current : m'.current = m.current
  nested : m'.nested = m.nested

theorem Restored.trans {m₁ m₂ m₃ : Mem} (h : Restored m₁ m₂) (h' : Restored m₂ m₃) :
    Restored m₁ m₃ :=
  ⟨h'.depth.trans h.depth, h'.current.trans h.current, h'.nested.trans h.nested⟩

/-- There are no notes of runs deeper than those the thread is in. -/
def Clear (m : Mem) : Prop := ∀ d, m.depth ≤ d → m.nested d = none

theorem Restored.clear {m m' : Mem} (h : Restored m m') (hm : Clear m) : Clear m' := by
  intro d hd
  rw [h.nested]
  exact hm d (h.depth ▸ hd)

theorem Restored.set {m : Mem} {id : ℕ} {s : Slot} : Restored m (m.set id s) := ⟨rfl, rfl, rfl⟩

theorem Restored.stop {m : Mem} {j : ℕ} {dest : Stop} : Restored m (m.stop j dest) := by
  unfold Mem.stop
  split
  · exact ⟨rfl, rfl, rfl⟩
  · exact .set

theorem Restored.setHandles {m : Mem} {j n : ℕ} : Restored m (m.setHandles j n) := by
  unfold Mem.setHandles
  split
  · exact ⟨rfl, rfl, rfl⟩
  · exact .set

theorem Clear.descend {m : Mem} {id : ℕ} (hm : Clear m) : Clear (m.descend id) := by
  intro d hd
  have hd : m.depth + 1 ≤ d := hd
  change update m.nested m.depth _ d = _
  rw [update_of_ne (by omega)]
  exact hm d (by omega)

/-- `run_nested` puts back what it changed. -/
theorem Restored.ascend {m m' : Mem} {id : ℕ} (hm : Clear m) (h : Restored (m.descend id) m') :
    Restored m (m'.ascend m.depth) := by
  refine ⟨rfl, h.current, ?_⟩
  change update m'.nested m.depth none = m.nested
  rw [h.nested]
  change update (update m.nested m.depth _) m.depth none = _
  rw [update_idem]
  exact update_eq_self_iff.mpr (hm _ (Nat.le_refl _)).symm

mutual

/-- A contained run returns, and the thread is as it was. -/
theorem restored_runTask (limit : ℕ) (r : Run) (stack : List ℕ) (m : Mem) (hr : r.Contained = true)
    (hm : Clear m) :
    (runTask limit r stack m).1 = .returned ∧ Restored m (runTask limit r stack m).2 := by
  obtain ⟨id, p, a, body⟩ := r
  obtain ⟨hp, hb⟩ := Bool.and_eq_true_iff.mp hr
  unfold runTask
  split
  case h_1 => exact ⟨rfl, rfl, rfl, rfl⟩
  case h_2 e s he => exact ⟨enter_returned hp he, .set⟩
  case h_3 s he =>
    have hbody :=
      restored_runBody limit body (id :: stack) { m.set id s with current := some id } hb hm
    exact ⟨conclude_returned hp _, hbody.depth, rfl, hbody.nested⟩

theorem restored_runBody (limit : ℕ) (b : Body) (stack : List ℕ) (m : Mem) (hb : b.Contained = true)
    (hm : Clear m) : Restored m (runBody limit b stack m).2 := by
  cases b
  case finish => exact ⟨rfl, rfl, rfl⟩
  case stop j dest rest =>
    exact Restored.stop.trans (restored_runBody limit rest stack _ hb (Restored.stop.clear hm))
  case handles j n rest =>
    exact Restored.setHandles.trans
      (restored_runBody limit rest stack _ hb (Restored.setHandles.clear hm))
  case other j f rest =>
    have hset : Restored m (if j ∈ stack then m else m.set j (f (m.slots j))) := by
      split
      · exact ⟨rfl, rfl, rfl⟩
      · exact .set
    exact hset.trans (restored_runBody limit rest stack _ hb (hset.clear hm))
  case help r rest =>
    obtain ⟨hr, hrest⟩ := Bool.and_eq_true_iff.mp hb
    unfold runBody
    split
    · exact restored_runBody limit rest stack m hrest hm
    · obtain ⟨hret, hres⟩ := restored_runTask limit r stack (m.descend r.id) hr hm.descend
      split
      case h_1 m' he =>
        rw [he] at hres
        have hasc := hres.ascend hm
        exact hasc.trans (restored_runBody limit rest stack _ hrest (hasc.clear hm))
      case h_2 m' he =>
        rw [he] at hret
        cases hret

end

/-! ### A panic stays in its task -/

/-- What happens inside a run, with how the task ends; none if the task is not begun. -/
def Run.inside (limit : ℕ) (stack : List ℕ) (m : Mem) : Run → Option (Fate × Mem)
  | .call id p _ body =>
    match enter p (m.slots id) with
    | .begun s => some (runBody limit body (id :: stack) { m.set id s with current := some id })
    | _ => none

section Inside

variable {id j : ℕ} {p : Panics} {a : Answers} {body : Body} {stack : List ℕ} {m m' : Mem}
  {f : Fate}

theorem inside_eq_some (h : (Run.call id p a body).inside limit stack m = some (f, m')) :
    ∃ s, enter p (m.slots id) = .begun s ∧
      runBody limit body (id :: stack) { m.set id s with current := some id } = (f, m') := by
  change (match enter p (m.slots id) with
    | .begun s => some (runBody limit body (id :: stack) { m.set id s with current := some id })
    | _ => none) = _ at h
  split at h
  case h_1 s he => exact ⟨s, he, Option.some.inj h⟩
  case h_2 => cases h

/-- A run that begins is what happens inside, and what `run` then does to the slot. -/
theorem runTask_of_inside (h : (Run.call id p a body).inside limit stack m = some (f, m')) :
    runTask limit (.call id p a body) stack m = ((conclude p a (m'.slots id) f).1,
      { m'.set id (conclude p a (m'.slots id) f).2 with current := m.current }) := by
  obtain ⟨s, he, hb⟩ := inside_eq_some h
  unfold runTask
  rw [he]
  dsimp only
  rw [hb]

/-- A task that panics settles, and its reference is given back. -/
theorem conclude_panicked {s : Slot} (hp : p.task = false) (hs : Kept s) :
    (conclude p a s .panicked).2.state.terminal = true ∧
      (conclude p a s .panicked).2.released = true := by
  change (if p.task = true then (Exit.unwound, s) else release p (failRunning s)).2.state.terminal =
      true ∧
    (if p.task = true then (Exit.unwound, s) else release p (failRunning s)).2.released = true
  rw [hp]
  refine ⟨release_terminal ?_, release_released⟩
  unfold failRunning
  split
  · rfl
  · exact TaskState.terminal_of_heldByRun hs.2 ‹_›

/-- The task of a run is still the thread's when it is out of `catch_unwind`. -/
theorem kept_of_inside (hs : ∀ j ∈ stack, Kept (m.slots j))
    (h : (Run.call id p a body).inside limit stack m = some (f, m')) : Kept (m'.slots id) := by
  obtain ⟨s, he, hb⟩ := inside_eq_some h
  have hkept := kept_runBody limit body (id :: stack)
    { m.set id s with current := some id } (kept_of_enter hs he) id List.mem_cons_self
  rwa [hb] at hkept

/-- What a run that returns has not dropped. -/
theorem conclude_unwound {s : Slot} (f : Fate) :
    (p.task = true → (conclude p a s f).1 = .unwound ∨ (conclude p a s f).2.task = true) ∧
    (p.last = true → f = .done → s.state ≠ .free →
      (conclude p a s f).1 = .unwound ∨ (conclude p a s f).2.state ≠ .free) := by
  constructor
  all_goals
    cases f <;>
      grind [conclude, publish, parkTask, rewait, finishWaiting, dropTask, release, destroy]

/-- **A drop that panics takes its run with it.** One that finds such an output of the run before
unwinds as it begins; one whose task panics as it is dropped returns only with the task back in its
slot, and one whose output does returns only if the slot outlives it. -/
theorem drop_escapes :
    (p.output = true → (m.slots id).task = true → (m.slots id).filled = true →
      (m.slots id).state = .ready ∨ (m.slots id).state = .taken →
      (m.slots id).repeats = true ∨ (m.slots id).input = true →
      (runTask limit (.call id p a body) stack m).1 = .unwound) ∧
    ∀ f m', (Run.call id p a body).inside limit stack m = some (f, m') →
      (p.task = true → (runTask limit (.call id p a body) stack m).1 = .unwound ∨
        ((runTask limit (.call id p a body) stack m).2.slots id).task = true) ∧
      (p.last = true → f = .done → (m'.slots id).state ≠ .free →
        (runTask limit (.call id p a body) stack m).1 = .unwound ∨
          ((runTask limit (.call id p a body) stack m).2.slots id).state ≠ .free) := by
  constructor
  · intro hp ht hf hs hr
    obtain ⟨s, he⟩ : ∃ s, enter p (m.slots id) = .left .unwound s := by
      rcases hs with hs | hs <;> simp [enter, recycle, hs, ht, hf, hr, hp]
    unfold runTask
    rw [he]
  · intro f m' h
    rw [runTask_of_inside h]
    simpa only [Mem.set_self] using conclude_unwound f

end Inside

/-- **A panic stays in its task.** Wherever a contained run stands in the runs of a thread, it
returns and leaves the thread as it was; a task that panicked has settled and its reference was
given back; and all other slots are as what happened inside left them. -/
theorem panic_contained (limit : ℕ) (r : Run) (stack : List ℕ) (m : Mem) (hr : r.Contained = true)
    (hm : Clear m) (hs : ∀ j ∈ stack, Kept (m.slots j)) :
    (runTask limit r stack m).1 = .returned ∧ Restored m (runTask limit r stack m).2 ∧
    ∀ f m', r.inside limit stack m = some (f, m') →
      (f = .panicked → ((runTask limit r stack m).2.slots r.id).state.terminal = true ∧
        ((runTask limit r stack m).2.slots r.id).released = true) ∧
      ∀ j, j ≠ r.id → (runTask limit r stack m).2.slots j = m'.slots j := by
  obtain ⟨hret, hres⟩ := restored_runTask limit r stack m hr hm
  refine ⟨hret, hres, fun f m' h => ?_⟩
  obtain ⟨id, p, a, body⟩ := r
  have hp := (Panics.none_iff.mp (Bool.and_eq_true_iff.mp hr).1).2.1
  rw [runTask_of_inside h]
  refine ⟨?_, fun j hj => update_of_ne hj ..⟩
  rintro rfl
  change (update m'.slots id _ id).state.terminal = true ∧
    (update m'.slots id _ id).released = true
  rw [update_self]
  exact conclude_panicked hp (kept_of_inside hs h)

/-- The first task repeats, and has the output of its last run; the others are to run once. -/
def tasks : ℕ → Slot
  | 0 => ⟨.ready, true, false, true, true, 1, false⟩
  | _ => ⟨.pending, false, false, true, false, 1, false⟩

/-- A worker between two tasks. -/
def outside : Mem := ⟨tasks, none, 0, fun _ => none⟩

/-- A worker in the second task, which waits. -/
def waiting : Mem :=
  { outside.set 1 ⟨.running, false, false, false, false, 1, false⟩ with current := some 1 }

def answers : Answers := ⟨true, false, true, .finish⟩

/-- The first task is run, and ends as `fate` says. -/
def first (p : Panics) (fate : Fate) : Run := .call 0 p answers (.finish fate)

/-- The second task is run, waits, and goes on once the first was run meanwhile. -/
def second (p : Panics) (fate : Fate) : Run :=
  .call 1 ⟨false, false, false⟩ answers (.help (first p fate) (.finish .done))

/-- The first task panics in a worker that waits in the second, which is left to go on. -/
theorem panic_contained_nested :
    let r := runTask helpDepth (first ⟨false, false, false⟩ .panicked) [1] (waiting.descend 0)
    r.1 = .returned ∧ Restored (waiting.descend 0) r.2 ∧ (r.2.slots 0).state.terminal = true ∧
      (r.2.slots 0).released = true ∧ r.2.slots 1 = waiting.slots 1 := by
  have hclear : Clear waiting := fun _ _ => rfl
  have hkept : ∀ j ∈ [1], Kept ((waiting.descend 0).slots j) := by
    simp only [List.mem_singleton, forall_eq]
    exact ⟨rfl, rfl⟩
  obtain ⟨hret, hres, h⟩ := panic_contained helpDepth (first ⟨false, false, false⟩ .panicked) [1]
    (waiting.descend 0) rfl hclear.descend hkept
  obtain ⟨hown, hothers⟩ := h .panicked _ rfl
  exact ⟨hret, hres, (hown rfl).1, (hown rfl).2, hothers 1 (by decide)⟩

/-- A run at the top of the worker's loop. -/
def top (r : Run) : Exit × Mem := runTask helpDepth r [] outside

/-- The second task is run and ends; `n` handles of it are left. -/
def once (p : Panics) (n : ℕ) : Run := .call 1 p answers (.handles 1 n (.finish .done))

/-- The drop of the output before, of the task, and of the output that goes with the slot each take
the thread out of `run`, and the first two leave a reference nobody gives back. Inside a wait, the
first fails the task that waits, which had nothing to do with it; the depth and the note stay. -/
theorem panic_escapes :
    ((top (first ⟨true, false, false⟩ .done)).1 = .unwound ∧
      ((top (first ⟨true, false, false⟩ .done)).2.slots 0).state = .running ∧
      ((top (first ⟨true, false, false⟩ .done)).2.slots 0).released = false) ∧
    ((top (once ⟨false, true, false⟩ 1)).1 = .unwound ∧
      ((top (once ⟨false, true, false⟩ 1)).2.slots 1).released = false) ∧
    (top (once ⟨false, false, true⟩ 0)).1 = .unwound ∧
    (((top (second ⟨true, false, false⟩ .done)).2.slots 1).state = .failed ∧
      (top (second ⟨true, false, false⟩ .done)).2.depth = 1 ∧
      (top (second ⟨true, false, false⟩ .done)).2.nested 0 = some 0 ∧
      ((top (second ⟨true, false, false⟩ .done)).2.slots 0).state = .running ∧
      ((top (second ⟨true, false, false⟩ .done)).2.slots 0).released = false) ∧
    ((top (second ⟨false, false, false⟩ .done)).2.slots 1).state = .ready := by
  decide +kernel

end Atap.Unwind
