import Atap.Receivers.Once

/-!
# The outputs of a repeat that is linked at its spawn

`give_to` is a registration the spawn makes once the task is there to run. What it is handed are the
outputs a walk finds readable, and an output is readable only until the next run begins or a
listener takes it. So an output is passed over when it is published before the registration is
hung, when a taker comes before the walk, and when the publisher's walk is left to another that
holds the lock and the next run does not wait for that one (`output_passed_over`).

Nothing else loses one. `Keeps` rules these three out, and the far end's own end; under it every
output a repeat publishes is handed to the registration once (`link_handed_every_output`), with the
publisher's walk over.

* `Repeats`: what a repeat does that is neither cancelled nor fails. One run is over before the
  next begins.
* `Due`: who sees to it that the registration gets the output of the moment.
* `Link`: the invariant.
-/

namespace Atap.Receivers

open Function

variable {T : Type*} {i : ℕ}

namespace Walk

/-- The pass will come to registration `i` and find the output, if it is readable. -/
def comes (i : ℕ) : Walk → Bool
  | close | swap _ => true
  | enter _ l | check _ l | count _ l => decide (i ∈ l)
  | visit _ rd l _ | keep _ rd _ l _ => rd.isSome && decide (i ∈ l)
  | _ => false

theorem holds_of_comes {w : Walk} (h : w.comes i = true) : w.holds = true := by
  cases w <;> first | rfl | cases h

theorem holds_of_mem_hands {w : Walk} (h : i ∈ w.hands) : w.holds = true := by
  cases w <;> first | rfl | cases h

end Walk

namespace Pc

/-- The thread's pass will come to registration `i`. -/
def comes (i : ℕ) : Pc → Bool
  | walk _ w => w.comes i
  | _ => false

/-- The thread has published, and is in `forward_output`. -/
def forwards : Pc → Bool
  | forward | walk .forward _ => true
  | _ => false

/-- The thread has published and is yet to ask for its walk. -/
def early : Pc → Bool
  | forward | walk .forward .ask => true
  | _ => false

/-- The thread has asked for the walk of its output. -/
def waits : Pc → Bool
  | walk .forward .look | walk .forward .lock | walk .forward .take => true
  | _ => false

/-- The thread is to look whether its walk is needed, or whether it is free to walk. -/
def meets : Pc → Bool
  | walk .forward .look | walk .forward .lock => true
  | _ => false

/-- The thread has the task's run, from its begin to its going back. -/
def drives : Pc → Bool
  | beginKind | beginReady | beginTaken | recycle | run | note | count | publish | forward
  | walk .forward _ | published | finish | closeLook _ | close _ | walk .close _
  | walk .panicked _ | fail => true
  | _ => false

/-- The thread is where only a task that fails, or a schedule, leads. -/
def strays : Pc → Bool
  | closeLook true | close true | walk .panicked _ | fail | closeFinished => true
  | _ => false

/-- The thread is on the way to publish. -/
def ahead : Pc → Bool
  | beginReady | beginTaken | recycle | run | note | count | publish => true
  | _ => false

/-- The thread has published. -/
def past : Pc → Bool
  | forward | walk .forward _ | published | finish => true
  | _ => false

/-- The thread has found the series over. -/
def shuts : Pc → Bool
  | regClose | closeLook false | close false => true
  | _ => false

theorem holds_of_comes {pc : Pc} (h : pc.comes i = true) : pc.holds = true := by
  cases pc <;> first | exact Walk.holds_of_comes h | cases h

theorem holds_of_mem_hands {pc : Pc} (h : i ∈ pc.hands) : pc.holds = true := by
  cases pc <;> first | exact Walk.holds_of_mem_hands h | cases h

theorem comes_of_fresh {pc : Pc} (h : pc.fresh = true) : pc.comes i = true := by
  unfold fresh at h
  split at h <;> first | rfl | cases h

theorem drives_of_forwards {pc : Pc} (h : pc.forwards = true) : pc.drives = true := by
  unfold forwards at h
  split at h <;> first | rfl | cases h

theorem drives_of_ahead {pc : Pc} (h : pc.ahead = true) : pc.drives = true := by
  unfold ahead at h
  split at h <;> first | rfl | cases h

theorem forwards_of_early {pc : Pc} (h : pc.early = true) : pc.forwards = true := by
  unfold early at h
  split at h <;> first | rfl | cases h

theorem forwards_of_waits {pc : Pc} (h : pc.waits = true) : pc.forwards = true := by
  unfold waits at h
  split at h <;> first | rfl | cases h

theorem meets_or_holds_of_waits {pc : Pc} (h : pc.waits = true) :
    pc.meets = true ∨ pc.holds = true := by
  unfold waits at h
  split at h <;> first | exact .inl rfl | exact .inr rfl | cases h

theorem not_comes_of_waits {pc : Pc} (h : pc.waits = true) : pc.comes i = false := by
  unfold waits at h
  split at h <;> first | rfl | cases h

end Pc

/-- The task is stopped, or is a schedule that has had its runs. -/
def Act.ends : Act → Bool
  | stop _ | endSeries => true
  | _ => false

section Step

variable {m m' : Mem} {pc pc' : Pc} {w : Walk} {o : Option Walk} {a : Act}

theorem Step.drives (h : Step m pc a m' pc') (ho : m.state.isOver = false)
    (hpc : pc.strays = false) (hd : pc'.drives = true) : pc.drives = true ∨ a = .begin := by
  cases h
  case walk r _ _ _ | walked r _ _ => cases r <;> first | exact .inl rfl | cases hd
  case begin | beginLater => exact .inr rfl
  case turnAway h => cases h.symm.trans ho
  case closeFinished => cases hpc
  all_goals first | exact .inl rfl | cases hd

theorem Step.strays (h : Step m pc a m' pc') (hpc : pc.strays = false) (ha : a.ends = false)
    (hp : a = .panic → pc ≠ .run) : pc'.strays = false := by
  cases h
  case walk r _ _ _ | walked r _ _ => cases r <;> first | rfl | cases hpc
  case panic => exact absurd rfl (hp rfl)
  case closeLook p _ => cases p <;> first | rfl | cases hpc
  case endSeries => cases ha
  all_goals first | rfl | cases hpc

theorem Step.alive (h : Step m pc a m' pc') (ho : m.state.isOver = false)
    (hpc : pc.strays = false) (ha : a.ends = false) : m'.state.isOver = false := by
  cases h
  case walk h | walked h => rw [h.frame.1]; exact ho
  case fail => cases hpc
  case stop => cases ha
  all_goals first | exact ho | rfl

/-- The series is over once its last run says so. -/
theorem Step.ends (h : Step m pc a m' pc') (ha : a.ends = false) (hm : m'.more = false) :
    m.more = false ∨ pc = .finish ∧ pc' = .closeLook false ∧ m' = { m with more := false } := by
  cases h
  case walk h | walked h => exact .inl (h.frame.2.1.symm.trans hm)
  case finish => exact .inr ⟨rfl, rfl, rfl⟩
  case endSeries => cases ha
  all_goals exact .inl hm

/-- Whoever is to close the receivers has found the series over. -/
theorem Step.shuts (h : Step m pc a m' pc') (hs : pc.shuts = true → m.more = false)
    (ho : m.state.isOver = false) (hpc : pc.strays = false)
    (hr : pc = .publish → m.state = .running) (hs' : pc'.shuts = true) : m'.more = false := by
  cases h
  case walked r _ _ => cases r <;> cases hs'
  case regOver h | turnAway h => cases h.symm.trans ho
  case regKind h | isOver h => exact h
  case publishLost h => exact absurd (hr rfl) h
  case finish => rfl
  case closeLook p _ => cases p <;> first | exact hs rfl | cases hs'
  case closeFinished => cases hpc
  all_goals first | exact hs rfl | cases hs'

theorem Step.closes_of_shuts (h : Step m pc a m' pc') (hpc : pc.strays = false)
    (hc : m'.closed = true) : m.closed = true ∨ pc.shuts = true ∧ m'.more = m.more := by
  cases h
  case walk h | walked h => cases h <;> exact .inl hc
  case regClose | close => exact .inr ⟨rfl, rfl⟩
  case panicClose => cases hpc
  all_goals exact .inl hc

theorem Step.ahead (h : Step m pc a m' pc') (hm : m.more = false) (hs : m.state ≠ .pending)
    (hpc : pc.ahead = false) : pc'.ahead = false := by
  cases h
  case walked r _ _ => cases r <;> rfl
  case begin h => exact absurd h hs
  case beginKind h => cases h.symm.trans hm
  all_goals first | rfl | cases hpc

theorem Step.past (h : Step m pc a m' pc') (hp : pc'.past = true) :
    pc.past = true ∨ m'.state ≠ .pending := by
  cases h
  case walk r _ _ _ | walked r _ _ => cases r <;> first | exact .inl rfl | cases hp
  case publish => exact .inr nofun
  all_goals first | exact .inl rfl | cases hp

theorem Step.finishes (h : Step m pc a m' pc') (hf : m'.finished i = true) :
    m.finished i = true ∨ a = .farEnd i := by
  cases h
  case walk h | walked h => exact .inl (by rw [← h.frame.2.2.2.2.2.2.2]; exact hf)
  case farEnd j =>
    rcases eq_or_ne i j with rfl | hne
    · exact .inr rfl
    · exact .inl ((update_of_ne hne ..).symm.trans hf)
  all_goals exact .inl hf

/-- An output is published by the run under way, which then forwards it. -/
theorem Step.outputs (h : Step m pc a m' pc') : m'.outputs = m.outputs ∨
    m.state = .running ∧ m'.outputs = m.outputs + 1 ∧ m'.state = .ready ∧ pc' = .forward := by
  cases h
  case walk h | walked h => exact .inl h.frame.2.2.2.2.2.1
  case publish h => exact .inr ⟨h, rfl, rfl, rfl⟩
  all_goals exact .inl rfl

/-- The output stays readable until the next run begins, or somebody takes it. -/
theorem Step.stays_ready (h : Step m pc a m' pc') (hs : m.state = .ready) (hpc : pc ≠ .beginReady)
    (ht : a ≠ .take) (ha : a.ends = false) : m'.state = .ready := by
  cases h
  case walk h | walked h => exact h.frame.1.trans hs
  case begin h | beginTaken h => cases hs.symm.trans h
  case beginReady => exact absurd rfl hpc
  case publish => rfl
  case fail => rw [hs]; rfl
  case take => exact absurd rfl ht
  case stop => cases ha
  all_goals exact hs

theorem Step.log_mono (h : Step m pc a m' pc') {k : ℕ} (hk : k ∈ m.log i) : k ∈ m'.log i := by
  rcases h.log with ⟨hl, -⟩ | ⟨g, j, -, -, hl, -⟩
  · rw [hl]; exact hk
  · rw [hl]
    rcases eq_or_ne i j with rfl | hne
    · rw [show (m.deliver g i).log i = m.payload :: m.log i from update_self ..]
      exact List.mem_cons_of_mem _ hk
    · rw [show (m.deliver g j).log i = m.log i from update_of_ne hne ..]
      exact hk

/-- **A pass on its way to a registration comes to it while the output is readable**, and hands it
the output if it has not had it. -/
theorem Step.comes (h : Step m pc a m' pc') (hc : pc.comes i = true) (hs : m.state = .ready)
    (hh : pc.hands = [] → i ∈ m.head) (hp : a = .panic → pc.hits i = false) :
    pc'.comes i = true ∨ ∃ g, pc.seen = some g ∧
      (m.unseen g i = true → m'.log i = m.payload :: m.log i) := by
  cases h
  case walk h =>
    cases h
    case swapNone h =>
      have := hh rfl
      rw [h] at this
      cases this
    case swap => exact .inl (decide_eq_true (hh rfl))
    case checkLost h => exact absurd hs h
    case visitOver => cases of_decide_eq_true (p := i ∈ ([] : List ℕ)) hc
    case visit c g j l kept _ =>
      rcases List.mem_cons.mp (of_decide_eq_true hc) with rfl | hmem
      · exact .inr ⟨g, rfl, fun _ => update_self ..⟩
      · exact .inl (decide_eq_true hmem)
    case visitSeen c g j l kept hu =>
      rcases List.mem_cons.mp (of_decide_eq_true hc) with rfl | hmem
      · exact .inr ⟨g, rfl, fun hu' => by cases hu.symm.trans hu'⟩
      · exact .inl (decide_eq_true hmem)
    case visitPanic c g j l kept _ =>
      rcases List.mem_cons.mp (of_decide_eq_true hc) with rfl | hmem
      · have hno : (i == i) = false := hp rfl
        cases hno.symm.trans (beq_self_eq_true i)
      · exact .inl (decide_eq_true hmem)
    all_goals first | exact .inl hc | exact .inl rfl | cases hc
  case walked h => cases h <;> cases hc
  all_goals cases hc

/-- A publisher with something to forward to asks for a walk. -/
theorem Step.early (h : Step m pc a m' pc') (he : pc.early = true) (hx : m.extras = true) :
    pc'.early = true ∨ pc'.waits = true ∧ m'.rewalk = true := by
  cases h
  case walk r _ _ h =>
    cases h <;> cases r <;> first | exact .inr ⟨rfl, rfl⟩ | cases he
  case walked r _ h => cases h <;> cases r <;> cases he
  case forwardNone h => cases hx.symm.trans h
  all_goals first | exact .inl rfl | cases he

/-- A publisher that finds the list and the lock there for it walks. -/
theorem Step.waits (h : Step m pc a m' pc') (hw : pc.waits = true) (hr : m.rewalk = true)
    (hl : pc.meets = true → m.locked = false) (hh : pc.meets = true → m.head ≠ []) :
    pc'.waits = true ∧ m'.rewalk = true ∨ pc'.forwards = true ∧ pc'.comes i = true := by
  cases h
  case walk r _ _ h =>
    obtain rfl : r = .forward := by cases r <;> first | rfl | cases hw
    cases h
    case lookNone h => exact absurd h (hh rfl)
    case look | lock => exact .inl ⟨rfl, hr⟩
    case take => exact .inr ⟨rfl, rfl⟩
    case takeNone h => cases hr.symm.trans h
    all_goals cases hw
  case walked r _ h =>
    obtain rfl : r = .forward := by cases r <;> first | rfl | cases hw
    cases h
    case lockHeld h => cases (hl rfl).symm.trans h
    all_goals cases hw
  all_goals cases hw

theorem Step.forwards (h : Step m pc a m' pc') (hf : pc.forwards = true)
    (hc : pc'.comes i = true) : pc'.forwards = true := by
  cases h
  case walk r _ _ _ => cases r <;> first | rfl | cases hf
  case walked r _ _ => cases r <;> cases hc
  all_goals first | rfl | cases hc

end Step

/-- A repeat that is neither cancelled nor fails: no run panics, and one run is over, down to its
going back, before the next begins. -/
def Repeats (s : Config T Mem Pc) (t : T) (a : Act) : Prop :=
  a.ends = false ∧ (a = .panic → s.loc t ≠ .run) ∧
    (a = .begin → ∀ u, (s.loc u).drives = false)

instance [Fintype T] (s : Config T Mem Pc) (t : T) (a : Act) : Decidable (Repeats s t a) :=
  inferInstanceAs (Decidable (_ ∧ _))

/-- What keeps registration `i` from missing an output: it hangs on the task as an output is
published; until it is handed that, no listener takes it before the publisher's walk is over, and
the publisher finds the lock free; and the far end goes on taking values. -/
def Keeps (i : ℕ) (s : Config T Mem Pc) (t : T) (a : Act) : Prop :=
  Repeats s t a ∧ (s.loc t = .publish → i < s.mem.nodes) ∧
    (s.mem.outputs ≠ 0 → s.mem.outputs ∉ s.mem.log i →
      (a = .take → ∀ u, (s.loc u).forwards = false) ∧
      ((s.loc t).meets = true → s.mem.locked = false)) ∧
    a ≠ .farEnd i ∧ (a = .panic → (s.loc t).hits i = false)

instance [Fintype T] (i : ℕ) (s : Config T Mem Pc) (t : T) (a : Act) : Decidable (Keeps i s t a) :=
  inferInstanceAs (Decidable (_ ∧ _))

/-- A pass that will come to registration `i` is asked for, or under way. -/
def Served (i : ℕ) (m : Mem) (loc : T → Pc) : Prop :=
  m.rewalk = true ∨ ∃ u, (loc u).comes i = true

/-- The publisher sees to it that registration `i` gets the output of the moment. -/
def Due (i : ℕ) (m : Mem) (loc : T → Pc) (t : T) : Prop :=
  (loc t).early = true ∨ (loc t).waits = true ∧ Served i m loc ∨
    (loc t).forwards = true ∧ (loc t).comes i = true

/-- What the threads at a repeat may rely on, and what registration `i` was handed. -/
structure Link (i : ℕ) (m : Mem) (loc : T → Pc) : Prop where
  one : ∀ t u, (loc t).drives = true → (loc u).drives = true → t = u
  alive : m.state.isOver = false
  tame : ∀ t, (loc t).strays = false
  past : m.state = .pending → ∀ t, (loc t).past = false
  shuts : ∀ t, (loc t).shuts = true → m.more = false
  closed : m.closed = true → m.more = false
  /-- Once the series is over nothing more is published, and the last output was handed over. -/
  isOver : m.more = false →
    m.state ≠ .pending ∧ (m.outputs = 0 ∨ m.outputs ∈ m.log i) ∧ ∀ t, (loc t).ahead = false
  gone : m.gone i = true → m.closed = true
  target : m.finished i = false
  hung : 0 < m.outputs → i < m.nodes
  had : ∀ k, 0 < k → k < m.outputs → k ∈ m.log i
  due : m.outputs = 0 ∨ m.outputs ∈ m.log i ∨ m.state = .ready ∧ ∃ t, Due i m loc t

theorem Due.forwards {m : Mem} {loc : T → Pc} {t : T} (h : Due i m loc t) :
    (loc t).forwards = true := by
  rcases h with h | ⟨h, -⟩ | ⟨h, -⟩
  · exact Pc.forwards_of_early h
  · exact Pc.forwards_of_waits h
  · exact h

theorem Fresh.link {s : Config T Mem Pc} (h : Fresh s) (hm : s.mem.more = true)
    (hf : s.mem.finished i = false) : Link i s.mem s.loc where
  one t u ht := by rw [h.loc] at ht; cases ht
  alive := by rw [h.state]; rfl
  tame t := by rw [h.loc]; rfl
  past _ t := by rw [h.loc]; rfl
  shuts t ht := by rw [h.loc] at ht; cases ht
  closed hc := by cases h.closed.symm.trans hc
  isOver hm' := by cases hm.symm.trans hm'
  gone hg := by cases (h.gone i).symm.trans hg
  target := hf
  hung ho := absurd h.outputs (Nat.ne_of_gt ho)
  had k _ hk := by rw [h.outputs] at hk; cases hk
  due := .inl h.outputs

section Run

variable {m m' : Mem} {pc' : Pc} {a : Act} {loc : T → Pc} {t : T}

namespace Link

theorem had_step (hi : Link i m loc) (h : Step m (loc t) a m' pc') (k : ℕ) (hpos : 0 < k)
    (hlt : k < m'.outputs) : k ∈ m'.log i := by
  refine h.log_mono ?_
  rcases h.outputs with hout | ⟨hrun, hout, -, -⟩
  · exact hi.had k hpos (hout ▸ hlt)
  · rcases Nat.lt_succ_iff_lt_or_eq.mp (hout ▸ hlt) with hlt | rfl
    · exact hi.had k hpos hlt
    · -- The run that publishes has put an end to the last output.
      rcases hi.due with ho | hmem | ⟨hs, -⟩
      · omega
      · exact hmem
      · cases hs.symm.trans hrun

theorem over_step [DecidableEq T] (hi : Link i m loc) (h : Step m (loc t) a m' pc')
    (ha : a.ends = false) (hm : m'.more = false) : m'.state ≠ .pending ∧
      (m'.outputs = 0 ∨ m'.outputs ∈ m'.log i) ∧
      ∀ u, (update loc t pc' u).ahead = false := by
  rcases h.ends ha hm with hm | ⟨hpc, rfl, rfl⟩
  · obtain ⟨hs, hlast, hnone⟩ := hi.isOver hm
    refine ⟨fun hp => hs (h.state_pending hp), ?_,
      forall_update (P := (Pc.ahead · = false)) (h.ahead hm hs (hnone t)) fun u _ => hnone u⟩
    rcases h.payload with ⟨-, hout⟩ | ⟨hpc, -, -⟩ | ⟨hpc, -, -⟩
    · rw [hout]
      exact hlast.imp_right h.log_mono
    · have := hnone t
      rw [hpc] at this
      cases this
    · have := hnone t
      rw [hpc] at this
      cases this
  · have hdrives : (loc t).drives = true := by rw [hpc]; rfl
    refine ⟨fun hp => ?_, ?_, forall_update (P := (Pc.ahead · = false)) rfl
      fun u hu => Bool.eq_false_iff.mpr fun hu' => ?_⟩
    · have := hi.past hp t
      rw [hpc] at this
      cases this
    · rcases hi.due with ho | hmem | ⟨-, v, hv⟩
      · exact .inl ho
      · exact .inr hmem
      · have hfw := hv.forwards
        rw [hi.one v t (Pc.drives_of_forwards hfw) hdrives, hpc] at hfw
        cases hfw
    · exact hu (hi.one u t (Pc.drives_of_ahead hu') hdrives)

end Link

variable [Fintype T]

/-- A registration that has not had the last output goes by an older count. -/
theorem Flow.unseen (hf : Flow m loc) (hd : m.outputs ∉ m.log i) :
    m.unseen m.generation i = true := by
  unfold Mem.unseen
  cases hh : m.handed i with
  | none => rfl
  | some h =>
    obtain ⟨k, l, hlog, -, hlast, -⟩ := (hf.sound i).last h hh
    refine decide_eq_true (lt_of_le_of_ne ((hf.sound i).le h hh) fun heq => hd ?_)
    rw [hlog, ← hlast heq]
    exact List.mem_cons_self

namespace Link

theorem running (hi : Link i m loc) (hf : Flow m loc) (ht : loc t = .publish) :
    m.state = .running :=
  TaskState.running_of_heldByRun (hf.held t (by rw [ht]; rfl)) hi.alive

/-- A registration that is owed an output is on the list, unless a pass has it in its hands. -/
theorem mem_head (hi : Link i m loc) (hw : Walks m loc) (ho : m.outputs ≠ 0)
    (hd : m.outputs ∉ m.log i) (hn : ∀ u, (loc u).holds = true → (loc u).hands = []) :
    i ∈ m.head := by
  rcases hw.places i (hi.hung (Nat.pos_of_ne_zero ho)) with hg | hh | ⟨u, hu⟩
  · obtain ⟨-, hlast, -⟩ := hi.isOver (hi.closed (hi.gone hg))
    exact absurd hlast (not_or.mpr ⟨ho, hd⟩)
  · exact hh
  · rw [hn u (Pc.holds_of_mem_hands hu)] at hu
    cases hu

theorem comes_step (hi : Link i m loc) (hf : Flow m loc) (hw : Walks m loc)
    (h : Step m (loc t) a m' pc') (hk : Keeps i ⟨m, loc⟩ t a) (ho : m.outputs ≠ 0)
    (hd : m.outputs ∉ m.log i) (hs : m.state = .ready) (hc : (loc t).comes i = true) :
    pc'.comes i = true ∨ m.outputs ∈ m'.log i := by
  have hhead (hn : (loc t).hands = []) : i ∈ m.head :=
    hi.mem_head hw ho hd fun u hu => hw.eq_of_holds (Pc.holds_of_comes hc) hu ▸ hn
  rcases h.comes hc hs hhead hk.2.2.2.2 with hc' | ⟨g, hg, hlog⟩
  · exact .inl hc'
  · obtain ⟨rfl, -⟩ := hf.seen t g hg
    rw [hlog (hf.unseen hd), (hf.payload (.inl hs)).1]
    exact .inr List.mem_cons_self

/-- A publisher that is about to walk finds its request, and the list, as they were. -/
theorem asked_of_waits (hi : Link i m loc) (hw : Walks m loc) (hk : Keeps i ⟨m, loc⟩ t a)
    (ho : m.outputs ≠ 0) (hd : m.outputs ∉ m.log i) (ht : (loc t).waits = true)
    (hv : Served i m loc) : m.rewalk = true ∧ ((loc t).meets = true → m.head ≠ []) := by
  have hfree (hm : (loc t).meets = true) (u : T) : (loc u).holds = false :=
    Bool.eq_false_iff.mpr fun hu => by
      cases (hw.locked_of_holds hu).symm.trans ((hk.2.2.1 ho hd).2 hm)
  constructor
  · rcases hv with hr | ⟨u, hu⟩
    · exact hr
    · rcases Pc.meets_or_holds_of_waits ht with hm | hh
      · cases (hfree hm u).symm.trans (Pc.holds_of_comes hu)
      · obtain rfl := hw.eq_of_holds hh (Pc.holds_of_comes hu)
        cases (Pc.not_comes_of_waits ht).symm.trans hu
  · intro hm hnil
    have hmem : i ∈ m.head := hi.mem_head hw ho hd fun u hu => by
      cases (hfree hm u).symm.trans hu
    rw [hnil] at hmem
    cases hmem

variable [DecidableEq T]

theorem served_step (hi : Link i m loc) (hf : Flow m loc) (hw : Walks m loc)
    (h : Step m (loc t) a m' pc') (hk : Keeps i ⟨m, loc⟩ t a) (ho : m.outputs ≠ 0)
    (hd : m.outputs ∉ m.log i) (hs : m.state = .ready) (hv : Served i m loc) :
    Served i m' (update loc t pc') ∨ m.outputs ∈ m'.log i := by
  have hmine (hc : pc'.comes i = true) : Served i m' (update loc t pc') :=
    .inr ⟨t, by rw [update_self]; exact hc⟩
  rcases hv with hr | ⟨u, hu⟩
  · rcases h.rewalk hr with hr | ⟨-, -, hfresh⟩
    · exact .inl (.inl hr)
    · exact .inl (hmine (Pc.comes_of_fresh hfresh))
  · rcases eq_or_ne u t with rfl | hne
    · exact (hi.comes_step hf hw h hk ho hd hs hu).imp_left hmine
    · exact .inl (.inr ⟨u, by rw [update_of_ne hne]; exact hu⟩)

/-- The publisher goes on seeing to it, or the output is handed over. -/
theorem due_of_due (hi : Link i m loc) (hf : Flow m loc) (hw : Walks m loc)
    (h : Step m (loc t) a m' pc') (hk : Keeps i ⟨m, loc⟩ t a) (ho : m.outputs ≠ 0)
    (hd : m.outputs ∉ m'.log i) (hs : m.state = .ready) {v : T} (hv : Due i m loc v) :
    Due i m' (update loc t pc') v := by
  have hd' : m.outputs ∉ m.log i := fun hmem => hd (h.log_mono hmem)
  rcases eq_or_ne v t with rfl | hne
  · unfold Due
    rw [update_self]
    rcases hv with he | ⟨hwait, hserved⟩ | ⟨hfw, hc⟩
    · have hx := hf.hung (Nat.ne_zero_of_lt (hi.hung (Nat.pos_of_ne_zero ho)))
      rcases h.early he hx with he | ⟨hwait, hr⟩
      · exact .inl he
      · exact .inr (.inl ⟨hwait, .inl hr⟩)
    · obtain ⟨hr, hh⟩ := hi.asked_of_waits hw hk ho hd' hwait hserved
      rcases h.waits hwait hr (hk.2.2.1 ho hd').2 hh with ⟨hwait, hr⟩ | hc
      · exact .inr (.inl ⟨hwait, .inl hr⟩)
      · exact .inr (.inr hc)
    · have hc' := (hi.comes_step hf hw h hk ho hd' hs hc).resolve_right hd
      exact .inr (.inr ⟨h.forwards hfw hc', hc'⟩)
  · unfold Due
    rw [update_of_ne hne]
    refine hv.imp_right (Or.imp_left fun ⟨hwait, hserved⟩ => ⟨hwait, ?_⟩)
    exact (hi.served_step hf hw h hk ho hd' hs hserved).resolve_right hd

theorem due_step (hi : Link i m loc) (hf : Flow m loc) (hw : Walks m loc)
    (h : Step m (loc t) a m' pc') (hk : Keeps i ⟨m, loc⟩ t a) :
    m'.outputs = 0 ∨ m'.outputs ∈ m'.log i ∨
      m'.state = .ready ∧ ∃ u, Due i m' (update loc t pc') u := by
  rcases h.outputs with hout | ⟨-, -, hs, hpc⟩
  · rw [hout]
    by_cases hd : m.outputs ∈ m'.log i
    · exact .inr (.inl hd)
    rcases hi.due with ho | hmem | ⟨hs, v, hv⟩
    · exact .inl ho
    · exact absurd (h.log_mono hmem) hd
    · by_cases ho : m.outputs = 0
      · exact .inl ho
      have hbegin : loc t ≠ .beginReady := fun heq => by
        obtain rfl := hi.one v t (Pc.drives_of_forwards hv.forwards) (by rw [heq]; rfl)
        have := hv.forwards
        rw [heq] at this
        cases this
      have htake : a ≠ .take := fun heq => by
        have hnot : m.outputs ∉ m.log i := fun hmem => hd (h.log_mono hmem)
        cases ((hk.2.2.1 ho hnot).1 heq v).symm.trans hv.forwards
      exact .inr (.inr ⟨h.stays_ready hs hbegin htake hk.1.1,
        v, hi.due_of_due hf hw h hk ho hd hs hv⟩)
  · refine .inr (.inr ⟨hs, t, .inl ?_⟩)
    rw [update_self, hpc]
    rfl

/-- **A step keeps the link.** -/
theorem step (hi : Link i m loc) (hf : Flow m loc) (hw : Walks m loc)
    (h : Step m (loc t) a m' pc') (hk : Keeps i ⟨m, loc⟩ t a) :
    Link i m' (update loc t pc') where
  one := unique_update hi.one fun hpc u hu => by
    rcases h.drives hi.alive (hi.tame t) hpc with ht | hbegin
    · exact Bool.eq_false_iff.mpr fun hd => hu (hi.one u t hd ht)
    · exact hk.1.2.2 hbegin u
  alive := h.alive hi.alive (hi.tame t) hk.1.1
  tame := forall_update (P := (Pc.strays · = false)) (h.strays (hi.tame t) hk.1.1 hk.1.2.1)
    fun u _ => hi.tame u
  past hp := by
    have hnone := hi.past (h.state_pending hp)
    refine forall_update (P := (Pc.past · = false)) (Bool.eq_false_iff.mpr fun hpc => ?_)
      fun u _ => hnone u
    rcases h.past hpc with ht | hs
    · cases (hnone t).symm.trans ht
    · exact hs hp
  shuts := forall_update (P := fun pc : Pc => pc.shuts = true → m'.more = false)
    (h.shuts (hi.shuts t) hi.alive (hi.tame t) (hi.running hf))
    fun u _ hu => h.more (hi.shuts u hu)
  closed hc := by
    rcases h.closes_of_shuts (hi.tame t) hc with hc | ⟨hs, hm⟩
    · exact h.more (hi.closed hc)
    · exact hm.trans (hi.shuts t hs)
  isOver := hi.over_step h hk.1.1
  gone hg := by
    rcases h.dropped hg with hg | ⟨hp, hhit, -⟩ | ⟨-, hc | hfin⟩
    · exact h.closed (hi.gone hg)
    · cases (hk.2.2.2.2 hp).symm.trans hhit
    · exact h.closed (hw.closing t hc)
    · cases hi.target.symm.trans hfin
  target := by
    refine Bool.eq_false_iff.mpr fun hfin => ?_
    rcases h.finishes hfin with hfin | ha
    · cases hi.target.symm.trans hfin
    · exact hk.2.2.2.1 ha
  hung ho := by
    have hlt : i < m.nodes := by
      rcases h.payload with ⟨-, hout⟩ | ⟨-, -, hout⟩ | ⟨hpc, -, -⟩
      · exact hi.hung (hout ▸ ho)
      · exact hi.hung (hout ▸ ho)
      · exact hk.2.1 hpc
    rcases h.nodes with hn | ⟨-, hn, -⟩
    · exact hn ▸ hlt
    · omega
  had := hi.had_step h
  due := hi.due_step hf hw h hk

end Link

/-- **Every output a repeat publishes is handed to a registration once**, if the registration hangs
on the task before the first is published, no output is taken before its publisher's walk is over,
and no such walk is left to another: all but the last output, and the last one too once its
publisher's walk is over. -/
theorem link_handed_every_output [DecidableEq T] {s : Config T Mem Pc}
    (hs : machine.Reach (fun s => Fresh s ∧ s.mem.more = true ∧ s.mem.finished i = false)
      (Keeps i) s) {k : ℕ} (hpos : 0 < k) (hle : k ≤ s.mem.outputs)
    (hk : k < s.mem.outputs ∨ ∀ t, (s.loc t).forwards = false) : (s.mem.log i).count k = 1 := by
  obtain ⟨hflow, -, hlink⟩ := hs.invariant
    (I := fun s => Flow s.mem s.loc ∧ Walks s.mem s.loc ∧ Link i s.mem s.loc)
    (fun _ h => ⟨h.1.flow, h.1.walks, h.1.link h.2.1 h.2.2⟩)
    fun _ _ _ _ _ ⟨hf, hw, hi⟩ hok hn =>
      ⟨hf.step (next_step hn), hw.step (next_step hn), hi.step hf hw (next_step hn) hok⟩
  have hnodup : (s.mem.log i).Nodup := (hflow.sound i).sorted.imp fun hlt => Nat.ne_of_gt hlt
  refine List.count_eq_one_of_mem hnodup ?_
  rcases Nat.lt_or_eq_of_le hle with hlt | rfl
  · exact hlink.had k hpos hlt
  · rcases hlink.due with ho | hmem | ⟨-, t, ht⟩
    · omega
    · exact hmem
    · have hnone := hk.resolve_left (lt_irrefl _) t
      cases hnone.symm.trans ht.forwards

end Run

/-- A link is hung, the task runs and publishes, a listener takes the output, and the task runs
again: the link has both outputs. -/
theorem link_handed_every_output_taken : ∃ s : Config (Fin 3) _ _,
    machine.Reach (fun s => Fresh s ∧ s.mem.more = true ∧ s.mem.finished 0 = false) (Keeps 0) s ∧
    s.mem.outputs = 2 ∧ (s.mem.log 0).count 1 = 1 ∧ (s.mem.log 0).count 2 = 1 := by
  obtain ⟨s, hs, ho, hnone⟩ : ∃ s : Config (Fin 3) _ _, machine.Reach
      (fun s => Fresh s ∧ s.mem.more = true ∧ s.mem.finished 0 = false) (Keeps 0) s ∧
      s.mem.outputs = 2 ∧ ∀ t, (s.loc t).forwards = false :=
    (Machine.Reach.init ⟨newTask_fresh 3 true, rfl, rfl⟩).exists_of_run (steps 1 .register 18 ++
      steps 0 .begin 23 ++ steps 2 .take 0 ++ steps 0 .begin 27) (by decide +kernel)
  exact ⟨s, hs, ho, link_handed_every_output hs (by omega) (by omega) (.inr hnone),
    link_handed_every_output hs (by omega) (by omega) (.inr hnone)⟩

/-- **Three ways an output is passed over**: the task has published twice by the time the link is
hung; a listener takes the only output before its publisher walks; a walk for a second registration
has seen nothing to read and holds the lock as the first output is published, and the next run
begins before that walk looks again. -/
theorem output_passed_over :
    (∃ s : Config (Fin 3) _ _, machine.Reach
      (fun s => Fresh s ∧ s.mem.more = true ∧ s.mem.finished 0 = false) Repeats s ∧
      s.mem.nodes = 1 ∧ s.mem.outputs = 2 ∧ s.mem.log 0 = [2] ∧ ∀ t, s.loc t = .idle) ∧
    (∃ s : Config (Fin 3) _ _, machine.Reach
      (fun s => Fresh s ∧ s.mem.more = true ∧ s.mem.finished 0 = false) Repeats s ∧
      s.mem.nodes = 1 ∧ s.mem.outputs = 1 ∧ s.mem.log 0 = [] ∧ ∀ t, s.loc t = .idle) ∧
    (∃ s : Config (Fin 3) _ _, machine.Reach
      (fun s => Fresh s ∧ s.mem.more = true ∧ s.mem.finished 0 = false) Repeats s ∧
      s.mem.nodes = 2 ∧ s.mem.outputs = 2 ∧ s.mem.log 0 = [2] ∧ ∀ t, s.loc t = .idle) := by
  have hnew : Fresh (newTask 3 true) ∧ (newTask 3 true).mem.more = true ∧
      (newTask 3 true).mem.finished 0 = false := ⟨newTask_fresh 3 true, rfl, rfl⟩
  refine ⟨(Machine.Reach.init hnew).exists_of_run (steps 0 .begin 5 ++ steps 0 .begin 8 ++
      steps 1 .register 20) ?_,
    (Machine.Reach.init hnew).exists_of_run (steps 1 .register 18 ++ steps 0 .begin 4 ++
      steps 2 .take 0 ++ List.replicate 18 (0, .go)) ?_,
    (Machine.Reach.init hnew).exists_of_run (steps 1 .register 18 ++ steps 2 .register 11 ++
      steps 0 .begin 10 ++ steps 0 .begin 13 ++ List.replicate 22 (2, .go)) ?_⟩
  all_goals decide +kernel

end Atap.Receivers
