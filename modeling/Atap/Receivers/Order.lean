import Atap.Receivers.Machine

/-!
# Outputs reach a registration in order

A run counts its output before it is readable, and a registration is handed an output only if the
count has moved on since the last one it was handed. Both look at the count at times when it cannot
move: the run with nobody reading, the walk under a read, which no run gets past. So the count a
walk sees belongs to the output it reads, and no registration is handed an output twice, or an
older one after a newer one (`Sound`), whatever the task does and however many walks, runs and
registrations there are.

* `Flow`: who runs, who reads, and what they may rely on.
* `Sound`: what a registration was handed, against the count.
* `Flow.step`, `flow_of_reach`: kept by every step, so held in every interleaving.
-/

namespace Atap.Receivers

open Function

variable {T : Type*}

namespace Walk

/-- The walk is counted as a reader. -/
def entered : Walk → Bool
  | check _ _ | back _ _ | count _ _ | visit _ (some _) _ _ | keep _ (some _) _ _ _ | leave _ =>
    true
  | _ => false

/-- The walk has found the output readable, and holds a read of it. -/
def reading : Walk → Bool
  | count _ _ | visit _ (some _) _ _ | keep _ (some _) _ _ _ | leave _ => true
  | _ => false

/-- The count the pass goes by. -/
def seen : Walk → Option ℕ
  | visit _ rd _ _ | keep _ rd _ _ _ => rd
  | _ => none

theorem entered_of_reading {w : Walk} (h : w.reading = true) : w.entered = true := by
  rcases w with _ | _ | _ | _ | _ | _ | _ | _ | _ | _ | _ | ⟨_, _ | _, _, _⟩ |
    ⟨_, _ | _, _, _, _⟩ | _ | _ | _ | _ <;> first | rfl | cases h

@[simp] theorem entered_passOver (kept : List ℕ) : (passOver kept).entered = false := by
  unfold passOver; split <;> rfl

@[simp] theorem reading_passOver (kept : List ℕ) : (passOver kept).reading = false := by
  unfold passOver; split <;> rfl

@[simp] theorem seen_passOver (kept : List ℕ) : (passOver kept).seen = none := by
  unfold passOver; split <;> rfl

end Walk

namespace Pc

/-- The thread is counted as a reader. -/
def entered : Pc → Bool
  | walk _ w => w.entered
  | _ => false

/-- The thread holds a read of the output. -/
def reading : Pc → Bool
  | walk _ w => w.reading
  | _ => false

/-- The count the thread's pass goes by. -/
def seen : Pc → Option ℕ
  | walk _ w => w.seen
  | _ => none

/-- The thread has a registration, or a walk, in its hands. -/
def hangs : Pc → Bool
  | push | regState | regKind | regClose | walk _ _ | close _ => true
  | _ => false

/-- The thread is in a run that nobody reads behind. -/
def owns : Pc → Bool
  | run | note | count | publish => true
  | _ => false

/-- The thread is in a run that has not ended. -/
def runs : Pc → Bool
  | recycle | run | note | count | publish | closeLook true | close true | walk .panicked _
  | fail => true
  | _ => false

theorem not_reading_of_owns {pc : Pc} (h : pc.owns = true) : pc.reading = false := by
  cases pc <;> first | rfl | cases h

theorem hangs_of_seen {pc : Pc} {g : ℕ} (h : pc.seen = some g) : pc.hangs = true := by
  cases pc <;> first | rfl | cases h

theorem runs_of_owns {pc : Pc} (h : pc.owns = true) : pc.runs = true := by
  cases pc <;> first | rfl | cases h

theorem entered_of_reading {pc : Pc} (h : pc.reading = true) : pc.entered = true := by
  cases pc <;> first | exact Walk.entered_of_reading h | cases h

end Pc

section Step

variable {m m' : Mem} {pc pc' : Pc} {w : Walk} {o : Option Walk} {a : Act}

theorem WalkStep.readers (h : WalkStep m w a m' o) (hpos : w.entered = true → 0 < m.readers) :
    m'.readers + w.entered.toNat = m.readers + (o.elim false Walk.entered).toNat := by
  cases h
  case back => exact Nat.sub_add_cancel (hpos rfl)
  case leave =>
    rw [Option.elim_some, Walk.entered_passOver]
    exact Nat.sub_add_cancel (hpos rfl)
  case blindOver => rw [Option.elim_some, Walk.entered_passOver]; rfl
  case letGo rd _ _ _ _ | keep rd _ _ _ _ => cases rd <;> rfl
  all_goals rfl

/-- The readers are the threads between `enter_read` and `leave_read`. -/
theorem Step.readers (h : Step m pc a m' pc') (hpos : pc.entered = true → 0 < m.readers) :
    m'.readers + pc.entered.toNat = m.readers + pc'.entered.toNat := by
  cases h
  case walk h => exact h.readers hpos
  case walked r _ h =>
    have := h.readers hpos
    cases r <;> exact this
  all_goals rfl

theorem WalkStep.reading (h : WalkStep m w a m' o) (hr : o.elim false Walk.reading = true) :
    w.reading = true ∨ m.state = .ready := by
  cases h
  case check h => exact .inr h
  case leave | blindOver => simp at hr
  case letGo rd _ _ _ _ | keep rd _ _ _ _ => cases rd <;> first | exact .inl rfl | cases hr
  all_goals first | exact .inl rfl | cases hr

/-- A read is won only while the output is readable. -/
theorem Step.reading (h : Step m pc a m' pc') (hr : pc'.reading = true) :
    pc.reading = true ∨ m.state = .ready := by
  cases h
  case walk h => exact h.reading hr
  case walked r _ _ => cases r <;> cases hr
  all_goals cases hr

theorem WalkStep.frame (h : WalkStep m w a m' o) : m'.state = m.state ∧ m'.more = m.more ∧
    m'.extras = m.extras ∧ m'.generation = m.generation ∧ m'.payload = m.payload ∧
    m'.outputs = m.outputs ∧ m'.nodes = m.nodes ∧ m'.finished = m.finished := by
  cases h <;> exact ⟨rfl, rfl, rfl, rfl, rfl, rfl, rfl, rfl⟩

/-- The state leaves a run's hands as its output is published. -/
theorem Step.heldByRun (h : Step m pc a m' pc') (hs : m.state.heldByRun = true) :
    m'.state.heldByRun = true ∨ pc = .publish ∧ pc'.runs = false := by
  cases h
  case walk h | walked h => exact .inl (by rw [h.frame.1]; exact hs)
  case begin | beginReady | beginTaken => exact .inl rfl
  case publish => exact .inr ⟨rfl, rfl⟩
  case fail =>
    dsimp only
    split
    · exact .inl rfl
    · exact .inl hs
  case take h => rw [h] at hs; cases hs
  case stop e _ => exact .inl e.heldByRun_state
  all_goals exact .inl hs

/-- A run begins while no run has the state. -/
theorem Step.runs (h : Step m pc a m' pc') (hr : pc'.runs = true) :
    pc.runs = true ∨ m.state.heldByRun = false ∧ m'.state = .running := by
  cases h
  case walk r _ _ _ | walked r _ _ => cases r <;> first | exact .inl rfl | cases hr
  case begin h | beginReady h | beginTaken h => exact .inr ⟨by rw [h]; rfl, rfl⟩
  case closeLook p _ => cases p <;> first | exact .inl rfl | cases hr
  all_goals first | exact .inl rfl | cases hr

/-- A run comes to own the output once it has waited the readers out. -/
theorem Step.owns (h : Step m pc a m' pc') (ho : pc'.owns = true) :
    pc.owns = true ∨ m.readers = 0 ∨ m.state = .pending := by
  cases h
  case walked r _ _ => cases r <;> cases ho
  case begin h => exact .inr (.inr h)
  case recycle h => exact .inr (.inl h)
  all_goals first | exact .inl rfl | cases ho

theorem Step.state_ready (h : Step m pc a m' pc') (hs : m'.state = .ready) :
    m.state = .ready ∨ pc = .publish ∧ m'.payload = m.payload ∧ m'.outputs = m.outputs + 1 := by
  cases h
  case walk h | walked h => exact .inl (h.frame.1.symm.trans hs)
  case publish => exact .inr ⟨rfl, rfl, rfl⟩
  case fail =>
    dsimp only at hs
    split at hs
    · cases hs
    · exact .inl hs
  case stop e _ => cases e <;> cases hs
  all_goals first | exact .inl hs | cases hs

theorem Step.state_pending (h : Step m pc a m' pc') (hs : m'.state = .pending) :
    m.state = .pending := by
  cases h
  case walk h | walked h => exact h.frame.1.symm.trans hs
  case fail =>
    dsimp only at hs
    split at hs
    · cases hs
    · exact hs
  case stop e _ => cases e <;> cases hs
  all_goals first | exact hs | cases hs

/-- The output is written by the run that owns it, and numbered as it is published. -/
theorem Step.payload (h : Step m pc a m' pc') :
    m'.payload = m.payload ∧ m'.outputs = m.outputs ∨
      pc = .run ∧ m'.payload = m.outputs + 1 ∧ m'.outputs = m.outputs ∨
      pc = .publish ∧ m'.payload = m.payload ∧ m'.outputs = m.outputs + 1 := by
  cases h
  case walk h | walked h => exact .inl ⟨h.frame.2.2.2.2.1, h.frame.2.2.2.2.2.1⟩
  case run => exact .inr (.inl ⟨rfl, rfl, rfl⟩)
  case publish => exact .inr (.inr ⟨rfl, rfl, rfl⟩)
  all_goals exact .inl ⟨rfl, rfl⟩

/-- A run that has left its output, before it is published. -/
theorem Step.written (h : Step m pc a m' pc')
    (hw : pc = .note ∨ pc = .count ∨ pc = .publish → m.payload = m.outputs + 1)
    (hpc : pc' = .note ∨ pc' = .count ∨ pc' = .publish) : m'.payload = m'.outputs + 1 := by
  cases h
  case walked r _ _ => cases r <;> simp [Caller.after] at hpc
  case run => rfl
  case note | noteNone => exact hw (.inl rfl)
  case count => exact hw (.inr (.inl rfl))
  all_goals simp at hpc

/-- Whoever has a registration in its hands has found extras attached. -/
theorem Step.hangs (h : Step m pc a m' pc') (hx : pc.hangs = true → m.extras = true)
    (hpc : pc'.hangs = true) : m'.extras = true := by
  cases h
  case walk h => exact h.frame.2.2.1.trans (hx rfl)
  case walked r _ _ => cases r <;> cases hpc
  case register => rfl
  case forward h | closeLook h => exact h
  all_goals first | exact hx rfl | cases hpc

theorem Step.generation (h : Step m pc a m' pc') :
    m'.generation = m.generation ∨ pc = .count ∧ m'.generation = m.generation + 1 := by
  cases h
  case walk h | walked h => exact .inl h.frame.2.2.2.1
  case count => exact .inr ⟨rfl, rfl⟩
  all_goals exact .inl rfl

theorem Step.extras (h : Step m pc a m' pc') (hx : m.extras = true) : m'.extras = true := by
  cases h
  case walk h | walked h => exact h.frame.2.2.1.trans hx
  case register => rfl
  all_goals exact hx

theorem Step.nodes (h : Step m pc a m' pc') :
    m'.nodes = m.nodes ∨ pc = .push ∧ m'.nodes = m.nodes + 1 ∧ m'.head = m.nodes :: m.head := by
  cases h
  case walk h | walked h => exact .inl h.frame.2.2.2.2.2.2.1
  case push => exact .inr ⟨rfl, rfl, rfl⟩
  all_goals exact .inl rfl

theorem WalkStep.seen {g : ℕ} (h : WalkStep m w a m' o) (hs : o.bind Walk.seen = some g) :
    w.seen = some g ∨ g = m.generation := by
  cases h
  case count => exact .inr (Option.some.inj hs).symm
  case blindOver | leave => simp at hs
  all_goals first | exact .inl hs | cases hs

/-- A pass goes by the count it finds under its read. -/
theorem Step.seen {g : ℕ} (h : Step m pc a m' pc') (hs : pc'.seen = some g) :
    pc.seen = some g ∨ g = m.generation := by
  cases h
  case walk h => exact h.seen hs
  case walked r _ _ => cases r <;> cases hs
  all_goals cases hs

/-- **A registration is handed an output by a walk that reads it**, going by the count it has
found. -/
theorem Step.log (h : Step m pc a m' pc') :
    m'.log = m.log ∧ m'.handed = m.handed ∨
      ∃ g i, pc.seen = some g ∧ m.unseen g i = true ∧
        m'.log = (m.deliver g i).log ∧ m'.handed = (m.deliver g i).handed := by
  cases h
  case walk r _ _ h =>
    cases h
    case visit c g i l kept h => exact .inr ⟨g, i, rfl, h, rfl, rfl⟩
    case visitPanic c g i l kept h => exact .inr ⟨g, i, rfl, h, rfl, rfl⟩
    all_goals exact .inl ⟨rfl, rfl⟩
  case walked h => cases h <;> exact .inl ⟨rfl, rfl⟩
  all_goals exact .inl ⟨rfl, rfl⟩

/-- The count and the outputs stand still under a read. -/
theorem Step.still_of_seen {g : ℕ} (h : Step m pc a m' pc') (hg : pc.seen = some g) :
    m'.generation = m.generation ∧ m'.outputs = m.outputs := by
  constructor
  · rcases h.generation with hgen | ⟨rfl, -⟩
    · exact hgen
    · cases hg
  · rcases h.payload with ⟨-, ho⟩ | ⟨-, -, ho⟩ | ⟨rfl, -, -⟩
    · exact ho
    · exact ho
    · cases hg

/-- A run that comes to publish has counted its output, or found nobody to count it for. -/
theorem Step.publishes (h : Step m pc a m' pc') (hpc : pc' = .publish) :
    (pc = .count ∧ m'.generation = m.generation + 1 ∨ pc = .note ∧ m.extras = false) ∧
      m'.handed = m.handed := by
  cases h
  case walked r _ _ => cases r <;> cases hpc
  case count => exact ⟨.inl ⟨rfl, rfl⟩, rfl⟩
  case noteNone h => exact ⟨.inr ⟨rfl, h⟩, rfl⟩
  all_goals cases hpc

end Step

/-- What a registration was handed, against the count: in the order of publishing, none twice, and
the last of it told from the output of the moment by the count. -/
structure Sound (m : Mem) (calm : Prop) (i : ℕ) : Prop where
  sorted : (m.log i).Pairwise (· > ·)
  pos : ∀ k ∈ m.log i, 0 < k
  none : m.handed i = none → m.log i = []
  le : ∀ h, m.handed i = some h → h ≤ m.generation
  last : ∀ h, m.handed i = some h → ∃ k l, m.log i = k :: l ∧ k ≤ m.outputs ∧
    (h = m.generation → k = m.outputs) ∧ (h < m.generation → k = m.outputs → calm)

/-- Nobody can be handed the output of the moment. -/
def Calm (m : Mem) (loc : T → Pc) : Prop := m.state ≠ .ready ∧ ∀ t, (loc t).reading = false

/-- Who runs, who reads, and what they may rely on. -/
structure Flow [Fintype T] (m : Mem) (loc : T → Pc) : Prop where
  readers : m.readers = count Pc.entered loc
  one : ∀ t u, (loc t).runs = true → (loc u).runs = true → t = u
  held : ∀ t, (loc t).runs = true → m.state.heldByRun = true
  /-- Nobody reads behind a run that owns the output, -/
  owned : ∀ t, (loc t).owns = true → ∀ u, (loc u).reading = false
  /-- or before the first output. -/
  pending : m.state = .pending → ∀ u, (loc u).reading = false
  /-- What is readable is the last output published. -/
  payload : m.state = .ready ∨ (∃ u, (loc u).reading = true) →
    m.payload = m.outputs ∧ 0 < m.outputs
  written : ∀ t, loc t = .note ∨ loc t = .count ∨ loc t = .publish → m.payload = m.outputs + 1
  /-- The count a pass goes by is that of the output it reads. -/
  seen : ∀ t g, (loc t).seen = some g → g = m.generation ∧ (loc t).reading = true
  hangs : ∀ t, (loc t).hangs = true → m.extras = true
  hung : m.nodes ≠ 0 → m.extras = true
  attached : ∀ i, m.handed i ≠ none → m.extras = true
  /-- A run that is about to publish has counted past everything handed over. -/
  counted : ∀ t, loc t = .publish → ∀ i h, m.handed i = some h → h < m.generation
  sound : ∀ i, Sound m (Calm m loc) i

theorem Walk.reading_of_seen {w : Walk} {g : ℕ} (h : w.seen = some g) : w.reading = true := by
  cases w
  case visit rd _ _ | keep rd _ _ _ => cases h; rfl
  all_goals cases h

theorem Pc.reading_of_seen {pc : Pc} {g : ℕ} (h : pc.seen = some g) : pc.reading = true := by
  cases pc <;> first | exact Walk.reading_of_seen h | cases h

section Sound

variable {m m' : Mem} {calm calm' : Prop} {i : ℕ}

/-- What a registration was handed stays sound while nothing it depends on moves. -/
theorem Sound.mono (hi : Sound m calm i) (hl : m'.log i = m.log i)
    (hh : m'.handed i = m.handed i) (hg : m'.generation = m.generation)
    (ho : m'.outputs = m.outputs) (hc : calm → calm') : Sound m' calm' i where
  sorted := by rw [hl]; exact hi.sorted
  pos := by rw [hl]; exact hi.pos
  none := by rw [hl, hh]; exact hi.none
  le := by rw [hh, hg]; exact hi.le
  last h hs := by
    rw [hh] at hs
    obtain ⟨k, l, hk, hle, heq, hlt⟩ := hi.last h hs
    rw [hl, hg, ho]
    exact ⟨k, l, hk, hle, heq, fun h1 h2 => hc (hlt h1 h2)⟩

/-- What a registration was handed was published. -/
theorem Sound.le_outputs (hi : Sound m calm i) {k : ℕ} (hk : k ∈ m.log i) : k ≤ m.outputs := by
  cases hh : m.handed i with
  | none => rw [hi.none hh] at hk; cases hk
  | some h =>
    obtain ⟨k₀, l, hlog, hle, -, -⟩ := hi.last h hh
    have hsorted := hi.sorted
    rw [hlog] at hk hsorted
    rcases List.mem_cons.mp hk with rfl | hk
    · exact hle
    · exact le_trans (Nat.le_of_lt ((List.pairwise_cons.mp hsorted).1 k hk)) hle

/-- A run counts an output that nobody can read yet. -/
theorem Sound.count (hi : Sound m calm i) (hl : m'.log i = m.log i)
    (hh : m'.handed i = m.handed i) (hg : m'.generation = m.generation + 1)
    (ho : m'.outputs = m.outputs) (hc : calm') : Sound m' calm' i where
  sorted := by rw [hl]; exact hi.sorted
  pos := by rw [hl]; exact hi.pos
  none := by rw [hl, hh]; exact hi.none
  le h hs := by
    rw [hh] at hs
    have := hi.le h hs
    omega
  last h hs := by
    rw [hh] at hs
    obtain ⟨k, l, hk, hle, -, -⟩ := hi.last h hs
    have hle' := hi.le h hs
    rw [hl, hg, ho]
    exact ⟨k, l, hk, hle, fun h1 => by omega, fun _ _ => hc⟩

/-- An output is published whose count is past everything handed over. -/
theorem Sound.publish (hi : Sound m calm i) (hl : m'.log i = m.log i)
    (hh : m'.handed i = m.handed i) (hg : m'.generation = m.generation)
    (ho : m'.outputs = m.outputs + 1) (hlt : ∀ h, m.handed i = some h → h < m.generation) :
    Sound m' calm' i where
  sorted := by rw [hl]; exact hi.sorted
  pos := by rw [hl]; exact hi.pos
  none := by rw [hl, hh]; exact hi.none
  le := by rw [hh, hg]; exact hi.le
  last h hs := by
    rw [hh] at hs
    obtain ⟨k, l, hk, hle, -, -⟩ := hi.last h hs
    have hlt' := hlt h hs
    rw [hl, hg, ho]
    exact ⟨k, l, hk, by omega, fun h1 => by omega, fun _ h2 => by omega⟩

/-- **A registration is handed an output newer than any it was handed.** -/
theorem Sound.deliver (hi : Sound m calm i) (hcalm : ¬calm)
    (hu : m.unseen m.generation i = true) (hp : m.payload = m.outputs) (hpos : 0 < m.outputs)
    (hl : m'.log i = m.payload :: m.log i) (hh : m'.handed i = some m.generation)
    (hg : m'.generation = m.generation) (ho : m'.outputs = m.outputs) : Sound m' calm' i where
  sorted := by
    rw [hl]
    refine List.pairwise_cons.mpr ⟨fun k hk => ?_, hi.sorted⟩
    cases hs : m.handed i with
    | none =>
      rw [hi.none hs] at hk
      cases hk
    | some h =>
      have hlt : h < m.generation := by simpa [Mem.unseen, hs] using hu
      obtain ⟨k₀, l, hlog, hle, -, hc⟩ := hi.last h hs
      have hk₀ : k₀ < m.outputs := lt_of_le_of_ne hle fun heq => hcalm (hc hlt heq)
      rw [hp]
      have hsorted := hi.sorted
      rw [hlog] at hk hsorted
      rcases List.mem_cons.mp hk with rfl | hk
      · exact hk₀
      · exact lt_trans ((List.pairwise_cons.mp hsorted).1 k hk) hk₀
  pos := by
    rw [hl]
    intro k hk
    rcases List.mem_cons.mp hk with rfl | hk
    · rw [hp]; exact hpos
    · exact hi.pos k hk
  none := by rw [hh]; exact nofun
  le h hs := by
    rw [hh] at hs
    rw [hg, Option.some.inj hs]
  last h hs := by
    rw [hh] at hs
    obtain rfl := Option.some.inj hs
    refine ⟨m.payload, m.log i, hl, ?_, fun _ => ?_, fun hlt => ?_⟩
    · rw [ho, hp]
    · rw [ho, hp]
    · rw [hg] at hlt
      exact absurd hlt (lt_irrefl _)

end Sound

section Run

variable {m m' : Mem} {pc' : Pc} {a : Act} {loc : T → Pc} {t : T}

section

variable [DecidableEq T]

/-- A read that is held after a step was held before it, or the output was readable. -/
theorem reading_before (h : Step m (loc t) a m' pc') {u : T}
    (hu : (update loc t pc' u).reading = true) :
    m.state = .ready ∨ ∃ u, (loc u).reading = true := by
  rcases eq_or_ne u t with rfl | hne
  · rw [update_self] at hu
    rcases h.reading hu with hr | hs
    · exact .inr ⟨u, hr⟩
    · exact .inl hs
  · rw [update_of_ne hne] at hu
    exact .inr ⟨u, hu⟩

/-- Calm ends as an output is published. -/
theorem calm_step (h : Step m (loc t) a m' pc') (hc : Calm m loc)
    (ho : m'.outputs = m.outputs) : Calm m' (update loc t pc') := by
  refine ⟨fun hs => ?_, fun u => Bool.eq_false_iff.mpr fun hu => ?_⟩
  · rcases h.state_ready hs with hs | ⟨-, -, hout⟩
    · exact hc.1 hs
    · omega
  · rcases reading_before h hu with hs | ⟨v, hv⟩
    · exact hc.1 hs
    · cases hv.symm.trans (hc.2 v)

end

variable [Fintype T]

namespace Flow

theorem not_ready_of_runs (hi : Flow m loc) (ht : (loc t).runs = true) : m.state ≠ .ready := by
  intro hs
  have := hi.held t ht
  rw [hs] at this
  cases this

/-- Nobody can be handed an output while a run owns it. -/
theorem calm_of_owns (hi : Flow m loc) (ht : (loc t).owns = true) : Calm m loc :=
  ⟨hi.not_ready_of_runs (Pc.runs_of_owns ht), hi.owned t ht⟩

/-- A step of another thread leaves what a run has left and counted alone. -/
theorem apart (hi : Flow m loc) (h : Step m (loc t) a m' pc') {u : T} (hu : u ≠ t)
    (ho : (loc u).owns = true) : m'.payload = m.payload ∧ m'.outputs = m.outputs ∧
      m'.generation = m.generation ∧ m'.handed = m.handed := by
  have hruns : (loc t).runs = false := Bool.eq_false_iff.mpr fun hr =>
    hu (hi.one u t (Pc.runs_of_owns ho) hr)
  have hpay : m'.payload = m.payload ∧ m'.outputs = m.outputs := by
    rcases h.payload with hp | ⟨hpc, -⟩ | ⟨hpc, -⟩
    · exact hp
    · rw [hpc] at hruns; cases hruns
    · rw [hpc] at hruns; cases hruns
  refine ⟨hpay.1, hpay.2, ?_, ?_⟩
  · rcases h.generation with hg | ⟨hpc, -⟩
    · exact hg
    · rw [hpc] at hruns; cases hruns
  · rcases h.log with ⟨-, hh⟩ | ⟨g, i, hg, -⟩
    · exact hh
    · cases (hi.owned u ho t).symm.trans (Pc.reading_of_seen hg)

variable [DecidableEq T]

/-- What every registration was handed stays sound. -/
theorem sound_step (hi : Flow m loc) (h : Step m (loc t) a m' pc') (i : ℕ) :
    Sound m' (Calm m' (update loc t pc')) i := by
  rcases h.log with ⟨hl, hh⟩ | ⟨g, j, hg, hu, hl, hh⟩
  · rcases h.generation with hgen | ⟨hpc, hgen⟩
    · rcases h.payload with ⟨-, ho⟩ | ⟨-, -, ho⟩ | ⟨hpc, -, ho⟩
      · exact (hi.sound i).mono (by rw [hl]) (by rw [hh]) hgen ho fun hc => calm_step h hc ho
      · exact (hi.sound i).mono (by rw [hl]) (by rw [hh]) hgen ho fun hc => calm_step h hc ho
      · exact (hi.sound i).publish (by rw [hl]) (by rw [hh]) hgen ho fun x => hi.counted t hpc i x
    · have hout : m'.outputs = m.outputs := by
        rcases h.payload with ⟨-, ho⟩ | ⟨-, -, ho⟩ | ⟨hpc', -, -⟩
        · exact ho
        · exact ho
        · cases hpc.symm.trans hpc'
      have hcalm : Calm m loc := hi.calm_of_owns (t := t) (by rw [hpc]; rfl)
      exact (hi.sound i).count (by rw [hl]) (by rw [hh]) hgen hout (calm_step h hcalm hout)
  · obtain ⟨rfl, hr⟩ := hi.seen t g hg
    obtain ⟨hgen, hout⟩ := h.still_of_seen hg
    have hcalm : ¬Calm m loc := fun hc => by cases hr.symm.trans (hc.2 t)
    obtain ⟨hp, hpos⟩ := hi.payload (.inr ⟨t, hr⟩)
    rcases eq_or_ne i j with rfl | hne
    · refine (hi.sound i).deliver hcalm hu hp hpos ?_ ?_ hgen hout
      · rw [hl]; exact update_self ..
      · rw [hh]; exact update_self ..
    · refine (hi.sound i).mono ?_ ?_ hgen hout fun hc => absurd hc hcalm
      · rw [hl]; exact update_of_ne hne ..
      · rw [hh]; exact update_of_ne hne ..

/-- What is readable stays the last output published. -/
theorem payload_step (hi : Flow m loc) (h : Step m (loc t) a m' pc')
    (hr : m'.state = .ready ∨ ∃ u, (update loc t pc' u).reading = true) :
    m'.payload = m'.outputs ∧ 0 < m'.outputs := by
  have hcases : (m.state = .ready ∨ ∃ u, (loc u).reading = true) ∨
      loc t = .publish ∧ m'.payload = m.payload ∧ m'.outputs = m.outputs + 1 := by
    rcases hr with hs | ⟨u, hu⟩
    · exact (h.state_ready hs).imp_left .inl
    · exact .inl (reading_before h hu)
  rcases hcases with hbefore | ⟨hpc, hp, ho⟩
  · have hnone : (loc t).owns = false := Bool.eq_false_iff.mpr fun hown => by
      obtain ⟨hs, hn⟩ := hi.calm_of_owns hown
      rcases hbefore with hs' | ⟨u, hu⟩
      · exact hs hs'
      · cases hu.symm.trans (hn u)
    obtain ⟨hp, hpos⟩ := hi.payload hbefore
    rcases h.payload with ⟨hp', ho⟩ | ⟨hpc, -, -⟩ | ⟨hpc, -, -⟩
    · rw [hp', ho]
      exact ⟨hp, hpos⟩
    · rw [hpc] at hnone; cases hnone
    · rw [hpc] at hnone; cases hnone
  · have hw := hi.written t (.inr (.inr hpc))
    omega

/-- **A step keeps runs, reads and hand-overs in order.** -/
theorem step (hi : Flow m loc) (h : Step m (loc t) a m' pc') :
    Flow m' (update loc t pc') where
  readers := eq_count_update hi.readers
    (h.readers fun hr => by rw [hi.readers]; exact count_pos hr)
  one := unique_update hi.one fun hpc u hu => by
    refine Bool.eq_false_iff.mpr fun hr => ?_
    rcases h.runs hpc with ht | ⟨hs, -⟩
    · exact hu (hi.one u t hr ht)
    · cases hs.symm.trans (hi.held u hr)
  held := by
    refine forall_update (P := fun pc : Pc => pc.runs = true → m'.state.heldByRun = true)
      (fun hpc => ?_) fun u hu hr => ?_
    · rcases h.runs hpc with ht | ⟨-, hs⟩
      · rcases h.heldByRun (hi.held t ht) with hs | ⟨-, hno⟩
        · exact hs
        · cases hno.symm.trans hpc
      · rw [hs]; rfl
    · rcases h.heldByRun (hi.held u hr) with hs | ⟨hpc, -⟩
      · exact hs
      · exact absurd (hi.one u t hr (by rw [hpc]; rfl)) hu
  owned := by
    intro v hv u
    refine Bool.eq_false_iff.mpr fun hr => ?_
    rcases eq_or_ne v t with rfl | hvt
    · rw [update_self] at hv
      have hne : u ≠ v := by
        rintro rfl
        rw [update_self, Pc.not_reading_of_owns hv] at hr
        cases hr
      rw [update_of_ne hne] at hr
      rcases h.owns hv with ho | h0 | hp
      · cases (hi.owned v ho u).symm.trans hr
      · have hpos := count_pos (Pc.entered_of_reading hr)
        rw [← hi.readers, h0] at hpos
        cases hpos
      · cases (hi.pending hp u).symm.trans hr
    · rw [update_of_ne hvt] at hv
      obtain ⟨hs, hn⟩ := hi.calm_of_owns hv
      rcases reading_before h hr with hs' | ⟨w, hw⟩
      · exact hs hs'
      · cases hw.symm.trans (hn w)
  pending := by
    intro hp u
    have hpm := h.state_pending hp
    refine Bool.eq_false_iff.mpr fun hr => ?_
    rcases reading_before h hr with hs | ⟨w, hw⟩
    · cases hs.symm.trans hpm
    · cases hw.symm.trans (hi.pending hpm w)
  payload := hi.payload_step h
  written := by
    refine forall_update (P := fun pc : Pc => pc = .note ∨ pc = .count ∨ pc = .publish →
      m'.payload = m'.outputs + 1) (h.written (hi.written t)) fun u hu hw => ?_
    have ho : (loc u).owns = true := by rcases hw with hw | hw | hw <;> rw [hw] <;> rfl
    obtain ⟨hp, hout, -, -⟩ := hi.apart h hu ho
    rw [hp, hout]
    exact hi.written u hw
  seen := by
    refine forall_update (P := fun pc : Pc => ∀ g, pc.seen = some g →
      g = m'.generation ∧ pc.reading = true) (fun g hg => ?_) fun u _ g hg => ?_
    · have hr := Pc.reading_of_seen hg
      have hgen : g = m.generation := (h.seen hg).elim (fun h => (hi.seen t g h).1) id
      refine ⟨?_, hr⟩
      rcases h.generation with heq | ⟨hpc, -⟩
      · rw [heq]; exact hgen
      · obtain ⟨hs, hn⟩ := hi.calm_of_owns (t := t) (by rw [hpc]; rfl)
        rcases h.reading hr with hr' | hs'
        · cases hr'.symm.trans (hn t)
        · exact absurd hs' hs
    · obtain ⟨hgen, hr⟩ := hi.seen u g hg
      refine ⟨?_, hr⟩
      rcases h.generation with heq | ⟨hpc, -⟩
      · rw [heq]; exact hgen
      · cases (hi.owned t (by rw [hpc]; rfl) u).symm.trans hr
  hangs := forall_update (P := fun pc : Pc => pc.hangs = true → m'.extras = true)
    (h.hangs (hi.hangs t)) fun u _ hu => h.extras (hi.hangs u hu)
  hung hn := by
    rcases h.nodes with heq | ⟨hpc, -, -⟩
    · exact h.extras (hi.hung (heq ▸ hn))
    · exact h.extras (hi.hangs t (by rw [hpc]; rfl))
  attached := by
    intro i hne
    rcases h.log with ⟨-, hh⟩ | ⟨g, j, hg, -, -, -⟩
    · rw [hh] at hne
      exact h.extras (hi.attached i hne)
    · exact h.extras (hi.hangs t (Pc.hangs_of_seen hg))
  counted := by
    refine forall_update (P := fun pc : Pc => pc = .publish →
      ∀ i x, m'.handed i = some x → x < m'.generation) (fun hpc i x hx => ?_)
        fun u hu hpc i x hx => ?_
    · obtain ⟨hcase, hh⟩ := h.publishes hpc
      rw [hh] at hx
      rcases hcase with ⟨-, hg⟩ | ⟨-, hext⟩
      · have := (hi.sound i).le x hx
        omega
      · have := hi.attached i (by rw [hx]; exact nofun)
        cases this.symm.trans hext
    · obtain ⟨-, -, hg, hh⟩ := hi.apart h hu (by rw [hpc]; rfl)
      rw [hg]
      exact hi.counted u hpc i x (by rw [← hh]; exact hx)
  sound := hi.sound_step h

end Flow

theorem Fresh.flow {s : Config T Mem Pc} (h : Fresh s) : Flow s.mem s.loc where
  readers := by
    rw [h.readers, count_eq_zero.mpr fun t => by rw [h.loc]; rfl]
  one t u ht := by rw [h.loc] at ht; cases ht
  held t ht := by rw [h.loc] at ht; cases ht
  owned t ht := by rw [h.loc] at ht; cases ht
  pending _ u := by rw [h.loc]; rfl
  payload := by
    rintro (hs | ⟨u, hu⟩)
    · cases h.state.symm.trans hs
    · rw [h.loc] at hu; cases hu
  written t ht := by rw [h.loc] at ht; simp at ht
  seen t g hg := by rw [h.loc] at hg; cases hg
  hangs t ht := by rw [h.loc] at ht; cases ht
  hung hn := absurd h.nodes hn
  attached i hi := absurd (h.handed i) hi
  counted t ht := by rw [h.loc] at ht; cases ht
  sound i := {
    sorted := by rw [h.log]; exact List.Pairwise.nil
    pos := by rw [h.log]; exact nofun
    none := fun _ => h.log i
    le := fun x hx => by cases (h.handed i).symm.trans hx
    last := fun x hx => by cases (h.handed i).symm.trans hx }

end Run

end Atap.Receivers
