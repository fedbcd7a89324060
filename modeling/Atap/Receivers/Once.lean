import Atap.Receivers.Walks

/-!
# The one output of a task that runs once

A task that is not open (`more = false`) publishes once. What is shown of it here: while its output
is there to be read, a registration is let go only after it has had the output or once its far end
takes nothing more, whether it was made before, during or after the publish; and once every thread
is idle none is left hanging. An output that is taken, or a task that is cancelled or panics, ends
that (`Lost`), as does a far end of its own accord.

* `Done`, `Lost`: nothing more will be published; nothing is there to be read either.
* `Once`: what the threads may rely on. A pass that saw `CLOSED` and found nothing to read knows
  that the output is lost (`Once.blind`), and while the output is readable somebody is on the way
  to close the receivers (`Once.will`).
-/

namespace Atap.Receivers

open Function

variable {T : Type*}

namespace Walk

/-- The pass saw `CLOSED` set, and then nothing to read. -/
def blind : Walk → Bool
  | back c _ => c
  | visit c rd _ _ | keep c rd _ _ _ => c && rd.isNone
  | _ => false

/-- The registration the pass has just seen to. -/
def served : Walk → Option ℕ
  | keep _ rd i _ _ => rd.map fun _ => i
  | _ => none

/-- The pass is about to look at registration `i`. -/
def hits (i : ℕ) : Walk → Bool
  | visit _ _ (j :: _) _ => j == i
  | _ => false

/-- The pass is about to decide whether registration `i` stays. -/
def leaves (i : ℕ) : Walk → Bool
  | keep _ _ j _ _ => j == i
  | _ => false

theorem served_or_blind {w : Walk} {i : ℕ} (h : w.leaves i = true) (hc : w.closing = true) :
    w.served = some i ∨ w.blind = true := by
  cases w
  case keep c rd j l kept =>
    obtain rfl := beq_iff_eq.mp h
    cases rd with
    | none => exact .inr (Bool.and_eq_true_iff.mpr ⟨hc, rfl⟩)
    | some g => exact .inl rfl
  all_goals cases h

@[simp] theorem blind_passOver (kept : List ℕ) : (passOver kept).blind = false := by
  unfold passOver; split <;> rfl

@[simp] theorem served_passOver (kept : List ℕ) : (passOver kept).served = none := by
  unfold passOver; split <;> rfl

end Walk

namespace Pc

/-- The thread's pass saw `CLOSED` set, and then nothing to read. -/
def blind : Pc → Bool
  | walk _ w => w.blind
  | _ => false

/-- The registration the thread's pass has just seen to. -/
def served : Pc → Option ℕ
  | walk _ w => w.served
  | _ => none

/-- The thread's pass is about to look at registration `i`. -/
def hits (i : ℕ) : Pc → Bool
  | walk _ w => w.hits i
  | _ => false

/-- The thread's pass is about to decide whether registration `i` stays. -/
def leaves (i : ℕ) : Pc → Bool
  | walk _ w => w.leaves i
  | _ => false

theorem served_or_blind {pc : Pc} {i : ℕ} (h : pc.leaves i = true) (hc : pc.closing = true) :
    pc.served = some i ∨ pc.blind = true := by
  cases pc <;> first | exact Walk.served_or_blind h hc | cases h

/-- The thread is where only a task that runs again leads. -/
def again : Pc → Bool
  | beginReady | beginTaken | recycle | finish | closeFinished => true
  | _ => false

/-- The thread has seen the run over. -/
def later : Pc → Bool
  | regKind | regClose | forward | walk .forward _ | published | closeLook false | close false =>
    true
  | _ => false

/-- The thread's run has panicked. -/
def panics : Pc → Bool
  | closeLook true | close true | walk .panicked _ | fail => true
  | _ => false

/-- The thread will close the receivers if it finds the output published. -/
def willClose : Pc → Bool
  | regState | regKind | regClose | forward | walk .forward _ | published | closeLook false
  | close false => true
  | _ => false

theorem runs_of_panics {pc : Pc} (h : pc.panics = true) : pc.runs = true := by
  unfold panics at h
  split at h <;> first | rfl | cases h

end Pc

section Step

variable {m m' : Mem} {pc pc' : Pc} {w : Walk} {o : Option Walk} {a : Act}

theorem Step.more (h : Step m pc a m' pc') (hm : m.more = false) : m'.more = false := by
  cases h
  case walk h | walked h => exact h.frame.2.1.trans hm
  all_goals first | exact hm | rfl

theorem Step.runsOnce (h : Step m pc a m' pc') (hm : m.more = false) (hpc : pc.again = false) :
    pc'.again = false := by
  cases h
  case walked r _ _ => cases r <;> rfl
  case beginKind h | last h | endSeries h => cases h.symm.trans hm
  all_goals first | rfl | cases hpc

/-- The first run is the only one. -/
theorem Step.terminal (h : Step m pc a m' pc') (hpc : pc.again = false)
    (hs : m.state.terminal = true) : m'.state.terminal = true := by
  cases h
  case walk h | walked h => rw [h.frame.1]; exact hs
  case begin h => rw [h] at hs; cases hs
  case beginReady | beginTaken => cases hpc
  case fail =>
    dsimp only
    split
    · rfl
    · exact hs
  case stop e _ => cases e <;> rfl
  all_goals first | exact hs | rfl

/-- A thread that takes the run to be over has seen so. -/
theorem Step.later (h : Step m pc a m' pc') (hl : pc.later = true → m.state.terminal = true)
    (hh : pc.runs = true → m.state.heldByRun = true) (hpc : pc.again = false)
    (hl' : pc'.later = true) : m'.state.terminal = true := by
  cases h
  case walk r _ _ h | walked r _ h =>
    rw [h.frame.1]
    cases r <;> first | exact hl rfl | cases hl'
  case regState h => rcases h with h | h <;> rw [h] <;> rfl
  case regOver h | turnAway h => exact TaskState.terminal_of_over h
  case publish => rfl
  case publishLost h => exact TaskState.terminal_of_heldByRun (hh rfl) h
  case closeLook p _ => cases p <;> first | exact hl rfl | cases hl'
  case finish | closeFinished => cases hpc
  all_goals first | exact hl rfl | cases hl'

/-- The output becomes readable as the run under way publishes it. -/
theorem Step.readable (h : Step m pc a m' pc') (hs : m'.state = .ready) :
    m.state = .ready ∨ pc = .publish ∧ m.state = .running ∧ pc' = .forward := by
  cases h
  case walk h | walked h => exact .inl (h.frame.1.symm.trans hs)
  case publish h => exact .inr ⟨rfl, h, rfl⟩
  case fail =>
    dsimp only at hs
    split at hs
    · cases hs
    · exact .inl hs
  case stop e _ => cases e <;> cases hs
  all_goals first | exact .inl hs | cases hs

/-- A run of a task that runs once begins it. -/
theorem Step.first (h : Step m pc a m' pc') (hpc : pc.again = false) (hr : pc'.runs = true) :
    pc.runs = true ∨ m.state = .pending := by
  cases h
  case walk r _ _ _ | walked r _ _ => cases r <;> first | exact .inl rfl | cases hr
  case begin h => exact .inr h
  case closeLook p _ => cases p <;> first | exact .inl rfl | cases hr
  case beginReady | beginTaken => cases hpc
  all_goals first | exact .inl rfl | cases hr

theorem Step.outputs_of_runs (h : Step m pc a m' pc') (hr : pc'.runs = true) :
    m'.outputs = m.outputs := by
  cases h
  case walk h | walked h => exact h.frame.2.2.2.2.2.1
  case publish => cases hr
  all_goals rfl

/-- A run that panicked ends in its own time. -/
theorem Step.panics (h : Step m pc a m' pc') (hp : pc.panics = true) :
    pc'.panics = true ∨ m'.state ≠ .running := by
  cases h
  case walk r _ _ _ | walked r _ _ => cases r <;> first | exact .inl rfl | cases hp
  case closeLook p _ => cases p <;> first | exact .inl rfl | cases hp
  case fail =>
    right
    dsimp only
    split
    · nofun
    · assumption
  all_goals first | exact .inl rfl | cases hp

/-- Whoever closes the receivers has seen the run over, or panicked in it. -/
theorem Step.closer (h : Step m pc a m' pc') (hc : m'.closed = true) :
    m.closed = true ∨ m'.state = m.state ∧ (pc.later = true ∨ pc.panics = true ∧
      pc'.panics = true) := by
  cases h
  case walk h | walked h => cases h <;> exact .inl hc
  case regClose | close => exact .inr ⟨rfl, .inl rfl⟩
  case panicClose => exact .inr ⟨rfl, .inr ⟨rfl, rfl⟩⟩
  all_goals exact .inl hc

/-- A pass that saw `CLOSED` comes to be blind as it finds nothing to read. -/
theorem Step.blind (h : Step m pc a m' pc') (hb : pc'.blind = true) :
    pc.blind = true ∨ pc.closing = true ∧ m.state ≠ .ready ∧ m' = m := by
  cases h
  case walk h =>
    cases h
    case checkLost h => exact .inr ⟨hb, h, rfl⟩
    case back => exact .inl (Bool.and_eq_true_iff.mp hb).1
    case count => cases (Bool.and_eq_true_iff.mp hb).2
    case blindOver | leave => simp [Pc.blind] at hb
    all_goals first | exact .inl hb | cases hb
  case walked r _ _ => cases r <;> cases hb
  all_goals cases hb

theorem Step.handed (h : Step m pc a m' pc') {i : ℕ} (hne : m.handed i ≠ none) :
    m'.handed i ≠ none := by
  rcases h.log with ⟨-, hh⟩ | ⟨g, j, -, -, -, hh⟩
  · rw [hh]; exact hne
  · rw [hh]
    rcases eq_or_ne i j with rfl | hij
    · rw [show (m.deliver g i).handed i = some g from update_self ..]; nofun
    · rw [show (m.deliver g j).handed i = m.handed i from update_of_ne hij ..]
      exact hne

/-- A pass that reads goes on from a registration once it has had the output. -/
theorem Step.served (h : Step m pc a m' pc') {i : ℕ} (hs : pc'.served = some i) :
    m'.handed i ≠ none := by
  cases h
  case walk h =>
    cases h
    case visit c g j l kept _ =>
      obtain rfl := Option.some.inj hs
      rw [show (m.deliver g j).handed j = some g from update_self ..]
      nofun
    case visitSeen c g j l kept hu =>
      obtain rfl := Option.some.inj hs
      intro hn
      rw [Mem.unseen, hn] at hu
      cases hu
    case blindOver | leave => simp [Pc.served] at hs
    all_goals cases hs
  case walked r _ _ => cases r <;> cases hs
  all_goals cases hs

/-- **Why a registration is let go**: its far end panicked as it was handed the output, or the pass
that comes to it saw `CLOSED`, or its far end takes nothing more. -/
theorem Step.dropped (h : Step m pc a m' pc') {i : ℕ} (hg : m'.gone i = true) :
    m.gone i = true ∨ a = .panic ∧ pc.hits i = true ∧ m'.handed i ≠ none ∨
      pc.leaves i = true ∧ (pc.closing = true ∨ m.finished i = true) := by
  cases h
  case walk h =>
    cases h
    case visitPanic c g j l kept _ =>
      rcases eq_or_ne i j with rfl | hne
      · refine .inr (.inl ⟨rfl, beq_self_eq_true i, ?_⟩)
        rw [show ((m.deliver g i).drop i).handed i = some g from update_self ..]
        nofun
      · exact .inl ((update_of_ne hne ..).symm.trans hg)
    case letGo c rd j l kept hl =>
      rcases eq_or_ne i j with rfl | hne
      · exact .inr (.inr ⟨beq_self_eq_true i, hl⟩)
      · exact .inl ((update_of_ne hne ..).symm.trans hg)
    all_goals exact .inl hg
  case walked h => cases h <;> exact .inl hg
  all_goals exact .inl hg

theorem Step.finished (h : Step m pc a m' pc') {i : ℕ} (hf : m.finished i = true) :
    m'.finished i = true := by
  cases h
  case walk h | walked h => rw [h.frame.2.2.2.2.2.2.2]; exact hf
  case farEnd j =>
    rcases eq_or_ne i j with rfl | hne
    · exact update_self ..
    · exact (update_of_ne hne ..).trans hf
  all_goals exact hf

theorem Step.hung (h : Step m .push a m' pc') : pc'.willClose = true := by
  cases h; rfl

/-- Whoever is on the way to close the receivers does so. -/
theorem Step.willClose (h : Step m pc a m' pc') (hw : pc.willClose = true)
    (hs : m.state = .ready) (hm : m.more = false) (hx : m.extras = true) :
    pc'.willClose = true ∨ m'.closed = true := by
  cases h
  case walk r _ _ _ | walked r _ _ => cases r <;> first | exact .inl rfl | cases hw
  case regEarly h => rcases h with h | h <;> cases h.symm.trans hs
  case regMore h | again h | last h => cases h.symm.trans hm
  case closeNone h => cases hx.symm.trans h
  case closeLook p _ => cases p <;> first | exact .inl rfl | cases hw
  all_goals first | exact .inl rfl | exact .inr rfl | cases hw

end Step

/-- Nothing more will be published: the run is over, or has panicked. -/
def Done (m : Mem) (loc : T → Pc) : Prop :=
  m.state.terminal = true ∨ m.state = .running ∧ ∃ t, (loc t).panics = true

/-- Nothing will be there to read any more. -/
def Lost (m : Mem) (loc : T → Pc) : Prop := m.state ≠ .ready ∧ Done m loc

/-- What the threads at a task that runs once may rely on. -/
structure Once (m : Mem) (loc : T → Pc) : Prop where
  more : m.more = false
  never : ∀ t, (loc t).again = false
  outputs : m.outputs ≤ 1
  /-- Nothing is published before the run begins, or during it. -/
  pending : m.state = .pending → m.outputs = 0
  running : ∀ t, (loc t).runs = true → m.outputs = 0
  later : ∀ t, (loc t).later = true → m.state.terminal = true
  shut : m.closed = true → Done m loc
  blind : ∀ t, (loc t).blind = true → Lost m loc
  served : ∀ t i, (loc t).served = some i → m.handed i ≠ none
  gone : ∀ i, m.gone i = true → m.finished i = true ∨ m.handed i ≠ none ∨ Lost m loc
  will : m.state = .ready → m.closed = false → m.nodes ≠ 0 → ∃ t, (loc t).willClose = true

theorem Fresh.once {s : Config T Mem Pc} (h : Fresh s) (hm : s.mem.more = false) :
    Once s.mem s.loc where
  more := hm
  never t := by rw [h.loc]; rfl
  outputs := by rw [h.outputs]; exact Nat.zero_le 1
  pending _ := h.outputs
  running t ht := by rw [h.loc] at ht; cases ht
  later t ht := by rw [h.loc] at ht; cases ht
  shut hc := by cases h.closed.symm.trans hc
  blind t ht := by rw [h.loc] at ht; cases ht
  served t i ht := by rw [h.loc] at ht; cases ht
  gone i hg := by cases (h.gone i).symm.trans hg
  will _ _ hn := absurd h.nodes hn

section Run

variable {m m' : Mem} {pc' : Pc} {a : Act} {loc : T → Pc} {t : T}

/-- A registration of a task that has published once was handed that output alone. -/
theorem Flow.log_eq_of_handed [Fintype T] (hf : Flow m loc) (ho : m.outputs ≤ 1) {i : ℕ}
    (hh : m.handed i ≠ none) : m.log i = [1] := by
  obtain ⟨g, hg⟩ := Option.ne_none_iff_exists'.mp hh
  obtain ⟨k, l, hlog, hle, -, -⟩ := (hf.sound i).last g hg
  have hpos := (hf.sound i).pos
  have hsorted := (hf.sound i).sorted
  rw [hlog] at hpos hsorted ⊢
  have hk : k = 1 := by
    have := hpos k List.mem_cons_self
    omega
  have hl : l = [] := List.eq_nil_iff_forall_not_mem.mpr fun x hx => by
    have h1 := (List.pairwise_cons.mp hsorted).1 x hx
    have h2 := hpos x (List.mem_cons_of_mem _ hx)
    omega
  rw [hk, hl]

namespace Once

variable [DecidableEq T]

theorem done_step (hi : Once m loc) (h : Step m (loc t) a m' pc') (hd : Done m loc) :
    Done m' (update loc t pc') := by
  rcases hd with hs | ⟨hs, u, hu⟩
  · exact .inl (h.terminal (hi.never t) hs)
  · by_cases hs' : m'.state = .running
    · refine .inr ⟨hs', u, ?_⟩
      rcases eq_or_ne u t with rfl | hne
      · rw [update_self]
        exact (h.panics hu).resolve_right fun hne => hne hs'
      · rw [update_of_ne hne]
        exact hu
    · refine .inl ?_
      have hp : m'.state ≠ .pending := fun hp => by cases hs.symm.trans (h.state_pending hp)
      cases hm : m'.state <;> first | rfl | exact absurd hm hs' | exact absurd hm hp

theorem will_step (hi : Once m loc) (hx : m.nodes ≠ 0 → m.extras = true)
    (h : Step m (loc t) a m' pc') (hs : m'.state = .ready) (hc : m'.closed = false)
    (hn : m'.nodes ≠ 0) : ∃ u, (update loc t pc' u).willClose = true := by
  have hmine (hpc : pc'.willClose = true) :
      ∃ u, (update loc t pc' u).willClose = true :=
    ⟨t, by rw [update_self]; exact hpc⟩
  rcases h.readable hs with hs | ⟨-, -, hpc⟩
  · have hc : m.closed = false := Bool.eq_false_iff.mpr fun hm => by
      cases (h.closed hm).symm.trans hc
    by_cases hn0 : m.nodes = 0
    · rcases h.nodes with heq | ⟨hpc, -, -⟩
      · exact absurd (heq.trans hn0) hn
      · rw [hpc] at h
        exact hmine h.hung
    · obtain ⟨u, hu⟩ := hi.will hs hc hn0
      rcases eq_or_ne u t with rfl | hne
      · exact hmine ((h.willClose hu hs hi.more (hx hn0)).resolve_right fun hm => by
          cases hm.symm.trans ‹m'.closed = false›)
      · exact ⟨u, by rw [update_of_ne hne]; exact hu⟩
  · exact hmine (by rw [hpc]; rfl)

variable [Fintype T]

/-- What is lost stays so. -/
theorem lost_step (hi : Once m loc) (hf : Flow m loc) (h : Step m (loc t) a m' pc')
    (hl : Lost m loc) : Lost m' (update loc t pc') := by
  refine ⟨fun hs => ?_, hi.done_step h hl.2⟩
  rcases h.readable hs with hs | ⟨hpc, hs, -⟩
  · exact hl.1 hs
  · rcases hl.2 with ht | ⟨-, u, hu⟩
    · rw [hs] at ht; cases ht
    · -- The run that panicked is not the one that publishes.
      obtain rfl := hf.one u t (Pc.runs_of_panics hu) (by rw [hpc]; rfl)
      rw [hpc] at hu
      cases hu

theorem shut_step (hi : Once m loc) (hf : Flow m loc) (h : Step m (loc t) a m' pc')
    (hc : m'.closed = true) : Done m' (update loc t pc') := by
  rcases h.closer hc with hc | ⟨hs, hl | ⟨hp, hp'⟩⟩
  · exact hi.done_step h (hi.shut hc)
  · exact hi.done_step h (.inl (hi.later t hl))
  · have hheld := hf.held t (Pc.runs_of_panics hp)
    by_cases hr : m.state = .running
    · exact .inr ⟨hs.trans hr, t, by rw [update_self]; exact hp'⟩
    · exact hi.done_step h (.inl (TaskState.terminal_of_heldByRun hheld hr))

/-- **A step keeps what the threads at a task that runs once rely on.** -/
theorem step (hi : Once m loc) (hf : Flow m loc) (hw : Walks m loc)
    (h : Step m (loc t) a m' pc') : Once m' (update loc t pc') where
  more := h.more hi.more
  never := forall_update (P := (Pc.again · = false)) (h.runsOnce hi.more (hi.never t))
    fun u _ => hi.never u
  outputs := by
    rcases h.payload with ⟨-, ho⟩ | ⟨-, -, ho⟩ | ⟨hpc, -, ho⟩
    · exact ho ▸ hi.outputs
    · exact ho ▸ hi.outputs
    · rw [ho, hi.running t (by rw [hpc]; rfl)]
  pending hs := by
    have hp := h.state_pending hs
    rcases h.payload with ⟨-, ho⟩ | ⟨-, -, ho⟩ | ⟨hpc, -, -⟩
    · exact ho.trans (hi.pending hp)
    · exact ho.trans (hi.pending hp)
    · have hheld := hf.held t (by rw [hpc]; rfl)
      rw [hp] at hheld
      cases hheld
  running := by
    refine forall_update (P := fun pc : Pc => pc.runs = true → m'.outputs = 0)
      (fun hpc => ?_) fun u hu hr => ?_
    · have hzero : m.outputs = 0 := (h.first (hi.never t) hpc).elim (hi.running t) hi.pending
      exact (h.outputs_of_runs hpc).trans hzero
    · rcases h.payload with ⟨-, ho⟩ | ⟨-, -, ho⟩ | ⟨hpub, -, -⟩
      · exact ho.trans (hi.running u hr)
      · exact ho.trans (hi.running u hr)
      · exact absurd (hf.one u t hr (by rw [hpub]; rfl)) hu
  later := forall_update (P := fun pc : Pc => pc.later = true → m'.state.terminal = true)
    (h.later (hi.later t) (hf.held t) (hi.never t))
    fun u _ hu => h.terminal (hi.never t) (hi.later u hu)
  shut := hi.shut_step hf h
  blind := by
    refine forall_update (P := fun pc : Pc => pc.blind = true → Lost m' (update loc t pc'))
      (fun hb => ?_) fun u _ hu => hi.lost_step hf h (hi.blind u hu)
    rcases h.blind hb with hb | ⟨hc, hs, -⟩
    · exact hi.lost_step hf h (hi.blind t hb)
    · exact hi.lost_step hf h ⟨hs, hi.shut (hw.closing t hc)⟩
  served := forall_update (P := fun pc : Pc => ∀ i, pc.served = some i → m'.handed i ≠ none)
    (fun _ => h.served) fun u _ i hu => h.handed (hi.served u i hu)
  gone i hg := by
    rcases h.dropped hg with hg | ⟨-, -, hh⟩ | ⟨hl, hc | hfin⟩
    · rcases hi.gone i hg with hfin | hh | hl
      · exact .inl (h.finished hfin)
      · exact .inr (.inl (h.handed hh))
      · exact .inr (.inr (hi.lost_step hf h hl))
    · exact .inr (.inl hh)
    · rcases Pc.served_or_blind hl hc with hs | hb
      · exact .inr (.inl (h.handed (hi.served t i hs)))
      · exact .inr (.inr (hi.lost_step hf h (hi.blind t hb)))
    · exact .inl (h.finished hfin)
  will := hi.will_step hf.hung h

end Once

/-- **Each registration is handed the outputs in the order of publishing, none twice; and while the
output of a task that runs once is there to be read, a registration whose far end takes values is
let go with that output handed over, once.** None is left hanging when every thread is idle. -/
theorem handed_in_order_and_once [Fintype T] [DecidableEq T] {more : Bool} {s : Config T Mem Pc}
    (hs : machine.Reach (fun s => Fresh s ∧ s.mem.more = more) Machine.unguarded s) :
    (∀ i, (s.mem.log i).Pairwise (· > ·) ∧ ∀ k ∈ s.mem.log i, 0 < k ∧ k ≤ s.mem.outputs) ∧
      (more = false → s.mem.state = .ready →
        (∀ i, s.mem.gone i = true → s.mem.finished i = false → s.mem.log i = [1]) ∧
        ((∀ t, s.loc t = .idle) → ∀ i < s.mem.nodes, s.mem.gone i = true)) := by
  have hflow : Flow s.mem s.loc := hs.invariant (I := fun s => Flow s.mem s.loc)
    (fun _ h => h.1.flow) fun _ _ _ _ _ hi _ hn => hi.step (next_step hn)
  refine ⟨fun i => ⟨(hflow.sound i).sorted, fun k hk => ⟨(hflow.sound i).pos k hk, ?_⟩⟩,
    fun hm hr => ?_⟩
  · exact (hflow.sound i).le_outputs hk
  · obtain ⟨-, hwalks, honce⟩ := hs.invariant
      (I := fun s => Flow s.mem s.loc ∧ Walks s.mem s.loc ∧ Once s.mem s.loc)
      (fun _ h => ⟨h.1.flow, h.1.walks, h.1.once (h.2.trans hm)⟩)
      fun _ _ _ _ _ ⟨hf, hw, hi⟩ _ hn =>
        ⟨hf.step (next_step hn), hw.step (next_step hn), hi.step hf hw (next_step hn)⟩
    refine ⟨fun i hg hfin => ?_, fun hidle i hlt => ?_⟩
    · rcases honce.gone i hg with hf | hh | hl
      · cases hf.symm.trans hfin
      · exact hflow.log_eq_of_handed honce.outputs hh
      · exact absurd hr hl.1
    · have hclosed : s.mem.closed = true := by
        by_contra hc
        obtain ⟨t, ht⟩ := honce.will hr (Bool.eq_false_iff.mpr hc) (Nat.ne_zero_of_lt hlt)
        rw [hidle] at ht
        cases ht
      exact hwalks.settled hidle hclosed i hlt

end Run

/-- A task just spawned, with `n` threads at it. -/
def newTask (n : ℕ) (more : Bool) : Config (Fin n) Mem Pc where
  mem :=
    { state := .pending, more, extras := false, head := [], locked := false, rewalk := false
      closed := false, generation := 0, readers := 0, payload := 0, handed := fun _ => none
      finished := fun _ => false, nodes := 0, outputs := 0, log := fun _ => []
      gone := fun _ => false }
  loc _ := .idle

theorem newTask_fresh (n : ℕ) (more : Bool) : Fresh (newTask n more) := by
  constructor <;> intros <;> rfl

/-- `k` steps of thread `t`, the first of which is `a`. -/
def steps {n : ℕ} (t : Fin n) (a : Act) (k : ℕ) : List (Fin n × Act) :=
  (t, a) :: List.replicate k (t, .go)

/-- Somebody registers before the run, and somebody else after it: each has the output. -/
theorem handed_in_order_and_once_late : ∃ s : Config (Fin 2) _ _,
    machine.Reach (fun s => Fresh s ∧ s.mem.more = false) Machine.unguarded s ∧
    s.mem.state = .ready ∧ s.mem.log 0 = [1] ∧ s.mem.log 1 = [1] := by
  obtain ⟨s, hs, hr, hn, hidle, hf0, hf1⟩ : ∃ s : Config (Fin 2) _ _,
      machine.Reach (fun s => Fresh s ∧ s.mem.more = false) Machine.unguarded s ∧
      s.mem.state = .ready ∧ s.mem.nodes = 2 ∧ (∀ t, s.loc t = .idle) ∧
      s.mem.finished 0 = false ∧ s.mem.finished 1 = false :=
    (Machine.Reach.init ⟨newTask_fresh 2 false, rfl⟩).exists_of_run
      (steps 1 .register 18 ++ steps 0 .begin 41 ++ steps 1 .register 20) (by decide +kernel)
  obtain ⟨hlog, hgone⟩ := (handed_in_order_and_once hs).2 rfl hr
  exact ⟨s, hs, hr, hlog 0 (hgone hidle 0 (by omega)) hf0,
    hlog 1 (hgone hidle 1 (by omega)) hf1⟩

end Atap.Receivers
