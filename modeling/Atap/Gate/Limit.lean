import Atap.Gate.OneRun

/-!
# The limit on gives

`TaskBuilder::count` stops a waiting task after so many gives that start something. The gate
looks at the gives left **before** its exchange and spends one **after** it, so between the
two the word still counts a give that has already started something.

* `limit_passed`: with a limit of two, three gives start something. The second moves the gate
  to `PENDING` and is held up before its spend; the run ends, goes again, and the third give
  finds the gate `RUNNING` and a give left.
* `LimitSettled`: the end of a run moves the gate back to `QUEUED` or `WAITING` only while no
  give that saw it `RUNNING` is under way between its look and its spend.
* `gives_within_limit`: in every run whose steps all meet that, no more gives than the limit
  start something, and once as many have, and what they started is over, the gate is
  `FINISHED` and the task was let go.

The proof keeps a tally of the limit (`Tally`) and, for every thread, what the gate still
looks like to it (`View`): a give that saw the gate `RUNNING` finds it `RUNNING` only with a
give left, and so does the end of a run that is about to wait again.
-/

namespace Atap.Gate

open Function

variable {T α : Type*}

namespace Pc

/-- The end of a run is about to move the gate to `QUEUED` or `WAITING`. -/
def resolves : Pc α → Bool
  | afterPending | afterMove _ false => true
  | _ => false

/-- A give saw the gate `RUNNING` and has not tried to move it yet. -/
def sawRunning : Pc α → Bool
  | limit _ .running | move _ .running => true
  | _ => false

/-- A give has moved the gate and not spent a give for it. -/
def spends : Pc α → Bool
  | spend _ _ => true
  | _ => false

/-- A give moved the gate from `RUNNING` and has not spent a give for it. -/
def owesSpend : Pc α → Bool
  | spend _ .running => true
  | _ => false

/-- The turn is on its way to the queue. -/
def starts : Pc α → Bool
  | spend _ .waiting | start _ | again => true
  | _ => false

/-- What the end of a run saw the gate as. -/
def sawOngoing : Pc α → Option Ongoing
  | afterLimit saw | afterGivers saw | afterMove saw _ => some saw
  | _ => none

/-- What the end of a run saw the gate as, once it saw a give left. -/
def sawLeft : Pc α → Option Ongoing
  | afterGivers saw | afterMove saw false => some saw
  | _ => none

/-- The thread drives a schedule, or is about to begin a copy of one. -/
def schedules : Pc α → Bool
  | clock | prepare false => true
  | _ => false

/-- What the gate looks like matters to the thread. -/
def relies : Pc α → Bool
  | limit _ .running | move _ _ | spend _ _ | start _ | again | afterLimit _ | afterGivers _
  | afterMove _ _ | clock | prepare false => true
  | _ => false

end Pc

/-- The end of a run does not move the gate on to `QUEUED` or `WAITING` while a give that saw
it `RUNNING` is between its look at the gate and its spend. -/
def LimitSettled (s : Config T (Mem α) (Pc α)) (t : T) (_ : Act α) : Prop :=
  (s.loc t).resolves = true → ∀ u, (s.loc u).sawRunning = false ∧ (s.loc u).owesSpend = false

instance [Fintype T] (s : Config T (Mem α) (Pc α)) (t : T) (a : Act α) :
    Decidable (LimitSettled s t a) :=
  inferInstanceAs (Decidable (_ → ∀ _, _ ∧ _))

/-! ### What the gate looks like to each thread -/

/-- What a thread at `pc` may rely on, with a limit of `n` gives, the gate in `g` and `left`
gives left. -/
structure View (n : ℕ) (series : Bool) (g : GateState) (left : ℕ) (pc : Pc α) : Prop where
  saw : pc.sawRunning = true →
    series = false ∧ (g = .running ∨ g = .pending ∨ g = .finished)
  left_of_move : ∀ k, pc = .move k .running → g = .running → left ≠ 0
  limit_pos : ∀ k saw, pc = .move k saw → 0 < n
  pending : pc.owesSpend = true → g = .pending
  starts : pc.starts = true → g = .queued ∨ g = .running ∧ series = true
  ongoing : pc.sawOngoing = some .running → g = .running ∨ g = .pending
  left_of_end : ∀ saw, pc.sawLeft = some saw → g = saw.state → left ≠ 0
  schedule : pc.schedules = true → series = true

namespace View

variable {n left left' : ℕ} {series : Bool} {g g' : GateState} {pc : Pc α}

theorem drives_of_starts (h : pc.starts = true) : pc.drives = true := by
  cases pc <;> first | rfl | cases h | skip
  case spend saw => cases saw <;> first | rfl | cases h

theorem drives_of_sawOngoing {saw : Ongoing} (h : pc.sawOngoing = some saw) :
    pc.drives = true := by
  cases pc <;> first | rfl | cases h

theorem sawOngoing_of_sawLeft {saw : Ongoing} (h : pc.sawLeft = some saw) :
    pc.sawOngoing = some saw := by
  cases pc <;> first | exact h | cases h | skip
  case afterMove s isOver => cases isOver <;> first | exact h | cases h

/-- A spend changes what is left, and is under way only where nobody relies on it. -/
theorem spent (h : View n series g left pc)
    (hg : g = .queued ∨ g = .pending ∨ g = .running ∧ series = true)
    (hd : pc.drives = true → g = .pending) : View n series g left' pc where
  saw := h.saw
  left_of_move k hpc hrun := by
    obtain ⟨hser, -⟩ := h.saw (by rw [hpc]; rfl)
    rcases hg with hg | hg | ⟨-, hg⟩
    · exact absurd (hg.symm.trans hrun) nofun
    · exact absurd (hg.symm.trans hrun) nofun
    · exact absurd (hser.symm.trans hg) nofun
  limit_pos := h.limit_pos
  pending := h.pending
  starts := h.starts
  ongoing := h.ongoing
  left_of_end saw hpc hsaw := by
    have hp := hd (drives_of_sawOngoing (sawOngoing_of_sawLeft hpc))
    cases saw <;> exact absurd (hp.symm.trans hsaw) nofun
  schedule := h.schedule

/-- A give that lands during a run leaves the gate `PENDING`. -/
theorem toPending (h : View n false .running left pc) : View n false .pending left pc where
  saw hpc := ⟨rfl, .inr (.inl rfl)⟩
  left_of_move _ _ := nofun
  limit_pos := h.limit_pos
  pending _ := rfl
  starts hpc := by
    rcases h.starts hpc with hg | ⟨-, hser⟩
    · cases hg
    · cases hser
  ongoing _ := .inr rfl
  left_of_end saw _ := by cases saw <;> exact nofun
  schedule := h.schedule

/-- A run begins. A thread with the turn sees that only in a series, whose copies begin. -/
theorem toRunning (h : View n series .queued left pc)
    (hd : pc.drives = true → series = true) : View n series .running left pc where
  saw hpc := by rcases (h.saw hpc).2 with hg | hg | hg <;> cases hg
  left_of_move k hpc _ := by
    rcases (h.saw (by rw [hpc]; rfl)).2 with hg | hg | hg <;> cases hg
  limit_pos := h.limit_pos
  pending hpc := nomatch h.pending hpc
  starts hpc := .inr ⟨rfl, hd (drives_of_starts hpc)⟩
  ongoing hpc := by rcases h.ongoing hpc with hg | hg <;> cases hg
  left_of_end saw hpc hsaw := by
    cases saw
    · cases hsaw
    · rcases h.ongoing (sawOngoing_of_sawLeft hpc) with hg | hg <;> cases hg
  schedule := h.schedule

/-- The gate closes, by a thread that had the turn or found nobody with it. -/
theorem toFinished (h : View n series g left pc) (hg : g ≠ .pending)
    (hd : pc.drives = false) : View n series .finished left pc where
  saw hpc := ⟨(h.saw hpc).1, .inr (.inr rfl)⟩
  left_of_move _ _ := nofun
  limit_pos := h.limit_pos
  pending hpc := absurd (h.pending hpc) hg
  starts hpc := absurd (drives_of_starts hpc) (by rw [hd]; decide)
  ongoing hpc := absurd (drives_of_sawOngoing hpc) (by rw [hd]; decide)
  left_of_end saw _ := by cases saw <;> exact nofun
  schedule := h.schedule

/-- A thread without the turn and without a give under way relies on nothing. -/
theorem toAny (h : View n series g left pc) (hsaw : pc.sawRunning = false)
    (howes : pc.owesSpend = false) (hd : pc.drives = false) : View n series g' left' pc where
  saw hpc := absurd hpc (by rw [hsaw]; decide)
  left_of_move k hpc := by rw [hpc] at hsaw; cases hsaw
  limit_pos := h.limit_pos
  pending hpc := absurd hpc (by rw [howes]; decide)
  starts hpc := absurd (drives_of_starts hpc) (by rw [hd]; decide)
  ongoing hpc := absurd (drives_of_sawOngoing hpc) (by rw [hd]; decide)
  left_of_end saw hpc := absurd (drives_of_sawOngoing (sawOngoing_of_sawLeft hpc))
    (by rw [hd]; decide)
  schedule := h.schedule

/-- Out of `WAITING` every give has yet to look. -/
theorem ofWaiting (h : View n series .waiting left pc) (hd : pc.drives = false) :
    View n series g' left' pc := by
  refine h.toAny (Bool.eq_false_iff.mpr fun hpc => ?_) (Bool.eq_false_iff.mpr fun hpc => ?_) hd
  · rcases (h.saw hpc).2 with hg | hg | hg <;> cases hg
  · cases h.pending hpc

end View

section Step

variable {n : ℕ} {m m' : Mem α} {pc pc' : Pc α}

theorem Pc.phases_of_not_relies (h : pc.relies = false) :
    pc.sawRunning = false ∧ pc.owesSpend = false ∧ pc.starts = false ∧ pc.sawOngoing = none ∧
      pc.schedules = false := by
  cases pc
  case limit k saw => cases saw <;> first | exact ⟨rfl, rfl, rfl, rfl, rfl⟩ | cases h
  case prepare d => cases d <;> first | exact ⟨rfl, rfl, rfl, rfl, rfl⟩ | cases h
  all_goals first | exact ⟨rfl, rfl, rfl, rfl, rfl⟩ | cases h

theorem View.of_not_relies {series : Bool} {g : GateState} {left : ℕ}
    (h : pc.relies = false) : View n series g left pc := by
  obtain ⟨hsaw, howes, hstarts, hongoing, hsched⟩ := Pc.phases_of_not_relies h
  have hmove : ∀ k saw, pc ≠ .move k saw := by
    rintro k saw rfl
    cases h
  constructor
  case saw => rw [hsaw]; exact nofun
  case left_of_move => exact fun k hpc => absurd hpc (hmove k _)
  case limit_pos => exact fun k saw hpc => absurd hpc (hmove k saw)
  case pending => rw [howes]; exact nofun
  case starts => rw [hstarts]; exact nofun
  case ongoing => rw [hongoing]; exact nofun
  case left_of_end =>
    intro saw hpc
    rw [View.sawOngoing_of_sawLeft hpc] at hongoing
    cases hongoing
  case schedule => rw [hsched]; exact nofun

/-- The gate a spend is under way at. -/
theorem View.state_of_spends {series : Bool} {g : GateState} {left : ℕ}
    (h : View n series g left pc) (hpc : pc.spends = true) :
    g = .queued ∨ g = .pending ∨ g = .running ∧ series = true := by
  cases pc <;> cases hpc
  case spend.refl k saw =>
    cases saw
    · rcases h.starts rfl with hg | hg
      · exact .inl hg
      · exact .inr (.inr hg)
    · exact .inr (.inl (h.pending rfl))

/-- **What one step leaves its own thread to rely on.** -/
theorem Step.view_self (h : Step m pc m' pc') (hv : View n m.series m.state m.givesLeft pc)
    (hle : m.givesLeft ≤ n) (hseries : m.schedule = true → m.series = true)
    (hlaunched : 0 < m.launched → m.series = true) :
    View n m'.series m'.state m'.givesLeft pc' := by
  cases h
  case lookOpen k saw h hs =>
    cases saw
    · exact .of_not_relies rfl
    · refine ⟨fun _ => ⟨hs rfl, .inl h⟩, ?_, ?_, ?_, ?_, ?_, ?_, ?_⟩ <;> exact nofun
  case limitLeft k saw h =>
    refine ⟨?_, fun _ _ _ => h, fun _ _ _ => by omega, ?_, ?_, ?_, ?_, ?_⟩
    case refine_1 =>
      intro hpc
      cases saw
      · cases hpc
      · exact hv.saw rfl
    all_goals exact nofun
  case moveWon k saw h =>
    cases saw
    · refine ⟨?_, ?_, ?_, ?_, fun _ => .inl rfl, ?_, ?_, ?_⟩ <;> exact nofun
    · refine ⟨?_, ?_, ?_, fun _ => rfl, ?_, ?_, ?_, ?_⟩ <;> exact nofun
  case spendStart k =>
    refine ⟨?_, ?_, ?_, ?_, fun _ => hv.starts rfl, ?_, ?_, ?_⟩ <;> exact nofun
  case pickSeries h hs =>
    refine ⟨?_, ?_, ?_, ?_, ?_, ?_, ?_, fun _ => hseries hs⟩ <;> exact nofun
  case pickCopy h =>
    refine ⟨?_, ?_, ?_, ?_, ?_, ?_, ?_, fun _ => hlaunched h⟩ <;> exact nofun
  case launch => exact ⟨nofun, nofun, nofun, nofun, nofun, nofun, nofun, hv.schedule⟩
  case owedWon h =>
    refine ⟨?_, ?_, ?_, ?_, fun _ => .inl rfl, ?_, ?_, ?_⟩ <;> exact nofun
  case afterOngoing saw h =>
    refine ⟨?_, ?_, ?_, ?_, ?_, ?_, ?_, ?_⟩
    case refine_6 =>
      rintro ⟨⟩
      exact .inl h
    all_goals exact nofun
  case limitOpen saw h =>
    refine ⟨?_, ?_, ?_, ?_, ?_, hv.ongoing, fun _ _ _ => h, ?_⟩ <;> exact nofun
  case limitOver saw h =>
    refine ⟨?_, ?_, ?_, ?_, ?_, hv.ongoing, ?_, ?_⟩ <;> exact nofun
  case givers saw =>
    refine ⟨?_, ?_, ?_, ?_, ?_, hv.ongoing, ?_, ?_⟩
    case refine_6 =>
      intro saw' hpc
      refine hv.left_of_end saw' ?_
      cases hg : decide (m.givers = 0)
      · rwa [hg] at hpc
      · rw [hg] at hpc
        cases hpc
    all_goals exact nofun
  case release b => cases b <;> exact .of_not_relies rfl
  all_goals exact .of_not_relies rfl

variable [Fintype T] {loc : T → Pc α} {t u : T}

/-- **What one step leaves every other thread to rely on.** -/
theorem Step.view_other (h : Step m (loc t) m' pc') (hi : Turns m loc)
    (hv : ∀ u, View n m.series m.state m.givesLeft (loc u))
    (hok : (loc t).resolves = true →
      ∀ u, (loc u).sawRunning = false ∧ (loc u).owesSpend = false)
    (hu : u ≠ t) : View n m'.series m'.state m'.givesLeft (loc u) := by
  have ht := hv t
  have hother := hv u
  have hdrive : (loc t).drives = true → (loc u).drives = false :=
    fun hd => hi.not_drives_of_ne hd hu
  have hidle : m.state.owed = false → (loc u).drives = false := fun ho =>
    Bool.eq_false_iff.mpr fun hd => absurd (hi.owed_of_drives hd) (by rw [ho]; decide)
  generalize hpc : loc t = pc at *
  cases h
  case moveWon k saw h =>
    cases saw
    · have hd := hidle (by rw [h]; rfl)
      rw [h] at hother
      exact hother.ofWaiting hd
    · obtain ⟨hser, -⟩ := ht.saw rfl
      rw [h, hser] at hother
      show View n m.series .pending m.givesLeft (loc u)
      rw [hser]
      exact hother.toPending
  case spendStart k =>
    refine hother.spent (ht.state_of_spends rfl) fun hd => ?_
    exact absurd hd (by rw [hdrive rfl]; decide)
  case spendOwed k => exact hother.spent (ht.state_of_spends rfl) fun _ => ht.pending rfl
  case startRefused k | againRefused =>
    refine hother.toFinished (fun hg => ?_) (hdrive rfl)
    rcases ht.starts rfl with h | ⟨h, -⟩ <;> exact absurd (hg.symm.trans h) nofun
  case closeWon h => exact hother.toFinished (by rw [h]; decide) (hidle (by rw [h]; rfl))
  case begin d h =>
    rw [h] at hother
    refine hother.toRunning fun hd => ?_
    cases d
    · exact ht.schedule rfl
    · exact absurd hd (by rw [hdrive rfl]; decide)
  case owedWon h | waitWon saw h => exact hother.toAny (hok rfl u).1 (hok rfl u).2 (hdrive rfl)
  case overWon saw h =>
    exact hother.toFinished (by rw [h]; cases saw <;> decide) (hdrive rfl)
  case recloseWon h => exact hother.toFinished (by rw [h]; decide) (hidle (by rw [h]; rfl))
  case finish b =>
    have hf := hi.finished_of_ends (t := t) (by rw [hpc]; rfl)
    rw [hf] at hother
    exact hother
  case release b => cases b <;> exact hother
  all_goals exact hother

end Step

/-! ### The tally of the limit -/

/-- The gives left, with those that started something and are not spent yet still in it. -/
structure Tally (n : ℕ) (g : GateState) (left started unspent : ℕ) : Prop where
  sum : left + started = n + unspent
  covered : unspent ≤ left
  bound : left ≤ n
  idle : g = .waiting → 0 < n → left ≠ 0

namespace Tally

variable {n left started unspent : ℕ} {g g' : GateState}

theorem move (h : Tally n g left started 0) (hleft : left ≠ 0) (hg : g' ≠ .waiting) :
    Tally n g' left (started + 1) 1 := by
  obtain ⟨hsum, -, hbound, -⟩ := h
  exact ⟨by omega, by omega, hbound, fun hw => absurd hw hg⟩

theorem spend (h : Tally n g left started (unspent + 1)) (hg : g ≠ .waiting)
    (hn : n < unlimited) : Tally n g (spendGive left) started unspent := by
  obtain ⟨hsum, hcov, hbound, -⟩ := h
  have hleft : spendGive left = left - 1 := if_neg (by omega)
  rw [hleft]
  exact ⟨by omega, by omega, by omega, fun hw => absurd hw hg⟩

theorem goTo (h : Tally n g left started unspent) (hg : g' = .waiting → left ≠ 0) :
    Tally n g' left started unspent :=
  ⟨h.sum, h.covered, h.bound, fun hw _ => hg hw⟩

end Tally

/-- What holds in every interleaving that settles the limit. -/
structure Limited [Fintype T] (n : ℕ) (m : Mem α) (loc : T → Pc α) : Prop where
  turns : Turns m loc
  views : ∀ u, View n m.series m.state m.givesLeft (loc u)
  tally : Tally n m.state m.givesLeft m.started (count Pc.spends loc)
  schedule : m.schedule = true → m.series = true
  launched : 0 < m.launched → m.series = true

section Run

variable [Fintype T] {n : ℕ} {m m' : Mem α} {pc' : Pc α} {loc : T → Pc α} {t : T}

/-- A gate that a give can move has no spend under way. -/
theorem Limited.unspent (hi : Limited n m loc) {o : Opening} (h : m.state = o.state)
    (hs : o = .running → m.series = false) : count Pc.spends loc = 0 := by
  refine count_eq_zero.mpr fun u => Bool.eq_false_iff.mpr fun hu => ?_
  rcases (hi.views u).state_of_spends hu with hg | hg | ⟨hg, hser⟩
  · cases o <;> exact absurd (h.symm.trans hg) nofun
  · cases o <;> exact absurd (h.symm.trans hg) nofun
  · cases o
    · exact absurd (h.symm.trans hg) nofun
    · exact absurd ((hs rfl).symm.trans hser) nofun

/-- A give only moves the gate with a give left. -/
theorem Limited.left_of_move (hi : Limited n m loc) {k : ℕ} {saw : Opening}
    (hpc : loc t = .move k saw) (h : m.state = saw.state) : m.givesLeft ≠ 0 := by
  have hv := hi.views t
  rw [hpc] at hv
  cases saw
  · exact hi.tally.idle h (hv.limit_pos k _ rfl)
  · exact hv.left_of_move k rfl h

theorem Limited.launched_step (hi : Limited n m loc) (h : Step m (loc t) m' pc') :
    (m'.schedule = true → m'.series = true) ∧ (0 < m'.launched → m'.series = true) := by
  have hv := hi.views t
  generalize loc t = pc at *
  cases h
  case launch => exact ⟨hi.schedule, fun _ => hv.schedule rfl⟩
  case pickCopy h => exact ⟨hi.schedule, fun _ => hi.launched h⟩
  case release b => cases b <;> exact ⟨hi.schedule, hi.launched⟩
  all_goals exact ⟨hi.schedule, hi.launched⟩

theorem Fresh.limited {s : Config T (Mem α) (Pc α)} (h : Fresh n s) :
    Limited n s.mem s.loc where
  turns := h.turns
  views u := .of_not_relies (by rcases h.loc u with hl | hl | hl <;> rw [hl] <;> rfl)
  tally := by
    have hu : count Pc.spends s.loc = 0 := count_eq_zero.mpr fun u => by
      rcases h.loc u with hl | hl | hl <;> rw [hl] <;> rfl
    rw [hu, h.started, h.givesLeft]
    exact ⟨rfl, Nat.zero_le _, le_rfl, fun _ hn => hn.ne'⟩
  schedule := h.schedule
  launched hl := absurd hl (by rw [h.launched]; decide)

variable [DecidableEq T]

theorem Limited.tally_step (hi : Limited n m loc) (hn : n < unlimited)
    (h : Step m (loc t) m' pc') : Tally n m'.state m'.givesLeft m'.started
      (count Pc.spends (update loc t pc')) := by
  have htally := hi.tally
  have hv := hi.views t
  have hcount := count_update Pc.spends loc t pc'
  have hsame : pc'.spends = (loc t).spends →
      count Pc.spends (update loc t pc') = count Pc.spends loc :=
    fun hp => count_update_of_eq hp
  generalize hpc : loc t = pc at *
  cases h
  case moveWon k saw h =>
    have hzero : count Pc.spends loc = 0 := hi.unspent h fun hs => by
      subst hs
      exact (hv.saw rfl).1
    have hone : count Pc.spends (update loc t (.spend k saw)) = 1 := by
      rw [hzero] at hcount
      exact hcount
    rw [hone]
    rw [hzero] at htally
    exact htally.move (hi.left_of_move hpc h) (by cases saw <;> exact nofun)
  case spendStart k =>
    rw [← show _ + 1 = count Pc.spends loc from hcount] at htally
    refine htally.spend (fun hg => ?_) hn
    rcases hv.starts rfl with h | ⟨h, -⟩ <;> exact absurd (hg.symm.trans h) nofun
  case spendOwed k =>
    rw [← show _ + 1 = count Pc.spends loc from hcount] at htally
    exact htally.spend (fun hg => absurd (hg.symm.trans (hv.pending rfl)) nofun) hn
  case waitWon saw h =>
    rw [hsame rfl]
    exact htally.goTo fun _ => hv.left_of_end saw rfl h
  case release b => cases b <;> (rw [hsame rfl]; exact htally)
  case startRefused | closeWon | begin | againRefused | owedWon | overWon | recloseWon | finish =>
    rw [hsame rfl]
    exact htally.goTo nofun
  all_goals
    rw [hsame rfl]
    exact htally

/-- **A step that settles the limit keeps it.** -/
theorem Limited.step (hi : Limited n m loc) (hn : n < unlimited) (h : Step m (loc t) m' pc')
    (hok : (loc t).resolves = true →
      ∀ u, (loc u).sawRunning = false ∧ (loc u).owesSpend = false) :
    Limited n m' (update loc t pc') where
  turns := hi.turns.step h
  views := forall_update (h.view_self (hi.views t) hi.tally.bound hi.schedule hi.launched)
    fun _ hu => h.view_other hi.turns hi.views hok hu
  tally := hi.tally_step hn h
  schedule := (hi.launched_step h).1
  launched := (hi.launched_step h).2

/-- **No more gives than the limit start something**, and the last run they start ends with
the gate `FINISHED` and the task let go, in every run that settles the limit. -/
theorem gives_within_limit (hn : n < unlimited) {s : Config T (Mem α) (Pc α)}
    (hs : (machine α).Reach (Fresh n) LimitSettled s) :
    s.mem.started ≤ n ∧
      (0 < n → s.mem.started = n → s.mem.queued = 0 →
        (∀ t, (s.loc t).drives = false ∧ (s.loc t).ends = false) →
        s.mem.state = .finished ∧ s.mem.released = 1) := by
  have hi : Limited n s.mem s.loc :=
    hs.invariant (I := fun s => Limited n s.mem s.loc) (fun _ h => h.limited)
      fun _ _ _ _ _ hi hok hstep => hi.step hn (next_step hstep) hok
  obtain ⟨hsum, hcov, -, hidle⟩ := hi.tally
  refine ⟨by omega, fun hpos hall hqueue hquiet => ?_⟩
  have hturn := hi.turns.turn
  have hending := hi.turns.ending
  rw [hqueue, count_eq_zero.mpr fun t => (hquiet t).1] at hturn
  rw [count_eq_zero.mpr fun t => (hquiet t).2] at hending
  -- Nothing is owed, so the gate is back in `WAITING` or `FINISHED`, and only with a give
  -- left in the first.
  have hfin : s.mem.state = .finished := by
    cases hg : s.mem.state
    case finished => rfl
    case waiting =>
      have hleft := hidle hg hpos
      have hunspent := hi.unspent (o := .waiting) hg nofun
      omega
    all_goals
      rw [hg] at hturn
      cases hturn
  refine ⟨hfin, ?_⟩
  rw [hfin] at hending
  exact hending

end Run

/-- A limit of one: the give starts a run, and its end finishes the task. -/
theorem gives_within_limit_one : ∃ s : Config (Fin 4) (Mem ℕ) (Pc ℕ),
    (machine ℕ).Reach (Fresh 1) LimitSettled s ∧
      s.mem.started = 1 ∧ s.mem.state = .finished ∧ s.mem.released = 1 := by
  obtain ⟨s, hs, hstarted, hqueue, hquiet⟩ : ∃ s, (machine ℕ).Reach (Fresh 1) LimitSettled s ∧
      s.mem.started = 1 ∧ s.mem.queued = 0 ∧
      ∀ t : Fin 4, (s.loc t).drives = false ∧ (s.loc t).ends = false :=
    (Machine.Reach.init (threeGivers_fresh 1)).exists_of_run
      (giving 1 10 7 ++ (0, .pick) :: List.replicate 9 (0, .go)) (by decide)
  have hlim := gives_within_limit (by decide) hs
  exact ⟨s, hs, hstarted, hlim.2 (by decide) hstarted hqueue hquiet⟩

/-- The second of two gives moves the gate to `PENDING` and is held up there; its run begins,
and a third give finds the gate `RUNNING` and a give left. -/
def passLimit : List (Fin 4 × Act ℕ) :=
  giving 1 10 7 ++ [(0, .pick), (0, .go), (0, .go)] ++ giving 2 20 5 ++
    [(0, .go), (0, .go), (0, .go), (0, .go), (0, .pick), (0, .go)] ++ giving 3 30 5

/-- **The limit can be passed** when a run ends in the middle of a give. -/
theorem limit_passed : ∃ s : Config (Fin 4) (Mem ℕ) (Pc ℕ),
    (machine ℕ).Reach (Fresh 2) Machine.unguarded s ∧ s.mem.started = 3 := by
  exact (Machine.Reach.init (threeGivers_fresh 2)).exists_of_run passLimit (by decide)

end Atap.Gate
