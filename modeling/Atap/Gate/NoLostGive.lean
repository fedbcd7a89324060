import Atap.Gate.Values
import Atap.Interleave.Fair

/-!
# No give is lost

A waiting task whose gives start single runs, with no limit on them and a pool that takes what
it is handed. A give leaves its value first and asks the gate second; a run moves the gate
first and copies the mailbox second. So whichever of the two looks at the gate later sees the
other's move: **a give accepted leaves the gate with a run yet to begin, or one that began
after the value was left**.

* `Places`: before a run begins the gate is `QUEUED` and the turn is on its way to the run;
  from then on it is `RUNNING` or `PENDING` and the turn is with the run.
* `Owes`: a run is yet to begin. `Step.owes` says a step begins it or leaves it owed, and
  `owes_leads_to_begin` that, scheduled fairly, it begins.
* `one_run_and_no_lost_give`: never more than one run is queued or under way, and every value
  whose give returned `Ok` is followed by a run that began after the value was left and was handed
  it or a later one.
-/

namespace Atap.Gate

open Function

variable {T α : Type*}

/-- A waiting task just spawned, whose gives start single runs, with no limit on them. -/
structure FreshSingle [Fintype T] (s : Config T (Mem α) (Pc α)) : Prop extends
    Fresh unlimited s where
  single : s.mem.series = false

/-- Whatever is started is taken by the pool. -/
def PoolTakes (_ : Config T (Mem α) (Pc α)) (_ : T) (a : Act α) : Prop := a ≠ .refuse

instance [DecidableEq α] (s : Config T (Mem α) (Pc α)) (t : T) (a : Act α) :
    Decidable (PoolTakes s t a) :=
  inferInstanceAs (Decidable (a ≠ .refuse))

namespace Pc

/-- The turn is on its way to a run that has not begun. -/
def beforeBegin : Pc α → Bool
  | spend _ .waiting | start _ | again | prepare true => true
  | _ => false

/-- The turn is with a run that has begun. -/
def inRun : Pc α → Bool
  | copy true | execute true | afterLook | afterPending | afterLimit _ | afterGivers _
  | afterMove _ _ => true
  | _ => false

/-- A run of the task is under way on the thread. -/
def underWay : Pc α → Bool
  | clock | prepare _ | copy _ | execute _ | dropLook | dropClear | afterLook | afterPending
  | afterLimit _ | afterGivers _ | afterMove _ _ => true
  | _ => false

/-- The value whose give has moved the gate and not returned. -/
def won : Pc α → Option ℕ
  | spend k _ | start k => some k
  | _ => none

/-- The thread is inside a call, or has a run in hand. -/
def busy : Pc α → Bool
  | out | holds | worker => false
  | _ => true

theorem drives_of_underWay {pc : Pc α} (h : pc.underWay = true) (hp : pc.ofSchedule = false) :
    pc.drives = true := by
  cases pc
  case prepare d | copy d | execute d => cases d <;> first | rfl | cases hp
  case clock | dropLook | dropClear => cases hp
  all_goals first | rfl | cases h

/-- How far the turn is from the next run's beginning. -/
def rank : Pc α → ℕ
  | copy true => 11
  | execute true => 10
  | afterLimit _ => 9
  | afterGivers _ => 8
  | afterMove _ _ => 7
  | afterLook => 6
  | afterPending => 5
  | spend _ .waiting => 5
  | start _ => 4
  | again => 4
  | prepare true => 2
  | _ => 0

end Pc

/-- A single run is owed, queued, or about to begin. -/
def GateState.owesRun : GateState → Bool
  | queued | pending => true
  | _ => false

/-- A run has begun and not ended. -/
def GateState.ongoing : GateState → Bool
  | running | pending => true
  | _ => false

/-- Where the turn of a task with single runs is. -/
structure Places [Fintype T] (m : Mem α) (loc : T → Pc α) : Prop where
  unlimited : m.givesLeft = unlimited
  series : m.series = false
  schedule : m.schedule = false
  launched : m.launched = 0
  noSchedule : ∀ u, (loc u).ofSchedule = false
  before : m.queued + count Pc.beforeBegin loc = (decide (m.state = .queued)).toNat
  inRun : count Pc.inRun loc = m.state.ongoing.toNat

section Step

variable {m m' : Mem α} {pc pc' : Pc α}

/-- A pool that takes what it is handed lets no task go at a start. -/
theorem not_ends_of_next {a : Act α} (h : next m pc a = some (m', pc')) (ha : a ≠ .refuse)
    (hpc : (∃ k, pc = .start k) ∨ pc = .again) : pc'.ends = false := by
  rcases hpc with ⟨k, rfl⟩ | rfl
  · cases a <;> first | exact absurd rfl ha | cases h
    rfl
  · cases a <;> first | exact absurd rfl ha | cases h
    rfl

/-- What a thread's place says about the gate. -/
structure Placed (m : Mem α) (pc : Pc α) : Prop where
  single : m.series = false
  plain : m.schedule = false
  noSchedule : pc.ofSchedule = false
  before : pc.beforeBegin = true → m.state = .queued
  inRun : pc.inRun = true → m.state.ongoing = true
  ends : pc.ends = true → m.state = .finished

/-- A step passes the turn on before the run, takes it up as it queues the gate, or gives it
to the run that begins. It takes the turn into a run as that begins, and out of it as it ends. -/
theorem Step.places (h : Step m pc m' pc') (hp : Placed m pc)
    (hstart : (∃ k, pc = .start k) ∨ pc = .again → pc'.ends = false) :
    m'.queued + pc'.beforeBegin.toNat + (decide (m.state = .queued)).toNat =
        m.queued + pc.beforeBegin.toNat + (decide (m'.state = .queued)).toNat ∧
      pc'.inRun.toNat + m.state.ongoing.toNat = pc.inRun.toNat + m'.state.ongoing.toNat := by
  have hrun : pc.inRun = true → decide (m.state = .queued) = false := by
    intro hr
    have := hp.inRun hr
    cases hg : m.state <;> first | rfl | (rw [hg] at this; cases this)
  cases h
  case moveWon k saw h => rw [h]; cases saw <;> exact ⟨rfl, rfl⟩
  case startRefused k => cases hstart (.inl ⟨k, rfl⟩)
  case begin d h =>
    cases d
    · cases hp.noSchedule
    · rw [h]; exact ⟨rfl, rfl⟩
  case beginLost d h =>
    cases d
    · cases hp.noSchedule
    · exact absurd (hp.before rfl) h
  case copy d => cases d <;> exact ⟨rfl, rfl⟩
  case more h => exact absurd (hp.single.symm.trans h) nofun
  case againRefused => cases hstart (.inr rfl)
  case pickRun h _ =>
    exact ⟨congrArg (· + (decide (m.state = .queued)).toNat) (Nat.sub_add_cancel h), rfl⟩
  case pickSeries h hs => exact absurd (hp.plain.symm.trans hs) nofun
  case seriesOver => cases hp.noSchedule
  case afterWaiting h | afterFinished h => exact absurd (hp.inRun rfl) (by rw [h]; decide)
  case closeWon h | owedWon h | recloseWon h => rw [h]; exact ⟨rfl, rfl⟩
  case overWon saw h | waitWon saw h => rw [hrun rfl, hp.inRun rfl]; exact ⟨rfl, rfl⟩
  case finish => rw [hp.ends rfl]; exact ⟨rfl, rfl⟩
  case release b => cases b <;> exact ⟨rfl, rfl⟩
  all_goals exact ⟨rfl, rfl⟩

theorem Step.noSchedule (h : Step m pc m' pc') (hp : Placed m pc) (hl : m.launched = 0) :
    m'.launched = 0 ∧ pc'.ofSchedule = false := by
  have hpc := hp.noSchedule
  cases h
  case pickSeries h hs => exact absurd (hp.plain.symm.trans hs) nofun
  case pickCopy h => exact absurd hl h.ne'
  case begin d h | beginLost d h => cases d <;> first | exact ⟨hl, rfl⟩ | cases hpc
  case copy d => cases d <;> first | exact ⟨hl, rfl⟩ | cases hpc
  case launch | seriesOver | copyOver | dropFinished | dropOpen | dropClear => cases hpc
  case release b => cases b <;> exact ⟨hl, rfl⟩
  all_goals exact ⟨hl, rfl⟩

/-- Nothing changes what the task was spawned with. -/
theorem Step.setup (h : Step m pc m' pc') :
    m'.series = m.series ∧ m'.schedule = m.schedule ∧
      (m.givesLeft = unlimited → m'.givesLeft = unlimited) ∧ m.given ≤ m'.given := by
  have hspend : m.givesLeft = unlimited → spendGive m.givesLeft = unlimited :=
    fun hu => by rw [hu]; rfl
  cases h
  case spendStart | spendOwed => exact ⟨rfl, rfl, hspend, le_rfl⟩
  case replace => exact ⟨rfl, rfl, id, Nat.le_succ _⟩
  case release b => cases b <;> exact ⟨rfl, rfl, id, le_rfl⟩
  all_goals exact ⟨rfl, rfl, id, le_rfl⟩

end Step

section Run

variable [Fintype T] {m m' : Mem α} {pc' : Pc α} {loc : T → Pc α} {t : T}

theorem Places.placed (hi : Places m loc) (ht : Turns m loc) (t : T) : Placed m (loc t) where
  single := hi.series
  plain := hi.schedule
  noSchedule := hi.noSchedule t
  before hb := by
    have hpos := count_pos hb
    have hbefore := hi.before
    by_contra hne
    rw [decide_eq_false hne, Bool.toNat_false] at hbefore
    omega
  inRun hr := by
    have hpos := count_pos hr
    have hrun := hi.inRun
    cases ho : m.state.ongoing
    · rw [ho, Bool.toNat_false] at hrun
      omega
    · rfl
  ends := ht.finished_of_ends

theorem FreshSingle.places {s : Config T (Mem α) (Pc α)} (h : FreshSingle s) :
    Places s.mem s.loc where
  unlimited := h.givesLeft
  series := h.single
  schedule := by
    cases hs : s.mem.schedule
    · rfl
    · exact absurd (h.single.symm.trans (h.schedule hs)) nofun
  launched := h.launched
  noSchedule u := by rcases h.loc u with hl | hl | hl <;> rw [hl] <;> rfl
  before := by
    rw [h.queued, h.state, count_eq_zero.mpr fun u => ?_]
    · rfl
    · rcases h.loc u with hl | hl | hl <;> rw [hl] <;> rfl
  inRun := by
    rw [h.state, count_eq_zero.mpr fun u => ?_]
    · rfl
    · rcases h.loc u with hl | hl | hl <;> rw [hl] <;> rfl

variable [DecidableEq T]

/-- **A step keeps the turn in its place.** -/
theorem Places.step (hi : Places m loc) (ht : Turns m loc) (h : Step m (loc t) m' pc')
    (hstart : (∃ k, loc t = .start k) ∨ loc t = .again → pc'.ends = false) :
    Places m' (update loc t pc') := by
  have hp := hi.placed ht t
  obtain ⟨hseries, hsched, hlimit, -⟩ := h.setup
  obtain ⟨hlaunched, hplain⟩ := h.noSchedule hp hi.launched
  obtain ⟨hturn, hrunning⟩ := h.places hp hstart
  refine ⟨hlimit hi.unlimited, hseries.trans hi.series, hsched.trans hi.schedule, hlaunched,
    forall_update (P := (Pc.ofSchedule · = false)) hplain fun u _ => hi.noSchedule u, ?_, ?_⟩
  · have hc := count_update Pc.beforeBegin loc t pc'
    have hbefore := hi.before
    omega
  · have hc := count_update Pc.inRun loc t pc'
    have hrun := hi.inRun
    omega

/-- What holds in every interleaving of single runs. -/
theorem places_of_reach {s : Config T (Mem α) (Pc α)}
    (hs : (machine α).Reach FreshSingle PoolTakes s) :
    Turns s.mem s.loc ∧ Values s.mem s.loc ∧ Places s.mem s.loc :=
  hs.invariant (I := fun s => Turns s.mem s.loc ∧ Values s.mem s.loc ∧ Places s.mem s.loc)
    (fun _ h => ⟨h.turns, h.values, h.places⟩)
    fun _ _ _ _ _ hi hok hn =>
      ⟨hi.1.step (next_step hn), hi.2.1.step hi.1 (next_step hn),
        hi.2.2.step hi.1 (next_step hn) (not_ends_of_next hn hok)⟩

end Run

/-! ### A run that is owed begins -/

section Owed

variable {m m' : Mem α} {pc pc' : Pc α}

theorem pending_of_owesRun (ho : m.state.owesRun = true) (hr : m.state.ongoing = true) :
    m.state = .pending := by
  revert ho hr
  cases m.state <;> decide

/-- **While a run is owed**, a step begins it, brings the turn nearer to its beginning, or is
none of the turn's. -/
theorem Step.owes (h : Step m pc m' pc') (hp : Placed m pc) (ho : m.state.owesRun = true)
    (hstart : (∃ k, pc = .start k) ∨ pc = .again → pc'.ends = false) :
    pc = .prepare true ∧ pc' = .copy true ∨
      m'.state.owesRun = true ∧ (3 * m'.queued + pc'.rank < 3 * m.queued + pc.rank ∨
        m'.queued = m.queued ∧ pc.rank = 0 ∧ pc'.rank = 0) := by
  have hpend : pc.inRun = true → m.state = .pending :=
    fun hr => pending_of_owesRun ho (hp.inRun hr)
  have hrank : ∀ {q a b : ℕ}, a < b → 3 * q + a < 3 * q + b := fun hab => by omega
  cases h
  -- The run begins.
  case begin d h =>
    cases d
    · cases hp.noSchedule
    · exact .inl ⟨rfl, rfl⟩
  case beginLost d h =>
    cases d
    · cases hp.noSchedule
    · exact absurd (hp.before rfl) h
  -- The turn moves on.
  case spendStart => exact .inr ⟨ho, .inl (hrank (show 4 < 5 by decide))⟩
  case start | again =>
    exact .inr ⟨ho, .inl (show 3 * (m.queued + 1) + 0 < 3 * m.queued + 4 by omega)⟩
  case pickRun h _ =>
    exact .inr ⟨ho, .inl (show 3 * (m.queued - 1) + 2 < 3 * m.queued + 0 by omega)⟩
  case copy d =>
    cases d
    · cases hp.noSchedule
    · exact .inr ⟨ho, .inl (hrank (show 10 < 11 by decide))⟩
  case runOver => exact .inr ⟨ho, .inl (hrank (show 6 < 10 by decide))⟩
  case afterPending => exact .inr ⟨ho, .inl (hrank (show 5 < 6 by decide))⟩
  case owedWon => exact .inr ⟨rfl, .inl (hrank (show 4 < 5 by decide))⟩
  case limitOver => exact .inr ⟨ho, .inl (hrank (show 7 < 9 by decide))⟩
  case limitOpen => exact .inr ⟨ho, .inl (hrank (show 8 < 9 by decide))⟩
  case givers => exact .inr ⟨ho, .inl (hrank (show 7 < 8 by decide))⟩
  case endLost => exact .inr ⟨ho, .inl (hrank (show 6 < 7 by decide))⟩
  -- The gate is not where these steps would find it.
  case moveWon k saw h => rw [h] at ho; cases saw <;> cases ho
  case startRefused k => cases hstart (.inl ⟨k, rfl⟩)
  case againRefused => cases hstart (.inr rfl)
  case closeWon h | recloseWon h | afterWaiting h | afterFinished h => rw [h] at ho; cases ho
  case pickSeries h hs => exact absurd (hp.plain.symm.trans hs) nofun
  case more h => exact absurd (hp.single.symm.trans h) nofun
  case afterOngoing saw h | overWon saw h | waitWon saw h =>
    cases saw <;> exact absurd ((hpend rfl).symm.trans h) nofun
  case owedLost h => exact absurd (hpend rfl) h
  case finish b => rw [hp.ends rfl] at ho; cases ho
  case launch | seriesOver | copyOver | dropFinished | dropOpen | dropClear =>
    cases hp.noSchedule
  case release b => cases b <;> exact .inr ⟨ho, .inr ⟨rfl, rfl, rfl⟩⟩
  all_goals exact .inr ⟨ho, .inr ⟨rfl, rfl, rfl⟩⟩

theorem rank_of_pick (h : next m pc .pick = some (m', pc')) (hs : m.schedule = false) :
    pc'.rank ≠ 0 := by
  cases pc
  case worker =>
    obtain ⟨-, h⟩ := Option.ite_none_right_eq_some.mp h
    obtain ⟨-, rfl⟩ := Prod.mk.inj (Option.some.inj h)
    rw [hs]
    exact nofun
  case spend k saw => cases saw <;> cases h
  case execute d => cases d <;> cases h
  all_goals cases h

/-- The gate has taken the value `k`. -/
def Accepted (s : Config T (Mem α) (Pc α)) (k : ℕ) : Prop :=
  s.mem.verdict k = some true ∨ ∃ t, (s.loc t).won = some k

theorem Step.won (h : Step m pc m' pc') {k : ℕ} (hk : pc'.won = some k) :
    pc.won = some k ∨ m'.state.owesRun = true := by
  cases h
  case moveWon l saw h => exact .inr (by cases saw <;> rfl)
  case spendStart => exact .inl hk
  case release b => cases b <;> cases hk
  all_goals cases hk

theorem Step.verdict (h : Step m pc m' pc') (hs : m.series = false) {k : ℕ}
    (hk : m'.verdict k = some true) :
    m.verdict k = some true ∨ pc.won = some k ∨ m'.state.owesRun = true := by
  have hother : ∀ {l b}, update m.verdict l (some b) k = some true → l ≠ k →
      m.verdict k = some true := fun hk hne => by rwa [update_of_ne hne.symm] at hk
  have hrefuse : ∀ {l}, update m.verdict l (some false) k = some true →
      m.verdict k = some true := fun hk => hother hk fun hlk => by
    subst hlk
    rw [update_self] at hk
    cases hk
  cases h
  case lookReplaced l h =>
    rcases h with h | h | ⟨-, h⟩
    · exact .inr (.inr (show m.state.owesRun = true by rw [h]; rfl))
    · exact .inr (.inr (show m.state.owesRun = true by rw [h]; rfl))
    · exact absurd (hs.symm.trans h) nofun
  case lookClosed | limitSpent => exact .inl (hrefuse hk)
  case spendOwed l | start l =>
    rcases eq_or_ne l k with rfl | hne
    · exact .inr (.inl rfl)
    · exact .inl (hother hk hne)
  case release b =>
    cases b
    case refused l => exact .inl (hrefuse hk)
    all_goals exact .inl hk
  all_goals exact .inl hk

/-- **A value newly taken leaves a run owed.** -/
theorem Step.accepted [DecidableEq T] {loc : T → Pc α} {t : T} (h : Step m (loc t) m' pc')
    (hs : m.series = false) {k : ℕ} (hk : Accepted ⟨m', update loc t pc'⟩ k) :
    Accepted ⟨m, loc⟩ k ∨ m'.state.owesRun = true := by
  rcases hk with hk | ⟨u, hu⟩
  · rcases h.verdict hs hk with hold | hwon | howes
    · exact .inl (.inl hold)
    · exact .inl (.inr ⟨t, hwon⟩)
    · exact .inr howes
  · change (update loc t pc' u).won = some k at hu
    rcases eq_or_ne u t with rfl | hne
    · rw [update_self] at hu
      exact (h.won hu).imp_left fun hwon => .inr ⟨u, hwon⟩
    · rw [update_of_ne hne] at hu
      exact .inl (.inr ⟨u, hu⟩)

theorem Values.lt_of_accepted {loc : T → Pc α} (hi : Values m loc) {k : ℕ}
    (hk : Accepted ⟨m, loc⟩ k) : k < m.given := by
  rcases hk with hk | ⟨u, hu⟩
  · exact hi.gives.lt_of_answer (by rw [show m.verdict k = some true from hk]; exact nofun)
  · refine (hi.gives.unanswered u k ?_).1
    change (loc u).won = some k at hu
    cases hpc : loc u <;> rw [hpc] at hu <;> first | exact hu | cases hu

end Owed

/-! ### Fair runs -/

section Fair

variable [Fintype T] [DecidableEq T]

/-- What has to go on: `some t`, the call or the run thread `t` is in; `none`, the run that is
queued. -/
def Waits (c : Option T) (s : Config T (Mem α) (Pc α)) : Prop :=
  match c with
  | some t => (s.loc t).busy = true
  | none => 0 < s.mem.queued

/-- The steps that take it on. -/
def GoesOn (c : Option T) (_ : Config T (Mem α) (Pc α)) (t : T) (a : Act α) : Prop :=
  match c with
  | some u => t = u
  | none => a = .pick

/-- Every call and every run goes on, and what is queued is picked up. -/
def Scheduled (τ : (machine α).Trace (T := T) FreshSingle PoolTakes) : Prop :=
  ∀ c, τ.WeaklyFair (Waits c) (GoesOn c)

variable {m : Mem α} {loc : T → Pc α} {τ : (machine α).Trace (T := T) FreshSingle PoolTakes}

/-- Thread `t` begins a run at time `j`. -/
def Begins (τ : (machine α).Trace (T := T) FreshSingle PoolTakes) (t : T) (j : ℕ) : Prop :=
  (τ.st j).loc t = .prepare true ∧ (τ.st (j + 1)).loc t = .copy true

/-- **A step of a trace while a run is owed.** -/
theorem owes_step {j : ℕ} {t : T} {a : Act α} (hl : τ.lab j = some (t, a))
    (ho : (τ.st j).mem.state.owesRun = true) :
    Begins τ t j ∨ (τ.st (j + 1)).mem.state.owesRun = true ∧
      (3 * (τ.st (j + 1)).mem.queued + total Pc.rank (τ.st (j + 1)).loc <
          3 * (τ.st j).mem.queued + total Pc.rank (τ.st j).loc ∨
        3 * (τ.st (j + 1)).mem.queued + total Pc.rank (τ.st (j + 1)).loc =
            3 * (τ.st j).mem.queued + total Pc.rank (τ.st j).loc ∧
          ((τ.st (j + 1)).mem.queued = (τ.st j).mem.queued ∧ a ≠ .pick ∧
            ((τ.st j).loc t).rank = 0)) := by
  obtain ⟨hturns, -, hplaces⟩ := places_of_reach (τ.reach j)
  obtain ⟨hok, hf⟩ := τ.step j t a hl
  obtain ⟨m', pc', hn, hs⟩ := Machine.fire_eq_some.mp hf
  have htotal := total_update_add Pc.rank (τ.st j).loc t pc'
  have hstep := (next_step hn).owes (hplaces.placed hturns t) ho (not_ends_of_next hn hok)
  rw [Begins, hs]
  rcases hstep with ⟨hpc, rfl⟩ | ⟨howes, hlt | ⟨hq, hr, hr'⟩⟩
  · exact .inl ⟨hpc, update_self ..⟩
  · exact .inr ⟨howes, .inl (by dsimp only; omega)⟩
  · refine .inr ⟨howes, .inr ⟨by dsimp only; omega, hq, ?_, hr⟩⟩
    rintro rfl
    exact rank_of_pick hn hplaces.schedule hr'

/-- Steps of the kind `c` bring the turn nearer to the run's beginning. -/
def Helps (c : Option T) (s : Config T (Mem α) (Pc α)) : Prop :=
  match c with
  | some t => (s.loc t).rank ≠ 0
  | none => 0 < s.mem.queued

omit [Fintype T] [DecidableEq T] in
theorem Helps.waits {c : Option T} {s : Config T (Mem α) (Pc α)} (h : Helps c s) :
    Waits c s := by
  cases c with
  | none => exact h
  | some t =>
    change (s.loc t).rank ≠ 0 at h
    change (s.loc t).busy = true
    cases hpc : s.loc t <;> rw [hpc] at h <;> first | rfl | exact absurd rfl h

omit [Fintype T] [DecidableEq T] in
theorem Pc.rank_ne_zero {pc : Pc α} (h : pc.beforeBegin = true ∨ pc.inRun = true) :
    pc.rank ≠ 0 := by
  rcases h with h | h
  · unfold Pc.beforeBegin at h
    split at h <;> first | exact Nat.succ_ne_zero _ | cases h
  · unfold Pc.inRun at h
    split at h <;> first | exact Nat.succ_ne_zero _ | cases h

omit [DecidableEq T] in
/-- The turn is in the queue or with a thread. -/
theorem Places.helps {s : Config T (Mem α) (Pc α)} (hi : Places s.mem s.loc)
    (ho : s.mem.state.owesRun = true) : ∃ c, Helps c s := by
  rcases Nat.eq_zero_or_pos s.mem.queued with hq | hq
  · cases hg : s.mem.state <;> rw [hg] at ho <;> cases ho
    · have hpos : 0 < count Pc.beforeBegin s.loc := by
        have hbefore := hi.before
        rw [hq, hg, Nat.zero_add] at hbefore
        rw [hbefore]
        exact Nat.one_pos
      obtain ⟨t, ht⟩ := exists_of_count_pos hpos
      exact ⟨some t, Pc.rank_ne_zero (.inl ht)⟩
    · have hpos : 0 < count Pc.inRun s.loc := by
        rw [hi.inRun, hg]
        exact Nat.one_pos
      obtain ⟨t, ht⟩ := exists_of_count_pos hpos
      exact ⟨some t, Pc.rank_ne_zero (.inr ht)⟩
  · exact ⟨none, hq⟩

/-- A step from `prepare` begins the run. -/
theorem begins_of_step {t : T} {j : ℕ} {a : Act α} (hl : τ.lab j = some (t, a))
    (hpc : (τ.st j).loc t = .prepare true) : Begins τ t j := by
  obtain ⟨m', pc', hn, hs⟩ := Machine.fire_eq_some.mp (τ.step j t a hl).2
  refine ⟨hpc, ?_⟩
  have hstep := next_step hn
  rw [hpc] at hstep
  rw [hs]
  show update (τ.st j).loc t pc' t = _
  rw [update_self]
  cases hstep <;> rfl

/-- A step that is none of the turn's leaves alone what helps it. -/
theorem helps_step {t : T} {c : Option T} {j : ℕ} {a : Act α} (hl : τ.lab j = some (t, a))
    (hq : (τ.st (j + 1)).mem.queued = (τ.st j).mem.queued) (ha : a ≠ .pick)
    (hr : ((τ.st j).loc t).rank = 0) (hc : Helps c (τ.st j)) :
    Helps c (τ.st (j + 1)) ∧ ¬ GoesOn c (τ.st j) t a := by
  cases c with
  | none => exact ⟨show 0 < (τ.st (j + 1)).mem.queued from hq ▸ hc, ha⟩
  | some u =>
    have hne : t ≠ u := by
      rintro rfl
      exact hc hr
    have hstay := τ.loc_succ (i := j) (t := u) fun c hc => by
      rw [hl] at hc
      exact hne (Prod.mk.inj (Option.some.inj hc)).1
    refine ⟨?_, hne⟩
    show ((τ.st (j + 1)).loc u).rank ≠ 0
    rw [hstay]
    exact hc

/-- **A run that is owed begins.** -/
theorem owes_leads_to_begin (hfair : Scheduled τ) {n : ℕ}
    (ho : (τ.st n).mem.state.owesRun = true) : ∃ t j, n ≤ j ∧ Begins τ t j := by
  have hstep : ∀ j t a, (τ.st j).mem.state.owesRun = true → τ.lab j = some (t, a) →
      (τ.st j).loc t = .prepare true ∨ (τ.st (j + 1)).mem.state.owesRun = true ∧
        (3 * (τ.st (j + 1)).mem.queued + total Pc.rank (τ.st (j + 1)).loc <
            3 * (τ.st j).mem.queued + total Pc.rank (τ.st j).loc ∨
          3 * (τ.st (j + 1)).mem.queued + total Pc.rank (τ.st (j + 1)).loc =
              3 * (τ.st j).mem.queued + total Pc.rank (τ.st j).loc ∧
            ∀ c, Helps c (τ.st j) → Helps c (τ.st (j + 1)) ∧ ¬ GoesOn c (τ.st j) t a) := by
    intro j t a hoj hl
    rcases owes_step hl hoj with hb | ⟨ho', hlt | ⟨heq, hq, ha, hr⟩⟩
    · exact .inl hb.1
    · exact .inr ⟨ho', .inl hlt⟩
    · exact .inr ⟨ho', .inr ⟨heq, fun c hc => helps_step hl hq ha hr hc⟩⟩
  obtain ⟨j, t, a, hnj, hl, -, hpc⟩ := Machine.Trace.leads_to
    (Q := fun s => s.mem.state.owesRun = true) (G := fun s t _ => s.loc t = .prepare true)
    (φ := fun s => 3 * s.mem.queued + total Pc.rank s.loc) (H := Helps) hfair
    (fun j => (places_of_reach (τ.reach j)).2.2.helps) (fun _ _ => Helps.waits) hstep ho
  exact ⟨t, j, hnj, begins_of_step hl hpc⟩

/-- A value taken has had a run begin since it was left, or is owed one. -/
theorem accepted_owes {k : ℕ} (n : ℕ) (hk : Accepted (τ.st n) k) :
    (∃ t j, Begins τ t j ∧ k < (τ.st j).mem.given) ∨ (τ.st n).mem.state.owesRun = true := by
  induction n with
  | zero =>
    have hlt := τ.init.values.lt_of_accepted hk
    rw [τ.init.given] at hlt
    exact absurd hlt (Nat.not_lt_zero k)
  | succ n ih =>
    cases hl : τ.lab n with
    | none =>
      rw [τ.idle n hl] at hk ⊢
      exact ih hk
    | some ta =>
      obtain ⟨t, a⟩ := ta
      obtain ⟨-, hvalues, hplaces⟩ := places_of_reach (τ.reach n)
      obtain ⟨m', pc', hn, hs⟩ := Machine.fire_eq_some.mp (τ.step n t a hl).2
      have hold : Accepted (τ.st n) k ∨ (τ.st (n + 1)).mem.state.owesRun = true := by
        rw [hs] at hk ⊢
        exact (next_step hn).accepted hplaces.series hk
      rcases hold with hold | howes
      · rcases ih hold with hbegun | ho
        · exact .inl hbegun
        · rcases owes_step hl ho with hb | ⟨ho', -⟩
          · exact .inl ⟨t, n, hb, hvalues.lt_of_accepted hold⟩
          · exact .inr ho'
      · exact .inr howes

theorem given_mono {i j : ℕ} (hij : i ≤ j) : (τ.st i).mem.given ≤ (τ.st j).mem.given := by
  refine τ.persists (Q := fun s => (τ.st i).mem.given ≤ s.mem.given) le_rfl
    (fun j t a _ hl ih => ?_) hij
  obtain ⟨m', pc', hn, hs⟩ := Machine.fire_eq_some.mp (τ.step j t a hl).2
  rw [hs]
  exact ih.trans (next_step hn).setup.2.2.2

/-- A run that begins copies the mailbox, with nothing older than what was there when it
began. -/
theorem begins_copies (hfair : Scheduled τ) {t : T} {j : ℕ} (hb : Begins τ t j) {k : ℕ}
    (hk : k < (τ.st j).mem.given) :
    ∃ l, j < l ∧ (∀ x, j < x → x ≤ l → (τ.st x).loc t = .copy true) ∧
      (τ.st (l + 1)).loc t = .execute true ∧
      ∃ k' x, k ≤ k' ∧ (τ.st l).mem.box = some (k', x) ∧
        (τ.st (l + 1)).mem.handed k' = true := by
  obtain ⟨l, a, hjl, hl, hstay⟩ := Machine.Trace.eventually_step (b := Pc.busy)
    (hfair (some t)) (i := j + 1) (by rw [hb.2]; rfl)
  have hcopy : (τ.st l).loc t = .copy true := (hstay l hjl le_rfl).trans hb.2
  obtain ⟨hturns, hvalues, hplaces⟩ := places_of_reach (τ.reach l)
  obtain ⟨m', pc', hn, hs⟩ := Machine.fire_eq_some.mp (τ.step l t a hl).2
  have hstep := next_step hn
  rw [hcopy] at hstep
  refine ⟨l, hjl, fun x hjx hxl => (hstay x hjx hxl).trans hb.2, ?_, ?_⟩
  all_goals rw [hs]
  · show update (τ.st l).loc t pc' t = _
    rw [update_self]
    cases hstep
    rfl
  · have hgiven := given_mono (τ := τ) (Nat.le_of_lt hjl)
    -- The gate is not finished during the run, so the mailbox was not emptied.
    have hopen : (τ.st l).mem.state ≠ .finished := fun hf => by
      have hrun := (hplaces.placed hturns t).inRun (by rw [hcopy]; rfl)
      rw [hf] at hrun
      cases hrun
    cases hbox : (τ.st l).mem.box with
    | none => exact absurd hbox (hvalues.kept (by omega) hopen)
    | some kx =>
      have := hvalues.latest kx.1 kx.2 hbox
      refine ⟨kx.1, kx.2, by omega, rfl, ?_⟩
      cases hstep
      simp [Mem.handOver, hbox]

omit [DecidableEq T] in
theorem Places.count_underWay (hi : Places m loc) (ht : Turns m loc) :
    m.queued + m.launched + count Pc.underWay loc ≤ 1 := by
  have hle : count Pc.underWay loc ≤ count Pc.drives loc :=
    count_le_of_forall fun u hu => Pc.drives_of_underWay hu (hi.noSchedule u)
  have hturn := ht.turn
  have hone := Bool.toNat_le m.state.owed
  have hlaunched := hi.launched
  omega

/-- **One run at a time, and no give lost.** -/
theorem one_run_and_no_lost_give :
    (∀ s : Config T (Mem α) (Pc α), (machine α).Reach FreshSingle PoolTakes s →
      s.mem.queued + s.mem.launched + count Pc.underWay s.loc ≤ 1) ∧
    ∀ τ : (machine α).Trace (T := T) FreshSingle PoolTakes, Scheduled τ →
      ∀ i k, (τ.st i).mem.verdict k = some true →
        ∃ t j l, Begins τ t j ∧ k < (τ.st j).mem.given ∧ j < l ∧
          (∀ x, j < x → x ≤ l → (τ.st x).loc t = .copy true) ∧
          (τ.st (l + 1)).loc t = .execute true ∧
          ∃ k' x, k ≤ k' ∧ (τ.st l).mem.box = some (k', x) ∧
            (τ.st (l + 1)).mem.handed k' = true := by
  constructor
  · intro s hs
    obtain ⟨hturns, -, hplaces⟩ := places_of_reach hs
    exact hplaces.count_underWay hturns
  · intro τ hfair i k hk
    have hbegun : ∃ t j, Begins τ t j ∧ k < (τ.st j).mem.given := by
      rcases accepted_owes i (.inl hk) with hbegun | ho
      · exact hbegun
      · obtain ⟨t, j, hij, hb⟩ := owes_leads_to_begin hfair ho
        have hlt := (places_of_reach (τ.reach i)).2.1.lt_of_accepted (.inl hk)
        exact ⟨t, j, hb, hlt.trans_le (given_mono hij)⟩
    obtain ⟨t, j, hb, hlt⟩ := hbegun
    obtain ⟨l, hjl, hcopy, hexec, hbox⟩ := begins_copies hfair hb hlt
    exact ⟨t, j, l, hb, hlt, hjl, hcopy, hexec, hbox⟩

end Fair

theorem threeGivers_freshSingle : FreshSingle (threeGivers unlimited) where
  toFresh := threeGivers_fresh unlimited
  single := rfl

/-- One give, its run, and the gate waiting again. -/
def giveAndRun : List (Fin 4 × Act ℕ) :=
  giving 1 10 7 ++ (0, .pick) :: List.replicate 8 (0, .go)

theorem one_run_and_no_lost_give_threeGivers :
    ∃ τ : (machine ℕ).Trace (T := Fin 4) FreshSingle PoolTakes, Scheduled τ ∧
      ∃ i, (τ.st i).mem.verdict 0 = some true ∧
        (τ.st i).mem.queued + (τ.st i).mem.launched + count Pc.underWay (τ.st i).loc ≤ 1 ∧
        ∃ t j l, Begins τ t j ∧ 0 < (τ.st j).mem.given ∧ j < l ∧
          (τ.st (l + 1)).loc t = .execute true ∧ ∃ k', (τ.st (l + 1)).mem.handed k' = true := by
  have hrun : ((machine ℕ).run PoolTakes (threeGivers unlimited) giveAndRun).isSome = true := by
    decide
  have hend : ((machine ℕ).run PoolTakes (threeGivers unlimited) giveAndRun).all (fun s =>
      s.mem.queued == 0 && decide (∀ t, (s.loc t).busy = false)) = true := by
    decide
  have hfair : Scheduled (.ofRun giveAndRun threeGivers_freshSingle hrun) := by
    refine fun c => Machine.Trace.ofRun_weaklyFair _ _ fun s hs hw => ?_
    rw [hs] at hend
    obtain ⟨hq, hidle⟩ : s.mem.queued = 0 ∧ ∀ t, (s.loc t).busy = false := by simpa using hend
    cases c with
    | none => exact hw.ne' hq
    | some t => exact absurd (hw.symm.trans (hidle t)) nofun
  have hmain := one_run_and_no_lost_give (T := Fin 4) (α := ℕ)
  refine ⟨_, hfair, 8, rfl, hmain.1 _ (Machine.Trace.reach _ 8), ?_⟩
  obtain ⟨t, j, l, hb, hgiven, hjl, -, hexec, k', -, -, -, hhanded⟩ := hmain.2 _ hfair 8 0 rfl
  exact ⟨t, j, l, hb, hgiven, hjl, hexec, k', hhanded⟩

end Atap.Gate
