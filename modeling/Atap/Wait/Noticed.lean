import Atap.Interleave.Owned
import Atap.Wait.Machine

/-!
# A stop reaches the wait it is for, and no other

The record of a wait goes through three phases. It names the queue; a stop has taken it, and the
waiter cannot leave; or the stop has let go of it, and the queue has been poked (`Record`). As
nobody but the runner makes the first record, and nobody but the one who stopped the task takes it,
what a stop calls on is always the queue of the wait that is on.

* `Record.step`: the record, the waiter and the stop agree after every step.
* `Missed.step`: a waiter in the kernel whose task has been stopped has a trigger waiting for it, or
  a stop on its way to put it there.
* `stop_reaches`: both, of every run.
-/

namespace Atap.Wait

open Function (update update_of_ne update_self)

variable {T : Type*} {s : Config T Mem Local} {t : T} {m' : Mem} {l' : Local}

/-- Who runs the task, who has stopped it, and whose the queues are. -/
structure Base (s : Config T Mem Local) : Prop where
  runs : ∀ t u, (s.loc t).pc.runs = true → (s.loc u).pc.runs = true → t = u
  held : ∀ t, (s.loc t).pc.runs = true → s.mem.held = true
  won : ∀ t u, (s.loc t).pc.won = true → (s.loc u).pc.won = true → t = u
  stopped : ∀ t, (s.loc t).pc.won = true → s.mem.state.stopped = true
  saw : ∀ t, ∀ saw ∈ (s.loc t).pc.saw, saw.stopped = false
  queue : ∀ t, (s.loc t).pc.waits = true → (s.loc t).queue ≠ none
  own : Owned s.mem.opened fun t => (s.loc t).queue

/-- What the record of a wait has to do with the waiter and with who took it. -/
structure Record (s : Config T Mem Local) : Prop where
  /-- Nothing is recorded but by a waiter. -/
  free : s.mem.waiting ≠ .no → ∃ t, (s.loc t).pc.recorded = true
  /-- The record of a waiter names its queue, has been taken, or was let go by a stop. -/
  phase : ∀ t q, (s.loc t).pc.recorded = true → (s.loc t).queue = some q →
    s.mem.waiting = .on q ∨ s.mem.waiting = .cancelling ∨
      s.mem.waiting = .no ∧ s.mem.state.stopped = true
  /-- What was taken is the record of the wait that is on. -/
  holds : ∀ u q w, (s.loc u).pc.holds = some (q, w) → s.mem.waiting = .cancelling ∧
    w = s.mem.waits ∧ ∃ t, (s.loc t).pc.recorded = true ∧ (s.loc t).queue = some q
  taken : s.mem.waiting = .cancelling → ∃ u, (s.loc u).pc.holds ≠ none

/-- A stop is on its way to a waiter in the kernel, or has been there. -/
structure Missed (s : Config T Mem Local) : Prop where
  named : ∀ t q, (s.loc t).pc = .kernel → (s.loc t).queue = some q → s.mem.waiting = .on q →
    s.mem.state.stopped = true → ∃ u, (s.loc u).pc.claims = true
  poked : ∀ t q, (s.loc t).pc = .kernel → (s.loc t).queue = some q →
    (∃ u, (s.loc u).pc.releases = true) ∨ s.mem.waiting = .no → s.mem.triggered q = true

/-! ### Who and whose -/

theorem Pc.runs_of_recorded {pc : Pc} (h : pc.recorded = true) : pc.runs = true := by
  cases pc <;> first | rfl | cases h

theorem Pc.recorded_of_clears {pc : Pc} (h : pc.clears = true) : pc.recorded = true := by
  cases pc <;> first | rfl | cases h

theorem Pc.waits_of_recorded {pc : Pc} (h : pc.recorded = true) : pc.waits = true := by
  cases pc <;> first | rfl | cases h

theorem Pc.won_of_claims {pc : Pc} (h : pc.claims = true) : pc.won = true := by
  cases pc <;> first | rfl | cases h

theorem Pc.won_of_holds {pc : Pc} (h : pc.holds ≠ none) : pc.won = true := by
  cases pc <;> first | rfl | exact absurd rfl h

theorem Pc.holds_of_recorded {pc : Pc} (h : pc.recorded = true) : pc.holds = none := by
  cases pc <;> first | rfl | cases h

theorem Pc.of_plain {pc : Pc} (h : pc.plain = true) : pc.recorded = false ∧ pc.holds = none := by
  cases pc <;> first | exact ⟨rfl, rfl⟩ | cases h

theorem Pc.claims_of_plain {pc : Pc} (h : pc.plain = true) : pc.claims = false := by
  cases pc <;> first | rfl | cases h

theorem Pc.of_claims {pc : Pc} (h : pc.claims = true) : pc.recorded = false ∧ pc.holds = none := by
  cases pc <;> first | exact ⟨rfl, rfl⟩ | cases h

theorem Pc.eq_of_claims {pc : Pc} (h : pc.claims = true) :
    pc = .claimLoad ∨ ∃ q, pc = .claimSwap q := by
  cases pc with
  | claimLoad => exact .inl rfl
  | claimSwap q => exact .inr ⟨q, rfl⟩
  | _ => cases h

theorem Pc.eq_of_clears {pc : Pc} (h : pc.clears = true) :
    (∃ left, pc = .clear left) ∨ ∃ left saw, pc = .clearSwap left saw := by
  cases pc with
  | clear left => exact .inl ⟨left, rfl⟩
  | clearSwap left saw => exact .inr ⟨left, saw, rfl⟩
  | _ => cases h

theorem Pc.holds_of_releases {pc : Pc} (h : pc.releases = true) : pc.holds ≠ none := by
  cases pc <;> first | (cases h; done) | exact Option.some_ne_none _

namespace Step

variable {m : Mem} {l : Local}

/-- A task is taken up only when nobody runs it. -/
theorem runs (h : Step m l m' l') (hr : l'.pc.runs = true) :
    l.pc.runs = true ∨ m.held = false ∧ m'.held = true := by
  cases h with
  | create q hpc | close q hpc => exact .inl hr
  | begin hpc hh hs => exact .inr ⟨hh, rfl⟩
  | plain pc hp hp' heq => exact .inl (heq ▸ hr)
  | record q hpc | wake q hpc => exact .inl (hpc ▸ rfl)
  | enter hpc => exact .inl (by obtain hpc | hpc := hpc <;> exact hpc ▸ rfl)
  | leave q f left hpc => exact .inl (Pc.runs_of_recorded hpc)
  | spin pc hpc | cleared pc hpc => exact .inl (Pc.runs_of_recorded (Pc.recorded_of_clears hpc))
  | seek pc hpc hpc' => obtain rfl | ⟨q, rfl⟩ := Pc.eq_of_claims hpc' <;> cases hr
  | _ => cases hr

/-- Whether the task is run changes only with the run. -/
theorem held (h : Step m l m' l') :
    m'.held = m.held ∨ m'.held = true ∨ l.pc.runs = true ∧ l'.pc.runs = false := by
  cases h with
  | begin => exact .inr (.inl rfl)
  | finish hpc => exact .inr (.inr ⟨hpc ▸ rfl, rfl⟩)
  | record q =>
    refine .inl ?_
    split <;> rfl
  | _ => exact .inl rfl

/-- A step leaves the state as stopped as it was, or it stops the task. -/
theorem stopped_eq (h : Step m l m' l') : m'.state.stopped = m.state.stopped ∨
    m'.state.stopped = true ∧ l'.pc.claims = true ∧ ∃ saw ∈ l.pc.saw, m.state = saw := by
  cases h with
  | begin hpc hh hs =>
    refine .inl ?_
    simp only [startable, Bool.or_eq_true, beq_iff_eq] at hs
    obtain (hs | hs) | hs := hs <;> rw [hs] <;> rfl
  | finish hpc =>
    refine .inl ?_
    dsimp only
    split
    · rename_i hs
      rw [hs]
      rfl
    · rfl
  | stopped why saw hpc hs => exact .inr ⟨why.stopped_state, rfl, saw, hpc ▸ rfl, hs⟩
  | record q =>
    refine .inl ?_
    split <;> rfl
  | _ => exact .inl rfl

/-- A stopped task stays stopped, as no stop goes by a stopped state. -/
theorem stopped_mono (h : Step m l m' l') (hs : m.state.stopped = true) :
    m'.state.stopped = true := by
  obtain he | ⟨he, -⟩ := h.stopped_eq
  · rw [he, hs]
  · exact he

/-- A stop is won by the exchange of the state. -/
theorem won (h : Step m l m' l') (hw : l'.pc.won = true) :
    l.pc.won = true ∨ m'.state.stopped = true ∧ ∃ saw ∈ l.pc.saw, m.state = saw := by
  cases h with
  | create q hpc | close q hpc => exact .inl hw
  | plain pc hp hp' =>
    simp only [Pc.plain, hw, Bool.not_true, Bool.and_false] at hp'
    cases hp'
  | spin pc hpc hpc' =>
    obtain ⟨left, rfl⟩ | ⟨left, saw, rfl⟩ := Pc.eq_of_clears hpc' <;> cases hw
  | cleared pc hpc hpc' => obtain rfl | rfl := hpc' <;> cases hw
  | stopped why saw hpc hs => exact .inr ⟨why.stopped_state, saw, hpc ▸ rfl, hs⟩
  | seek pc hpc => exact .inl (Pc.won_of_claims hpc)
  | claim q hpc | delete q w hpc | trigger q w hpc => exact .inl (hpc ▸ rfl)
  | _ => cases hw

/-- What a stop has loaded was not stopped. -/
theorem saw (h : Step m l m' l') {x : TaskState} (hx : x ∈ l'.pc.saw) :
    x ∈ l.pc.saw ∨ x.stopped = false := by
  cases h with
  | create q hpc | close q hpc => exact .inl hx
  | plain pc hp hp' hr hq hs => exact .inr (hs x hx)
  | spin pc hpc hpc' =>
    obtain ⟨left, rfl⟩ | ⟨left, saw, rfl⟩ := Pc.eq_of_clears hpc' <;> cases hx
  | cleared pc hpc hpc' => obtain rfl | rfl := hpc' <;> cases hx
  | seek pc hpc hpc' => obtain rfl | ⟨q, rfl⟩ := Pc.eq_of_claims hpc' <;> cases hx
  | _ => cases hx

/-- A thread that waits has a queue. -/
theorem waits (h : Step m l m' l') (hw : l'.pc.waits = true) :
    l'.queue ≠ none ∨ l'.queue = l.queue ∧ l.pc.waits = true := by
  have hkeep {q : ℕ} (hq : l.queue = some q) : l.queue ≠ none := hq ▸ Option.some_ne_none q
  cases h with
  | create q hpc => exact .inl (Option.some_ne_none q)
  | close q hpc =>
    rw [hpc] at hw
    cases hw
  | plain pc hp hp' hr hq => exact .inl (hq hw)
  | record q hpc hq | wake q hpc hq | leave q f left hpc hq => exact .inl (hkeep hq)
  | enter hpc => exact .inr ⟨rfl, by obtain hpc | hpc := hpc <;> exact hpc ▸ rfl⟩
  | spin pc hpc | cleared pc hpc =>
    exact .inr ⟨rfl, Pc.waits_of_recorded (Pc.recorded_of_clears hpc)⟩
  | seek pc hpc hpc' => obtain rfl | ⟨q, rfl⟩ := Pc.eq_of_claims hpc' <;> cases hw
  | _ => cases hw

/-- Queues are made and closed by their threads. -/
theorem queue (h : Step m l m' l') : Handed m.opened l.queue m'.opened l'.queue := by
  cases h with
  | create q hpc hq hf => exact .take q hf
  | close q hpc hq => exact .give q hq
  | record q =>
    split <;> exact .same
  | _ => exact .same

end Step

/-- Who runs the task, who stopped it and whose the queues are, after every step. -/
theorem Base.step [DecidableEq T] (hb : Base s) (h : Step s.mem (s.loc t) m' l') :
    Base ⟨m', update s.loc t l'⟩ := by
  have hfresh (hw : l'.pc.won = true) (hn : (s.loc t).pc.won = false) :
      s.mem.state.stopped = false ∧ m'.state.stopped = true := by
    obtain hw | ⟨hs, saw, hsaw, he⟩ := h.won hw
    · rw [hw] at hn
      cases hn
    · exact ⟨he ▸ hb.saw t saw hsaw, hs⟩
  refine ⟨?_, ?_, ?_, ?_, ?_, ?_, ?_⟩
  case refine_1 =>
    refine unique_update (p := fun l : Local => l.pc.runs) hb.runs ?_
    intro hr u hu
    refine Bool.eq_false_iff.mpr fun hru => ?_
    obtain hrt | ⟨hh, -⟩ := h.runs hr
    · exact hu (hb.runs u t hru hrt)
    · rw [hb.held u hru] at hh
      cases hh
  case refine_2 =>
    intro u hr
    by_cases hu : u = t
    · subst hu
      rw [Config.loc_self] at hr
      obtain hrt | ⟨-, hh⟩ := h.runs hr
      · obtain he | he | ⟨-, hnot⟩ := h.held
        · rw [he, hb.held u hrt]
        · exact he
        · rw [hr] at hnot
          cases hnot
      · exact hh
    · rw [Config.loc_of_ne hu] at hr
      have hh := hb.held u hr
      obtain he | he | ⟨hrt, -⟩ := h.held
      · rw [he, hh]
      · exact he
      · exact absurd (hb.runs u t hr hrt) hu
  case refine_3 =>
    refine unique_update (p := fun l : Local => l.pc.won) hb.won ?_
    intro hw u hu
    refine Bool.eq_false_iff.mpr fun hwu => ?_
    cases hn : (s.loc t).pc.won with
    | true => exact hu (hb.won u t hwu hn)
    | false =>
      have hs := hb.stopped u hwu
      rw [(hfresh hw hn).1] at hs
      cases hs
  case refine_4 =>
    intro u hw
    by_cases hu : u = t
    · subst hu
      rw [Config.loc_self] at hw
      cases hn : (s.loc u).pc.won with
      | true => exact h.stopped_mono (hb.stopped u hn)
      | false => exact (hfresh hw hn).2
    · rw [Config.loc_of_ne hu] at hw
      exact h.stopped_mono (hb.stopped u hw)
  case refine_5 =>
    intro u x hx
    by_cases hu : u = t
    · subst hu
      rw [Config.loc_self] at hx
      exact (h.saw hx).elim (hb.saw u x) id
    · rw [Config.loc_of_ne hu] at hx
      exact hb.saw u x hx
  case refine_6 =>
    intro u hw
    by_cases hu : u = t
    · subst hu
      rw [Config.loc_self] at hw ⊢
      obtain hq | ⟨he, hw⟩ := h.waits hw
      · exact hq
      · rw [he]
        exact hb.queue u hw
    · rw [Config.loc_of_ne hu] at hw ⊢
      exact hb.queue u hw
  case refine_7 => exact hb.own.step_of h.queue

/-! ### The record -/

namespace Record

/-- A waiter with no other in a wait finds nothing recorded. -/
theorem waiting_eq_no (hr : Record s) (hb : Base s) (ht : (s.loc t).pc.runs = true)
    (hn : (s.loc t).pc.recorded = false) : s.mem.waiting = .no := by
  by_contra hw
  obtain ⟨u, hu⟩ := hr.free hw
  obtain rfl := hb.runs u t (Pc.runs_of_recorded hu) ht
  rw [hu] at hn
  cases hn

/-- The record of a waiter that names a queue names its own. -/
theorem exists_waiter (hr : Record s) (hb : Base s) {q : ℕ} (hw : s.mem.waiting = .on q) :
    ∃ u, (s.loc u).pc.recorded = true ∧ (s.loc u).queue = some q := by
  obtain ⟨u, hu⟩ := hr.free (by rw [hw]; exact nofun)
  obtain ⟨q', hq'⟩ := Option.ne_none_iff_exists'.mp (hb.queue u (Pc.waits_of_recorded hu))
  obtain he | he | ⟨he, -⟩ := hr.phase u q' hu hq'
  · rw [hw] at he
    cases he
    exact ⟨u, hu, hq'⟩
  · rw [hw] at he
    cases he
  · rw [hw] at he
    cases he

variable [DecidableEq T]

/-- A step of a thread that leaves the record alone, and its own part in it. -/
theorem keep (hr : Record s) (hw : m'.waiting = s.mem.waiting) (hn : m'.waits = s.mem.waits)
    (hs : s.mem.state.stopped = true → m'.state.stopped = true)
    (hrec : l'.pc.recorded = (s.loc t).pc.recorded)
    (hq : (s.loc t).pc.recorded = true → l'.queue = (s.loc t).queue)
    (hh : l'.pc.holds = (s.loc t).pc.holds) : Record ⟨m', update s.loc t l'⟩ := by
  have hrecs (u : T) : ((Config.mk m' (update s.loc t l')).loc u).pc.recorded =
      (s.loc u).pc.recorded := by
    by_cases hu : u = t
    · subst hu
      rw [Config.loc_self, hrec]
    · rw [Config.loc_of_ne hu]
  have hqs {u : T} (hu : (s.loc u).pc.recorded = true) :
      ((Config.mk m' (update s.loc t l')).loc u).queue = (s.loc u).queue := by
    by_cases hut : u = t
    · subst hut
      rw [Config.loc_self, hq hu]
    · rw [Config.loc_of_ne hut]
  have hhs (u : T) : ((Config.mk m' (update s.loc t l')).loc u).pc.holds =
      (s.loc u).pc.holds := by
    by_cases hu : u = t
    · subst hu
      rw [Config.loc_self, hh]
    · rw [Config.loc_of_ne hu]
  constructor
  · intro hno
    obtain ⟨u, hu⟩ := hr.free (hw ▸ hno)
    exact ⟨u, (hrecs u).trans hu⟩
  · intro u q hu hqu
    rw [hrecs] at hu
    rw [hqs hu] at hqu
    show m'.waiting = _ ∨ m'.waiting = _ ∨ m'.waiting = _ ∧ _
    rw [hw]
    exact (hr.phase u q hu hqu).imp id (Or.imp id (And.imp id hs))
  · intro u q w hu
    rw [hhs] at hu
    obtain ⟨hc, hwn, v, hv, hqv⟩ := hr.holds u q w hu
    exact ⟨hw.trans hc, hwn.trans hn.symm, v, (hrecs v).trans hv, (hqs hv).trans hqv⟩
  · intro hc
    obtain ⟨u, hu⟩ := hr.taken (hw ▸ hc)
    exact ⟨u, (hhs u).symm ▸ hu⟩

theorem step (hr : Record s) (hb : Base s) (h : Step s.mem (s.loc t) m' l') :
    Record ⟨m', update s.loc t l'⟩ := by
  have hmono := h.stopped_mono
  cases h with
  | create q hpc =>
    refine hr.keep rfl rfl id rfl ?_ rfl
    rw [(Pc.of_plain hpc.1).1]
    exact fun h => absurd h Bool.false_ne_true
  | close q hpc =>
    refine hr.keep rfl rfl id rfl ?_ rfl
    rw [hpc]
    exact fun h => absurd h Bool.false_ne_true
  | begin hpc | finish hpc | stopped why saw hpc =>
    exact hr.keep rfl rfl hmono (hpc ▸ rfl) (fun _ => rfl) (hpc ▸ rfl)
  | plain pc hp hp' =>
    obtain ⟨hrec, hh⟩ := Pc.of_plain hp
    obtain ⟨hrec', hh'⟩ := Pc.of_plain hp'
    exact hr.keep rfl rfl id (hrec'.trans hrec.symm) (fun _ => rfl) (hh'.trans hh.symm)
  | record q hpc hq =>
    have hruns : (s.loc t).pc.runs = true := hpc ▸ rfl
    have hno := hr.waiting_eq_no hb hruns (hpc ▸ rfl)
    rw [if_pos hno]
    refine ⟨fun _ => ⟨t, by rw [Config.loc_self]; rfl⟩, ?_, ?_, fun h => by cases h⟩
    · intro u q' hu hq'
      by_cases hut : u = t
      · subst hut
        rw [Config.loc_self] at hq'
        cases hq.symm.trans hq'
        exact .inl rfl
      · rw [Config.loc_of_ne hut] at hu
        exact absurd (hb.runs u t (Pc.runs_of_recorded hu) hruns) hut
    · intro u q' w hu
      by_cases hut : u = t
      · subst hut
        rw [Config.loc_self] at hu
        cases hu
      · rw [Config.loc_of_ne hut] at hu
        have hc := (hr.holds u q' w hu).1
        rw [hno] at hc
        cases hc
  | enter hpc =>
    obtain hpc | hpc := hpc
    · exact hr.keep rfl rfl id (hpc ▸ rfl) (fun _ => rfl) (hpc ▸ rfl)
    · exact hr.keep rfl rfl id (hpc ▸ rfl) (fun _ => rfl) (hpc ▸ rfl)
  | wake q hpc | missed hpc | delete q w hpc | trigger q w hpc =>
    exact hr.keep rfl rfl id (hpc ▸ rfl) (fun _ => rfl) (hpc ▸ rfl)
  | leave q f left hpc =>
    exact hr.keep rfl rfl id hpc.symm (fun _ => rfl) (Pc.holds_of_recorded hpc).symm
  | spin pc hpc hpc' =>
    have hrec := Pc.recorded_of_clears hpc
    have hrec' := Pc.recorded_of_clears hpc'
    exact hr.keep rfl rfl id (hrec'.trans hrec.symm) (fun _ => rfl)
      ((Pc.holds_of_recorded hrec').trans (Pc.holds_of_recorded hrec).symm)
  | cleared pc hpc hpc' hw =>
    have hruns := Pc.runs_of_recorded (Pc.recorded_of_clears hpc)
    have hpc' : pc.recorded = false ∧ pc.holds = none := by
      obtain rfl | rfl := hpc' <;> exact ⟨rfl, rfl⟩
    refine ⟨fun hno => absurd rfl hno, ?_, ?_, fun h => by cases h⟩
    · intro u q' hu
      by_cases hut : u = t
      · subst hut
        rw [Config.loc_self, hpc'.1] at hu
        cases hu
      · rw [Config.loc_of_ne hut] at hu
        exact absurd (hb.runs u t (Pc.runs_of_recorded hu) hruns) hut
    · intro u q' w hu
      by_cases hut : u = t
      · subst hut
        rw [Config.loc_self, hpc'.2] at hu
        cases hu
      · rw [Config.loc_of_ne hut] at hu
        exact absurd (hr.holds u q' w hu).1 hw
  | seek pc hpc hpc' =>
    obtain ⟨hrec, hh⟩ := Pc.of_claims hpc
    obtain ⟨hrec', hh'⟩ := Pc.of_claims hpc'
    exact hr.keep rfl rfl id (hrec'.trans hrec.symm) (fun _ => rfl) (hh'.trans hh.symm)
  | claim q hpc hw =>
    -- who waits is not the one who took the record
    obtain ⟨v, hv, hqv⟩ := hr.exists_waiter hb hw
    have hvt : v ≠ t := by
      rintro rfl
      rw [hpc] at hv
      cases hv
    refine ⟨fun _ => ⟨v, by rwa [Config.loc_of_ne hvt]⟩, fun _ _ _ _ => .inr (.inl rfl), ?_,
      fun _ => ⟨t, ?_⟩⟩
    · intro u q' w hu
      by_cases hut : u = t
      · subst hut
        rw [Config.loc_self] at hu
        cases hu
        exact ⟨rfl, rfl, v, by rwa [Config.loc_of_ne hvt], by rwa [Config.loc_of_ne hvt]⟩
      · rw [Config.loc_of_ne hut] at hu
        have hc := (hr.holds u q' w hu).1
        rw [hw] at hc
        cases hc
    · rw [Config.loc_self]
      exact Option.some_ne_none _
  | release q w hpc =>
    have hwon : (s.loc t).pc.won = true := hpc ▸ rfl
    refine ⟨fun hno => absurd rfl hno, ?_, ?_, fun h => by cases h⟩
    · intro u q' _ _
      exact .inr (.inr ⟨rfl, hb.stopped t hwon⟩)
    · intro u q' w' hu
      by_cases hut : u = t
      · subst hut
        rw [Config.loc_self] at hu
        cases hu
      · rw [Config.loc_of_ne hut] at hu
        have hwu := Pc.won_of_holds (by rw [hu]; exact Option.some_ne_none _)
        exact absurd (hb.won u t hwu hwon) hut

end Record

/-! ### The waiter in the kernel -/

namespace Missed

variable [DecidableEq T]

/-- A step of the runner that does not lead into the kernel leaves nobody in it. -/
theorem of_runs (hb : Base s) (ht : (s.loc t).pc.runs = true) (hk : l'.pc ≠ .kernel) :
    Missed ⟨m', update s.loc t l'⟩ := by
  have hnone (u : T) : (update s.loc t l' u).pc ≠ .kernel := by
    by_cases hu : u = t
    · subst hu
      rwa [update_self]
    · rw [update_of_ne hu]
      intro hpc
      exact hu (hb.runs u t (hpc ▸ rfl) ht)
  exact ⟨fun u _ hu => absurd hu (hnone u), fun u _ hu => absurd hu (hnone u)⟩

/-- A step of another thread is judged by the waiters that are in the kernel before it. -/
theorem of_other (hk : l'.pc ≠ .kernel)
    (hnamed : ∀ u q, u ≠ t → (s.loc u).pc = .kernel → (s.loc u).queue = some q →
      m'.waiting = .on q → m'.state.stopped = true →
      ∃ v, (update s.loc t l' v).pc.claims = true)
    (hpoked : ∀ u q, u ≠ t → (s.loc u).pc = .kernel → (s.loc u).queue = some q →
      (∃ v, (update s.loc t l' v).pc.releases = true) ∨ m'.waiting = .no →
      m'.triggered q = true) : Missed ⟨m', update s.loc t l'⟩ := by
  have hkernel {u : T} (hu : (update s.loc t l' u).pc = .kernel) :
      u ≠ t ∧ update s.loc t l' u = s.loc u := by
    by_cases hut : u = t
    · subst hut
      rw [update_self] at hu
      exact absurd hu hk
    · exact ⟨hut, update_of_ne hut ..⟩
  constructor
  · intro u q hu hq
    obtain ⟨hut, he⟩ := hkernel hu
    dsimp only at hu hq
    rw [he] at hu hq
    exact hnamed u q hut hu hq
  · intro u q hu hq
    obtain ⟨hut, he⟩ := hkernel hu
    dsimp only at hu hq
    rw [he] at hu hq
    exact hpoked u q hut hu hq

/-- A step that has no part in a stop, and leaves the queues of waiters alone. -/
theorem keep (hm : Missed s) (hk : l'.pc ≠ .kernel) (hw : m'.waiting = s.mem.waiting)
    (hs : m'.state.stopped = s.mem.state.stopped)
    (hc : (s.loc t).pc.claims = true → l'.pc.claims = true)
    (hrel : l'.pc.releases = true → (s.loc t).pc.releases = true)
    (ht : ∀ u q, (s.loc u).queue = some q → u ≠ t → m'.triggered q = s.mem.triggered q) :
    Missed ⟨m', update s.loc t l'⟩ := by
  refine of_other hk ?_ ?_
  · intro u q _ hu hq hon hst
    obtain ⟨v, hv⟩ := hm.named u q hu hq (hw ▸ hon) (hs ▸ hst)
    refine ⟨v, ?_⟩
    by_cases hvt : v = t
    · subst hvt
      rw [update_self]
      exact hc hv
    · rwa [update_of_ne hvt]
  · intro u q hut hu hq hor
    rw [ht u q hq hut]
    refine hm.poked u q hu hq (hor.imp ?_ fun hno => hw ▸ hno)
    rintro ⟨v, hv⟩
    refine ⟨v, ?_⟩
    by_cases hvt : v = t
    · subst hvt
      rw [update_self] at hv
      exact hrel hv
    · rwa [update_of_ne hvt] at hv

/-- The waiter goes into the kernel only if its task is not stopped, and then no stop is under
way. -/
theorem enter (hr : Record s) (hb : Base s) (hpc : (s.loc t).pc.recorded = true)
    (hs : s.mem.state.stopped = false) :
    Missed ⟨s.mem, update s.loc t { s.loc t with pc := .kernel }⟩ := by
  have hwon (u : T) : (s.loc u).pc.won = false := by
    refine Bool.eq_false_iff.mpr fun hw => ?_
    rw [hb.stopped u hw] at hs
    cases hs
  obtain ⟨q, hq⟩ := Option.ne_none_iff_exists'.mp (hb.queue t (Pc.waits_of_recorded hpc))
  constructor
  · intro u q' _ _ _ hst
    rw [hs] at hst
    cases hst
  · rintro u q' - - (⟨v, hv⟩ | hno)
    · by_cases hvt : v = t
      · subst hvt
        simp only [update_self] at hv
        cases hv
      · simp only [update_of_ne hvt] at hv
        have hwv := hwon v
        rw [Pc.won_of_holds (Pc.holds_of_releases hv)] at hwv
        cases hwv
    · obtain he | he | ⟨-, hst⟩ := hr.phase t q hpc hq
      · exact absurd (he.symm.trans hno) nofun
      · exact absurd (he.symm.trans hno) nofun
      · rw [hs] at hst
        cases hst

theorem step (hm : Missed s) (hb : Base s) (hr : Record s) (h : Step s.mem (s.loc t) m' l') :
    Missed ⟨m', update s.loc t l'⟩ := by
  have hkernel {pc : Pc} (hpc : pc.recorded = false) : pc ≠ .kernel := by
    rintro rfl
    cases hpc
  have hreleases {pc : Pc} (hpc : pc.holds = none) : pc.releases = false :=
    Bool.eq_false_iff.mpr fun h => Pc.holds_of_releases h hpc
  -- who has poked a queue after the step had done so before it, or is the mover
  have hold (hl : l'.pc.releases = false) {u : T} {q : ℕ} (hu : (s.loc u).pc = .kernel)
      (hq : (s.loc u).queue = some q)
      (hor : (∃ v, (update s.loc t l' v).pc.releases = true) ∨ s.mem.waiting = .no) :
      s.mem.triggered q = true := by
    refine hm.poked u q hu hq (hor.imp_left ?_)
    rintro ⟨v, hv⟩
    refine ⟨v, ?_⟩
    by_cases hvt : v = t
    · subst hvt
      rw [update_self, hl] at hv
      cases hv
    · rwa [update_of_ne hvt] at hv
  cases h with
  | create q hpc hq hf =>
    have hk := hkernel (Pc.of_plain hpc.1).1
    refine hm.keep hk rfl rfl id id ?_
    intro u q' hq' _
    refine update_of_ne ?_ ..
    rintro rfl
    rw [hb.own.taken u q' hq'] at hf
    cases hf
  | close q hpc => exact hm.keep (hpc ▸ nofun) rfl rfl id id fun _ _ _ _ => rfl
  | begin hpc hh hs =>
    refine hm.keep nofun rfl ?_ (hpc ▸ id) nofun fun _ _ _ _ => rfl
    simp only [startable, Bool.or_eq_true, beq_iff_eq] at hs
    obtain (hs | hs) | hs := hs <;> rw [hs] <;> rfl
  | finish hpc | record q hpc | wake q hpc => exact of_runs hb (hpc ▸ rfl) nofun
  | plain pc hp hp' =>
    obtain ⟨hrec', hh'⟩ := Pc.of_plain hp'
    refine hm.keep (hkernel hrec') rfl rfl ?_ ?_ fun _ _ _ _ => rfl
    · intro hc
      rw [Pc.claims_of_plain hp] at hc
      cases hc
    · intro hrel
      rw [hreleases hh'] at hrel
      cases hrel
  | enter hpc hs =>
    refine enter hr hb ?_ hs
    obtain hpc | hpc := hpc <;> exact hpc ▸ rfl
  | leave q f left hpc => exact of_runs hb (Pc.runs_of_recorded hpc) nofun
  | spin pc hpc hpc' =>
    refine of_runs hb (Pc.runs_of_recorded (Pc.recorded_of_clears hpc)) ?_
    rintro rfl
    cases hpc'
  | cleared pc hpc hpc' =>
    refine of_runs hb (Pc.runs_of_recorded (Pc.recorded_of_clears hpc)) ?_
    obtain rfl | rfl := hpc' <;> exact nofun
  | stopped why saw hpc =>
    refine of_other nofun ?_ ?_
    · intro _ _ _ _ _ _ _
      exact ⟨t, by rw [update_self]; rfl⟩
    · intro u q _ hu hq hor
      exact hold rfl hu hq hor
  | missed hpc hw =>
    refine of_other nofun ?_ ?_
    · intro u q _ _ _ hon
      exact absurd hon (hw q)
    · intro u q _ hu hq hor
      exact hold rfl hu hq hor
  | seek pc hpc hpc' =>
    obtain ⟨hrec', hh'⟩ := Pc.of_claims hpc'
    refine hm.keep (hkernel hrec') rfl rfl (fun _ => hpc') ?_ fun _ _ _ _ => rfl
    intro hrel
    rw [hreleases hh'] at hrel
    cases hrel
  | claim q hpc hw =>
    refine of_other nofun ?_ ?_
    · intro u q' _ _ _ hon
      cases hon
    · rintro u q' - - - (⟨v, hv⟩ | hno)
      · by_cases hvt : v = t
        · subst hvt
          rw [update_self] at hv
          cases hv
        · rw [update_of_ne hvt] at hv
          have hwv := Pc.won_of_holds (Pc.holds_of_releases hv)
          exact absurd (hb.won v t hwv (hpc ▸ rfl)) hvt
      · cases hno
  | delete q w hpc => exact hm.keep nofun rfl rfl (hpc ▸ nofun) nofun fun _ _ _ _ => rfl
  | trigger q w hpc =>
    obtain ⟨hc, -, v, hv, hqv⟩ := hr.holds t q w (hpc ▸ rfl)
    refine of_other nofun ?_ ?_
    · intro u q' _ _ _ hon
      rw [show s.mem.waiting = _ from hon] at hc
      cases hc
    · intro u q' _ hu hq _
      -- only one thread waits, so the record that was taken is its own
      obtain rfl := hb.runs u v (hu ▸ rfl) (Pc.runs_of_recorded hv)
      cases hqv.symm.trans hq
      exact update_self ..
  | release q w hpc =>
    refine of_other nofun ?_ ?_
    · intro u q' _ _ _ hon
      cases hon
    · intro u q' _ hu hq _
      exact hm.poked u q' hu hq (.inl ⟨t, hpc ▸ rfl⟩)

end Missed

/-! ### The way of a stop -/

/-- The thread pokes the queue in this many steps of its own. -/
def Pokes (q n : ℕ) (m : Mem) (l : Local) : Prop :=
  ∃ m' l', machine.solo (.replicate n .go) m l = some (m', l') ∧ m'.triggered q = true

section Pokes

variable {m : Mem} {l : Local} {q n : ℕ}

/-- Who has stopped the task goes on with that, whatever its own queue. -/
theorem next_of_won (hw : l.pc.won = true) :
    next m l .go = (stopStep m l.pc .go).map fun r => (r.1, { l with pc := r.2 }) := by
  obtain ⟨o, pc⟩ := l
  cases pc with
  | claimLoad | claimSwap _ | delete _ _ | trigger _ _ | release _ _ =>
    cases o <;> simp only [next, runStep, Option.bind_none, Option.bind_some, Option.none_or] <;>
      cases stopStep m _ _ <;> rfl
  | _ => cases hw

namespace Pokes

theorem of_step {p : Pc} (hw : l.pc.won = true) (h : stopStep m l.pc .go = some (m', p))
    (hp : Pokes q n m' { l with pc := p }) : Pokes q (n + 1) m l := by
  obtain ⟨m₁, l₁, hs, ht⟩ := hp
  refine ⟨m₁, l₁, ?_, ht⟩
  have hn : machine.next m l .go = some (m', { l with pc := p }) := by
    show next m l .go = _
    rw [next_of_won hw, h]
    rfl
  rw [List.replicate_succ, Machine.solo, hn]
  exact hs

theorem of_trigger {w : ℕ} (hpc : l.pc = .trigger q w) : Pokes q 1 m l :=
  of_step (hpc ▸ rfl) (by rw [hpc]; rfl) ⟨_, _, rfl, update_self ..⟩

theorem of_delete {w : ℕ} (hpc : l.pc = .delete q w) : Pokes q 2 m l :=
  of_step (hpc ▸ rfl) (by rw [hpc]; rfl) (of_trigger rfl)

theorem of_claimSwap (hpc : l.pc = .claimSwap q) (hw : m.waiting = .on q) : Pokes q 3 m l :=
  of_step (hpc ▸ rfl) (by rw [hpc]; exact if_pos hw) (of_delete rfl)

theorem of_claimLoad (hpc : l.pc = .claimLoad) (hw : m.waiting = .on q) : Pokes q 4 m l :=
  of_step (p := .claimSwap q) (hpc ▸ rfl) (by rw [hpc, stopStep, hw]) (of_claimSwap rfl hw)

/-- Whatever was loaded of an earlier wait, the record is found and its queue poked. -/
theorem of_claims (hpc : l.pc.claims = true) (hw : m.waiting = .on q) :
    ∃ n ≤ 5, Pokes q n m l := by
  obtain hpc | ⟨q', hpc⟩ := Pc.eq_of_claims hpc
  · exact ⟨4, by decide, of_claimLoad hpc hw⟩
  · by_cases hq : m.waiting = .on q'
    · cases hw.symm.trans hq
      exact ⟨3, by decide, of_claimSwap hpc hw⟩
    · exact ⟨5, le_rfl, of_step (hpc ▸ rfl) (by rw [hpc]; exact if_neg hq)
        (of_claimLoad rfl hw)⟩

end Pokes

end Pokes

/-! ### Every run -/

/-- Nothing runs, waits or is stopped by anyone yet, and no thread has a queue. -/
structure Fresh (s : Config T Mem Local) : Prop where
  held : s.mem.held = false
  waiting : s.mem.waiting = .no
  loc : ∀ t, s.loc t = ⟨none, .idle⟩

/-- What holds of every state that is reached. -/
structure Inv (s : Config T Mem Local) : Prop where
  base : Base s
  record : Record s
  missed : Missed s

theorem Fresh.inv (h : Fresh s) : Inv s := by
  refine ⟨⟨?_, ?_, ?_, ?_, ?_, ?_, ?_⟩, ⟨?_, ?_, ?_, ?_⟩, ⟨?_, ?_⟩⟩
  case refine_7 => exact Owned.of_none fun t => by rw [h.loc t]
  case refine_8 => exact fun hw => absurd h.waiting hw
  case refine_11 =>
    intro hw
    rw [h.waiting] at hw
    cases hw
  all_goals
    intro t
    simp [h.loc t, Pc.runs, Pc.won, Pc.claims, Pc.holds, Pc.saw, Pc.waits, Pc.recorded]

theorem inv_of_reach [DecidableEq T] (hs : machine.Reach Fresh Machine.unguarded s) : Inv s := by
  refine hs.invariant (fun _ => Fresh.inv) ?_
  intro s t a m' l' hi _ hn
  have h := next_step hn
  exact ⟨hi.base.step h, hi.record.step hi.base h, hi.missed.step hi.base hi.record h⟩

/-- Who is about to poke a queue has a waiter there, in the wait whose record it took. -/
theorem Inv.calls (hi : Inv s) {u : T} {q w : ℕ} (hc : (s.loc u).pc.calls = some (q, w)) :
    w = s.mem.waits ∧ s.mem.opened q = true ∧
      ∃ t, (s.loc t).pc.recorded = true ∧ (s.loc t).queue = some q := by
  have hh : (s.loc u).pc.holds = some (q, w) := by
    generalize (s.loc u).pc = pc at hc
    cases pc <;> first | exact hc | cases hc
  obtain ⟨-, hw, t, ht, hq⟩ := hi.record.holds u q w hh
  exact ⟨hw, hi.base.own.taken t q hq, t, ht, hq⟩

/-- A stopped waiter in the kernel has been poked, or is about to be. -/
theorem Inv.pokes (hi : Inv s) {q : ℕ} (hpc : (s.loc t).pc = .kernel)
    (hq : (s.loc t).queue = some q) (hs : s.mem.state.stopped = true) :
    s.mem.triggered q = true ∨ ∃ u, ∃ n ≤ 5, Pokes q n s.mem (s.loc u) := by
  obtain hw | hw | ⟨hw, -⟩ := hi.record.phase t q (hpc ▸ rfl) hq
  · obtain ⟨u, hu⟩ := hi.missed.named t q hpc hq hw hs
    exact .inr ⟨u, Pokes.of_claims hu hw⟩
  · obtain ⟨u, hu⟩ := hi.record.taken hw
    obtain ⟨⟨q', w⟩, hh⟩ := Option.ne_none_iff_exists'.mp hu
    -- the record that was taken is the waiter's
    obtain ⟨-, -, v, hv, hqv⟩ := hi.record.holds u q' w hh
    obtain rfl := hi.base.runs t v (hpc ▸ rfl) (Pc.runs_of_recorded hv)
    cases hqv.symm.trans hq
    cases hpcu : (s.loc u).pc with
    | delete q' w' =>
      rw [hpcu] at hh
      cases hh
      exact .inr ⟨u, 2, by decide, Pokes.of_delete hpcu⟩
    | trigger q' w' =>
      rw [hpcu] at hh
      cases hh
      exact .inr ⟨u, 1, by decide, Pokes.of_trigger hpcu⟩
    | release q' w' => exact .inl (hi.missed.poked t q hpc hq (.inl ⟨u, hpcu ▸ rfl⟩))
    | _ =>
      rw [hpcu] at hh
      cases hh
  · exact .inl (hi.missed.poked t q hpc hq (.inr hw))

/-- Once the task is stopped its run neither goes into the kernel nor is told to carry on. -/
theorem runStep_sees {m : Mem} {q : ℕ} {pc pc' : Pc} {a : Act}
    (h : runStep m q pc a = some (m', pc')) (hs : m.state.stopped = true) :
    pc' ≠ .kernel ∧ pc' ≠ .told true := by
  unfold runStep at h
  split at h
  case h_6 =>
    obtain ⟨-, h⟩ := Option.ite_none_right_eq_some.mp h
    cases h
    exact ⟨nofun, nofun⟩
  case h_8 =>
    obtain ⟨-, rfl⟩ := Prod.mk.inj (Option.some.inj h)
    cases m.waiting.seen <;> exact ⟨nofun, nofun⟩
  case h_9 left saw =>
    split at h
    · cases h
      cases left <;> exact ⟨nofun, nofun⟩
    · cases h
      exact ⟨nofun, nofun⟩
  case h_12 => cases h
  case h_2 | h_4 | h_7 | h_10 =>
    rw [hs] at h
    cases h
    exact ⟨nofun, nofun⟩
  all_goals
    cases h
    exact ⟨nofun, nofun⟩

theorem stopStep_sees {m : Mem} {pc pc' : Pc} {a : Act} (h : stopStep m pc a = some (m', pc')) :
    pc' ≠ .kernel ∧ pc' ≠ .told true := by
  unfold stopStep at h
  split at h
  case h_2 | h_4 =>
    obtain ⟨-, rfl⟩ := Prod.mk.inj (Option.some.inj h)
    split <;> exact ⟨nofun, nofun⟩
  case h_3 | h_5 => split at h <;> cases h <;> exact ⟨nofun, nofun⟩
  all_goals
    cases h
    try exact ⟨nofun, nofun⟩

/-- Once the task is stopped no step leads into the kernel or to a wait that says to carry on. -/
theorem next_sees {m : Mem} {l : Local} {a : Act} (h : next m l a = some (m', l'))
    (hs : m.state.stopped = true) : l'.pc ≠ .kernel ∧ l'.pc ≠ .told true := by
  unfold next at h
  split at h
  case h_1 q hpc | h_2 q hpc =>
    obtain ⟨-, h⟩ := Option.ite_none_right_eq_some.mp h
    cases h
    rw [hpc]
    exact ⟨nofun, nofun⟩
  case h_3 hpc =>
    obtain ⟨q, -, h⟩ := Option.map_eq_some_iff.mp h
    cases h
    rw [hpc]
    exact ⟨nofun, nofun⟩
  case h_4 =>
    obtain ⟨-, h⟩ := Option.ite_none_right_eq_some.mp h
    cases h
    exact ⟨nofun, nofun⟩
  case h_5 =>
    cases h
    exact ⟨nofun, nofun⟩
  case h_6 =>
    split at h
    case h_2 => cases h
    case h_1 m₁ pc₁ hor =>
      cases h
      obtain hrun | ⟨-, hstop⟩ := Option.or_eq_some_iff.mp hor
      · obtain ⟨q, -, hrun⟩ := Option.bind_eq_some_iff.mp hrun
        exact runStep_sees hrun hs
      · exact stopStep_sees hstop

/-- Whatever queue a stop is about to call on is open, and its thread is in the very wait whose
record the stop took. A waiter in the kernel whose task is stopped has a trigger waiting for it, or
some stop puts it there in at most five steps of its own. And once the task is stopped, no step
leads into the kernel, and no wait ends with the word to carry on. -/
theorem stop_reaches [DecidableEq T] (hs : machine.Reach Fresh Machine.unguarded s) :
    (∀ u q w, (s.loc u).pc.calls = some (q, w) → w = s.mem.waits ∧ s.mem.opened q = true ∧
      ∃ t, (s.loc t).pc.recorded = true ∧ (s.loc t).queue = some q) ∧
    (∀ t q, (s.loc t).pc = .kernel → (s.loc t).queue = some q → s.mem.state.stopped = true →
      s.mem.triggered q = true ∨ ∃ u, ∃ n ≤ 5, Pokes q n s.mem (s.loc u)) ∧
    ∀ t a m' l', machine.next s.mem (s.loc t) a = some (m', l') →
      s.mem.state.stopped = true → l'.pc ≠ .kernel ∧ l'.pc ≠ .told true := by
  have hi := inv_of_reach hs
  refine ⟨?_, ?_, ?_⟩
  · intro u q w
    exact hi.calls
  · intro t q
    exact hi.pokes
  · intro t a m' l' hn hstop
    exact next_sees hn hstop

/-! ### A run with a stop -/

/-- A slot whose task is yet to run, and no queue is open. -/
def pending : Config (Fin 2) Mem Local where
  mem := ⟨.pending, false, .no, false, fun _ => false, fun _ => false, 0⟩
  loc _ := ⟨none, .idle⟩

theorem fresh_pending : Fresh pending := ⟨rfl, rfl, fun _ => rfl⟩

/-- The task waits once and comes back, waits again, and is cancelled in the kernel. -/
def cancelled : List (Fin 2 × Act) :=
  [(0, .begin), (0, .create 3), (0, .wait), (0, .go), (0, .go), (0, .go), (0, .leave false),
    (0, .go), (0, .go), (0, .go), (0, .go), (0, .wait), (0, .go), (0, .go), (0, .go),
    (1, .stop .cancel), (1, .go), (1, .go), (1, .go), (1, .go), (1, .go)]

theorem stop_reaches_cancelled : ∃ s : Config (Fin 2) Mem Local,
    machine.Reach Fresh Machine.unguarded s ∧ (s.loc 1).pc = .trigger 3 2 ∧
      (s.loc 0).pc = .kernel ∧ (s.loc 0).queue = some 3 ∧ 2 = s.mem.waits ∧
      (s.mem.triggered 3 = true ∨ ∃ u, ∃ n ≤ 5, Pokes 3 n s.mem (s.loc u)) := by
  obtain ⟨s, hs, hcall, hpc, hq, hstop⟩ : ∃ s : Config (Fin 2) _ _,
      machine.Reach Fresh Machine.unguarded s ∧ (s.loc 1).pc = .trigger 3 2 ∧
      (s.loc 0).pc = .kernel ∧ (s.loc 0).queue = some 3 ∧ s.mem.state.stopped = true :=
    (Machine.Reach.init fresh_pending).exists_of_run cancelled (by decide +kernel)
  obtain ⟨hcalls, hpokes, -⟩ := stop_reaches hs
  exact ⟨s, hs, hcall, hpc, hq, (hcalls 1 3 2 (hcall ▸ rfl)).1, hpokes 0 3 hpc hq hstop⟩

end Atap.Wait
