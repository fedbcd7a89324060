import Atap.Gate.Values

/-!
# A refused give

A give leaves its value in the mailbox and only then asks the gate, and what a refused give
left is not taken back. A run that moved the gate on and has yet to copy the mailbox finds it
there.

* `refused_value_handed`: a run begins, a second give leaves its value and is refused at the
  limit, and the run copies that value.
* `RefusalSettled`: a run copies a value only once its give has returned, and a give whose value is
  in the mailbox is refused only while no run is left that will copy it.
* `handed_value_accepted`: in every run whose steps all meet that, the value any run was
  handed is one whose give returned `Ok`.

`NoMoreRuns` is what such a refusal leaves for good: nothing is queued or launched, no thread is on
its way to a copy, and no give can start anything.
-/

namespace Atap.Gate

open Function

variable {T α : Type*}

namespace Pc

/-- A run is on its way to a copy of the mailbox, or this thread will start one. -/
def beforeCopy : Pc α → Bool
  | spend _ .waiting | start _ | clock | prepare _ | copy _ | again => true
  | _ => false

/-- A give has passed the look at the limit. -/
def moves : Pc α → Bool
  | move _ _ => true
  | _ => false

/-- The run that ends with `after_run` is under way, and goes round again in a series. -/
def executes : Pc α → Bool
  | execute true => true
  | _ => false

/-- The thread is about to copy the mailbox. -/
def copies : Pc α → Bool
  | copy _ => true
  | _ => false

theorem beforeCopy_of_copies {pc : Pc α} (h : pc.copies = true) : pc.beforeCopy = true := by
  cases pc <;> first | rfl | cases h

/-- The next step of the thread makes its give return an error. -/
def refuses (m : Mem α) : Pc α → Bool
  | look _ => decide (m.state = .finished)
  | limit _ _ => decide (m.givesLeft = 0)
  | release (.refused _) => true
  | _ => false

end Pc

/-- No run is left that will copy the mailbox, and no give can start one. -/
@[mk_iff]
structure NoMoreRuns (m : Mem α) (loc : T → Pc α) : Prop where
  queued : m.queued = 0
  launched : m.launched = 0
  pending : m.state ≠ .pending
  threads : ∀ u, (loc u).beforeCopy = false
  series : m.series = true → ∀ u, (loc u).executes = false
  closed : m.state = .finished ∨ m.givesLeft = 0 ∧ ∀ u, (loc u).moves = false

/-- The value of the thread's give is the last that was left. -/
def Pc.latest (m : Mem α) (pc : Pc α) : Bool := pc.serial.map (· + 1) == some m.given

/-- A run does not copy the mailbox while the give of the value there is between its `replace` and
its return, and that give does not return an error while a run is left that will copy it. -/
@[mk_iff]
structure RefusalSettled (s : Config T (Mem α) (Pc α)) (t : T) (_ : Act α) : Prop where
  copy : (s.loc t).copies = true → ∀ u, (s.loc u).latest s.mem = false
  refusal : (s.loc t).refuses s.mem = true → (s.loc t).latest s.mem = true →
    NoMoreRuns s.mem s.loc

section Decidable

variable [Fintype T]

instance (m : Mem α) (loc : T → Pc α) : Decidable (NoMoreRuns m loc) :=
  decidable_of_iff' _ (noMoreRuns_iff m loc)

instance (s : Config T (Mem α) (Pc α)) (t : T) (a : Act α) :
    Decidable (RefusalSettled s t a) :=
  decidable_of_iff' _ (refusalSettled_iff s t a)

end Decidable

section Step

variable [DecidableEq T] {m m' : Mem α} {pc' : Pc α} {loc : T → Pc α} {t : T}

theorem NoMoreRuns.update (h : NoMoreRuns m loc) (hq : m'.queued = m.queued)
    (hl : m'.launched = m.launched) (hs : m'.series = m.series) (hp : m'.state ≠ .pending)
    (hb : pc'.beforeCopy = false) (he : pc'.executes = false)
    (hf : m.state = .finished → m'.state = .finished)
    (hc : m.givesLeft = 0 → m'.state = .finished ∨ m'.givesLeft = 0 ∧ pc'.moves = false) :
    NoMoreRuns m' (Function.update loc t pc') where
  queued := hq.trans h.queued
  launched := hl.trans h.launched
  pending := hp
  threads := forall_update (P := (Pc.beforeCopy · = false)) hb fun u _ => h.threads u
  series hser := forall_update (P := (Pc.executes · = false)) he fun u _ => h.series (hs ▸ hser) u
  closed := by
    rcases h.closed with hfin | ⟨hleft, hmoves⟩
    · exact .inl (hf hfin)
    · refine (hc hleft).imp_right fun ⟨hleft', hpc⟩ => ⟨hleft', ?_⟩
      exact forall_update (P := (Pc.moves · = false)) hpc fun u _ => hmoves u

/-- **Once no run is left, none comes.** -/
theorem NoMoreRuns.step (hi : NoMoreRuns m loc) (h : Step m (loc t) m' pc') :
    NoMoreRuns m' (Function.update loc t pc') := by
  have hbefore := hi.threads t
  have hexec : m.series = true → (loc t).executes = false := fun hser => hi.series hser t
  have hmoves := hi.closed.imp_right fun hc => hc.2 t
  generalize loc t = pc at *
  cases h
  case spendStart | start | startRefused | launch | seriesOver | begin | beginLost | copy
    | again | againRefused => cases hbefore
  case pickRun h _ | pickSeries h _ => exact absurd hi.queued h.ne'
  case pickCopy h => exact absurd hi.launched h.ne'
  case more h => cases hexec h
  case moveWon k saw h =>
    rcases hmoves with hf | hmv
    · cases saw <;> exact absurd (hf.symm.trans h) nofun
    · cases hmv
  case owedWon h | afterPending h => exact absurd h hi.pending
  case limitLeft k saw h =>
    exact hi.update rfl rfl rfl hi.pending rfl rfl id fun hz => absurd hz h
  case spendOwed k =>
    refine hi.update rfl rfl rfl hi.pending rfl rfl id fun hz => .inr ⟨?_, rfl⟩
    show spendGive m.givesLeft = 0
    rw [hz]
    rfl
  case closeWon | overWon | recloseWon | finish =>
    exact hi.update rfl rfl rfl nofun rfl rfl (fun _ => rfl) fun _ => .inl rfl
  case waitWon saw h =>
    refine hi.update rfl rfl rfl nofun rfl rfl (fun hf => ?_) fun hz => .inr ⟨hz, rfl⟩
    cases saw <;> exact absurd (hf.symm.trans h) nofun
  case release b =>
    cases b <;> exact hi.update rfl rfl rfl hi.pending rfl rfl id fun hz => .inr ⟨hz, rfl⟩
  all_goals exact hi.update rfl rfl rfl hi.pending rfl rfl id fun hz => .inr ⟨hz, rfl⟩

/-- What was handed to a run was accepted, and a refusal of the last value leaves no run. -/
structure Honoured (m : Mem α) (loc : T → Pc α) : Prop where
  values : Values m loc
  handed : ∀ k, m.handed k = true → m.verdict k = some true
  refused : ∀ k, m.verdict k = some false → k + 1 = m.given → NoMoreRuns m loc

omit [DecidableEq T] in
/-- The return of a give touches no value that was handed to a run. -/
theorem Honoured.answer (hi : Honoured m loc) {k : ℕ} (ht : (loc t).serial = some k) (b : Bool) :
    ∀ l, m.handed l = true → update m.verdict k (some b) l = some true := by
  intro l hl
  have hold := hi.handed l hl
  have hne : l ≠ k := by
    rintro rfl
    rw [(hi.values.gives.unanswered t l ht).2] at hold
    cases hold
  rw [update_of_ne hne]
  exact hold

omit [DecidableEq T] in
/-- A run that copies a value whose give has returned is handed an accepted one. -/
theorem Honoured.copy (hi : Honoured m loc) (hcopy : (loc t).copies = true)
    (hquiet : ∀ u, (loc u).latest m = false) :
    ∀ k, m.handOver.handed k = true → m.verdict k = some true := by
  intro k hk
  rw [Mem.handOver] at hk
  split at hk
  case h_2 => exact hi.handed k hk
  case h_1 l x hbox =>
    rcases eq_or_ne k l with rfl | hne
    · have hlast := hi.values.latest k x hbox
      cases hv : m.verdict k with
      | none =>
        obtain ⟨u, hu⟩ := hi.values.gives.found k (by omega) hv
        have hquiet := hquiet u
        simp [Pc.latest, hu, hlast] at hquiet
      | some b =>
        cases b
        · have hbefore := (hi.refused k hv hlast).threads t
          rw [Pc.beforeCopy_of_copies hcopy] at hbefore
          cases hbefore
        · rfl
    · change update m.handed l true k = true at hk
      rw [update_of_ne hne] at hk
      exact hi.handed k hk

omit [DecidableEq T] in
theorem Honoured.handed_step (hi : Honoured m loc) (h : Step m (loc t) m' pc')
    (hok : (loc t).copies = true → ∀ u, (loc u).latest m = false) :
    ∀ k, m'.handed k = true → m'.verdict k = some true := by
  have hanswer := fun k => hi.answer (t := t) (k := k)
  have hcopy := fun hc => hi.copy (t := t) hc (hok hc)
  generalize loc t = pc at *
  cases h
  case lookReplaced k _ | spendOwed k | start k => exact hanswer k rfl true
  case lookClosed k _ | limitSpent k saw _ => exact hanswer k rfl false
  case copy => exact hcopy rfl
  case release b =>
    cases b
    case refused k => exact hanswer k rfl false
    all_goals exact hi.handed
  all_goals exact hi.handed

omit [DecidableEq T] in
theorem Honoured.refused_step (hi : Honoured m loc) (h : Step m (loc t) m' pc')
    (hok : (loc t).refuses m = true → (loc t).latest m = true → NoMoreRuns m loc) :
    ∀ k, m'.verdict k = some false → k + 1 = m'.given → NoMoreRuns m loc := by
  -- An answer adds a refusal of its own value at most.
  have hanswer : ∀ k b, (b = false → k + 1 = m.given → NoMoreRuns m loc) → ∀ l,
      update m.verdict k (some b) l = some false → l + 1 = m.given → NoMoreRuns m loc := by
    intro k b hb l hl
    rcases eq_or_ne l k with rfl | hne
    · rw [update_self] at hl
      exact hb (Option.some.inj hl)
    · exact hi.refused l (by rwa [update_of_ne hne] at hl)
  generalize loc t = pc at *
  cases h
  case replace x =>
    intro k (hk : m.verdict k = _) hlast
    rw [hi.values.gives.unmade k (Nat.succ.inj hlast).ge] at hk
    cases hk
  case lookReplaced k _ | spendOwed k | start k => exact hanswer k true (by simp)
  case lookClosed k h | limitSpent k saw h =>
    exact hanswer k false fun _ hlast =>
      hok (decide_eq_true h) (by simp [Pc.latest, Pc.serial, hlast])
  case release b =>
    cases b
    case refused k =>
      exact hanswer k false fun _ hlast => hok rfl (by simp [Pc.latest, Pc.serial, hlast])
    all_goals exact hi.refused
  all_goals exact hi.refused

/-- **A step that settles refusals keeps every run to accepted values.** -/
theorem Honoured.step [Fintype T] (hi : Honoured m loc) (ht : Turns m loc)
    (h : Step m (loc t) m' pc') (hcopy : (loc t).copies = true → ∀ u, (loc u).latest m = false)
    (hrefuse : (loc t).refuses m = true → (loc t).latest m = true → NoMoreRuns m loc) :
    Honoured m' (update loc t pc') where
  values := hi.values.step ht h
  handed := hi.handed_step h hcopy
  refused k hk hlast := (hi.refused_step h hrefuse k hk hlast).step h

omit [DecidableEq T] in
theorem Fresh.honoured [Fintype T] {n : ℕ} {s : Config T (Mem α) (Pc α)} (h : Fresh n s) :
    Honoured s.mem s.loc where
  values := h.values
  handed k hk := by
    rw [h.handed k] at hk
    cases hk
  refused k hk := by
    rw [h.verdict k] at hk
    cases hk

/-- **The value a run is handed is one whose give returned `Ok`**, in every run that settles
refusals. -/
theorem handed_value_accepted [Fintype T] {n k : ℕ} {s : Config T (Mem α) (Pc α)}
    (hs : (machine α).Reach (Fresh n) RefusalSettled s) (hk : s.mem.handed k = true) :
    s.mem.verdict k = some true := by
  have hi : Turns s.mem s.loc ∧ Honoured s.mem s.loc :=
    hs.invariant (I := fun s => Turns s.mem s.loc ∧ Honoured s.mem s.loc)
      (fun _ h => ⟨h.turns, h.honoured⟩)
      fun _ _ _ _ _ hi hok hn =>
        ⟨hi.1.step (next_step hn), hi.2.step hi.1 (next_step hn) hok.copy hok.refusal⟩
  exact hi.2.handed k hk

end Step

/-- A give, its run, and a second give the closed gate refuses. -/
theorem handed_value_accepted_once : ∃ s : Config (Fin 4) (Mem ℕ) (Pc ℕ),
    (machine ℕ).Reach (Fresh 1) RefusalSettled s ∧ s.mem.handed 0 = true ∧
      s.mem.verdict 1 = some false ∧ s.mem.verdict 0 = some true := by
  obtain ⟨s, hs, hhanded, hrefused⟩ : ∃ s : Config (Fin 4) _ _,
      (machine ℕ).Reach (Fresh 1) RefusalSettled s ∧ s.mem.handed 0 = true ∧
      s.mem.verdict 1 = some false :=
    (Machine.Reach.init (threeGivers_fresh 1)).exists_of_run
      (giving 1 10 7 ++ [(0, .pick), (0, .go), (0, .go)] ++ giving 2 20 4) (by decide)
  exact ⟨s, hs, hhanded, hrefused, handed_value_accepted hs hhanded⟩

/-- A run has moved the gate on and not copied the mailbox when a second give leaves its value
there and finds the limit spent. -/
def refuseBeforeCopy : List (Fin 4 × Act ℕ) :=
  giving 1 10 7 ++ [(0, .pick), (0, .go)] ++ giving 2 20 4 ++ [(0, .go)]

/-- **A refused value can reach a run.** -/
theorem refused_value_handed : ∃ s : Config (Fin 4) (Mem ℕ) (Pc ℕ),
    (machine ℕ).Reach (Fresh 1) Machine.unguarded s ∧ s.mem.verdict 1 = some false ∧
      s.mem.handed 1 = true := by
  exact (Machine.Reach.init (threeGivers_fresh 1)).exists_of_run refuseBeforeCopy (by decide)

end Atap.Gate
