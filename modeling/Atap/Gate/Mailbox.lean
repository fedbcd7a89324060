import Atap.Gate.Values

/-!
# What a run finds in the mailbox

A give leaves its value before it asks the gate, and a run copies the mailbox after it was
started, so a run finds a value unless the mailbox was cleared in between. It is cleared in two
places, both after the gate is `FINISHED`: `finish_waiting` drops a task that is no schedule, and
every copy of a schedule clears the mailbox it shares with the others as it is dropped.

The first is harmless, since nothing of the task is left to run. The second is not: a copy that
ends once the gate is finished clears the mailbox under copies that are launched and have not
begun (`copy_finds_nothing`). As long as no copy does that, every run finds a value
(`run_finds_value`).
-/

namespace Atap.Gate

variable {T α : Type*}

namespace Pc

/-- A run has been picked up and has not copied the mailbox. -/
def fetches : Pc α → Bool
  | prepare _ | copy _ => true
  | _ => false

theorem fetches_cases {pc : Pc α} (h : pc.fetches = true) :
    pc.drives = true ∨ pc.ofSchedule = true := by
  cases pc
  case prepare d | copy d => cases d <;> simp [drives, ofSchedule]
  all_goals cases h

end Pc

/-- A copy that is dropped does not clear the mailbox while another is launched, or picked up,
and has not copied it. -/
def ClearsLast (s : Config T (Mem α) (Pc α)) (t : T) (_ : Act α) : Prop :=
  s.loc t = .dropClear → s.mem.launched = 0 ∧ ∀ u, (s.loc u).fetches = false

instance [Fintype T] [DecidableEq α] (s : Config T (Mem α) (Pc α)) (t : T) (a : Act α) :
    Decidable (ClearsLast s t a) :=
  inferInstanceAs (Decidable (_ → _ ∧ _))

/-- Who has a run to start, and who is left when the mailbox is empty. -/
structure Stocked (m : Mem α) (loc : T → Pc α) : Prop where
  /-- Something is owed only for a value that was given. -/
  given : m.state.owed = true → 0 < m.given
  /-- Nothing is left to copy an empty mailbox. -/
  runs : m.box = none → m.launched = 0 ∧ ∀ u, (loc u).fetches = false
  /-- Only a schedule has copies. -/
  schedule : m.schedule = false → m.launched = 0 ∧ ∀ u, (loc u).ofSchedule = false

section Step

variable {m m' : Mem α} {pc pc' : Pc α}

/-- Only a give opens the gate. -/
theorem Step.owed (h : Step m pc m' pc') (ho : m'.state.owed = true) :
    m.state.owed = true ∨ ∃ k, pc.serial = some k := by
  cases h
  case moveWon k _ _ => exact .inr ⟨k, rfl⟩
  case begin h | owedWon h => exact .inl (by rw [h]; rfl)
  case release b => cases b <;> exact .inl ho
  case startRefused | closeWon | againRefused | overWon | waitWon | recloseWon | finish => cases ho
  all_goals exact .inl ho

theorem Step.given_le (h : Step m pc m' pc') : m.given ≤ m'.given := by
  cases h
  case replace => exact Nat.le_succ _
  case release b => cases b <;> exact le_rfl
  all_goals exact le_rfl

/-- What empties the mailbox. -/
theorem Step.empties (h : Step m pc m' pc') (hb : m'.box = none) :
    m.box = none ∨ pc = .dropClear ∨ (∃ b, pc = .dropTask b) ∧ m.schedule = false := by
  cases h
  case replace => cases hb
  case dropClear => exact .inr (.inl rfl)
  case dropTask b =>
    cases hs : m.schedule with
    | false => exact .inr (.inr ⟨⟨b, rfl⟩, rfl⟩)
    | true => exact .inl (by simpa [hs] using hb)
  case release b => cases b <;> exact .inl hb
  all_goals exact .inl hb

/-- With no turn to be had and no copy launched, no run is picked up. -/
theorem Step.picks_nothing (h : Step m pc m' pc') (hq : m.queued = 0) (hl : m.launched = 0)
    (hd : pc.drives = false) (hf : pc.fetches = false) :
    m'.launched = 0 ∧ pc'.fetches = false := by
  cases h
  case launch => cases hd
  case pickRun h _ => exact absurd hq h.ne'
  case pickCopy h => exact absurd hl h.ne'
  case copy | beginLost | begin => cases hf
  case release b => cases b <;> exact ⟨hl, rfl⟩
  all_goals exact ⟨hl, rfl⟩

/-- A task that is no schedule launches no copies. -/
theorem Step.copies_nothing (h : Step m pc m' pc') (hs : m.schedule = false)
    (hl : m.launched = 0) (hc : pc.ofSchedule = false) :
    m'.launched = 0 ∧ pc'.ofSchedule = false := by
  cases h
  case pickSeries hs' => cases hs.symm.trans hs'
  case pickCopy h => exact absurd hl h.ne'
  case launch | copyOver | dropFinished => cases hc
  case copy d | begin d _ | beginLost d _ => cases d <;> first | exact ⟨hl, rfl⟩ | cases hc
  case release b => cases b <;> exact ⟨hl, rfl⟩
  all_goals exact ⟨hl, rfl⟩

theorem Step.schedule_eq (h : Step m pc m' pc') : m'.schedule = m.schedule := by
  cases h
  case release b => cases b <;> rfl
  all_goals rfl

end Step

variable {m m' : Mem α} {pc' : Pc α} {loc : T → Pc α} {t : T}

/-- Nothing is owed on an empty mailbox. -/
theorem Stocked.owed_of_empty (hi : Stocked m loc) (hv : Values m loc) (hb : m.box = none) :
    m.state.owed = false := by
  refine Bool.eq_false_iff.mpr fun ho => hv.kept (hi.given ho) (fun hf => ?_) hb
  rw [hf] at ho
  cases ho

variable [Fintype T] [DecidableEq T]

omit [DecidableEq T] in
/-- Nobody holds the turn of a gate with nothing owed. -/
theorem Turns.idle (h : Turns m loc) (ho : m.state.owed = false) :
    m.queued = 0 ∧ ∀ u, (loc u).drives = false := by
  have hturn := h.turn
  rw [ho, Bool.toNat_false] at hturn
  exact ⟨by omega, count_eq_zero.mp (by omega)⟩

omit [DecidableEq T] in
/-- Whoever empties the mailbox leaves nobody who will copy it, and nothing owed. -/
theorem Stocked.empties (hi : Stocked m loc) (ht : Turns m loc) (hv : Values m loc)
    (hg : loc t = .dropClear → m.launched = 0 ∧ ∀ u, (loc u).fetches = false)
    (h : Step m (loc t) m' pc') (hb : m'.box = none) :
    m.state.owed = false ∧ m.launched = 0 ∧ ∀ u, (loc u).fetches = false := by
  rcases h.empties hb with hb' | hpc | ⟨⟨b, hpc⟩, hs⟩
  · exact ⟨hi.owed_of_empty hv hb', hi.runs hb'⟩
  · exact ⟨by rw [hv.clearing t hpc]; rfl, hg hpc⟩
  · obtain ⟨hl, hcopies⟩ := hi.schedule hs
    have ho : m.state.owed = false := by
      rw [ht.finished_of_ends (t := t) (hpc ▸ rfl)]
      rfl
    refine ⟨ho, hl, fun u => Bool.eq_false_iff.mpr fun hu => ?_⟩
    rcases Pc.fetches_cases hu with hd | hc
    · rw [(ht.idle ho).2 u] at hd
      cases hd
    · rw [hcopies u] at hc
      cases hc

/-- **A step leaves the mailbox to whoever will copy it.** -/
theorem Stocked.step (hi : Stocked m loc) (ht : Turns m loc) (hv : Values m loc)
    (hg : loc t = .dropClear → m.launched = 0 ∧ ∀ u, (loc u).fetches = false)
    (h : Step m (loc t) m' pc') : Stocked m' (Function.update loc t pc') := by
  refine ⟨fun ho => ?_, fun hb => ?_, fun hs => ?_⟩
  · refine lt_of_lt_of_le ?_ h.given_le
    rcases h.owed ho with ho | ⟨k, hk⟩
    · exact hi.given ho
    · exact Nat.zero_lt_of_lt (hv.gives.unanswered t k hk).1
  · obtain ⟨ho, hl, hf⟩ := hi.empties ht hv hg h hb
    obtain ⟨hq, hd⟩ := ht.idle ho
    obtain ⟨hl', ht'⟩ := h.picks_nothing hq hl (hd t) (hf t)
    exact ⟨hl', forall_update (P := (Pc.fetches · = false)) ht' fun u _ => hf u⟩
  · obtain ⟨hl, hcopies⟩ := hi.schedule (h.schedule_eq ▸ hs)
    obtain ⟨hl', ht'⟩ := h.copies_nothing (h.schedule_eq ▸ hs) hl (hcopies t)
    exact ⟨hl', forall_update (P := (Pc.ofSchedule · = false)) ht' fun u _ => hcopies u⟩

omit [DecidableEq T] in
theorem Fresh.stocked {n : ℕ} {s : Config T (Mem α) (Pc α)} (h : Fresh n s) :
    Stocked s.mem s.loc := by
  refine ⟨fun ho => ?_, fun _ => ⟨h.launched, fun u => ?_⟩, fun _ => ⟨h.launched, fun u => ?_⟩⟩
  · rw [h.state] at ho
    cases ho
  all_goals rcases h.loc u with hl | hl | hl <;> exact hl ▸ rfl

/-- **Every run finds a value in the mailbox**, single runs, the runs of a repeat and the copies
of a schedule alike, as long as no copy that is dropped clears it under another. -/
theorem run_finds_value {n : ℕ} {s : Config T (Mem α) (Pc α)}
    (hs : (machine α).Reach (Fresh n) ClearsLast s) (hf : (s.loc t).fetches = true) :
    s.mem.box ≠ none := by
  have hi : Stocked s.mem s.loc ∧ Turns s.mem s.loc ∧ Values s.mem s.loc :=
    hs.invariant (I := fun s => Stocked s.mem s.loc ∧ Turns s.mem s.loc ∧ Values s.mem s.loc)
      (fun _ h => ⟨h.stocked, h.turns, h.values⟩)
      fun _ _ _ _ _ ⟨hi, ht, hv⟩ hok hn => ⟨hi.step ht hv hok (next_step hn),
        ht.step (next_step hn), hv.step ht (next_step hn)⟩
  intro hb
  rw [(hi.1.runs hb).2 t] at hf
  cases hf

/-! ### A schedule with a give left -/

/-- A schedule just spawned with a limit of one give: its handle is with thread `1`, and the
other threads are the manager's and the pool's. -/
def newSchedule : Config (Fin 4) (Mem ℕ) (Pc ℕ) where
  mem := ⟨.waiting, 1, 1, true, true, none, 0, 0, 0, 0, fun _ => none, fun _ => false, 0⟩
  loc t := if t = 1 then .holds else .worker

theorem newSchedule_fresh : Fresh 1 newSchedule where
  state := rfl
  givesLeft := rfl
  schedule _ := rfl
  box := rfl
  queued := rfl
  launched := rfl
  given := rfl
  started := rfl
  verdict _ := rfl
  handed _ := rfl
  released := rfl
  loc t := by
    rcases eq_or_ne t 1 with rfl | ht
    · exact .inr (.inl rfl)
    · exact .inr (.inr (if_neg ht))
  givers := rfl

/-- Thread `1` gives `10`, and the manager launches two copies. A worker runs the first of them
and is about to drop it. -/
def twoCopies : List (Fin 4 × Act ℕ) :=
  giving 1 10 7 ++ [.pick, .launch, .launch].map (0, ·) ++ [.pickCopy, .go, .go, .go].map (2, ·)

/-- The second copy is picked up before the series ends. -/
theorem run_finds_value_twoCopies : ∃ s : Config (Fin 4) _ _,
    (machine ℕ).Reach (Fresh 1) ClearsLast s ∧ (s.loc 3).fetches = true ∧ s.mem.box ≠ none := by
  obtain ⟨s, hs, h⟩ : ∃ s : Config (Fin 4) _ _, (machine ℕ).Reach (Fresh 1) ClearsLast s ∧
      (s.loc 3).fetches = true :=
    (Machine.Reach.init newSchedule_fresh).exists_of_run (twoCopies ++ [(3, .pickCopy)])
      (by decide +kernel)
  exact ⟨s, hs, h, run_finds_value hs h⟩

/-- **A copy that finds nothing.** The series ends with the second copy still launched, and the
only give is spent, so the gate is finished. The first copy is dropped and clears the mailbox, and
the second finds it empty. -/
theorem copy_finds_nothing : ∃ s : Config (Fin 4) _ _,
    (machine ℕ).Reach (Fresh 1) Machine.unguarded s ∧ s.loc 3 = .copy false ∧
    s.mem.box = none := by
  refine (Machine.Reach.init newSchedule_fresh).exists_of_run (twoCopies ++
    [.go, .go, .go, .go].map (0, ·) ++ [.go, .go].map (2, ·) ++ [.pickCopy, .go].map (3, ·)) ?_
  decide +kernel

end Atap.Gate
