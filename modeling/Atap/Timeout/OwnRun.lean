import Atap.Timeout.Machine

/-!
# A timeout ends the run it was armed for

The manager compares the word its timer carries with the one in the slot, and then acts on the
slot in later steps, with nothing that keeps the run there meanwhile. So a run that ends in
between leaves whatever follows it to be ended: the next run of the same task, or a run of the
task the slot is given to next (`next_run_timed_out`).

As long as no run of the slot begins between that look and the last thing the manager does for the
timer (`Steady`), every run it ends, wakes or takes down is the one whose word the timer carried
(`timeout_ends_own_run`). A run that ends in between leaves the manager nothing to act on.

* `Pc.holds`: a run under way is in the hands of one thread, parked, or woken and in a queue.
* `Pc.window`: the manager has looked at the word and has not finished with the slot.
-/

namespace Atap.Timeout

open Function

variable {T : Type*}

namespace Pc

/-- The thread has the run under way in its hands. -/
def holds : Pc → Bool
  | time | arm _ | running | inWait | untime _ | unarm _ | settle _ | dead | downMove _
  | takeDown => true
  | _ => false

/-- The word of the timer the thread acts for, from its look at the deadline to its last step. -/
def window : Pc → Option ℕ
  | claimPark w | downMove w | move w => some w
  | interrupt o | interrupted o | unpark o => o
  | _ => none

end Pc

/-- No run begins while the manager is between its look at the word and the last thing it does for
the timer. -/
def Steady (s : Config T Mem Pc) (_ : T) (a : Act) : Prop :=
  a = .begin → ∀ u, (s.loc u).window = none

instance [Fintype T] [DecidableEq T] (s : Config T Mem Pc) (t : T) (a : Act) :
    Decidable (Steady s t a) :=
  inferInstanceAs (Decidable (_ → _))

/-- What a thread may rely on where it stands. -/
def View (m : Mem) : Pc → Prop
  | .time => m.run = some 0
  | .unarm _ | .settle _ => m.deadline = 0
  | _ => True

/-- The run under way, and the words of the slot that belong to it. -/
structure Held [Fintype T] (m : Mem) (loc : T → Pc) : Prop where
  /-- A run under way is in one place. -/
  token : count Pc.holds loc + m.parked.toNat + m.woken.toNat = m.run.isSome.toNat
  running : m.run = none → m.state ≠ .running
  held : m.run ≠ none → m.state.heldByRun = true
  /-- A run that can begin finds the clock stopped. -/
  stopped : m.run = none → m.state.heldByRun = false → m.deadline = 0
  deadline : m.deadline ≠ 0 → m.run = none ∨ m.run = some m.deadline
  waiting : m.waiting ≠ .no → ∃ t, loc t = .inWait
  view : ∀ t, View m (loc t)

/-- The manager acts for a timer on the run it was armed for, if on any. -/
structure Aimed (m : Mem) (loc : T → Pc) : Prop where
  window : ∀ t w, (loc t).window = some w → w ≠ 0 ∧ (m.run = none ∨ m.run = some w)
  log : ∀ e ∈ m.log, e.2 = some e.1

section Step

variable {m m' : Mem} {pc pc' : Pc} {a : Act}

/-- A step hands the run on, begins one, or ends it. -/
theorem Step.token (h : Step m pc a m' pc') (hb : m.begins = true → m.run = none)
    (hr : pc.holds = true ∨ m.parked = true ∨ m.woken = true → m.run.isSome = true)
    (hp : pc = .running → m.parked = false) (hw : m.parked = true → m.woken = false) :
    pc'.holds.toNat + m'.parked.toNat + m'.woken.toNat + m.run.isSome.toNat =
      pc.holds.toNat + m.parked.toNat + m.woken.toNat + m'.run.isSome.toNat := by
  cases h
  case begin h =>
    rw [hb h]
    simp [Pc.holds]
    omega
  case clock => rw [hr (.inl rfl)]; rfl
  case park => rw [hp rfl]; simp [Pc.holds]
  case resume hw' _ => simp [Pc.holds, hw']; omega
  case resumeStopped hw' _ => simp [Pc.holds, hw', hr (.inr (.inr hw'))]
  case settle | dead | downMove | takeDown => simp [Pc.holds, hr (.inl rfl)]; omega
  case wake hp' => simp [hp', hw hp']
  case wakeRefused hp' | claimPark hp' | unpark hp' => simp [Pc.holds, hp']
  all_goals rfl

/-- The state a run leaves as it ends. -/
theorem Step.ends (h : Step m pc a m' pc') (hm : m.run ≠ none → m.state.heldByRun = true)
    (hn : m.run ≠ none) (hn' : m'.run = none)
    (hv : View m pc) : m'.state ≠ .running ∧ (m'.state.heldByRun = true ∨ m'.deadline = 0) := by
  have hheld := hm hn
  cases h
  case settle ok =>
    refine ⟨?_, .inr hv⟩
    dsimp only
    split
    · cases ok <;> exact nofun
    · assumption
  case dead =>
    dsimp only [TaskState.fail]
    split
    case isTrue ht =>
      refine ⟨fun hr => ?_, .inl hheld⟩
      rw [hr] at ht
      cases ht
    case isFalse => exact ⟨nofun, .inl rfl⟩
  case downMove | takeDown =>
    dsimp only
    split
    · exact ⟨nofun, .inl rfl⟩
    · exact ⟨‹_›, .inl hheld⟩
  case resumeStopped h => exact ⟨h, .inl hheld⟩
  case begin | clock => cases hn'
  all_goals exact absurd hn' hn

/-- The state while no run is under way. -/
theorem Step.rests (h : Step m pc a m' pc') (hn' : m'.run = none) (hs : m.state ≠ .running)
    (hd : m.state.heldByRun = false → m.deadline = 0) :
    m'.state ≠ .running ∧ (m'.state.heldByRun = false → m'.deadline = 0) := by
  cases h
  case begin | clock => cases hn'
  case settle ok | downMove | takeDown =>
    dsimp only
    rw [if_neg hs]
    exact ⟨hs, hd⟩
  case dead =>
    dsimp only [TaskState.fail]
    split
    · exact ⟨hs, hd⟩
    · exact ⟨nofun, nofun⟩
  case move h => exact absurd h hs
  case stopMove => exact ⟨nofun, nofun⟩
  case take h => exact ⟨nofun, fun _ => hd (by rw [h]; rfl)⟩
  case reuse => exact ⟨nofun, fun _ => rfl⟩
  case untime | untimeNone => exact ⟨hs, fun _ => rfl⟩
  all_goals exact ⟨hs, hd⟩

/-- The state while a run is under way. -/
theorem Step.goes (h : Step m pc a m' pc') (hn : m'.run ≠ none)
    (hm : m.run ≠ none → m.state.heldByRun = true) (hv : View m pc) :
    m'.state.heldByRun = true := by
  cases h
  case begin | move | stopMove => rfl
  case clock => exact hm (by rw [hv]; exact nofun)
  case take h =>
    have := hm hn
    rw [h] at this
    cases this
  case reuse hr _ => exact absurd hr hn
  case settle | dead | downMove | takeDown | resumeStopped => exact absurd rfl hn
  all_goals exact hm hn

/-- The word in the slot is that of the run under way. -/
theorem Step.deadline (h : Step m pc a m' pc')
    (hd : m.deadline ≠ 0 → m.run = none ∨ m.run = some m.deadline)
    (hb : m.begins = true → m.deadline = 0) (hn : m'.deadline ≠ 0) :
    m'.run = none ∨ m'.run = some m'.deadline := by
  cases h
  case begin h => exact absurd (hb h) hn
  case clock => exact .inr rfl
  case settle | dead | downMove | takeDown | resumeStopped => exact .inl rfl
  case untime | untimeNone | reuse => exact absurd rfl hn
  all_goals exact hd hn

/-- A step of a thread that has nothing of the run in its hands. -/
theorem Step.apart (h : Step m pc a m' pc') (hb : m.begins = true → m.run = none)
    (hr : m.run ≠ none) (hpc : pc.holds = false) (hw : m.woken = false) :
    m'.run = m.run ∧ m'.deadline = m.deadline := by
  cases h
  case begin h => exact absurd (hb h) hr
  case clock | untime | untimeNone | settle | dead | downMove | takeDown => cases hpc
  case resumeStopped hw' _ => cases hw.symm.trans hw'
  case reuse hr' _ => exact absurd hr' hr
  all_goals exact ⟨rfl, rfl⟩

/-- A wait is on record only while a thread is in it. -/
theorem Step.waiting (h : Step m pc a m' pc') (hw : m'.waiting ≠ .no) :
    pc' = .inWait ∨ m.waiting ≠ .no ∧ pc ≠ .inWait := by
  cases h
  case wait => exact .inl rfl
  case waited | interrupted => exact absurd rfl hw
  case interrupt o h => exact .inr ⟨by rw [h]; exact nofun, nofun⟩
  all_goals exact .inr ⟨hw, nofun⟩

/-- What the thread that moves may rely on. -/
theorem Step.view (h : Step m pc a m' pc') (hv : View m pc) : View m' pc' := by
  cases h
  case unarm => exact hv
  all_goals trivial

/-- The manager comes to act for a timer once it has found its word in the slot. -/
theorem Step.window {w : ℕ} (h : Step m pc a m' pc') (hw : pc'.window = some w) :
    m'.run = m.run ∧ (pc.window = some w ∨ w ≠ 0 ∧ m.deadline = w) := by
  cases h
  case check v h0 h =>
    obtain rfl := Option.some.inj hw
    exact ⟨rfl, .inr ⟨h0, h⟩⟩
  all_goals first | exact ⟨rfl, .inl hw⟩ | cases hw

/-- The word of the run under way changes as a run begins or ends, and as its clock is started. -/
theorem Step.run (h : Step m pc a m' pc') :
    m'.run = m.run ∨ m'.run = none ∨ a = .begin ∨ pc = .time := by
  cases h
  case begin => exact .inr (.inr (.inl rfl))
  case clock => exact .inr (.inr (.inr rfl))
  case settle | dead | downMove | takeDown | resumeStopped => exact .inr (.inl rfl)
  all_goals exact .inl rfl

/-- What the manager does to a run for a timer. -/
theorem Step.log (h : Step m pc a m' pc') {e : ℕ × Option ℕ} (he : e ∈ m'.log) :
    e ∈ m.log ∨ pc.window = some e.1 ∧ e.2 = m.run ∧
      (pc.holds = true ∨ m.parked = true ∨ m.state = .running ∨ m.waiting ≠ .no) := by
  cases h
  case claimPark w hp =>
    rcases List.mem_cons.mp he with rfl | he
    · exact .inr ⟨rfl, rfl, .inr (.inl hp)⟩
    · exact .inl he
  case downMove w =>
    dsimp only at he
    split at he
    · rcases List.mem_cons.mp he with rfl | he
      · exact .inr ⟨rfl, rfl, .inl rfl⟩
      · exact .inl he
    · exact .inl he
  case move w hs =>
    rcases List.mem_cons.mp he with rfl | he
    · exact .inr ⟨rfl, rfl, .inr (.inr (.inl hs))⟩
    · exact .inl he
  case interrupt o hw =>
    cases o with
    | none => exact .inl he
    | some w =>
      rcases List.mem_cons.mp he with rfl | he
      · exact .inr ⟨rfl, rfl, .inr (.inr (.inr (by rw [hw]; exact nofun)))⟩
      · exact .inl he
  case unpark o hp =>
    cases o with
    | none => exact .inl he
    | some w =>
      rcases List.mem_cons.mp he with rfl | he
      · exact .inr ⟨rfl, rfl, .inr (.inl hp)⟩
      · exact .inl he
  all_goals exact .inl he

end Step

section Run

variable [Fintype T] {m m' : Mem} {pc' : Pc} {a : Act} {loc : T → Pc} {t : T}

namespace Held

theorem isSome_of_holds (hi : Held m loc) (ht : (loc t).holds = true) : m.run.isSome = true := by
  have hpos := count_pos ht
  have htoken := hi.token
  cases h : m.run.isSome with
  | true => rfl
  | false =>
    rw [h, Bool.toNat_false] at htoken
    omega

theorem isSome_of_parked (hi : Held m loc) (hp : m.parked = true ∨ m.woken = true) :
    m.run.isSome = true := by
  have htoken := hi.token
  cases h : m.run.isSome with
  | true => rfl
  | false =>
    rw [h, Bool.toNat_false] at htoken
    rcases hp with hp | hp <;> rw [hp, Bool.toNat_true] at htoken <;> omega

theorem run_of_begins (hi : Held m loc) (h : m.begins = true) : m.run = none := by
  by_contra hr
  have := hi.held hr
  rw [TaskState.not_heldByRun_of_begins h] at this
  cases this

/-- A thread with the run in its hands is the only one. -/
theorem alone (hi : Held m loc) (ht : (loc t).holds = true) :
    m.parked = false ∧ m.woken = false ∧ ∀ u, u ≠ t → (loc u).holds = false := by
  have htoken := hi.token
  have hpos := count_pos ht
  have hone := Bool.toNat_le m.run.isSome
  refine ⟨Bool.toNat_eq_zero.mp (by omega), Bool.toNat_eq_zero.mp (by omega), fun u hu => ?_⟩
  exact Bool.eq_false_iff.mpr fun h => hu (eq_of_count_le_one (by omega) h ht)

theorem woken_of_parked (hi : Held m loc) (hp : m.parked = true) : m.woken = false := by
  have htoken := hi.token
  have hone := Bool.toNat_le m.run.isSome
  rw [hp, Bool.toNat_true] at htoken
  exact Bool.toNat_eq_zero.mp (by omega)

/-- A thread that does not move may rely on what it did. -/
theorem view_other (hi : Held m loc) (h : Step m (loc t) a m' pc') {u : T} (hu : u ≠ t) :
    View m' (loc u) := by
  have hv := hi.view u
  cases hh : (loc u).holds with
  | true =>
    obtain ⟨-, hw, hother⟩ := hi.alone hh
    have hr : m.run ≠ none := Option.isSome_iff_ne_none.mp (hi.isSome_of_holds hh)
    obtain ⟨hrun, hdeadline⟩ := h.apart hi.run_of_begins hr (hother t hu.symm) hw
    generalize loc u = pc at hv
    cases pc <;> simp only [View, hrun, hdeadline] at hv ⊢ <;> exact hv
  | false =>
    generalize loc u = pc at hh
    cases pc <;> trivial

variable [DecidableEq T]

/-- **A step keeps the run under way in one place**, and its words with it. -/
theorem step (hi : Held m loc) (h : Step m (loc t) a m' pc') :
    Held m' (update loc t pc') where
  token := by
    have hstep := h.token hi.run_of_begins
      (fun hr => hr.elim hi.isSome_of_holds hi.isSome_of_parked)
      (fun hpc => (hi.alone (t := t) (hpc ▸ rfl)).1) hi.woken_of_parked
    have hupd := count_update Pc.holds loc t pc'
    have htoken := hi.token
    omega
  running hn' := by
    by_cases hn : m.run = none
    · exact (h.rests hn' (hi.running hn) (hi.stopped hn)).1
    · exact (h.ends hi.held hn hn' (hi.view t)).1
  held hn' := h.goes hn' hi.held (hi.view t)
  stopped hn' hs := by
    by_cases hn : m.run = none
    · exact (h.rests hn' (hi.running hn) (hi.stopped hn)).2 hs
    · rcases (h.ends hi.held hn hn' (hi.view t)).2 with hheld | hd
      · exact absurd (hs.symm.trans hheld) Bool.false_ne_true
      · exact hd
  deadline := h.deadline hi.deadline fun hb =>
    hi.stopped (hi.run_of_begins hb) (TaskState.not_heldByRun_of_begins hb)
  waiting hw := by
    rcases h.waiting hw with hpc | ⟨hw, hpc⟩
    · exact ⟨t, by rw [update_self, hpc]⟩
    · obtain ⟨u, hu⟩ := hi.waiting hw
      have hne : u ≠ t := by
        rintro rfl
        exact hpc hu
      exact ⟨u, by rwa [update_of_ne hne]⟩
  view := (Function.forall_update_iff loc fun _ pc => View m' pc).mpr
    ⟨h.view (hi.view t), fun _ hu => hi.view_other h hu⟩

end Held

omit [Fintype T] in
theorem Fresh.aimed {s : Config T Mem Pc} (h : Fresh s) : Aimed s.mem s.loc := by
  refine ⟨fun t w hw => ?_, ?_⟩
  · rw [h.loc t] at hw
    cases hw
  · rw [h.log]
    exact nofun

theorem Fresh.held {s : Config T Mem Pc} (h : Fresh s) : Held s.mem s.loc := by
  refine ⟨?_, fun _ => ?_, fun hr => absurd h.run hr, fun _ _ => h.deadline,
    fun hd => absurd h.deadline hd, fun hw => absurd h.waiting hw, fun t => ?_⟩
  · rw [h.parked, h.woken, h.run, count_eq_zero.mpr fun t => by rw [h.loc t]; rfl]
    rfl
  · rw [h.state]
    exact nofun
  · rw [h.loc t]
    trivial

/-- Something of the run is there, so the run is. -/
theorem Held.run_ne_none (hi : Held m loc)
    (h : (loc t).holds = true ∨ m.parked = true ∨ m.state = .running ∨ m.waiting ≠ .no) :
    m.run ≠ none := by
  rcases h with h | h | h | h
  · exact Option.isSome_iff_ne_none.mp (hi.isSome_of_holds h)
  · exact Option.isSome_iff_ne_none.mp (hi.isSome_of_parked (.inl h))
  · exact fun hn => hi.running hn h
  · obtain ⟨u, hu⟩ := hi.waiting h
    exact Option.isSome_iff_ne_none.mp (hi.isSome_of_holds (t := u) (hu ▸ rfl))

variable [DecidableEq T]

/-- **A step aims the manager at the run its timer was armed for.** -/
theorem Aimed.step (hi : Aimed m loc) (hh : Held m loc)
    (hg : a = .begin → ∀ u, (loc u).window = none)
    (h : Step m (loc t) a m' pc') : Aimed m' (update loc t pc') := by
  refine ⟨fun u w hw => ?_, fun e he => ?_⟩
  · rcases eq_or_ne u t with rfl | hne
    · rw [update_self] at hw
      obtain ⟨hrun, hwin | ⟨h0, hd⟩⟩ := h.window hw
      · rw [hrun]
        exact hi.window u w hwin
      · rw [hrun]
        exact ⟨h0, hd ▸ hh.deadline (hd ▸ h0)⟩
    · rw [update_of_ne hne] at hw
      obtain ⟨h0, haim⟩ := hi.window u w hw
      refine ⟨h0, ?_⟩
      rcases h.run with hrun | hrun | hbegin | hpc
      · rw [hrun]
        exact haim
      · exact .inl hrun
      · rw [hg hbegin u] at hw
        cases hw
      · -- The run has no word yet, so it is not one the manager looked at.
        have hv := hh.view t
        rw [hpc] at hv
        rcases haim with haim | haim
        · cases haim.symm.trans hv
        · exact absurd (Option.some.inj (haim.symm.trans hv)) h0
  · rcases h.log he with he | ⟨hwin, hrun, hthere⟩
    · exact hi.log e he
    · rw [hrun]
      exact (hi.window t e.1 hwin).2.resolve_left (hh.run_ne_none hthere)

/-- **A timeout ends the run it was armed for.** Whatever the manager did for a timer, ending a
run, waking it out of the kernel or taking its park, it did to the run whose word the timer
carried. -/
theorem timeout_ends_own_run {s : Config T Mem Pc} (hs : machine.Reach Fresh Steady s)
    {e : ℕ × Option ℕ} (he : e ∈ s.mem.log) : e.2 = some e.1 := by
  have hi := hs.invariant (I := fun s => Held s.mem s.loc ∧ Aimed s.mem s.loc)
    (fun _ h => ⟨h.held, h.aimed⟩)
    fun _ _ _ _ _ ⟨hh, ha⟩ hok hn => ⟨hh.step (next_step hn), ha.step hh hok (next_step hn)⟩
  exact hi.2.log e he

end Run

/-! ### A repeat with a timeout -/

/-- A repeat that has not begun. -/
def newRepeat : Config (Fin 2) Mem Pc where
  mem := ⟨.pending, true, 0, none, false, false, .no, none, []⟩
  loc _ := .idle

theorem newRepeat_fresh : Fresh newRepeat where
  state := rfl
  deadline := rfl
  parked := rfl
  woken := rfl
  waiting := rfl
  run := rfl
  log := rfl
  loc _ := rfl

/-- A run is timed with the word `5`, its timer fires, and the manager finds the word. -/
def found : List (Fin 2 × Act) :=
  [.begin, .clock 5, .go].map (0, ·) ++ [.fire, .go].map (1, ·)

/-- The run is still going, and the manager ends it. -/
theorem timeout_ends_own_run_newRepeat : ∃ s : Config (Fin 2) _ _,
    machine.Reach Fresh Steady s ∧ s.mem.state = .timedOut ∧
    ∃ e ∈ s.mem.log, e.2 = some e.1 := by
  obtain ⟨s, hs, hst, hl⟩ : ∃ s : Config (Fin 2) _ _, machine.Reach Fresh Steady s ∧
      s.mem.state = .timedOut ∧ s.mem.log = [(5, some 5)] :=
    (Machine.Reach.init newRepeat_fresh).exists_of_run (found ++ [.go, .go].map (1, ·))
      (by decide +kernel)
  have he : (5, some 5) ∈ s.mem.log := hl ▸ List.mem_singleton.mpr rfl
  exact ⟨s, hs, hst, _, he, timeout_ends_own_run hs he⟩

/-- **The next run is timed out.** The run ends between the manager's look and its exchange, and the
next one begins; the timer of the first, which carried `5`, ends the second, whose word is `9`. -/
theorem next_run_timed_out : ∃ s : Config (Fin 2) _ _,
    machine.Reach Fresh Machine.unguarded s ∧ s.mem.state = .timedOut ∧
    s.mem.log = [(5, some 9)] := by
  refine (Machine.Reach.init newRepeat_fresh).exists_of_run (found ++
    [.finish true, .go, .go, .go, .begin, .clock 9, .go].map (0, ·) ++ [.go, .go].map (1, ·)) ?_
  decide +kernel

end Atap.Timeout
