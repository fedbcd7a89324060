import Atap.Closing.Machine
import Atap.Gate.OneRun

/-!
# Who closes the gate

The last handle to go and the end of a run each write one word, the givers or the state of the
gate, and then look at the other's; a cancel comes to the gate from a third side. Between them
somebody always closes a gate that nothing can open again, and only one party does, and that
party lets the task go (`one_party_closes`). Whoever moves the gate out of `WAITING` holds the
task's only **turn** until the gate is back there or closed, as in `Atap.Gate.OneRun`; here the
turn can also wait with a parked task.

One way out does not go past the gate. A parked task that is taken down, by a cancel or because
the pool or the kernel turned it down, is dropped and let go by `take_down`, which leaves the gate
as it was: the gate reads `RUNNING` from then on, and no handle and no run is left to close it
(`taken_down_not_closed`). The theorem is about runs without that step (`Kept`).

* `Closers`: the turn, the letting go, the task itself and the last giver, each in one place.
* `Closers.step`: kept by every step.
-/

namespace Atap.Closing

open Function

open Gate (GateState Opening Ongoing)

variable {T : Type*}

/-- Where a thread is at home that takes a parked task down. -/
def Down.home : Down → Home
  | cancel b => b
  | run => .worker

namespace Pc

/-- Where a thread is at home. -/
def home : Pc → Home
  | idle b | start b | startFinish b | startFail b _ | letGo b | letGoFail b | finish b
  | dropSlot b | finishSeries b | release b | stopLook b | stopKind b _ | stopMove b _ => b
  | unpark d | takeDown d | takeFail d | takeRelease d => d.home
  | check | look | limit _ | move _ | spend _ => .holds
  | _ => .worker

/-- The thread has a handle that can give. -/
def gives (pc : Pc) : Bool := pc.home == .holds

/-- The thread holds the turn. -/
def drives : Pc → Bool
  | spend .waiting | start _ | startFinish _ | claim | begin _ | resume | prepare | execute
  | publish | kind | rearm _ | requeue | lost _ | lostClose | abortClose _ | deadLook | deadFail
  | parkRearm | parkSet | wakeQueue | afterLook | afterPending | afterLimit _ | afterGivers _
  | afterMove _ _ | clock => true
  | _ => false

/-- The thread is letting the task go, with the gate closed. -/
def ends : Pc → Bool
  | startFail _ _ | letGoFail _ | finish _ | dropSlot _ | finishSeries _ | release _
  | abortDrop _ | abortFail => true
  | _ => false

/-- The thread is on its way to close a gate that reads `WAITING` and has no giver. -/
def closes : Pc → Bool
  | letGo _ | afterRecheck | afterClose => true
  | _ => false

/-- The thread has the task in its hands. -/
def carries : Pc → Bool
  | begin _ | resume | prepare | execute | publish | kind | rearm _ | abortClose _ | abortDrop _
  | parkRearm => true
  | _ => false

/-- The thread comes from a run whose task may be gone already. -/
def dead : Pc → Bool
  | deadLook | deadFail | lostClose => true
  | _ => false

/-- The thread takes a parked task down. -/
def down : Pc → Bool
  | takeDown _ | takeFail _ | takeRelease _ => true
  | _ => false

/-- The next step starts to take a parked task down. -/
def takesDown (m : Mem) (a : Act) : Pc → Bool
  | unpark _ => m.parked
  | wakeQueue => a == .refuse
  | _ => false

theorem drives_of_dead {pc : Pc} (h : pc.dead = true) : pc.drives = true := by
  cases pc <;> first | rfl | cases h

theorem drives_or_ends_of_carries {pc : Pc} (h : pc.carries = true) :
    pc.drives = true ∨ pc.ends = true := by
  cases pc <;> first | exact .inl rfl | exact .inr rfl | cases h

end Pc

/-- No parked task is taken down. -/
def Kept (s : Config T Mem Pc) (t : T) (a : Act) : Prop := (s.loc t).takesDown s.mem a = false

instance (s : Config T Mem Pc) (t : T) (a : Act) : Decidable (Kept s t a) :=
  inferInstanceAs (Decidable (_ = _))

/-- One when the gate is closed. -/
def Mem.shut (m : Mem) : ℕ := (decide (m.gate = .finished)).toNat

@[simp] theorem Mem.shut_of_eq {m : Mem} (h : m.gate = .finished) : m.shut = 1 := by
  rw [Mem.shut, h]; rfl

@[simp] theorem Mem.shut_of_ne {m : Mem} (h : m.gate ≠ .finished) : m.shut = 0 := by
  rw [Mem.shut, decide_eq_false h]; rfl

theorem Mem.shut_of_owed {m : Mem} (h : m.gate.owed = true) : m.shut = 0 :=
  Mem.shut_of_ne fun hg => by rw [hg] at h; cases h

theorem Mem.shut_le (m : Mem) : m.shut ≤ 1 := Bool.toNat_le _

@[simp] theorem Mem.shut_finish (m : Mem) : m.finish.shut = 1 := rfl

theorem Mem.closings_finish (m : Mem) : m.finish.closings + m.shut = m.closings + 1 := by
  rw [Mem.finish, Mem.shut]
  by_cases h : m.gate = .finished <;> simp [h]

theorem Mem.owed_beginGate (m : Mem) : m.beginGate.gate.owed = m.gate.owed := by
  rw [Mem.beginGate]
  cases h : m.gate <;> rfl

theorem Mem.shut_beginGate (m : Mem) : m.beginGate.shut = m.shut := by
  rw [Mem.shut, Mem.shut, Mem.beginGate]
  cases h : m.gate <;> rfl

section Step

variable {m m' : Mem} {pc pc' : Pc} {a : Act}

/-- A step that is not refused starts no taking down, and one that is not part of it ends none. -/
theorem Step.down (h : Step m pc a m' pc') (hk : pc.takesDown m a = false)
    (hd : pc.down = false) : pc'.down = false := by
  cases h
  case unpark h => cases h.symm.trans hk
  case wakeRefused => cases hk
  case unparkNone d => cases d <;> rfl
  case startFail h | lost h => obtain rfl | ⟨_, rfl⟩ := h <;> rfl
  case copyLand h => obtain rfl | rfl | ⟨_, rfl⟩ := h <;> rfl
  all_goals first | rfl | cases hd

/-- **A step passes the turn on**, takes it up as it opens the gate, or gives it up as it closes
it. -/
theorem Step.turn (h : Step m pc a m' pc') (hk : pc.takesDown m a = false)
    (hdown : pc.down = false) (hd : pc.drives = true → m.gate.owed = true)
    (hp : pc.drives = true → m.parked = false) (he : pc.ends = true → m.gate = .finished)
    (hb : pc = .claim → m.boxed = true) :
    m'.queued + m'.parked.toNat + pc'.drives.toNat + m.gate.owed.toNat =
      m.queued + m.parked.toNat + pc.drives.toNat + m'.gate.owed.toNat := by
  cases h
  -- The gate moves.
  case moveWon saw h => rw [h]; cases saw <;> rfl
  case startFinish | abortClose | lostClose | overWon | waitWon => rw [hd rfl]; rfl
  case letGoWon h | owedWon h | recloseWon h => rw [h]; rfl
  case finish => rw [he rfl]; rfl
  case prepare | copyBegin => rw [Mem.owed_beginGate]; rfl
  -- The gate cannot have been moved on behind the back of the turn.
  case afterWaiting h | afterFinished h => exact absurd (hd rfl) (by rw [h]; decide)
  -- The turn goes from a thread to the queue or to the park, or back.
  case pickRun h _ | pickSeries h _ | fireRefused h | start | requeue | wakeQueue =>
    simp [Pc.drives]; omega
  case parkSet => rw [hp rfl]; rfl
  case wake h => rw [h]; rfl
  case claimNone h => cases h.symm.trans (hb rfl)
  case unpark h => cases h.symm.trans hk
  case wakeRefused => cases hk
  case unparkNone d => cases d <;> rfl
  case takeRelease => cases hdown
  case startFail h | lost h => obtain rfl | ⟨_, rfl⟩ := h <;> rfl
  case copyLand h => obtain rfl | rfl | ⟨_, rfl⟩ := h <;> rfl
  all_goals rfl

/-- **A step that closes the gate starts letting the task go**, and only that one does. -/
theorem Step.ending (h : Step m pc a m' pc') (hdown : pc.down = false)
    (hd : pc.drives = true → m.gate.owed = true) (he : pc.ends = true → m.gate = .finished) :
    m'.released + pc'.ends.toNat + m.shut = m.released + pc.ends.toNat + m'.shut := by
  cases h
  case moveWon saw h =>
    rw [Mem.shut_of_ne (by rw [h]; cases saw <;> decide), Mem.shut_of_ne (by cases saw <;> nofun)]
    rfl
  case startFinish | abortClose | lostClose | overWon =>
    rw [Mem.shut_of_owed (hd rfl), Mem.shut_finish]; rfl
  case waitWon => rw [Mem.shut_of_owed (hd rfl)]; rfl
  case letGoWon h | recloseWon h =>
    rw [Mem.shut_of_ne (by rw [h]; decide), Mem.shut_finish]; rfl
  case owedWon h => rw [Mem.shut_of_ne (by rw [h]; decide)]; rfl
  case finish => rw [Mem.shut_of_eq (he rfl), Mem.shut_finish]; rfl
  case prepare | copyBegin => rw [Mem.shut_beginGate]; rfl
  case afterFinished h => exact absurd (hd rfl) (by rw [h]; decide)
  case release b => exact congrArg (· + m.shut) (Nat.add_right_comm _ _ _)
  case unparkNone d => cases d <;> rfl
  case takeRelease => cases hdown
  case startFail h | lost h => obtain rfl | ⟨_, rfl⟩ := h <;> rfl
  case copyLand h => obtain rfl | rfl | ⟨_, rfl⟩ := h <;> rfl
  all_goals rfl

/-- The gate is closed once, since no step opens it again. -/
theorem Step.closings (h : Step m pc a m' pc') (hd : pc.drives = true → m.gate.owed = true) :
    m'.closings + m.shut = m.closings + m'.shut := by
  cases h
  case moveWon saw h =>
    rw [Mem.shut_of_ne (by rw [h]; cases saw <;> decide), Mem.shut_of_ne (by cases saw <;> nofun)]
  case startFinish | abortClose | lostClose | overWon | letGoWon | recloseWon | finish =>
    exact Mem.closings_finish m
  case waitWon => rw [Mem.shut_of_owed (hd rfl)]; rfl
  case owedWon h => rw [Mem.shut_of_ne (by rw [h]; decide)]; rfl
  case prepare | copyBegin => rw [Mem.shut_beginGate]; rfl
  all_goals rfl

/-- The task is in its slot, in the hands of a run, or gone. -/
theorem Step.box (h : Step m pc a m' pc') (hc : pc.carries = true → m.boxed = false) :
    m'.boxed.toNat + pc'.carries.toNat + m'.dropped =
      m.boxed.toNat + pc.carries.toNat + m.dropped := by
  cases h
  case claim h => rw [h]; rfl
  case rearmOver | rearmMore | parkRearm => rw [hc rfl]; rfl
  case dropSlot | takeDown => simp only [Mem.dropBoxed, Pc.carries, Bool.toNat_false]; omega
  case die | abortDrop | panicDrop =>
    simp only [Pc.carries, Bool.toNat_false, Bool.toNat_true]; omega
  case unparkNone d | takeRelease d => cases d <;> rfl
  case startFail h | lost h => obtain rfl | ⟨_, rfl⟩ := h <;> rfl
  case copyLand h => obtain rfl | rfl | ⟨_, rfl⟩ := h <;> rfl
  all_goals rfl

/-- The task is dropped once the gate is closed, or by a thread that dies with it. -/
theorem Step.dropped (h : Step m pc a m' pc') (hdown : pc.down = false)
    (he : pc.ends = true → m.gate = .finished) :
    m'.dropped = m.dropped ∨ m'.shut = 1 ∨ pc'.dead = true := by
  cases h
  case dropSlot | abortDrop | panicDrop => exact .inr (.inl (Mem.shut_of_eq (he rfl)))
  case die => exact .inr (.inr rfl)
  case takeDown => cases hdown
  all_goals exact .inl rfl

/-- A thread that died with the task goes on to close the gate. -/
theorem Step.dead (h : Step m pc a m' pc') (hd : pc.drives = true → m.gate.owed = true) :
    m.shut + pc.dead.toNat ≤ m'.shut + pc'.dead.toNat := by
  cases h
  case moveWon saw h =>
    rw [Mem.shut_of_ne (by rw [h]; cases saw <;> decide)]
    exact Nat.zero_le _
  case lostClose => rw [Mem.shut_of_owed (hd rfl), Mem.shut_finish]; rfl
  case waitWon => rw [Mem.shut_of_owed (hd rfl)]; exact Nat.zero_le _
  case owedWon h => rw [Mem.shut_of_ne (by rw [h]; decide)]; exact Nat.zero_le _
  case startFinish | abortClose | overWon | letGoWon | recloseWon | finish =>
    rw [Mem.shut_finish]; exact Mem.shut_le m
  case prepare | copyBegin => rw [Mem.shut_beginGate]; exact le_rfl
  all_goals first | exact le_rfl | exact Nat.le_add_right _ _

/-- The givers are the threads that have a handle. -/
theorem Step.handles (h : Step m pc a m' pc') (hg : pc.gives = true → 0 < m.givers) :
    m'.givers + pc.gives.toNat = m.givers + pc'.gives.toNat := by
  cases h
  case leave | lastLeave => exact Nat.sub_add_cancel (hg rfl)
  case unparkNone d | takeRelease d => cases d <;> rfl
  case startFail h | lost h => obtain rfl | ⟨_, rfl⟩ := h <;> rfl
  case copyLand h => obtain rfl | rfl | ⟨_, rfl⟩ := h <;> rfl
  all_goals rfl

/-- **Nobody turns away from a gate left to them.** The step that makes the gate read `WAITING`,
and the step that drops the last handle, each leave their thread on its way to close it. -/
theorem Step.closes (h : Step m pc a m' pc') (hg : pc.gives = true → 0 < m.givers)
    (hw : m'.gate = .waiting) (h0 : m'.givers = 0) :
    pc'.closes = true ∨ pc.closes = false ∧ m.gate = .waiting ∧ m.givers = 0 := by
  cases h
  case leave h =>
    have hpos := hg rfl
    dsimp only at h0
    omega
  case lastLeave | waitWon | recheckGone => exact .inl rfl
  case moveWon saw h => cases saw <;> cases hw
  case letGoLost h | recloseLost h => exact absurd hw h
  case recheckHeld h => exact absurd h0 h
  case prepare | copyBegin =>
    refine .inr ⟨rfl, ?_, h0⟩
    dsimp only [Mem.beginGate] at hw
    split at hw
    · cases hw
    · exact hw
  all_goals first | exact .inr ⟨rfl, hw, h0⟩ | cases hw | cases h0

end Step

/-- The turn, the letting go, the task and the handles are each accounted for, and somebody is
there to close a gate nothing can open. -/
structure Closers [Fintype T] (m : Mem) (loc : T → Pc) : Prop where
  turn : m.queued + m.parked.toNat + count Pc.drives loc = m.gate.owed.toNat
  ending : m.released + count Pc.ends loc = m.shut
  closings : m.closings = m.shut
  kept : ∀ t, (loc t).down = false
  givers : m.givers = count Pc.gives loc
  box : m.boxed.toNat + count Pc.carries loc + m.dropped = 1
  gone : m.dropped ≤ m.shut + count Pc.dead loc
  closer : m.gate = .waiting → m.givers = 0 → ∃ t, (loc t).closes = true

section Run

variable [Fintype T] {m m' : Mem} {pc' : Pc} {a : Act} {loc : T → Pc} {t : T}

namespace Closers

theorem owed_of_drives (hi : Closers m loc) (ht : (loc t).drives = true) :
    m.gate.owed = true := by
  have hpos := count_pos ht
  have hturn := hi.turn
  cases ho : m.gate.owed with
  | true => rfl
  | false =>
    rw [ho, Bool.toNat_false] at hturn
    omega

/-- Only one thread holds the turn, and nothing is queued or parked meanwhile. -/
theorem alone (hi : Closers m loc) (ht : (loc t).drives = true) :
    m.parked = false ∧ ∀ u, u ≠ t → (loc u).drives = false := by
  have hpos := count_pos ht
  have hturn := hi.turn
  have hone := Bool.toNat_le m.gate.owed
  refine ⟨Bool.toNat_eq_zero.mp (by omega), fun u hu => ?_⟩
  exact Bool.eq_false_iff.mpr fun h => hu (eq_of_count_le_one (by omega) h ht)

theorem finished_of_ends (hi : Closers m loc) (ht : (loc t).ends = true) :
    m.gate = .finished := by
  have hpos := count_pos ht
  have hending := hi.ending
  by_contra hne
  rw [Mem.shut_of_ne hne] at hending
  omega

theorem boxed_of_carries (hi : Closers m loc) (ht : (loc t).carries = true) :
    m.boxed = false := by
  have hpos := count_pos ht
  have hbox := hi.box
  exact Bool.toNat_eq_zero.mp (by omega)

theorem givers_pos (hi : Closers m loc) (ht : (loc t).gives = true) : 0 < m.givers := by
  rw [hi.givers]
  exact count_pos ht

/-- A run that is picked up finds the task in its slot. -/
theorem boxed_of_claim (hi : Closers m loc) (ht : loc t = .claim) : m.boxed = true := by
  have hdrives : (loc t).drives = true := by rw [ht]; rfl
  have howed := hi.owed_of_drives hdrives
  have hother := (hi.alone hdrives).2
  have hcarries : count Pc.carries loc = 0 := count_eq_zero.mpr fun u => by
    rcases eq_or_ne u t with rfl | hu
    · rw [ht]; rfl
    · refine Bool.eq_false_iff.mpr fun hc => ?_
      rcases Pc.drives_or_ends_of_carries hc with hd | he
      · exact absurd hd (by rw [hother u hu]; decide)
      · rw [hi.finished_of_ends he] at howed
        cases howed
  have hdead : count Pc.dead loc = 0 := count_eq_zero.mpr fun u => by
    rcases eq_or_ne u t with rfl | hu
    · rw [ht]; rfl
    · exact Bool.eq_false_iff.mpr fun hc =>
        absurd (Pc.drives_of_dead hc) (by rw [hother u hu]; decide)
  have hgone := hi.gone
  have hbox := hi.box
  rw [Mem.shut_of_owed howed, hdead] at hgone
  exact Bool.toNat_eq_one.mp (by omega)

variable [DecidableEq T]

/-- **A step keeps every account.** -/
theorem step (hi : Closers m loc) (hk : (loc t).takesDown m a = false)
    (h : Step m (loc t) a m' pc') : Closers m' (update loc t pc') := by
  have hd : (loc t).drives = true → m.gate.owed = true := hi.owed_of_drives
  have he : (loc t).ends = true → m.gate = .finished := hi.finished_of_ends
  have hdown := hi.kept t
  have hbox : m'.boxed.toNat + count Pc.carries (update loc t pc') + m'.dropped = 1 := by
    have hs := h.box hi.boxed_of_carries
    have hc := count_update Pc.carries loc t pc'
    have := hi.box
    omega
  exact {
    turn := by
      have hs := h.turn hk hdown hd (fun ht => (hi.alone ht).1) he hi.boxed_of_claim
      have hc := count_update Pc.drives loc t pc'
      have := hi.turn
      omega
    ending := by
      have hs := h.ending hdown hd he
      have hc := count_update Pc.ends loc t pc'
      have := hi.ending
      omega
    closings := by
      have hs := h.closings hd
      have := hi.closings
      omega
    kept := forall_update (P := (Pc.down · = false)) (h.down hk hdown) fun u _ => hi.kept u
    givers := eq_count_update hi.givers (h.handles hi.givers_pos)
    box := hbox
    gone := by
      have hs := h.dead hd
      have hc := count_update Pc.dead loc t pc'
      have hgone := hi.gone
      rcases h.dropped hdown he with heq | hshut | hdead
      · omega
      · omega
      · have := count_pos (p := Pc.dead) (f := update loc t pc') (t := t)
          (by rw [update_self]; exact hdead)
        omega
    closer := fun hw h0 => by
      refine exists_update (P := (Pc.closes · = true)) ((h.closes hi.givers_pos hw h0).imp_right ?_)
      exact fun ⟨hpc, hw, h0⟩ => ⟨hi.closer hw h0, Bool.eq_false_iff.mp hpc⟩ }

end Closers

theorem Fresh.closers {s : Config T Mem Pc} (h : Fresh s) : Closers s.mem s.loc := by
  have hidle (p : Pc → Bool) (hp : ∀ b, p (.idle b) = false) : count p s.loc = 0 :=
    count_eq_zero.mpr fun t => by
      obtain ⟨b, hb⟩ := h.loc t
      rw [hb, hp]
  have hshut : s.mem.shut = 0 := Mem.shut_of_ne (by rw [h.gate]; decide)
  exact {
    turn := by rw [h.queued, h.parked, h.gate, hidle Pc.drives fun _ => rfl]; rfl
    ending := by rw [h.released, hshut, hidle Pc.ends fun _ => rfl]
    closings := by rw [h.closings, hshut]
    kept := fun t => by
      obtain ⟨b, hb⟩ := h.loc t
      rw [hb]; rfl
    givers := by
      rw [h.givers]
      refine congrArg Finset.univ.sum (funext fun t => ?_)
      obtain ⟨b, hb⟩ := h.loc t
      dsimp only
      rw [hb]
      cases b <;> rfl
    box := by rw [h.boxed, h.dropped, hidle Pc.carries fun _ => rfl]; rfl
    gone := by rw [h.dropped]; exact Nat.zero_le _
    closer := fun _ h0 => absurd h0 h.held.ne' }

/-- With nothing queued or parked and every thread idle, a task no handle can give to has been
closed and let go. -/
theorem Closers.settled (hi : Closers m loc) (h0 : m.givers = 0) (hq : m.queued = 0)
    (hp : m.parked = false) (hidle : ∀ t, ∃ b, loc t = .idle b) :
    m.gate = .finished ∧ m.released = 1 := by
  have hnone (p : Pc → Bool) (hb : ∀ b, p (.idle b) = false) (t : T) : p (loc t) = false := by
    obtain ⟨b, ht⟩ := hidle t
    rw [ht, hb]
  have hturn := hi.turn
  rw [hq, hp, count_eq_zero.mpr (hnone Pc.drives fun _ => rfl)] at hturn
  have hgate : m.gate = .finished := by
    cases hg : m.gate with
    | waiting =>
      obtain ⟨t, ht⟩ := hi.closer hg h0
      cases ht.symm.trans (hnone Pc.closes (fun _ => rfl) t)
    | finished => rfl
    | queued | running | pending =>
      rw [hg] at hturn
      cases hturn
  refine ⟨hgate, ?_⟩
  have hending := hi.ending
  rwa [count_eq_zero.mpr (hnone Pc.ends fun _ => rfl), Mem.shut_of_eq hgate] at hending

variable [DecidableEq T]

theorem closers_of_reach {s : Config T Mem Pc} (hs : machine.Reach Fresh Kept s) :
    Closers s.mem s.loc :=
  hs.invariant (I := fun s => Closers s.mem s.loc) (fun _ h => h.closers)
    fun _ _ _ _ _ hi hk hn => hi.step hk (next_step hn)

/-- **One party closes the gate and lets the task go.** In every interleaving of clones and drops
of handles, gives, runs and cancels in which no parked task is taken down: a gate that reads
`WAITING` with no giver left has a thread on its way to close it; the gate is closed at most once,
and whoever closed it, and nobody else, lets the task go; and once nothing is left to happen and no
handle can give, the gate has been closed and the task let go. -/
theorem one_party_closes {s : Config T Mem Pc} (hs : machine.Reach Fresh Kept s) :
    (s.mem.gate = .waiting → s.mem.givers = 0 → ∃ t, (s.loc t).closes = true) ∧
    s.mem.closings = (if s.mem.gate = .finished then 1 else 0) ∧
    s.mem.released + count Pc.ends s.loc = s.mem.closings ∧
    (s.mem.givers = 0 → s.mem.queued = 0 → s.mem.parked = false →
      (∀ t, ∃ b, s.loc t = .idle b) → s.mem.gate = .finished ∧ s.mem.released = 1) := by
  have hi := closers_of_reach hs
  refine ⟨hi.closer, ?_, hi.ending.trans hi.closings.symm, hi.settled⟩
  rw [hi.closings]
  split
  · exact Mem.shut_of_eq ‹_›
  · exact Mem.shut_of_ne ‹_›

end Run

/-- A waiting task just spawned, with one thread of the pool and one handle. -/
def spawned : Config (Fin 2) Mem Pc where
  mem := ⟨.pending, false, .waiting, 1, 1, false, false, true, false, 0, 0, 0, 0, 0⟩
  loc t := if t = 0 then .idle .worker else .idle .holds

theorem spawned_fresh : Fresh spawned where
  task := rfl
  repeats := rfl
  schedule := nofun
  gate := rfl
  boxed := rfl
  parked := rfl
  queued := rfl
  launched := rfl
  closings := rfl
  dropped := rfl
  released := rfl
  loc t := by
    rcases eq_or_ne t 0 with rfl | ht
    · exact ⟨.worker, rfl⟩
    · exact ⟨.holds, if_neg ht⟩
  givers := rfl
  held := Nat.one_pos

/-- The schedule of a give, and of the run it starts up to where the task does something. -/
def underWay : List (Fin 2 × Act) :=
  (1, .give) :: List.replicate 6 (1, .go) ++ (0, .pick) :: List.replicate 3 (0, .go)

/-- Every thread is idle, no handle can give, and nothing is queued or parked. -/
def quiet (s : Config (Fin 2) Mem Pc) : Bool :=
  s.mem.givers == 0 && s.mem.queued == 0 && !s.mem.parked && s.loc 0 == .idle .worker &&
    s.loc 1 == .idle .out

theorem quiet_iff {s : Config (Fin 2) Mem Pc} (h : quiet s = true) :
    s.mem.givers = 0 ∧ s.mem.queued = 0 ∧ s.mem.parked = false ∧
      ∀ t, ∃ b, s.loc t = .idle b := by
  simp only [quiet, Bool.and_eq_true, beq_iff_eq, Bool.not_eq_true'] at h
  obtain ⟨⟨⟨⟨h0, hq⟩, hp⟩, hw⟩, ho⟩ := h
  exact ⟨h0, hq, hp, Fin.forall_fin_two.mpr ⟨⟨_, hw⟩, ⟨_, ho⟩⟩⟩

/-- The last handle goes while a run is under way: it leaves the gate to the run, and the run
closes it. -/
theorem one_party_closes_lastHandle : ∃ s : Config (Fin 2) _ _,
    machine.Reach Fresh Kept s ∧ s.mem.givers = 0 ∧ s.mem.gate = .finished ∧
      s.mem.released = 1 := by
  obtain ⟨s, hs, h⟩ : ∃ s, machine.Reach Fresh Kept s ∧ quiet s = true :=
    (Machine.Reach.init spawned_fresh).exists_of_run
      (underWay ++ [(1, .leave), (1, .go)] ++ List.replicate 11 (0, .go)) (by decide +kernel)
  obtain ⟨h0, hq, hp, hidle⟩ := quiet_iff h
  exact ⟨s, hs, h0, (one_party_closes hs).2.2.2 h0 hq hp hidle⟩

/-- A run parks, and the task is cancelled: the cancel lets the task go and leaves the gate as it
was. The last handle then finds a run under way, and nothing is left that could close the gate. -/
theorem taken_down_not_closed : ∃ s : Config (Fin 2) _ _,
    machine.Reach Fresh Machine.unguarded s ∧ s.mem.released = 1 ∧ s.mem.gate = .running ∧
      s.mem.closings = 0 ∧ s.mem.givers = 0 ∧ s.mem.queued = 0 ∧ s.mem.parked = false ∧
      ∀ t, ∃ b, s.loc t = .idle b := by
  obtain ⟨s, hs, hquiet, hr, hg, hc⟩ : ∃ s, machine.Reach Fresh Machine.unguarded s ∧
      quiet s = true ∧ s.mem.released = 1 ∧ s.mem.gate = .running ∧ s.mem.closings = 0 :=
    (Machine.Reach.init spawned_fresh).exists_of_run (underWay ++ (0, .park) ::
      List.replicate 4 (0, .go) ++ (1, .cancel) :: List.replicate 8 (1, .go) ++
      [(1, .leave), (1, .go)]) (by decide +kernel)
  exact ⟨s, hs, hr, hg, hc, quiet_iff hquiet⟩

end Atap.Closing
