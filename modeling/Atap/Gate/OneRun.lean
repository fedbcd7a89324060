import Atap.Gate.Machine

/-!
# One run at a time, and one letting go

Whoever moves the gate out of `WAITING` holds the only **turn** of the task until it is back
in `WAITING` or `FINISHED`: a giver on its way to `start_waiting`, the queue, the thread that
runs the task, and the end of the run on its way to `start_waiting` again pass it on. In the
same way whoever moves the gate to `FINISHED` is the only one to let the task go.

* `Turns`: the turn is held exactly while the gate is out of `WAITING` and `FINISHED`, and
  the task is being let go, or has been, exactly once the gate is `FINISHED`.
* `Turns.step`, `turns_of_reach`: kept by every step, so held in every interleaving.
-/

namespace Atap.Gate

variable {T α : Type*}

/-- A run or a series is owed, queued or under way. -/
def GateState.owed : GateState → Bool
  | queued | running | pending => true
  | waiting | finished => false

namespace Pc

/-- The thread holds the turn: what it does next decides when the task runs. -/
def drives : Pc α → Bool
  | spend _ .waiting | start _ | clock | prepare true | copy true | execute true | again
  | afterLook | afterPending | afterLimit _ | afterGivers _ | afterMove _ _ => true
  | _ => false

/-- The thread belongs to a schedule. -/
def ofSchedule : Pc α → Bool
  | clock | prepare false | copy false | execute false | dropLook | dropClear => true
  | _ => false

/-- The thread is letting the task go. -/
def ends : Pc α → Bool
  | finish _ | dropTask _ | release _ => true
  | _ => false

end Pc

/-- The turn, and the letting go, are each in one place. -/
structure Turns [Fintype T] (m : Mem α) (loc : T → Pc α) : Prop where
  turn : m.queued + count Pc.drives loc = m.state.owed.toNat
  ending : m.released + count Pc.ends loc = (decide (m.state = .finished)).toNat

section Step

variable {m m' : Mem α} {pc pc' : Pc α}

/-- A step passes the turn on, takes it up as it opens the gate, or gives it up as it
closes it. -/
theorem Step.turn (h : Step m pc m' pc') (hd : pc.drives = true → m.state.owed = true)
    (he : pc.ends = true → m.state = .finished) :
    m'.queued + pc'.drives.toNat + m.state.owed.toNat =
      m.queued + pc.drives.toNat + m'.state.owed.toNat := by
  cases h
  -- The gate moves.
  case moveWon k saw h => rw [h]; cases saw <;> rfl
  case startRefused | againRefused | overWon saw h | waitWon saw h => rw [hd rfl]; rfl
  case closeWon h => rw [h]; rfl
  case begin d h => rw [h]; cases d <;> rfl
  case owedWon h => rw [h]; rfl
  case recloseWon h => rw [h]; rfl
  case finish => rw [he rfl]; rfl
  -- The turn goes from the queue to a thread.
  case pickRun h _ | pickSeries h _ =>
    exact congrArg (· + m.state.owed.toNat) (Nat.sub_add_cancel h)
  -- The gate cannot have been moved on behind the back of the turn.
  case afterWaiting h | afterFinished h => exact absurd (hd rfl) (by rw [h]; decide)
  case beginLost d _ => cases d <;> rfl
  case copy d => cases d <;> rfl
  case release b => cases b <;> rfl
  all_goals rfl

/-- A step that finishes the gate starts letting the task go, and only that. -/
theorem Step.ending (h : Step m pc m' pc') (hd : pc.drives = true → m.state.owed = true)
    (he : pc.ends = true → m.state = .finished) :
    m'.released + pc'.ends.toNat + (decide (m.state = .finished)).toNat =
      m.released + pc.ends.toNat + (decide (m'.state = .finished)).toNat := by
  have hopen : m.state.owed = true → decide (m.state = .finished) = false := by
    cases m.state <;> decide
  cases h
  case moveWon k saw h => rw [h]; cases saw <;> rfl
  case startRefused | againRefused | overWon saw h | waitWon saw h => rw [hopen (hd rfl)]; rfl
  case closeWon h => rw [h]; rfl
  case begin d h => rw [h]; rfl
  case owedWon h => rw [h]; rfl
  case recloseWon h => rw [h]; rfl
  case finish => rw [he rfl]; rfl
  case afterFinished h => exact absurd (hd rfl) (by rw [h]; decide)
  case release b => cases b <;> exact Nat.add_right_comm _ _ _
  all_goals rfl

end Step

section Run

variable [Fintype T] {m m' : Mem α} {pc' : Pc α} {loc : T → Pc α} {t : T}

theorem Turns.owed_of_drives (hi : Turns m loc) (hd : (loc t).drives = true) :
    m.state.owed = true := by
  have hpos := count_pos hd
  have hturn := hi.turn
  cases ho : m.state.owed
  · rw [ho] at hturn
    exact absurd hturn (by simp only [Bool.toNat_false]; omega)
  · rfl

/-- Only one thread holds the turn. -/
theorem Turns.not_drives_of_ne (hi : Turns m loc) {u : T} (ht : (loc t).drives = true)
    (h : u ≠ t) : (loc u).drives = false := by
  have hle : count Pc.drives loc ≤ 1 := by
    have hturn := hi.turn
    have hone := Bool.toNat_le m.state.owed
    omega
  exact Bool.eq_false_iff.mpr fun hu => h (eq_of_count_le_one hle hu ht)

theorem Turns.finished_of_ends (hi : Turns m loc) (he : (loc t).ends = true) :
    m.state = .finished := by
  have hpos := count_pos he
  have hending := hi.ending
  by_contra hne
  rw [decide_eq_false hne] at hending
  simp only [Bool.toNat_false] at hending
  omega

theorem Fresh.turns {n : ℕ} {s : Config T (Mem α) (Pc α)} (h : Fresh n s) :
    Turns s.mem s.loc := by
  have hd : count Pc.drives s.loc = 0 := count_eq_zero.mpr fun t => by
    rcases h.loc t with hl | hl | hl <;> rw [hl] <;> rfl
  have he : count Pc.ends s.loc = 0 := count_eq_zero.mpr fun t => by
    rcases h.loc t with hl | hl | hl <;> rw [hl] <;> rfl
  constructor
  · rw [h.queued, h.state, hd]; rfl
  · rw [h.released, h.state, he]; rfl

variable [DecidableEq T]

/-- **A step keeps the turn in one place.** -/
theorem Turns.step (hi : Turns m loc) (h : Step m (loc t) m' pc') :
    Turns m' (Function.update loc t pc') where
  turn := by
    have hs := h.turn hi.owed_of_drives hi.finished_of_ends
    have hc := count_update Pc.drives loc t pc'
    have hturn := hi.turn
    omega
  ending := by
    have hs := h.ending hi.owed_of_drives hi.finished_of_ends
    have hc := count_update Pc.ends loc t pc'
    have hending := hi.ending
    omega

end Run

end Atap.Gate
