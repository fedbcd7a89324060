import Atap.Interleave.Machine
import Atap.Interleave.Word
import Atap.Slot.State

/-!
# The handshake over a slot's payload

Who may touch a slot's payload is settled by its header words alone. This module states that
as a protocol of its own: `Words` are the header words involved, `Phase` says what a thread
has won so far, and `Move` lists what one thread may do to both. Nothing here knows what is
stored in the payload.

The protocol is a Dekker handshake between a `readers` count and the `state` word. A reader
counts itself and then looks for `ready`; a run or a taker moves the state away from `ready`
and then waits for the count to reach zero. `Inv` says what this buys: one run at a time, one
taker at a time, and no reader inside once a run or a taker is past its wait. One thing the
words do not buy is an order between a taker and the next run, so the invariant is kept by
every move but a `write` made while a taker still has its payload to move out.
-/

namespace Atap.Slot

open Function

/-- The header words that say who owns the payload. -/
structure Words where
  state : TaskState
  /-- The slot of a series: its `task` is null and its runs publish into it. -/
  prototype : Bool
  /-- Whether `task` holds the erased task. -/
  task : Bool
  /-- `listeners`, a 32-bit word. -/
  listeners : ℕ
  /-- `readers`, a 32-bit word. -/
  readers : ℕ

/-- Which function a run is inside: `run` holds the task it claimed, `publish` leaves the
output of a series' run. -/
inductive Via
  | run
  | publish
  deriving DecidableEq

/-- What a thread has won of the slot. -/
inductive Phase
  /-- Holds no listener. -/
  | outside
  /-- Holds a listener. -/
  | idle
  /-- In `run` or `publish` without owning the slot. -/
  | trying (v : Via)
  /-- Won the slot for a run, waiting the readers out. -/
  | waiting (v : Via)
  /-- Owns the slot for a run, the readers waited out. -/
  | owning (v : Via)
  /-- Owns the slot for a run and has written its output. -/
  | wrote (v : Via)
  /-- Counted in `readers`, not let in. -/
  | counted
  /-- Counted in `readers` and let in. -/
  | inside
  /-- Won the move to `Taken`, waiting the readers out. -/
  | claimed
  /-- Won the move to `Taken`, the readers waited out. -/
  | emptying
  /-- The last one out, emptying the slot. -/
  | destroying
  deriving DecidableEq

/-- What one thread may do: the words and its phase before, and both after. -/
inductive Move : Words → Phase → Words → Phase → Prop
  | skip (w : Words) (p : Phase) : Move w p w p
  | join (w : Words) (h : 0 < w.listeners) :
      Move w .outside { w with listeners := fetchAdd 32 w.listeners } .idle
  | leave (w : Words) (h : w.listeners ≠ 1) :
      Move w .idle { w with listeners := fetchSub 32 w.listeners } .outside
  | lastOut (w : Words) (h : w.listeners = 1) :
      Move w .idle { w with listeners := fetchSub 32 w.listeners } .destroying
  | claim (w : Words) (h : w.task = true) : Move w .idle { w with task := false } (.trying .run)
  | publish (w : Words) (h : w.prototype = true) : Move w .idle w (.trying .publish)
  | beginPending (w : Words) (v : Via) (h : w.state = .pending) :
      Move w (.trying v) { w with state := .running } (.owning v)
  | beginAgain (w : Words) (v : Via) (h : w.state = .ready ∨ w.state = .taken) :
      Move w (.trying v) { w with state := .running } (.waiting v)
  | resume (w : Words) (h : w.state = .running) : Move w (.trying .run) w (.owning .run)
  | waited (w : Words) (v : Via) (h : w.readers = 0) : Move w (.waiting v) w (.owning v)
  | write (w : Words) (v : Via) : Move w (.owning v) w (.wrote v)
  | makeReady (w : Words) (v : Via) (h : w.state = .running) :
      Move w (.wrote v) { w with state := .ready } (.trying v)
  | panic (w : Words) : Move w (.owning .run) w (.trying .run)
  | turnAway (w : Words) (v : Via) : Move w (.trying v) w .idle
  | die (w : Words) : Move w (.owning .run) w .idle
  | stayStopped (w : Words) (v : Via) : Move w (.wrote v) w .idle
  | park (w : Words) : Move w (.owning .run) { w with task := true } .idle
  | rearm (w : Words) : Move w (.trying .run) { w with task := true } .idle
  | count (w : Words) : Move w .idle { w with readers := fetchAdd 32 w.readers } .counted
  | enter (w : Words) (h : w.state = .ready) : Move w .counted w .inside
  | backOut (w : Words) : Move w .counted { w with readers := fetchSub 32 w.readers } .idle
  | leaveRead (w : Words) : Move w .inside { w with readers := fetchSub 32 w.readers } .idle
  | win (w : Words) (h : w.state = .ready) : Move w .idle { w with state := .taken } .claimed
  | winWaited (w : Words) (h : w.readers = 0) : Move w .claimed w .emptying
  | moveOut (w : Words) : Move w .emptying w .idle
  | stop (w : Words) (e : Ending) : Move w .idle { w with state := e.state } .idle
  | fail (w : Words) : Move w (.trying .run) { w with state := .failed } .idle
  | takeDown (w : Words) : Move w .idle { w with task := false } .idle
  | dropTask (w : Words) : Move w .destroying { w with task := false } .destroying
  | free (w : Words) : Move w .destroying { w with state := .free } .outside

namespace Phase

/-- Holds a listener that the `listeners` word counts. -/
def present : Phase → Bool
  | outside | destroying => false
  | _ => true

/-- Counted in the `readers` word. -/
def reads : Phase → Bool
  | counted | inside => true
  | _ => false

/-- Owns the slot for a run, the readers waited out. -/
def owns : Phase → Bool
  | owning _ | wrote _ => true
  | _ => false

/-- Won the slot for a run. -/
def runs : Phase → Bool
  | waiting _ => true
  | p => p.owns

/-- Owns the slot for a run and has written its output. -/
def hasWritten : Phase → Bool
  | wrote _ => true
  | _ => false

/-- Won the move to `Taken` and has not moved the payload out yet. -/
def taking : Phase → Bool
  | claimed | emptying => true
  | _ => false

/-- Won the move to `Taken`, the readers waited out. -/
def pastWait : Phase → Bool
  | emptying => true
  | _ => false

/-- Let in by an `enter_read`. -/
def letIn : Phase → Bool
  | inside => true
  | _ => false

/-- The last one out. -/
def leaving : Phase → Bool
  | destroying => true
  | _ => false

/-- Which function a run is inside. -/
def via : Phase → Option Via
  | trying v | waiting v | owning v | wrote v => some v
  | _ => none

/-- Holds the task it claimed out of the slot. -/
def holdsTask (p : Phase) : Bool := p.via == some .run

/-- Inside `publish`. -/
def publishes (p : Phase) : Bool := p.via == some .publish

end Phase

namespace Move

variable {w w' : Words} {p p' : Phase}

theorem prototype_eq (h : Move w p w' p') : w'.prototype = w.prototype := by
  cases h <;> rfl

/-- The `listeners` word moves with the phases that hold a listener. -/
theorem listeners_add (h : Move w p w' p') (hpos : p.present = true → 0 < w.listeners)
    (hlt : w.listeners + p'.present.toNat < 2 ^ 32 + p.present.toNat) :
    w'.listeners + p.present.toNat = w.listeners + p'.present.toNat := by
  cases h with
  | join hl => exact congrArg (· + 0) (fetchAdd_of_lt (by simpa [Phase.present] using hlt))
  | leave _ | lastOut _ =>
    have hsub := fetchSub_of_pos (w := 32) (hpos rfl)
    have := hpos rfl
    simp only [hsub, Phase.present, Bool.toNat_true, Bool.toNat_false]
    omega
  | _ => rfl

/-- The `readers` word moves with the phases it counts. -/
theorem readers_add (h : Move w p w' p') (hpos : p.reads = true → 0 < w.readers)
    (hlt : w.readers + p'.reads.toNat < 2 ^ 32 + p.reads.toNat) :
    w'.readers + p.reads.toNat = w.readers + p'.reads.toNat := by
  cases h with
  | count => exact congrArg (· + 0) (fetchAdd_of_lt (by simpa [Phase.reads] using hlt))
  | backOut | leaveRead =>
    have hsub := fetchSub_of_pos (w := 32) (hpos rfl)
    have := hpos rfl
    simp only [hsub, Phase.reads, Bool.toNat_true, Bool.toNat_false]
    omega
  | _ => rfl

/-- The task is in the slot or with one thread; no move makes a second one. -/
theorem task_add_le (h : Move w p w' p') :
    w'.task.toNat + p'.holdsTask.toNat ≤ w.task.toNat + p.holdsTask.toNat := by
  cases h with
  | claim ht => rw [ht]; rfl
  | _ => simp [Phase.holdsTask, Phase.via]

/-- Only a series slot is published into. -/
theorem publishes_le (h : Move w p w' p') (hw : w.prototype = false) :
    p'.publishes.toNat ≤ p.publishes.toNat := by
  cases h with
  | publish hp => rw [hw] at hp; cases hp
  | _ => simp [Phase.publishes, Phase.via]

/-- Only a run that has written makes a slot readable. -/
theorem state_ready (h : Move w p w' p') (hr : w'.state = .ready) :
    w.state = .ready ∨ p.hasWritten = true := by
  cases h with
  | makeReady v _ => exact .inr rfl
  | stop e => exact absurd hr e.state_ne_ready
  | _ => first | exact .inl hr | cases hr

/-- A reader is only let in on a readable slot. -/
theorem letIn (h : Move w p w' p') (hin : p'.letIn = true) :
    p.letIn = true ∨ w.state = .ready ∧ p.present = true := by
  cases h with
  | skip => exact .inl hin
  | enter hr => exact .inr ⟨hr, rfl⟩
  | _ => cases hin

/-- A slot that nobody holds gets no new listener. -/
theorem listeners_pos (h : Move w p w' p') (hl : 0 < w'.listeners) :
    0 < w.listeners ∨ p.present = true := by
  cases h with
  | join hw => exact .inl hw
  | leave _ | lastOut _ => exact .inr rfl
  | _ => exact .inl hl

end Move

/-! ### What the moves keep -/

section Invariant

variable {T : Type*} [Fintype T]

/-- The counter words hold what they count, and there is one task at most. -/
structure Accounts (w : Words) (loc : T → Phase) : Prop where
  listeners : w.listeners = count Phase.present loc
  readers : w.readers = count Phase.reads loc
  token : w.task.toNat + count Phase.holdsTask loc ≤ 1
  series : w.prototype = true → w.task.toNat + count Phase.holdsTask loc = 0
  own : w.prototype = false → count Phase.publishes loc = 0

/-- The last one out is alone with the slot. -/
structure LastOut (w : Words) (loc : T → Phase) : Prop where
  le_one : count Phase.leaving loc ≤ 1
  listeners : 0 < count Phase.leaving loc → w.listeners = 0
  free : w.state = .free → w.listeners = 0
  live : 0 < count Phase.leaving loc → w.state ≠ .free

/-- Who excludes whom, in numbers: the state, and how many threads have won the slot for a
run, own it, have written, are taking, are past a taker's wait, and were let in. -/
structure ExclusionAt (st : TaskState) (runs owns wrote taking past inside : ℕ) : Prop where
  wrote_le : wrote ≤ owns
  owns_le : owns ≤ runs
  past_le : past ≤ taking
  runs_le : runs ≤ 1
  runs_state : 0 < runs → st.heldByRun = true
  taking_le : taking ≤ 1
  taking_state : 0 < taking → st = .taken ∨ st.heldByRun = true
  wrote_taking : 0 < wrote → taking = 0
  inside_pending : 0 < inside → st ≠ .pending
  inside_running : 0 < inside → st = .running → 0 < runs
  owns_inside : 0 < owns → inside = 0
  past_inside : 0 < past → inside = 0

/-- Who excludes whom. -/
def Exclusion (w : Words) (loc : T → Phase) : Prop :=
  ExclusionAt w.state (count Phase.runs loc) (count Phase.owns loc) (count Phase.hasWritten loc)
    (count Phase.taking loc) (count Phase.pastWait loc) (count Phase.letIn loc)

namespace ExclusionAt

variable {st : TaskState} {r o k a b i r' o' k' a' b' i' : ℕ}

theorem cast (h : ExclusionAt st r o k a b i) (hr : r' = r) (ho : o' = o) (hk : k' = k)
    (ha : a' = a) (hb : b' = b) (hi : i' = i) : ExclusionAt st r' o' k' a' b' i' := by
  subst hr ho hk ha hb hi
  exact h

/-- In a state no run can be in, no run has won the slot. -/
theorem runs_eq_zero (h : ExclusionAt st r o k a b i) (hs : st.heldByRun = false) : r = 0 := by
  by_contra h0
  have := h.runs_state (Nat.pos_of_ne_zero h0)
  rw [hs] at this
  cases this

/-- In a state no taker can be in, no taker has its payload to move out. -/
theorem taking_eq_zero (h : ExclusionAt st r o k a b i) (hs : st.heldByRun = false)
    (ht : st ≠ .taken) : a = 0 := by
  by_contra h0
  rcases h.taking_state (Nat.pos_of_ne_zero h0) with h' | h'
  · exact ht h'
  · rw [hs] at h'
    cases h'

/-- An ending leaves every thread with what it has won. -/
theorem stop (h : ExclusionAt st r o k a b i) (e : Ending) :
    ExclusionAt e.state r o k a b i :=
  { h with
    runs_state := fun _ => e.heldByRun_state
    taking_state := fun _ => .inr e.heldByRun_state
    inside_pending := fun _ => e.state_ne_pending
    inside_running := fun _ h => absurd h e.state_ne_running }

/-- A run starts from `pending`, which no reader was let in on. -/
theorem beginPending (h : ExclusionAt .pending r o k a b i) :
    ExclusionAt .running (r + 1) (o + 1) k a b i := by
  have hr := h.runs_eq_zero rfl
  have ha := h.taking_eq_zero rfl nofun
  have hi : i = 0 := Nat.eq_zero_of_not_pos fun h0 => h.inside_pending h0 rfl
  have := h.wrote_le
  have := h.owns_le
  have := h.past_le
  exact ⟨by omega, by omega, by omega, by omega, fun _ => rfl, by omega, fun _ => .inr rfl,
    by omega, fun _ => nofun, by omega, by omega, by omega⟩

/-- A run starts from `ready` or `taken`, over whoever is still reading or taking. -/
theorem beginAgain (h : ExclusionAt st r o k a b i) (hs : st = .ready ∨ st = .taken) :
    ExclusionAt .running (r + 1) o k a b i := by
  have hr : r = 0 := h.runs_eq_zero (by rcases hs with rfl | rfl <;> rfl)
  have := h.wrote_le
  have := h.owns_le
  exact { h with
    owns_le := by omega
    runs_le := by omega
    runs_state := fun _ => rfl
    taking_state := fun _ => .inr rfl
    inside_pending := fun _ => nofun
    inside_running := fun _ _ => by omega }

/-- A parked run carries on. -/
theorem resume (h : ExclusionAt .running r o k a b i) (hr : r = 0) :
    ExclusionAt .running (r + 1) (o + 1) k a b i := by
  have hi : i = 0 := Nat.eq_zero_of_not_pos fun h0 => by
    have := h.inside_running h0 rfl
    omega
  have := h.wrote_le
  have := h.owns_le
  exact { h with
    wrote_le := by omega
    owns_le := by omega
    runs_le := by omega
    runs_state := fun _ => rfl
    inside_running := by omega
    owns_inside := fun _ => hi }

/-- The readers are waited out by a run. -/
theorem waited (h : ExclusionAt st r o k a b i) (hi : i = 0) (hor : o + 1 ≤ r) :
    ExclusionAt st r (o + 1) k a b i :=
  { h with
    wrote_le := by have := h.wrote_le; omega
    owns_le := hor
    owns_inside := fun _ => hi }

/-- The payload is written, with no taker about. -/
theorem write (h : ExclusionAt st r o k a b i) (ha : a = 0) (hko : k + 1 ≤ o) :
    ExclusionAt st r o (k + 1) a b i :=
  { h with
    wrote_le := hko
    wrote_taking := fun _ => ha }

/-- A run that owned the slot, and may have written, lets go of it. -/
theorem letGo (h : ExclusionAt st r o k a b i) (hr : r' + 1 = r) (ho : o' + 1 = o)
    (hk : k' ≤ o') : ExclusionAt st r' o' k' a b i := by
  have hi := h.owns_inside (by omega)
  have := h.owns_le
  have := h.runs_le
  exact { h with
    wrote_le := hk
    owns_le := by omega
    runs_le := by omega
    runs_state := by omega
    wrote_taking := fun h0 => h.wrote_taking (by omega)
    inside_running := by omega
    owns_inside := fun _ => hi }

/-- A written output becomes readable: nobody is taking, and nobody was let in. -/
theorem makeReady (h : ExclusionAt st r o k a b i) (hr : r' + 1 = r) (ho : o' + 1 = o)
    (hk : k' + 1 = k) : ExclusionAt .ready r' o' k' a b i := by
  have hi := h.owns_inside (by omega)
  have ha := h.wrote_taking (by omega)
  have := h.wrote_le
  have := h.owns_le
  have := h.runs_le
  have := h.past_le
  exact ⟨by omega, by omega, by omega, by omega, by omega, by omega, by omega, by omega,
    fun _ => nofun, by omega, by omega, by omega⟩

/-- A reader finds the output readable and is let in. -/
theorem enter (h : ExclusionAt .ready r o k a b i) : ExclusionAt .ready r o k a b (i + 1) := by
  have hr := h.runs_eq_zero rfl
  have ha := h.taking_eq_zero rfl nofun
  have := h.owns_le
  have := h.past_le
  exact { h with
    inside_pending := fun _ => nofun
    inside_running := fun _ => nofun
    owns_inside := by omega
    past_inside := by omega }

theorem leaveRead (h : ExclusionAt st r o k a b i) (hi : i' + 1 = i) :
    ExclusionAt st r o k a b i' :=
  { h with
    inside_pending := fun _ => h.inside_pending (by omega)
    inside_running := fun _ => h.inside_running (by omega)
    owns_inside := fun h0 => by have := h.owns_inside h0; omega
    past_inside := fun h0 => by have := h.past_inside h0; omega }

/-- A taker wins a readable output. -/
theorem win (h : ExclusionAt .ready r o k a b i) : ExclusionAt .taken r o k (a + 1) b i := by
  have hr := h.runs_eq_zero rfl
  have ha := h.taking_eq_zero rfl nofun
  have := h.wrote_le
  have := h.owns_le
  have := h.past_le
  exact { h with
    past_le := by omega
    runs_state := by omega
    taking_le := by omega
    taking_state := fun _ => .inl rfl
    wrote_taking := by omega
    inside_pending := fun _ => nofun
    inside_running := fun _ => nofun }

/-- The readers are waited out by a taker. -/
theorem winWaited (h : ExclusionAt st r o k a b i) (hi : i = 0) (hba : b + 1 ≤ a) :
    ExclusionAt st r o k a (b + 1) i :=
  { h with
    past_le := hba
    past_inside := fun _ => hi }

theorem moveOut (h : ExclusionAt st r o k a b i) (ha : a' + 1 = a) (hb : b' + 1 = b) :
    ExclusionAt st r o k a' b' i :=
  { h with
    past_le := by have := h.past_le; omega
    taking_le := by have := h.taking_le; omega
    taking_state := fun _ => h.taking_state (by omega)
    wrote_taking := fun h0 => by have := h.wrote_taking h0; omega
    past_inside := fun _ => h.past_inside (by omega) }

/-- Nothing is left to exclude once everybody is out. -/
theorem free : ExclusionAt .free 0 0 0 0 0 0 :=
  ⟨le_rfl, le_rfl, le_rfl, Nat.zero_le 1, nofun, Nat.zero_le 1, nofun, nofun, nofun, nofun,
    nofun, nofun⟩

end ExclusionAt

variable [DecidableEq T] {w w' : Words} {loc : T → Phase} {t : T} {p' : Phase}

theorem Accounts.move (hT : Fintype.card T < 2 ^ 32) (ha : Accounts w loc)
    (hm : Move w (loc t) w' p') : Accounts w' (update loc t p') := by
  obtain ⟨hl, hr, htok, hser, hown⟩ := ha
  -- A word below the number of threads has room for one more.
  have room : ∀ {q : Phase → Bool} {x : ℕ}, x = count q loc →
      (q (loc t) = true → 0 < x) ∧ x + (q p').toNat < 2 ^ 32 + (q (loc t)).toNat := by
    rintro q x rfl
    have := count_update q loc t p'
    have := count_le_card (p := q) (f := update loc t p')
    exact ⟨count_pos, by omega⟩
  have htask := hm.task_add_le
  have hcount := count_update Phase.holdsTask loc t p'
  refine ⟨?_, ?_, ?_, ?_, ?_⟩
  · exact eq_count_update hl (hm.listeners_add (room hl).1 (room hl).2)
  · exact eq_count_update hr (hm.readers_add (room hr).1 (room hr).2)
  · show w'.task.toNat + count Phase.holdsTask (update loc t p') ≤ 1
    omega
  · intro hp
    have := hser (hm.prototype_eq ▸ hp)
    show w'.task.toNat + count Phase.holdsTask (update loc t p') = 0
    omega
  · intro hp
    have hp : w.prototype = false := hm.prototype_eq ▸ hp
    have h1 := hown hp
    have h2 := hm.publishes_le hp
    have h3 := count_update Phase.publishes loc t p'
    show count Phase.publishes (update loc t p') = 0
    omega

omit [DecidableEq T] in
/-- Nobody but the last one out is left in a slot without listeners. -/
theorem Accounts.count_eq_zero (ha : Accounts w loc) (h0 : w.listeners = 0)
    {q : Phase → Bool} (hq : ∀ p, q p = true → p.present = true) : count q loc = 0 := by
  have hle := count_le_count hq (f := loc)
  have hl : w.listeners = count Phase.present loc := ha.listeners
  omega

theorem LastOut.move (ha : Accounts w loc) (ha' : Accounts w' (update loc t p'))
    (hx : LastOut w loc) (hm : Move w (loc t) w' p') :
    LastOut w' (update loc t p') := by
  obtain ⟨hle, hlist, hfree, hlive⟩ := hx
  have hl := ha.listeners
  have hl' := ha'.listeners
  have hpres := count_update Phase.present loc t p'
  have hd := count_update Phase.leaving loc t p'
  have hin : (loc t).present = true → 0 < count Phase.present loc := count_pos
  have hdest : (loc t).leaving = true → 0 < count Phase.leaving loc := count_pos
  generalize loc t = p at hm hpres hd hin hdest
  cases hm with
  | join h =>
    have hw : w.state ≠ .free := fun hs => by have := hfree hs; omega
    simp only [Phase.leaving] at hd
    exact ⟨by omega, fun h' => by have := hlist (by omega); omega, fun hs => absurd hs hw,
      fun _ => hw⟩
  | leave h =>
    have := hin rfl
    have hw : w.state ≠ .free := fun hs => by have := hfree hs; omega
    simp only [Phase.leaving] at hd
    exact ⟨by omega, fun h' => by have := hlist (by omega); omega, fun hs => absurd hs hw,
      fun _ => hw⟩
  | lastOut h =>
    have hw : w.state ≠ .free := fun hs => by have := hfree hs; omega
    have : ¬ 0 < count Phase.leaving loc := fun h' => by have := hlist h'; omega
    simp only [Phase.leaving, Phase.present, Bool.toNat_true, Bool.toNat_false] at hd hpres
    exact ⟨by omega, fun _ => by omega, fun _ => by omega, fun _ => hw⟩
  | free =>
    have h0 := hlist (hdest rfl)
    simp only [Phase.leaving, Bool.toNat_true, Bool.toNat_false] at hd
    exact ⟨by omega, fun _ => h0, fun _ => h0, fun _ => by omega⟩
  | stop e =>
    simp only [Phase.leaving] at hd
    exact ⟨by omega, fun h' => hlist (by omega), fun hs => absurd hs e.state_ne_free,
      fun _ => e.state_ne_free⟩
  | _ =>
    simp only [Phase.leaving] at hd
    refine ⟨by omega, fun h' => hlist (by omega), fun hs => ?_, fun h' hs => ?_⟩
    · first
        | exact hfree hs
        | cases hs
    · first
        | exact hlive (by omega) hs
        | cases hs

omit [DecidableEq T] in
/-- A thread that holds the task without owning the slot knows that no run owns it. -/
theorem Accounts.runs_eq_zero (ha : Accounts w loc) (ht : loc t = .trying .run) :
    count Phase.runs loc = 0 := by
  have hhold : (loc t).holdsTask = true := by rw [ht]; rfl
  have hpos := count_pos (p := Phase.holdsTask) hhold
  have hproto : w.prototype = false := by
    by_contra h
    have := ha.series (by simpa using h)
    omega
  rw [Atap.count_eq_zero]
  intro u
  cases hu : loc u with
  | waiting v | owning v | wrote v =>
    cases v with
    | run =>
      -- Both hold the task, so they are one thread, which has not won the slot.
      have htu : t = u := eq_of_count_le_one (by have := ha.token; omega) hhold (by rw [hu]; rfl)
      rw [htu, hu] at ht
      cases ht
    | publish =>
      have := Atap.count_eq_zero.mp (ha.own hproto) u
      rw [hu] at this
      cases this
  | _ => rfl

/-- **The exclusion is kept by every move** but a write of the payload made while a taker
still has it to move out. -/
theorem Exclusion.move (ha : Accounts w loc) (hd : LastOut w loc) (hx : Exclusion w loc)
    (hm : Move w (loc t) w' p')
    (hwrite : (loc t).hasWritten = false → p'.hasWritten = true → count Phase.taking loc = 0) :
    Exclusion w' (update loc t p') := by
  have hruns := count_update Phase.runs loc t p'
  have howns := count_update Phase.owns loc t p'
  have hwrote := count_update Phase.hasWritten loc t p'
  have htake := count_update Phase.taking loc t p'
  have hpast := count_update Phase.pastWait loc t p'
  have hin := count_update Phase.letIn loc t p'
  -- The readers word counts at least those let in.
  have hread : w.readers = 0 → count Phase.letIn loc = 0 := fun h => by
    have := count_le_count (p := Phase.letIn) (q := Phase.reads) (f := loc)
      (by rintro (_ | _) <;> simp [Phase.letIn, Phase.reads])
    have := ha.readers
    omega
  have hwo : count Phase.hasWritten (update loc t p') ≤
      count Phase.owns (update loc t p') :=
    count_le_count (by rintro (_ | _) <;> simp [Phase.hasWritten, Phase.owns])
  have hor : count Phase.owns (update loc t p') ≤
      count Phase.runs (update loc t p') :=
    count_le_count (by rintro (_ | _) <;> simp [Phase.owns, Phase.runs])
  have hpt : count Phase.pastWait (update loc t p') ≤
      count Phase.taking (update loc t p') :=
    count_le_count (by rintro (_ | _) <;> simp [Phase.pastWait, Phase.taking])
  have halone := fun h : loc t = .trying .run => ha.runs_eq_zero h
  have hlast : (loc t).leaving = true → 0 < count Phase.leaving loc := count_pos
  have hself : p' = loc t → update loc t p' = loc := fun h => by
    rw [h, update_eq_self]
  unfold Exclusion at hx ⊢
  generalize loc t = p at hm hwrite hruns howns hwrote htake hpast hin halone hlast hself
  cases hm with
  | beginPending v h =>
    rw [h] at hx
    exact hx.beginPending.cast hruns howns hwrote htake hpast hin
  | beginAgain v h => exact (hx.beginAgain h).cast hruns howns hwrote htake hpast hin
  | resume h =>
    rw [h] at hx ⊢
    exact (hx.resume (halone rfl)).cast hruns howns hwrote htake hpast hin
  | waited v h =>
    have hruns := Nat.add_right_cancel hruns
    rw [hruns] at hor
    exact (hx.waited (hread h) (howns ▸ hor)).cast hruns howns hwrote htake hpast hin
  | write v =>
    have hruns := Nat.add_right_cancel hruns
    have howns := Nat.add_right_cancel howns
    rw [howns] at hwo
    exact (hx.write (hwrite rfl rfl) (hwrote ▸ hwo)).cast hruns howns hwrote htake hpast hin
  | makeReady v h => exact (hx.makeReady hruns howns hwrote).cast rfl rfl rfl htake hpast hin
  | panic | die | park | stayStopped v =>
    exact (hx.letGo hruns howns hwo).cast rfl rfl rfl htake hpast hin
  | enter h =>
    rw [h] at hx ⊢
    exact hx.enter.cast hruns howns hwrote htake hpast hin
  | leaveRead => exact (hx.leaveRead hin).cast hruns howns hwrote htake hpast rfl
  | win h =>
    rw [h] at hx
    exact hx.win.cast hruns howns hwrote htake hpast hin
  | winWaited h =>
    have htake := Nat.add_right_cancel htake
    rw [htake] at hpt
    exact (hx.winWaited (hread h) (hpast ▸ hpt)).cast hruns howns hwrote htake hpast hin
  | moveOut => exact (hx.moveOut htake hpast).cast hruns howns hwrote rfl rfl hin
  | stop e => exact (hx.stop e).cast hruns howns hwrote htake hpast hin
  | fail => exact (hx.stop .failed).cast hruns howns hwrote htake hpast hin
  | free =>
    -- The last one out: nobody else holds a listener, and nobody else is in any phase.
    have h0 := hd.listeners (hlast rfl)
    have hz := fun {q : Phase → Bool} (hq : ∀ p, q p = true → p.present = true) =>
      ha.count_eq_zero h0 hq
    refine ExclusionAt.free.cast (hruns.trans (hz ?_)) (howns.trans (hz ?_))
      (hwrote.trans (hz ?_)) (htake.trans (hz ?_)) (hpast.trans (hz ?_)) (hin.trans (hz ?_)) <;>
    rintro (_ | _) <;>
    simp [Phase.runs, Phase.owns, Phase.hasWritten, Phase.taking, Phase.pastWait, Phase.letIn,
      Phase.present]
  | skip => rw [hself rfl]; exact hx
  | _ => exact hx.cast hruns howns hwrote htake hpast hin

end Invariant

end Atap.Slot
