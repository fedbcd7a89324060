import Atap.Series.Machine
import Mathlib.Data.List.Basic
import Mathlib.Algebra.Order.Group.Nat

/-!
# The runs a schedule starts

A task spawned with `at_rate` starts a run at once, or when its start delay is up, and then one at
every tick of a repeating timer, until its count or its deadline ends it. Here the timer goes off
exactly at `start + k * period`, every tick is handled the moment it comes, and the pool and the
kernel take whatever they are handed; what is left is arithmetic on the words of the slot:

* `Setup.until`, `encodeUntil`, `decodeUntil` and `pastDeadline`, with the clock's own limit,
  which `checked_add` runs into, and the `u64` the words are stored in;
* `createSeries`, `startSeries`, `tick` and `endSchedule`, each a function on the slot, its timer
  and the moments runs were started at.

`tick` hands `pastDeadline` the period, although the run it is about to start is due now. The runs
started are therefore those at ticks with a whole period left before the deadline
(`starts_eq_started`), and not all those before it (`last_tick_missed`): the last tick in front of
a deadline goes by, and a delayed schedule whose deadline is within a period of its start does
nothing at all. The first run of a schedule without a delay is started by `startSeries`, which
does not look at the deadline.
-/

namespace Atap.Series.Clock

/-! ### The setup -/

/-- `Deadline`, with moments in nanoseconds past the epoch the runtime counts deadlines from. -/
inductive Deadline
  | none
  /-- `for_duration`. -/
  | span (d : ℕ)
  /-- `until`. -/
  | moment (w : ℤ)
  deriving DecidableEq

/-- The part of a `TaskSetup` a schedule reads, with the moment it is spawned and the last moment
the clock can name. -/
structure Setup where
  /-- `TaskSetup::interval`. -/
  period : ℕ
  /-- `TaskSetup::start_delay`. -/
  startDelay : ℕ
  /-- `TaskSetup::deadline`. -/
  deadline : Deadline
  /-- `TaskSetup::runs`, a `u32`. -/
  runs : ℕ
  runs_le : runs ≤ unlimited
  /-- When the schedule is spawned. -/
  spawned : ℕ
  /-- The last moment of the clock. -/
  clockEnd : ℕ
  deriving DecidableEq

/-- `Instant::checked_add`. -/
def checkedAdd (clockEnd now d : ℕ) : Option ℕ :=
  if now + d ≤ clockEnd then some (now + d) else none

/-- `TaskSetup::until`. -/
def Setup.until (c : Setup) : Option ℤ :=
  match c.deadline with
  | .none => none
  | .moment w => some w
  | .span d =>
    ((checkedAdd c.clockEnd c.spawned c.startDelay).bind (checkedAdd c.clockEnd · d)).map (↑)

/-- `encode_until`. A moment before the epoch is stored as the epoch. -/
def encodeUntil : Option ℤ → ℕ
  | none => 0
  | some w => min w.toNat (2 ^ 64 - 2) + 1

def decodeUntil (clockEnd : ℕ) : ℕ → Option ℕ
  | 0 => none
  | raw + 1 => checkedAdd clockEnd 0 raw

/-! ### The slot and its timer -/

/-- The timer of a schedule. -/
inductive Timer
  /-- `wait_for`, for the start delay. -/
  | oneShot
  /-- `schedule`. -/
  | repeating
  deriving DecidableEq

/-- The words of the slot a schedule reads, its timer, and when it started runs. -/
structure Sched where
  /-- `TaskData::runs_left`. -/
  runsLeft : ℕ
  /-- `TaskData::until`. -/
  untilWord : ℕ
  /-- `TaskData::interval`. -/
  interval : ℕ
  /-- `TaskData::start_delay`. -/
  startDelay : ℕ
  timer : Option Timer
  /-- The moments of the launches, the first one first. -/
  starts : List ℕ
  deriving DecidableEq

/-- `TaskData::init`, for the words above. -/
def Setup.init (c : Setup) : Sched where
  runsLeft := c.runs
  untilWord := encodeUntil c.until
  interval := c.period % 2 ^ 64
  startDelay := c.startDelay % 2 ^ 64
  timer := none
  starts := []

def pastDeadline (clockEnd now gap : ℕ) (s : Sched) : Bool :=
  match decodeUntil clockEnd s.untilWord with
  | none => false
  | some w =>
    match checkedAdd clockEnd now gap with
    | none => true
    | some t => w ≤ t

def launch (now : ℕ) (s : Sched) : Sched := { s with starts := s.starts ++ [now] }

/-- `end_schedule`, and the end of `start_series`: the schedule comes off the clock. -/
def endSchedule (s : Sched) : Sched := { s with timer := none }

/-- `start_series`. A schedule allowed no runs is written off where it is spawned. -/
def startSeries (now : ℕ) (s : Sched) : Sched :=
  if s.runsLeft = 0 then s
  else
    let left := countRun s.runsLeft
    let s := { launch now s with runsLeft := left.1 }
    if left.2 then endSchedule s else { s with timer := some .repeating }

def Setup.createSeries (c : Setup) : Sched :=
  if c.init.startDelay = 0 then startSeries c.spawned c.init
  else { c.init with timer := some .oneShot }

/-- The start of `tick`: the first wake of a delayed schedule was its delay. -/
def armRepeating (s : Sched) : Sched :=
  if s.startDelay ≠ 0 then { s with startDelay := 0, timer := some .repeating } else s

/-- `tick`, once the repeating timer is armed. Both bounds are looked at before the launch. -/
def tickBounds (clockEnd now : ℕ) (s : Sched) : Sched :=
  if pastDeadline clockEnd now s.interval s || s.runsLeft = 0 then endSchedule s
  else
    let left := countRun s.runsLeft
    let s := { launch now s with runsLeft := left.1 }
    if left.2 then endSchedule s else s

def tick (clockEnd now : ℕ) (s : Sched) : Sched := tickBounds clockEnd now (armRepeating s)

/-- `fire`: a timer that is armed goes off. -/
def fire (clockEnd now : ℕ) (s : Sched) : Sched :=
  if s.timer.isSome then tick clockEnd now s else s

namespace Setup

variable (c : Setup)

/-- When the repeating starts. -/
def start : ℕ := c.spawned + c.startDelay

/-- The moment of the `k`-th tick; the `0`-th is the start. -/
def tickAt (k : ℕ) : ℕ := c.start + k * c.period

/-- The schedule once the `n`-th tick has been handled. The `0`-th is handled by the spawn itself
if there is no delay. -/
def after : ℕ → Sched
  | 0 =>
    if c.createSeries.timer = some .oneShot then fire c.clockEnd c.start c.createSeries
    else c.createSeries
  | n + 1 => fire c.clockEnd (c.tickAt (n + 1)) (after n)

/-! ### What a schedule is asked for -/

/-- The moment the deadline falls on, on a clock without end: a span is counted from the start. -/
def due : Option ℤ :=
  match c.deadline with
  | .none => none
  | .moment w => some w
  | .span d => some (c.start + d)

/-- The moment lies strictly before the deadline. -/
def Before (t : ℕ) : Prop :=
  match c.due with
  | none => True
  | some w => (t : ℤ) < w

instance (t : ℕ) : Decidable (c.Before t) := by
  unfold Before
  exact match c.due with
    | none => isTrue trivial
    | some w => inferInstanceAs (Decidable ((t : ℤ) < w))

/-- The count allows a `k`-th run, the first being the `0`-th. -/
def Allows (k : ℕ) : Prop := c.runs = unlimited ∨ k < c.runs

instance (k : ℕ) : Decidable (c.Allows k) :=
  inferInstanceAs (Decidable (_ ∨ _))

/-- A run belongs at the `k`-th tick: the count allows it, and it is the first run or lies before
the deadline. -/
def Expected (k : ℕ) : Prop := c.Allows k ∧ (k = 0 ∨ c.Before (c.tickAt k))

instance (k : ℕ) : Decidable (c.Expected k) :=
  inferInstanceAs (Decidable (_ ∧ _))

/-- The moments at which runs belong, up to the `n`-th tick. -/
def expected (n : ℕ) : List ℕ := ((List.range (n + 1)).filter (c.Expected ·)).map c.tickAt

/-- The deadline does not come within one period of the `k`-th tick, unless no run belongs there
or it is the first run of a schedule without a delay. -/
def Clear (k : ℕ) : Prop :=
  c.Expected k → k = 0 ∧ c.startDelay = 0 ∨ c.Before (c.tickAt k + c.period)

instance (k : ℕ) : Decidable (c.Clear k) :=
  inferInstanceAs (Decidable (_ → _))

/-- The times up to the `n`-th tick and one period on fit the words of the slot and the clock. -/
structure Fits (n : ℕ) : Prop where
  delay : c.startDelay < 2 ^ 64
  period : c.period < 2 ^ 64
  word : c.tickAt n + c.period < 2 ^ 64 - 2
  clock : c.tickAt n + c.period ≤ c.clockEnd

variable {c : Setup} {n k : ℕ}

theorem tickAt_mono {j : ℕ} (h : j ≤ k) : c.tickAt j ≤ c.tickAt k :=
  Nat.add_le_add_left (Nat.mul_le_mul_right _ h) _

theorem Fits.mono (h : c.Fits n) (hk : k ≤ n) : c.Fits k where
  delay := h.delay
  period := h.period
  word := lt_of_le_of_lt (Nat.add_le_add_right (tickAt_mono hk) _) h.word
  clock := le_trans (Nat.add_le_add_right (tickAt_mono hk) _) h.clock

theorem Before.mono {t u : ℕ} (h : c.Before u) (htu : t ≤ u) : c.Before t := by
  unfold Before at h ⊢
  split at h
  · trivial
  · exact lt_of_le_of_lt (by exact_mod_cast htu) h

/-! ### The deadline word -/

/-- A moment read back out of its word is not past as long as the moment itself is not, for
times that fit the word and the clock. -/
theorem decodeUntil_encodeUntil_le_iff {w : ℤ} {t : ℕ} {clockEnd : ℕ} (hw : t < 2 ^ 64 - 2)
    (hc : t ≤ clockEnd) :
    (∃ u, decodeUntil clockEnd (encodeUntil (some w)) = some u ∧ u ≤ t) ↔ w ≤ t := by
  simp only [encodeUntil, decodeUntil, checkedAdd, Nat.zero_add]
  split
  · simp only [Option.some.injEq, exists_eq_left']
    omega
  · simp only [reduceCtorEq, false_and, exists_false, false_iff]
    omega

/-- The deadline as the slot stores it is past at `t` exactly if it is past on a clock without
end. -/
theorem until_past_iff (c : Setup) {t : ℕ} (hw : t < 2 ^ 64 - 2) (hc : t ≤ c.clockEnd) :
    (∃ u, decodeUntil c.clockEnd (encodeUntil c.until) = some u ∧ u ≤ t) ↔ ¬ c.Before t := by
  unfold Setup.until Before due
  cases c.deadline with
  | none => simp [encodeUntil, decodeUntil]
  | moment w => simp only [decodeUntil_encodeUntil_le_iff hw hc, not_lt]
  | span d =>
    simp only [checkedAdd, start]
    -- A span that leaves the clock means no deadline, and no time on the clock reaches it.
    by_cases hend : c.spawned + c.startDelay + d ≤ c.clockEnd
    · rw [if_pos (by omega), Option.bind_some, if_pos hend, Option.map_some,
        decodeUntil_encodeUntil_le_iff hw hc]
      push_cast
      omega
    · have hnone : ((if c.spawned + c.startDelay ≤ c.clockEnd
          then some (c.spawned + c.startDelay) else none).bind
          fun x => if x + d ≤ c.clockEnd then some (x + d) else none) = none := by
        split <;> simp [hend]
      rw [hnone]
      simp only [Option.map_none, encodeUntil, decodeUntil, reduceCtorEq, false_and, exists_false,
        false_iff, not_not]
      omega

/-- What `past_deadline` says at a tick: less than a period is left before the deadline. -/
theorem pastDeadline_tick {s : Sched} (hf : c.Fits k) (hword : s.untilWord = encodeUntil c.until) :
    pastDeadline c.clockEnd (c.tickAt k) c.period s = true ↔
      ¬ c.Before (c.tickAt k + c.period) := by
  rw [← until_past_iff c hf.word hf.clock]
  simp only [pastDeadline, hword, checkedAdd, if_pos hf.clock]
  cases decodeUntil c.clockEnd (encodeUntil c.until) with
  | none => simp
  | some u => simp

/-! ### The runs left -/

/-- What is left of the count after `k` runs. -/
def left (c : Setup) (k : ℕ) : ℕ := if c.runs = unlimited then c.runs else c.runs - k

theorem left_ne_zero_iff : c.left k ≠ 0 ↔ c.Allows k := by
  unfold left Allows
  split
  case isTrue h => simp only [h, true_or, iff_true]; exact Nat.succ_ne_zero _
  case isFalse h => simp only [h, false_or]; omega

theorem countRun_left (c : Setup) (k : ℕ) :
    countRun (c.left k) = (c.left (k + 1), decide (c.left (k + 1) = 0)) := by
  unfold countRun left
  split
  case isTrue h =>
    rw [h]
    rfl
  case isFalse h =>
    have hle := c.runs_le
    rw [if_neg (by omega), Nat.sub_add_eq]

/-! ### The runs started -/

/-- A run is started at the `k`-th tick: the count allows it, and the deadline is more than a
period away, unless it is the first run and has no delay. -/
def Started (c : Setup) (k : ℕ) : Prop :=
  c.Allows k ∧ (k = 0 ∧ c.startDelay = 0 ∨ c.Before (c.tickAt k + c.period))

instance (k : ℕ) : Decidable (c.Started k) :=
  inferInstanceAs (Decidable (_ ∧ _))

/-- The moments of the runs started up to the `n`-th tick. -/
def started (c : Setup) (n : ℕ) : List ℕ :=
  ((List.range (n + 1)).filter (c.Started ·)).map c.tickAt

theorem Allows.mono {j : ℕ} (h : c.Allows k) (hjk : j ≤ k) : c.Allows j :=
  h.imp_right fun hlt => lt_of_le_of_lt hjk hlt

/-- A run is started only if every earlier tick had its bounds met: once a tick goes by without a
run, so do all that follow. -/
theorem Started.of_lt {j : ℕ} (h : c.Started k) (hjk : j < k) :
    c.Allows j ∧ c.Before (c.tickAt j + c.period) := by
  have hbefore := h.2.resolve_left fun hzero => absurd hzero.1 (by omega)
  exact ⟨h.1.mono hjk.le, hbefore.mono (Nat.add_le_add_right (tickAt_mono hjk.le) _)⟩

theorem started_succ (c : Setup) (n : ℕ) :
    c.started (n + 1) = c.started n ++ if c.Started (n + 1) then [c.tickAt (n + 1)] else [] := by
  unfold started
  rw [List.range_succ, List.filter_append, List.map_append]
  congr 1
  by_cases h : c.Started (n + 1) <;> simp [h]

/-- The schedule after the `n`-th tick: it is on the clock with the count it should have, or off
the clock with no run to come. -/
inductive Stands (c : Setup) (n : ℕ) (s : Sched) : Prop
  | on (timer : s.timer = some .repeating) (delay : s.startDelay = 0)
      (interval : s.interval = c.period) (word : s.untilWord = encodeUntil c.until)
      (runsLeft : s.runsLeft = c.left (n + 1)) (remain : c.Allows (n + 1))
  | off (timer : s.timer = none) (isOver : ∀ k, n < k → ¬ c.Started k)

/-- `tick` once the timer repeats: it starts the run the tick stands for, if there is one, and
leaves the schedule on or off the clock. -/
theorem tickBounds_spec {s : Sched} (hf : c.Fits k) (timer : s.timer = some .repeating)
    (delay : s.startDelay = 0) (interval : s.interval = c.period)
    (word : s.untilWord = encodeUntil c.until) (runsLeft : s.runsLeft = c.left k)
    (late : 0 < k ∨ c.startDelay ≠ 0) :
    (tickBounds c.clockEnd (c.tickAt k) s).starts =
        s.starts ++ (if c.Started k then [c.tickAt k] else []) ∧
      c.Stands k (tickBounds c.clockEnd (c.tickAt k) s) := by
  have hstarted : c.Started k ↔ c.Allows k ∧ c.Before (c.tickAt k + c.period) :=
    and_congr_right fun _ => or_iff_right fun hzero => late.elim (by omega) (absurd hzero.2)
  have hbounds : (pastDeadline c.clockEnd (c.tickAt k) s.interval s || s.runsLeft = 0) = true ↔
      ¬ c.Started k := by
    rw [hstarted, interval, runsLeft, Bool.or_eq_true, pastDeadline_tick hf word,
      decide_eq_true_eq, ← left_ne_zero_iff]
    tauto
  unfold tickBounds
  by_cases hrun : c.Started k
  · rw [if_neg (hbounds.not.mpr (not_not.mpr hrun)), if_pos hrun, runsLeft, countRun_left]
    by_cases hlast : c.left (k + 1) = 0
    · -- The run was the last the count allows.
      simp only [hlast, decide_true, if_true]
      refine ⟨rfl, .off rfl fun j hj hstart => ?_⟩
      exact left_ne_zero_iff.mpr (hstart.1.mono hj) hlast
    · simp only [hlast, decide_false, Bool.false_eq_true, if_false]
      exact ⟨rfl, .on timer delay interval word rfl (left_ne_zero_iff.mp hlast)⟩
  · rw [if_pos (hbounds.mpr hrun), if_neg hrun, List.append_nil]
    exact ⟨rfl, .off rfl fun j hj hstart => hrun (hstarted.mpr (hstart.of_lt hj))⟩

/-- A tick of a schedule that stands as it should. -/
theorem Stands.fire {s : Sched} (h : c.Stands n s) (hf : c.Fits (n + 1)) :
    (fire c.clockEnd (c.tickAt (n + 1)) s).starts =
        s.starts ++ (if c.Started (n + 1) then [c.tickAt (n + 1)] else []) ∧
      c.Stands (n + 1) (fire c.clockEnd (c.tickAt (n + 1)) s) := by
  cases h with
  | on timer delay interval word runsLeft remain =>
    have harmed : Clock.fire c.clockEnd (c.tickAt (n + 1)) s =
        tickBounds c.clockEnd (c.tickAt (n + 1)) s := by
      simp [Clock.fire, tick, armRepeating, timer, delay]
    rw [harmed]
    exact tickBounds_spec hf timer delay interval word runsLeft (.inl n.succ_pos)
  | off timer isOver =>
    have hidle : Clock.fire c.clockEnd (c.tickAt (n + 1)) s = s := by simp [Clock.fire, timer]
    rw [hidle, if_neg (isOver _ n.lt_succ_self), List.append_nil]
    exact ⟨rfl, .off timer fun j hj => isOver j (by omega)⟩

theorem started_zero (c : Setup) :
    c.started 0 = if c.Started 0 then [c.tickAt 0] else [] := by
  by_cases h : c.Started 0 <;> simp [started, h]

/-- The spawn of a schedule without a delay. -/
theorem startSeries_spec (hf : c.Fits 0) (hzero : c.startDelay = 0) :
    (startSeries c.spawned c.init).starts = c.started 0 ∧
      c.Stands 0 (startSeries c.spawned c.init) := by
  have hstarted : c.Started 0 ↔ c.left 0 ≠ 0 := by
    rw [left_ne_zero_iff]
    exact ⟨And.left, fun h => ⟨h, .inl ⟨rfl, hzero⟩⟩⟩
  have hleft : c.init.runsLeft = c.left 0 := (ite_self _).symm
  have hat : c.tickAt 0 = c.spawned := by simp [tickAt, start, hzero]
  unfold startSeries
  rw [hleft, started_zero, hat]
  by_cases hnone : c.left 0 = 0
  · rw [if_pos hnone, if_neg (hstarted.not.mpr (not_not.mpr hnone))]
    exact ⟨rfl, .off rfl fun j _ h => left_ne_zero_iff.mpr (h.1.mono j.zero_le) hnone⟩
  rw [if_neg hnone, if_pos (hstarted.mpr hnone), countRun_left]
  by_cases hlast : c.left 1 = 0
  · simp only [Nat.zero_add, hlast, decide_true, if_true]
    exact ⟨rfl, .off rfl fun j hj h => left_ne_zero_iff.mpr (h.1.mono hj) hlast⟩
  · simp only [Nat.zero_add, hlast, decide_false, Bool.false_eq_true, if_false]
    refine ⟨rfl, .on rfl ?_ (Nat.mod_eq_of_lt hf.period) rfl rfl (left_ne_zero_iff.mp hlast)⟩
    simp [launch, init, hzero]

/-- The schedule once its start has been handled, by the spawn or at the end of the delay. -/
theorem after_zero_spec (hf : c.Fits 0) :
    (c.after 0).starts = c.started 0 ∧ c.Stands 0 (c.after 0) := by
  have hdelay : c.init.startDelay = c.startDelay := Nat.mod_eq_of_lt hf.delay
  by_cases hzero : c.startDelay = 0
  · obtain ⟨hstarts, hstands⟩ := startSeries_spec hf hzero
    have hcreate : c.createSeries = startSeries c.spawned c.init := by
      rw [createSeries, if_pos (hdelay.trans hzero)]
    have hspawn : c.after 0 = startSeries c.spawned c.init := by
      rw [after, hcreate, if_neg]
      cases hstands with
      | on timer => simp [timer]
      | off timer => simp [timer]
    rw [hspawn]
    exact ⟨hstarts, hstands⟩
  · have hcreate : c.createSeries = { c.init with timer := some .oneShot } := by
      rw [createSeries, if_neg (hdelay.trans_ne hzero)]
    have hwake : c.after 0 = tickBounds c.clockEnd (c.tickAt 0)
        { c.init with startDelay := 0, timer := some .repeating } := by
      simp [after, hcreate, Clock.fire, tick, armRepeating, hdelay, hzero, tickAt]
    have hspec := tickBounds_spec (s := { c.init with startDelay := 0, timer := some .repeating })
      hf rfl rfl (Nat.mod_eq_of_lt hf.period) rfl (ite_self _).symm (.inr hzero)
    rw [hwake, started_zero]
    exact hspec

/-- **The runs a schedule starts**: those at the ticks with more than a period left before the
deadline, as long as the count allows, and the first run of a schedule without a delay. -/
theorem starts_eq_started (hf : c.Fits n) :
    (c.after n).starts = c.started n ∧ c.Stands n (c.after n) := by
  induction n with
  | zero => exact after_zero_spec hf
  | succ n ih =>
    obtain ⟨hstarts, hstands⟩ := ih (hf.mono n.le_succ)
    obtain ⟨hnext, hstands'⟩ := hstands.fire hf
    rw [hstarts, ← started_succ] at hnext
    exact ⟨hnext, hstands'⟩

/-- Where the deadline never comes within a period of a tick, a run is started exactly where one
belongs. -/
theorem started_iff_expected (h : c.Clear k) : c.Started k ↔ c.Expected k := by
  constructor
  · rintro ⟨hallow, hfirst | hbefore⟩
    · exact ⟨hallow, .inl hfirst.1⟩
    · exact ⟨hallow, .inr (hbefore.mono (Nat.le_add_right _ _))⟩
  · exact fun hexp => ⟨hexp.1, h hexp⟩

theorem started_eq_expected (h : ∀ k ≤ n, c.Clear k) : c.started n = c.expected n := by
  unfold started expected
  congr 1
  refine List.filter_congr fun k hk => ?_
  have hle : k ≤ n := Nat.lt_succ_iff.mp (List.mem_range.mp hk)
  exact decide_eq_decide.mpr (started_iff_expected (h k hle))

theorem before_of_mem_expected (hstart : c.Before c.start) {t : ℕ} (ht : t ∈ c.expected n) :
    c.Before t := by
  obtain ⟨k, hk, rfl⟩ := List.mem_map.mp ht
  have hexp : c.Expected k := of_decide_eq_true (List.mem_filter.mp hk).2
  obtain rfl | hbefore := hexp.2
  · rwa [show c.tickAt 0 = c.start by simp [tickAt]]
  · exact hbefore

/-- **Runs up to the deadline**: as long as no tick at which a run belongs has the deadline within
one period after it, a schedule starts its first run, and then a run at each tick strictly before
the deadline for as long as the count allows, and no other. None of them is at or after a deadline
that lies after the start. -/
theorem starts_eq_expected (hf : c.Fits n) (hclear : ∀ k ≤ n, c.Clear k) :
    (c.after n).starts = c.expected n ∧
      (c.Before c.start → ∀ t ∈ (c.after n).starts, c.Before t) := by
  have hstarts : (c.after n).starts = c.expected n :=
    (starts_eq_started hf).1.trans (started_eq_expected hclear)
  refine ⟨hstarts, fun hstart t ht => ?_⟩
  rw [hstarts] at ht
  exact before_of_mem_expected hstart ht

end Setup

/-! ### A deadline in reach -/

/-- Three runs, 100 apart, the first at 10, with the deadline at 460. -/
def threeInTime : Setup where
  period := 100
  startDelay := 10
  deadline := .span 450
  runs := 3
  runs_le := by decide
  spawned := 0
  clockEnd := 10 ^ 6

/-- A count that ends the schedule two periods before its deadline: three runs, and nothing at the
two ticks that follow. -/
theorem starts_eq_expected_threeInTime :
    (threeInTime.after 4).starts = [10, 110, 210] ∧ threeInTime.expected 4 = [10, 110, 210] := by
  have hclear : ∀ k ≤ 4, threeInTime.Clear k := by decide
  have h := (Setup.starts_eq_expected (c := threeInTime) (n := 4)
    ⟨by decide, by decide, by decide, by decide⟩ hclear).1
  have hexp : threeInTime.expected 4 = [10, 110, 210] := by decide
  exact ⟨h.trans hexp, hexp⟩

/-- A run every 100 for a span, after a delay. -/
def bounded (delay span : ℕ) : Setup where
  period := 100
  startDelay := delay
  deadline := .span span
  runs := unlimited
  runs_le := le_rfl
  spawned := 0
  clockEnd := 10 ^ 6

/-- The tick at 200 lies before the deadline at 250 and gets no run; and a schedule that waits out
a delay of 10 and is then bounded to 50 starts no run, although one belongs at its start. -/
theorem last_tick_missed :
    (bounded 0 250).Fits 5 ∧ (bounded 10 50).Fits 5 ∧
      (bounded 0 250).expected 5 = [0, 100, 200] ∧ ((bounded 0 250).after 5).starts = [0, 100] ∧
      (bounded 10 50).expected 5 = [10] ∧ ((bounded 10 50).after 5).starts = [] := by
  refine ⟨⟨?_, ?_, ?_, ?_⟩, ⟨?_, ?_, ?_, ?_⟩, ?_, ?_, ?_, ?_⟩ <;> decide

end Atap.Series.Clock
