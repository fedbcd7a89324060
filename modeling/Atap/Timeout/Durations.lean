import Mathlib.Algebra.Order.Ring.Int

/-!
# From a duration to the kernel's timer

`after`, `every`, `at_rate` and `timeout` take a `Duration` of up to `2 ^ 64` seconds, and the
kernel takes a timer as a signed 64-bit number of nanoseconds. In between, a delay and an interval
are narrowed to a word in the slot and then read as a signed number; the delay of a task that
waits for gives is cut off at the largest word first; and a timeout is cut off at the largest
signed number, after it was added to the clock.

* `waits_exact`: when each wait is what was asked for: a delay and an interval if their words, read
  as signed numbers, are, and a timeout if it is not zero and not past the last instant the clock
  can tell.
* `waits_cut`: a delay of `2 ^ 64` nanoseconds is none at all, a gap of `2 ^ 63` is registered as a
  negative number, and a timeout of all the seconds there are panics.
-/

namespace Atap.Durations

/-- A `std::time::Duration`. -/
structure Duration where
  secs : ℕ
  nanos : ℕ
  secs_lt : secs < 2 ^ 64
  nanos_lt : nanos < 10 ^ 9

/-- `Duration::as_nanos`. -/
def Duration.asNanos (d : Duration) : ℕ := d.secs * 10 ^ 9 + d.nanos

/-- `Duration::ZERO`. -/
def Duration.zero : Duration := ⟨0, 0, by decide, by decide⟩

/-- What a task was set up with, as far as it is a duration. -/
structure TaskSetup where
  interval : Duration
  startDelay : Duration
  timeout : Option Duration

/-- The words of a slot that came from a duration. -/
structure TaskData where
  startDelay : ℕ
  interval : ℕ

/-- `as u64`. -/
def asU64 (n : ℕ) : ℕ := n % 2 ^ 64

/-- `as libc::intptr_t`, of a word. -/
def asIntptr (n : ℕ) : ℤ := if n < 2 ^ 63 then n else n - 2 ^ 64

/-- `libc::intptr_t::MAX`. -/
def intptrMax : ℕ := 2 ^ 63 - 1

/-- What a call from the program panics with. -/
inductive Panic
  /-- `Instant + Duration` overflows. -/
  | overflow
  deriving DecidableEq

/-- The last instant the clock can tell, in nanoseconds. Its seconds are a signed 64-bit number. -/
def lastInstant : ℕ := 2 ^ 63 * 10 ^ 9 - 1

/-! ### The code -/

/-- `TaskData::init`. -/
def TaskData.init (setup : TaskSetup) : TaskData :=
  ⟨asU64 setup.startDelay.asNanos, asU64 setup.interval.asNanos⟩

/-- `arm_timer`: what it registers. -/
def armTimer (interval : ℕ) : ℤ := asIntptr interval

def waitFor (nanos : ℕ) : ℤ := armTimer nanos

/-- `wait_out`, for the gap of a repeat. -/
def waitOut (data : TaskData) : ℤ := waitFor data.interval

/-- `schedule`, for the period of a series. -/
def schedule (interval : ℕ) : ℤ := asIntptr interval

/-- How `create` and `create_series` start a task: at once, or with a timer. -/
def create (setup : TaskSetup) : Option ℤ :=
  match asU64 setup.startDelay.asNanos with
  | 0 => none
  | delay => some (waitFor delay)

/-- `Gate::new`: the delay of a task that waits for gives. -/
def gateDelay (delay : Duration) : ℕ := asU64 (min delay.asNanos (2 ^ 64 - 1))

/-- `start_waiting`: how a give starts a run or a series. -/
def startWaiting (delay : ℕ) : Option ℤ :=
  match delay with
  | 0 => none
  | delay => some (waitFor delay)

/-- What a new manager arms again: a delay that is still owed, or the gap. -/
def rearmed (data : TaskData) : ℤ :=
  armTimer (match data.startDelay with
    | 0 => data.interval
    | delay => delay)

/-- `encode_until`, of an instant. -/
def encodeUntil (epoch moment : ℕ) : ℕ := asU64 (min (moment - epoch) (2 ^ 64 - 2)) + 1

/-- `TaskData::time_run`. -/
def timeRun (epoch now : ℕ) (timeout : Duration) : Except Panic ℕ :=
  if now + timeout.asNanos ≤ lastInstant then .ok (encodeUntil epoch (now + timeout.asNanos))
  else .error .overflow

/-- `arm_timeout`: what it registers. -/
def armTimeout (left : Duration) : ℤ := asIntptr (asU64 (max 1 (min left.asNanos intptrMax)))

/-- `time_run` of the executor: what is registered for a run with a timeout. -/
def registerTimeout (epoch now : ℕ) (timeout : Duration) : Except Panic ℤ :=
  (timeRun epoch now timeout).map fun _ => armTimeout timeout

/-! ### What is registered -/

/-- What the kernel is to be asked for: the duration, or the longest wait there is. -/
def asked (d : Duration) : ℕ := min d.asNanos intptrMax

/-- The word of a number, read as a signed one, is the number or the largest there is. -/
def Kept (n : ℕ) : Prop := n ≤ intptrMax ∨ n % 2 ^ 64 = intptrMax

theorem asIntptr_asU64_iff {n : ℕ} :
    asIntptr (asU64 n) = (min n intptrMax : ℕ) ↔ Kept n := by
  unfold asIntptr asU64 Kept intptrMax
  split <;> omega

/-- A delay other than none is registered as its word is read. -/
theorem startWaiting_iff {n k : ℕ} (hk : 0 < k) :
    startWaiting n = some (k : ℤ) ↔ asIntptr n = k := by
  unfold startWaiting
  split
  case h_1 =>
    have hne : ¬ (0 : ℤ) = k := by omega
    simp [asIntptr, hne]
  case h_2 => simp [waitFor, armTimer]

theorem asked_pos {d : Duration} (h : d.asNanos ≠ 0) : 0 < asked d :=
  lt_min (Nat.pos_of_ne_zero h) (by decide)

theorem create_eq {setup : TaskSetup} :
    create setup = startWaiting (asU64 setup.startDelay.asNanos) := rfl

/-- A delay passes through a word if it is kept by it. -/
theorem create_iff {setup : TaskSetup} :
    create setup = (if setup.startDelay.asNanos = 0 then none
      else some (asked setup.startDelay : ℤ)) ↔ Kept setup.startDelay.asNanos := by
  rw [create_eq]
  split
  case isTrue h => simp [h, asU64, startWaiting, Kept]
  case isFalse h =>
    rw [startWaiting_iff (asked_pos h)]
    exact asIntptr_asU64_iff

/-- A delay that was cut off at the largest word is not read as the largest number. -/
theorem startWaiting_gateDelay_iff {d : Duration} :
    startWaiting (gateDelay d) = (if d.asNanos = 0 then none else some (asked d : ℤ)) ↔
      d.asNanos ≤ intptrMax := by
  split
  case isTrue h => simp [h, gateDelay, asU64, startWaiting]
  case isFalse h =>
    rw [startWaiting_iff (asked_pos h)]
    unfold gateDelay asU64 asIntptr asked intptrMax
    split <;> omega

theorem rearmed_eq (data : TaskData) : rearmed data =
    asIntptr (if data.startDelay = 0 then data.interval else data.startDelay) := by
  obtain ⟨delay, interval⟩ := data
  cases delay <;> rfl

/-- What a new manager arms again is the delay as long as one is owed. -/
theorem rearmed_iff {setup : TaskSetup} (hd : Kept setup.startDelay.asNanos) :
    rearmed (TaskData.init setup) = (if setup.startDelay.asNanos = 0 then asked setup.interval
      else asked setup.startDelay : ℕ) ↔
      (setup.startDelay.asNanos = 0 → Kept setup.interval.asNanos) := by
  have hzero : asU64 setup.startDelay.asNanos = 0 ↔ setup.startDelay.asNanos = 0 := by
    unfold Kept intptrMax at hd
    unfold asU64
    omega
  rw [rearmed_eq, TaskData.init]
  by_cases h : setup.startDelay.asNanos = 0
  · rw [if_pos (hzero.mpr h), if_pos h]
    exact asIntptr_asU64_iff.trans ⟨fun hk _ => hk, fun hk => hk h⟩
  · rw [if_neg (mt hzero.mp h), if_neg h]
    exact iff_of_true (asIntptr_asU64_iff.mpr hd) fun h0 => absurd h0 h

/-- A timeout is cut off at the longest wait there is, and at the shortest. -/
theorem armTimeout_iff {d : Duration} : armTimeout d = asked d ↔ 0 < d.asNanos := by
  unfold armTimeout asIntptr asU64 asked intptrMax
  split <;> omega

theorem registerTimeout_iff {epoch now : ℕ} {d : Duration} :
    registerTimeout epoch now d = .ok (asked d : ℤ) ↔
      0 < d.asNanos ∧ now + d.asNanos ≤ lastInstant := by
  unfold registerTimeout timeRun
  split
  case isTrue h =>
    rw [← armTimeout_iff]
    exact ⟨fun he => ⟨Except.ok.inj he, h⟩, fun he => congrArg Except.ok he.1⟩
  case isFalse h => exact iff_of_false (fun he => by cases he) fun he => h he.2

/-- **When every wait is what was asked for.** A delay is none if it is zero, and registered as it
is or as the largest number there is otherwise, exactly if its word, read as a signed number, is
that; for a task that waits for gives, exactly if it is no larger than that number. So it is for the
gap of a repeat and the period of a series, and for what a new manager arms again. A timeout is
registered as it is, or as the largest number, and the run that it limits starts without a panic,
exactly if it is not zero and not past the last instant the clock can tell. -/
theorem waits_exact (setup : TaskSetup) (epoch now : ℕ) :
    (create setup = (if setup.startDelay.asNanos = 0 then none
      else some (asked setup.startDelay : ℤ)) ↔ Kept setup.startDelay.asNanos) ∧
    (startWaiting (gateDelay setup.startDelay) = (if setup.startDelay.asNanos = 0 then none
      else some (asked setup.startDelay : ℤ)) ↔ setup.startDelay.asNanos ≤ intptrMax) ∧
    (waitOut (TaskData.init setup) = asked setup.interval ↔ Kept setup.interval.asNanos) ∧
    (schedule (TaskData.init setup).interval = asked setup.interval ↔
      Kept setup.interval.asNanos) ∧
    (Kept setup.startDelay.asNanos →
      (rearmed (TaskData.init setup) = (if setup.startDelay.asNanos = 0 then asked setup.interval
        else asked setup.startDelay : ℕ) ↔
        (setup.startDelay.asNanos = 0 → Kept setup.interval.asNanos))) ∧
    ∀ t ∈ setup.timeout, registerTimeout epoch now t = .ok (asked t : ℤ) ↔
      0 < t.asNanos ∧ now + t.asNanos ≤ lastInstant :=
  ⟨create_iff, startWaiting_gateDelay_iff, asIntptr_asU64_iff, asIntptr_asU64_iff, rearmed_iff,
    fun _ _ => registerTimeout_iff⟩

/-- A delay of two nanoseconds, a gap of one, and a timeout of more than a timer can be. -/
def brief : TaskSetup :=
  ⟨⟨0, 1, by decide, by decide⟩, ⟨0, 2, by decide, by decide⟩,
    some ⟨2 ^ 62, 0, by decide, by decide⟩⟩

theorem waits_exact_brief : create brief = some 2 ∧ waitOut (TaskData.init brief) = 1 ∧
    registerTimeout 0 5 ⟨2 ^ 62, 0, by decide, by decide⟩ = .ok (2 ^ 63 - 1) := by
  obtain ⟨hcreate, -, hwait, -, -, htimeout⟩ := waits_exact brief 0 5
  exact ⟨(hcreate.mpr (.inl (by decide))).trans (by decide +kernel),
    (hwait.mpr (.inl (by decide))).trans (by decide +kernel),
    ((htimeout _ rfl).mpr ⟨by decide, by decide⟩).trans (by decide +kernel)⟩

/-- A delay of `2 ^ 64` nanoseconds starts its task at once, a gap of `2 ^ 63` is registered as a
negative number, and the longest timeout there is panics. -/
theorem waits_cut :
    create ⟨.zero, ⟨18446744073, 709551616, by decide, by decide⟩, none⟩ = none ∧
    waitOut (TaskData.init
      ⟨⟨9223372036, 854775808, by decide, by decide⟩, .zero, none⟩) = -(2 ^ 63) ∧
    registerTimeout 0 0 ⟨2 ^ 64 - 1, 999999999, by decide, by decide⟩ = .error .overflow :=
  ⟨by decide, by decide, by decide⟩

end Atap.Durations
