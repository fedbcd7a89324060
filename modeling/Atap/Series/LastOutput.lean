import Atap.Series.Settle

/-!
# The last output of a counted schedule

`finish_series` makes the kind of the slot `Once` as soon as the last run is launched, and
`begin` lets a run publish into a slot that is not `Pending` only as long as the kind repeats. So
which output stays in the slot hangs on whether the last run has published by then.

For a series of `n` runs, two at least, that do not overlap, that all return, and whose outputs are
only read and taken, `output_stays` says which one that is: the output of the `n`-th if it has
looked at the kind before the schedule changes it, and the output of the run before it if it looks
after that. The latter is the schedule's own timing: the manager changes the kind right after the
launch, and the last run is turned away (`last_output_lost`).
-/

namespace Atap.Series

open Function

variable {T α : Type*}

/-- The runs launched that are not over. -/
def working [Fintype T] (m : Mem α) (loc : T → Pc α) : ℕ :=
  m.launched.length + Atap.count Pc.runs loc

/-- A run panics, something is refused, a deadline passes, or the series is stopped. -/
def Act.disturbs : Act α → Bool
  | .panic | .refuse | .late | .stop _ => true
  | _ => false

/-- The runs of a series do not overlap: each is over by the next tick. None panics, nothing is
refused, there is no deadline, and nobody stops the series. -/
def NoOverlap (s : Config T (Mem α) (Pc α)) (a : Act α) : Prop :=
  a.disturbs = false ∧ (a = .tick → s.mem.launched = [] ∧ ∀ u, (s.loc u).runs = false)

namespace Pc

/-- The thread is in a run that has not looked at the kind. -/
def early : Pc α → Bool
  | run _ | beginPending _ _ | beginKind _ _ => true
  | _ => false

/-- The run that is about to look at the kind. -/
def looks : Pc α → Option ℕ
  | beginKind k _ => some k
  | _ => none

theorem early_eq_false {pc : Pc α} (h : pc.runs = false) : pc.early = false := by
  cases pc <;> first | rfl | cases h

end Pc

/-- No run is yet to look at the kind. -/
def NoneEarly (m : Mem α) (loc : T → Pc α) : Prop :=
  m.launched = [] ∧ ∀ u, (loc u).early = false

/-- The last of `n` runs looks at the kind after the schedule has changed it, if it is `late`, and
before that otherwise. -/
def Timed (late : Bool) (n : ℕ) (s : Config T (Mem α) (Pc α)) (t : T) : Prop :=
  if late then (s.loc t).looks = some (n - 1) → s.mem.kind = .once
  else s.loc t = .finish → NoneEarly s.mem s.loc

/-- The slot holds what a run returned, to be read or taken. -/
def Holds (m : Mem α) (k : ℕ) : Prop :=
  (m.state = .ready ∨ m.state = .taken) ∧ ∃ x, m.outs k = some x ∧ m.payload = some (k, x)

/-- The run whose output is in the slot once that many are over. -/
def kept (late : Bool) (n runs : ℕ) : ℕ := if late = true ∧ runs = n then runs - 2 else runs - 1

/-- What the slot holds between runs. -/
def Rests (late : Bool) (n : ℕ) (m : Mem α) : Prop :=
  (m.runs = 0 → m.state = .pending) ∧ (m.runs ≠ 0 → Holds m (kept late n m.runs))

/-- The slot as the latest run finds it: it holds the output of the run before. -/
def Before (m : Mem α) : Prop :=
  (m.runs = 1 → m.state = .pending) ∧ (m.runs ≠ 1 → Holds m (m.runs - 2))

/-- The schedule goes on: it has runs left. -/
def Open (n : ℕ) (m : Mem α) : Prop :=
  m.kind = .series ∧ 0 < m.runsLeft ∧ m.runs + m.runsLeft = n

/-- What a thread knows where it stands, with `w` runs launched and not over. A late last run gets
no further than the look at the kind. -/
def View (late : Bool) (n : ℕ) (m : Mem α) (w : ℕ) : Pc α → Prop
  | .start => Open n m ∧ w = 0
  | .launch _ | .tick | .tickSchedule | .tickBounds | .tickState => Open n m ∧ w = 0
  | .count _ => m.kind = .series ∧ 0 < m.runsLeft ∧ m.runsLeft ≤ n ∧ m.runs + m.runsLeft = n + 1
  | .schedule => Open n m
  | .finish | .release => m.runs = n
  | .fail | .tickFail | .tickStore => False
  | .run k => k + 1 = m.runs ∧ Before m
  | .beginPending k x => k + 1 = m.runs ∧ m.outs k = some x ∧ Before m
  | .beginKind k x => k + 1 = m.runs ∧ m.outs k = some x ∧ Holds m (m.runs - 2)
  | .beginReady k x => k + 1 = m.runs ∧ m.outs k = some x ∧ (late = true → m.runs ≠ n) ∧
      (m.state = .ready ∨ m.state = .taken)
  | .beginTaken k x => k + 1 = m.runs ∧ m.outs k = some x ∧ (late = true → m.runs ≠ n) ∧
      m.state = .taken
  | .recycle k x | .write k x => k + 1 = m.runs ∧ m.outs k = some x ∧
      (late = true → m.runs ≠ n) ∧ m.state = .running
  | .fill | .publish => m.state = .running ∧ (late = true → m.runs ≠ n) ∧
      ∃ k x, k + 1 = m.runs ∧ m.outs k = some x ∧ m.payload = some (k, x)
  | .stopLook _ | .stopKind _ _ | .stopMove _ _ => False
  | .idle | .entering | .reading _ | .backingOut | .takeWait | .takeEmpty => True

/-- The kind is changed when all runs are launched, and the last of them is late or has looked. -/
def Changed (late : Bool) (n : ℕ) (m : Mem α) (loc : T → Pc α) : Prop :=
  m.runs = n ∧ (late = true ∨ NoneEarly m loc)

/-- A series whose runs come one after the other. -/
structure Serial [Fintype T] (late : Bool) (n : ℕ) (m : Mem α) (loc : T → Pc α) : Prop where
  driver : Atap.count Pc.drives loc + m.clock.toNat + m.released.toNat = 1
  serial : working m loc ≤ 1
  kind : m.kind = .series ∨ Changed late n m loc
  clock : m.clock = true → Open n m
  released : m.released = true → m.runs = n
  launched : ∀ k ∈ m.launched, k + 1 = m.runs ∧ Before m
  rests : working m loc = 0 → Rests late n m
  view : ∀ t, View late n m (working m loc) (loc t)

variable {late : Bool} {n w w' : ℕ} {m m' : Mem α} {pc pc' : Pc α} {a : Act α}

theorem kept_of_ne {runs : ℕ} (h : late = true → runs ≠ n) : kept late n runs = runs - 1 :=
  if_neg fun hl => h hl.1 hl.2

theorem kept_self : kept late n n = if late then n - 2 else n - 1 := by simp [kept]

theorem Holds.take {k : ℕ} (h : Holds m k) : Holds { m with state := .taken } k := ⟨.inr rfl, h.2⟩

theorem Holds.ne_pending {k : ℕ} (h : Holds m k) : m.state ≠ .pending := by
  rcases h.1 with hs | hs <;> simp [hs]

/-- What the slot holds as a run returns is from the run before it. -/
theorem Before.done {k : ℕ} {x : α} (h : Before m) (hk : k + 1 = m.runs) : Before { m with
    tried := update m.tried k true
    outs := update m.outs k (some x) } := by
  refine ⟨h.1, fun h1 => ?_⟩
  obtain ⟨hs, y, hy, hp⟩ := h.2 h1
  have hne : m.runs - 2 ≠ k := by
    change m.runs ≠ 1 at h1
    omega
  exact ⟨hs, y, (update_of_ne hne ..).trans hy, hp⟩

namespace View

/-- What a run knows is about its own output, and about the state. -/
theorem frame_run (h : View late n m w pc) (hpc : pc.runs = true) (hr : m'.runs = m.runs)
    (ho : m'.outs = m.outs) (hs : m'.state = m.state) (hp : m'.payload = m.payload) :
    View late n m' w' pc := by
  cases pc <;> first
    | (cases hpc; done)
    | simpa only [View, Before, Holds, hr, ho, hs, hp] using h

/-- What the driver knows is about the bounds, and that no run is under way. -/
theorem frame_drive (h : View late n m w pc) (hpc : pc.runs = false) (hk : m'.kind = m.kind)
    (hr : m'.runs = m.runs) (hl : m'.runsLeft = m.runsLeft) (hw : w = 0 → w' = 0) :
    View late n m' w' pc := by
  have hopen : Open n m → Open n m' := fun ⟨h1, h2, h3⟩ => ⟨hk ▸ h1, hl ▸ h2, by rw [hr, hl, h3]⟩
  cases pc
  case start | launch | tick | tickSchedule | tickBounds | tickState =>
    exact ⟨hopen h.1, hw h.2⟩
  case count =>
    simp only [View, hk, hr, hl] at h ⊢
    exact h
  case schedule => exact hopen h
  case finish | release => exact hr.trans h
  all_goals first | exact h | cases hpc

/-- A listener knows nothing. -/
theorem frame_listen (h : View late n m w pc) (hr : pc.runs = false) (hd : pc.drives = false) :
    View late n m' w' pc := by
  cases pc <;> first | exact h | (cases hd; done) | cases hr

/-- A take leaves to every thread what it knows. -/
theorem take (h : View late n m w pc) (hs : m.state = .ready) :
    View late n { m with state := .taken } w pc := by
  have hb : Before m → Before { m with state := .taken } := by
    rintro ⟨h1, h2⟩
    refine ⟨fun h => ?_, fun h => (h2 h).take⟩
    cases (h1 h).symm.trans hs
  cases pc
  case run => exact ⟨h.1, hb h.2⟩
  case beginPending => exact ⟨h.1, h.2.1, hb h.2.2⟩
  case beginKind => exact ⟨h.1, h.2.1, h.2.2.take⟩
  case beginReady => exact ⟨h.1, h.2.1, h.2.2.1, .inr rfl⟩
  case beginTaken => exact ⟨h.1, h.2.1, h.2.2.1, rfl⟩
  case recycle | write => cases h.2.2.2.symm.trans hs
  case fill | publish => cases h.1.symm.trans hs
  all_goals exact h

end View

theorem countRun_of_lt {left : ℕ} (h : left < unlimited) :
    countRun left = (left - 1, decide (left - 1 = 0)) :=
  if_neg h.ne

/-- A run that has looked at the kind does not look again. -/
theorem Step.early (h : Step m pc a m' pc') (hn : m.launched = []) (he : pc.early = false) :
    pc'.early = false := by
  cases h
  case pick k hk =>
    rw [hn] at hk
    cases hk
  case done | notPending => cases he
  case listen _ hl _ => exact Pc.early_eq_false (Pc.runs_eq_false hl)
  all_goals rfl

variable [Fintype T] [DecidableEq T] {loc : T → Pc α} {t : T}

theorem working_update (m m' : Mem α) (loc : T → Pc α) (t : T) (pc' : Pc α) :
    working m' (update loc t pc') + (loc t).runs.toNat + m.launched.length =
      working m loc + pc'.runs.toNat + m'.launched.length := by
  have := count_update Pc.runs loc t pc'
  unfold working
  omega

theorem driver_update (hd : Atap.count Pc.drives loc + m.clock.toNat + m.released.toNat = 1)
    (h : pc'.drives.toNat + m'.clock.toNat + m'.released.toNat =
      (loc t).drives.toNat + m.clock.toNat + m.released.toNat) :
    Atap.count Pc.drives (update loc t pc') + m'.clock.toNat + m'.released.toNat = 1 := by
  have := count_update Pc.drives loc t pc'
  omega

omit [Fintype T] in
theorem Changed.step (h : Changed late n m loc) (hr : m'.runs = m.runs)
    (hl : m.launched = [] → m'.launched = [])
    (he : m.launched = [] → (loc t).early = false → pc'.early = false) :
    Changed late n m' (update loc t pc') := by
  refine ⟨hr.trans h.1, h.2.imp_right fun hn => ⟨hl hn.1, ?_⟩⟩
  exact forall_update (P := (Pc.early · = false)) (he hn.1 (hn.2 t)) fun u _ => hn.2 u

/-- A step of a listener leaves the series as it is. -/
theorem Serial.listen (hi : Serial late n m loc) (r : ℕ) (f : Bool) (hpc : (loc t).listens = true)
    (hpc' : pc'.listens = true) (hs : pc'.stops = false) :
    Serial late n { m with readers := r, filled := f } (update loc t pc') := by
  have hw : working { m with readers := r, filled := f } (update loc t pc') =
      working m loc := by
    have := working_update m { m with readers := r, filled := f } loc t pc'
    rw [Pc.runs_eq_false hpc, Pc.runs_eq_false hpc'] at this
    exact Nat.add_right_cancel this
  refine ⟨driver_update hi.driver ?_, ?_, ?_, hi.clock, hi.released, hi.launched, ?_, ?_⟩
  · rw [Pc.drives_eq_false hpc, Pc.drives_eq_false hpc']
  · rw [hw]
    exact hi.serial
  · exact hi.kind.imp_right fun hk =>
      hk.step rfl id fun _ _ => Pc.early_eq_false (Pc.runs_eq_false hpc')
  · rw [hw]
    exact hi.rests
  · rw [hw]
    refine forall_update ?_ fun u _ => hi.view u
    cases pc' <;> trivial

theorem Serial.take (hi : Serial late n m loc) (hpc : loc t = .idle) (hs : m.state = .ready) :
    Serial late n { m with state := .taken } (update loc t .takeWait) := by
  have hw : working { m with state := .taken } (update loc t .takeWait) =
      working m loc := by
    have := working_update m { m with state := .taken } loc t .takeWait
    rw [hpc] at this
    exact Nat.add_right_cancel this
  refine ⟨driver_update hi.driver ?_, ?_, ?_, hi.clock, hi.released, fun k hk => ?_,
    fun h => ?_, ?_⟩
  · rw [hpc]
    rfl
  · rw [hw]
    exact hi.serial
  · exact hi.kind.imp_right fun hk => hk.step rfl id fun _ _ => rfl
  · obtain ⟨h1, h2⟩ := hi.launched k hk
    exact View.take (show View late n m 0 (.run k) from ⟨h1, h2⟩) hs
  · obtain ⟨h0, h1⟩ := hi.rests (hw ▸ h)
    refine ⟨fun h => ?_, fun h => (h1 h).take⟩
    cases (h0 h).symm.trans hs
  · rw [hw]
    exact forall_update trivial fun u _ => (hi.view u).take hs

/-- A step of a run: what it makes of the slot, and whether it is over by then. -/
theorem Serial.run (hi : Serial late n m loc) (hw : 0 < working m loc)
    (hother : ∀ u, u ≠ t → (loc u).runs = false) (hd : (loc t).drives = false)
    (hd' : pc'.drives = false) (hk : m'.kind = m.kind) (hr : m'.runs = m.runs)
    (hl : m'.runsLeft = m.runsLeft) (hc : m'.clock = m.clock) (hrel : m'.released = m.released)
    (hlaunched : m'.launched = [])
    (he : m.launched = [] → (loc t).early = false → pc'.early = false)
    (hview : View late n m' (working m' (update loc t pc')) pc')
    (hrests : pc'.runs = false → Rests late n m') : Serial late n m' (update loc t pc') := by
  have hcount : Atap.count Pc.runs (update loc t pc') = pc'.runs.toNat := by
    rw [count_eq_of_alone (t := t) fun u hu => by rw [update_of_ne hu]; exact hother u hu,
      update_self]
  have hw' : working m' (update loc t pc') = pc'.runs.toNat := by
    rw [working, hlaunched, hcount, List.length_nil, Nat.zero_add]
  have hle := Bool.toNat_le pc'.runs
  refine ⟨driver_update hi.driver ?_, ?_, ?_, ?_, ?_, ?_, ?_, ?_⟩
  · rw [hd, hd', hc, hrel]
  · rw [hw']
    exact hle
  · rw [hk]
    exact hi.kind.imp_right fun hc => hc.step hr (fun _ => hlaunched) he
  · intro h
    simpa only [Open, hk, hr, hl] using hi.clock (hc ▸ h)
  · intro h
    exact hr.trans (hi.released (hrel ▸ h))
  · rw [hlaunched]
    exact nofun
  · intro h
    refine hrests (Bool.eq_false_iff.mpr fun hp => ?_)
    rw [hw', hp] at h
    cases h
  · refine forall_update hview fun u hu => ?_
    refine (hi.view u).frame_drive (hother u hu) hk hr hl fun h => ?_
    omega

/-- A step of the driver that launches nothing. -/
theorem Serial.drive (hi : Serial late n m loc) (hother : ∀ u, u ≠ t → (loc u).drives = false)
    (hruns : (loc t).runs = false) (hruns' : pc'.runs = false) (hs : m'.state = m.state)
    (ho : m'.outs = m.outs) (hp : m'.payload = m.payload) (hl : m'.launched = m.launched)
    (hr : m'.runs = m.runs)
    (hd : pc'.drives.toNat + m'.clock.toNat + m'.released.toNat =
      (loc t).drives.toNat + m.clock.toNat + m.released.toNat)
    (hk : m'.kind = m.kind ∨ Changed late n m loc) (hc : m'.clock = true → Open n m')
    (hrel : m'.released = true → m'.runs = n) (hview : View late n m' (working m loc) pc') :
    Serial late n m' (update loc t pc') := by
  have hw : working m' (update loc t pc') = working m loc := by
    have := working_update m m' loc t pc'
    rw [hruns, hruns', hl] at this
    exact Nat.add_right_cancel this
  refine ⟨driver_update hi.driver hd, ?_, ?_, hc, hrel, ?_, ?_, ?_⟩
  · rw [hw]
    exact hi.serial
  · have hstep (hk : Changed late n m loc) : Changed late n m' (update loc t pc') :=
      hk.step hr (fun h => hl.trans h) fun _ _ => Pc.early_eq_false hruns'
    rcases hk with hk | hk
    · rw [hk]
      exact hi.kind.imp_right hstep
    · exact .inr (hstep hk)
  · rw [hl]
    simpa only [Before, Holds, hr, hs, ho, hp] using hi.launched
  · rw [hw]
    simpa only [Rests, Holds, hr, hs, ho, hp] using hi.rests
  · rw [hw]
    refine forall_update hview fun u hu => ?_
    cases hur : (loc u).runs with
    | true => exact (hi.view u).frame_run hur hr ho hs hp
    | false => exact (hi.view u).frame_listen hur (hother u hu)

/-- The driver launches a run. -/
theorem Serial.launch {b : Bool} (hi : Serial late n m loc)
    (hother : ∀ u, u ≠ t → (loc u).drives = false) (hpc : loc t = .launch b) :
    Serial late n { m with launched := m.launched ++ [m.runs], runs := m.runs + 1 }
      (update loc t (.count b)) := by
  obtain ⟨⟨hk, hleft, hsum⟩, hw⟩ : Open n m ∧ working m loc = 0 := by
    have := hi.view t
    rwa [hpc] at this
  have hnil : m.launched = [] := List.eq_nil_of_length_eq_zero (by unfold working at hw; omega)
  have hnone : ∀ u, (loc u).runs = false := count_eq_zero.mp (by unfold working at hw; omega)
  have hw' : working { m with launched := m.launched ++ [m.runs], runs := m.runs + 1 }
      (update loc t (.count b)) = 1 := by
    have := working_update m { m with launched := m.launched ++ [m.runs], runs := m.runs + 1 }
      loc t (.count b)
    rw [hpc, hw] at this
    simpa [hnil, Pc.runs] using this
  obtain ⟨hpending, hready⟩ := hi.rests hw
  have hd : (loc t).drives = true := by
    rw [hpc]
    rfl
  refine ⟨driver_update hi.driver ?_, hw'.le, .inl hk, fun h => ?_, fun h => ?_, ?_,
    fun h => ?_, ?_⟩
  · rw [hpc]
    rfl
  · have := hi.driver
    have hpos := count_pos (p := Pc.drives) hd
    change m.clock = true at h
    rw [h, Bool.toNat_true] at this
    omega
  · have := hi.driver
    have hpos := count_pos (p := Pc.drives) hd
    change m.released = true at h
    rw [h, Bool.toNat_true] at this
    omega
  · intro k hk
    rw [hnil, List.nil_append, List.mem_singleton] at hk
    subst hk
    refine ⟨rfl, fun h => hpending (Nat.succ.inj h), fun h => ?_⟩
    have hlast := hready fun h0 => h (congrArg Nat.succ h0)
    rwa [kept_of_ne fun _ => by omega] at hlast
  · rw [hw'] at h
    cases h
  · have hle : m.runsLeft ≤ n := by omega
    have hsum' : m.runs + 1 + m.runsLeft = n + 1 := by omega
    exact forall_update ⟨hk, hleft, hle, hsum'⟩ fun u hu =>
      (hi.view u).frame_listen (hnone u) (hother u hu)

omit [DecidableEq T] in
/-- No run is under way. -/
theorem working_eq_zero {s : Config T (Mem α) (Pc α)}
    (h : s.mem.launched = [] ∧ ∀ u, (s.loc u).runs = false) : working s.mem s.loc = 0 := by
  rw [working, h.1, count_eq_zero.mpr h.2]
  rfl

omit [DecidableEq T] in
/-- The driver is the only one, and the series is neither on the clock nor given back. -/
theorem Serial.alone (hi : Serial late n m loc) (ht : (loc t).drives = true) :
    (∀ u, u ≠ t → (loc u).drives = false) ∧ m.clock = false ∧ m.released = false := by
  have hd := hi.driver
  have hpos := count_pos (p := Pc.drives) ht
  refine ⟨fun u hu => Bool.eq_false_iff.mpr fun h => hu ?_, ?_, ?_⟩
  · exact eq_of_count_le_one (p := Pc.drives) (by omega) h ht
  · exact Bool.toNat_eq_zero.mp (by omega)
  · exact Bool.toNat_eq_zero.mp (by omega)

omit [DecidableEq T] in
/-- A run under way is the only one. -/
theorem Serial.only (hi : Serial late n m loc) (ht : (loc t).runs = true) :
    (∀ u, u ≠ t → (loc u).runs = false) ∧ m.launched = [] ∧ 0 < working m loc := by
  have hs := hi.serial
  have hpos := count_pos (p := Pc.runs) ht
  unfold working at hs ⊢
  refine ⟨fun u hu => Bool.eq_false_iff.mpr fun h => hu ?_,
    List.eq_nil_of_length_eq_zero (by omega), by omega⟩
  exact eq_of_count_le_one (p := Pc.runs) (by omega) h ht

/-- A step of a run under way. -/
theorem Serial.within (hi : Serial late n m loc) (ht : (loc t).runs = true)
    (hd' : pc'.drives = false) (hk : m'.kind = m.kind) (hr : m'.runs = m.runs)
    (hl : m'.runsLeft = m.runsLeft)
    (hc : m'.clock = m.clock) (hrel : m'.released = m.released)
    (hlaunched : m'.launched = m.launched)
    (he : m.launched = [] → (loc t).early = false → pc'.early = false)
    (hview : View late n m' (working m' (update loc t pc')) pc')
    (hrests : pc'.runs = false → Rests late n m') : Serial late n m' (update loc t pc') := by
  obtain ⟨hother, hnil, hw⟩ := hi.only ht
  exact hi.run hw hother (Pc.drives_eq_false_of_runs ht) hd' hk hr hl hc hrel
    (hlaunched.trans hnil) he hview hrests

omit [DecidableEq T] in
/-- A run not picked up is the only one. -/
theorem Serial.only_launched {k : ℕ} (hi : Serial late n m loc) (hk : k ∈ m.launched) :
    (∀ u, (loc u).runs = false) ∧ m.launched = [k] ∧ 0 < working m loc := by
  have hs := hi.serial
  have hpos := List.length_pos_of_mem hk
  unfold working at hs ⊢
  obtain ⟨j, hj⟩ := List.length_eq_one_iff.mp (show m.launched.length = 1 by omega)
  rw [hj, List.mem_singleton] at hk
  exact ⟨count_eq_zero.mp (by omega), hk ▸ hj, by omega⟩

/-- **A step of a series whose runs do not overlap** leaves it one. -/
theorem Serial.step {s : Config T (Mem α) (Pc α)} (hi : Serial late n s.mem s.loc) (h2 : 2 ≤ n)
    (hn : n < unlimited) (hg : NoOverlap s a) (hf : Timed late n s t)
    (h : Step s.mem (s.loc t) a m' pc') : Serial late n m' (update s.loc t pc') := by
  have hv := hi.view t
  have he := h.early
  generalize hpc : s.loc t = pc at h hv
  cases h
  case noDelay | startRefused | tickRefused | noSchedule | tickNoSchedule | tickLate | panic =>
    cases hg.1
  case fail | failNot | tickSettled | tickFail | tickStore | stop => exact hv.elim
  case listen r f hl hl' hs =>
    refine hi.listen r f (hpc ▸ hl) hl' (Bool.eq_false_iff.mpr fun hs' => ?_)
    rcases hs hs' with hst | ⟨dest, rfl⟩
    · cases pc <;> first | exact hv.elim | cases hst
    · cases hg.1
  case take hs => exact hi.take hpc hs
  -- The runs.
  case pick k hk =>
    obtain ⟨hnone, hl, hw⟩ := hi.only_launched hk
    refine hi.run hw (fun u _ => hnone u) (hpc ▸ rfl) rfl rfl rfl rfl rfl rfl ?_ he ?_ nofun
    · simp [hl]
    · exact hi.launched k hk
  case done k x =>
    exact hi.within (hpc ▸ rfl) rfl rfl rfl rfl rfl rfl rfl he
      ⟨hv.1, update_self .., hv.2.done hv.1⟩ nofun
  case notPending h =>
    refine hi.within (hpc ▸ rfl) rfl rfl rfl rfl rfl rfl rfl he ⟨hv.1, hv.2.1, ?_⟩ nofun
    exact hv.2.2.2 fun h1 => h (hv.2.2.1 h1)
  case repeats k x h =>
    refine hi.within (hpc ▸ rfl) rfl rfl rfl rfl rfl rfl rfl he
      ⟨hv.1, hv.2.1, fun hl hr => ?_, hv.2.2.1⟩ nofun
    -- the last run of a late series looks at the kind when it is changed
    rw [Timed, if_pos hl, hpc] at hf
    have hlook : some k = some (n - 1) := congrArg some (by have := hv.1; omega)
    rw [hf hlook] at h
    cases h
  case recycle | fill => exact hi.within (hpc ▸ rfl) rfl rfl rfl rfl rfl rfl rfl he hv nofun
  case turnedAway k x h =>
    have hchanged := hi.kind.resolve_left fun hk => by
      rw [hk] at h
      cases h
    have hlate : late = true := hchanged.2.resolve_right fun hn => by
      have ht := hn.2 t
      rw [hpc] at ht
      cases ht
    refine hi.within (hpc ▸ rfl) rfl rfl rfl rfl rfl rfl rfl he trivial fun _ => ?_
    refine ⟨fun h0 => absurd hv.1 (h0 ▸ Nat.succ_ne_zero _), fun _ => ?_⟩
    rw [kept, if_pos ⟨hlate, hchanged.1⟩]
    exact hv.2.2
  case beginPending h =>
    refine hi.within (hpc ▸ rfl) rfl rfl rfl rfl rfl rfl rfl he
      ⟨hv.1, hv.2.1, fun _ hr => ?_, rfl⟩ nofun
    -- only the first run finds the slot pending
    refine (hv.2.2.2 fun h1 => ?_).ne_pending h
    exact absurd (hr.symm.trans h1) (Nat.lt_of_lt_of_le Nat.one_lt_two h2).ne'
  case beginReady | beginTaken =>
    exact hi.within (hpc ▸ rfl) rfl rfl rfl rfl rfl rfl rfl he
      ⟨hv.1, hv.2.1, hv.2.2.1, rfl⟩ nofun
  case notReady h =>
    refine hi.within (hpc ▸ rfl) rfl rfl rfl rfl rfl rfl rfl he
      ⟨hv.1, hv.2.1, hv.2.2.1, ?_⟩ nofun
    exact hv.2.2.2.resolve_left h
  case notTaken h => exact absurd hv.2.2.2 h
  case write k x =>
    refine hi.within (hpc ▸ rfl) rfl rfl rfl rfl rfl rfl rfl he ?_ nofun
    exact ⟨hv.2.2.2, hv.2.2.1, k, x, hv.1, hv.2.1, rfl⟩
  case publish =>
    refine hi.within (hpc ▸ rfl) rfl rfl rfl rfl rfl rfl rfl he trivial fun _ => ?_
    obtain ⟨-, hlate, k, x, hk, ho, hp⟩ := hv
    obtain rfl : k = s.mem.runs - 1 := by omega
    refine ⟨fun h0 => absurd hk (h0 ▸ Nat.succ_ne_zero _), fun _ => ?_⟩
    rw [kept_of_ne hlate]
    exact ⟨.inl rfl, x, ho, hp⟩
  case publishNot h => exact absurd hv.1 h
  -- The driver.
  case goOff hc =>
    have hd := hi.driver
    rw [hc, Bool.toNat_true] at hd
    have hnone : Atap.count Pc.drives s.loc = 0 := by omega
    have hr : s.mem.released = false := Bool.toNat_eq_zero.mp (by omega)
    refine hi.drive (fun u _ => count_eq_zero.mp hnone u) (hpc ▸ rfl) rfl rfl rfl rfl rfl rfl ?_
      (.inl rfl) nofun hi.released ⟨hi.clock hc, working_eq_zero (hg.2 rfl)⟩
    rw [hpc, hc]
    rfl
  case launch b => exact hi.launch (hi.alone (hpc ▸ rfl)).1 hpc
  all_goals
    obtain ⟨hother, hc, hr⟩ := hi.alone (t := t) (hpc ▸ rfl)
  case delay =>
    refine hi.drive hother (hpc ▸ rfl) rfl rfl rfl rfl rfl rfl ?_ (.inl rfl) (fun _ => hv.1)
      hi.released trivial
    rw [hpc, hc]
    rfl
  case startNone h | tickNone h => exact absurd h hv.1.2.1.ne'
  case countLast b h =>
    obtain ⟨hk, hpos, hle, hsum⟩ := hv
    refine hi.drive hother (hpc ▸ rfl) rfl rfl rfl rfl rfl rfl (hpc ▸ rfl) (.inl rfl) ?_
      hi.released ?_
    · exact fun h => absurd (hc ▸ h) Bool.false_ne_true
    · rw [countRun_of_lt (hle.trans_lt hn), decide_eq_true_eq] at h
      change s.mem.runs = n
      omega
  case countFirst h =>
    obtain ⟨hk, hpos, hle, hsum⟩ := hv
    rw [countRun_of_lt (hle.trans_lt hn), decide_eq_false_iff_not] at h
    rw [countRun_of_lt (hle.trans_lt hn)]
    refine hi.drive hother (hpc ▸ rfl) rfl rfl rfl rfl rfl rfl ?_ (.inl rfl) nofun hi.released
      ⟨hk, Nat.pos_of_ne_zero h, ?_⟩
    · rw [hpc, hc]
      rfl
    · change s.mem.runs + (s.mem.runsLeft - 1) = n
      omega
  case countTick h =>
    obtain ⟨hk, hpos, hle, hsum⟩ := hv
    rw [countRun_of_lt (hle.trans_lt hn), decide_eq_false_iff_not] at h
    rw [countRun_of_lt (hle.trans_lt hn)]
    refine hi.drive hother (hpc ▸ rfl) rfl rfl rfl rfl rfl rfl ?_ (.inl rfl) (fun _ => ?_)
      hi.released trivial
    · rw [hpc, hc]
      rfl
    · refine ⟨hk, Nat.pos_of_ne_zero h, ?_⟩
      change s.mem.runs + (s.mem.runsLeft - 1) = n
      omega
  case schedule =>
    refine hi.drive hother (hpc ▸ rfl) rfl rfl rfl rfl rfl rfl ?_ (.inl rfl) (fun _ => hv)
      hi.released trivial
    rw [hpc, hc]
    rfl
  case tickOver h =>
    -- Between runs the slot is pending, or holds an output.
    obtain ⟨hpending, hready⟩ := hi.rests hv.2
    rcases eq_or_ne s.mem.runs 0 with h0 | h0
    · rw [hpending h0] at h
      cases h
    · rcases (hready h0).1 with h1 | h1 <;> rw [h1] at h <;> cases h
  case finish =>
    have hchanged : Changed late n s.mem s.loc := by
      refine ⟨hv, ?_⟩
      unfold Timed at hf
      split at hf
      case isTrue hl => exact .inl hl
      case isFalse => exact .inr (hf hpc)
    exact hi.drive hother (hpc ▸ rfl) rfl rfl rfl rfl rfl rfl (hpc ▸ rfl) (.inr hchanged)
      (fun h => absurd (hc ▸ h) Bool.false_ne_true) hi.released hv
  case release =>
    refine hi.drive hother (hpc ▸ rfl) rfl rfl rfl rfl rfl rfl ?_ (.inl rfl)
      (fun h => absurd (hc ▸ h) Bool.false_ne_true) (fun _ => hv) trivial
    rw [hpc, hc, hr]
    rfl
  -- The rest goes on to the next look at the bounds, and moves none of them.
  all_goals
    refine hi.drive hother (hpc ▸ rfl) rfl rfl rfl rfl rfl rfl ?_ (.inl rfl) ?_ hi.released hv
    · rw [hpc]
      rfl
    · exact hi.clock

omit [DecidableEq T] in
theorem Fresh.serial {s : Config T (Mem α) (Pc α)} (h : Fresh n s) (hn : 0 < n) :
    Serial late n s.mem s.loc := by
  obtain ⟨t, ht, hu⟩ := h.loc
  have hruns : ∀ u, (s.loc u).runs = false := by
    intro u
    rcases eq_or_ne u t with rfl | hne
    · rw [ht]
      rfl
    · rw [hu u hne]
      rfl
  have hw : working s.mem s.loc = 0 := working_eq_zero ⟨h.launched, hruns⟩
  have hd : Atap.count Pc.drives s.loc = 1 := by
    rw [count_eq_of_alone (t := t) fun u hne => by rw [hu u hne]; rfl, ht]
    rfl
  refine ⟨?_, by omega, .inl h.kind, fun hc => ?_, fun hr => ?_, fun k hk => ?_, fun _ => ?_,
    fun u => ?_⟩
  · rw [hd, h.clock, h.released]
    rfl
  · rw [h.clock] at hc
    cases hc
  · rw [h.released] at hr
    cases hr
  · rw [h.launched] at hk
    cases hk
  · exact ⟨fun _ => h.state, fun h0 => absurd h.runs h0⟩
  · rcases eq_or_ne u t with rfl | hne
    · rw [ht]
      refine ⟨⟨h.kind, ?_, ?_⟩, hw⟩
      · rwa [h.runsLeft]
      · rw [h.runs, h.runsLeft, Nat.zero_add]
    · rw [hu u hne]
      trivial

theorem serial_of_reach {s : Config T (Mem α) (Pc α)} (h2 : 2 ≤ n) (hn : n < unlimited)
    (hs : (machine α).Reach (Fresh n) (fun s t a => NoOverlap s a ∧ Timed late n s t) s) :
    Serial late n s.mem s.loc :=
  hs.invariant (I := fun s => Serial late n s.mem s.loc)
    (fun _ h => h.serial (Nat.zero_lt_of_lt h2))
    fun _ _ _ _ _ hi hok hnext => hi.step h2 hn hok.1 hok.2 (next_step hnext)

/-- **Which output stays.** A series of `n` runs that do not overlap: once it is finished, all `n`
runs were launched, and the slot holds one output, to be read unless it was taken. It is that of the
run before the last if the last looks at the kind after the schedule has changed it, and that of the
last if it looks before. -/
theorem output_stays {s : Config T (Mem α) (Pc α)} (h2 : 2 ≤ n) (hn : n < unlimited)
    (hs : (machine α).Reach (Fresh n) (fun s t a => NoOverlap s a ∧ Timed late n s t) s)
    (hq : Quiet s) (hr : s.mem.released = true) :
    s.mem.runs = n ∧ Holds s.mem (if late then n - 2 else n - 1) := by
  have hi := serial_of_reach h2 hn hs
  have hruns := hi.released hr
  have hw := working_eq_zero ⟨hq.launched, fun u => Pc.runs_eq_false (hq.loc u)⟩
  have hrests := (hi.rests hw).2 (by omega)
  rw [hruns, kept_self] at hrests
  exact ⟨hruns, hrests⟩

/-! ### A series of two runs -/

instance {T : Type*} [Fintype T] (s : Config T (Mem ℕ) (Pc ℕ)) (a : Act ℕ) :
    Decidable (NoOverlap s a) :=
  inferInstanceAs (Decidable (_ ∧ (_ → _ ∧ _)))

instance {T : Type*} [Fintype T] (late : Bool) (n : ℕ) (s : Config T (Mem ℕ) (Pc ℕ)) (t : T) :
    Decidable (Timed late n s t) :=
  inferInstanceAs (Decidable (if late then (_ → _) else (_ → _ ∧ _)))

/-- The first of two runs is launched and publishes `7`; the clock goes off, and the second is
launched and counted. -/
def lastLaunched : List (Fin 3 × Act ℕ) :=
  [.go, .go, .go, .go].map (0, ·) ++ [.pick 0, .done 7, .go, .go, .go, .go].map (1, ·) ++
    [.tick, .go, .go, .go, .go, .go].map (0, ·)

/-- The second run publishes. -/
def lastRun : List (Fin 3 × Act ℕ) :=
  [.pick 1, .done 8, .go, .go, .go, .go, .go, .go, .go].map (1, ·)

/-- A series of two runs that has come to its end. -/
def Over (late : Bool) (s : Config (Fin 3) (Mem ℕ) (Pc ℕ)) : Prop :=
  (machine ℕ).Reach (Fresh 2) (fun s t a => NoOverlap s a ∧ Timed late 2 s t) s ∧ Quiet s ∧
    s.mem.released = true

/-- The second of two runs publishes `8` before the schedule comes to its end, or is turned away
after it. -/
theorem output_stays_two : (∃ s, Over false s ∧ s.mem.runs = 2 ∧ Holds s.mem 1) ∧
    ∃ s, Over true s ∧ s.mem.runs = 2 ∧ Holds s.mem 0 := by
  have hinit {Ok} : (machine ℕ).Reach (Fresh 2) Ok (newSeries 2) := .init (newSeries_fresh 2)
  constructor
  · obtain ⟨s, hs, hq, hr⟩ : ∃ s, Over false s :=
      hinit.exists_of_run (lastLaunched ++ lastRun ++ [.go, .go].map (0, ·)) (by decide +kernel)
    exact ⟨s, ⟨hs, hq, hr⟩, output_stays le_rfl (by decide) hs hq hr⟩
  · obtain ⟨s, hs, hq, hr⟩ : ∃ s, Over true s :=
      hinit.exists_of_run (lastLaunched ++ [.go, .go].map (0, ·) ++
        [.pick 1, .done 8, .go, .go].map (1, ·)) (by decide +kernel)
    exact ⟨s, ⟨hs, hq, hr⟩, output_stays le_rfl (by decide) hs hq hr⟩

/-- **The last output lost.** The runs of the series do not overlap, and the second one, which
returns `8`, is still under way when the schedule ends. It is turned away, and the slot keeps the
`7` of the first. -/
theorem last_output_lost : ∃ s : Config (Fin 3) _ _,
    (machine ℕ).Reach (Fresh 2) (fun s _ a => NoOverlap s a) s ∧ Quiet s ∧
    s.mem.released = true ∧ s.mem.runs = 2 ∧ s.mem.state = .ready ∧ s.mem.outs 1 = some 8 ∧
    s.mem.payload = some (0, 7) := by
  refine (Machine.Reach.init (newSeries_fresh 2)).exists_of_run (lastLaunched ++
    [.go, .go].map (0, ·) ++ [.pick 1, .done 8, .go, .go].map (1, ·)) ?_
  decide +kernel

end Atap.Series
