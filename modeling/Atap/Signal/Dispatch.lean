import Atap.Interleave.Machine
import Atap.Interleave.Word

/-!
# Which signals the runtime has taken over

A signal that is caught has the counting handler on it. A task that asks to hold its signal sets
`HELD` for good; any other holds a `Watcher`, and the last watcher of a signal that nobody holds
hands it back. What is known about a signal is in four places: `HELD`, `WATCHERS`, `CAUGHT`, and the
kernel's own disposition.

This module is `catch` with `install`, the clone of a watcher, and its drop with `restore`, one
atomic operation or call of `sigaction` at a step, for any number of threads and all signals at
once. `sigaction` succeeds and nobody calls `release`.

* `Inv`: `WATCHERS` counts the watchers; a drop that is handing a signal back and a catch that is
  about to set the handler are not there at once; and the disposition follows `CAUGHT`, but for the
  thread that is about to set it.
* `handler_installed`: **a signal that is watched or held has the handler, whenever no catch of it
  is in progress**.

The second needs that no catch swaps `CAUGHT` while the last watcher's drop is handing the signal
back (`Calm`), which the code does not see to: `watched_and_handed_back` is such a catch. It finds
`CAUGHT` set and leaves the handler to the drop, which then takes it off.
-/

namespace Atap.Signal

open Function (update update_of_ne update_self)

/-- `MAX_SIGNAL`. -/
def maxSignal : ℕ := 32

/-- `SIGKILL`. -/
def sigkill : ℤ := 9

/-- `SIGSTOP`. -/
def sigstop : ℤ := 17

/-- `sendable`: the slot of a signal the kernel will take, or `BadSignal`. -/
def sendable (signo : ℤ) : Option ℕ :=
  if signo ≤ 0 ∨ (maxSignal : ℤ) ≤ signo then none else some signo.toNat

/-- `catchable`: the slot of a signal that can be taken over, or `BadSignal`. -/
def catchable (signo : ℤ) : Option ℕ :=
  (sendable signo).bind fun slot => if signo = sigkill ∨ signo = sigstop then none else some slot

/-- `SignalReleasePolicy`. -/
inductive Policy
  | hold
  | onDrop
  deriving DecidableEq

/-- The words of every signal, and what the kernel does with it. -/
structure Mem where
  /-- `CAUGHT`. -/
  caught : ℕ → Bool
  /-- `HELD`. -/
  held : ℕ → Bool
  /-- `WATCHERS`, words of 32 bits. -/
  watchers : ℕ → ℕ
  /-- The disposition is the counting handler. -/
  handler : ℕ → Bool
  /-- The watchers there are, those of a catch that has not returned apart. -/
  alive : ℕ → ℕ

/-- Where a thread stands in the code. -/
inductive Pc
  | idle
  /-- `install`, before the swap of `CAUGHT`, for a catch that takes a watcher or not. -/
  | installSwap (slot : ℕ) (watch : Bool)
  /-- `install`, before `sigaction`. -/
  | installAct (slot : ℕ) (watch : Bool)
  /-- The drop of the last watcher, before the load of `HELD`. -/
  | dropHeld (slot : ℕ)
  /-- `restore`, before the swap of `CAUGHT`. -/
  | restoreSwap (slot : ℕ)
  /-- `restore`, before `sigaction`. -/
  | restoreAct (slot : ℕ)
  deriving DecidableEq

inductive Act
  | go
  | catch (signo : ℤ) (policy : Policy)
  /-- A watcher is cloned. -/
  | clone (slot : ℕ)
  /-- A watcher is dropped. -/
  | drop (slot : ℕ)
  deriving DecidableEq

/-- `catch` returns, with a watcher or none. -/
def Mem.caughtBy (m : Mem) (slot : ℕ) (watch : Bool) : Mem :=
  if watch then { m with alive := update m.alive slot (m.alive slot + 1) } else m

/-- The first step of `catch`: the store of `HELD`, or `Watcher::new`. -/
def catchStep (m : Mem) (slot : ℕ) : Policy → Mem × Pc
  | .hold => ({ m with held := update m.held slot true }, .installSwap slot false)
  | .onDrop =>
    ({ m with watchers := update m.watchers slot (fetchAdd 32 (m.watchers slot)) },
      .installSwap slot true)

/-- One step of one thread. -/
def step (m : Mem) : Pc → Act → Option (Mem × Pc)
  | .idle, .catch signo policy =>
    match catchable signo with
    | some slot => some (catchStep m slot policy)
    | none => some (m, .idle)
  | .idle, .clone slot =>
    if 0 < m.alive slot then
      some ({ m with
        watchers := update m.watchers slot (fetchAdd 32 (m.watchers slot))
        alive := update m.alive slot (m.alive slot + 1) }, .idle)
    else none
  | .idle, .drop slot =>
    if 0 < m.alive slot then
      some ({ m with
        watchers := update m.watchers slot (fetchSub 32 (m.watchers slot))
        alive := update m.alive slot (m.alive slot - 1) },
        if m.watchers slot = 1 then .dropHeld slot else .idle)
    else none
  | .installSwap slot watch, .go =>
    if m.caught slot then some (m.caughtBy slot watch, .idle)
    else some ({ m with caught := update m.caught slot true }, .installAct slot watch)
  | .installAct slot watch, .go =>
    some ({ m with handler := update m.handler slot true }.caughtBy slot watch, .idle)
  | .dropHeld slot, .go => some (m, if m.held slot then .idle else .restoreSwap slot)
  | .restoreSwap slot, .go =>
    some ({ m with caught := update m.caught slot false },
      if m.caught slot then .restoreAct slot else .idle)
  | .restoreAct slot, .go =>
    some ({ m with handler := update m.handler slot false }, .idle)
  | _, _ => none

/-- The threads of the program. -/
def machine : Machine Mem Pc Act where
  next m pc a := step m pc a

/-- A catch of the signal is in progress. -/
def Pc.catches (slot : ℕ) : Pc → Bool
  | installSwap s _ | installAct s _ => s == slot
  | _ => false

/-- The catch in progress holds a watcher. -/
def Pc.watches (slot : ℕ) : Pc → Bool
  | installSwap s watch | installAct s watch => s == slot && watch
  | _ => false

/-- The last watcher's drop hands the signal back without a look at a catch that comes now, one that
takes a watcher or not: a signal that is held before the load of `HELD` is kept. -/
def Pc.handsBack (watch : Bool) (slot : ℕ) : Pc → Bool
  | dropHeld s => s == slot && watch
  | restoreSwap s | restoreAct s => s == slot
  | _ => false

/-! ### What a step can do -/

/-- The steps, one constructor for each way a step can go. -/
inductive Step (m : Mem) : Pc → Act → Mem → Pc → Prop
  | refused (signo : ℤ) (policy : Policy) : Step m .idle (.catch signo policy) m .idle
  | hold (signo : ℤ) (slot : ℕ) (h : catchable signo = some slot) :
      Step m .idle (.catch signo .hold) { m with held := update m.held slot true }
        (.installSwap slot false)
  | watch (signo : ℤ) (slot : ℕ) (h : catchable signo = some slot) :
      Step m .idle (.catch signo .onDrop)
        { m with watchers := update m.watchers slot (fetchAdd 32 (m.watchers slot)) }
        (.installSwap slot true)
  | clone (slot : ℕ) (h : 0 < m.alive slot) :
      Step m .idle (.clone slot)
        { m with
          watchers := update m.watchers slot (fetchAdd 32 (m.watchers slot))
          alive := update m.alive slot (m.alive slot + 1) } .idle
  | drop (slot : ℕ) (h : 0 < m.alive slot) :
      Step m .idle (.drop slot)
        { m with
          watchers := update m.watchers slot (fetchSub 32 (m.watchers slot))
          alive := update m.alive slot (m.alive slot - 1) }
        (if m.watchers slot = 1 then .dropHeld slot else .idle)
  | installed (slot : ℕ) (watch : Bool) (h : m.caught slot = true) :
      Step m (.installSwap slot watch) .go (m.caughtBy slot watch) .idle
  | installSwap (slot : ℕ) (watch : Bool) :
      Step m (.installSwap slot watch) .go
        { m with caught := update m.caught slot true } (.installAct slot watch)
  | installAct (slot : ℕ) (watch : Bool) :
      Step m (.installAct slot watch) .go
        ({ m with handler := update m.handler slot true }.caughtBy slot watch) .idle
  | dropKept (slot : ℕ) : Step m (.dropHeld slot) .go m .idle
  | dropHeld (slot : ℕ) (h : m.held slot = false) :
      Step m (.dropHeld slot) .go m (.restoreSwap slot)
  | restoreSwap (slot : ℕ) :
      Step m (.restoreSwap slot) .go { m with caught := update m.caught slot false }
        (if m.caught slot then .restoreAct slot else .idle)
  | restoreAct (slot : ℕ) :
      Step m (.restoreAct slot) .go { m with handler := update m.handler slot false }
        .idle

theorem step_step {m m' : Mem} {pc pc' : Pc} {a : Act} (h : step m pc a = some (m', pc')) :
    Step m pc a m' pc' := by
  unfold step at h
  split at h
  case h_1 signo policy =>
    split at h
    case h_1 slot hslot =>
      cases policy
      · exact yield h (.hold signo slot hslot)
      · exact yield h (.watch signo slot hslot)
    case h_2 => exact yield h (.refused signo policy)
  case h_2 slot => exact yield_guard h (.clone slot)
  case h_3 slot => exact yield_guard h (.drop slot)
  case h_4 slot watch => exact yield_ite h (.installed slot watch) fun _ => .installSwap slot watch
  case h_6 slot =>
    exact yield_snd h (fun _ => .dropKept slot) fun hheld => .dropHeld slot (Bool.eq_false_iff.mpr
      hheld)
  case h_9 => cases h
  case h_5 | h_7 | h_8 =>
    cases h
    constructor

/-- The catch that is about to swap `CAUGHT`, by its signal and whether it takes a watcher. -/
def Pc.swaps : Pc → Option (ℕ × Bool)
  | installSwap slot watch => some (slot, watch)
  | _ => none

/-- The signal a step takes one more watcher of. -/
def Act.watching : Act → Option ℕ
  | .catch signo .onDrop => catchable signo
  | .clone slot => some slot
  | _ => none

/-- No catch of a signal swaps `CAUGHT` while the last watcher's drop is handing it back, and
`WATCHERS` does not run over. -/
def Calm {T : Type*} (s : Config T Mem Pc) (t : T) (a : Act) : Prop :=
  (∀ c ∈ (s.loc t).swaps, ∀ u, (s.loc u).handsBack c.2 c.1 = false) ∧
    ∀ slot ∈ a.watching, s.mem.watchers slot + 1 < 2 ^ 32

instance {T : Type*} [Fintype T] (s : Config T Mem Pc) (t : T) (a : Act) :
    Decidable (Calm s t a) :=
  inferInstanceAs (Decidable (_ ∧ _))

/-! ### One signal -/

section Signal

variable {T : Type*} {slot : ℕ} {m m' : Mem} {loc : T → Pc}

/-- The thread is about to set the disposition. -/
def Pc.acts (slot : ℕ) : Pc → Bool
  | installAct s _ | restoreAct s => s == slot
  | _ => false

/-- What a thread can rely on. -/
def Pc.Local (slot : ℕ) (m : Mem) : Pc → Prop
  | installSwap s watch => s = slot → watch = false → m.held slot = true
  | installAct s watch =>
    s = slot → m.caught slot = true ∧ (watch = false → m.held slot = true)
  | dropHeld s | restoreSwap s => s = slot → m.alive slot = 0
  | restoreAct s => s = slot → m.alive slot = 0 ∧ m.caught slot = false
  | idle => True

/-- What holds of a signal in every interleaving. -/
structure Inv [Fintype T] (slot : ℕ) (m : Mem) (loc : T → Pc) : Prop where
  word : m.watchers slot = m.alive slot + count (Pc.watches slot) loc
  locals : ∀ t, (loc t).Local slot m
  apart : ∀ t watch, loc t = .installAct slot watch → ∀ u, (loc u).handsBack watch slot = false
  handler : (∀ t, (loc t).acts slot = false) → m.handler slot = m.caught slot
  want : 0 < m.alive slot ∨ m.held slot = true →
    (m.caught slot = true ∧ ∀ u, (loc u).handsBack false slot = false) ∨
      ∃ t watch, loc t = .installSwap slot watch

/-- The thread has to do with the signal. -/
def Pc.on (slot : ℕ) (pc : Pc) : Bool := pc.catches slot || pc.handsBack true slot

theorem Pc.watches_of_off {pc : Pc} (h : pc.on slot = false) : pc.watches slot = false := by
  cases pc <;> simp_all [Pc.on, Pc.watches, Pc.catches]

theorem Pc.acts_of_off {pc : Pc} (h : pc.on slot = false) : pc.acts slot = false := by
  cases pc <;> simp_all [Pc.on, Pc.acts, Pc.catches, Pc.handsBack]

theorem Pc.handsBack_of_off {pc : Pc} (h : pc.on slot = false) (watch : Bool) :
    pc.handsBack watch slot = false := by
  cases pc <;> simp_all [Pc.on, Pc.handsBack]

theorem Pc.handsBack_false {pc : Pc} {watch : Bool} (h : pc.handsBack watch slot = false) :
    pc.handsBack false slot = false := by
  cases pc <;> simp_all [Pc.handsBack]

theorem Pc.local_of_off {pc : Pc} (h : pc.on slot = false) : pc.Local slot m := by
  cases pc <;> simp_all [Pc.on, Pc.Local, Pc.catches, Pc.handsBack]

/-- A memory that reads the same of one signal. -/
structure Same (slot : ℕ) (m m' : Mem) : Prop where
  caught : m'.caught slot = m.caught slot
  held : m'.held slot = m.held slot
  watchers : m'.watchers slot = m.watchers slot
  handler : m'.handler slot = m.handler slot
  alive : m'.alive slot = m.alive slot

theorem Pc.Local.same {pc : Pc} (h : pc.Local slot m) (hm : Same slot m m') :
    pc.Local slot m' := by
  cases pc <;> simp only [Pc.Local, hm.caught, hm.held, hm.alive] at h ⊢ <;> exact h

/-- What a thread can rely on stays, if the step of another keeps to this. -/
theorem Pc.Local.keep {pc : Pc} (h : pc.Local slot m)
    (hheld : m.held slot = true → m'.held slot = true)
    (hcatch : ∀ watch, pc = .installAct slot watch → m.caught slot = true → m'.caught slot = true)
    (hback : pc.handsBack true slot = true → m'.alive slot = m.alive slot)
    (hrest : pc.handsBack false slot = true → m.caught slot = false → m'.caught slot = false) :
    pc.Local slot m' := by
  cases pc with
  | idle => trivial
  | installSwap x watch =>
    rintro rfl hw
    exact hheld (h rfl hw)
  | installAct x watch =>
    rintro rfl
    exact ⟨hcatch watch rfl (h rfl).1, fun hw => hheld ((h rfl).2 hw)⟩
  | dropHeld x | restoreSwap x =>
    rintro rfl
    exact (hback (by simp [Pc.handsBack])).trans (h rfl)
  | restoreAct x =>
    rintro rfl
    obtain ⟨ha, hc⟩ := h rfl
    exact ⟨(hback (by simp [Pc.handsBack])).trans ha, hrest (by simp [Pc.handsBack]) hc⟩

variable [Fintype T]

/-- A drop that hands the signal back has found no watcher. -/
theorem Inv.alive_eq_zero (hi : Inv slot m loc) {u : T} (hu : (loc u).handsBack true slot = true) :
    m.alive slot = 0 := by
  have hl := hi.locals u
  generalize loc u = pc at hu hl
  cases pc <;> simp only [Pc.handsBack, Bool.and_true, beq_iff_eq, Bool.false_eq_true] at hu
  case dropHeld | restoreSwap => exact hl hu
  case restoreAct => exact (hl hu).1

/-- No catch is about to set the handler while a drop takes it off. -/
theorem Inv.not_installAct (hi : Inv slot m loc) {t u : T} {watch : Bool}
    (ht : (loc t).handsBack false slot = true) (hu : loc u = .installAct slot watch) : False := by
  have hback := Pc.handsBack_false (hi.apart u watch hu t)
  exact absurd (ht.symm.trans hback) (by decide)

theorem Inv.quiet (hi : Inv slot m loc) {t : T} (ht : (loc t).acts slot = false)
    (hu : ∀ u, u ≠ t → (loc u).acts slot = false) : m.handler slot = m.caught slot := by
  refine hi.handler fun u => ?_
  rcases eq_or_ne u t with rfl | hne
  · exact ht
  · exact hu u hne

theorem Inv.wanted (hi : Inv slot m loc) {t : T} (ht : ∀ watch, loc t ≠ .installSwap slot watch)
    (hw : 0 < m.alive slot ∨ m.held slot = true) :
    (m.caught slot = true ∧ ∀ u, (loc u).handsBack false slot = false) ∨
      ∃ u, u ≠ t ∧ ∃ watch, loc u = .installSwap slot watch :=
  (hi.want hw).imp_right fun ⟨u, watch, hu⟩ => ⟨u, fun h => ht watch (h ▸ hu), watch, hu⟩

variable [DecidableEq T] {t : T} {pc' : Pc}

/-- The invariant after a step, put together from what the step does. -/
theorem Inv.of_step (hi : Inv slot m loc)
    (hword : m'.watchers slot + (m.alive slot + ((loc t).watches slot).toNat) =
      m.watchers slot + (m'.alive slot + (pc'.watches slot).toNat))
    (hself : pc'.Local slot m') (hothers : ∀ u, u ≠ t → (loc u).Local slot m')
    (hback : ∀ u, u ≠ t → ∀ watch, loc u = .installAct slot watch →
      pc'.handsBack watch slot = false)
    (hact : ∀ watch, pc' = .installAct slot watch → ∀ u, (loc u).handsBack watch slot = false)
    (hhandler : (∀ u, u ≠ t → (loc u).acts slot = false) → pc'.acts slot = false →
      m'.handler slot = m'.caught slot)
    (hwant : 0 < m'.alive slot ∨ m'.held slot = true →
      (m'.caught slot = true ∧ pc'.handsBack false slot = false ∧
        ∀ u, u ≠ t → (loc u).handsBack false slot = false) ∨
      (∃ watch, pc' = .installSwap slot watch) ∨
        ∃ u, u ≠ t ∧ ∃ watch, loc u = .installSwap slot watch) :
    Inv slot m' (update loc t pc') := by
  refine ⟨?_, forall_update hself hothers, fun u watch hu => ?_,
    fun hu => ?_, fun hw => ?_⟩
  · have hc := count_update (Pc.watches slot) loc t pc'
    have := hi.word
    omega
  · rcases eq_or_ne u t with rfl | hne
    · rw [update_self] at hu
      exact forall_update (P := (Pc.handsBack watch slot · = false)) (by rw [hu]; rfl)
        fun v _ => hact watch hu v
    · rw [update_of_ne hne] at hu
      exact forall_update (P := (Pc.handsBack watch slot · = false)) (hback u hne watch hu)
        fun v _ => hi.apart u watch hu v
  · refine hhandler (fun u hne => ?_) ?_
    · exact (congrArg (Pc.acts slot) (update_of_ne hne ..)).symm.trans (hu u)
    · exact (congrArg (Pc.acts slot) (update_self ..)).symm.trans (hu t)
  · rcases hwant hw with ⟨hc, hpc, hothers⟩ | ⟨watch, rfl⟩ | ⟨u, hne, watch, hu⟩
    · refine .inl ⟨hc, ?_⟩
      exact forall_update (P := (Pc.handsBack false slot · = false)) hpc hothers
    · exact .inr ⟨t, watch, update_self ..⟩
    · exact .inr ⟨u, watch, (update_of_ne hne ..).trans hu⟩

/-- A step that has to do with another signal. -/
theorem Inv.frame (hi : Inv slot m loc) (hm : Same slot m m') (hpc : (loc t).on slot = false)
    (hpc' : pc'.on slot = false) : Inv slot m' (update loc t pc') := by
  refine hi.of_step ?_ (Pc.local_of_off hpc') (fun u _ => (hi.locals u).same hm)
    (fun _ _ watch _ => Pc.handsBack_of_off hpc' watch) ?_ (fun hu _ => ?_) fun hw => ?_
  · rw [hm.watchers, hm.alive, Pc.watches_of_off hpc, Pc.watches_of_off hpc']
  · rintro watch rfl
    simp [Pc.on, Pc.catches] at hpc'
  · rw [hm.handler, hm.caught]
    exact hi.quiet (Pc.acts_of_off hpc) hu
  · rw [hm.alive, hm.held] at hw
    rw [hm.caught]
    refine (hi.wanted (fun watch h => ?_) hw).imp (fun hc => ?_) .inr
    · rw [h] at hpc
      simp [Pc.on, Pc.catches] at hpc
    · exact ⟨hc.1, Pc.handsBack_of_off hpc' false, fun u _ => hc.2 u⟩

theorem caughtBy_alive (m : Mem) (slot : ℕ) (watch : Bool) :
    (m.caughtBy slot watch).alive slot = m.alive slot + watch.toNat := by
  cases watch
  · rfl
  · exact update_self ..

theorem same_caughtBy {x : ℕ} (m : Mem) (watch : Bool) (h : x ≠ slot) :
    Same slot m (m.caughtBy x watch) := by
  cases watch
  · exact ⟨rfl, rfl, rfl, rfl, rfl⟩
  · exact ⟨rfl, rfl, rfl, rfl, update_of_ne h.symm ..⟩

/-- A catch returns, with the handler on the signal. -/
theorem Inv.installed (hi : Inv slot m loc) {watch : Bool}
    (hwatch : (loc t).watches slot = watch) (hback : ∀ u, (loc u).handsBack watch slot = false)
    (hc : m.caught slot = true) (hm : m'.caught = m.caught ∧ m'.held = m.held ∧
      m'.watchers = m.watchers ∧ m'.alive slot = m.alive slot + watch.toNat)
    (hhandler : (∀ u, u ≠ t → (loc u).acts slot = false) → m'.handler slot = true) :
    Inv slot m' (update loc t .idle) := by
  obtain ⟨hcaught, hheld, hwatchers, halive⟩ := hm
  refine hi.of_step ?_ trivial (fun u _ => (hi.locals u).keep ?_ ?_ (fun hu => ?_) ?_)
    (fun _ _ _ _ => rfl) nofun (fun hu _ => ?_) fun _ => ?_
  · rw [hwatchers, halive, hwatch]
    rfl
  · rw [hheld]
    exact id
  · rw [hcaught]
    exact fun _ _ => id
  · cases watch with
    | true => exact absurd (hu.symm.trans (hback u)) (by decide)
    | false => exact halive
  · rw [hcaught]
    exact fun _ => id
  · rw [hhandler hu, hcaught, hc]
  · rw [hcaught]
    exact .inl ⟨hc, rfl, fun u _ => Pc.handsBack_false (hback u)⟩

/-- The steps of `install`. -/
theorem Inv.install (hi : Inv slot m loc) {a : Act} (hcatch : (loc t).catches slot = true)
    (hs : Step m (loc t) a m' pc') (hcalm : Calm ⟨m, loc⟩ t a) :
    Inv slot m' (update loc t pc') := by
  have hl := hi.locals t
  have hswap := hcalm.1
  change ∀ c ∈ (loc t).swaps, ∀ u, (loc u).handsBack c.2 c.1 = false at hswap
  generalize hpc : loc t = pc at hcatch hs hl hswap
  cases hs
  all_goals simp only [Pc.catches, beq_iff_eq, Bool.false_eq_true] at hcatch
  case installed x watch h =>
    subst hcatch
    refine hi.installed ?_ (hswap _ rfl) h ⟨?_, ?_, ?_, caughtBy_alive ..⟩ fun hu => ?_
    · rw [hpc]
      simp [Pc.watches]
    · cases watch <;> rfl
    · cases watch <;> rfl
    · cases watch <;> rfl
    · have hh : (m.caughtBy x watch).handler = m.handler := by cases watch <;> rfl
      rw [hh, hi.quiet (by rw [hpc]; rfl) hu, h]
  case installAct x watch =>
    subst hcatch
    refine hi.installed ?_ (hi.apart t watch hpc) (hl rfl).1 ⟨?_, ?_, ?_, caughtBy_alive ..⟩
      fun hu => ?_
    · rw [hpc]
      simp [Pc.watches]
    · cases watch <;> rfl
    · cases watch <;> rfl
    · cases watch <;> rfl
    · cases watch <;> exact update_self ..
  case installSwap x watch =>
    subst hcatch
    have hback := hswap _ rfl
    refine hi.of_step ?_ (fun _ => ⟨update_self .., hl rfl⟩)
      (fun u _ => (hi.locals u).keep id (fun _ _ _ => update_self ..) (fun _ => rfl) fun hu => ?_)
      (fun _ _ _ _ => rfl) ?_ (fun _ h => ?_) fun _ => ?_
    · rw [hpc]
      rfl
    · exact absurd (hu.symm.trans (Pc.handsBack_false (hback u))) (by decide)
    · rintro _ ⟨⟩
      exact hback
    · simp [Pc.acts] at h
    · exact .inl ⟨update_self .., rfl, fun u _ => Pc.handsBack_false (hback u)⟩

/-- The steps of a drop that is handing the signal back. -/
theorem Inv.handBack (hi : Inv slot m loc) {a : Act} (hback : (loc t).handsBack true slot = true)
    (hs : Step m (loc t) a m' pc') : Inv slot m' (update loc t pc') := by
  have hl := hi.locals t
  have hquiet := hi.quiet (t := t)
  have hwanted := hi.wanted (t := t)
  generalize hpc : loc t = pc at hback hs hl
  rw [hpc] at hquiet hwanted
  cases hs
  all_goals simp only [Pc.handsBack, Bool.and_true, beq_iff_eq, Bool.false_eq_true] at hback
  case dropKept x =>
    subst hback
    refine hi.of_step (by rw [hpc]; rfl) trivial (fun u _ => hi.locals u) (fun _ _ _ _ => rfl) nofun
      (fun hu _ => hquiet rfl hu) fun hw => (hwanted nofun hw).imp (fun hc => ?_) .inr
    exact ⟨hc.1, rfl, fun u _ => hc.2 u⟩
  case dropHeld x h =>
    subst hback
    refine hi.of_step (by rw [hpc]; rfl) hl (fun u _ => hi.locals u) (fun u _ watch hu => ?_) nofun
      (fun hu _ => hquiet rfl hu) fun hw => ?_
    · -- One that holds the signal has set `HELD`; one with a watcher came before the drop.
      have hlu := hi.locals u
      have hapart := hi.apart u watch hu t
      rw [hu] at hlu
      rw [hpc] at hapart
      cases watch with
      | true => simp [Pc.handsBack] at hapart
      | false => exact absurd (((hlu rfl).2 rfl).symm.trans h) (by decide)
    · rw [hl rfl, h] at hw
      simp at hw
  case restoreSwap x =>
    subst hback
    have ht : (loc t).handsBack false x = true := by
      rw [hpc]
      exact beq_self_eq_true x
    refine hi.of_step ?_ ?_ (fun u _ => (hi.locals u).keep id
      (fun watch hu => (hi.not_installAct ht hu).elim) (fun _ => rfl) fun _ _ => update_self ..)
      (fun u _ watch hu => (hi.not_installAct ht hu).elim) ?_ (fun hu h => ?_) fun hw => ?_
    · rw [hpc]
      split <;> rfl
    · split
      · exact fun _ => ⟨hl rfl, update_self ..⟩
      · trivial
    · intro watch h
      split at h <;> cases h
    · split at h
      case isTrue hc => simp [Pc.acts] at h
      case isFalse hc =>
        change m.handler x = update m.caught x false x
        rw [update_self, hquiet rfl hu]
        exact Bool.eq_false_iff.mpr hc
    · rcases hwanted nofun hw with hc | hc
      · exact absurd (ht.symm.trans (hc.2 t)) (by decide)
      · exact .inr (.inr hc)
  case restoreAct x =>
    subst hback
    have ht : (loc t).handsBack false x = true := by
      rw [hpc]
      exact beq_self_eq_true x
    refine hi.of_step (by rw [hpc]; rfl) trivial (fun u _ => (hi.locals u).keep id
      (fun _ _ => id) (fun _ => rfl) fun _ => id) (fun _ _ _ _ => rfl) nofun (fun _ _ => ?_)
      fun hw => ?_
    · exact (update_self x false m.handler).trans (hl rfl).2.symm
    · rcases hwanted nofun hw with hc | hc
      · exact absurd (ht.symm.trans (hc.2 t)) (by decide)
      · exact .inr (.inr hc)

/-- The steps that begin: a catch, and the clone and the drop of a watcher. -/
theorem Inv.begin (hi : Inv slot m loc) {a : Act} (hidle : loc t = .idle)
    (hs : Step m (loc t) a m' pc') (hcalm : Calm ⟨m, loc⟩ t a) :
    Inv slot m' (update loc t pc') := by
  have hacts : (loc t).acts slot = false := by rw [hidle]; rfl
  have hne (watch : Bool) : loc t ≠ .installSwap slot watch := by rw [hidle]; exact nofun
  have hoff : (loc t).on slot = false := by rw [hidle]; rfl
  -- With a watcher there, nobody is handing the signal back.
  have hnone (h : 0 < m.alive slot) (u : T) (hu : (loc u).handsBack true slot = true) : False :=
    h.ne' (hi.alive_eq_zero hu)
  rw [hidle] at hs
  cases hs
  case refused signo policy => exact hi.frame ⟨rfl, rfl, rfl, rfl, rfl⟩ hoff rfl
  case hold signo x h =>
    rcases eq_or_ne x slot with rfl | hx
    · exact hi.of_step (by simp [hidle, Pc.watches]) (fun _ _ => update_self ..)
        (fun u _ => (hi.locals u).keep (fun _ => update_self ..) (fun _ _ => id) (fun _ => rfl)
          fun _ => id) (fun _ _ _ _ => rfl) nofun (fun hu _ => hi.quiet hacts hu)
        fun _ => .inr (.inl ⟨false, rfl⟩)
    · exact hi.frame ⟨rfl, update_of_ne hx.symm .., rfl, rfl, rfl⟩ hoff
        (by simp [Pc.on, Pc.catches, Pc.handsBack, hx])
  case watch signo x h =>
    have hroom := hcalm.2 x h
    rcases eq_or_ne x slot with rfl | hx
    · refine hi.of_step ?_ nofun (fun u _ => (hi.locals u).keep id (fun _ _ => id) (fun _ => rfl)
        fun _ => id) (fun _ _ _ _ => rfl) nofun (fun hu _ => hi.quiet hacts hu)
        fun _ => .inr (.inl ⟨true, rfl⟩)
      rw [hidle]
      simp only [update_self, fetchAdd_of_lt hroom, Pc.watches, beq_self_eq_true,
        Bool.and_true, Bool.toNat_true, Bool.toNat_false]
      omega
    · exact hi.frame ⟨rfl, rfl, update_of_ne hx.symm .., rfl, rfl⟩ hoff
        (by simp [Pc.on, Pc.catches, Pc.handsBack, hx])
  case clone x h =>
    have hroom := hcalm.2 x rfl
    rcases eq_or_ne x slot with rfl | hx
    · refine hi.of_step ?_ trivial (fun u _ => (hi.locals u).keep id (fun _ _ => id)
        (fun hu => (hnone h u hu).elim) fun _ => id) (fun _ _ _ _ => rfl) nofun
        (fun hu _ => hi.quiet hacts hu) fun _ => (hi.wanted hne (.inl h)).imp (fun hc => ?_) .inr
      · rw [hidle]
        simp only [update_self, fetchAdd_of_lt hroom, Pc.watches, Bool.toNat_false]
        omega
      · exact ⟨hc.1, rfl, fun u _ => hc.2 u⟩
    · exact hi.frame ⟨rfl, rfl, update_of_ne hx.symm .., rfl,
        update_of_ne hx.symm ..⟩ hoff rfl
  case drop x h =>
    rcases eq_or_ne x slot with rfl | hx
    · have hword := hi.word
      have hpos : 0 < m.watchers x := by omega
      refine hi.of_step ?_ ?_ (fun u _ => (hi.locals u).keep id (fun _ _ => id)
        (fun hu => (hnone h u hu).elim) fun _ => id) (fun u _ watch hu => ?_) ?_
        (fun hu _ => hi.quiet hacts hu) fun _ => (hi.wanted hne (.inl h)).imp (fun hc => ?_) .inr
      · rw [hidle]
        simp only [update_self, fetchSub_of_pos hpos]
        split <;> simp only [Pc.watches, Bool.toNat_false] <;> omega
      · split
        case isTrue hlast => exact fun _ => (update_self ..).trans (by omega)
        case isFalse => trivial
      · split
        case isTrue hlast =>
          -- The last watcher is the only one, so no catch has one.
          have hw := count_eq_zero.mp (show count (Pc.watches x) loc = 0 by omega) u
          simpa [hu, Pc.watches, Pc.handsBack] using hw
        case isFalse => rfl
      · intro watch hpc
        split at hpc <;> cases hpc
      · exact ⟨hc.1, by split <;> simp [Pc.handsBack], fun u _ => hc.2 u⟩
    · refine hi.frame ⟨rfl, rfl, update_of_ne hx.symm .., rfl,
        update_of_ne hx.symm ..⟩ hoff ?_
      split
      · simp [Pc.on, Pc.catches, Pc.handsBack, hx]
      · rfl

omit [Fintype T] [DecidableEq T] in
/-- What a thread that is busy with another signal leaves alone. -/
theorem Step.off {pc : Pc} {a : Act} (hs : Step m pc a m' pc') (hidle : pc ≠ .idle)
    (hoff : pc.on slot = false) : Same slot m m' ∧ pc'.on slot = false := by
  cases hs
  case refused | hold | watch | clone | drop => exact absurd rfl hidle
  all_goals simp only [Pc.on, Pc.catches, Pc.handsBack, Bool.or_false, Bool.false_or,
    Bool.and_true, beq_eq_false_iff_ne] at hoff
  case installed x watch h => exact ⟨same_caughtBy m watch hoff, rfl⟩
  case installSwap x watch =>
    exact ⟨⟨update_of_ne hoff.symm .., rfl, rfl, rfl, rfl⟩,
      by simp [Pc.on, Pc.catches, Pc.handsBack, hoff]⟩
  case installAct x watch =>
    have hc := same_caughtBy { m with handler := update m.handler x true } watch hoff
    exact ⟨⟨hc.caught, hc.held, hc.watchers,
      hc.handler.trans (update_of_ne hoff.symm ..), hc.alive⟩, rfl⟩
  case dropKept x => exact ⟨⟨rfl, rfl, rfl, rfl, rfl⟩, rfl⟩
  case dropHeld x h =>
    exact ⟨⟨rfl, rfl, rfl, rfl, rfl⟩, by simp [Pc.on, Pc.catches, Pc.handsBack, hoff]⟩
  case restoreSwap x =>
    refine ⟨⟨update_of_ne hoff.symm .., rfl, rfl, rfl, rfl⟩, ?_⟩
    split
    · simp [Pc.on, Pc.catches, Pc.handsBack, hoff]
    · rfl
  case restoreAct x =>
    exact ⟨⟨rfl, rfl, rfl, update_of_ne hoff.symm .., rfl⟩, rfl⟩

/-- **The invariant is kept** by every step that is no swap of a catch against a drop. -/
theorem Inv.step (hi : Inv slot m loc) {a : Act} (hs : Step m (loc t) a m' pc')
    (hcalm : Calm ⟨m, loc⟩ t a) : Inv slot m' (update loc t pc') := by
  by_cases hcatch : (loc t).catches slot = true
  · exact hi.install hcatch hs hcalm
  by_cases hback : (loc t).handsBack true slot = true
  · exact hi.handBack hback hs
  by_cases hidle : loc t = .idle
  · exact hi.begin hidle hs hcalm
  -- The thread is busy with another signal.
  have hoff : (loc t).on slot = false := by simp [Pc.on, hcatch, hback]
  obtain ⟨hsame, hoff'⟩ := hs.off hidle hoff
  exact hi.frame hsame hoff hoff'

end Signal

/-! ### The whole of a run -/

/-- Nothing is caught, and no thread is doing anything. -/
structure Fresh {T : Type*} (s : Config T Mem Pc) : Prop where
  caught : ∀ slot, s.mem.caught slot = false
  held : ∀ slot, s.mem.held slot = false
  watchers : ∀ slot, s.mem.watchers slot = 0
  handler : ∀ slot, s.mem.handler slot = false
  alive : ∀ slot, s.mem.alive slot = 0
  idle : ∀ t, s.loc t = .idle

theorem Fresh.inv {T : Type*} [Fintype T] {s : Config T Mem Pc} (h : Fresh s) (slot : ℕ) :
    Inv slot s.mem s.loc := by
  refine ⟨?_, fun t => ?_, fun t watch ht => ?_, fun _ => ?_, fun hw => ?_⟩
  · have hc : count (Pc.watches slot) s.loc = 0 :=
      count_eq_zero.mpr fun t => by rw [h.idle t]; rfl
    rw [h.watchers, h.alive, hc]
  · rw [h.idle t]
    trivial
  · cases (h.idle t).symm.trans ht
  · rw [h.handler, h.caught]
  · rw [h.alive, h.held] at hw
    simp at hw

/-- **A signal that is watched or held has the counting handler**, whenever no catch of it is in
progress. -/
theorem handler_installed {T : Type*} [Fintype T] [DecidableEq T] {s : Config T Mem Pc}
    (hs : machine.Reach Fresh Calm s) (slot : ℕ) (hquiet : ∀ t, (s.loc t).catches slot = false)
    (hw : 0 < s.mem.alive slot ∨ s.mem.held slot = true) : s.mem.handler slot = true := by
  have hi : Inv slot s.mem s.loc := by
    refine hs.invariant (I := fun s => Inv slot s.mem s.loc) (fun s h => h.inv slot) ?_
    intro s t a m' pc' hi hcalm hn
    exact hi.step (step_step hn) hcalm
  obtain ⟨hcaught, hback⟩ := (hi.want hw).resolve_right fun ⟨t, watch, ht⟩ => by
    have hc := hquiet t
    rw [ht] at hc
    simp [Pc.catches] at hc
  rw [hi.handler fun t => ?_, hcaught]
  -- A thread that is about to set the disposition is catching, or handing the signal back.
  have hc := hquiet t
  have hb := hback t
  generalize s.loc t = pc at hc hb
  cases pc <;> simp only [Pc.acts]
  case installAct => exact hc
  case restoreAct => exact hb

/-- Two threads. -/
abbrev Pair := Config (Fin 2) Mem Pc

/-- Nothing was caught yet. -/
def pair : Pair where
  mem := ⟨fun _ => false, fun _ => false, fun _ => 0, fun _ => false, fun _ => 0⟩
  loc _ := .idle

theorem fresh_pair : Fresh pair :=
  ⟨fun _ => rfl, fun _ => rfl, fun _ => rfl, fun _ => rfl, fun _ => rfl, fun _ => rfl⟩

/-- A signal is watched, the watcher is cloned and one of the two is dropped. -/
theorem handler_installed_pair : ∃ s : Pair, machine.Reach Fresh Calm s ∧
    (∀ t, (s.loc t).catches 2 = false) ∧ 0 < s.mem.alive 2 ∧ s.mem.handler 2 = true := by
  obtain ⟨s, hs, hc, ha⟩ : ∃ s : Pair, machine.Reach Fresh Calm s ∧
      (∀ t, (s.loc t).catches 2 = false) ∧ 0 < s.mem.alive 2 :=
    (Machine.Reach.init fresh_pair).exists_of_run [(0, .catch 2 .onDrop), (0, .go), (0, .go),
      (1, .clone 2), (0, .drop 2)] (by decide +kernel)
  exact ⟨s, hs, hc, ha, handler_installed hs 2 hc (.inl ha)⟩

/-- **A signal that is watched has been handed back**: the last watcher is dropped, and before the
drop takes the handler off, another task catches the signal and finds it caught. -/
theorem watched_and_handed_back : ∃ s : Pair,
    machine.Reach Fresh Machine.unguarded s ∧ (∀ t, s.loc t = .idle) ∧ 0 < s.mem.alive 2 ∧
    s.mem.handler 2 = false := by
  refine (Machine.Reach.init fresh_pair).exists_of_run [(0, .catch 2 .onDrop), (0, .go), (0, .go),
    (0, .drop 2), (0, .go), (1, .catch 2 .onDrop), (1, .go), (0, .go), (0, .go)] ?_
  decide +kernel

end Atap.Signal
