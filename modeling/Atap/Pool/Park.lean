import Atap.Pool.Census

/-!
# Parking a thread, waking it and asking it to stop

A thread of the pool parks on the word that says where it is: it exchanges `Idle` for `Parked`,
looks for work once more and then sleeps in the kernel for as long as the word reads `Parked`.
Whoever wakes it or asks it to stop moves the word first and pokes the kernel after. This module is
one slot with the threads that come and go behind it (`Worker::run` and `SleepThread::run` do the
same to their slot) and any number of others that call `wake` and `stop`, as a machine: every atomic
operation and every system call is one step.

The thread behind the slot is part of the memory, and its steps are taken by whichever other thread
the schedule names: they come at any time. A recovery is one step, since nobody else moves the word
between its exchange and its store. What the thread finds and runs is left open, and it may come
apart where the source says so. A run takes any number of steps: a task that waits has its thread
begin others meanwhile (`run_awaited`, `help_once`), and none of that reads the word.

`asked`, `late`, `helped`, `parks` and `claims` are a history, and no step reads them: whether the
thread was asked to stop, how many tasks one that was has begun since, from its loop and inside a
run, how often the word became `Parked`, and how often `wake` said that it took the thread out of
each park.
-/

namespace Atap.Park

open Function

open Machine (unguarded)

/-- Where the thread behind the slot stands. -/
inductive Own
  | gone
  /-- Claimed, and yet to be spawned. -/
  | claimed
  | started
  /-- At the head of its loop. -/
  | look
  /-- With a task in hand, before `begin_task`. -/
  | begin
  | run
  | endTask
  /-- `park`, before the exchange. -/
  | park
  /-- `park`, before the last look for work. -/
  | check
  /-- `park`, before `address_lock::wait`. -/
  | wait
  /-- In the kernel. -/
  | asleep
  /-- `park`, before the exchange back. -/
  | unpark
  /-- On its way out of the loop. -/
  | leave
  /-- On its way down, before `mark_dead`. -/
  | dying
  deriving DecidableEq

structure Mem where
  /-- `ThreadSlot::state`. -/
  state : WorkerState
  own : Own
  asked : Bool
  late : ℕ
  helped : ℕ
  parks : ℕ
  /-- By the number of the park, from one. -/
  claims : ℕ → ℕ

/-- An exchange of `a` for `b` whose failure is ignored, and where the thread goes from there. -/
def Mem.swap (m : Mem) (a b : WorkerState) (own : Own) : Mem :=
  { m with state := if m.state = a then b else m.state, own }

/-- The next step of the thread behind the slot. The choice is whether the spawn succeeds, whether
the thread finds work, and whether the task it runs waits and has it begin another. -/
def Mem.step (m : Mem) (c : Bool) : Option Mem :=
  match m.own with
  | .gone => none
  | .claimed =>
    some (if c then { m with own := .started } else { m with state := .empty, own := .gone })
  | .started => some (m.swap .starting .idle .look)
  | .look =>
    some { m with own := if m.state = .stopping then .leave else if c then .begin else .park }
  | .begin =>
    some (if m.state = .idle then
      { m with state := .running, own := .run, late := m.late + m.asked.toNat }
    else { m with own := .leave })
  | .run =>
    some (if c then { m with helped := m.helped + m.asked.toNat } else { m with own := .endTask })
  | .endTask => some (m.swap .running .idle .look)
  | .park =>
    some (if m.state = .idle then { m with state := .parked, own := .check, parks := m.parks + 1 }
    else { m with own := .look })
  | .check => some { m with own := if c then .unpark else .wait }
  | .wait => some { m with own := if m.state = .parked then .asleep else .unpark }
  | .asleep => some { m with own := .unpark }
  | .unpark => some (m.swap .parked .idle .look)
  | .leave => some { m with state := .empty, own := .gone }
  | .dying => some { m with state := .dead, own := .gone }

/-- Where any other thread stands. -/
inductive Pc
  | idle
  /-- `wake` or `stop`, before `address_lock::wake`. -/
  | send
  deriving DecidableEq

inductive Act
  | own (c : Bool)
  | die
  | claim
  /-- `claim_recovery` and `empty`. -/
  | recover
  | wake
  | stop
  | send
  deriving DecidableEq

/-- One step. -/
def next (m : Mem) : Pc → Act → Option (Mem × Pc)
  | .idle, .own c => (m.step c).map (·, .idle)
  | .idle, .die =>
    if m.own = .look ∨ m.own = .run then some ({ m with own := .dying }, .idle) else none
  | .idle, .claim =>
    if m.state = .empty then
      some ({ m with state := .starting, own := .claimed, asked := false }, .idle)
    else none
  | .idle, .recover => if m.state = .dead then some ({ m with state := .empty }, .idle) else none
  | .idle, .wake =>
    some (if m.state = .parked then
      { m with state := .idle, claims := update m.claims m.parks (m.claims m.parks + 1) }
    else m, .send)
  | .idle, .stop =>
    some (if m.state.alive then ({ m with state := .stopping, asked := true }, .send)
    else (m, .idle))
  | .send, .send => some ({ m with own := if m.own = .asleep then .unpark else m.own }, .idle)
  | _, _ => none

def machine : Machine Mem Pc Act where
  next := next

variable {T : Type*}

def Fresh (s : Config T Mem Pc) : Prop :=
  s = ⟨⟨.empty, .gone, false, 0, 0, 0, fun _ => 0⟩, fun _ => .idle⟩

/-- What the word may read while the thread stands there. -/
def Own.states : Own → List WorkerState
  | .gone => [.empty, .dead]
  | .claimed | .started => [.starting, .stopping]
  | .look | .begin | .park => [.idle, .stopping]
  | .run | .endTask => [.running, .stopping]
  | .check | .wait | .asleep | .unpark => [.parked, .idle, .stopping]
  | .leave => [.stopping]
  | .dying => [.idle, .running, .stopping]

variable {o : Own} {st : WorkerState}

theorem Own.alive_iff (h : st ∈ o.states) : st.alive = true ↔ o ≠ .gone := by
  cases o <;> cases st <;> simp_all [Own.states, WorkerState.alive]

theorem Own.idle_mem (h : .parked ∈ o.states) : .idle ∈ o.states := by
  cases o <;> simp_all [Own.states]

theorem Own.stopping_mem (h : o ≠ .gone) : .stopping ∈ o.states := by
  cases o <;> simp_all [Own.states]

/-- A park is claimed once at most, and not while it lasts. -/
structure Counted (m : Mem) : Prop where
  claims : ∀ i, m.claims i ≤ 1
  parks : ∀ i, m.claims i ≠ 0 → 0 < i ∧ i ≤ m.parks
  parked : m.state = .parked → 0 < m.parks ∧ m.claims m.parks = 0

/-- The word agrees with the thread behind it, and one that was asked to stop reads `Stopping`. -/
structure Fits (m : Mem) : Prop where
  state : m.state ∈ m.own.states
  asked : m.asked = true → m.own ≠ .gone → m.state = .stopping
  late : m.late = 0
  counted : Counted m

variable {s : Config T Mem Pc} {m m' : Mem}

theorem Counted.keep (h : Counted m) (hc : m'.claims = m.claims) (hp : m'.parks = m.parks)
    (hs : m'.state = .parked → m.state = .parked) : Counted m' :=
  ⟨hc ▸ h.claims, hc ▸ hp ▸ h.parks, fun hst => hc ▸ hp ▸ h.parked (hs hst)⟩

/-- The thread itself claims nothing, and the word becomes `Parked` where a park is counted. -/
theorem Mem.claims_step {c : Bool} (hn : m.step c = some m') : m'.claims = m.claims ∧
    (m'.parks = m.parks ∧ (m'.state = .parked → m.state = .parked) ∨ m'.parks = m.parks + 1) := by
  obtain ⟨state, own, asked, late, helped, parks, claims⟩ := m
  cases own <;> cases hn <;> grind [Mem.swap]

theorem Counted.step {c : Bool} (h : Counted m) (hn : m.step c = some m') : Counted m' := by
  obtain ⟨hc, ⟨hp, hs⟩ | hp⟩ := Mem.claims_step hn
  · exact h.keep hc hp hs
  · have hle (i : ℕ) (hi : m.claims i ≠ 0) : i ≤ m.parks := (h.parks i hi).2
    refine ⟨hc ▸ h.claims, fun i hi => ?_, fun _ => ⟨hp ▸ Nat.succ_pos _, ?_⟩⟩
    · rw [hc] at hi
      exact ⟨(h.parks i hi).1, hp ▸ (hle i hi).trans (Nat.le_succ _)⟩
    · rw [hc, hp]
      by_contra hi
      exact Nat.not_succ_le_self _ (hle _ hi)

theorem Fits.step {c : Bool} (h : Fits m) (hn : m.step c = some m') : Fits m' := by
  have hcounted := h.counted.step hn
  obtain ⟨state, own, asked, late, helped, parks, claims⟩ := m
  obtain ⟨hs, ha, rfl, -⟩ := h
  refine ⟨?_, ?_, ?_, hcounted⟩
  -- `Own.states` is the whole argument: every exchange keeps to the row of where it leads.
  all_goals
    clear hcounted
    cases own <;> cases hn <;> simp_all [Mem.swap, Own.states] <;> grind

/-- A thread that sleeps was not called for, or somebody is about to poke it. -/
def Heard (m : Mem) (f : T → Pc) : Prop := m.own = .asleep → m.state = .parked ∨ ∃ t, f t = .send

theorem Mem.parked_of_step {c : Bool} (h : m.step c = some m') (ha : m'.own = .asleep) :
    m'.state = .parked := by
  obtain ⟨state, own, asked, late, helped, parks, claims⟩ := m
  cases own <;> cases h <;> grind [Mem.swap]

variable [DecidableEq T] {t : T} {p : Pc} {c : Act}

theorem Fits.next (h : Fits s.mem) (hn : next s.mem (s.loc t) c = some (m', p)) :
    Fits m' ∧ Heard m' (update s.loc t p) := by
  have hsend : ∀ {m : Mem}, p = .send → Heard m (update s.loc t p) :=
    fun hp _ => .inr ⟨t, (update_self ..).trans hp⟩
  generalize s.loc t = q at hn
  obtain ⟨hs, ha, hl, hc⟩ := id h
  unfold Park.next at hn
  split at hn
  case h_1 c =>
    obtain ⟨m₁, hm, heq⟩ := Option.map_eq_some_iff.mp hn
    cases heq
    exact ⟨h.step hm, fun ho => .inl (Mem.parked_of_step hm ho)⟩
  case h_2 =>
    obtain ⟨ho, hn⟩ := Option.ite_none_right_eq_some.mp hn
    cases hn
    have hne : s.mem.own ≠ .gone := by rcases ho with ho | ho <;> simp [ho]
    refine ⟨⟨?_, fun h _ => ha h hne, hl, hc.keep rfl rfl id⟩, fun ho => by cases ho⟩
    rcases ho with ho | ho <;> simp only [ho, Own.states, List.mem_cons] at hs ⊢ <;> tauto
  case h_3 =>
    obtain ⟨-, hn⟩ := Option.ite_none_right_eq_some.mp hn
    cases hn
    exact ⟨⟨by simp [Own.states], by simp, hl, hc.keep rfl rfl (by simp)⟩, fun ho => by cases ho⟩
  case h_4 =>
    obtain ⟨hd, hn⟩ := Option.ite_none_right_eq_some.mp hn
    cases hn
    have ho : s.mem.own = .gone := by
      by_contra ho
      have := (Own.alive_iff hs).mpr ho
      simp [hd, WorkerState.alive] at this
    exact ⟨⟨by simp [ho, Own.states], fun _ h => absurd ho h, hl, hc.keep rfl rfl (by simp)⟩,
      fun ha => by cases ho.symm.trans ha⟩
  case h_5 =>
    cases hn
    refine ⟨?_, hsend rfl⟩
    split
    case isTrue hpk =>
      rw [hpk] at hs ha
      obtain ⟨hpos, hzero⟩ := hc.parked hpk
      refine ⟨Own.idle_mem hs, fun h ho => (by cases ha h ho), hl, ?_, ?_, by simp⟩
      · refine (forall_update_iff _ fun _ n => n ≤ 1).mpr ⟨by rw [hzero], fun i _ => hc.claims i⟩
      · refine (forall_update_iff _ fun i n => n ≠ 0 → 0 < i ∧ i ≤ s.mem.parks).mpr ⟨?_, ?_⟩
        · exact fun _ => ⟨hpos, le_rfl⟩
        · exact fun i _ => hc.parks i
    case isFalse => exact h
  case h_6 =>
    split at hn <;> cases hn
    case isTrue hal =>
      have hne := (Own.alive_iff hs).mp hal
      exact ⟨⟨Own.stopping_mem hne, fun _ _ => rfl, hl, hc.keep rfl rfl (by simp)⟩, hsend rfl⟩
    case isFalse hal =>
      refine ⟨h, fun ho => absurd ((Own.alive_iff hs).mpr ?_) hal⟩
      simp [ho]
  case h_7 =>
    cases hn
    split
    case isTrue ho =>
      rw [ho] at hs ha
      exact ⟨⟨hs, fun h _ => ha h (by simp), hl, hc.keep rfl rfl id⟩, fun ho => by cases ho⟩
    case isFalse ho => exact ⟨h, fun ho' => absurd ho' ho⟩
  case h_8 => cases hn

theorem Reach.fits (hs : machine.Reach Fresh unguarded s) :
    Fits s.mem ∧ Heard s.mem s.loc := by
  refine Machine.Reach.invariant (I := fun s => Fits s.mem ∧ Heard s.mem s.loc) (fun s h0 => ?_)
    (fun _ _ _ _ _ h _ => h.1.next) hs
  subst h0
  exact ⟨⟨by simp [Own.states], by simp, rfl, by simp, by simp, by simp⟩, fun ha => by cases ha⟩

/-- One more step of the thread's own, or none when it is gone. -/
def Mem.go (m : Mem) (c : Bool) : Mem := (m.step c).getD m

/-- Where the thread has come after these steps of its own. -/
def Mem.steps (m : Mem) (cs : List Bool) : Mem := cs.foldl Mem.go m

/-- How many of these steps are not in a run. -/
def Mem.outside : Mem → List Bool → ℕ
  | _, [] => 0
  | m, c :: cs => (if m.own = .run then 0 else 1) + (m.go c).outside cs

/-- How many steps that are not in a run are left to a thread that was asked to stop. -/
def Own.left : Own → ℕ
  | .gone => 0
  | .leave | .dying => 1
  | .look | .begin => 2
  | .started | .run | .endTask | .park | .unpark => 3
  | .claimed | .wait | .asleep => 4
  | .check => 5

theorem Mem.left_go (c : Bool) (h : m.state = .stopping ∨ m.own = .gone) :
    ((m.go c).state = .stopping ∨ (m.go c).own = .gone) ∧
      (m.go c).own.left ≤ m.own.left - if m.own = .run then 0 else 1 := by
  obtain ⟨state, own, asked, late, helped, parks, claims⟩ := m
  obtain rfl | rfl := h
  · cases own <;> cases c <;> simp [Mem.go, Mem.step, Mem.swap, Own.left]
  · exact ⟨.inr rfl, le_rfl⟩

theorem Mem.gone_of_outside {cs : List Bool} (h : m.state = .stopping ∨ m.own = .gone)
    (hl : m.own.left ≤ m.outside cs) : (m.steps cs).own = .gone := by
  induction cs generalizing m with
  | nil =>
    have hzero : m.own.left = 0 := Nat.le_zero.mp hl
    cases ho : m.own <;> simp_all [Own.left, Mem.steps]
  | cons c cs ih =>
    obtain ⟨hnext, hleft⟩ := Mem.left_go c h
    refine ih hnext (hleft.trans ?_)
    rw [Mem.outside] at hl
    omega

/-- **A stop is never lost.** From the moment a stop lands until the thread is gone, the slot reads
`Stopping`, wherever the thread stands and whatever else is called on it. The thread begins no task
from its loop after that, it does not sleep unless the poke that goes with a stop is still to come,
and it is gone after five more steps of its own that are not in a run. -/
theorem stop_not_lost (hs : machine.Reach Fresh unguarded s) (ha : s.mem.asked = true)
    (ho : s.mem.own ≠ .gone) :
    s.mem.state = .stopping ∧ s.mem.late = 0 ∧ (s.mem.own = .asleep → ∃ t, s.loc t = .send) ∧
      ∀ cs, 5 ≤ s.mem.outside cs → (s.mem.steps cs).own = .gone := by
  obtain ⟨hf, hh⟩ := Reach.fits hs
  have hst := hf.asked ha ho
  refine ⟨hst, hf.late, fun ho => ?_, fun cs hc => ?_⟩
  · exact (hh ho).resolve_left (by simp [hst])
  · refine Mem.gone_of_outside (.inl hst) (le_trans ?_ hc)
    cases s.mem.own <;> decide

/-- A thread that starts, finds nothing to do and goes to sleep. -/
def dozing : List (Fin 2 × Act) := (0, .claim) :: (0, .own true) :: List.replicate 5 (0, .own false)

theorem fresh : Fresh (T := Fin 2)
    ⟨⟨.empty, .gone, false, 0, 0, 0, fun _ => 0⟩, fun _ => .idle⟩ := rfl

theorem stop_not_lost_asleep : ∃ s : Config (Fin 2) Mem Pc,
    machine.Reach Fresh unguarded s ∧ s.mem.own = .asleep ∧ s.mem.state = .stopping ∧
      (∃ t, s.loc t = .send) ∧ (s.mem.steps (List.replicate 5 false)).own = .gone := by
  obtain ⟨s, hs, ho, ha, hc⟩ : ∃ s : Config (Fin 2) Mem Pc, machine.Reach Fresh unguarded s ∧
      s.mem.own = .asleep ∧ s.mem.asked = true ∧ 5 ≤ s.mem.outside (List.replicate 5 false) :=
    (Machine.Reach.init fresh).exists_of_run (dozing ++ [(1, .stop)]) (by decide +kernel)
  obtain ⟨hst, -, hsend, hgone⟩ := stop_not_lost hs ha (by simp [ho])
  exact ⟨s, hs, ho, hst, hsend ho, hgone _ hc⟩

/-- **A wake is never lost, and claims a park once.** A thread sleeps only while its slot reads
`Parked` or a poke is on its way, and of the calls that say they took it out of a park there is at
most one for each park there was, and none yet for one that lasts. -/
theorem wake_not_lost (hs : machine.Reach Fresh unguarded s) :
    (s.mem.own = .asleep → s.mem.state = .parked ∨ ∃ t, s.loc t = .send) ∧
      (∀ i, s.mem.claims i ≤ 1) ∧ (∀ i, s.mem.claims i ≠ 0 → 0 < i ∧ i ≤ s.mem.parks) ∧
      (s.mem.state = .parked → s.mem.claims s.mem.parks = 0) := by
  obtain ⟨hf, hh⟩ := Reach.fits hs
  exact ⟨hh, hf.counted.claims, hf.counted.parks, fun hst => (hf.counted.parked hst).2⟩

theorem wake_not_lost_claimed : ∃ s : Config (Fin 2) Mem Pc,
    machine.Reach Fresh unguarded s ∧ s.mem.claims 1 = 1 ∧ 1 ≤ s.mem.parks := by
  obtain ⟨s, hs, hc⟩ : ∃ s : Config (Fin 2) Mem Pc, machine.Reach Fresh unguarded s ∧
      s.mem.claims 1 = 1 :=
    (Machine.Reach.init fresh).exists_of_run (dozing ++ [(1, .wake)]) (by decide +kernel)
  exact ⟨s, hs, hc, ((wake_not_lost hs).2.2.1 1 (by simp [hc])).2⟩

end Atap.Park
