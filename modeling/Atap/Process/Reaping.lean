import Atap.Interleave.Machine
import Mathlib.Data.Fintype.Basic
import Mathlib.Tactic.DeriveFintype

/-!
# Waiting for a child

A spawned child is shared by the clones of one handle. What is known of its end is kept in two
places, the `status` under its lock and the flag `ended`, and a third, the pid a guard holds, is
private to one call of `wait_exit`. Any number of threads run:

* `wait_here`, which takes the lock, looks at the status, and otherwise asks the kernel, waiting on
  a queue (`wait_exit`) or polling (`poll_exit`);
* `ChildSignalTask::send`, which **tries** the lock, looks, and then signals;
* the drop of the last handle, which kills and reaps unless `ended` says that there is no need;
* alternatively one `run` or `output` task, whose guard kills and reaps when the task fails.

One step is one system call, one operation on the lock or on an atomic, or one look at whether the
own task was cancelled, which it may be at any time. The kernel answers `waitpid` for a child that
has exited with its status, once, and with an error from then on.

* `exitStep`: the loops of `wait_exit` and `poll_exit`, and `Exit.out`: what they are about to
  return.
* `Inv`: what holds in every state of every run in which **no cancelled wait gives up the status it
  has just reaped** (`Heeds`).
* `waits_agree`: in those runs every wait returns the exit status, or was cancelled.
* `wait_loses_status`: without it, a wait that is not cancelled returns an error.
-/

namespace Atap.Reaping

open Function

/-- What has become of the child. -/
inductive Child
  | running
  | exited
  | reaped
  deriving DecidableEq

/-- What a wait returns. -/
inductive Outcome
  | ok (status : ℕ)
  | cancelled
  /-- Any other error. -/
  | error
  deriving DecidableEq

/-- What `wait_for_upto` returns. -/
inductive Waited
  | arrived
  | cancelled
  | failed
  deriving DecidableEq

/-- What a thread does, and what the kernel answers. -/
inductive Act
  | go
  /-- There is no queue, a watch is refused, a wait on the queue or the talk with a child fails. -/
  | fail
  /-- A wait on the queue is broken off because the task was cancelled. -/
  | breakOff
  /-- The task of the thread is cancelled. -/
  | cancel
  /-- The child exits. -/
  | exits
  | clone
  | drop
  | wait
  | signal (group : Bool)
  deriving DecidableEq

/-- Where a call of `wait_exit` is. `leave` and `isOver` have what is returned together with a guard
that was told of the reap, and `none` for `Cancelled` with a guard that was not. -/
inductive Exit
  | watch
  | firstReap
  | waitingOn
  | listen
  | loopReap (w : Waited)
  | loopCheck (w : Waited)
  | stopped (outcome : Option Outcome)
  | unwatch (outcome : Option Outcome) (carryOn : Bool)
  | leave (result : Option Outcome)
  | pollReap
  | pollCheck
  | isOver (result : Option Outcome)
  deriving DecidableEq

/-- `try_reap`, for a child whose exit status is `code`. -/
def tryReap (code : ℕ) : Child → Child × Option Outcome
  | .running => (.running, none)
  | .exited => (.reaped, some (.ok code))
  | .reaped => (.reaped, some .error)

/-- The match on `try_reap`: where a call goes on when the child still runs, and when not. -/
def askChild (code : ℕ) (c : Child) (runs : Exit) (gone : Outcome → Exit) : Child × Exit :=
  ((tryReap code c).1, (tryReap code c).2.elim runs gone)

/-- `wait_exit` and `poll_exit`, by a task that is `stopped` once it was cancelled. -/
def exitStep (code : ℕ) (stopped : Bool) (c : Child) : Exit → Act → Option (Child × Exit)
  | .watch, .go => some (c, .firstReap)
  | .watch, .fail => some (c, .pollReap)
  | .firstReap, .go => some (askChild code c .waitingOn fun o => .leave (some o))
  | .waitingOn, .go => some (c, if stopped then .leave none else .listen)
  | .listen, .go => some (c, .loopReap .arrived)
  | .listen, .fail => some (c, .loopReap .failed)
  | .listen, .breakOff => if stopped then some (c, .loopReap .cancelled) else none
  | .loopReap w, .go => some (askChild code c (.loopCheck w) fun o => .stopped (some o))
  | .loopCheck w, .go =>
    some (c,
      if w = .cancelled ∨ stopped = true then .stopped (some .cancelled)
      else if w = .failed then .stopped none else .listen)
  -- `stopped_waiting`: also a wait that has just reaped the child learns here of its cancel
  | .stopped o, .go => some (c, .unwatch o !stopped)
  | .unwatch none _, .go => some (c, .pollReap)
  | .unwatch (some o) carryOn, .go => some (c, .isOver (if carryOn then some o else none))
  | .leave r, .go => some (c, .isOver r)
  | .pollReap, .go => some (askChild code c .pollCheck fun o => .isOver (some o))
  | .pollCheck, .go => some (c, if stopped then .isOver none else .pollReap)
  | _, _ => none

/-- What a call is about to return, once that is settled. -/
def Exit.out : Exit → Option Outcome
  | .stopped o => o
  | .unwatch o carryOn => o.map fun o => if carryOn then o else .cancelled
  | .leave r | .isOver r => some (r.getD .cancelled)
  | _ => none

/-- The last wait on the queue was broken off. -/
def Exit.broken : Exit → Bool
  | .loopReap .cancelled | .loopCheck .cancelled => true
  | _ => false

/-- Whose call of `wait_exit` it is. -/
inductive Role
  | wait
  | guard
  deriving DecidableEq

/-- Where a thread is. -/
inductive Pc
  | idle
  | lock
  | look
  | early
  | exit (r : Role) (p : Exit)
  | record (o : Outcome)
  | recordEnded (o : Outcome)
  | unlock (o : Outcome)
  | returned (o : Outcome)
  | sendTry (group : Bool)
  | sendLook (group : Bool)
  | sendEnded (group : Bool)
  | sendGroup
  | sendKill
  | sent
  | dropLook
  | killGroup
  | killChild
  | killReap
  | exchange
  deriving DecidableEq

/-- A thread, and whether the task on it was cancelled. -/
structure Local where
  pc : Pc
  stopped : Bool
  deriving DecidableEq

/-- The child, and the handle its clones share. -/
structure Mem where
  child : Child
  /-- The exit status the child has once it exits. -/
  code : ℕ
  locked : Bool
  status : Option ℕ
  ended : Bool
  /-- How many clones of the handle there are. -/
  refs : ℕ
  /-- Those of them that no running task holds. -/
  free : ℕ
  /-- How often the child, or its group, was signalled after it was reaped; nothing reads it. -/
  late : ℕ
  deriving DecidableEq

/-- `kill`, on the pid of the child or its process group. -/
def Mem.kill (m : Mem) : Mem :=
  { m with late := if m.child = .reaped then m.late + 1 else m.late }

/-- The drop of a clone of the handle; the last one drops what they share. -/
def Mem.letGo (m : Mem) : Mem × Pc :=
  ({ m with refs := m.refs - 1 }, if m.refs = 1 then .dropLook else .idle)

/-- What an idle thread takes up. -/
def start (m : Mem) : Act → Option (Mem × Pc)
  | .clone =>
    if m.free = 0 then none else some ({ m with refs := m.refs + 1, free := m.free + 1 }, .idle)
  | .drop => if m.free = 0 then none else some ({ m with free := m.free - 1 }.letGo)
  | .wait => if m.free = 0 then none else some ({ m with refs := m.refs + 1 }, .lock)
  | .signal group =>
    if m.free = 0 then none else some ({ m with refs := m.refs + 1 }, .sendTry group)
  | _ => none

/-- What a guard, or `wait_here`, does with what `wait_exit` returned. -/
def Exit.handOver : Role → Option Outcome → Pc
  | .wait, r => .record (r.getD .cancelled)
  | .guard, none => .killGroup
  | .guard, some _ => .idle

/-- A thread goes on with what it does. -/
def step (m : Mem) (stopped : Bool) : Pc → Act → Option (Mem × Pc)
  -- `wait_here`
  | .lock, .go => if m.locked then none else some ({ m with locked := true }, .look)
  | .look, .go => some (m, match m.status with | some x => .unlock (.ok x) | none => .early)
  | .early, .go => some (m, if stopped then .unlock .cancelled else .exit .wait .watch)
  | .exit r (.isOver o), .go => some (m, Exit.handOver r o)
  | .exit r p, a =>
    (exitStep m.code stopped m.child p a).map fun q => ({ m with child := q.1 }, .exit r q.2)
  | .record (.ok x), .go => some ({ m with status := some x }, .recordEnded (.ok x))
  | .record .cancelled, .go => some (m, .unlock .cancelled)
  | .record .error, .go => some (m, .recordEnded .error)
  | .recordEnded o, .go => some ({ m with ended := true }, .unlock o)
  | .unlock o, .go => some ({ m with locked := false }, .returned o)
  | .returned _, .go => some m.letGo
  -- `ChildSignalTask::send`
  | .sendTry group, .go =>
    if m.locked then some (m, .sendEnded group)
    else some ({ m with locked := true }, .sendLook group)
  | .sendLook group, .go =>
    some ({ m with locked := false }, if m.status.isSome then .sent else .sendEnded group)
  | .sendEnded group, .go =>
    some (m, if m.ended then .sent else if group then .sendGroup else .sendKill)
  | .sendGroup, .go => some (m.kill, .sendKill)
  | .sendKill, .go => some (m.kill, .sent)
  | .sent, .go => some m.letGo
  -- `Inner::drop`, and `kill_and_reap`
  | .dropLook, .go => some (m, if m.ended then .idle else .killGroup)
  | .killGroup, .go => some (m.kill, .killChild)
  | .killChild, .go => some (m.kill, .killReap)
  | .killReap, .go =>
    if m.child = .running then none else some ({ m with child := .reaped }, .idle)
  -- the guard of a `run` or `output` task
  | .exchange, .go => some (m, .exit .guard .watch)
  | .exchange, .fail => some (m, .killGroup)
  | _, _ => none

/-- The handles of one child, or the task that runs one, a step at a time. -/
def machine : Machine Mem Local Act where
  next m l
    | .exits => if m.child = .running then some ({ m with child := .exited }, l) else none
    | .cancel => if l.pc = .idle then none else some (m, { l with stopped := true })
    | a =>
      if l.pc = .idle then (start m a).map fun r => (r.1, ⟨r.2, false⟩)
      else (step m l.stopped l.pc a).map fun r => (r.1, ⟨r.2, l.stopped⟩)

/-! ### What a step does -/

/-- The call asks the kernel next. -/
def Exit.asks : Exit → Bool
  | .firstReap | .loopReap _ | .pollReap => true
  | _ => false

/-- What a step of `wait_exit` does to the child, and to what is about to be returned. -/
inductive ExitStep (code : ℕ) (stopped : Bool) (a : Act) : Child → Exit → Child → Exit → Prop
  | search {c p p'} (h : p.out = none) (h' : p'.out = none)
      (hb : p'.broken = true → stopped = true ∨ p.broken = true) : ExitStep code stopped a c p c p'
  | reap {p p'} (ha : a = .go) (hp : p.asks = true) (h : p.out = none)
      (h' : p'.out = some (.ok code)) : ExitStep code stopped a .exited p .reaped p'
  | refused {p p'} (h : p.out = none) (h' : p'.out = some .error) :
      ExitStep code stopped a .reaped p .reaped p'
  | cancel {c p p'} (hs : stopped = true ∨ p.broken = true) (h : p.out = none)
      (h' : p'.out = some .cancelled) : ExitStep code stopped a c p c p'
  | pass {c p p' o} (h : p.out = some o) (h' : p'.out = some o) : ExitStep code stopped a c p c p'
  /-- What was settled gives way to a cancel. -/
  | lose {c o} (ha : a = .go) (hs : stopped = true) :
      ExitStep code stopped a c (.stopped (some o)) c (.unwatch (some o) false)

section ExitStep

variable {code : ℕ} {stopped : Bool} {c c' : Child} {p p' : Exit}

theorem ExitStep.of_askChild {q : Exit} {f : Outcome → Exit}
    (h : some (askChild code c q f) = some (c', p')) (ha : p.asks = true)
    (hp : p.out = none) (hq : q.out = none) (hb : q.broken = true → p.broken = true)
    (hf : ∀ o, (f o).out = some o) : ExitStep code stopped .go c p c' p' := by
  cases c <;> obtain ⟨rfl, rfl⟩ := Prod.mk.inj (Option.some.inj h)
  case running => exact .search hp hq fun h => .inr (hb h)
  case exited => exact .reap rfl ha hp (hf _)
  case reaped => exact .refused hp (hf _)

theorem exitStep_step {a : Act} (h : exitStep code stopped c p a = some (c', p')) :
    ExitStep code stopped a c p c' p' := by
  unfold exitStep at h
  split at h
  case h_3 | h_14 => exact .of_askChild h rfl rfl rfl nofun fun _ => rfl
  case h_8 w => exact .of_askChild h rfl rfl rfl (by cases w <;> exact id) fun _ => rfl
  case h_7 => exact yield_guard h fun hs => .search rfl rfl fun _ => .inl hs
  all_goals cases h
  case h_4 | h_15 =>
    cases hs : stopped
    case true => exact .cancel (.inl rfl) rfl rfl
    case false => exact .search rfl rfl nofun
  case h_9 w =>
    by_cases hw : w = .cancelled ∨ stopped = true
    case pos =>
      rw [if_pos hw]
      exact .cancel (hw.symm.imp_right fun h => by rw [h]; rfl) rfl rfl
    case neg =>
      rw [if_neg hw]
      split <;> exact .search rfl rfl nofun
  case h_10 o =>
    cases o
    case none => exact .search rfl rfl nofun
    case some o =>
      cases hs : stopped
      case true => exact .lose rfl rfl
      case false => exact .pass rfl rfl
  case h_12 o carryOn => cases carryOn <;> exact .pass rfl rfl
  case h_13 => exact .pass rfl rfl
  all_goals exact .search rfl rfl nofun

theorem Exit.broken_eq_false {o : Outcome} (h : p.out = some o) : p.broken = false := by
  cases p
  case loopReap => cases h
  case loopCheck => cases h
  all_goals rfl

end ExitStep

/-- What a step of a thread does, whose task is `stopped` or not. -/
inductive Step (stopped : Bool) (a : Act) : Mem → Pc → Mem → Pc → Prop
  | lock {m} (h : m.locked = false) : Step stopped a m .lock { m with locked := true } .look
  | known {m x} (h : m.status = some x) : Step stopped a m .look m (.unlock (.ok x))
  | unknown {m} (h : m.status = none) : Step stopped a m .look m .early
  | early {m} (h : stopped = true) : Step stopped a m .early m (.unlock .cancelled)
  | enter {m} : Step stopped a m .early m (.exit .wait .watch)
  | exit {m r p c' p'} (h : ExitStep m.code stopped a m.child p c' p') :
      Step stopped a m (.exit r p) { m with child := c' } (.exit r p')
  | waited {m o} : Step stopped a m (.exit .wait (.isOver o)) m (.record (o.getD .cancelled))
  | giveUp {m} : Step stopped a m (.exit .guard (.isOver none)) m .killGroup
  | reaped {m o} : Step stopped a m (.exit .guard (.isOver (some o))) m .idle
  | record {m x} : Step stopped a m (.record (.ok x)) { m with status := some x }
      (.recordEnded (.ok x))
  | leave {m} : Step stopped a m (.record .cancelled) m (.unlock .cancelled)
  | failed {m} : Step stopped a m (.record .error) m (.recordEnded .error)
  | ended {m o} : Step stopped a m (.recordEnded o) { m with ended := true } (.unlock o)
  | unlock {m o} : Step stopped a m (.unlock o) { m with locked := false } (.returned o)
  | returned {m o} : Step stopped a m (.returned o) m.letGo.1 m.letGo.2
  | sendBusy {m g} (h : m.locked = true) : Step stopped a m (.sendTry g) m (.sendEnded g)
  | sendTry {m g} (h : m.locked = false) :
      Step stopped a m (.sendTry g) { m with locked := true } (.sendLook g)
  | sendOver {m g} : Step stopped a m (.sendLook g) { m with locked := false } .sent
  | sendLook {m g} : Step stopped a m (.sendLook g) { m with locked := false } (.sendEnded g)
  | sendEnded {m g} : Step stopped a m (.sendEnded g) m .sent
  | sendOn {m g pc} (ha : a = .go) (h : m.ended = false) (hpc : pc = .sendGroup ∨ pc = .sendKill) :
      Step stopped a m (.sendEnded g) m pc
  | sendGroup {m} : Step stopped a m .sendGroup m.kill .sendKill
  | sendKill {m} : Step stopped a m .sendKill m.kill .sent
  | sent {m} : Step stopped a m .sent m.letGo.1 m.letGo.2
  | dropOver {m} : Step stopped a m .dropLook m .idle
  | dropKill {m} (h : m.ended = false) : Step stopped a m .dropLook m .killGroup
  | killGroup {m} : Step stopped a m .killGroup m.kill .killChild
  | killChild {m} : Step stopped a m .killChild m.kill .killReap
  | killReap {m} : Step stopped a m .killReap { m with child := .reaped } .idle
  | talked {m} : Step stopped a m .exchange m (.exit .guard .watch)
  | talkFailed {m} : Step stopped a m .exchange m .killGroup

theorem step_step {m m' : Mem} {stopped : Bool} {pc pc' : Pc} {a : Act}
    (h : step m stopped pc a = some (m', pc')) : Step stopped a m pc m' pc' := by
  unfold step at h
  split at h
  case h_1 => exact yield_unless h fun hl => .lock (eq_false_of_ne_true hl)
  case h_5 r p _ =>
    obtain ⟨q, hq, h⟩ := Option.map_eq_some_iff.mp h
    obtain ⟨rfl, rfl⟩ := Prod.mk.inj h
    exact .exit (exitStep_step hq)
  case h_12 g => exact yield_ite h .sendBusy fun hl => .sendTry (eq_false_of_ne_true hl)
  case h_21 => exact yield_unless h fun _ => .killReap
  case h_24 => cases h
  case h_2 =>
    cases h
    split
    case h_1 x hx => exact .known hx
    case h_2 hx => exact .unknown hx
  case h_3 => exact yield_snd h .early fun _ => .enter
  case h_4 r o =>
    cases h
    cases r
    case wait => exact .waited
    case guard =>
      cases o
      case none => exact .giveUp
      case some => exact .reaped
  case h_13 => exact yield_snd h (fun _ => .sendOver) fun _ => .sendLook
  case h_14 g =>
    cases h
    split
    case isTrue => exact .sendEnded
    case isFalse he =>
      refine .sendOn rfl (eq_false_of_ne_true he) ?_
      cases g
      case true => exact .inl rfl
      case false => exact .inr rfl
  case h_18 => exact yield_snd h (fun _ => .dropOver) fun he => .dropKill (eq_false_of_ne_true he)
  case h_6 | h_7 | h_8 | h_9 | h_10 | h_11 | h_15 | h_16 | h_17 | h_19 | h_20 | h_22 | h_23 =>
    cases h
    constructor

/-- What a step of an idle thread does. -/
inductive Start : Mem → Mem → Pc → Prop
  | clone {m} (h : 0 < m.free) : Start m { m with refs := m.refs + 1, free := m.free + 1 } .idle
  | drop {m} (h : 0 < m.free) :
      Start m { m with free := m.free - 1 }.letGo.1 { m with free := m.free - 1 }.letGo.2
  | wait {m} (h : 0 < m.free) : Start m { m with refs := m.refs + 1 } .lock
  | signal {m g} (h : 0 < m.free) : Start m { m with refs := m.refs + 1 } (.sendTry g)

theorem start_start {m m' : Mem} {pc' : Pc} {a : Act} (h : start m a = some (m', pc')) :
    Start m m' pc' := by
  unfold start at h
  split at h
  case h_5 => cases h
  all_goals
    obtain ⟨hf, h⟩ := Option.ite_none_left_eq_some.mp h
    cases h
  case h_1 => exact .clone (Nat.pos_of_ne_zero hf)
  case h_2 => exact .drop (Nat.pos_of_ne_zero hf)
  case h_3 => exact .wait (Nat.pos_of_ne_zero hf)
  case h_4 => exact .signal (Nat.pos_of_ne_zero hf)

/-- What a step of the system does. -/
theorem next_cases {m m' : Mem} {l l' : Local} {a : Act}
    (h : machine.next m l a = some (m', l')) :
    (m.child = .running ∧ m' = { m with child := .exited } ∧ l' = l) ∨
    (l.pc ≠ .idle ∧ m' = m ∧ l' = { l with stopped := true }) ∨
    (l.pc = .idle ∧ ∃ pc', Start m m' pc' ∧ l' = ⟨pc', false⟩) ∨
    (∃ pc', Step l.stopped a m l.pc m' pc' ∧ l' = ⟨pc', l.stopped⟩) := by
  unfold machine at h
  dsimp only at h
  split at h
  case h_1 =>
    obtain ⟨hc, h⟩ := Option.ite_none_right_eq_some.mp h
    cases h
    exact .inl ⟨hc, rfl, rfl⟩
  case h_2 =>
    obtain ⟨hi, h⟩ := Option.ite_none_left_eq_some.mp h
    cases h
    exact .inr (.inl ⟨hi, rfl, rfl⟩)
  case h_3 =>
    split at h
    case isTrue hi =>
      obtain ⟨r, hr, h⟩ := Option.map_eq_some_iff.mp h
      obtain ⟨rfl, rfl⟩ := Prod.mk.inj h
      exact .inr (.inr (.inl ⟨hi, r.2, start_start hr, rfl⟩))
    case isFalse =>
      obtain ⟨r, hr, h⟩ := Option.map_eq_some_iff.mp h
      obtain ⟨rfl, rfl⟩ := Prod.mk.inj h
      exact .inr (.inr (.inr ⟨r.2, step_step hr, rfl⟩))

/-! ### Phases -/

/-- The thread has the lock. -/
def Pc.holds : Pc → Bool
  | .look | .early | .exit .wait _ | .record _ | .recordEnded _ | .unlock _ | .sendLook _ => true
  | _ => false

/-- The thread has a child to itself: the last handle is gone, or there never was one. -/
def Pc.alone : Pc → Bool
  | .dropLook | .killGroup | .killChild | .killReap | .exchange | .exit .guard _ => true
  | _ => false

/-- The task on the thread has a clone of the handle. -/
def Pc.task (pc : Pc) : Bool := pc ≠ .idle && !pc.alone

def Outcome.isOk : Outcome → Bool
  | .ok _ => true
  | _ => false

/-- The thread has the exit status, and has not stored it yet. -/
def Pc.hasStatus : Pc → Bool
  | .exit .wait p => p.out.any Outcome.isOk
  | .record o => o.isOk
  | _ => false

/-- The thread has reaped the child, and has not set `ended` yet. -/
def Pc.unended : Pc → Bool
  | .recordEnded o => o.isOk
  | pc => pc.hasStatus

/-- The outcome of a wait, by a task that is `stopped` or not. -/
def Outcome.Fits (code : ℕ) (stopped : Bool) : Outcome → Prop
  | .ok x => x = code
  | .cancelled => stopped = true
  | .error => False

/-- A thread is where it can be: it goes on to ask for, or to kill, only a child that has not been
reaped, and what it returns is right. -/
def Fits (m : Mem) : Local → Prop
  | ⟨.early, _⟩ | ⟨.exchange, _⟩ | ⟨.killGroup, _⟩ | ⟨.killChild, _⟩ => m.child ≠ .reaped
  | ⟨.exit _ p, stopped⟩ =>
    (p.broken = true → stopped = true) ∧ (∀ o, p.out = some o → o.Fits m.code stopped) ∧
      (p.out = none ∨ p.out = some .cancelled → m.child ≠ .reaped)
  | ⟨.record o, stopped⟩ | ⟨.recordEnded o, stopped⟩ | ⟨.unlock o, stopped⟩
  | ⟨.returned o, stopped⟩ => o.Fits m.code stopped
  | ⟨.dropLook, _⟩ => m.ended = false → m.child ≠ .reaped
  | _ => True

section Fits

variable {m m' : Mem} {l : Local}

theorem Fits.mono (h : Fits m l) (hcode : m'.code = m.code)
    (hchild : m'.child = .reaped → m.child = .reaped) (hended : m.ended = true → m'.ended = true) :
    Fits m' l := by
  obtain ⟨pc, stopped⟩ := l
  have hne : m.child ≠ .reaped → m'.child ≠ .reaped := mt hchild
  cases pc
  case exit r p => exact ⟨h.1, hcode ▸ h.2.1, fun hp => hne (h.2.2 hp)⟩
  case dropLook => exact fun he => hne (h (by cases hm : m.ended <;> simp_all))
  case record o | recordEnded o | unlock o | returned o =>
    exact (hcode ▸ h : Outcome.Fits m'.code stopped o)
  case early => exact hne h
  case exchange => exact hne h
  case killGroup => exact hne h
  case killChild => exact hne h
  all_goals trivial

/-- A thread that has neither the lock nor the child to itself does not mind a reap. -/
theorem Fits.of_free (h : Fits m l) (hcode : m'.code = m.code) (hholds : l.pc.holds = false)
    (halone : l.pc.alone = false) : Fits m' l := by
  obtain ⟨pc, stopped⟩ := l
  cases pc
  case exit r p => cases r <;> contradiction
  case returned o => exact (hcode ▸ h : Outcome.Fits m'.code stopped o)
  case lock => trivial
  case idle => trivial
  case sendTry => trivial
  case sendEnded => trivial
  case sendGroup => trivial
  case sendKill => trivial
  case sent => trivial
  all_goals contradiction

theorem Outcome.Fits.stop {code : ℕ} {stopped : Bool} {o : Outcome} (h : o.Fits code stopped) :
    o.Fits code true := by
  cases o
  case ok => exact h
  case cancelled => rfl
  case error => exact h

theorem Fits.stop (h : Fits m l) : Fits m { l with stopped := true } := by
  obtain ⟨pc, stopped⟩ := l
  cases pc
  case exit => exact ⟨fun _ => rfl, fun o ho => (h.2.1 o ho).stop, h.2.2⟩
  case record | recordEnded | unlock | returned => exact Outcome.Fits.stop h
  all_goals exact h

end Fits

/-! ### The invariant -/

variable {T : Type} [Fintype T]

/-- Who has the lock, a handle, or the child. -/
structure Held (m : Mem) (loc : T → Local) : Prop where
  locked : m.locked.toNat = count (fun l : Local => l.pc.holds) loc
  refs : m.refs = m.free + count (fun l : Local => l.pc.task) loc
  alone : ∀ t, (loc t).pc.alone = true → m.refs = 0 ∧ ∀ u, u ≠ t → (loc u).pc = .idle

/-- What holds in every state of a run. -/
structure Inv (m : Mem) (loc : T → Local) : Prop extends Held m loc where
  status : ∀ x, m.status = some x → x = m.code
  stored : m.child = .reaped →
    m.status.isSome = true ∨ (∃ t, (loc t).pc.hasStatus = true) ∨ m.refs = 0
  ended : m.child = .reaped → m.ended = true ∨ (∃ t, (loc t).pc.unended = true) ∨ m.refs = 0
  fits : ∀ t, Fits m (loc t)

theorem Pc.unended_of_hasStatus {pc : Pc} (h : pc.hasStatus = true) : pc.unended = true := by
  cases pc
  case recordEnded => cases h
  all_goals exact h

theorem Pc.eq_idle {pc : Pc} (ht : pc.task = false) (ha : pc.alone = false) : pc = .idle := by
  unfold Pc.task at ht
  simpa [ha] using ht

section Inv

variable [DecidableEq T] {m m' : Mem} {loc : T → Local} {t u : T} {pc pc' : Pc}

omit [DecidableEq T] in
theorem Held.refs_pos (hs : Held m loc) (h : (loc t).pc.task = true) : m.refs ≠ 0 := by
  have := count_pos (p := fun l : Local => l.pc.task) h
  have := hs.refs
  omega

omit [DecidableEq T] in
theorem Held.locked_of_holds (hs : Held m loc) (hp : (loc t).pc = pc) (h : pc.holds = true) :
    m.locked = true := by
  subst hp
  have hpos := count_pos (p := fun l : Local => l.pc.holds) h
  rw [← hs.locked] at hpos
  by_contra hne
  rw [eq_false_of_ne_true hne] at hpos
  exact Nat.lt_irrefl 0 hpos

omit [DecidableEq T] in
/-- A thread with the lock, or with the child to itself, is the only one of either sort. -/
theorem Held.others (hs : Held m loc) (h : (loc t).pc.holds = true ∨ (loc t).pc.alone = true)
    (hu : u ≠ t) : (loc u).pc.holds = false ∧ (loc u).pc.alone = false := by
  rcases h with h | h
  case inr => exact (hs.alone t h).2 u hu ▸ ⟨rfl, rfl⟩
  case inl =>
    constructor
    · by_contra hh
      refine hu (eq_of_count_le_one (p := fun l : Local => l.pc.holds) ?_
        (eq_true_of_ne_false hh) h)
      rw [← hs.locked]
      exact Bool.toNat_le _
    · by_contra ha
      rw [(hs.alone u (eq_true_of_ne_false ha)).2 t hu.symm] at h
      cases h

omit [Fintype T] in
/-- A phase some thread was in is kept by a step that keeps it. -/
theorem exists_kept {q : Pc → Bool} {s : Bool} (h : ∃ t, q (loc t).pc = true)
    (hq : q (loc t).pc = true → q pc' = true) :
    ∃ u, q (update loc t ⟨pc', s⟩ u).pc = true := by
  refine exists_update (P := fun l : Local => q l.pc = true) ?_
  by_cases hpc : q pc' = true
  · exact .inl hpc
  · exact .inr ⟨h, fun ht => hpc (hq ht)⟩

omit [Fintype T] in
theorem alone_update {n : ℕ} {s : Bool} (h : ∀ u, u ≠ t → (loc u).pc.alone = true → False)
    (ht : pc'.alone = true → n = 0 ∧ ∀ u, u ≠ t → (loc u).pc = .idle) :
    ∀ u, (update loc t ⟨pc', s⟩ u).pc.alone = true →
      n = 0 ∧ ∀ v, v ≠ u → (update loc t ⟨pc', s⟩ v).pc = .idle := by
  refine (Function.forall_update_iff loc fun u l => l.pc.alone = true → n = 0 ∧ ∀ v, v ≠ u →
    (update loc t ⟨pc', s⟩ v).pc = .idle).mpr ⟨fun ha => ?_, fun u hut hu => (h u hut hu).elim⟩
  refine ⟨(ht ha).1, fun v hv => ?_⟩
  rw [update_of_ne hv]
  exact (ht ha).2 v hv

theorem Held.move {s : Bool} (hs : Held m loc) (hp : (loc t).pc = pc)
    (hl : m'.locked.toNat + pc.holds.toNat = m.locked.toNat + pc'.holds.toNat)
    (hidle : pc ≠ .idle) (htask : pc'.task = pc.task)
    (halone : pc'.alone = true → pc.alone = true) (hrefs : m'.refs = m.refs)
    (hfree : m'.free = m.free) : Held m' (update loc t ⟨pc', s⟩) := by
  subst hp
  refine ⟨eq_count_update hs.locked hl, ?_, ?_⟩
  · rw [hrefs, hfree, count_update_of_eq (p := fun l : Local => l.pc.task) htask]
    exact hs.refs
  · rw [hrefs]
    exact alone_update (fun u hut hu => absurd ((hs.alone u hu).2 t hut.symm) hidle)
      fun h => hs.alone t (halone h)

/-- A thread goes on, and touches no more than the lock. -/
theorem Inv.move {s : Bool} (hs : Inv m loc) (hp : (loc t).pc = pc) (b : Bool) (n : ℕ)
    (hl : b.toNat + pc.holds.toNat = m.locked.toNat + pc'.holds.toNat)
    (hidle : pc ≠ .idle) (htask : pc'.task = pc.task)
    (halone : pc'.alone = true → pc.alone = true)
    (hstatus : pc.hasStatus = true → pc'.hasStatus = true)
    (hended : pc.unended = true → pc'.unended = true)
    (hfits : Fits m ⟨pc', s⟩) :
    Inv { m with locked := b, late := n } (update loc t ⟨pc', s⟩) where
  toHeld := hs.toHeld.move hp hl hidle htask halone rfl rfl
  status := hs.status
  stored h := (hs.stored h).imp_right (Or.imp_left (exists_kept · (hp ▸ hstatus)))
  ended h := (hs.ended h).imp_right (Or.imp_left (exists_kept · (hp ▸ hended)))
  fits := forall_update (hfits.mono rfl id id) fun u _ => (hs.fits u).mono rfl id id

/-- A thread reaps the child. -/
theorem Inv.reap (hs : Inv m loc) (hp : (loc t).pc = pc)
    (hat : pc.holds = true ∨ pc.alone = true) (hholds : pc'.holds = pc.holds)
    (hidle : pc ≠ .idle) (htask : pc'.task = pc.task)
    (halone : pc'.alone = true → pc.alone = true)
    (hstatus : pc'.hasStatus = true ∨ pc.alone = true)
    (hfits : Fits { m with child := .reaped } ⟨pc', (loc t).stopped⟩) :
    Inv { m with child := .reaped } (update loc t ⟨pc', (loc t).stopped⟩) := by
  subst hp
  refine ⟨hs.toHeld.move rfl (by rw [hholds]) hidle htask halone rfl rfl, hs.status, fun _ => ?_,
    fun _ => ?_, forall_update hfits fun u hut => ?_⟩
  · exact .inr (hstatus.imp (fun h => ⟨t, by rw [update_self]; exact h⟩)
      fun h => (hs.alone t h).1)
  · exact .inr (hstatus.imp
      (fun h => ⟨t, by rw [update_self]; exact Pc.unended_of_hasStatus h⟩)
      fun h => (hs.alone t h).1)
  · exact (hs.fits u).of_free rfl (hs.others hat hut).1 (hs.others hat hut).2

/-- A clone of the handle is dropped; `free` is what is left of those no task has. -/
theorem Inv.letGo (hs : Inv m loc) (free : ℕ) (stopped : Bool)
    (hholds : (loc t).pc.holds = false) (hended : (loc t).pc.unended = false)
    (hrefs : m.refs = free + count (fun l : Local => l.pc.task)
      (update loc t ⟨.idle, stopped⟩) + 1) :
    Inv { m with free := free, refs := m.refs - 1 } (update loc t
      ⟨if m.refs = 1 then .dropLook else .idle, stopped⟩) := by
  have hnone : ∀ u, (loc u).pc.alone ≠ true := fun u hu => by have := (hs.alone u hu).1; omega
  have hstatus : (loc t).pc.hasStatus ≠ true := fun h =>
    Bool.false_ne_true (hended.symm.trans (Pc.unended_of_hasStatus h))
  -- with the last handle gone, no thread has a task left
  have hidle : m.refs = 1 → ∀ u, u ≠ t → (loc u).pc = .idle := by
    intro h1 u hut
    refine Pc.eq_idle ?_ (eq_false_of_ne_true (hnone u))
    have h0 := count_eq_zero.mp (show count (fun l : Local => l.pc.task)
      (update loc t ⟨.idle, stopped⟩) = 0 by omega) u
    rwa [update_of_ne hut] at h0
  have hzero : m.refs ≠ 0 := by omega
  refine ⟨⟨?_, ?_, ?_⟩, hs.status, fun h => ?_, fun h => ?_, ?_⟩
  · refine hs.locked.trans (count_update_of_eq (p := fun l : Local => l.pc.holds) ?_).symm
    rw [hholds]
    split <;> rfl
  · have htask : count (fun l : Local => l.pc.task) (update loc t
        ⟨if m.refs = 1 then .dropLook else .idle, stopped⟩) =
        count (fun l : Local => l.pc.task) (update loc t ⟨.idle, stopped⟩) := by
      have h1 := count_update (fun l : Local => l.pc.task) loc t ⟨.idle, stopped⟩
      have h2 := count_update (fun l : Local => l.pc.task) loc t
        ⟨if m.refs = 1 then .dropLook else .idle, stopped⟩
      have h3 : (if m.refs = 1 then Pc.dropLook else .idle).task = false := by split <;> rfl
      have h4 : Pc.idle.task = false := rfl
      simp only [h3, h4] at h1 h2
      omega
    rw [htask]
    change m.refs - 1 = free + _
    omega
  · refine alone_update (fun u _ hu => hnone u hu) fun h => ?_
    split at h
    case isTrue h1 => exact ⟨by simp only [h1], hidle h1⟩
    case isFalse => cases h
  · exact ((hs.stored h).imp_right fun h => .inl
      (exists_kept (h.resolve_right hzero) fun h => absurd h hstatus))
  · exact ((hs.ended h).imp_right fun h => .inl
      (exists_kept (h.resolve_right hzero) fun h => absurd h (by rw [hended]; decide)))
  · refine forall_update ?_ fun u _ => (hs.fits u).mono rfl id id
    split
    case isFalse => trivial
    case isTrue h1 =>
      intro he hr
      rcases hs.ended hr with h | ⟨u, hu⟩ | h
      · exact Bool.false_ne_true (he.symm.trans h)
      · have hut : u ≠ t := fun h => Bool.false_ne_true (hended.symm.trans (h ▸ hu))
        rw [hidle h1 u hut] at hu
        cases hu
      · exact hzero h

/-- The status is stored. -/
theorem Inv.record {x : ℕ} (hs : Inv m loc) (ht : (loc t).pc = .record (.ok x)) :
    Inv { m with status := some x }
      (update loc t ⟨.recordEnded (.ok x), (loc t).stopped⟩) := by
  have hx : Fits m ⟨.record (.ok x), (loc t).stopped⟩ := ht ▸ hs.fits t
  exact {
    toHeld := hs.toHeld.move ht rfl nofun rfl nofun rfl rfl
    status := fun y hy => Option.some.inj hy ▸ hx
    stored := fun _ => .inl rfl
    ended := fun h => (hs.ended h).imp_right (Or.imp_left (exists_kept · fun _ => rfl))
    fits := forall_update hx fun u _ => (hs.fits u).mono rfl id id }

/-- `ended` is set. -/
theorem Inv.setEnded {o : Outcome} (hs : Inv m loc) (ht : (loc t).pc = .recordEnded o) :
    Inv { m with ended := true } (update loc t ⟨.unlock o, (loc t).stopped⟩) := by
  have hx : Fits m ⟨.recordEnded o, (loc t).stopped⟩ := ht ▸ hs.fits t
  exact {
    toHeld := hs.toHeld.move ht rfl nofun rfl nofun rfl rfl
    status := hs.status
    stored := fun h => (hs.stored h).imp_right
      (Or.imp_left (exists_kept · fun h => by rw [ht] at h; cases h))
    ended := fun _ => .inl rfl
    fits := forall_update hx fun u _ => (hs.fits u).mono rfl id fun _ => rfl }

/-- A call of `wait_exit` goes on, and the child is as it was. -/
theorem Inv.search {r : Role} {p p' : Exit} (hs : Inv m loc) (ht : (loc t).pc = .exit r p)
    (hout : ∀ o : Outcome, p.out = some o → o.isOk = true → p'.out = some o)
    (hfits : Fits m ⟨.exit r p', (loc t).stopped⟩) :
    Inv m (update loc t ⟨.exit r p', (loc t).stopped⟩) := by
  have hstatus : (Pc.exit r p).hasStatus = true → (Pc.exit r p').hasStatus = true := by
    cases r
    case guard => exact id
    case wait =>
      intro h
      obtain ⟨o, ho, hok⟩ := (Option.any_eq_true _ _).mp h
      exact (Option.any_eq_true _ _).mpr ⟨o, hout o ho hok, hok⟩
  refine hs.move ht m.locked m.late ?_ nofun ?_ ?_ hstatus hstatus hfits
  · cases r <;> rfl
  · cases r <;> rfl
  · cases r <;> exact id

theorem Inv.exit {a : Act} {r : Role} {p p' : Exit} {c' : Child} (hs : Inv m loc)
    (ht : (loc t).pc = .exit r p)
    (hok : ∀ x, p = .stopped (some (.ok x)) → a = .go → (loc t).stopped = false)
    (h : ExitStep m.code (loc t).stopped a m.child p c' p') :
    Inv { m with child := c' } (update loc t ⟨.exit r p', (loc t).stopped⟩) := by
  have hf : Fits m ⟨.exit r p, (loc t).stopped⟩ := ht ▸ hs.fits t
  obtain ⟨hbroken, houtcome, hreaped⟩ := hf
  generalize hc : m.child = c at h
  cases h
  case search h h' hb =>
    subst hc
    refine hs.search ht (fun o ho => ?_) ⟨fun hp' => (hb hp').elim id hbroken, fun o ho => ?_, ?_⟩
    · cases h.symm.trans ho
    · cases h'.symm.trans ho
    · exact fun _ => hreaped (.inl h)
  case reap _ _ h h' =>
    refine hs.reap ht ?_ ?_ nofun ?_ ?_ ?_ ⟨?_, fun o ho => ?_, ?_⟩
    · cases r
      · exact .inl rfl
      · exact .inr rfl
    · cases r <;> rfl
    · cases r <;> rfl
    · cases r <;> exact id
    · cases r
      · exact .inl ((Option.any_eq_true _ _).mpr ⟨_, h', rfl⟩)
      · exact .inr rfl
    · rw [Exit.broken_eq_false h']
      nofun
    · rw [← Option.some.inj (h'.symm.trans ho)]
      rfl
    · rw [h']
      rintro (h | h) <;> cases h
  case refused h _ => exact absurd hc (hreaped (.inl h))
  case cancel hsb h h' =>
    subst hc
    have hstop : (loc t).stopped = true := hsb.elim id hbroken
    refine hs.search ht (fun o ho => ?_) ⟨fun _ => hstop, fun o ho => ?_, ?_⟩
    · cases h.symm.trans ho
    · rw [← Option.some.inj (h'.symm.trans ho)]
      exact hstop
    · exact fun _ => hreaped (.inl h)
  case pass o h h' =>
    subst hc
    refine hs.search ht (fun o' ho _ => ?_) ⟨?_, fun o' ho => houtcome o' ?_, fun hn => ?_⟩
    · rw [h', ← h, ho]
    · rw [Exit.broken_eq_false h']
      nofun
    · rw [h, ← h', ho]
    · exact hreaped (by rwa [h, ← h'])
  case lose o ha hstop =>
    subst hc
    have hcancelled : o = .cancelled := by
      cases o
      case ok x => exact absurd hstop (by rw [hok x rfl ha]; decide)
      case cancelled => rfl
      case error => exact (houtcome _ rfl).elim
    subst hcancelled
    refine hs.search ht (fun o' ho hok => ?_) ⟨nofun, fun o' ho => ?_, fun _ => ?_⟩
    · exact ho
    · exact houtcome o' ho
    · exact hreaped (.inr rfl)

omit [DecidableEq T] in
/-- Where no status is stored, a thread with the lock finds that the child was not reaped. -/
theorem Inv.not_reaped (hs : Inv m loc) (hp : (loc t).pc = .look) (h : m.status = none) :
    m.child ≠ .reaped := by
  intro hr
  have hlock : (loc t).pc.holds = true := by rw [hp]; rfl
  rcases hs.stored hr with hst | ⟨u, hu⟩ | h0
  · rw [h] at hst
    cases hst
  · have hut : u ≠ t := by
      rintro rfl
      rw [hp] at hu
      cases hu
    have hhold := (hs.others (.inl hlock) hut).1
    unfold Pc.hasStatus at hu
    split at hu
    case h_1 heq | h_2 heq => rw [heq] at hhold; cases hhold
    case h_3 => cases hu
  · exact hs.refs_pos (t := t) (by rw [hp]; rfl) h0

/-- A task that is done drops its handle. -/
theorem Inv.letGo_task (hs : Inv m loc) (hp : (loc t).pc = pc) (htask : pc.task = true)
    (hholds : pc.holds = false) (hended : pc.unended = false) :
    Inv m.letGo.1 (update loc t ⟨m.letGo.2, (loc t).stopped⟩) := by
  subst hp
  refine hs.letGo m.free (loc t).stopped hholds hended ?_
  have h := count_update (fun l : Local => l.pc.task) loc t ⟨.idle, (loc t).stopped⟩
  have hi : Pc.idle.task = false := rfl
  have := hs.refs
  simp only [htask, hi, Bool.toNat_true, Bool.toNat_false] at h
  omega

/-- **The step lemma**: in a step that does not give up a status just reaped. -/
theorem Inv.step {a : Act} (hs : Inv m loc)
    (hok : ∀ r x, (loc t).pc = .exit r (.stopped (some (.ok x))) → a = .go →
      (loc t).stopped = false)
    (h : Step (loc t).stopped a m (loc t).pc m' pc') :
    Inv m' (update loc t ⟨pc', (loc t).stopped⟩) := by
  have hf : Fits m ⟨(loc t).pc, (loc t).stopped⟩ := hs.fits t
  generalize hp : (loc t).pc = pc at h hf hok
  cases h
  case lock h | sendTry h =>
    exact hs.move hp true m.late (by rw [h]; rfl) nofun rfl nofun nofun nofun trivial
  case known x h =>
    exact hs.move hp m.locked m.late rfl nofun rfl nofun nofun nofun (hs.status x h)
  case unknown h =>
    exact hs.move hp m.locked m.late rfl nofun rfl nofun nofun nofun (hs.not_reaped hp h)
  case early h => exact hs.move hp m.locked m.late rfl nofun rfl nofun nofun nofun h
  case enter =>
    exact hs.move hp m.locked m.late rfl nofun rfl nofun nofun nofun ⟨nofun, nofun, fun _ => hf⟩
  case exit r p c' p' h =>
    exact hs.exit hp (fun x hx => hok r x (congrArg _ hx)) h
  case waited o =>
    have hout : ((Exit.isOver o).out.any Outcome.isOk) = (o.getD .cancelled).isOk := rfl
    exact hs.move hp m.locked m.late rfl nofun rfl nofun (fun h => hout.symm.trans h)
      (fun h => hout.symm.trans h) (hf.2.1 _ rfl)
  case giveUp =>
    exact hs.move hp m.locked m.late rfl nofun rfl (fun _ => rfl) nofun nofun (hf.2.2 (.inr rfl))
  case reaped | sendBusy | sendEnded | dropOver =>
    exact hs.move hp m.locked m.late rfl nofun rfl nofun nofun nofun trivial
  case record => exact hs.record hp
  case leave => exact hs.move hp m.locked m.late rfl nofun rfl nofun nofun nofun hf
  case failed => exact hf.elim
  case ended => exact hs.setEnded hp
  case unlock =>
    exact hs.move hp false m.late (by rw [hs.locked_of_holds hp rfl]; rfl) nofun rfl nofun nofun
      nofun hf
  case returned | sent => exact hs.letGo_task hp rfl rfl rfl
  case sendOver | sendLook =>
    exact hs.move hp false m.late (by rw [hs.locked_of_holds hp rfl]; rfl) nofun rfl nofun nofun
      nofun trivial
  case sendOn h hpc =>
    rcases hpc with rfl | rfl <;>
      exact hs.move hp m.locked m.late rfl nofun rfl nofun nofun nofun trivial
  case sendGroup | sendKill => exact hs.move hp m.locked _ rfl nofun rfl nofun nofun nofun trivial
  case dropKill h =>
    exact hs.move hp m.locked m.late rfl nofun rfl (fun _ => rfl) nofun nofun (hf h)
  case killGroup => exact hs.move hp m.locked _ rfl nofun rfl (fun _ => rfl) nofun nofun hf
  case killChild => exact hs.move hp m.locked _ rfl nofun rfl (fun _ => rfl) nofun nofun trivial
  case killReap =>
    exact hs.reap hp (.inr rfl) rfl nofun rfl nofun (.inr rfl) trivial
  case talked =>
    exact hs.move hp m.locked m.late rfl nofun rfl (fun _ => rfl) nofun nofun
      ⟨nofun, nofun, fun _ => hf⟩
  case talkFailed =>
    exact hs.move hp m.locked m.late rfl nofun rfl (fun _ => rfl) nofun nofun hf

/-- The handle is cloned, for a task or not. -/
theorem Inv.grow (hs : Inv m loc) (hp : (loc t).pc = .idle) (free : ℕ) (hpos : 0 < m.free)
    (hfree : free + pc'.task.toNat = m.free + 1) (hholds : pc'.holds = false)
    (halone : pc'.alone = false) (hfits : Fits m ⟨pc', false⟩) :
    Inv { m with refs := m.refs + 1, free := free } (update loc t ⟨pc', false⟩) := by
  have hrefs := hs.refs
  have hnone : ∀ u, (loc u).pc.alone ≠ true := fun u hu => by have := (hs.alone u hu).1; omega
  have hended : (loc t).pc.unended ≠ true := by rw [hp]; nofun
  have hstatus : (loc t).pc.hasStatus ≠ true := by rw [hp]; nofun
  have hzero : m.refs ≠ 0 := by omega
  refine ⟨⟨?_, ?_, ?_⟩, hs.status, fun h => ?_, fun h => ?_, ?_⟩
  · refine hs.locked.trans (count_update_of_eq (p := fun l : Local => l.pc.holds) ?_).symm
    rw [hholds, hp]
    rfl
  · have hc := count_update (fun l : Local => l.pc.task) loc t ⟨pc', false⟩
    have hi : (loc t).pc.task = false := by rw [hp]; rfl
    simp only [hi, Bool.toNat_false] at hc
    change m.refs + 1 = free + _
    omega
  · exact alone_update (fun u _ hu => hnone u hu) fun h => by rw [halone] at h; cases h
  · exact (hs.stored h).imp_right fun h => .inl
      (exists_kept (h.resolve_right hzero) fun h => absurd h hstatus)
  · exact (hs.ended h).imp_right fun h => .inl
      (exists_kept (h.resolve_right hzero) fun h => absurd h hended)
  · exact forall_update (hfits.mono rfl id id) fun u _ => (hs.fits u).mono rfl id id

/-- An idle thread takes something up. -/
theorem Inv.start (hs : Inv m loc) (hp : (loc t).pc = .idle) (h : Start m m' pc') :
    Inv m' (update loc t ⟨pc', false⟩) := by
  cases h
  case clone h => exact hs.grow hp (m.free + 1) h rfl rfl rfl trivial
  case wait h | signal h => exact hs.grow hp m.free h rfl rfl rfl trivial
  case drop h =>
    refine hs.letGo (m.free - 1) false (by rw [hp]; rfl) (by rw [hp]; rfl) ?_
    have hc : count (fun l : Local => l.pc.task) (update loc t ⟨.idle, false⟩) =
        count (fun l : Local => l.pc.task) loc :=
      count_update_of_eq (p := fun l : Local => l.pc.task) (by rw [hp])
    have := hs.refs
    omega

end Inv

/-! ### Runs -/

/-- The thread is about to learn whether it was cancelled, with the status it has just reaped. -/
def Pc.settling : Pc → Bool
  | .exit _ (.stopped (some (.ok _))) => true
  | _ => false

/-- **No cancelled wait gives up the status it has just reaped**: a task whose `waitpid` returned
the status in the loop is not cancelled when it reaches `stopped_waiting`. -/
def Heeds (s : Config T Mem Local) (t : T) (a : Act) : Prop :=
  (s.loc t).pc.settling = true → a = .go → (s.loc t).stopped = false

instance (s : Config T Mem Local) (t : T) (a : Act) : Decidable (Heeds s t a) :=
  inferInstanceAs (Decidable (_ → _))

/-- A child has just been spawned: its handle is not in use yet, or there is none, and one task has
the child to itself. -/
structure Fresh (code : ℕ) (s : Config T Mem Local) : Prop where
  child : s.mem.child = .running
  code : s.mem.code = code
  locked : s.mem.locked = false
  status : s.mem.status = none
  ended : s.mem.ended = false
  refs : s.mem.refs = s.mem.free
  late : s.mem.late = 0
  threads : ∀ t, (s.loc t).pc = .idle ∨
    (s.loc t).pc = .exchange ∧ s.mem.refs = 0 ∧ ∀ u, u ≠ t → (s.loc u).pc = .idle

theorem Fresh.inv {code : ℕ} {s : Config T Mem Local} (h : Fresh code s) : Inv s.mem s.loc := by
  have hnone : ∀ q : Pc → Bool, q .idle = false → q .exchange = false →
      count (fun l : Local => q l.pc) s.loc = 0 := by
    intro q hi he
    refine count_eq_zero.mpr fun t => ?_
    rcases h.threads t with ht | ⟨ht, -⟩
    · rw [ht, hi]
    · rw [ht, he]
  have hrunning : s.mem.child ≠ .reaped := by
    rw [h.child]
    nofun
  refine ⟨⟨?_, ?_, fun t ht => ?_⟩, fun x hx => ?_, fun hr => absurd hr hrunning,
    fun hr => absurd hr hrunning, fun t => ?_⟩
  · rw [h.locked, hnone Pc.holds rfl rfl]
    rfl
  · rw [h.refs, hnone Pc.task rfl rfl, add_zero]
  · rcases h.threads t with hi | ⟨-, he⟩
    · rw [hi] at ht
      cases ht
    · exact he
  · rw [h.status] at hx
    cases hx
  · have hl : s.loc t = ⟨(s.loc t).pc, (s.loc t).stopped⟩ := rfl
    rcases h.threads t with ht | ⟨ht, -⟩
    · rw [hl, ht]
      trivial
    · rw [hl, ht]
      exact hrunning

variable [DecidableEq T]

omit [Fintype T] in
theorem code_of_next {m m' : Mem} {l l' : Local} {a : Act}
    (h : machine.next m l a = some (m', l')) : m'.code = m.code := by
  obtain ⟨-, rfl, -⟩ | ⟨-, rfl, -⟩ | ⟨-, pc', h, -⟩ | ⟨pc', h, -⟩ := next_cases h
  · rfl
  · rfl
  · cases h <;> rfl
  · generalize l.pc = pc at h
    cases h <;> rfl

theorem Inv.next {s : Config T Mem Local} {t : T} {a : Act} {m' : Mem} {l' : Local}
    (hs : Inv s.mem s.loc) (hok : Heeds s t a)
    (h : machine.next s.mem (s.loc t) a = some (m', l')) :
    Inv m' (update s.loc t l') := by
  obtain ⟨-, rfl, rfl⟩ | ⟨hi, rfl, rfl⟩ | ⟨hi, pc', hst, rfl⟩ | ⟨pc', hst, rfl⟩ := next_cases h
  case inr.inr.inl => exact hs.start hi hst
  case inr.inr.inr =>
    exact hs.step (fun r x hp => hok (by rw [hp]; rfl)) hst
  case inl =>
    rw [update_eq_self]
    exact ⟨⟨hs.locked, hs.refs, hs.alone⟩, hs.status, nofun, nofun,
      fun u => (hs.fits u).mono rfl nofun id⟩
  case inr.inl =>
    exact hs.move rfl s.mem.locked s.mem.late rfl hi rfl id id id (hs.fits t).stop

theorem inv_of_reach {code : ℕ} {s : Config T Mem Local} (hs : machine.Reach (Fresh code) Heeds s) :
    s.mem.code = code ∧ Inv s.mem s.loc :=
  hs.invariant (I := fun s => s.mem.code = code ∧ Inv s.mem s.loc) (fun _ h => ⟨h.code, h.inv⟩)
    fun _ _ _ _ _ hi hok hn => ⟨(code_of_next hn).trans hi.1, hi.2.next hok hn⟩

/-- **Every wait gives the same answer**: whatever returns from a wait is the exit status of the
child, or the wait was cancelled and says so. -/
theorem waits_agree {code : ℕ} {s : Config T Mem Local}
    (hs : machine.Reach (Fresh code) Heeds s) {t : T} {o : Outcome}
    (ht : (s.loc t).pc = .returned o) :
    o = .ok code ∨ o = .cancelled ∧ (s.loc t).stopped = true := by
  obtain ⟨hcode, hinv⟩ := inv_of_reach hs
  have hf : Fits s.mem ⟨.returned o, (s.loc t).stopped⟩ := ht ▸ hinv.fits t
  cases o
  case ok x => exact .inl (congrArg _ (Eq.trans hf hcode))
  case cancelled => exact .inr ⟨rfl, hf⟩
  case error => exact hf.elim

/-- A child that will exit with `7`, whose handle has one clone. -/
def spawned : Config (Fin 2) Mem Local where
  mem := ⟨.running, 7, false, none, false, 1, 1, 0⟩
  loc _ := ⟨.idle, false⟩

theorem fresh_spawned : Fresh 7 spawned :=
  ⟨rfl, rfl, rfl, rfl, rfl, rfl, rfl, fun _ => .inl rfl⟩

/-- `n` times the same. -/
def times (n : ℕ) (t : Fin 2) (a : Act) : List (Fin 2 × Act) := List.replicate n (t, a)

/-- The first thread waits on the queue, and the child exits before it asks again. -/
def waitForExit : List (Fin 2 × Act) := (0, .wait) :: times 7 0 .go ++ [(0, .exits)]

/-- Both threads wait; the second is handed what the first was told. -/
theorem waits_agree_pair : ∃ s : Config (Fin 2) Mem Local, machine.Reach (Fresh 7) Heeds s ∧
    (s.loc 1).pc = .returned (.ok 7) ∧
    (Outcome.ok 7 = .ok 7 ∨ Outcome.ok 7 = .cancelled ∧ (s.loc 1).stopped = true) := by
  obtain ⟨s, hs, ht⟩ : ∃ s : Config (Fin 2) _ _, machine.Reach (Fresh 7) Heeds s ∧
      (s.loc 1).pc = .returned (.ok 7) :=
    (Machine.Reach.init fresh_spawned).exists_of_run (waitForExit ++ times 7 0 .go ++
      [(1, .wait)] ++ times 3 1 .go) (by decide +kernel)
  exact ⟨s, hs, ht, waits_agree hs ht⟩

/-- The first wait reaps the child and is cancelled before it gets out of `wait_exit`. It returns
`Cancelled` and stores nothing, and the second, which nobody cancelled, finds no child to ask. -/
theorem wait_loses_status : ∃ s : Config (Fin 2) Mem Local,
    machine.Reach (Fresh 7) Machine.unguarded s ∧ (s.loc 0).pc = .returned .cancelled ∧
      (s.loc 1).pc = .returned .error ∧ (s.loc 1).stopped = false ∧ s.mem.child = .reaped := by
  refine (Machine.Reach.init fresh_spawned).exists_of_run (waitForExit ++ times 1 0 .go ++
    [(0, .cancel)] ++ times 5 0 .go ++ [(1, .wait)] ++ times 10 1 .go) ?_
  decide +kernel

end Atap.Reaping
