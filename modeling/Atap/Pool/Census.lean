import Atap.Common
import Atap.Interleave.Machine

/-!
# How many threads the pool has

The pool keeps a count of its live threads, `live` for workers and `sleeps_live` for sleep threads,
apart from the slots the threads are behind. A start reserves a place in the count, then claims a
slot, then spawns; a thread that leaves, a recovery and a start that fails empty the slot and then
give the place back. Workers and sleep threads do the same to their own count and slots, so one
machine stands for either half.

The steps, one atomic operation each, for any number of threads, each of which may be behind a slot
or not:

* `start_one` and `start_sleep`, from any thread, against any limit up to the ceiling, with spawns
  that are refused;
* a thread coming up, its moves between `Idle`, `Running` and `Parked`, and `stop` and `wake` from
  outside;
* its clean exit, its death, and `recover`;
* `reap`, the manager's pass over idle workers.

What the pool does about tasks is left out: what a thread that leaves or a recovery does with them
is done before the slot is emptied, or after, and touches neither the slots nor the count.

* `Inv`: a slot that is not empty has exactly one owner, and **the count is the number of slots in
  use and of places reserved beside them**.
* `live_accounts`: what that says of the count.

`absorbed` is a history: how often `left` found the count at zero.
-/

namespace Atap.Pool.Census

open Function

/-- What the pool is tuned to. -/
structure Limits where
  ceiling : ℕ
  floor : ℕ
  target : ℕ
  overTicks : ℕ
  idleTicks : ℕ

/-- The count and the slots of one half of the pool. -/
structure Mem (n : ℕ) where
  live : ℕ
  highest : ℕ
  state : Fin n → WorkerState
  /-- `ThreadSlot::idle_ticks`. -/
  ticks : Fin n → ℕ
  /-- The slots whose thread was spawned and has not begun. -/
  spawned : Fin n → Bool
  /-- How often a count of zero was lowered. -/
  absorbed : ℕ

/-- How far a start is: its limit, the slot it is at, and how far it knows slots to be claimed. -/
structure Search where
  limit : ℕ
  index : ℕ
  claimed : ℕ
  deriving DecidableEq

/-- Where a thread stands in the code. -/
inductive Pc
  /-- In none of these functions. A thread behind a slot is in its loop. -/
  | idle
  /-- A start, before the load of the count. -/
  | startLive (limit : ℕ)
  /-- A start, before the load of the highest slot. -/
  | startReach (s : Search)
  /-- A start, before a place is reserved. -/
  | startCount (s : Search)
  /-- A start, before the slot is claimed. -/
  | startClaim (s : Search)
  /-- A start, before the highest slot is raised. -/
  | startRaise (s : Search)
  /-- A start, before the thread is spawned. -/
  | startSpawn (s : Search)
  /-- A start whose spawn was refused, before the slot is emptied. -/
  | startEmpty (s : Search)
  /-- A start, before the place is given back. -/
  | startLeft (s : Search)
  /-- A thread that has come up, before its state leaves `Starting`. -/
  | started
  /-- A thread that leaves, before its slot is emptied. -/
  | leaving
  /-- A thread that goes down, before its slot is marked dead. -/
  | dying
  /-- `recover`, before the death is claimed. -/
  | recClaim (i : ℕ)
  /-- `recover`, before the slot is emptied. -/
  | recEmpty (i : ℕ)
  /-- A thread that left or a recovery, before the place is given back. -/
  | left
  /-- `reap`, before the load of the highest slot. -/
  | reap
  /-- `reap`, before the load of whether a slot is alive. -/
  | reapAlive (highest index : ℕ)
  /-- `reap`, before the load of whether a slot is quiet. -/
  | reapQuiet (highest index : ℕ)
  /-- `reap`, before the idle ticks start again. -/
  | reapBusied (highest index : ℕ)
  /-- `reap`, before the load of the count for how long is idle. -/
  | reapTarget (highest index : ℕ)
  /-- `reap`, before another tick is counted. -/
  | reapTick (highest index ticks : ℕ)
  /-- `reap`, before the load of the count for the floor. -/
  | reapFloor (highest index : ℕ)
  /-- `reap`, before the worker is asked to stop. -/
  | reapStop (highest index : ℕ)
  deriving DecidableEq

/-- A thread: the slot it is behind, and where it stands. -/
structure Local (n : ℕ) where
  me : Option (Fin n)
  pc : Pc
  deriving DecidableEq

inductive Act (n : ℕ)
  | go
  /-- A start, against a limit. -/
  | start (limit : ℕ)
  /-- The pool is stopped, or the spawn is refused, or there is work in a ring. -/
  | fail
  /-- A spawned thread begins. -/
  | born (i : Fin n)
  /-- The thread moves its state. -/
  | move (state state' : WorkerState)
  /-- The thread finds its state `Stopping` and leaves. -/
  | leave
  /-- The thread goes down. -/
  | die
  /-- A dead slot is recovered. -/
  | recover (i : Fin n)
  | wake (i : Fin n)
  | stop (i : Fin n)
  /-- The manager makes a pass. -/
  | reap
  deriving DecidableEq

section Steps

variable {n : ℕ}

def Mem.setState (m : Mem n) (i : Fin n) (st : WorkerState) : Mem n :=
  { m with state := update m.state i st }

/-- `ThreadSlot::stop`. -/
def Mem.stop (m : Mem n) (i : Fin n) : Mem n :=
  if (m.state i).alive then m.setState i .stopping else m

/-- `left` and `sleep_left`, which saturate at zero. -/
def Mem.left (m : Mem n) : Mem n :=
  { m with live := m.live - 1, absorbed := m.absorbed + if m.live = 0 then 1 else 0 }

/-- The moves a thread makes on its own slot: `begin_task`, `end_task` and those of `park`. -/
def moves : List (WorkerState × WorkerState) :=
  [(.idle, .running), (.running, .idle), (.idle, .parked), (.parked, .idle)]

/-- The steps of a start. -/
def startStep (lim : Limits) (m : Mem n) : Pc → Act n → Option (Mem n × Pc)
  | .idle, .start limit => some (m, .startLive (min limit lim.ceiling))
  | .startLive _, .fail => some (m, .idle)
  | .startLive limit, .go =>
    some (m, if limit ≤ m.live then .idle else .startReach ⟨limit, 0, 0⟩)
  | .startReach s, .go =>
    some (m, if s.index < min (max (m.highest + 1) s.claimed) n then .startCount s else .idle)
  | .startCount s, .go =>
    if m.live < s.limit then some ({ m with live := m.live + 1 }, .startClaim s)
    else some (m, .idle)
  | .startClaim s, .go =>
    if h : s.index < n then
      if m.state ⟨s.index, h⟩ = .empty then
        some (m.setState ⟨s.index, h⟩ .starting, .startRaise s)
      else some (m, .startLeft ⟨s.limit, s.index + 1, s.index + 2⟩)
    else none
  | .startRaise s, .go => some ({ m with highest := max m.highest (s.index + 1) }, .startSpawn s)
  | .startSpawn s, .go =>
    if h : s.index < n then
      some ({ m with spawned := update m.spawned ⟨s.index, h⟩ true }, .idle)
    else none
  | .startSpawn s, .fail => some (m, .startEmpty s)
  | .startEmpty s, .go =>
    if h : s.index < n then
      some (m.setState ⟨s.index, h⟩ .empty, .startLeft ⟨s.limit, s.index + 1, s.claimed⟩)
    else none
  | .startLeft s, .go => some (m.left, .startReach s)
  | _, _ => none

/-- The steps of a thread behind slot `i`: its moves, its exit and its death. -/
def threadStep (m : Mem n) (i : Fin n) : Pc → Act n → Option (Mem n × Local n)
  | .started, .go =>
    some (if m.state i = .starting then m.setState i .idle else m, ⟨some i, .idle⟩)
  | .idle, .move st st' =>
    if (st, st') ∈ moves then
      some (if m.state i = st then m.setState i st' else m, ⟨some i, .idle⟩)
    else none
  | .idle, .leave => if m.state i = .stopping then some (m, ⟨some i, .leaving⟩) else none
  | .leaving, .go => some (m.setState i .empty, ⟨none, .left⟩)
  | .idle, .die => some (m, ⟨some i, .dying⟩)
  | .dying, .go => some (m.setState i .dead, ⟨none, .idle⟩)
  | _, _ => none

/-- The steps of `recover`, of `left`, and of those who stop and wake threads. -/
def poolStep (m : Mem n) : Pc → Act n → Option (Mem n × Pc)
  | .idle, .recover i => if m.state i = .dead then some (m, .recClaim i) else none
  | .recClaim i, .go =>
    if h : i < n then
      if m.state ⟨i, h⟩ = .dead then some (m.setState ⟨i, h⟩ .recovering, .recEmpty i)
      else some (m, .idle)
    else none
  | .recEmpty i, .go =>
    if h : i < n then some (m.setState ⟨i, h⟩ .empty, .left) else none
  | .left, .go => some (m.left, .idle)
  | .idle, .wake i => some (if m.state i = .parked then m.setState i .idle else m, .idle)
  | .idle, .stop i => some (m.stop i, .idle)
  | _, _ => none

/-- The steps of `reap`. -/
def reapStep (lim : Limits) (m : Mem n) : Pc → Act n → Option (Mem n × Pc)
  | .idle, .reap => some (m, .reap)
  | .reap, .go => some (m, .reapAlive m.highest 0)
  | .reapAlive highest index, .go =>
    if index < highest then
      if h : index < n then
        some (m, if (m.state ⟨index, h⟩).alive then .reapQuiet highest index
          else .reapAlive highest (index + 1))
      else none
    else some (m, .idle)
  | .reapQuiet highest index, .go =>
    if h : index < n then
      some (m, if m.state ⟨index, h⟩ = .parked then .reapTarget highest index
        else .reapBusied highest index)
    else none
  -- There is something in the worker's ring or slot.
  | .reapQuiet highest index, .fail => some (m, .reapBusied highest index)
  | .reapBusied highest index, .go =>
    if h : index < n then
      some ({ m with ticks := update m.ticks ⟨index, h⟩ 0 },
        .reapAlive highest (index + 1))
    else none
  | .reapTarget highest index, .go =>
    some (m, .reapTick highest index
      (if lim.target < m.live then lim.overTicks else lim.idleTicks))
  | .reapTick highest index ticks, .go =>
    if h : index < n then
      some ({ m with ticks := update m.ticks ⟨index, h⟩ (m.ticks ⟨index, h⟩ + 1) },
        if m.ticks ⟨index, h⟩ + 1 < ticks then .reapAlive highest (index + 1)
        else .reapFloor highest index)
    else none
  | .reapFloor highest index, .go =>
    some (m, if m.live ≤ lim.floor then .reapAlive highest (index + 1)
      else .reapStop highest index)
  | .reapStop highest index, .go =>
    if h : index < n then some (m.stop ⟨index, h⟩, .reapAlive highest (index + 1)) else none
  | _, _ => none

/-- A thread that was spawned begins. -/
def bornStep (m : Mem n) (l : Local n) : Act n → Option (Mem n × Local n)
  | .born i =>
    if l = ⟨none, .idle⟩ ∧ m.spawned i = true then
      some ({ m with spawned := update m.spawned i false }, ⟨some i, .started⟩)
    else none
  | _ => none

/-- One half of the pool as a machine. -/
def machine (lim : Limits) : Machine (Mem n) (Local n) (Act n) where
  next m l a :=
    (bornStep m l a).or ((l.me.bind fun i => threadStep m i l.pc a).or
      (((startStep lim m l.pc a).or ((poolStep m l.pc a).or (reapStep lim m l.pc a))).map
        fun r => (r.1, { l with pc := r.2 })))

end Steps

/-! ### What a step can do -/

/-- The thread has reserved a place it has no slot for. -/
def Pc.pending : Pc → Bool
  | startClaim _ | startLeft _ | left => true
  | _ => false

/-- The thread has claimed slot `i`, to start a thread in it or to recover it. -/
def Pc.claims (i : ℕ) : Pc → Bool
  | startRaise s | startSpawn s | startEmpty s => s.index == i
  | recEmpty j => j == i
  | _ => false

/-- The limit a start is held to. -/
def Pc.limit : Pc → Option ℕ
  | startLive limit => some limit
  | startReach s | startCount s | startClaim s | startRaise s | startSpawn s | startEmpty s
  | startLeft s => some s.limit
  | _ => none

section Inversion

variable {n : ℕ}

/-- The thread has made up its mind to leave, or to ask a worker to stop. -/
def Pc.decided : Pc → Bool
  | leaving | reapStop .. => true
  | _ => false

/-- Two places in the code that hold the same, the second of them no decision. -/
structure Pc.Alike (lim : Limits) (pc pc' : Pc) : Prop where
  decided : pc'.decided = false
  pending : pc'.pending = pc.pending
  claims : ∀ i, pc'.claims i = pc.claims i
  limit : ∀ x ∈ pc'.limit, x ∈ pc.limit ∨ x ≤ lim.ceiling

/-- The steps, with those that touch neither the count nor what is in use as one kind, and those
that move a live slot to another live state as another. -/
inductive Step (lim : Limits) (a : Act n) (m : Mem n) (l : Local n) : Mem n → Local n → Prop
  | quiet {m' : Mem n} {pc' : Pc} (hlive : m'.live = m.live) (hstate : m'.state = m.state)
      (hspawned : m'.spawned = m.spawned) (habs : m'.absorbed = m.absorbed)
      (hpc : l.pc.Alike lim pc') : Step lim a m l m' { l with pc := pc' }
  | active (i : Fin n) {st : WorkerState} {pc' : Pc} (h : (m.state i).active = true)
      (h' : st.active = true) (hpc : l.pc.Alike lim pc') :
      Step lim a m l (m.setState i st) { l with pc := pc' }
  | stop (i : Fin n) {pc' : Pc} (h : (m.state i).alive = true)
      (hstop : (a = .stop i ∧ l.pc = .idle) ∨ ∃ highest, l.pc = .reapStop highest i)
      (hpc : l.pc.Alike lim pc') :
      Step lim a m l (m.setState i .stopping) { l with pc := pc' }
  | floor (highest index : ℕ) (hpc : l.pc = .reapFloor highest index) (h : lim.floor < m.live) :
      Step lim a m l m { l with pc := .reapStop highest index }
  | goes (i : Fin n) (hl : l = ⟨some i, .idle⟩) (h : m.state i = .stopping) :
      Step lim a m l m ⟨some i, .leaving⟩
  | reserve (s : Search) (hpc : l.pc = .startCount s) (h : m.live < s.limit) :
      Step lim a m l { m with live := m.live + 1 } { l with pc := .startClaim s }
  | claim (s : Search) (i : Fin n) (hpc : l.pc = .startClaim s) (hi : i.val = s.index)
      (h : m.state i = .empty) :
      Step lim a m l (m.setState i .starting) { l with pc := .startRaise s }
  | spawn (s : Search) (i : Fin n) (hpc : l.pc = .startSpawn s) (hi : i.val = s.index) :
      Step lim a m l { m with spawned := update m.spawned i true } { l with pc := .idle }
  | giveUp (s : Search) (i : Fin n) (hpc : l.pc = .startEmpty s) (hi : i.val = s.index) :
      Step lim a m l (m.setState i .empty)
        { l with pc := .startLeft ⟨s.limit, s.index + 1, s.claimed⟩ }
  | left (pc' : Pc) (hpc : l.pc.pending = true) (hpc' : pc'.pending = false)
      (hdecided : pc'.decided = false) (hclaims : ∀ i, pc'.claims i = l.pc.claims i)
      (hlimit : ∀ x ∈ pc'.limit, x ∈ l.pc.limit) :
      Step lim a m l m.left { l with pc := pc' }
  | born (i : Fin n) (hl : l = ⟨none, .idle⟩) (h : m.spawned i = true) :
      Step lim a m l { m with spawned := update m.spawned i false } ⟨some i, .started⟩
  | leave (i : Fin n) (hl : l = ⟨some i, .leaving⟩) :
      Step lim a m l (m.setState i .empty) ⟨none, .left⟩
  | die (i : Fin n) (hl : l = ⟨some i, .dying⟩) :
      Step lim a m l (m.setState i .dead) ⟨none, .idle⟩
  | recClaim (i : Fin n) (hpc : l.pc = .recClaim i) (h : m.state i = .dead) :
      Step lim a m l (m.setState i .recovering) { l with pc := .recEmpty i }
  | recEmpty (i : Fin n) (hpc : l.pc = .recEmpty i) :
      Step lim a m l (m.setState i .empty) { l with pc := .left }

variable {lim : Limits} {m m' : Mem n} {me : Option (Fin n)} {pc pc' : Pc} {a : Act n}

/-- A step that moves the thread on and touches nothing. -/
theorem Step.move (h : pc.Alike lim pc') : Step lim a m ⟨me, pc⟩ m ⟨me, pc'⟩ :=
  .quiet rfl rfl rfl rfl h

theorem startStep_step (h : startStep lim m pc a = some (m', pc')) :
    Step lim a m ⟨me, pc⟩ m' ⟨me, pc'⟩ := by
  unfold startStep at h
  split at h
  case h_5 s =>
    split at h <;> obtain ⟨rfl, rfl⟩ := Prod.mk.inj (Option.some.inj h)
    case isTrue hlt => exact .reserve s rfl hlt
    case isFalse => exact .move ⟨rfl, rfl, fun _ => rfl, nofun⟩
  case h_6 s =>
    split at h
    case isFalse => cases h
    case isTrue hn =>
      split at h <;> obtain ⟨rfl, rfl⟩ := Prod.mk.inj (Option.some.inj h)
      case isTrue hempty => exact .claim s ⟨s.index, hn⟩ rfl rfl hempty
      case isFalse => exact .move ⟨rfl, rfl, fun _ => rfl, fun x hx => .inl hx⟩
  case h_8 s =>
    split at h
    case isFalse => cases h
    case isTrue hn =>
      cases h
      exact .spawn s ⟨s.index, hn⟩ rfl rfl
  case h_10 s =>
    split at h
    case isFalse => cases h
    case isTrue hn =>
      cases h
      exact .giveUp s ⟨s.index, hn⟩ rfl rfl
  all_goals cases h
  case h_1 limit =>
    refine .move ⟨rfl, rfl, fun _ => rfl, fun x hx => .inr ?_⟩
    obtain rfl := Option.some.inj hx
    exact min_le_right ..
  case h_2 limit => exact .move ⟨rfl, rfl, fun _ => rfl, nofun⟩
  case h_3 limit =>
    split
    · exact .move ⟨rfl, rfl, fun _ => rfl, nofun⟩
    · exact .move ⟨rfl, rfl, fun _ => rfl, fun x hx => .inl hx⟩
  case h_4 s =>
    split
    · exact .move ⟨rfl, rfl, fun _ => rfl, fun x hx => .inl hx⟩
    · exact .move ⟨rfl, rfl, fun _ => rfl, nofun⟩
  case h_7 s => exact .quiet rfl rfl rfl rfl ⟨rfl, rfl, fun _ => rfl, fun x hx => .inl hx⟩
  case h_9 s => exact .move ⟨rfl, rfl, fun _ => rfl, fun x hx => .inl hx⟩
  case h_11 s => exact .left _ rfl rfl rfl (fun _ => rfl) fun x hx => hx

/-- A state that is moved to another if it is what it should be. -/
theorem Step.moveState {i : Fin n} {st st' : WorkerState} (h : st.active = true)
    (h' : st'.active = true) (hpc : pc.Alike lim pc') :
    Step lim a m ⟨me, pc⟩ (if m.state i = st then m.setState i st' else m) ⟨me, pc'⟩ := by
  split
  case isTrue hst => exact .active i (hst ▸ h) h' hpc
  case isFalse => exact .move hpc

theorem Step.asks (i : Fin n)
    (hstop : (a = .stop i ∧ pc = .idle) ∨ ∃ highest, pc = .reapStop highest i)
    (hpc : pc.Alike lim pc') : Step lim a m ⟨me, pc⟩ (m.stop i) ⟨me, pc'⟩ := by
  unfold Mem.stop
  split
  case isTrue halive => exact .stop i halive hstop hpc
  case isFalse => exact .move hpc

theorem active_of_mem_moves {st st' : WorkerState} (h : (st, st') ∈ moves) :
    st.active = true ∧ st'.active = true := by
  simp only [moves, List.mem_cons, Prod.mk.injEq, List.not_mem_nil, or_false] at h
  rcases h with ⟨rfl, rfl⟩ | ⟨rfl, rfl⟩ | ⟨rfl, rfl⟩ | ⟨rfl, rfl⟩ <;> exact ⟨rfl, rfl⟩

theorem threadStep_step {i : Fin n} {l' : Local n} (h : threadStep m i pc a = some (m', l')) :
    Step lim a m ⟨some i, pc⟩ m' l' := by
  unfold threadStep at h
  split at h
  case h_2 st st' =>
    obtain ⟨hmem, h⟩ := Option.ite_none_right_eq_some.mp h
    cases h
    obtain ⟨hst, hst'⟩ := active_of_mem_moves hmem
    exact .moveState hst hst' ⟨rfl, rfl, fun _ => rfl, nofun⟩
  case h_3 => exact yield_guard h (.goes i rfl)
  all_goals cases h
  case h_1 => exact .moveState rfl rfl ⟨rfl, rfl, fun _ => rfl, nofun⟩
  case h_4 => exact .leave i rfl
  case h_5 => exact .move ⟨rfl, rfl, fun _ => rfl, nofun⟩
  case h_6 => exact .die i rfl

theorem poolStep_step (h : poolStep m pc a = some (m', pc')) :
    Step lim a m ⟨me, pc⟩ m' ⟨me, pc'⟩ := by
  unfold poolStep at h
  split at h
  case h_1 i =>
    obtain ⟨-, h⟩ := Option.ite_none_right_eq_some.mp h
    cases h
    exact .move ⟨rfl, rfl, fun _ => rfl, nofun⟩
  case h_2 i =>
    split at h
    case isFalse => cases h
    case isTrue hn =>
      split at h <;> obtain ⟨rfl, rfl⟩ := Prod.mk.inj (Option.some.inj h)
      case isTrue hdead => exact .recClaim ⟨i, hn⟩ rfl hdead
      case isFalse => exact .move ⟨rfl, rfl, fun _ => rfl, nofun⟩
  case h_3 i =>
    split at h
    case isFalse => cases h
    case isTrue hn =>
      cases h
      exact .recEmpty ⟨i, hn⟩ rfl
  all_goals cases h
  case h_4 => exact .left _ rfl rfl rfl (fun _ => rfl) nofun
  case h_5 i => exact .moveState rfl rfl ⟨rfl, rfl, fun _ => rfl, nofun⟩
  case h_6 i => exact .asks i (.inl ⟨rfl, rfl⟩) ⟨rfl, rfl, fun _ => rfl, nofun⟩

theorem reapStep_step (h : reapStep lim m pc a = some (m', pc')) :
    Step lim a m ⟨me, pc⟩ m' ⟨me, pc'⟩ := by
  unfold reapStep at h
  split at h
  case h_3 highest index =>
    split at h
    case isFalse =>
      cases h
      exact .move ⟨rfl, rfl, fun _ => rfl, nofun⟩
    case isTrue =>
      split at h
      case isFalse => cases h
      case isTrue =>
        cases h
        split <;> exact .move ⟨rfl, rfl, fun _ => rfl, nofun⟩
  case h_4 highest index =>
    split at h
    case isFalse => cases h
    case isTrue =>
      cases h
      split <;> exact .move ⟨rfl, rfl, fun _ => rfl, nofun⟩
  case h_6 highest index =>
    split at h
    case isFalse => cases h
    case isTrue =>
      cases h
      exact .quiet rfl rfl rfl rfl ⟨rfl, rfl, fun _ => rfl, nofun⟩
  case h_8 highest index ticks =>
    split at h
    case isFalse => cases h
    case isTrue =>
      cases h
      split <;> exact .quiet rfl rfl rfl rfl ⟨rfl, rfl, fun _ => rfl, nofun⟩
  case h_10 highest index =>
    split at h
    case isFalse => cases h
    case isTrue hn =>
      cases h
      exact .asks ⟨index, hn⟩ (.inr ⟨highest, rfl⟩) ⟨rfl, rfl, fun _ => rfl, nofun⟩
  all_goals cases h
  case h_9 highest index =>
    split
    case isTrue => exact .move ⟨rfl, rfl, fun _ => rfl, nofun⟩
    case isFalse hlt => exact .floor highest index rfl (Nat.not_le.mp hlt)
  all_goals exact .move ⟨rfl, rfl, fun _ => rfl, nofun⟩

theorem next_step {l l' : Local n} (h : (machine lim).next m l a = some (m', l')) :
    Step lim a m l m' l' := by
  obtain ⟨me, pc⟩ := l
  rcases Option.or_eq_some_iff.mp h with hborn | ⟨-, h⟩
  · unfold bornStep at hborn
    split at hborn
    case h_1 i =>
      obtain ⟨⟨hl, hsp⟩, hborn⟩ := Option.ite_none_right_eq_some.mp hborn
      exact yield hborn (.born i hl hsp)
    case h_2 => cases hborn
  rcases Option.or_eq_some_iff.mp h with hthread | ⟨-, h⟩
  · obtain ⟨i, rfl, hi⟩ := Option.bind_eq_some_iff.mp hthread
    exact threadStep_step hi
  obtain ⟨r, hr, heq⟩ := Option.map_eq_some_iff.mp h
  obtain ⟨rfl, rfl⟩ := Prod.mk.inj heq
  rcases Option.or_eq_some_iff.mp hr with hstart | ⟨-, hr⟩
  · exact startStep_step hstart
  rcases Option.or_eq_some_iff.mp hr with hpool | ⟨-, hreap⟩
  · exact poolStep_step hpool
  · exact reapStep_step hreap

end Inversion

/-! ### The accounts -/

/-- How often the thread owns slot `i`. -/
def Local.holds {n : ℕ} (i : Fin n) (l : Local n) : ℕ :=
  (decide (l.me = some i)).toNat + (l.pc.claims i).toNat

/-- What holds in every interleaving. -/
structure Inv {n : ℕ} {T : Type*} [Fintype T] (lim : Limits) (m : Mem n) (loc : T → Local n) :
    Prop where
  /-- The count is the slots in use and the places reserved beside them. -/
  live : m.live =
    count WorkerState.occupied m.state + count (fun l : Local n => l.pc.pending) loc
  /-- A slot in use has one owner: a thread, the thread that was spawned for it, or its death. -/
  owner : ∀ i, total (Local.holds i) loc + (m.spawned i).toNat + (m.state i == .dead).toNat =
    (m.state i).occupied.toNat
  le : m.live ≤ lim.ceiling
  limits : ∀ t, ∀ x ∈ (loc t).pc.limit, x ≤ lim.ceiling
  absorbed : m.absorbed = 0

section Accounts

/-- What moving a slot does to the number of slots in use. -/
theorem count_setState {n : ℕ} (m : Mem n) (i : Fin n) (st : WorkerState) :
    count WorkerState.occupied (m.setState i st).state + (m.state i).occupied.toNat =
      count WorkerState.occupied m.state + st.occupied.toNat :=
  count_update WorkerState.occupied m.state i st

theorem WorkerState.occupied_of_alive {st : WorkerState} (h : st.alive = true) :
    st.occupied = true ∧ (st == .dead) = false := by
  cases st <;> first | exact ⟨rfl, rfl⟩ | cases h

theorem WorkerState.alive_of_active {st : WorkerState} (h : st.active = true) :
    st.alive = true := by
  cases st <;> first | rfl | cases h

theorem index_beq {n index : ℕ} {i j : Fin n} (h : i.val = index) (hj : j ≠ i) :
    (index == j.val) = false :=
  beq_eq_false_iff_ne.mpr fun he => hj (Fin.ext (he.symm.trans h.symm))

variable {n : ℕ} {T : Type*} [Fintype T] {lim : Limits} {m m' : Mem n} {loc : T → Local n} {t : T}

theorem Inv.limit_alike (hi : Inv lim m loc) {pc' : Pc} (h : (loc t).pc.Alike lim pc') :
    ∀ x ∈ pc'.limit, x ≤ lim.ceiling := by
  intro x hx
  rcases h.limit x hx with hx | hx
  · exact hi.limits t x hx
  · exact hx

/-- A slot that somebody owns is in use, and not dead. -/
theorem Inv.owned (hi : Inv lim m loc) {i : Fin n} (h : 0 < (loc t).holds i) :
    (m.state i).occupied = true ∧ (m.state i == .dead) = false ∧ m.spawned i = false ∧
      (loc t).holds i = 1 := by
  have ho := hi.owner i
  have hle : (loc t).holds i ≤ total (Local.holds i) loc := le_total t
  have := Bool.toNat_le (m.state i).occupied
  refine ⟨?_, ?_, ?_, by omega⟩
  · exact Bool.toNat_eq_one.mp (by omega)
  · exact Bool.toNat_eq_zero.mp (by omega)
  · exact Bool.toNat_eq_zero.mp (by omega)

variable [DecidableEq T] {l' : Local n}

/-- The accounts after a step, put together from what the step does. -/
theorem Inv.of_step (hi : Inv lim m loc)
    (hlive : m'.live + count WorkerState.occupied m.state + (loc t).pc.pending.toNat =
      m.live + count WorkerState.occupied m'.state + l'.pc.pending.toNat)
    (howner : ∀ i, l'.holds i + (m'.spawned i).toNat + (m'.state i == .dead).toNat +
      (m.state i).occupied.toNat = (loc t).holds i + (m.spawned i).toNat +
      (m.state i == .dead).toNat + (m'.state i).occupied.toNat)
    (hle : m'.live ≤ lim.ceiling) (hlimit : ∀ x ∈ l'.pc.limit, x ≤ lim.ceiling)
    (habs : m'.absorbed = 0) : Inv lim m' (update loc t l') := by
  refine ⟨?_, fun i => ?_, hle, ?_, habs⟩
  · have hc := count_update (fun l : Local n => l.pc.pending) loc t l'
    have := hi.live
    omega
  · have ht := total_update_add (Local.holds i) loc t l'
    have := hi.owner i
    have := howner i
    omega
  · exact forall_update (P := fun l : Local n => ∀ x ∈ l.pc.limit, x ≤ lim.ceiling) hlimit
      fun u _ => hi.limits u

/-- A step that moves slot `i`. -/
theorem Inv.set (hi : Inv lim m loc) {i : Fin n} {st : WorkerState}
    (hheld : l'.holds i + (st == .dead).toNat + (m.state i).occupied.toNat =
      (loc t).holds i + (m.state i == .dead).toNat + st.occupied.toNat)
    (hother : ∀ j, j ≠ i → l'.holds j = (loc t).holds j)
    (hpend : st.occupied.toNat + l'.pc.pending.toNat =
      (m.state i).occupied.toNat + (loc t).pc.pending.toNat)
    (hlimit : ∀ x ∈ l'.pc.limit, x ≤ lim.ceiling) :
    Inv lim (m.setState i st) (update loc t l') := by
  refine hi.of_step ?_ (fun j => ?_) hi.le hlimit hi.absorbed
  · have hc := count_setState m i st
    change m.live + _ + _ = m.live + _ + _
    omega
  · rcases eq_or_ne j i with rfl | hne
    · have hj : (m.setState j st).state j = st := update_self ..
      change _ + (m.spawned j).toNat + _ + _ = _
      rw [hj]
      omega
    · have hj : (m.setState i st).state j = m.state j := update_of_ne hne ..
      change _ + (m.spawned j).toNat + _ + _ = _
      rw [hj, hother j hne]

/-- A step by which the owner of slot `i` empties it, and keeps its place in the count. -/
theorem Inv.setEmpty (hi : Inv lim m loc) {i : Fin n}
    (hheld : (loc t).holds i = l'.holds i + 1) (hother : ∀ j, j ≠ i → l'.holds j = (loc t).holds j)
    (hpend : (loc t).pc.pending = false) (hpend' : l'.pc.pending = true)
    (hlimit : ∀ x ∈ l'.pc.limit, x ≤ lim.ceiling) :
    Inv lim (m.setState i .empty) (update loc t l') := by
  obtain ⟨hocc, hdead, -, -⟩ := hi.owned (t := t) (i := i) (by omega)
  refine hi.set ?_ hother ?_ hlimit
  · rw [hheld, hocc, hdead]
    rfl
  · rw [hocc, hpend, hpend']
    rfl

/-- A step that spawns the thread of slot `i`, or by which it begins. -/
theorem Inv.setSpawned (hi : Inv lim m loc) {i : Fin n} {b : Bool}
    (hheld : l'.holds i + b.toNat = (loc t).holds i + (m.spawned i).toNat)
    (hother : ∀ j, j ≠ i → l'.holds j = (loc t).holds j)
    (hpend : l'.pc.pending = (loc t).pc.pending)
    (hlimit : ∀ x ∈ l'.pc.limit, x ≤ lim.ceiling) :
    Inv lim { m with spawned := update m.spawned i b } (update loc t l') := by
  refine hi.of_step (by rw [hpend]) (fun j => ?_) hi.le hlimit hi.absorbed
  change _ + (update m.spawned i b j).toNat + (m.state j == .dead).toNat + _ =
    _ + _ + _ + (m.state j).occupied.toNat
  rcases eq_or_ne j i with rfl | hne
  · rw [update_self]
    omega
  · rw [update_of_ne hne, hother j hne]

theorem Local.holds_alike {l : Local n} {pc' : Pc} (h : l.pc.Alike lim pc') (i : Fin n) :
    Local.holds i { l with pc := pc' } = l.holds i := by
  rw [Local.holds, Local.holds, h.claims]

/-- A step that moves slot `i` from one live state to another. -/
theorem Inv.setAlive (hi : Inv lim m loc) {i : Fin n} {st : WorkerState} {pc' : Pc}
    (h : (m.state i).alive = true) (h' : st.alive = true) (hpc : (loc t).pc.Alike lim pc') :
    Inv lim (m.setState i st) (update loc t { loc t with pc := pc' }) := by
  obtain ⟨hocc, hdead⟩ := WorkerState.occupied_of_alive h
  obtain ⟨hocc', hdead'⟩ := WorkerState.occupied_of_alive h'
  refine hi.set ?_ (fun j _ => Local.holds_alike hpc j) ?_ (hi.limit_alike hpc)
  · rw [Local.holds_alike hpc, hocc, hdead, hocc', hdead']
  · rw [hocc, hocc', hpc.pending]

/-- **The accounts are kept** by every step. -/
theorem Inv.step {a : Act n} (hi : Inv lim m loc) (hs : Step lim a m (loc t) m' l') :
    Inv lim m' (update loc t l') := by
  cases hs
  case quiet pc' hpc hlive hstate hspawned habs =>
    refine hi.of_step ?_ (fun i => ?_) (hlive ▸ hi.le) (hi.limit_alike hpc)
      (habs.trans hi.absorbed)
    · rw [hlive, hstate, hpc.pending]
    · rw [hstate, hspawned, Local.holds_alike hpc]
  case active i st pc' h h' hpc =>
    exact hi.setAlive (WorkerState.alive_of_active h) (WorkerState.alive_of_active h') hpc
  case stop i pc' h _ hpc => exact hi.setAlive h rfl hpc
  case floor highest index hpc h =>
    refine hi.of_step ?_ (fun i => ?_) hi.le nofun hi.absorbed
    · rw [hpc]
      rfl
    · simp only [Local.holds, hpc]
      rfl
  case goes i hl h =>
    refine hi.of_step ?_ (fun j => ?_) hi.le nofun hi.absorbed
    · rw [hl]
      rfl
    · rw [hl]
      rfl
  case reserve s hpc h =>
    have hs : s.limit ≤ lim.ceiling := hi.limits t s.limit (by rw [hpc]; rfl)
    refine hi.of_step ?_ (fun i => ?_) (h.trans_le hs) (fun x hx => ?_) hi.absorbed
    · rw [hpc]
      simp only [Pc.pending, Bool.toNat_true, Bool.toNat_false]
      omega
    · simp only [Local.holds, hpc, Pc.claims]
    · obtain rfl := Option.some.inj hx
      exact hs
  case claim s i hpc hidx h =>
    refine hi.set ?_ (fun j hj => ?_) ?_ fun x hx => hi.limits t x (by rw [hpc]; exact hx)
    · rw [h]
      simp only [Local.holds, hpc, Pc.claims, hidx, beq_self_eq_true]
      rfl
    · simp only [Local.holds, hpc, Pc.claims, index_beq hidx hj]
    · rw [hpc, h]
      rfl
  case spawn s i hpc hidx =>
    refine hi.setSpawned ?_ (fun j hj => ?_) (by rw [hpc]; rfl) nofun
    · obtain ⟨-, -, hsp, -⟩ := hi.owned (t := t) (i := i) (by
        simp only [Local.holds, hpc, Pc.claims, hidx, beq_self_eq_true, Bool.toNat_true]
        omega)
      simp only [Local.holds, hpc, Pc.claims, hidx, beq_self_eq_true, hsp]
      rfl
    · simp only [Local.holds, hpc, Pc.claims, index_beq hidx hj]
  case giveUp s i hpc hidx =>
    refine hi.setEmpty ?_ (fun j hj => ?_) (by rw [hpc]; rfl) rfl fun x hx =>
      hi.limits t x (by rw [hpc]; exact hx)
    · simp only [Local.holds, hpc, Pc.claims, hidx, beq_self_eq_true]
      rfl
    · simp only [Local.holds, hpc, Pc.claims, index_beq hidx hj]
  case left pc' hpc hpc' _ hclaims hlimit =>
    have hpos : 0 < m.live := by
      have h : 0 < count (fun l : Local n => l.pc.pending) loc := count_pos hpc
      have := hi.live
      omega
    refine hi.of_step ?_ (fun i => ?_) (Nat.sub_le_of_le_add (hi.le.trans (Nat.le_succ _)))
      (fun x hx => hi.limits t x (hlimit x hx)) ?_
    · rw [hpc, hpc']
      simp only [Mem.left, Bool.toNat_true, Bool.toNat_false]
      omega
    · simp only [Mem.left, Local.holds, hclaims]
    · simp only [Mem.left, hi.absorbed, hpos.ne', if_false]
  case born i hl h =>
    refine hi.setSpawned ?_ (fun j hj => ?_) (by rw [hl]; rfl) nofun
    · rw [hl, h]
      simp only [Local.holds, Pc.claims, decide_true]
      rfl
    · rw [hl]
      simp only [Local.holds, Option.some.injEq, hj.symm]
      rfl
  case leave i hl =>
    refine hi.setEmpty ?_ (fun j hj => ?_) (by rw [hl]; rfl) rfl nofun
    · rw [hl]
      simp only [Local.holds, decide_true]
      rfl
    · rw [hl]
      simp only [Local.holds, Option.some.injEq, hj.symm]
      rfl
  case die i hl =>
    obtain ⟨hocc, hdead, -, -⟩ := hi.owned (t := t) (i := i) (by
      rw [hl]
      simp only [Local.holds, decide_true, Bool.toNat_true]
      omega)
    refine hi.set ?_ (fun j hj => ?_) (by rw [hl, hocc]; rfl) nofun
    · rw [hl, hocc, hdead]
      simp only [Local.holds, decide_true]
      rfl
    · rw [hl]
      simp only [Local.holds, Option.some.injEq, hj.symm]
      rfl
  case recClaim i hpc h =>
    refine hi.set ?_ (fun j hj => ?_) (by rw [hpc, h]; rfl) nofun
    · rw [h]
      simp only [Local.holds, hpc, Pc.claims, beq_self_eq_true]
      rfl
    · simp only [Local.holds, hpc, Pc.claims, index_beq rfl hj]
  case recEmpty i hpc =>
    refine hi.setEmpty ?_ (fun j hj => ?_) (by rw [hpc]; rfl) rfl nofun
    · simp only [Local.holds, hpc, Pc.claims, beq_self_eq_true]
      rfl
    · simp only [Local.holds, hpc, Pc.claims, index_beq rfl hj]

end Accounts

/-! ### The result -/

section Result

variable {n : ℕ} {T : Type*} [Fintype T] {lim : Limits}

/-- A pool no thread was started in. -/
structure Fresh (s : Config T (Mem n) (Local n)) : Prop where
  live : s.mem.live = 0
  state : ∀ i, s.mem.state i = .empty
  spawned : ∀ i, s.mem.spawned i = false
  absorbed : s.mem.absorbed = 0
  loc : ∀ t, s.loc t = ⟨none, .idle⟩

theorem Fresh.inv {s : Config T (Mem n) (Local n)} (h : Fresh s) : Inv lim s.mem s.loc := by
  have hocc : count WorkerState.occupied s.mem.state = 0 :=
    count_eq_zero.mpr fun i => by rw [h.state i]; rfl
  have hpend : count (fun l : Local n => l.pc.pending) s.loc = 0 :=
    count_eq_zero.mpr fun t => by rw [h.loc t]; rfl
  refine ⟨by rw [h.live, hocc, hpend], fun i => ?_, by rw [h.live]; exact Nat.zero_le _,
    fun t x hx => ?_, h.absorbed⟩
  · rw [total_eq_zero_of_forall fun t => by rw [h.loc t]; rfl, h.spawned i, h.state i]
    rfl
  · rw [h.loc t] at hx
    cases hx

/-- The thread is in no start, exit or recovery. -/
def Pc.settled : Pc → Bool
  | startLive _ | startReach _ | startCount _ | startClaim _ | startRaise _ | startSpawn _
  | startEmpty _ | startLeft _ | leaving | dying | recClaim _ | recEmpty _ | left => false
  | _ => true

/-- What a count says of the slots it is for. -/
structure Accounted (lim : Limits) (s : Config T (Mem n) (Local n)) : Prop where
  occupied : count WorkerState.occupied s.mem.state ≤ s.mem.live
  ceiling : s.mem.live ≤ lim.ceiling
  settled : (∀ t, (s.loc t).pc.settled = true) →
    s.mem.live = count WorkerState.occupied s.mem.state
  absorbed : s.mem.absorbed = 0

theorem Inv.accounted {s : Config T (Mem n) (Local n)} (hi : Inv lim s.mem s.loc) :
    Accounted lim s := by
  refine ⟨by rw [hi.live]; exact Nat.le_add_right _ _, hi.le, fun h => ?_, hi.absorbed⟩
  have hpend : count (fun l : Local n => l.pc.pending) s.loc = 0 :=
    count_eq_zero.mpr fun t => by
      have hset := h t
      cases hpc : (s.loc t).pc <;> rw [hpc] at hset <;> first | rfl | cases hset
  rw [hi.live, hpend, Nat.add_zero]

variable [DecidableEq T]

theorem inv_of_reach {s : Config T (Mem n) (Local n)}
    (hr : (machine lim).Reach Fresh Machine.unguarded s) : Inv lim s.mem s.loc :=
  hr.invariant (I := fun s => Inv lim s.mem s.loc) (fun _ h => h.inv)
    fun _ _ _ _ _ hi _ hnext => hi.step (next_step hnext)

/-- **The counts of both halves of the pool** are right, in every interleaving of what is done to
the workers with what is done to the sleep threads. -/
theorem live_accounts {sleeps : Limits}
    {s : Config T (Mem n × Mem n) (Local n × Local n)}
    (hr : ((machine lim).both (machine sleeps)).Reach (fun s => Fresh s.fst ∧ Fresh s.snd)
      Machine.unguarded s) :
    Accounted lim s.fst ∧ Accounted sleeps s.snd :=
  ⟨(inv_of_reach (hr.fst fun _ h => h.1)).accounted,
    (inv_of_reach (hr.snd fun _ h => h.2)).accounted⟩

end Result

/-- Two threads, and room for two in either half. -/
abbrev Pair := Config (Fin 2) (Mem 2 × Mem 2) (Local 2 × Local 2)

def empty : Mem 2 := ⟨0, 0, fun _ => .empty, fun _ => 0, fun _ => false, 0⟩

def pair : Pair := ⟨(empty, empty), fun _ => (⟨none, .idle⟩, ⟨none, .idle⟩)⟩

theorem fresh_pair : Fresh pair.fst ∧ Fresh pair.snd :=
  ⟨⟨rfl, fun _ => rfl, fun _ => rfl, rfl, fun _ => rfl⟩,
    ⟨rfl, fun _ => rfl, fun _ => rfl, rfl, fun _ => rfl⟩⟩

def limits : Limits := ⟨2, 1, 1, 1, 1⟩

/-- A worker is up, another start has reserved a place and found the first slot claimed, and a sleep
thread has been claimed a slot. -/
theorem live_accounts_pair : ∃ s : Pair,
    ((machine limits).both (machine limits)).Reach (fun s => Fresh s.fst ∧ Fresh s.snd)
      Machine.unguarded s ∧ s.mem.1.live = 2 ∧ count WorkerState.occupied s.mem.1.state = 1 ∧
    s.mem.2.live = 1 ∧ Accounted limits s.fst ∧ Accounted limits s.snd := by
  obtain ⟨s, hs, h1, hc, h2⟩ : ∃ s : Pair, ((machine limits).both (machine limits)).Reach
      (fun s => Fresh s.fst ∧ Fresh s.snd) Machine.unguarded s ∧ s.mem.1.live = 2 ∧
      count WorkerState.occupied s.mem.1.state = 1 ∧ s.mem.2.live = 1 :=
    (Machine.Reach.init fresh_pair).exists_of_run
      ((0, .inl (.start 2)) :: List.replicate 6 (0, .inl .go) ++
        [(1, .inl (.born 0)), (1, .inl .go), (0, .inl (.start 2))] ++
        List.replicate 4 (0, .inl .go) ++ (0, .inr (.start 1)) ::
        List.replicate 4 (0, .inr .go)) (by decide +kernel)
  exact ⟨s, hs, h1, hc, h2, live_accounts hs⟩

end Atap.Pool.Census
