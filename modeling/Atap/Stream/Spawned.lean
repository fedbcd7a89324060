import Atap.Interleave.Machine
import Atap.Slot.State
import Atap.Stream.Account

/-!
# A spawned receive that is stopped

A receive that is spawned is run by the executor, a step at a time, and a cancel or a timeout can
come at any point of its run. This module is one such task and its connection as a machine. The
receive itself is that of `RecvTask`, with every round of its loop a step of its own; around it are
`run`, `park_task` and the wakes, and the ways a task is stopped: `stop`, `timed_out` and `unpark`.
When sockets are ready and timers fire is left to the schedule, and so is whether the kernel watches
a socket it is asked to.

The **turn** at the task is in a queue, in the park, or in the hands of one thread, which has the
receive in hand or leaves it in the slot. A receive that is dropped gives back what it has read, so
nothing is lost as long as its bytes are in its buffer. What has left the buffer as an output is
`Mem.output`. It is dropped with the slot if the task was stopped before the output was published,
or before anybody took it: these bytes are gone (`stopped_with_output`).
-/

namespace Atap.Stream

open Function

/-- The slot of a receive, and its connection. -/
structure Mem where
  /-- `TaskData::state`. -/
  state : TaskState
  conn : Conn
  /-- `TaskData::task`. -/
  slot : Option Reading
  /-- `TaskData::parked`. -/
  parked : Bool
  /-- The task is in a queue. -/
  queued : Bool
  /-- The bytes that left the receive as its output. -/
  output : List UInt8
  deriving DecidableEq

/-- Where a thread stands in the code. -/
inductive Pc
  | idle
  /-- `run`, before `claim`. -/
  | claim
  /-- `run`, before `begin`. -/
  | begin (g : Reading)
  /-- `run`, turned away by `begin` and before the load of the state. -/
  | resumed (g : Reading)
  /-- `ErasedTask::run`, before `prepare`. -/
  | prepare (g : Reading)
  /-- `advance`, before `take_leftover`. -/
  | advance (g : Reading)
  /-- `advance`, at the head of its loop. -/
  | look (g : Reading) (moved : ℕ)
  /-- `advance`, before the read. -/
  | turn (g : Reading) (moved : ℕ)
  /-- `settle_recv`, before `put_back`. -/
  | failed (g : Reading)
  /-- `ErasedTask::run`, before the output is written. -/
  | done (g : Reading)
  /-- `run`, before the move to `Ready`. -/
  | publish (g : Reading)
  /-- `run`, before the task is dropped. -/
  | ended (g : Reading)
  /-- `park_task`, before `rearm`. -/
  | park (g : Reading)
  /-- `park_task`, before `park`. -/
  | parkFlag
  /-- `park_task`, before `watch_park`. -/
  | parkWatch
  /-- `park_task`, before the load of the state. -/
  | parkState
  /-- `wake_parked`, before `queue`. -/
  | queue
  | unpark
  /-- `take_down` or `timed_out`, before `claim`; `st` is the state the task is left in. -/
  | takeTask (st : TaskState)
  /-- `take_down` or `timed_out`, before the task is dropped. -/
  | dropTask (g : Reading) (st : TaskState)
  /-- `take_down` or `timed_out`, before the move. -/
  | settle (st : TaskState)
  /-- `stop`, before the load of the state. -/
  | stopLook
  /-- `stop`, before the exchange. -/
  | stopMove (saw : TaskState)
  /-- `timed_out`, before `claim_parked`. -/
  | claimPark
  /-- `timed_out`, before the move. -/
  | move
  deriving DecidableEq

inductive Act
  | go
  /-- The read that is next comes to this. -/
  | read (a : Answer)
  /-- The kernel or the pool turns down what it is handed. -/
  | refuse
  /-- A worker takes the task up. -/
  | pick
  /-- What the park watches happens. -/
  | wake
  | cancel
  /-- The timer of the run fires. -/
  | timeout
  /-- Somebody takes the output. -/
  | take
  deriving DecidableEq

/-- The receive `g` of a task, next to the connection. -/
def Mem.recv (m : Mem) (w : Want) (g : Reading) : RecvTask := ⟨m.conn, w, g⟩

/-- A step of the receive has come to `r`. -/
def Mem.settled (m : Mem) (t : RecvTask) : Except RuntimeError Step → Mem × Pc
  | .error _ => ({ m with conn := t.source }, .failed t.progress)
  | .ok (.done (.ok out)) => ({ m with conn := t.source, output := out }, .done t.progress)
  | .ok (.done (.error _)) => ({ m with conn := t.source }, .done t.progress)
  | .ok (.park _) => ({ m with conn := t.source }, .park t.progress)

/-- The steps of a receive in hand. -/
def recvStep (w : Want) (m : Mem) : Pc → Act → Option (Mem × Pc)
  | .prepare g, .go =>
    some ({ m with conn := (m.recv w g).prepare.source }, .advance (m.recv w g).prepare.progress)
  | .advance g, .go =>
    if g.started then some (m, .look g 0)
    else
      match (m.recv w { g with started := true }).takeLeftover with
      | (t, some out) => some (m.settled t (.ok (.done (.ok out))))
      | (t, none) => some ({ m with conn := t.source }, .look t.progress 0)
  | .look g moved, .go =>
    match (m.recv w g).look moved with
    | (t, some r) => some (m.settled t r)
    | (t, none) => some ({ m with conn := t.source }, .turn t.progress moved)
  | .turn g moved, .read a =>
    match (m.recv w g).turn a with
    | (t, .inl r) => some (m.settled t r)
    | (t, .inr n) => some ({ m with conn := t.source }, .look t.progress (moved + n))
  | .failed g, .go =>
    some ({ m with conn := (m.recv w g).putBack.source }, .done (m.recv w g).putBack.progress)
  | .ended g, .go => some ({ m with conn := (m.recv w g).putBack.source }, .idle)
  | .dropTask g st, .go => some ({ m with conn := (m.recv w g).putBack.source }, .settle st)
  | _, _ => none

/-- The steps of a run around the receive. -/
def runStep (m : Mem) : Pc → Act → Option (Mem × Pc)
  | .idle, .pick => if m.queued then some ({ m with queued := false }, .claim) else none
  | .claim, .go =>
    match m.slot with
    | some g => some ({ m with slot := none }, .begin g)
    | none => some (m, .idle)
  | .begin g, .go =>
    if m.state = .pending then some ({ m with state := .running }, .prepare g)
    else some (m, .resumed g)
  | .resumed g, .go => some (m, if m.state = .running then .advance g else .ended g)
  | .done g, .go => some (m, .publish g)
  | .publish g, .go =>
    some ({ m with state := if m.state = .running then .ready else m.state }, .ended g)
  | .park g, .go => some ({ m with slot := some g }, .parkFlag)
  | .parkFlag, .go => some ({ m with parked := true }, .parkWatch)
  | .parkWatch, .go => some (m, .parkState)
  | .parkWatch, .refuse => some (m, .unpark)
  | .parkState, .go => some (m, if m.state = .running then .idle else .unpark)
  | .idle, .wake => if m.parked then some ({ m with parked := false }, .queue) else none
  | .queue, .go => some ({ m with queued := true }, .idle)
  | .queue, .refuse => some (m, .takeTask .failed)
  | _, _ => none

/-- The steps of whoever stops the task, or takes its output. -/
def stopStep (m : Mem) : Pc → Act → Option (Mem × Pc)
  | .unpark, .go =>
    if m.parked then some ({ m with parked := false }, .takeTask .failed) else some (m, .idle)
  | .takeTask st, .go =>
    match m.slot with
    | some g => some ({ m with slot := none }, .dropTask g st)
    | none => some (m, .settle st)
  | .settle st, .go =>
    some ({ m with state := if m.state = .running then st else m.state }, .idle)
  | .idle, .cancel => some (m, .stopLook)
  | .stopLook, .go =>
    some (m, if m.state.stopReturns false then .idle else .stopMove m.state)
  | .stopMove saw, .go =>
    if m.state = saw then some ({ m with state := .cancelled }, .unpark) else some (m, .stopLook)
  | .idle, .timeout => some (m, .claimPark)
  | .claimPark, .go =>
    if m.parked then some ({ m with parked := false }, .takeTask .timedOut) else some (m, .move)
  | .move, .go =>
    if m.state = .running then some ({ m with state := .timedOut }, .unpark) else some (m, .idle)
  | .idle, .take => if m.state = .ready then some ({ m with state := .taken }, .idle) else none
  | _, _ => none

/-- One step of one thread. -/
def next (w : Want) (m : Mem) (pc : Pc) (a : Act) : Option (Mem × Pc) :=
  (recvStep w m pc a).or ((runStep m pc a).or (stopStep m pc a))

/-- A spawned receive for `w` as a machine. -/
def machine (w : Want) : Machine Mem Pc Act := ⟨next w⟩

/-- A receive just spawned, on the connection `c`. -/
structure Fresh {T : Type*} (c : Conn) (s : Config T Mem Pc) : Prop where
  state : s.mem.state = .pending
  conn : s.mem.conn = c
  slot : s.mem.slot = some .new
  parked : s.mem.parked = false
  queued : s.mem.queued = true
  output : s.mem.output = []
  loc : ∀ t, s.loc t = .idle

/-! ### Where the turn is, and what goes with it -/

/-- The thread has the turn at the task. -/
def Pc.hasTurn : Pc → Bool
  | .idle | .parkWatch | .parkState | .unpark | .stopLook | .stopMove _ | .claimPark
  | .move => false
  | _ => true

variable {T : Type*} {c : Conn} {w : Want} {m m' : Mem} {pc pc' : Pc} {a : Act} {g : Reading}

/-- A receive between two of its steps has all it took, and is part way if its run has begun. -/
structure Stored (c : Conn) (w : Want) (m : Mem) (g : Reading) : Prop where
  balanced : RecvTask.Balanced c [] (m.recv w g)
  output : m.output = []
  running : m.state = .running → RecvTask.Mid c [] (m.recv w g)

/-- A receive in hand has all it took. -/
structure InHand (c : Conn) (w : Want) (m : Mem) (g : Reading) : Prop where
  slot : m.slot = none
  balanced : RecvTask.Balanced c [] (m.recv w g)
  output : m.output = []

/-- The receive is over, with its output out and what else it took given back, or yet to be. -/
structure Over (c : Conn) (w : Want) (m : Mem) (g : Reading) : Prop where
  slot : m.slot = none
  balanced : RecvTask.Balanced c m.output (m.recv w g)

/-- What the thread that has the turn relies on. -/
def Held (c : Conn) (w : Want) (m : Mem) : Pc → Prop
  | .claim | .queue | .takeTask _ | .parkFlag => ∃ g, m.slot = some g ∧ Stored c w m g
  | .begin g | .resumed g => m.slot = none ∧ Stored c w m g
  | .prepare g | .failed g | .dropTask g _ => InHand c w m g
  | .advance g => InHand c w m g ∧ RecvTask.Between c [] (m.recv w g)
  | .look g _ => InHand c w m g ∧ (m.recv w g).Dry ∧ g.started = true
  | .turn g _ | .park g => InHand c w m g ∧ RecvTask.Mid c [] (m.recv w g)
  | .done g | .publish g | .ended g => Over c w m g
  | .settle _ => Over c w m .new
  | _ => True

/-- What a step of the thread that has the turn leaves: the turn is still with it, or at rest again,
or there is none any more. -/
inductive After (c : Conn) (w : Want) (m : Mem) (pc : Pc) : Prop
  | kept (ht : pc.hasTurn = true) (hq : m.queued = false) (hp : m.parked = false)
      (h : Held c w m pc)
  | rest (ht : pc.hasTurn = false) (hq : m.queued = !m.parked) (g : Reading)
      (hs : m.slot = some g) (h : Stored c w m g)
  | gone (ht : pc.hasTurn = false) (hq : m.queued = false) (hp : m.parked = false)
      (h : Over c w m .new)

theorem InHand.isOver (h : InHand c w m g) : Over c w m g :=
  ⟨h.slot, by rw [h.output]; exact h.balanced⟩

/-- A receive that is dropped gives back what it has read. -/
theorem Over.drop (h : Over c w m g) :
    Over c w { m with conn := (m.recv w g).putBack.source } .new := by
  refine ⟨h.slot, ?_⟩
  have hb := h.balanced.putBack
  exact ⟨hb.rest, hb.stream, hb.ending⟩

/-- What a step of the receive came to, put into the memory. -/
theorem After.settled {t : RecvTask} {r : Except RuntimeError Step} (hw : t.want = w)
    (hs : m.slot = none) (ho : m.output = []) (hq : m.queued = false) (hp : m.parked = false)
    (h : RecvTask.Settled c [] t r) : After c w (m.settled t r).1 (m.settled t r).2 := by
  subst hw
  rcases r with e | ((e | out) | f)
  · exact .kept rfl hq hp ⟨hs, h, ho⟩
  · exact .kept rfl hq hp ⟨hs, show RecvTask.Balanced c m.output _ by rw [ho]; exact h.1⟩
  · exact .kept rfl hq hp ⟨hs, h.1⟩
  · exact .kept rfl hq hp ⟨⟨hs, h.balanced, ho⟩, h⟩

theorem recvStep_after (hq : m.queued = false) (hp : m.parked = false) (h : Held c w m pc)
    (hn : recvStep w m pc a = some (m', pc')) : After c w m' pc' := by
  unfold recvStep at hn
  split at hn
  case h_1 g =>
    cases hn
    obtain ⟨hs, hb, ho⟩ := h
    have hb' := hb.putBack
    have hnew : RecvTask.Balanced c [] (m.recv w g).prepare := by
      have hm : RecvTask.Balanced c ([] ++ []) (m.recv w g).prepare := hb'.move rfl rfl
      exact hm
    exact .kept rfl hq hp ⟨⟨hs, hnew, ho⟩, hnew, .inl rfl⟩
  case h_2 g =>
    obtain ⟨⟨hs, hb, ho⟩, -, hbet⟩ := h
    split at hn
    case isTrue hst =>
      cases hn
      obtain hg | hm := hbet
      · rw [show g = .new from hg] at hst
        cases hst
      · exact .kept rfl hq hp ⟨⟨hs, hb, ho⟩, hm.dry, hst⟩
    case isFalse hst =>
      -- A receive that has not begun is a new one.
      have hg : g = .new := hbet.resolve_right fun hm => hst hm.started
      subst hg
      have hb' : RecvTask.Balanced c [] (m.recv w { Reading.new with started := true }) :=
        ⟨hb.rest, hb.stream, hb.ending⟩
      have hl := hb'.takeLeftover rfl
      have hwant := RecvTask.want_takeLeftover (t := m.recv w { Reading.new with started := true })
      have hstart :=
        RecvTask.started_takeLeftover (t := m.recv w { Reading.new with started := true })
      split at hn
      case h_1 t out hk =>
        rw [hk] at hl hwant
        cases hn
        have hprog : t.progress = { Reading.new with started := true } := by
          have h := RecvTask.progress_takeLeftover (congrArg Prod.snd hk)
          rwa [hk] at h
        have hset : RecvTask.Settled c [] t (.ok (.done (.ok out))) :=
          ⟨hl, congrArg Reading.got hprog⟩
        exact .settled hwant hs ho hq hp hset
      case h_2 t hk =>
        cases hn
        have hdry := RecvTask.dry_takeLeftover
          (t := m.recv w { Reading.new with started := true }) (by rw [hk])
        rw [hk] at hl hwant hstart hdry
        obtain rfl : t.want = w := hwant
        have hb' : RecvTask.Balanced c [] t := by simpa using hl
        exact .kept rfl hq hp ⟨⟨hs, hb', ho⟩, hdry, hstart⟩
  case h_3 g moved =>
    obtain ⟨⟨hs, hb, ho⟩, hdry, hst⟩ := h
    have hl := RecvTask.look_spec moved hb hdry hst
    have hwant : ((m.recv w g).look moved).1.want = w := RecvTask.want_look
    split at hn
    case h_1 t r hk =>
      rw [hk] at hl hwant
      exact yield hn (.settled hwant hs ho hq hp hl)
    case h_2 t hk =>
      rw [hk] at hl hwant
      cases hn
      obtain rfl : t.want = w := hwant
      exact .kept rfl hq hp ⟨⟨hs, hl.balanced, ho⟩, hl⟩
  case h_4 g moved b =>
    obtain ⟨⟨hs, hb, ho⟩, hm⟩ := h
    have hl := hm.turn (a := b)
    have hwant := RecvTask.want_turn (t := m.recv w g) (a := b)
    split at hn
    case h_1 t r hk =>
      rw [hk] at hl hwant
      exact yield hn (.settled hwant hs ho hq hp hl)
    case h_2 t n hk =>
      rw [hk] at hl hwant
      cases hn
      obtain rfl : t.want = w := hwant
      exact .kept rfl hq hp ⟨⟨hs, hl.balanced, ho⟩, hl.dry, hl.started⟩
  case h_5 g =>
    cases hn
    obtain ⟨hs, hb, ho⟩ := h
    exact .kept rfl hq hp ⟨hs, show RecvTask.Balanced c m.output _ by rw [ho]; exact hb.putBack⟩
  case h_6 g =>
    exact yield hn (.gone rfl hq hp h.drop)
  case h_7 g st =>
    exact yield hn (.kept rfl hq hp h.isOver.drop)
  case h_8 => cases hn

theorem runStep_after (hq : m.queued = false) (hp : m.parked = false) (ht : pc.hasTurn = true)
    (h : Held c w m pc) (hn : runStep m pc a = some (m', pc')) : After c w m' pc' := by
  unfold runStep at hn
  split at hn
  case h_2 =>
    obtain ⟨g, hs, hb, ho, hr⟩ := h
    rw [hs] at hn
    exact yield hn (.kept rfl hq hp ⟨rfl, hb, ho, hr⟩)
  case h_3 g =>
    obtain ⟨hs, hb, ho, hr⟩ := h
    split at hn
    · exact yield hn (.kept rfl hq hp ⟨hs, hb, ho⟩)
    · exact yield hn (.kept rfl hq hp ⟨hs, hb, ho, hr⟩)
  case h_4 g =>
    cases hn
    obtain ⟨hs, hb, ho, hr⟩ := h
    split
    case isTrue hrun => exact .kept rfl hq hp ⟨⟨hs, hb, ho⟩, hb, .inr (hr hrun)⟩
    case isFalse => exact .kept rfl hq hp (InHand.isOver ⟨hs, hb, ho⟩)
  case h_5 g | h_14 => exact yield hn (.kept rfl hq hp h)
  case h_6 g => exact yield hn (.kept rfl hq hp ⟨h.slot, h.balanced⟩)
  case h_7 g =>
    cases hn
    obtain ⟨⟨hs, hb, ho⟩, hm⟩ := h
    exact .kept rfl hq hp ⟨g, rfl, hb, ho, fun _ => hm⟩
  case h_8 =>
    cases hn
    obtain ⟨g, hs, hb, ho, hr⟩ := h
    exact .rest rfl (by rw [hq]; rfl) g hs ⟨hb, ho, hr⟩
  case h_13 =>
    cases hn
    obtain ⟨g, hs, hb, ho, hr⟩ := h
    exact .rest rfl (by rw [hp]; rfl) g hs ⟨hb, ho, hr⟩
  case h_15 => cases hn
  all_goals cases ht

theorem stopStep_after (hq : m.queued = false) (hp : m.parked = false) (ht : pc.hasTurn = true)
    (h : Held c w m pc) (hn : stopStep m pc a = some (m', pc')) : After c w m' pc' := by
  unfold stopStep at hn
  split at hn
  case h_2 st =>
    obtain ⟨g, hs, hb, ho, hr⟩ := h
    rw [hs] at hn
    exact yield hn (.kept rfl hq hp ⟨rfl, hb, ho⟩)
  case h_3 st => exact yield hn (.gone rfl hq hp ⟨h.slot, h.balanced⟩)
  case h_11 => cases hn
  all_goals cases ht

/-- What the thread that has the turn can do. -/
theorem next_after (hq : m.queued = false) (hp : m.parked = false) (ht : pc.hasTurn = true)
    (h : Held c w m pc) (hn : next w m pc a = some (m', pc')) : After c w m' pc' := by
  simp only [next, Option.or_eq_some_iff] at hn
  rcases hn with hn | ⟨-, hn | ⟨-, hn⟩⟩
  · exact recvStep_after hq hp h hn
  · exact runStep_after hq hp ht h hn
  · exact stopStep_after hq hp ht h hn

/-- What a thread without the turn can do: move the state, not to `Running`, or take the turn from
where it rests. -/
inductive Aside (m : Mem) : Mem → Pc → Prop
  | moved (st : TaskState) (hst : st = .running → m.state = .running) {pc : Pc}
      (ht : pc.hasTurn = false) : Aside m { m with state := st } pc
  | picked (h : m.queued = true) : Aside m { m with queued := false } .claim
  | woken (h : m.parked = true) : Aside m { m with parked := false } .queue
  | claimed (h : m.parked = true) (st : TaskState) :
      Aside m { m with parked := false } (.takeTask st)

theorem Aside.same {pc : Pc} (ht : pc.hasTurn = false) : Aside m m pc := .moved m.state id ht

theorem next_aside (ht : pc.hasTurn = false) (hn : next w m pc a = some (m', pc')) :
    Aside m m' pc' := by
  simp only [next, Option.or_eq_some_iff] at hn
  rcases hn with hn | ⟨-, hn | ⟨-, hn⟩⟩
  · unfold recvStep at hn
    split at hn
    case h_8 => cases hn
    all_goals cases ht
  · unfold runStep at hn
    split at hn
    case h_1 => exact yield_guard hn .picked
    case h_9 | h_10 => exact yield hn (.same rfl)
    case h_11 => exact yield hn (.same (by split <;> rfl))
    case h_12 => exact yield_guard hn .woken
    case h_15 => cases hn
    all_goals cases ht
  · unfold stopStep at hn
    split at hn
    case h_1 | h_8 => exact yield_ite hn (fun hc => .claimed hc _) fun _ => .same rfl
    case h_4 | h_7 => exact yield hn (.same rfl)
    case h_5 => exact yield hn (.same (by split <;> rfl))
    case h_6 => exact yield_ite hn (fun _ => .moved .cancelled nofun rfl) fun _ => .same rfl
    case h_9 => exact yield_ite hn (fun _ => .moved .timedOut nofun rfl) fun _ => .same rfl
    case h_10 => exact yield_guard hn fun _ => .moved .taken nofun rfl
    case h_11 => cases hn
    all_goals cases ht

/-- **Where the turn is**: at rest with the receive in the slot, with one thread, or nowhere. -/
inductive Sound (c : Conn) (w : Want) (m : Mem) (loc : T → Pc) : Prop
  | rest (hl : ∀ u, (loc u).hasTurn = false) (hq : m.queued = !m.parked) (g : Reading)
      (hs : m.slot = some g) (h : Stored c w m g)
  | held (t : T) (hl : ∀ u, u ≠ t → (loc u).hasTurn = false) (ht : (loc t).hasTurn = true)
      (hq : m.queued = false) (hp : m.parked = false) (h : Held c w m (loc t))
  | gone (hl : ∀ u, (loc u).hasTurn = false) (hq : m.queued = false) (hp : m.parked = false)
      (h : Over c w m .new)

theorem Fresh.sound {s : Config T Mem Pc} (h : Fresh c s) : Sound c w s.mem s.loc := by
  refine .rest (fun u => by rw [h.loc u]; rfl) (by rw [h.queued, h.parked]; rfl) .new h.slot ?_
  refine ⟨?_, h.output, fun hr => ?_⟩
  · rw [Mem.recv, h.conn]
    exact ⟨rfl, rfl, rfl⟩
  · rw [h.state] at hr
    cases hr

theorem Stored.state {st : TaskState} (h : Stored c w m g)
    (hst : st = .running → m.state = .running) : Stored c w { m with state := st } g :=
  ⟨h.balanced, h.output, fun hr => h.running (hst hr)⟩

/-- Whoever has the turn does not mind a move of the state. -/
theorem Held.state {st : TaskState} (h : Held c w m pc)
    (hst : st = .running → m.state = .running) : Held c w { m with state := st } pc := by
  cases pc with
  | claim | queue | takeTask | parkFlag =>
    obtain ⟨g, hs, hg⟩ := h
    exact ⟨g, hs, hg.state hst⟩
  | begin | resumed => exact ⟨h.1, h.2.state hst⟩
  | prepare | failed | dropTask => exact ⟨h.slot, h.balanced, h.output⟩
  | advance | look | turn | park => exact ⟨⟨h.1.slot, h.1.balanced, h.1.output⟩, h.2⟩
  | done | publish | ended | settle => exact ⟨h.slot, h.balanced⟩
  | idle | parkWatch | parkState | unpark | stopLook | stopMove | claimPark | move => trivial

section Step

variable [DecidableEq T] {loc : T → Pc} {t : T}

/-- A thread comes to have the turn, or goes on with it. -/
theorem Sound.update (hl : ∀ u, u ≠ t → (loc u).hasTurn = false) (ht : pc.hasTurn = true)
    (hq : m.queued = false) (hp : m.parked = false) (h : Held c w m pc) :
    Sound c w m (Function.update loc t pc) := by
  refine .held t (fun u hu => ?_) ?_ hq hp ?_
  · rw [update_of_ne hu]; exact hl u hu
  · rw [update_self]; exact ht
  · rw [update_self]; exact h

/-- A thread without the turn stays without it. -/
theorem hasTurn_update (ht : pc.hasTurn = false) (hl : ∀ u, u ≠ t → (loc u).hasTurn = false)
    (u : T) : (update loc t pc u).hasTurn = false :=
  forall_update (P := (Pc.hasTurn · = false)) ht hl u

/-- The thread that has the turn takes a step. -/
theorem Sound.own (h : Sound c w m loc) (ht : (loc t).hasTurn = true)
    (hn : next w m (loc t) a = some (m', pc')) : Sound c w m' (Function.update loc t pc') := by
  cases h with
  | rest hl | gone hl => rw [hl t] at ht; cases ht
  | held v hl hv hq hp h =>
    obtain rfl : t = v := by
      by_contra hne
      rw [hl t hne] at ht
      cases ht
    cases next_after hq hp ht h hn with
    | kept hpc hq' hp' h' => exact .update hl hpc hq' hp' h'
    | rest hpc hq' g hs h' => exact .rest (hasTurn_update hpc hl) hq' g hs h'
    | gone hpc hq' hp' h' => exact .gone (hasTurn_update hpc hl) hq' hp' h'

/-- A thread without the turn takes a step: it leaves the receive alone, or takes the turn from
where it rests. -/
theorem Sound.aside (h : Sound c w m loc) (ht : (loc t).hasTurn = false)
    (hm : Aside m m' pc') : Sound c w m' (Function.update loc t pc') := by
  cases h with
  | rest hl hq g hs h =>
    cases hm with
    | moved st hst hpc => exact .rest (hasTurn_update hpc fun u _ => hl u) hq g hs (h.state hst)
    | picked hqt =>
      have hp : m.parked = false := by simpa [hqt] using hq
      exact .update (fun u _ => hl u) rfl rfl hp ⟨g, hs, h.balanced, h.output, h.running⟩
    | woken hpt =>
      have hqf : m.queued = false := by simpa [hpt] using hq
      exact .update (fun u _ => hl u) rfl hqf rfl ⟨g, hs, h.balanced, h.output, h.running⟩
    | claimed hpt st =>
      have hqf : m.queued = false := by simpa [hpt] using hq
      exact .update (fun u _ => hl u) rfl hqf rfl ⟨g, hs, h.balanced, h.output, h.running⟩
  | held v hl hv hq hp h =>
    cases hm with
    | moved st hst hpc =>
      have hne : v ≠ t := fun hvt => by
        rw [hvt, ht] at hv
        cases hv
      refine .held v (fun u hu => ?_) ?_ hq hp ?_
      · rcases eq_or_ne u t with rfl | hut
        · rw [update_self]; exact hpc
        · rw [update_of_ne hut]; exact hl u hu
      · rw [update_of_ne hne]; exact hv
      · rw [update_of_ne hne]; exact h.state hst
    | picked hqt => rw [hq] at hqt; cases hqt
    | woken hpt => rw [hp] at hpt; cases hpt
    | claimed hpt => rw [hp] at hpt; cases hpt
  | gone hl hq hp h =>
    cases hm with
    | moved st hst hpc =>
      exact .gone (hasTurn_update hpc fun u _ => hl u) hq hp ⟨h.slot, h.balanced⟩
    | picked hqt => rw [hq] at hqt; cases hqt
    | woken hpt => rw [hp] at hpt; cases hpt
    | claimed hpt => rw [hp] at hpt; cases hpt

/-- **A step keeps the turn in one place**, and with it everything the receive took. -/
theorem Sound.step (h : Sound c w m loc) (hn : next w m (loc t) a = some (m', pc')) :
    Sound c w m' (Function.update loc t pc') := by
  by_cases ht : (loc t).hasTurn = true
  · exact h.own ht hn
  · exact h.aside (Bool.not_eq_true _ ▸ ht) (next_aside (Bool.not_eq_true _ ▸ ht) hn)

end Step

/-! ### A stop that comes in time -/

/-- The condition on a step: a task is stopped while no output has bytes in it, and a receive gets
its output while its task is `Running`. -/
def Timely (w : Want) (s : Config T Mem Pc) (t : T) (a : Act) : Prop :=
  ∀ r ∈ next w s.mem (s.loc t) a,
    (r.1.state.stopped = true → s.mem.state.stopped = true ∨ s.mem.output = []) ∧
    (r.1.output ≠ s.mem.output → s.mem.state = .running)

instance (w : Want) (s : Config T Mem Pc) (t : T) (a : Act) : Decidable (Timely w s t a) :=
  inferInstanceAs (Decidable (∀ r ∈ next w s.mem (s.loc t) a, _ ∧ _))

theorem state_settled (m : Mem) (t : RecvTask) (r : Except RuntimeError Step) :
    (m.settled t r).1.state = m.state := by
  rcases r with e | ((e | out) | f) <;> rfl

/-- A step of the receive leaves the state alone. -/
theorem state_recvStep (hn : recvStep w m pc a = some (m', pc')) : m'.state = m.state := by
  unfold recvStep at hn
  split at hn
  case h_2 =>
    split at hn
    · cases hn
      rfl
    · split at hn
      · cases hn
        rfl
      · cases hn
        rfl
  case h_3 | h_4 =>
    split at hn
    · obtain ⟨rfl, rfl⟩ := Prod.mk.inj (Option.some.inj hn)
      exact state_settled ..
    · cases hn
      rfl
  case h_8 => cases hn
  all_goals
    cases hn
    rfl

/-- Only the receive gets an output. -/
theorem output_runStep (hn : runStep m pc a = some (m', pc')) : m'.output = m.output := by
  unfold runStep at hn
  split at hn
  case h_1 | h_12 =>
    obtain ⟨-, hn⟩ := Option.ite_none_right_eq_some.mp hn
    cases hn
    rfl
  case h_2 | h_3 =>
    split at hn
    all_goals
      cases hn
      rfl
  case h_15 => cases hn
  all_goals
    cases hn
    rfl

theorem output_stopStep (hn : stopStep m pc a = some (m', pc')) : m'.output = m.output := by
  unfold stopStep at hn
  split at hn
  case h_1 | h_2 | h_6 | h_8 | h_9 =>
    split at hn
    all_goals
      cases hn
      rfl
  case h_10 =>
    obtain ⟨-, hn⟩ := Option.ite_none_right_eq_some.mp hn
    cases hn
    rfl
  case h_11 => cases hn
  all_goals
    cases hn
    rfl

theorem state_of_output_ne (hn : next w m pc a = some (m', pc')) (ho : m'.output ≠ m.output) :
    m'.state = m.state := by
  simp only [next, Option.or_eq_some_iff] at hn
  rcases hn with hn | ⟨-, hn | ⟨-, hn⟩⟩
  · exact state_recvStep hn
  · exact absurd (output_runStep hn) ho
  · exact absurd (output_stopStep hn) ho

section Reach

variable [DecidableEq T] {s : Config T Mem Pc}

theorem sound_of_reach {Ok : Config T Mem Pc → T → Act → Prop}
    (hs : (machine w).Reach (Fresh c) Ok s) : Sound c w s.mem s.loc :=
  hs.invariant (I := fun s => Sound c w s.mem s.loc) (fun _ h => h.sound)
    fun _ _ _ _ _ h _ hn => h.step hn

/-- A task that was stopped has no output. -/
theorem output_of_reach (hs : (machine w).Reach (Fresh c) (Timely w) s)
    (hst : s.mem.state.stopped = true) : s.mem.output = [] := by
  refine hs.invariant (I := fun s => s.mem.state.stopped = true → s.mem.output = [])
    (fun _ h _ => h.output) (fun s t a m' pc' hi hg hn hst => ?_) hst
  obtain ⟨hstop, hout⟩ := hg _ hn
  by_cases ho : m'.output = s.mem.output
  · rw [show ({ mem := m', loc := _ } : Config T Mem Pc).mem.output = m'.output from rfl, ho]
    exact (hstop hst).elim hi id
  · -- An output comes while the task is `Running`, and the step leaves it so.
    have hrun : m'.state = .running := (state_of_output_ne hn ho).trans (hout ho)
    rw [show ({ mem := m', loc := _ } : Config T Mem Pc).mem.state = m'.state from rfl, hrun] at hst
    cases hst

/-- Nobody has the turn at the task, or is to have it. -/
def Idle (s : Config T Mem Pc) : Prop :=
  s.mem.queued = false ∧ s.mem.parked = false ∧ ∀ t, (s.loc t).hasTurn = false

/-- **A receive that is stopped gives everything back.** For every receive and every connection, in
every run on which a stop comes in time: once the run of a task that was cancelled or timed out is
over, what is left over and unread is what was when it was spawned. -/
theorem stopped_gives_back (hs : (machine w).Reach (Fresh c) (Timely w) s)
    (hst : s.mem.state.stopped = true) (hidle : Idle s) :
    s.mem.conn.leftover ++ s.mem.conn.unread = c.leftover ++ c.unread := by
  have ho := output_of_reach hs hst
  cases sound_of_reach hs with
  | rest hl hq => rw [hidle.1, hidle.2.1] at hq; cases hq
  | held t hl ht => rw [hidle.2.2 t] at ht; cases ht
  | gone hl hq hp h =>
    have hr := h.balanced.rest
    rw [ho] at hr
    exact hr

end Reach

/-! ### A `recv_exact` of two bytes -/

/-- A connection with two bytes to come. -/
def twoBytes : Conn := ⟨[], [], [1, 2], none⟩

/-- A worker and a user, with a receive just spawned. -/
def spawned : Config (Fin 2) Mem Pc where
  mem := ⟨.pending, twoBytes, some .new, false, true, []⟩
  loc := fun _ => .idle

theorem spawned_fresh : Fresh twoBytes spawned := by
  constructor <;> intros <;> rfl

/-- The worker takes the task up, and comes to its first read. -/
def begun : List (Fin 2 × Act) := (0, .pick) :: List.replicate 5 (0, .go)

/-- The worker reads one byte and parks the task. -/
def parked : List (Fin 2 × Act) :=
  [(0, .read (.ready 0)), (0, .go), (0, .read (.again .read))] ++ List.replicate 4 (0, .go)

/-- The user cancels the task, and takes it down if it is parked. -/
def cancelled : List (Fin 2 × Act) := (1, .cancel) :: List.replicate 3 (1, .go)

/-- The user drops the receive. -/
def down : List (Fin 2 × Act) := List.replicate 3 (1, .go)

/-- A receive that is cancelled in its park. -/
theorem stopped_gives_back_parked : ∃ s : Config (Fin 2) Mem Pc,
    (machine (.exact 2)).Reach (Fresh twoBytes) (Timely (.exact 2)) s ∧
      s.mem.state = .cancelled ∧ s.mem.conn.leftover = [1] ∧
      s.mem.conn.leftover ++ s.mem.conn.unread = [1, 2] := by
  obtain ⟨s, hs, hst, hl, hq, hp, ht⟩ : ∃ s : Config (Fin 2) _ _,
      (machine (.exact 2)).Reach (Fresh twoBytes) (Timely (.exact 2)) s ∧
      s.mem.state = .cancelled ∧ s.mem.conn.leftover = [1] ∧ s.mem.queued = false ∧
      s.mem.parked = false ∧ ∀ t, (s.loc t).hasTurn = false :=
    (Machine.Reach.init spawned_fresh).exists_of_run (begun ++ parked ++ cancelled ++ down)
      (by decide +kernel)
  exact ⟨s, hs, hst, hl, stopped_gives_back hs (by rw [hst]; rfl) ⟨hq, hp, ht⟩⟩

/-- The worker reads both bytes, and has them as an output. -/
def received : List (Fin 2 × Act) := [(0, .read (.ready 1)), (0, .go)]

/-- The worker publishes the output if it can, and drops the task. -/
def published : List (Fin 2 × Act) := List.replicate 3 (0, .go)

/-- After the schedule the task reads `Cancelled`, its run is over, and neither of the two bytes is
left over or unread. -/
def LosesBytes (sched : List (Fin 2 × Act)) : Prop :=
  ∃ s : Config (Fin 2) Mem Pc,
    (machine (.exact 2)).run Machine.unguarded spawned sched = some s ∧
    (machine (.exact 2)).Reach (Fresh twoBytes) Machine.unguarded s ∧
    s.mem.state = .cancelled ∧ Idle s ∧
    twoBytes.leftover ++ twoBytes.unread = [1, 2] ∧
    s.mem.conn.leftover ++ s.mem.conn.unread = []

theorem losesBytes_of_run {sched : List (Fin 2 × Act)}
    (h : ((machine (.exact 2)).run Machine.unguarded spawned sched).any (fun s =>
      s.mem.state == .cancelled && !s.mem.queued && !s.mem.parked &&
        decide (∀ t, (s.loc t).hasTurn = false) &&
        s.mem.conn.leftover ++ s.mem.conn.unread == []) = true) : LosesBytes sched := by
  obtain ⟨s, hr, hp⟩ := (Option.any_eq_true _ _).mp h
  simp only [Bool.and_eq_true, beq_iff_eq, Bool.not_eq_true', decide_eq_true_eq] at hp
  obtain ⟨⟨⟨⟨hst, hq⟩, hp⟩, ht⟩, hb⟩ := hp
  exact ⟨s, hr, Machine.Reach.run (.init spawned_fresh) hr, hst, ⟨hq, hp, ht⟩, rfl, hb⟩

/-- **Bytes that are gone.** The cancel comes after the receive has its output and before that is
published, or after it is published and before anybody takes it. -/
theorem stopped_with_output :
    LosesBytes (begun ++ received ++ cancelled ++ published) ∧
      LosesBytes (begun ++ received ++ published ++ cancelled) :=
  ⟨losesBytes_of_run (by decide +kernel), losesBytes_of_run (by decide +kernel)⟩

end Atap.Stream
