import Atap.Slot.Handshake

/-!
# The payload of one slot

A slot's output sits in memory guarded by three words: `state`, `filled` and `readers`. This
module is the slot as a machine of indivisible steps: every atomic operation, every write of
the payload, every read-out and every drop in place is one step, taken by any thread that
holds a listener.

The programs, by function:

* `run` (`executor.rs`) for a task kept in the slot, and `publish` for a series slot that the
  series' runs write into: `begin` with its `recycle`, the payload write, `fill`, and the move
  from `running` to `ready`;
* `enter_read` / `leave_read` around a clone;
* `take_result_until` and `poll_take`: `claim_result`, `empty`, and the move out;
* `stop` for a cancel, a timeout or a write-off, the plain store of `failed`, and the take
  down of a task that waits in the slot;
* `add_listener` / `drop_listener`, with `destroy` by the last one out.

`writes`, `moves` and `drops` are a history of what was done with each value written; no step
reads them. What runs between these steps (wakes, timers, registrations, queues) touches none
of the words here. Whether a repeat's bound is reached, whether a run parks, and which value
it writes are left to the schedule.
-/

namespace Atap.Slot

/-- A value written into the payload, stamped with the number of writes before it. -/
structure Written (α : Type*) where
  serial : ℕ
  value : α
  deriving DecidableEq

/-- The payload, whether the slot owns what is in it, and the history of each value
written. -/
structure Store (α : Type*) where
  filled : Bool
  /-- The bytes of the payload: the value last written there, moved out or not. -/
  payload : Option (Written α)
  /-- How many values were ever written. -/
  writes : ℕ
  /-- How often each value was moved out. -/
  moves : ℕ → ℕ
  /-- How often each value was dropped in place. -/
  drops : ℕ → ℕ

/-- One slot: its header words and its payload. -/
structure Mem (α : Type*) extends Words, Store α where
  /-- The kind in the `kind` byte. -/
  kind : TaskKind
  /-- The wait bit of the `kind` byte: `takes_input`. -/
  takesInput : Bool

/-- Where a thread stands in the code. -/
inductive Pc (α : Type*)
  /-- Holds no listener, so the slot is out of its reach. -/
  | out
  /-- Holds a listener and is inside none of the programs. -/
  | idle
  /-- `begin`, before the exchange from `Pending`. -/
  | beginPending (v : Via)
  /-- `begin`, before the look at the kind. -/
  | beginKind (v : Via)
  /-- `begin`, before the exchange from `Ready`. -/
  | beginReady (v : Via)
  /-- `begin`, before the exchange from `Taken`. -/
  | beginTaken (v : Via)
  /-- `begin` returned `false`. -/
  | turnedAway (v : Via)
  /-- `recycle`, waiting the readers out. -/
  | recycleWait (v : Via)
  /-- `recycle`, before the swap of `filled`. -/
  | recycleSwap (v : Via)
  /-- `recycle`, before the drop of the old value. -/
  | recycleDrop (v : Via)
  /-- Owns the slot for a run, before the payload is written. -/
  | running (v : Via)
  /-- The payload is written, before `fill`. -/
  | wrote (v : Via)
  /-- Before the exchange from `Running` to `Ready`. -/
  | publishing (v : Via)
  /-- The output is published; `run` decides what becomes of the task. -/
  | published (v : Via)
  /-- The task panicked, before the exchange from `Running` to `Failed`. -/
  | panicked
  /-- `enter_read`: counted in `readers`, the state not looked at yet. -/
  | entering
  /-- `enter_read` returned `true` and found this in the payload. -/
  | reading (saw : Option (Written α))
  /-- `enter_read`, before the count is taken back. -/
  | backingOut
  /-- `claim_result` moved the state to `Taken` over this payload and waits the readers
  out. -/
  | takeWait (won : Option (Written α))
  /-- Before `empty`. -/
  | takeEmpty (won : Option (Written α))
  /-- Before the move of the payload. -/
  | takeMove (won : Option (Written α))
  /-- The take is over with this value. -/
  | took (won got : Option (Written α))
  /-- `stop`, before the load of the state. -/
  | stopLook (dest : Ending)
  /-- `stop`, before the load of the kind. -/
  | stopKind (dest : Ending) (saw : TaskState)
  /-- `stop`, before the exchange from the state it saw. -/
  | stopMove (dest : Ending) (saw : TaskState)
  /-- `destroy`, before the task is claimed. -/
  | destroyTask
  /-- `destroy`, before the load of `filled`. -/
  | destroyLook
  /-- `destroy`, before the drop of the output nobody took. -/
  | destroyDrop
  /-- `destroy`, before the store of `Free`. -/
  | destroyFree
  deriving DecidableEq

inductive Act (α : Type*)
  | go
  /-- A handle is cloned for this thread: `add_listener`. -/
  | join
  /-- `drop_listener`. -/
  | leave
  | run
  | publish
  | read
  | take
  /-- `stop` with `Cancelled` or `TimedOut`, or `write_off` with `Failed`. -/
  | stop (dest : Ending)
  /-- The plain store of `Failed` for a task nothing is left to run. -/
  | fail
  /-- The task is claimed out of the slot and dropped: `unpark`, `finish_waiting`, and the
  timeout of a parked run. -/
  | takeDown
  /-- `finish_series` for a series whose bounds are reached. -/
  | endSeries
  /-- The run is done with this output. -/
  | done (x : α)
  /-- The run parks. -/
  | park
  /-- The run panics. -/
  | panic
  /-- The thread goes down inside the run. -/
  | die
  /-- The bounds of a repeat allow another run. -/
  | again
  /-- The bounds of a repeat are reached. -/
  | last
  deriving DecidableEq

variable {α : Type*}

/-- The history after the value in the payload was moved out. -/
def Store.moveOut (m : Store α) : Store α where
  __ := m
  moves :=
    match m.payload with
    | some x => Function.update m.moves x.serial (m.moves x.serial + 1)
    | none => m.moves

/-- The history after the value in the payload was dropped in place. -/
def Store.dropInPlace (m : Store α) : Store α where
  __ := m
  drops :=
    match m.payload with
    | some x => Function.update m.drops x.serial (m.drops x.serial + 1)
    | none => m.drops

/-- The payload after `x` was written over it. -/
def Store.write (m : Store α) (x : α) : Store α :=
  { m with payload := some ⟨m.writes, x⟩, writes := m.writes + 1 }

section Store

variable {m : Store α} {k : ℕ}

theorem Store.moveOut_moves (h : ∀ x, m.payload = some x → x.serial ≠ k) :
    m.moveOut.moves k = m.moves k := by
  unfold Store.moveOut
  cases hp : m.payload with
  | none => rfl
  | some x => exact Function.update_of_ne (h x hp).symm _ _

theorem Store.dropInPlace_drops (h : ∀ x, m.payload = some x → x.serial ≠ k) :
    m.dropInPlace.drops k = m.drops k := by
  unfold Store.dropInPlace
  cases hp : m.payload with
  | none => rfl
  | some x => exact Function.update_of_ne (h x hp).symm _ _

end Store

/-- What a thread with a listener and no program under way starts. A `run` claims the task
with a swap and returns if there is none; `publish` is only called with a series slot. -/
def start (m : Mem α) : Act α → Option (Mem α × Pc α)
  | .run => if m.task then some ({ m with task := false }, .beginPending .run) else some (m, .idle)
  | .publish => if m.prototype then some (m, .beginPending .publish) else none
  | .read => some ({ m with readers := fetchAdd 32 m.readers }, .entering)
  | .take =>
    if m.state = .ready then some ({ m with state := .taken }, .takeWait m.payload)
    else some (m, .idle)
  | .stop dest => some (m, .stopLook dest)
  | .fail => some ({ m with state := .failed }, .idle)
  | .takeDown => some ({ m with task := false }, .idle)
  | .endSeries => some ({ m with kind := .once }, .idle)
  | .leave =>
    some ({ m with listeners := fetchSub 32 m.listeners },
      if m.listeners = 1 then .destroyTask else .out)
  | _ => none

/-- How a run that owns the slot ends. Only `run` can park, panic or go down here: `publish`
is called with the value in hand. -/
def outcome (m : Mem α) : Via → Act α → Option (Mem α × Pc α)
  | v, .done x => some ({ m with toStore := m.write x }, .wrote v)
  | .run, .park => some ({ m with task := true }, .idle)
  | .run, .panic => some (m, .panicked)
  | .run, .die => some (m, .idle)
  | _, _ => none

/-- What `run` does with the task after its output is published: a task that takes gives and
a repeat with runs left go back into the slot, a repeat at its bound becomes `once`. -/
def settle (m : Mem α) : Via → Act α → Option (Mem α × Pc α)
  | .publish, .go => some (m, .idle)
  | .run, .again =>
    if m.kind.repeats || m.takesInput then some ({ m with task := true }, .idle)
    else some (m, .idle)
  | .run, .last =>
    if m.takesInput then some ({ m with task := true }, .idle)
    else some ({ m with kind := .once }, .idle)
  | _, _ => none

/-- The next step of a program already under way. -/
def advance (m : Mem α) : Pc α → Option (Mem α × Pc α)
  | .beginPending v =>
    if m.state = .pending then some ({ m with state := .running }, .running v)
    else some (m, .beginKind v)
  | .beginKind v =>
    if m.kind.repeats || m.takesInput then some (m, .beginReady v) else some (m, .turnedAway v)
  | .beginReady v =>
    if m.state = .ready then some ({ m with state := .running }, .recycleWait v)
    else some (m, .beginTaken v)
  | .beginTaken v =>
    if m.state = .taken then some ({ m with state := .running }, .recycleWait v)
    else some (m, .turnedAway v)
  -- Only a task back from a park is turned away while still `running`, and carries on.
  | .turnedAway .run => if m.state = .running then some (m, .running .run) else some (m, .idle)
  | .turnedAway .publish => some (m, .idle)
  | .recycleWait v => if 0 < m.readers then some (m, .recycleWait v) else some (m, .recycleSwap v)
  | .recycleSwap v =>
    if m.filled then some ({ m with filled := false }, .recycleDrop v) else some (m, .running v)
  | .recycleDrop v => some ({ m with toStore := m.dropInPlace }, .running v)
  | .wrote v => some ({ m with filled := true }, .publishing v)
  | .publishing v =>
    if m.state = .running then some ({ m with state := .ready }, .published v)
    else some (m, .idle)
  | .panicked =>
    if m.state = .running then some ({ m with state := .failed }, .idle) else some (m, .idle)
  | .entering => if m.state = .ready then some (m, .reading m.payload) else some (m, .backingOut)
  | .reading _ => some ({ m with readers := fetchSub 32 m.readers }, .idle)
  | .backingOut => some ({ m with readers := fetchSub 32 m.readers }, .idle)
  | .takeWait won => if 0 < m.readers then some (m, .takeWait won) else some (m, .takeEmpty won)
  | .takeEmpty won => some ({ m with filled := false }, .takeMove won)
  | .takeMove won => some ({ m with toStore := m.moveOut }, .took won m.payload)
  | .took _ _ => some (m, .idle)
  | .stopLook dest => some (m, .stopKind dest m.state)
  | .stopKind dest saw =>
    -- A one shot that has been taken is finished for `stop`, though not for `write_off`.
    if saw.isOver || (saw = .taken && !m.kind.repeats && dest != .failed) then some (m, .idle)
    else some (m, .stopMove dest saw)
  | .stopMove dest saw =>
    if m.state = saw then some ({ m with state := dest.state }, .idle) else some (m, .stopLook dest)
  | .destroyTask => some ({ m with task := false }, .destroyLook)
  | .destroyLook => if m.filled then some (m, .destroyDrop) else some (m, .destroyFree)
  | .destroyDrop => some ({ m with toStore := m.dropInPlace }, .destroyFree)
  | .destroyFree => some ({ m with state := .free }, .out)
  | .out => none
  | .idle => none
  | .running _ => none
  | .published _ => none

/-- One step of one thread on the slot. -/
def next (m : Mem α) : Pc α → Act α → Option (Mem α × Pc α)
  | .out, .join =>
    if 0 < m.listeners then some ({ m with listeners := fetchAdd 32 m.listeners }, .idle) else none
  | .out, _ => none
  | .idle, a => start m a
  | .running v, a => outcome m v a
  | .published v, a => settle m v a
  | pc, .go => advance m pc
  | _, _ => none

/-- The slot as a machine. -/
def machine (α : Type*) : Machine (Mem α) (Pc α) (Act α) := ⟨next⟩

/-- A slot as `init` leaves it, with nothing written yet. A series slot holds no task, and the
slot of any other task holds its own. -/
structure Fresh {T : Type*} [Fintype T] (s : Config T (Mem α) (Pc α)) : Prop where
  state : s.mem.state = .pending
  task : s.mem.task = !s.mem.prototype
  readers : s.mem.readers = 0
  filled : s.mem.filled = false
  payload : s.mem.payload = none
  writes : s.mem.writes = 0
  moves : ∀ k, s.mem.moves k = 0
  drops : ∀ k, s.mem.drops k = 0
  /-- Every thread is outside the slot or holds one of its listeners. -/
  loc : ∀ t, s.loc t = .out ∨ s.loc t = .idle
  listeners : s.mem.listeners = count (· matches .idle) s.loc

/-! ### The code follows the handshake -/

/-- What a thread has won of the slot, from where it stands in the code. -/
def Pc.phase : Pc α → Phase
  | .out => .outside
  | .idle => .idle
  | .beginPending v | .beginKind v | .beginReady v | .beginTaken v | .turnedAway v => .trying v
  | .recycleWait v => .waiting v
  | .recycleSwap v | .recycleDrop v | .running v => .owning v
  | .wrote v | .publishing v => .wrote v
  | .published v => .trying v
  | .panicked => .trying .run
  | .entering | .backingOut => .counted
  | .reading _ => .inside
  | .takeWait _ => .claimed
  | .takeEmpty _ | .takeMove _ => .emptying
  | .took _ _ | .stopLook _ | .stopKind _ _ | .stopMove _ _ => .idle
  | .destroyTask | .destroyLook | .destroyDrop | .destroyFree => .destroying

/-- What a thread has to do with the value in the payload, from where it stands in the
code. -/
inductive Custody (α : Type*)
  /-- Nothing. -/
  | none
  /-- Took the old value from the slot and drops it next. -/
  | dropping
  /-- Owns a slot that holds no value. -/
  | empty
  /-- Wrote a value the slot does not own yet. -/
  | wrote
  /-- Handed the slot the value it wrote. -/
  | filled
  /-- Reads this value. -/
  | reads (saw : Option (Written α))
  /-- Won this value, which the slot still owns. -/
  | claims (won : Option (Written α))
  /-- Took this value from the slot and moves it out next. -/
  | moves (won : Option (Written α))
  /-- Won the first and moved out the second. -/
  | took (won got : Option (Written α))
  /-- The last one out, about to drop what the slot owns. -/
  | lastDrop
  /-- The last one out, with nothing left in the slot. -/
  | gone
  deriving DecidableEq

/-- What a thread has to do with the value, from where it stands in the code. -/
def Pc.custody : Pc α → Custody α
  | .recycleDrop _ => .dropping
  | .running _ => .empty
  | .wrote _ => .wrote
  | .publishing _ => .filled
  | .reading saw => .reads saw
  | .takeWait won | .takeEmpty won => .claims won
  | .takeMove won => .moves won
  | .took won got => .took won got
  | .destroyDrop => .lastDrop
  | .destroyFree => .gone
  | _ => .none

/-- The steps of the code, sorted by what they do to the words, to the payload, and to what
the thread has won. -/
inductive Step : Mem α → Pc α → Mem α → Pc α → Prop
  /-- A look that changes nothing, or a change to the kind. -/
  | quiet {m m' : Mem α} {pc pc' : Pc α} (hw : m'.toWords = m.toWords)
      (hs : m'.toStore = m.toStore) (hp : pc'.phase = pc.phase) (hc : pc'.custody = pc.custody) :
      Step m pc m' pc'
  | join {m : Mem α} (h : 0 < m.listeners) :
      Step m .out { m with listeners := fetchAdd 32 m.listeners } .idle
  | leave {m : Mem α} (h : m.listeners ≠ 1) :
      Step m .idle { m with listeners := fetchSub 32 m.listeners } .out
  | lastOut {m : Mem α} (h : m.listeners = 1) :
      Step m .idle { m with listeners := fetchSub 32 m.listeners } .destroyTask
  | claim {m : Mem α} (h : m.task = true) :
      Step m .idle { m with task := false } (.beginPending .run)
  | publish {m : Mem α} (h : m.prototype = true) : Step m .idle m (.beginPending .publish)
  | stop {m : Mem α} {pc : Pc α} (hp : pc.phase = .idle) (hc : pc.custody = .none) (e : Ending) :
      Step m pc { m with state := e.state } .idle
  | takeDown {m : Mem α} : Step m .idle { m with task := false } .idle
  | beginPending {m : Mem α} {v : Via} (h : m.state = .pending) :
      Step m (.beginPending v) { m with state := .running } (.running v)
  | beginAgain {m : Mem α} {v : Via} {pc : Pc α} (hp : pc.phase = .trying v)
      (hc : pc.custody = .none) (h : m.state = .ready ∨ m.state = .taken) :
      Step m pc { m with state := .running } (.recycleWait v)
  | resume {m : Mem α} (h : m.state = .running) : Step m (.turnedAway .run) m (.running .run)
  | waited {m : Mem α} {v : Via} (h : m.readers = 0) : Step m (.recycleWait v) m (.recycleSwap v)
  | swapFull {m : Mem α} {v : Via} (h : m.filled = true) :
      Step m (.recycleSwap v) { m with filled := false } (.recycleDrop v)
  | swapEmpty {m : Mem α} {v : Via} (h : m.filled = false) :
      Step m (.recycleSwap v) m (.running v)
  | dropOld {m : Mem α} {v : Via} :
      Step m (.recycleDrop v) { m with toStore := m.dropInPlace } (.running v)
  | write {m : Mem α} {v : Via} (x : α) :
      Step m (.running v) { m with toStore := m.write x } (.wrote v)
  | fill {m : Mem α} {v : Via} : Step m (.wrote v) { m with filled := true } (.publishing v)
  | makeReady {m : Mem α} {v : Via} (h : m.state = .running) :
      Step m (.publishing v) { m with state := .ready } (.published v)
  | stayStopped {m : Mem α} {v : Via} (h : m.state ≠ .running) : Step m (.publishing v) m .idle
  | park {m : Mem α} : Step m (.running .run) { m with task := true } .idle
  | panic {m : Mem α} : Step m (.running .run) m .panicked
  | die {m : Mem α} : Step m (.running .run) m .idle
  | fail {m : Mem α} : Step m .panicked { m with state := .failed } .idle
  | rearm {m : Mem α} : Step m (.published .run) { m with task := true } .idle
  | letGo {m m' : Mem α} {pc : Pc α} {v : Via} (hw : m'.toWords = m.toWords)
      (hs : m'.toStore = m.toStore) (hp : pc.phase = .trying v) (hc : pc.custody = .none) :
      Step m pc m' .idle
  | count {m : Mem α} : Step m .idle { m with readers := fetchAdd 32 m.readers } .entering
  | enter {m : Mem α} (h : m.state = .ready) : Step m .entering m (.reading m.payload)
  | leaveRead {m : Mem α} {saw : Option (Written α)} :
      Step m (.reading saw) { m with readers := fetchSub 32 m.readers } .idle
  | backOut {m : Mem α} : Step m .backingOut { m with readers := fetchSub 32 m.readers } .idle
  | win {m : Mem α} (h : m.state = .ready) :
      Step m .idle { m with state := .taken } (.takeWait m.payload)
  | winWaited {m : Mem α} {won : Option (Written α)} (h : m.readers = 0) :
      Step m (.takeWait won) m (.takeEmpty won)
  | empty {m : Mem α} {won : Option (Written α)} :
      Step m (.takeEmpty won) { m with filled := false } (.takeMove won)
  | moveOut {m : Mem α} {won : Option (Written α)} :
      Step m (.takeMove won) { m with toStore := m.moveOut } (.took won m.payload)
  | handOver {m : Mem α} {won got : Option (Written α)} : Step m (.took won got) m .idle
  | destroyTask {m : Mem α} : Step m .destroyTask { m with task := false } .destroyLook
  | lastLookFull {m : Mem α} (h : m.filled = true) : Step m .destroyLook m .destroyDrop
  | lastLookEmpty {m : Mem α} (h : m.filled = false) : Step m .destroyLook m .destroyFree
  | lastDrop {m : Mem α} : Step m .destroyDrop { m with toStore := m.dropInPlace } .destroyFree
  | free {m : Mem α} : Step m .destroyFree { m with state := .free } .out

section Steps

variable {m m' : Mem α} {pc pc' : Pc α} {v : Via} {a : Act α}

theorem start_step (h : start m a = some (m', pc')) : Step m .idle m' pc' := by
  cases a <;> simp only [start, Option.ite_none_right_eq_some, Option.some.injEq, Prod.mk.injEq,
    reduceCtorEq] at h
  case run =>
    split at h <;> obtain ⟨rfl, rfl⟩ := by simpa using h
    · exact .claim ‹_›
    · exact .quiet rfl rfl rfl rfl
  case publish =>
    obtain ⟨hp, rfl, rfl⟩ := h
    exact .publish hp
  case take =>
    split at h <;> obtain ⟨rfl, rfl⟩ := by simpa using h
    · exact .win ‹_›
    · exact .quiet rfl rfl rfl rfl
  case leave =>
    obtain ⟨rfl, rfl⟩ := h
    split
    · exact .lastOut ‹_›
    · exact .leave ‹_›
  all_goals obtain ⟨rfl, rfl⟩ := h
  case read => exact .count
  case stop | endSeries => exact .quiet rfl rfl rfl rfl
  case fail => exact .stop rfl rfl .failed
  case takeDown => exact .takeDown

theorem outcome_step (h : outcome m v a = some (m', pc')) : Step m (.running v) m' pc' := by
  unfold outcome at h
  split at h <;> simp only [Option.some.injEq, Prod.mk.injEq, reduceCtorEq] at h <;>
    obtain ⟨rfl, rfl⟩ := h
  · exact .write _
  · exact .park
  · exact .panic
  · exact .die

theorem settle_step (h : settle m v a = some (m', pc')) : Step m (.published v) m' pc' := by
  unfold settle at h
  split at h <;> try split at h
  all_goals simp only [Option.some.injEq, Prod.mk.injEq, reduceCtorEq] at h
  all_goals obtain ⟨rfl, rfl⟩ := h
  · exact .letGo rfl rfl rfl rfl
  · exact .rearm
  · exact .letGo rfl rfl rfl rfl
  · exact .rearm
  · exact .letGo rfl rfl rfl rfl

theorem advance_step (h : advance m pc = some (m', pc')) : Step m pc m' pc' := by
  cases pc
  case turnedAway v =>
    cases v <;> simp only [advance] at h
    case run =>
      split at h <;> obtain ⟨rfl, rfl⟩ := by simpa using h
      · exact .resume ‹_›
      · exact .letGo rfl rfl rfl rfl
    case publish =>
      obtain ⟨rfl, rfl⟩ := by simpa using h
      exact .letGo rfl rfl rfl rfl
  all_goals simp only [advance, reduceCtorEq] at h
  all_goals try split at h
  all_goals simp only [Option.some.injEq, Prod.mk.injEq] at h
  all_goals obtain ⟨rfl, rfl⟩ := h
  case beginPending.isTrue => exact .beginPending ‹_›
  case beginReady.isTrue => exact .beginAgain rfl rfl (.inl ‹_›)
  case beginTaken.isTrue => exact .beginAgain rfl rfl (.inr ‹_›)
  case recycleWait.isFalse => exact .waited (by omega)
  case recycleSwap.isTrue => exact .swapFull ‹_›
  case recycleSwap.isFalse => exact .swapEmpty (Bool.eq_false_of_not_eq_true ‹_›)
  case recycleDrop => exact .dropOld
  case wrote => exact .fill
  case publishing.isTrue => exact .makeReady ‹_›
  case publishing.isFalse => exact .stayStopped ‹_›
  case panicked.isTrue => exact .fail
  case panicked.isFalse => exact .letGo rfl rfl rfl rfl
  case entering.isTrue => exact .enter ‹_›
  case reading => exact .leaveRead
  case backingOut => exact .backOut
  case takeWait.isFalse => exact .winWaited (by omega)
  case takeEmpty => exact .empty
  case takeMove => exact .moveOut
  case took => exact .handOver
  case stopMove.isTrue => exact .stop rfl rfl _
  case destroyTask => exact .destroyTask
  case destroyLook.isTrue => exact .lastLookFull ‹_›
  case destroyLook.isFalse => exact .lastLookEmpty (Bool.eq_false_of_not_eq_true ‹_›)
  case destroyDrop => exact .lastDrop
  case destroyFree => exact .free
  all_goals exact .quiet rfl rfl rfl rfl

/-- **What a step of the code can do**, said once. -/
theorem next_step (h : next m pc a = some (m', pc')) : Step m pc m' pc' := by
  unfold next at h
  split at h
  · obtain ⟨hl, h⟩ := Option.ite_none_right_eq_some.mp h
    obtain ⟨rfl, rfl⟩ := by simpa using h
    exact .join hl
  · cases h
  · exact start_step h
  · exact outcome_step h
  · exact settle_step h
  · exact advance_step h
  · cases h

/-- **The code follows the handshake.** -/
theorem Step.move (h : Step m pc m' pc') :
    Move m.toWords pc.phase m'.toWords pc'.phase := by
  cases h with
  | quiet hw _ hp _ => rw [hw, hp]; exact .skip _ _
  | join h => exact .join _ h
  | leave h => exact .leave _ h
  | lastOut h => exact .lastOut _ h
  | claim h => exact .claim _ h
  | publish h => exact .publish _ h
  | stop hp _ e => rw [hp]; exact .stop _ e
  | takeDown => exact .takeDown _
  | beginPending h => exact .beginPending _ _ h
  | beginAgain hp _ h => rw [hp]; exact .beginAgain _ _ h
  | resume h => exact .resume _ h
  | waited h => exact .waited _ _ h
  | swapFull _ | swapEmpty _ | dropOld | fill | empty | handOver
  | lastLookFull _ | lastLookEmpty _ | lastDrop => exact .skip _ _
  | write x => exact .write _ _
  | makeReady h => exact .makeReady _ _ h
  | stayStopped _ => exact .stayStopped _ _
  | park => exact .park _
  | panic => exact .panic _
  | die => exact .die _
  | fail => exact .fail _
  | rearm => exact .rearm _
  | letGo hw _ hp _ => rw [hw, hp]; exact .turnAway _ _
  | count => exact .count _
  | enter h => exact .enter _ h
  | leaveRead => exact .leaveRead _
  | backOut => exact .backOut _
  | win h => exact .win _ h
  | winWaited h => exact .winWaited _ h
  | moveOut => exact .moveOut _
  | destroyTask => exact .dropTask _
  | free => exact .free _

end Steps

end Atap.Slot
