import Atap.Common
import Atap.Interleave.Machine
import Mathlib.Data.List.Infix

/-!
# Talking to a child

While a child runs, everything it writes to its two streams is read and everything it was to be
given is written to it, by one of two loops: `exchange`, which waits on a queue the three
descriptors are registered with, and `poll_exchange`, which hands them to `poll` anew each time.

One thread runs one of them, a system call a step, against a kernel that answers as it likes within
what a kernel may: a read gives some of what the child wrote next, or its end **once everything it
wrote was read**; a write takes some of the bytes, or is refused because the child closed its end; a
call may be interrupted, fail, or find no room; the events of a lap are any list at all, so also
events for an end that was closed earlier in the same lap, or for something else. What the child
writes to a stream until it closes it, and what it is to be given, is fixed by `Child`.

* `readChunk`, `writeChunk`: what both loops do with a descriptor.
* `Sound`: what holds in both, wherever they are.
* `exchanges_complete`: whenever a loop returns without an error, **the buffers are all that the
  child wrote**, it was given a prefix of the input and all of it unless it closed its end, and the
  input end was closed once, after the last byte. While a loop waits, it watches all it should.

`ended`, `refused`, `given` and `closedAt` are histories of the kernel's answers; no step reads
them.
-/

namespace Atap.Process

open Function

/-- `IGNORED`, as the number of a descriptor. -/
def ignored : ℕ := 2 ^ 64 - 1

/-- The output and the errors of a child. -/
abbrev Stream := Fin 2

/-- A child, and what its ends are. -/
structure Child where
  /-- The descriptor a stream is read from. -/
  ends : Stream → ℕ
  /-- The descriptor the input is written to. -/
  input : Option ℕ
  data : List UInt8
  /-- All that the child writes to a stream, until it closes it. -/
  wrote : Stream → List UInt8

/-- The variables of a loop, and the kernel. -/
structure Mem where
  found : Stream → List UInt8
  sent : ℕ
  /-- `Feed::end`, and the input of `poll_exchange`. -/
  input : Option ℕ
  opened : Stream → Bool
  /-- How much of what the child wrote was read. -/
  handed : Stream → ℕ
  /-- A read has reported the end. -/
  ended : Stream → Bool
  /-- What was written to the child. -/
  given : List UInt8
  /-- A write was refused because the child closed its end. -/
  refused : Bool
  /-- The read watches on the queue. -/
  watched : Stream → Bool
  /-- The write watch on the queue. -/
  watchedInput : Bool
  /-- How much the child had been given, each time its input end was closed. -/
  closedAt : List ℕ

/-- The filter of an event. -/
inductive Filter
  | read
  | write
  | user
  deriving DecidableEq

structure Event where
  ident : ℕ
  filter : Filter
  /-- `EV_ERROR` is set. -/
  error : Bool
  deriving DecidableEq

/-- What the kernel, or the executor, answers. -/
inductive Answer
  | ok
  | failed
  /-- `EINTR`. -/
  | interrupted
  /-- The task was cancelled. -/
  | cancelled
  | events (l : List Event)
  /-- Which of what `poll` was given is ready. -/
  | ready (streams : Stream → Bool) (input : Bool)
  /-- A read gives `k` bytes. -/
  | bytes (k : ℕ)
  /-- A read gives none. -/
  | last
  /-- A write takes `k` bytes. -/
  | took (k : ℕ)
  /-- `EAGAIN`. -/
  | wouldBlock
  /-- `EPIPE`. -/
  | broken

/-- What `read_chunk` and `write_chunk` return. -/
inductive Chunk
  | more
  | last
  | failed
  deriving DecidableEq

def readChunk (c : Child) (m : Mem) (i : Stream) : Answer → Option (Mem × Chunk)
  | .bytes k =>
    if 0 < k ∧ k ≤ fileChunk ∧ m.handed i + k ≤ (c.wrote i).length then
      some ({ m with
        found := update m.found i
          (m.found i ++ ((c.wrote i).drop (m.handed i)).take k)
        handed := update m.handed i (m.handed i + k) }, .more)
    else none
  | .last =>
    if m.handed i = (c.wrote i).length then
      some ({ m with ended := update m.ended i true }, .last)
    else none
  | .interrupted => some (m, .more)
  | .failed => some (m, .failed)
  | _ => none

def writeChunk (c : Child) (m : Mem) : Answer → Option (Mem × Chunk)
  | .ok => if c.data.length - m.sent = 0 then some (m, .last) else none
  | .took k =>
    if k ≤ min (c.data.length - m.sent) fileChunk ∧ c.data.length - m.sent ≠ 0 then
      some ({ m with
        given := m.given ++ (c.data.drop m.sent).take k
        sent := m.sent + k }, if m.sent + k < c.data.length then .more else .last)
    else none
  | .interrupted => if c.data.length - m.sent = 0 then none else some (m, .more)
  | .wouldBlock => if c.data.length - m.sent = 0 then none else some (m, .more)
  | .broken =>
    if c.data.length - m.sent = 0 then none else some ({ m with refused := true }, .last)
  | .failed => if c.data.length - m.sent = 0 then none else some (m, .failed)
  | _ => none

/-- The input end is shut. -/
def Mem.closeInput (m : Mem) : Mem :=
  { m with
    input := none
    closedAt := m.closedAt ++ [m.given.length] }

/-! ### With a queue -/

/-- Where `exchange` stands. -/
inductive Pc
  /-- Before a stream is registered. -/
  | watch (i : Stream)
  /-- `Feed::watch`. -/
  | watchInput
  /-- `waiting_on`. -/
  | begin
  /-- `pump`, before `listen`. -/
  | listen
  /-- `pump`, with the events of a lap that are left. -/
  | handle (events : List Event)
  | read (i : Stream) (events : List Event)
  /-- `pump`, before the watch of a stream at its end comes off. -/
  | unwatch (i : Stream) (events : List Event)
  /-- `Feed::push`. -/
  | push (events : List Event)
  /-- `Feed::finish`, in a lap. -/
  | finish (events : List Event)
  /-- `pump`, before `cancelled`. -/
  | check
  /-- `stopped_waiting`, after a loop that went well or not. -/
  | stopped (ok : Bool)
  /-- The read watches come off. -/
  | dropReads (ok : Bool)
  /-- `Feed::finish`, at the end. -/
  | dropFeed (ok : Bool)
  | done (ok : Bool)
  deriving DecidableEq

/-- The head of the loop. -/
def Mem.lap (m : Mem) : Pc :=
  if m.opened 0 || m.opened 1 || m.input.isSome then .listen else .stopped true

/-- After a stream is registered. -/
def afterWatch (i : Stream) : Pc := if i = 0 then .watch 1 else .watchInput

/-- Where an event takes the loop. -/
def dispatch (c : Child) (m : Mem) (e : Event) (rest : List Event) : Pc :=
  if e.error then .handle rest
  else if m.input = some e.ident ∧ e.filter = .write then .push rest
  else if e.filter ≠ .read then .handle rest
  else if c.ends 0 = e.ident then if m.opened 0 then .read 0 rest else .handle rest
  else if c.ends 1 = e.ident then if m.opened 1 then .read 1 rest else .handle rest
  else .handle rest

/-- The steps of `exchange` before the loop. -/
def setupStep (c : Child) (m : Mem) : Pc → Answer → Option (Mem × Pc)
  | .watch i, a =>
    if c.ends i = ignored then match a with
      | .ok => some (m, afterWatch i)
      | _ => none
    else match a with
      | .ok => some ({ m with
          opened := update m.opened i true
          watched := update m.watched i true }, afterWatch i)
      | .failed => some (m, .dropReads false)
      | _ => none
  | .watchInput, .ok => some ({ m with watchedInput := m.input.isSome }, .begin)
  | .watchInput, .failed => if m.input.isSome then some (m, .dropReads false) else none
  | .begin, .ok => some (m, m.lap)
  | .begin, .cancelled => some (m, .dropReads false)
  | _, _ => none

/-- The steps of `pump`. -/
def pumpStep (c : Child) (m : Mem) : Pc → Answer → Option (Mem × Pc)
  | .listen, .events l => some (m, .handle l)
  | .listen, .interrupted => some (m, m.lap)
  | .listen, .failed => some (m, .stopped false)
  | .handle [], .ok => some (m, .check)
  | .handle (e :: rest), .ok => some (m, dispatch c m e rest)
  | .read i rest, a => (readChunk c m i a).map fun r => (r.1, match r.2 with
      | .more => .handle rest
      | .last => .unwatch i rest
      | .failed => .stopped false)
  | .unwatch i rest, .ok =>
    some ({ m with
      opened := update m.opened i false
      watched := update m.watched i false }, .handle rest)
  | .push rest, a => (writeChunk c m a).map fun r => (r.1, match r.2 with
      | .more => .handle rest
      | .last => .finish rest
      | .failed => .stopped false)
  | .finish rest, .ok => some ({ m.closeInput with watchedInput := false }, .handle rest)
  | .check, .ok => some (m, m.lap)
  | .check, .cancelled => some (m, .stopped false)
  | _, _ => none

/-- The steps of `exchange` after the loop. -/
def leaveStep (m : Mem) : Pc → Answer → Option (Mem × Pc)
  | .stopped ok, .ok => some (m, .dropReads ok)
  | .stopped _, .cancelled => some (m, .dropReads false)
  | .dropReads ok, .ok =>
    some ({ m with
      opened := fun _ => false
      watched := fun i => m.watched i && !m.opened i }, .dropFeed ok)
  | .dropFeed ok, .ok =>
    some (if m.input.isSome then { m.closeInput with watchedInput := false } else m, .done ok)
  | _, _ => none

def exchange (c : Child) : Machine Mem Pc Answer where
  next m pc a := (setupStep c m pc a).or ((pumpStep c m pc a).or (leaveStep m pc a))

/-! ### With `poll` -/

/-- Where `poll_exchange` stands. -/
inductive PollPc
  /-- The head of the loop, and `cancelled`. -/
  | loop
  | poll
  | read (i : Stream) (streams : Stream → Bool) (input : Bool)
  | write (input : Bool)
  | done (ok : Bool)
deriving DecidableEq

/-- The descriptor that is handed to `poll` for a stream. -/
def pollStream (c : Child) (m : Mem) (i : Stream) : ℕ := if m.opened i then c.ends i else ignored

/-- The descriptor that is handed to `poll` for the input. -/
def pollInput (m : Mem) : ℕ := m.input.getD ignored

/-- After a stream was looked at. -/
def afterRead (i : Stream) (streams : Stream → Bool) (input : Bool) : PollPc :=
  if i = 0 then .read 1 streams input else .write input

/-- The steps of `poll_exchange`. Nothing is reported of a descriptor that is ignored. -/
def pollStep (c : Child) (m : Mem) : PollPc → Answer → Option (Mem × PollPc)
  | .loop, a =>
    if m.opened 0 || m.opened 1 || m.input.isSome then match a with
      | .ok => some (m, .poll)
      | .cancelled => some (m, .done false)
      | _ => none
    else match a with
      | .ok => some (m, .done true)
      | _ => none
  | .poll, .ready streams input =>
    if (∀ i, streams i = true → pollStream c m i ≠ ignored) ∧
        (input = true → pollInput m ≠ ignored) then some (m, .read 0 streams input)
    else none
  | .poll, .interrupted => some (m, .loop)
  | .poll, .failed => some (m, .done false)
  | .read i streams input, a =>
    if m.opened i && streams i then
      (readChunk c m i a).map fun r => match r.2 with
        | .more => (r.1, afterRead i streams input)
        | .last => ({ r.1 with opened := update r.1.opened i false },
            afterRead i streams input)
        | .failed => (r.1, .done false)
    else match a with
      | .ok => some (m, afterRead i streams input)
      | _ => none
  | .write true, a => (writeChunk c m a).map fun r => match r.2 with
      | .more => (r.1, .loop)
      | .last => (r.1.closeInput, .loop)
      | .failed => (r.1, .done false)
  | .write false, .ok => some (m, .loop)
  | _, _ => none

def pollExchange (c : Child) : Machine Mem PollPc Answer := ⟨pollStep c⟩

/-! ### What holds in both -/

/-- What holds wherever a loop is that has not failed. -/
structure Sound (c : Child) (m : Mem) : Prop where
  /-- A buffer is what was read. -/
  found : ∀ i, m.found i = (c.wrote i).take (m.handed i)
  handed : ∀ i, m.handed i ≤ (c.wrote i).length
  ended : ∀ i, m.ended i = true → m.handed i = (c.wrote i).length
  /-- A stream there is none of is not read. -/
  missing : ∀ i, c.ends i = ignored → m.opened i = false ∧ m.handed i = 0
  /-- What the child was given is what was sent. -/
  given : m.given = c.data.take m.sent
  sent : m.sent ≤ c.data.length
  /-- The input end is as it was, or was closed after the last byte. -/
  input : (m.input = c.input ∧ m.closedAt = []) ∨
    (m.input = none ∧ c.input ≠ none ∧ m.closedAt = [m.given.length] ∧
      (m.sent = c.data.length ∨ m.refused = true))

/-- What a chunk leaves alone. -/
structure Same (m m' : Mem) : Prop where
  opened : m'.opened = m.opened
  input : m'.input = m.input
  watched : m'.watched = m.watched
  watchedInput : m'.watchedInput = m.watchedInput
  ended : ∀ i, m.ended i = true → m'.ended i = true

theorem Same.refl (m : Mem) : Same m m := ⟨rfl, rfl, rfl, rfl, fun _ h => h⟩

section Chunks

variable {c : Child} {m m' : Mem} {i : Stream} {a : Answer} {r : Chunk}

theorem take_append_drop_take {α : Type*} (l : List α) (n k : ℕ) :
    l.take n ++ (l.drop n).take k = l.take (n + k) :=
  (List.take_add ..).symm

/-- **A read keeps the buffers right**, and one that gives none was at the end. -/
theorem Sound.read (hs : Sound c m) (hi : c.ends i ≠ ignored)
    (h : readChunk c m i a = some (m', r)) :
    Sound c m' ∧ Same m m' ∧ (r = .last → m'.ended i = true) := by
  unfold readChunk at h
  split at h
  case h_1 k =>
    obtain ⟨⟨-, -, hk⟩, h⟩ := Option.ite_none_right_eq_some.mp h
    cases h
    refine ⟨{ hs with
      found := fun j => ?_
      handed := fun j => ?_
      ended := fun j hj => ?_
      missing := fun j hj => ⟨(hs.missing j hj).1, ?_⟩ },
      ⟨rfl, rfl, rfl, rfl, fun _ h => h⟩, nofun⟩
    · rcases eq_or_ne j i with rfl | hne
      · simp only [update_self]
        rw [hs.found j, take_append_drop_take]
      · simp only [update_of_ne hne]
        exact hs.found j
    · rcases eq_or_ne j i with rfl | hne
      · simp only [update_self]
        exact hk
      · simp only [update_of_ne hne]
        exact hs.handed j
    · have hend := hs.ended j hj
      rcases eq_or_ne j i with rfl | hne
      · simp only [update_self]
        omega
      · simp only [update_of_ne hne]
        exact hend
    · have hne : j ≠ i := by
        rintro rfl
        exact hi hj
      simp only [update_of_ne hne]
      exact (hs.missing j hj).2
  case h_2 =>
    obtain ⟨hk, h⟩ := Option.ite_none_right_eq_some.mp h
    cases h
    refine ⟨{ hs with ended := fun j hj => ?_ }, ⟨rfl, rfl, rfl, rfl, fun j hj => ?_⟩,
      fun _ => update_self ..⟩
    · rcases eq_or_ne j i with rfl | hne
      · exact hk
      · exact hs.ended j ((update_of_ne hne ..).symm.trans hj)
    · rcases eq_or_ne j i with rfl | hne
      · exact update_self ..
      · exact (update_of_ne hne ..).trans hj
  case h_5 => cases h
  all_goals
    cases h
    exact ⟨hs, .refl _, nofun⟩

/-- **A write gives the child what comes next**, and one that leaves nothing to give has given all,
or was refused. -/
theorem Sound.write (hs : Sound c m) (hin : m.input ≠ none)
    (h : writeChunk c m a = some (m', r)) :
    Sound c m' ∧ Same m m' ∧ (r = .last → m'.sent = c.data.length ∨ m'.refused = true) := by
  have hfirst : m.input = c.input ∧ m.closedAt = [] := hs.input.resolve_right fun h => hin h.1
  have hsent := hs.sent
  unfold writeChunk at h
  split at h
  case h_1 =>
    obtain ⟨hall, h⟩ := Option.ite_none_right_eq_some.mp h
    cases h
    exact ⟨hs, .refl _, fun _ => .inl (by omega)⟩
  case h_2 k =>
    obtain ⟨⟨hk, -⟩, h⟩ := Option.ite_none_right_eq_some.mp h
    cases h
    have hle : m.sent + k ≤ c.data.length := by
      have := hk.trans (min_le_left ..)
      omega
    refine ⟨{ hs with
      given := ?_
      sent := hle
      input := .inl hfirst }, ⟨rfl, rfl, rfl, rfl, fun _ h => h⟩, fun hr => .inl ?_⟩
    · change m.given ++ (c.data.drop m.sent).take k = c.data.take (m.sent + k)
      rw [hs.given, take_append_drop_take]
    · split at hr
      case isTrue => cases hr
      case isFalse hlt => exact Nat.le_antisymm hle (Nat.not_lt.mp hlt)
  case h_5 =>
    obtain ⟨-, h⟩ := Option.ite_none_left_eq_some.mp h
    cases h
    exact ⟨{ hs with input := .inl hfirst }, ⟨rfl, rfl, rfl, rfl, fun _ h => h⟩, fun _ => .inr rfl⟩
  case h_7 => cases h
  all_goals
    obtain ⟨-, h⟩ := Option.ite_none_left_eq_some.mp h
    cases h
    exact ⟨hs, .refl _, nofun⟩

/-- The input end is closed after the last byte. -/
theorem Sound.close (hs : Sound c m) (hin : m.input ≠ none)
    (hall : m.sent = c.data.length ∨ m.refused = true) : Sound c m.closeInput := by
  obtain ⟨hinput, hclosed⟩ := hs.input.resolve_right fun h => hin h.1
  refine { hs with input := .inr ⟨rfl, hinput ▸ hin, ?_, hall⟩ }
  rw [Mem.closeInput, hclosed]
  rfl

end Chunks

/-! ### What holds with a queue -/

/-- A stream is watched as long as it is read, and read until its end. -/
structure Reading (c : Child) (m : Mem) (i : Stream) : Prop where
  watched : m.watched i = m.opened i
  opened : c.ends i ≠ ignored → m.opened i = true ∨ m.ended i = true

/-- Everything is watched that should be. -/
structure Watching (c : Child) (m : Mem) : Prop where
  reading : ∀ i, Reading c m i
  input : m.watchedInput = m.input.isSome

/-- Nothing is left to read or to give. -/
structure Over (c : Child) (m : Mem) : Prop where
  ended : ∀ i, c.ends i ≠ ignored → m.ended i = true
  input : m.input = none

/-- What holds where `exchange` stands. -/
def Inv (c : Child) (m : Mem) : Pc → Prop
  | .watch i => Sound c m ∧ (∀ j, j < i → Reading c m j) ∧
    ∀ j, i ≤ j → m.opened j = false ∧ m.watched j = false
  | .watchInput => Sound c m ∧ ∀ i, Reading c m i
  | .begin | .listen | .handle _ | .check => Sound c m ∧ Watching c m
  | .read i _ => (Sound c m ∧ Watching c m) ∧ c.ends i ≠ ignored
  | .unwatch i _ => (Sound c m ∧ Watching c m) ∧ m.ended i = true
  | .push _ => (Sound c m ∧ Watching c m) ∧ m.input ≠ none
  | .finish _ => (Sound c m ∧ Watching c m) ∧ m.input ≠ none ∧
    (m.sent = c.data.length ∨ m.refused = true)
  | .stopped ok | .dropReads ok | .dropFeed ok | .done ok =>
    ok = true → Sound c m ∧ Over c m

section Queue

variable {c : Child} {m m' : Mem} {pc pc' : Pc} {a : Answer}

theorem Watching.of_same (h : Watching c m) (hs : Same m m') : Watching c m' where
  reading i := ⟨by rw [hs.watched, hs.opened]; exact (h.reading i).watched, fun hi => by
    rw [hs.opened]
    exact ((h.reading i).opened hi).imp_right (hs.ended i)⟩
  input := by rw [hs.watchedInput, hs.input]; exact h.input

/-- The head of the loop waits for something, or there is nothing left. -/
theorem inv_lap (hs : Sound c m) (hw : Watching c m) : Inv c m m.lap := by
  unfold Mem.lap
  split
  case isTrue => exact ⟨hs, hw⟩
  case isFalse h =>
    simp only [Bool.or_eq_true, not_or, Bool.not_eq_true, Option.isSome_eq_false_iff,
      Option.isNone_iff_eq_none] at h
    refine fun _ => ⟨hs, fun i hi => ?_, h.2⟩
    refine ((hw.reading i).opened hi).resolve_left ?_
    have hall : ∀ i, m.opened i = false := Fin.forall_fin_two.mpr h.1
    rw [hall i]
    decide

/-- An event leads to a stream that is read, or to an input that is open. -/
theorem inv_dispatch (hs : Sound c m) (hw : Watching c m) (e : Event) (rest : List Event) :
    Inv c m (dispatch c m e rest) := by
  have hread : ∀ i, m.opened i = true → c.ends i ≠ ignored := fun i hi h => by
    rw [(hs.missing i h).1] at hi
    cases hi
  unfold dispatch
  split
  case isTrue => exact ⟨hs, hw⟩
  split
  case isTrue h => exact ⟨⟨hs, hw⟩, by rw [h.1]; exact nofun⟩
  split
  case isTrue => exact ⟨hs, hw⟩
  split
  case isTrue =>
    split
    case isTrue h => exact ⟨⟨hs, hw⟩, hread 0 h⟩
    case isFalse => exact ⟨hs, hw⟩
  split
  case isTrue =>
    split
    case isTrue h => exact ⟨⟨hs, hw⟩, hread 1 h⟩
    case isFalse => exact ⟨hs, hw⟩
  case isFalse => exact ⟨hs, hw⟩

/-- A stream is registered, or there is none. -/
theorem inv_afterWatch {i : Stream} (h : Sound c m ∧ (∀ j, j < i → Reading c m j) ∧
    ∀ j, i ≤ j → m.opened j = false ∧ m.watched j = false)
    (hs : Sound c m') (hi : Reading c m' i) (hopened : ∀ j, j ≠ i → m'.opened j = m.opened j)
    (hwatched : ∀ j, j ≠ i → m'.watched j = m.watched j) (hended : m'.ended = m.ended) :
    Inv c m' (afterWatch i) := by
  have hbefore : ∀ j, j < i → Reading c m' j := fun j hj =>
    ⟨by rw [hopened j hj.ne, hwatched j hj.ne]; exact (h.2.1 j hj).watched, fun hc => by
      rw [hopened j hj.ne, hended]
      exact (h.2.1 j hj).opened hc⟩
  unfold afterWatch
  split
  case isTrue hi0 =>
    subst hi0
    refine ⟨hs, fun j hj => ?_, fun j hj => ?_⟩
    · obtain rfl : j = 0 := (by decide : ∀ j : Stream, j < 1 → j = 0) j hj
      exact hi
    · have hne : j ≠ 0 := (by decide : ∀ j : Stream, 1 ≤ j → j ≠ 0) j hj
      rw [hopened j hne, hwatched j hne]
      exact h.2.2 j (Fin.zero_le j)
  case isFalse hi0 =>
    refine ⟨hs, fun j => ?_⟩
    rcases eq_or_ne j i with rfl | hne
    · exact hi
    · exact hbefore j ((by decide : ∀ i j : Stream, i ≠ 0 → j ≠ i → j < i) i j hi0 hne)

theorem setupStep_inv (hi : Inv c m pc) (h : setupStep c m pc a = some (m', pc')) :
    Inv c m' pc' := by
  unfold setupStep at h
  split at h
  case h_1 i =>
    split at h
    case isTrue hign =>
      split at h
      case h_2 => cases h
      case h_1 =>
        cases h
        obtain ⟨ho, hw⟩ := hi.2.2 i le_rfl
        exact inv_afterWatch hi hi.1 ⟨hw.trans ho.symm, fun hc => absurd hign hc⟩
          (fun _ _ => rfl) (fun _ _ => rfl) rfl
    case isFalse hign =>
      split at h
      case h_3 => cases h
      case h_2 =>
        cases h
        exact nofun
      case h_1 =>
        cases h
        have hself : update m.opened i true i = true := update_self ..
        refine inv_afterWatch hi { hi.1 with missing := fun j hj => ?_ }
          ⟨(update_self ..).trans hself.symm, fun _ => .inl hself⟩
          (fun j hj => update_of_ne hj ..) (fun j hj => update_of_ne hj ..) rfl
        have hne : j ≠ i := by
          rintro rfl
          exact hign hj
        exact ⟨(update_of_ne hne ..).trans (hi.1.missing j hj).1, (hi.1.missing j hj).2⟩
  case h_3 => exact yield_guard h fun _ => nofun
  all_goals cases h
  case h_2 => exact ⟨{ hi.1 with }, fun i => { hi.2 i with }, rfl⟩
  case h_4 => exact inv_lap hi.1 hi.2
  case h_5 => exact nofun

theorem pumpStep_inv (hi : Inv c m pc) (h : pumpStep c m pc a = some (m', pc')) :
    Inv c m' pc' := by
  unfold pumpStep at h
  split at h
  case h_6 i rest =>
    obtain ⟨⟨m₁, r⟩, hr, h⟩ := Option.map_eq_some_iff.mp h
    obtain ⟨rfl, rfl⟩ := Prod.mk.inj h
    obtain ⟨hs, hsame, hlast⟩ := hi.1.1.read hi.2 hr
    have hw := hi.1.2.of_same hsame
    cases r with
    | more => exact ⟨hs, hw⟩
    | last => exact ⟨⟨hs, hw⟩, hlast rfl⟩
    | failed => exact nofun
  case h_8 rest =>
    obtain ⟨⟨m₁, r⟩, hr, h⟩ := Option.map_eq_some_iff.mp h
    obtain ⟨rfl, rfl⟩ := Prod.mk.inj h
    obtain ⟨hs, hsame, hlast⟩ := hi.1.1.write hi.2 hr
    have hw := hi.1.2.of_same hsame
    cases r with
    | more => exact ⟨hs, hw⟩
    | last => exact ⟨⟨hs, hw⟩, hsame.input ▸ hi.2, hlast rfl⟩
    | failed => exact nofun
  all_goals cases h
  case h_1 => exact hi
  case h_2 | h_10 => exact inv_lap hi.1 hi.2
  case h_3 => exact nofun
  case h_4 => exact hi
  case h_5 e rest => exact inv_dispatch hi.1 hi.2 e rest
  case h_7 i rest =>
    obtain ⟨⟨hs, hw⟩, hended⟩ := hi
    refine ⟨{ hs with missing := fun j hj => ⟨?_, (hs.missing j hj).2⟩ },
      ⟨fun j => ⟨?_, fun hc => ?_⟩, hw.input⟩⟩
    · rcases eq_or_ne j i with rfl | hne
      · exact update_self ..
      · exact (update_of_ne hne ..).trans (hs.missing j hj).1
    · rcases eq_or_ne j i with rfl | hne
      · simp only [update_self]
      · simp only [update_of_ne hne]
        exact (hw.reading j).watched
    · rcases eq_or_ne j i with rfl | hne
      · exact .inr hended
      · simp only [update_of_ne hne]
        exact (hw.reading j).opened hc
  case h_9 rest =>
    obtain ⟨⟨hs, hw⟩, hin, hall⟩ := hi
    exact ⟨{ hs.close hin hall with }, fun i => { hw.reading i with }, rfl⟩
  case h_11 => exact nofun

theorem leaveStep_inv (hi : Inv c m pc) (h : leaveStep m pc a = some (m', pc')) :
    Inv c m' pc' := by
  unfold leaveStep at h
  split at h
  all_goals cases h
  case h_1 => exact hi
  case h_2 => exact nofun
  case h_3 ok =>
    intro hok
    obtain ⟨hs, ho⟩ := hi hok
    exact ⟨{ hs with missing := fun j hj => ⟨rfl, (hs.missing j hj).2⟩ }, { ho with }⟩
  case h_4 ok =>
    intro hok
    obtain ⟨hs, ho⟩ := hi hok
    rw [ho.input]
    exact ⟨hs, ho⟩

theorem exchange_inv (hi : Inv c m pc) (h : (exchange c).next m pc a = some (m', pc')) :
    Inv c m' pc' := by
  rcases Option.or_eq_some_iff.mp h with h | ⟨-, h⟩
  · exact setupStep_inv hi h
  · rcases Option.or_eq_some_iff.mp h with h | ⟨-, h⟩
    · exact pumpStep_inv hi h
    · exact leaveStep_inv hi h

end Queue

/-! ### What holds with `poll` -/

/-- What holds where `poll_exchange` stands. -/
def PollInv (c : Child) (m : Mem) : PollPc → Prop
  | .loop | .poll => Sound c m ∧ ∀ i, c.ends i ≠ ignored → m.opened i = true ∨ m.ended i = true
  | .read _ _ input | .write input =>
    (Sound c m ∧ ∀ i, c.ends i ≠ ignored → m.opened i = true ∨ m.ended i = true) ∧
      (input = true → m.input ≠ none)
  | .done ok => ok = true → Sound c m ∧ Over c m

section Poll

variable {c : Child} {m m' : Mem} {pc pc' : PollPc} {a : Answer}

theorem inv_afterRead {i : Stream} {streams : Stream → Bool} {input : Bool}
    (h : PollInv c m (.write input)) : PollInv c m (afterRead i streams input) := by
  unfold afterRead
  split <;> exact h

/-- A chunk was read, and the stream is at its end or not. -/
theorem inv_read {i : Stream} {input : Bool} {r : Chunk} (hi : PollInv c m (.write input))
    (hc : c.ends i ≠ ignored) (hr : readChunk c m i a = some (m', r)) :
    PollInv c m' (.write input) ∧ (r = .last →
      PollInv c { m' with opened := update m'.opened i false } (.write input)) := by
  obtain ⟨hs, hsame, hlast⟩ := hi.1.1.read hc hr
  have hopen : ∀ j, c.ends j ≠ ignored → m'.opened j = true ∨ m'.ended j = true := fun j hj => by
    rw [hsame.opened]
    exact (hi.1.2 j hj).imp_right (hsame.ended j)
  have hin : input = true → m'.input ≠ none := by
    rw [hsame.input]
    exact hi.2
  refine ⟨⟨⟨hs, hopen⟩, hin⟩, fun hl => ⟨⟨{ hs with missing := fun j hj => ?_ }, fun j hj => ?_⟩,
    hin⟩⟩
  · rcases eq_or_ne j i with rfl | hne
    · exact absurd hj hc
    · exact ⟨(update_of_ne hne ..).trans (hs.missing j hj).1, (hs.missing j hj).2⟩
  · rcases eq_or_ne j i with rfl | hne
    · exact .inr (hlast hl)
    · simp only [update_of_ne hne]
      exact hopen j hj

theorem pollStep_inv (hi : PollInv c m pc) (h : pollStep c m pc a = some (m', pc')) :
    PollInv c m' pc' := by
  unfold pollStep at h
  split at h
  case h_1 =>
    split at h
    case isTrue =>
      split at h
      all_goals cases h
      case h_1 => exact hi
      case h_2 => exact nofun
    case isFalse hall =>
      split at h
      case h_2 => cases h
      case h_1 =>
        cases h
        simp only [Bool.or_eq_true, not_or, Bool.not_eq_true, Option.isSome_eq_false_iff,
          Option.isNone_iff_eq_none] at hall
        have hclosed : ∀ i, m.opened i = false := Fin.forall_fin_two.mpr hall.1
        refine fun _ => ⟨hi.1, fun i hc => (hi.2 i hc).resolve_left ?_, hall.2⟩
        rw [hclosed i]
        decide
  case h_2 streams input =>
    obtain ⟨⟨-, hin⟩, h⟩ := Option.ite_none_right_eq_some.mp h
    cases h
    refine ⟨hi, fun hready hnone => hin hready ?_⟩
    rw [pollInput, hnone]
    rfl
  case h_5 i streams input =>
    split at h
    case isTrue hopen =>
      obtain ⟨⟨m₁, r⟩, hr, h⟩ := Option.map_eq_some_iff.mp h
      have hc : c.ends i ≠ ignored := fun hc => by
        rw [(hi.1.1.missing i hc).1] at hopen
        cases hopen
      obtain ⟨hmore, hlast⟩ := inv_read hi hc hr
      cases r with
      | more =>
        obtain ⟨rfl, rfl⟩ := Prod.mk.inj h
        exact inv_afterRead hmore
      | last =>
        obtain ⟨rfl, rfl⟩ := Prod.mk.inj h
        exact inv_afterRead (hlast rfl)
      | failed =>
        obtain ⟨rfl, rfl⟩ := Prod.mk.inj h
        exact nofun
    case isFalse =>
      split at h
      case h_2 => cases h
      case h_1 =>
        cases h
        exact inv_afterRead hi
  case h_6 =>
    obtain ⟨⟨m₁, r⟩, hr, h⟩ := Option.map_eq_some_iff.mp h
    obtain ⟨hs, hsame, hlast⟩ := hi.1.1.write (hi.2 rfl) hr
    have hopen : ∀ j, c.ends j ≠ ignored → m₁.opened j = true ∨ m₁.ended j = true := fun j hj => by
      rw [hsame.opened]
      exact (hi.1.2 j hj).imp_right (hsame.ended j)
    cases r with
    | more =>
      obtain ⟨rfl, rfl⟩ := Prod.mk.inj h
      exact ⟨hs, hopen⟩
    | last =>
      obtain ⟨rfl, rfl⟩ := Prod.mk.inj h
      exact ⟨hs.close (hsame.input ▸ hi.2 rfl) (hlast rfl), hopen⟩
    | failed =>
      obtain ⟨rfl, rfl⟩ := Prod.mk.inj h
      exact nofun
  all_goals cases h
  case h_3 => exact hi
  case h_4 => exact nofun
  case h_7 => exact hi.1

end Poll

/-! ### The result -/

/-- A child nothing was read from or written to, which is read from `opened`. -/
def Child.start (c : Child) (opened : Stream → Bool) : Mem where
  found _ := []
  sent := 0
  input := c.input
  opened := opened
  handed _ := 0
  ended _ := false
  given := []
  refused := false
  watched _ := false
  watchedInput := false
  closedAt := []

/-- `exchange` is called. -/
def Called (c : Child) (s : Config Unit Mem Pc) : Prop :=
  s = ⟨c.start fun _ => false, fun _ => .watch 0⟩

/-- `poll_exchange` is called. -/
def PollCalled (c : Child) (s : Config Unit Mem PollPc) : Prop :=
  s = ⟨c.start fun i => c.ends i ≠ ignored, fun _ => .loop⟩

/-- Everything was read and given. -/
structure Complete (c : Child) (m : Mem) : Prop where
  /-- The buffers are all that the child wrote. -/
  found : ∀ i, m.found i = if c.ends i = ignored then [] else c.wrote i
  /-- The child was given a prefix of the input, and all of it unless it closed its end. -/
  given : m.given <+: c.data
  all : c.input ≠ none → m.given = c.data ∨ m.refused = true
  /-- The input end was closed once, after the last byte. -/
  closed : m.input = none ∧ m.closedAt = if c.input = none then [] else [m.given.length]

/-- Whatever the child can be blocked on is watched: a stream that is not at its end, and an input
that is open. It is open until everything was given. -/
structure Watched (c : Child) (m : Mem) (streams : Stream → Prop) (input : Prop) : Prop where
  streams : ∀ i, c.ends i ≠ ignored → streams i ∨ m.ended i = true
  input : m.input ≠ none → input
  all : c.input ≠ none → m.input ≠ none ∨ m.given = c.data ∨ m.refused = true

section Result

variable {c : Child} {m : Mem}

theorem Sound.start {opened : Stream → Bool} (h : ∀ i, c.ends i = ignored → opened i = false) :
    Sound c (c.start opened) where
  found _ := rfl
  handed _ := Nat.zero_le _
  ended _ := nofun
  missing i hi := ⟨h i hi, rfl⟩
  given := rfl
  sent := Nat.zero_le _
  input := .inl ⟨rfl, rfl⟩

theorem Sound.given_eq (hs : Sound c m) (h : m.sent = c.data.length) : m.given = c.data := by
  rw [hs.given, h, List.take_length]

theorem Sound.complete (hs : Sound c m) (ho : Over c m) : Complete c m := by
  refine ⟨fun i => ?_, hs.given ▸ List.take_prefix .., fun hc => ?_, ho.input, ?_⟩
  · split
    case isTrue hi => rw [hs.found i, (hs.missing i hi).2, List.take_zero]
    case isFalse hi => rw [hs.found i, hs.ended i (ho.ended i hi), List.take_length]
  · obtain ⟨hin, -⟩ | ⟨-, -, -, hall⟩ := hs.input
    · exact absurd (hin.symm.trans ho.input) hc
    · exact hall.imp_left hs.given_eq
  · obtain ⟨hin, hclosed⟩ | ⟨-, hc, hclosed, -⟩ := hs.input
    · rw [if_pos (hin.symm.trans ho.input), hclosed]
    · rw [if_neg hc, hclosed]

theorem Sound.all (hs : Sound c m) (hc : c.input ≠ none) :
    m.input ≠ none ∨ m.given = c.data ∨ m.refused = true := by
  obtain ⟨hin, -⟩ | ⟨-, -, -, hall⟩ := hs.input
  · exact .inl (hin ▸ hc)
  · exact .inr (hall.imp_left hs.given_eq)

theorem inv_of_reach {s : Config Unit Mem Pc}
    (hs : (exchange c).Reach (Called c) Machine.unguarded s) : Inv c s.mem (s.loc ()) := by
  refine hs.invariant (I := fun s => Inv c s.mem (s.loc ())) ?_ ?_
  · rintro s rfl
    exact ⟨.start fun _ _ => rfl, fun j hj => absurd hj (Fin.not_lt_zero j),
      fun _ _ => ⟨rfl, rfl⟩⟩
  · intro s t a m' pc' hi _ hn
    change Inv c m' (update s.loc t pc' t)
    rw [update_self]
    exact exchange_inv hi hn

theorem pollInv_of_reach {s : Config Unit Mem PollPc}
    (hs : (pollExchange c).Reach (PollCalled c) Machine.unguarded s) :
    PollInv c s.mem (s.loc ()) := by
  refine hs.invariant (I := fun s => PollInv c s.mem (s.loc ())) ?_ ?_
  · rintro s rfl
    exact ⟨.start fun i hi => decide_eq_false (not_not_intro hi),
      fun i hi => .inl (decide_eq_true hi)⟩
  · intro s t a m' pc' hi _ hn
    change PollInv c m' (update s.loc t pc' t)
    rw [update_self]
    exact pollStep_inv hi hn

/-- **Both exchanges are lossless**, and so come to the same; and neither waits for anything while
it does not watch all that the child can be blocked on. -/
theorem exchanges_complete {s : Config Unit Mem Pc} {s' : Config Unit Mem PollPc}
    (hs : (exchange c).Reach (Called c) Machine.unguarded s)
    (hs' : (pollExchange c).Reach (PollCalled c) Machine.unguarded s') :
    (s.loc () = .done true → Complete c s.mem) ∧
    (s'.loc () = .done true → Complete c s'.mem) ∧
    (s.loc () = .done true → s'.loc () = .done true → s.mem.found = s'.mem.found) ∧
    (s.loc () = .listen →
      Watched c s.mem (fun i => s.mem.watched i = true) (s.mem.watchedInput = true)) ∧
    (s'.loc () = .poll → Watched c s'.mem (fun i => pollStream c s'.mem i = c.ends i)
      (s'.mem.input = some (pollInput s'.mem))) := by
  have hi := inv_of_reach hs
  have hi' := pollInv_of_reach hs'
  have hc : s.loc () = .done true → Complete c s.mem := fun h => by
    rw [h] at hi
    exact (hi rfl).1.complete (hi rfl).2
  have hc' : s'.loc () = .done true → Complete c s'.mem := fun h => by
    rw [h] at hi'
    exact (hi' rfl).1.complete (hi' rfl).2
  refine ⟨hc, hc', fun h h' => funext fun i => ?_, fun h => ?_, fun h => ?_⟩
  · rw [(hc h).found i, (hc' h').found i]
  · rw [h] at hi
    obtain ⟨hsound, hw⟩ := hi
    refine ⟨fun i hi => ?_, fun hin => ?_, hsound.all⟩
    · rw [(hw.reading i).watched]
      exact (hw.reading i).opened hi
    · rw [hw.input]
      exact Option.isSome_iff_ne_none.mpr hin
  · rw [h] at hi'
    obtain ⟨hsound, hopen⟩ := hi'
    refine ⟨fun i hi => (hopen i hi).imp_left fun h => if_pos h, fun hin => ?_, hsound.all⟩
    obtain ⟨fd, hfd⟩ := Option.ne_none_iff_exists'.mp hin
    rw [pollInput, hfd]
    rfl

end Result

/-- A child that is given two bytes, and writes one to its output and none to its errors. -/
def echo : Child where
  ends i := if i = 0 then 5 else 6
  input := some 7
  data := [1, 2]
  wrote i := if i = 0 then [10] else []

/-- The input is taken a byte at a time, and its end is reported ready once more after it was
closed. -/
def queueAnswers : List Answer :=
  [.ok, .ok, .ok, .ok, .events [⟨7, .write, false⟩, ⟨5, .read, false⟩, ⟨6, .read, false⟩], .ok,
    .took 1, .ok, .bytes 1, .ok, .last, .ok, .ok, .ok,
    .events [⟨7, .write, false⟩, ⟨5, .read, false⟩, ⟨7, .write, false⟩], .ok, .took 1, .ok, .ok,
    .last, .ok, .ok, .ok, .ok, .ok, .ok, .ok]

def pollAnswers : List Answer :=
  [.ok, .ready (fun _ => true) true, .bytes 1, .last, .wouldBlock, .ok,
    .ready (fun i => i = 0) true, .last, .ok, .took 2, .ok]

theorem exchanges_complete_echo : ∃ s s', (exchange echo).Reach (Called echo) Machine.unguarded s ∧
    (pollExchange echo).Reach (PollCalled echo) Machine.unguarded s' ∧ s.loc () = .done true ∧
    s'.loc () = .done true ∧ Complete echo s.mem ∧ s.mem.found = s'.mem.found := by
  have hcalled : Called echo _ := rfl
  obtain ⟨s, hs, hd⟩ : ∃ s, (exchange echo).Reach (Called echo) Machine.unguarded s ∧
      s.loc () = .done true :=
    (Machine.Reach.init hcalled).exists_of_run (queueAnswers.map (Prod.mk ())) (by decide +kernel)
  have hpolled : PollCalled echo _ := rfl
  obtain ⟨s', hs', hd'⟩ : ∃ s, (pollExchange echo).Reach (PollCalled echo) Machine.unguarded s ∧
      s.loc () = .done true :=
    (Machine.Reach.init hpolled).exists_of_run (pollAnswers.map (Prod.mk ())) (by decide +kernel)
  obtain ⟨hc, -, hsame, -, -⟩ := exchanges_complete hs hs'
  exact ⟨s, s', hs, hs', hd, hd', hc hd, hsame hd hd'⟩

end Atap.Process
