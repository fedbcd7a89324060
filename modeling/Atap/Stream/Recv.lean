import Atap.Common
import Atap.Data.Search

/-!
# Receiving from a byte stream

A connection is a socket and the **leftover**: what a receive read past its end, which the next one
takes first. A receive keeps what it has read so far in a buffer of its own, over as many steps as
it takes. Each step reads until the receive is done, until there is nothing to read, or until it has
moved enough for one turn.

What the kernel says to one read is an `Answer`, and the answers come in a list: how the stream is
cut into reads, when a read finds nothing and parks the task, and where a call is interrupted are
all up to it. The bytes themselves are `Conn.unread`. A TLS session differs in one thing, that it
can tell a stream that was cut from one that was closed; its records are not here. A call that was
interrupted is made again, and an answer says how often.
-/

namespace Atap.Stream

/-- `STEP_BUDGET`. -/
def stepBudget : ℕ := 1024 * 1024

/-- `EVFILT_READ` or `EVFILT_WRITE`. -/
inductive Filter
  | read
  | write
  deriving DecidableEq

inductive Io
  | moved (n : ℕ)
  | closed
  | truncated
  | wait (filter : Filter)
  deriving DecidableEq

/-- How the other side ends a stream. -/
inductive Ending
  | closed
  /-- Without a goodbye, which only TLS can tell. -/
  | cut
  deriving DecidableEq

/-- What one call of the kernel comes to. -/
inductive Answer
  /-- Up to `n + 1` of the bytes that are left, or the end of the stream where none are. -/
  | ready (n : ℕ)
  /-- Nothing has arrived. -/
  | again (filter : Filter)
  /-- `EINTR`, and then what the next call comes to. -/
  | interrupted (a : Answer)
  | error (code : Option ℤ)
  deriving DecidableEq

/-- A connection: `Pipe`, and the stream behind its socket. -/
structure Conn where
  leftover : List UInt8
  /-- What has been read from the stream. -/
  taken : List UInt8
  /-- What is still to be read from it. -/
  unread : List UInt8
  /-- How the stream ends, if it does. -/
  ending : Option Ending
  deriving DecidableEq

/-- `Source::read`: up to `room` bytes, onto the end of `into`. -/
def Conn.read (c : Conn) (into : List UInt8) (room : ℕ) :
    Answer → Conn × List UInt8 × Except RuntimeError Io
  | .interrupted a => c.read into room a
  | .again filter => (c, into, .ok (.wait filter))
  | .error code => (c, into, .error (.checkError code))
  | .ready n =>
    -- A read of no bytes comes back with none, as it does at the end.
    if room = 0 then (c, into, .ok .closed)
    else match c.unread, c.ending with
      | [], none => (c, into, .ok (.wait .read))
      | [], some .closed => (c, into, .ok .closed)
      | [], some .cut => (c, into, .ok .truncated)
      | b :: l, _ =>
        let k := min (n + 1) (min room (b :: l).length)
        ({ c with taken := c.taken ++ (b :: l).take k, unread := (b :: l).drop k },
          into ++ (b :: l).take k, .ok (.moved k))

/-- What a receive is waiting for. -/
inductive Want
  | some (max : ℕ)
  | exact (len : ℕ)
  | until (delimiter : List UInt8) (max : ℕ)
  | toEnd
  deriving DecidableEq

/-- `matches!(self.want, Want::Some(_))`. -/
def Want.isSome : Want → Bool
  | .some _ => true
  | _ => false

/-- How far a receive has got. -/
structure Reading where
  got : List UInt8
  started : Bool
  searched : ℕ
  deriving DecidableEq

/-- `Reading::default`. -/
def Reading.new : Reading := ⟨[], false, 0⟩

/-- A receive, next to its connection. -/
structure RecvTask where
  source : Conn
  want : Want
  progress : Reading
  deriving DecidableEq

/-- What a step came to. -/
inductive Step
  | done (out : Except RuntimeError (List UInt8))
  | park (filter : Filter)
  deriving DecidableEq

def Conn.putFront (c : Conn) (bytes : List UInt8) : Conn :=
  if bytes.isEmpty then c else { c with leftover := bytes ++ c.leftover }

namespace RecvTask

/-- `take`: what the receive has read leaves it as its output. -/
def take (t : RecvTask) : RecvTask × List UInt8 :=
  ({ t with progress := { t.progress with got := [] } }, t.progress.got)

def putBack (t : RecvTask) : RecvTask :=
  { t.take.1 with source := t.source.putFront t.take.2 }

/-- `take_leftover`: the output, when the leftover alone is enough for it. -/
def takeLeftover (t : RecvTask) : RecvTask × Option (List UInt8) :=
  match t.want with
  | .some 0 | .exact 0 => (t, some [])
  | _ =>
    let leftover := t.source.leftover
    if leftover.isEmpty then (t, none)
    else
      let limit := match t.want with
        | .some max => max
        | .exact len => len
        -- `usize::MAX`, which no buffer is longer than.
        | .until _ _ | .toEnd => leftover.length
      let split := min limit leftover.length
      let t' := { t with source := { t.source with leftover := leftover.drop split } }
      if t.want.isSome then (t', some (leftover.take split))
      else ({ t' with progress := { t.progress with got := leftover.take split } }, none)

/-- Where the search for a delimiter finds one, from the place the last search leaves it at. -/
def found (t : RecvTask) (delimiter : List UInt8) : Option ℕ :=
  -- Backed up, since a delimiter can straddle two reads.
  let from_ := t.progress.searched - (delimiter.length - 1)
  if delimiter.isEmpty then some 0
  else (position delimiter (t.progress.got.drop from_)).map (from_ + ·)

/-- `done`: whether what has been read is enough. -/
def done (t : RecvTask) : RecvTask × Except RuntimeError (Option (List UInt8)) :=
  match t.want with
  | .some n | .exact n =>
    if n ≤ t.progress.got.length then (t.take.1, .ok (some t.take.2)) else (t, .ok none)
  | .toEnd => (t, .ok none)
  | .until delimiter max =>
    let got := t.progress.got
    let t' := { t with progress := { t.progress with searched := got.length } }
    match t.found delimiter with
    | none => (t', if max ≤ got.length then .error .tooLong else .ok none)
    | some pos =>
      let stop := pos + delimiter.length
      if max < stop then (t', .error .tooLong)
      else
        -- Whatever came after the delimiter is the next receive's.
        ({ t'.take.1 with source := t.source.putFront (got.drop stop) }, .ok (some (got.take stop)))

/-- `advance`, from the head of its loop to the read. -/
def look (t : RecvTask) (moved : ℕ) : RecvTask × Option (Except RuntimeError Step) :=
  match t.done with
  | (t, .error e) => (t, some (.error e))
  | (t, .ok (some out)) => (t, some (.ok (.done (.ok out))))
  | (t, .ok none) =>
    if stepBudget ≤ moved then
      if t.want.isSome then (t.take.1, some (.ok (.done (.ok t.take.2))))
      else (t, some (.ok (.park .read)))
    else (t, none)

/-- How much is to be read at once. -/
def room (t : RecvTask) : ℕ :=
  match t.want with
  | .some n | .exact n => n - t.progress.got.length
  | .until _ _ | .toEnd => fileChunk

/-- The other side closed. -/
def ended (t : RecvTask) : RecvTask × Except RuntimeError Step :=
  match t.want with
  | .some _ | .toEnd => (t.take.1, .ok (.done (.ok t.take.2)))
  | .exact _ | .until _ _ => (t, .error .closed)

/-- `advance`, from the read to the next round of its loop: what the step came to, or how much was
read. -/
def turn (t : RecvTask) (a : Answer) : RecvTask × (Except RuntimeError Step ⊕ ℕ) :=
  let r := t.source.read t.progress.got (min t.room fileChunk) a
  let t' := { t with source := r.1, progress := { t.progress with got := r.2.1 } }
  match r.2.2 with
  | .error e => (t', .inl (.error e))
  | .ok .closed => (t'.ended.1, .inl t'.ended.2)
  | .ok .truncated => (t', .inl (.error .closed))
  | .ok (.moved n) => (t', .inr n)
  | .ok (.wait filter) =>
    -- A `recv` only waits if it has nothing at all.
    if t.want.isSome && 0 < t.progress.got.length then
      (t'.take.1, .inl (.ok (.done (.ok t'.take.2))))
    else (t', .inl (.ok (.park filter)))

/-- The loop of `advance`, and the answers it did not use; none where they do not suffice. -/
def loop (t : RecvTask) (moved : ℕ) (as : List Answer) :
    Option (RecvTask × Except RuntimeError Step × List Answer) :=
  match t.look moved with
  | (t, some r) => some (t, r, as)
  | (t, none) =>
    match as with
    | [] => none
    | a :: as =>
      match t.turn a with
      | (t, .inl r) => some (t, r, as)
      | (t, .inr n) => t.loop (moved + n) as
termination_by structural as

def advance (t : RecvTask) (as : List Answer) :
    Option (RecvTask × Except RuntimeError Step × List Answer) :=
  if t.progress.started then t.loop 0 as
  else
    match { t with progress := { t.progress with started := true } }.takeLeftover with
    | (t, some out) => some (t, .ok (.done (.ok out)), as)
    | (t, none) => t.loop 0 as

/-- `settle_recv`: a step, which puts back what was read if it fails. -/
def settleRecv (t : RecvTask) (as : List Answer) : Option (RecvTask × Step × List Answer) :=
  (t.advance as).map fun
    | (t, .ok step, as) => (t, step, as)
    | (t, .error e, as) => (t.putBack, .done (.error e), as)

/-- `prepare`: a run starts over. -/
def prepare (t : RecvTask) : RecvTask := { t.putBack with progress := .new }

/-- `RecvTask::new`. -/
def new (source : Conn) (want : Want) : RecvTask := ⟨source, want, .new⟩

/-- `park::drive`: steps until one is done, at most `n` of them. The receive is dropped with what it
still has. -/
def drive : ℕ → RecvTask → List Answer → Option (Conn × Except RuntimeError (List UInt8))
  | 0, _, _ => none
  | n + 1, t, as =>
    match t.settleRecv as with
    | none => none
    | some (t, .done out, _) => some (t.putBack.source, out)
    | some (t, .park _, as) => t.drive n as

end RecvTask

end Atap.Stream
