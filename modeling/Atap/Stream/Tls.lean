import Atap.Stream.Account

/-!
# TLS on a connection

A TLS connection is a TCP connection, whose pipe it goes on using, with a session in front of the
socket. The session is a black box that **decrypts what it is fed in order** (`Tls`): what it makes
of the bytes it was fed so far. The handshake and `TlsConnection::read` feed it from the socket and
hand out what it has decrypted; a receive is the same task as on a TCP connection, with that read.

A receive therefore takes the leftover of the pipe first, whoever put it there, and `upgrade` hands
the TCP connection over as it is.
-/

namespace Atap.Stream

/-- What a session makes of the bytes it was fed. -/
structure Tls where
  /-- What it has decrypted. -/
  plain : List UInt8 → List UInt8
  handshaking : List UInt8 → Bool
  /-- The other side said goodbye. -/
  closed : List UInt8 → Bool
  /-- `process_new_packets` fails. -/
  refuses : List UInt8 → Bool
  plain_append : ∀ fed more, plain fed <+: plain (fed ++ more)
  closed_append : ∀ fed more, closed fed = true →
    closed (fed ++ more) = true ∧ plain (fed ++ more) = plain fed

/-- A TLS connection. -/
structure TlsConn where
  tcp : Conn
  /-- What the session was fed. -/
  fed : List UInt8
  /-- How much of what it has decrypted was handed out. -/
  given : ℕ
  /-- The session was told of the end of the stream. -/
  eof : Bool
  deriving DecidableEq

/-- `send_pending`: none once all has gone. -/
def Answer.sent : Answer → Option (Except RuntimeError Io)
  | .ready _ => none
  | .again _ => some (.ok (.wait .write))
  | .error code => some (.error (.checkError code))
  | .interrupted a => a.sent

namespace TlsConn

/-- The session is fed the next `n` bytes of the socket. -/
def feed (c : TlsConn) (n : ℕ) : TlsConn :=
  { c with
    tcp := { c.tcp with taken := c.tcp.taken ++ c.tcp.unread.take n, unread := c.tcp.unread.drop n }
    fed := c.fed ++ c.tcp.unread.take n }

/-- `read_tls` and `process`: none where the session was given something to go on with. -/
def readTls (k : Tls) (c : TlsConn) : Answer → TlsConn × Option (Except RuntimeError Io)
  | .interrupted a => c.readTls k a
  | .again _ => (c, some (.ok (.wait .read)))
  | .error code => (c, some (.error (.checkError code)))
  | .ready n =>
    if c.tcp.unread = [] ∧ c.tcp.ending = none then (c, some (.ok (.wait .read)))
    else
      let c := if c.tcp.unread = [] then { c with eof := true } else c.feed (n + 1)
      -- what the session has against the bytes is not modelled
      (c, if k.refuses c.fed then some (.error (.checkError none)) else none)

/-- `handshake`: none once it is done, or what to wait for. -/
def handshake (k : Tls) (c : TlsConn) :
    List (Answer × Answer) → Option (TlsConn × Except RuntimeError (Option Io))
  | [] => none
  | (send, recv) :: as =>
    match send.sent with
    | some (.ok io) => some (c, .ok (some io))
    | some (.error e) => some (c, .error e)
    | none =>
      if k.handshaking c.fed = false then some (c, .ok none)
      else
        match c.readTls k recv with
        | (c, some (.ok io)) => some (c, .ok (some io))
        | (c, some (.error e)) => some (c, .error e)
        | (c, none) => if c.eof then some (c, .error .closed) else handshake k c as

/-- `TlsConnectTask::advance` and `TlsAcceptTask::advance` over a connection that is open already,
a handshake for every time the task comes back from its park. -/
def shake (k : Tls) (c : TlsConn) : List (List (Answer × Answer)) → Option TlsConn
  | [] => none
  | as :: steps =>
    match c.handshake k as with
    | some (c, .ok none) => some c
    | some (c, .ok (some _)) => c.shake k steps
    | _ => none

/-- `upgrade`: the session is new, and the pipe is that of the TCP connection. -/
def upgrade (k : Tls) (tcp : Conn) (steps : List (List (Answer × Answer))) : Option TlsConn :=
  shake k ⟨tcp, [], 0, false⟩ steps

/-- `TlsConnection::read`, with what the kernel answers to each round of its loop. -/
def read (k : Tls) (c : TlsConn) (into : List UInt8) (room : ℕ) (as : List (Answer × Answer)) :
    Option (TlsConn × List UInt8 × Except RuntimeError Io) :=
  let ready := (k.plain c.fed).drop c.given
  if room = 0 then some (c, into, .ok .closed)
  else if ready ≠ [] then
    some ({ c with given := c.given + (ready.take room).length }, into ++ ready.take room,
      .ok (.moved (ready.take room).length))
  else if k.closed c.fed then some (c, into, .ok .closed)
  else if c.eof then some (c, into, .ok .truncated)
  else
    match as with
    | [] => none
    | (send, recv) :: as =>
      match send.sent with
      | some io => some (c, into, io)
      | none =>
        match c.readTls k recv with
        | (c, some io) => some (c, into, io)
        | (c, none) => c.read k into room as
termination_by structural as

end TlsConn

/-- `RecvTask::advance`, once a read has come back: what the step came to, or how much was read. -/
def RecvTask.heed (t : RecvTask) (had : ℕ) :
    Except RuntimeError Io → RecvTask × (Except RuntimeError Step ⊕ ℕ)
  | .error e => (t, .inl (.error e))
  | .ok .closed => (t.ended.1, .inl t.ended.2)
  | .ok .truncated => (t, .inl (.error .closed))
  | .ok (.moved n) => (t, .inr n)
  | .ok (.wait filter) =>
    if t.want.isSome && 0 < had then (t.take.1, .inl (.ok (.done (.ok t.take.2))))
    else (t, .inl (.ok (.park filter)))

/-- A receive on a TLS connection. -/
structure TlsRecv where
  source : TlsConn
  want : Want
  progress : Reading
  deriving DecidableEq

namespace TlsRecv

/-- What a receive does without its session, it does with the pipe. -/
def pipe (t : TlsRecv) : RecvTask := ⟨t.source.tcp, t.want, t.progress⟩

/-- The receive, after it has done `r` with the pipe. -/
def after (t : TlsRecv) (r : RecvTask) : TlsRecv :=
  { t with source := { t.source with tcp := r.source }, progress := r.progress }

/-- The read, and what comes of it. -/
def turn (k : Tls) (t : TlsRecv) (as : List (Answer × Answer)) :
    Option (TlsRecv × (Except RuntimeError Step ⊕ ℕ)) :=
  (t.source.read k t.progress.got (min t.pipe.room fileChunk) as).map fun r =>
    let t' := { t with source := r.1, progress := { t.progress with got := r.2.1 } }
    let q := t'.pipe.heed t.progress.got.length r.2.2
    (t'.after q.1, q.2)

/-- The loop of `advance`, with the answers to each of its reads. -/
def loop (k : Tls) (t : TlsRecv) (moved : ℕ) (as : List (List (Answer × Answer))) :
    Option (TlsRecv × Except RuntimeError Step) :=
  match t.pipe.look moved with
  | (r, some e) => some (t.after r, e)
  | (r, none) =>
    match as with
    | [] => none
    | a :: as =>
      match (t.after r).turn k a with
      | none => none
      | some (t, .inl e) => some (t, e)
      | some (t, .inr n) => t.loop k (moved + n) as
termination_by structural as

def advance (k : Tls) (t : TlsRecv) (as : List (List (Answer × Answer))) :
    Option (TlsRecv × Except RuntimeError Step) :=
  if t.progress.started then t.loop k 0 as
  else
    match { t.pipe with progress := { t.progress with started := true } }.takeLeftover with
    | (r, some out) => some (t.after r, .ok (.done (.ok out)))
    | (r, none) => (t.after r).loop k 0 as

def settleRecv (k : Tls) (t : TlsRecv) (as : List (List (Answer × Answer))) :
    Option (TlsRecv × Step) :=
  (t.advance k as).map fun
    | (t, .ok step) => (t, step)
    | (t, .error e) => (t.after t.pipe.putBack, .done (.error e))

end TlsRecv

/-- A TLS connection with one receive after the other on it. -/
structure TlsSession where
  conn : TlsConn
  current : Option (Want × Reading × Bool)
  outputs : List (List UInt8)

/-- What is done with the receive at hand. -/
inductive TlsOp
  | start (want : Want)
  | prepare
  | step (as : List (List (Answer × Answer)))
  | drop

namespace TlsSession

/-- A TLS connection that nothing was received on. -/
def new (c : TlsConn) : TlsSession := ⟨c, none, []⟩

/-- As `Session.op`. -/
def op (k : Tls) (s : TlsSession) : TlsOp → Option TlsSession
  | .start want =>
    match s.current with
    | none => some { s with current := some (want, .new, false) }
    | some _ => none
  | .prepare =>
    s.current.map fun (want, progress, _) =>
      let t := TlsRecv.mk s.conn want progress
      { s with conn := (t.after t.pipe.prepare).source, current := some (want, .new, false) }
  | .step as =>
    match s.current with
    | some (want, progress, false) =>
      ((TlsRecv.mk s.conn want progress).settleRecv k as).map fun
        | (t, .done (.ok out)) =>
          { conn := t.source, current := some (want, t.progress, true)
            outputs := s.outputs ++ [out] }
        | (t, .done (.error _)) =>
          { s with conn := t.source, current := some (want, t.progress, true) }
        | (t, .park _) => { s with conn := t.source, current := some (want, t.progress, false) }
    | _ => none
  | .drop =>
    s.current.map fun (want, progress, _) =>
      let t := TlsRecv.mk s.conn want progress
      { s with conn := (t.after t.pipe.putBack).source, current := none }

def run (k : Tls) (s : TlsSession) (ops : List TlsOp) : Option TlsSession := ops.foldlM (op k) s

end TlsSession

end Atap.Stream
