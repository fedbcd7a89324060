import Atap.Interleave.Run
import Atap.Stream.Upgrade

/-!
# What a receive waits for

A receive that parks until its socket is readable is woken by what arrives at the socket, and by
nothing else. Here `Conn.unread` and `Conn.ending` are what the kernel holds **at the moment**, and
bytes and the end of the stream arrive between any two calls. A session hands out what it has
decrypted before it looks at the socket, and reports the end once it has processed the goodbye.

* `woken`: while a receive is parked on its socket, the socket is readable, or neither the receive
  nor its session has anything for it to go on with. On a session, this needs that no step has moved
  as much as one turn may (`Short`).
* `answer_withheld`: otherwise the session may have the answer. A receive to the end, whose last
  record of one turn comes with the goodbye, parks with the end processed and the socket empty.

A step stops for three reasons. One that found nothing has just looked at the session and at the
socket. One that owes the other side a flush waits for the socket to take it. One that has moved
enough for a turn has looked at neither, and counts on the socket being readable still.
-/

namespace Atap.Stream.Readable

/-- What a receive reads from: the socket, or a session with what it was fed and how much of what it
has decrypted was handed out. -/
inductive Source
  | plain
  | tls (fed : List UInt8) (given : ℕ)
  deriving DecidableEq

namespace Source

/-- What the session has decrypted and not handed out. -/
def ready (k : Tls) : Source → List UInt8
  | plain => []
  | tls fed given => (k.plain fed).drop given

/-- The session has processed the goodbye of the other side. -/
def closed (k : Tls) : Source → Bool
  | plain => false
  | tls fed _ => k.closed fed

def isTls : Source → Bool
  | plain => false
  | tls _ _ => true

/-- The session is fed `bytes`. -/
def feed (bytes : List UInt8) : Source → Source
  | plain => plain
  | tls fed given => tls (fed ++ bytes) given

/-- The session hands out `n` bytes. -/
def give (n : ℕ) : Source → Source
  | plain => plain
  | tls fed given => tls fed (given + n)

/-- `process_new_packets` fails. -/
def refuses (k : Tls) : Source → Bool
  | plain => false
  | tls fed _ => k.refuses fed

end Source

/-- Where a receive stands. -/
inductive Pc
  /-- There is none. -/
  | idle
  /-- No step of it has begun. -/
  | ready
  /-- At the head of the loop of `advance`, with what this step has moved. -/
  | loop (moved : ℕ)
  /-- Before the call that reads from a plain socket. -/
  | read (moved : ℕ)
  /-- At the head of the loop of `TlsConnection::read`. -/
  | reader (moved : ℕ) (ended : Bool)
  /-- In `send_pending`. -/
  | pend (moved : ℕ)
  /-- Before `read_tls`. -/
  | readTls (moved : ℕ)
  | parked (filter : Filter)
  | done (out : Except RuntimeError (List UInt8))
  deriving DecidableEq

/-- No step of the receive is on. -/
def Pc.rests : Pc → Bool
  | ready | parked _ => true
  | _ => false

/-- The receive has its outcome. -/
def Pc.isDone : Pc → Bool
  | done _ => true
  | _ => false

/-- A receive on its connection. -/
structure Recv where
  pipe : RecvTask
  source : Source
  pc : Pc
  deriving DecidableEq

inductive Act
  | start (want : Want)
  /-- The receive is run, or resumed from a park. -/
  | step
  | go
  /-- The kernel hands out up to `n + 1` bytes, the end, or nothing. -/
  | take (n : ℕ)
  | interrupted
  /-- The socket has no room for what the session owes. -/
  | full
  | error (code : Option ℤ)
  | arrive (bytes : List UInt8)
  /-- The end of the stream arrives. -/
  | finish
  | drop
  deriving DecidableEq

namespace Recv

/-- `settle_recv`. -/
def settle (s : Recv) (t : RecvTask) : Except RuntimeError Step → Recv
  | .ok (.done out) => { s with pipe := t, pc := .done out }
  | .ok (.park filter) => { s with pipe := t, pc := .parked filter }
  | .error e => { s with pipe := t.putBack, pc := .done (.error e) }

/-- A read has come back. -/
def heeded (s : Recv) (moved : ℕ) (r : RecvTask × (Except RuntimeError Step ⊕ ℕ)) : Recv :=
  match r.2 with
  | .inl e => s.settle r.1 e
  | .inr n => { s with pipe := r.1, pc := .loop (moved + n) }

/-- What `TlsConnection::read` came to. -/
def came (s : Recv) (moved : ℕ) (io : Except RuntimeError Io) : Recv :=
  s.heeded moved (s.pipe.heed s.pipe.progress.got.length io)

/-- The first half of a round of `TlsConnection::read`: what the session hands out. -/
def askReader (k : Tls) (s : Recv) (moved : ℕ) (ended : Bool) : Recv :=
  let room := min s.pipe.room fileChunk
  let out := (s.source.ready k).take room
  if room = 0 then s.came moved (.ok .closed)
  else if s.source.ready k ≠ [] then
    let t := { s.pipe with progress := { s.pipe.progress with got := s.pipe.progress.got ++ out } }
    { s with source := s.source.give out.length }.heeded moved
      (t.heed s.pipe.progress.got.length (.ok (.moved out.length)))
  else if s.source.closed k then s.came moved (.ok .closed)
  else if ended then s.came moved (.ok .truncated)
  else { s with pc := .pend moved }

/-- The second half: `read_tls`, and `process`. -/
def askSocket (k : Tls) (s : Recv) (moved n : ℕ) : Recv :=
  let c := s.pipe.source
  if c.unread = [] ∧ c.ending = none then s.came moved (.ok (.wait .read))
  else
    let s' := { s with
      pipe := { s.pipe with source :=
        { c with taken := c.taken ++ c.unread.take (n + 1), unread := c.unread.drop (n + 1) } }
      source := s.source.feed (c.unread.take (n + 1)) }
    -- what the session has against the bytes is not modelled
    if s'.source.refuses k then s'.came moved (.error (.checkError none))
    else { s' with pc := .reader moved c.unread.isEmpty }

/-- The kernel holds other bytes, or another end. -/
def hold (s : Recv) (unread : List UInt8) (ending : Option Ending) : Recv :=
  { s with pipe := s.pipe.on { s.pipe.source with unread := unread, ending := ending } }

/-- One step. -/
def next (k : Tls) (s : Recv) : Act → Option Recv
  | .start want =>
    match s.pc with
    | .idle => some { s with pipe := .new s.pipe.source want, pc := .ready }
    | _ => none
  | .step =>
    if s.pc.rests then
      if s.pipe.progress.started then some { s with pc := .loop 0 }
      else
        match { s.pipe with progress := { s.pipe.progress with started := true } }.takeLeftover with
        | (t, some out) => some { s with pipe := t, pc := .done (.ok out) }
        | (t, none) => some { s with pipe := t, pc := .loop 0 }
    else none
  | .go =>
    match s.pc with
    | .loop moved =>
      match s.pipe.look moved with
      | (t, some e) => some (s.settle t e)
      | (t, none) =>
        some { s with pipe := t, pc := if s.source.isTls then .reader moved false else .read moved }
    | .reader moved ended => some (s.askReader k moved ended)
    -- all that was owed has gone
    | .pend moved => some { s with pc := .readTls moved }
    | _ => none
  | .take n =>
    match s.pc with
    | .read moved => some (s.heeded moved (s.pipe.turn (.ready n)))
    | .readTls moved => some (s.askSocket k moved n)
    | _ => none
  | .interrupted =>
    match s.pc with
    | .read _ | .pend _ => some s
    | .readTls moved => some { s with pc := .reader moved false }
    | _ => none
  | .full =>
    match s.pc with
    | .pend moved => some (s.came moved (.ok (.wait .write)))
    | _ => none
  | .error code =>
    match s.pc with
    | .read moved | .pend moved | .readTls moved =>
      some (s.came moved (.error (.checkError code)))
    | _ => none
  | .arrive bytes =>
    if s.pipe.source.ending = none then
      some (s.hold (s.pipe.source.unread ++ bytes) none)
    else none
  | .finish => some (s.hold s.pipe.source.unread (some .closed))
  | .drop =>
    if s.pc.rests || s.pc.isDone then
      some { s with pipe := s.pipe.putBack, pc := .idle }
    else none

end Recv

/-! ### What a receive holds when it goes on to read -/

end Atap.Stream.Readable

namespace Atap.Stream.RecvTask

variable {t r : RecvTask}

/-- What has been read is not enough. -/
def Unfinished (t : RecvTask) : Prop := t.done.2 = .ok none

/-- A search that found nothing finds nothing again. -/
theorem found_again {d : List UInt8} (h : t.found d = none) (n : ℕ)
    (hn : t.progress.searched ≤ n) :
    ({ t with progress := { t.progress with searched := n } } : RecvTask).found d = none := by
  unfold found at h ⊢
  dsimp only at h ⊢
  split at h
  case isTrue => cases h
  case isFalse hd =>
    rw [if_neg hd]
    have hnone := Option.map_eq_none_iff.mp h
    refine Option.map_eq_none_iff.mpr ?_
    cases hp : position d (t.progress.got.drop (n - (d.length - 1))) with
    | none => rfl
    | some i =>
      obtain ⟨-, hpre, -⟩ := position_eq_some hp
      rw [List.drop_drop] at hpre
      -- the window is one the first search came by
      refine absurd ?_ (position_eq_none hnone
        (n - (d.length - 1) + i - (t.progress.searched - (d.length - 1))))
      rw [List.drop_drop]
      convert hpre using 2
      omega

/-- The receive has begun, and its search is not ahead of its buffer. -/
structure Going (t : RecvTask) : Prop where
  started : t.progress.started = true
  behind : t.progress.searched ≤ t.progress.got.length

/-- What is not enough is not enough at a second look either. -/
theorem unfinished_of_done (hg : t.Going) (h : t.done = (r, .ok none)) :
    r.Unfinished ∧ r.Going ∧ r.want = t.want ∧ r.source = t.source := by
  unfold done at h
  split at h
  case h_1 n hw | h_2 n hw =>
    split at h
    case isTrue => cases h
    case isFalse hlt =>
      cases h
      refine ⟨?_, hg, rfl, rfl⟩
      unfold Unfinished done
      rw [hw]
      dsimp only
      rw [if_neg hlt]
  case h_3 hw =>
    cases h
    refine ⟨?_, hg, rfl, rfl⟩
    unfold Unfinished done
    rw [hw]
  case h_4 d max hw =>
    dsimp only at h
    split at h
    case h_1 hf =>
      split at h
      case isTrue => cases h
      case isFalse hlt =>
        cases h
        refine ⟨?_, ⟨hg.started, le_rfl⟩, rfl, rfl⟩
        have hagain := found_again hf t.progress.got.length hg.behind
        unfold Unfinished done
        rw [hw] at hagain ⊢
        dsimp only at hagain ⊢
        rw [hagain]
        dsimp only
        rw [if_neg hlt]
    case h_2 =>
      split at h <;> cases h

/-- `advance` goes on to read only if what has been read is not enough. -/
theorem unfinished_of_look {moved : ℕ} (hg : t.Going) (h : t.look moved = (r, none)) :
    r.Unfinished ∧ r.Going := by
  unfold look at h
  split at h
  case h_1 => cases h
  case h_2 => cases h
  case h_3 t' hd =>
    obtain ⟨hu, hg', -, -⟩ := unfinished_of_done hg hd
    split at h
    · split at h <;> cases h
    · cases h
      exact ⟨hu, hg'⟩

/-- `advance` parks before it reads only if it has moved enough for a turn. -/
theorem park_of_look {moved : ℕ} {f : Filter} (hg : t.Going)
    (h : t.look moved = (r, some (.ok (.park f)))) :
    stepBudget ≤ moved ∧ r.Unfinished ∧ r.Going ∧ r.want.isSome = false := by
  unfold look at h
  split at h
  case h_1 => cases h
  case h_2 => cases h
  case h_3 t' hd =>
    obtain ⟨hu, hg', -, -⟩ := unfinished_of_done hg hd
    split at h
    case isTrue hm =>
      split at h
      case isTrue => cases h
      case isFalse hs =>
        cases h
        exact ⟨hm, hu, hg', Bool.eq_false_iff.mpr hs⟩
    case isFalse => cases h

/-- The end of a stream is not waited for. -/
theorem ended_ne_park {f : Filter} : t.ended.2 ≠ .ok (.park f) := by
  unfold ended
  split <;> exact nofun

/-- After a read, a receive parks only if there was nothing, and only if it has nothing that a
`recv` would hand out. -/
theorem park_of_heed {had : ℕ} {io : Except RuntimeError Io} {f : Filter}
    (h : t.heed had io = (r, .inl (.ok (.park f)))) :
    io = .ok (.wait f) ∧ r = t ∧ (t.want.isSome = true → had = 0) := by
  unfold heed at h
  split at h
  case h_1 => cases h
  case h_2 => exact absurd (Sum.inl.inj (Prod.mk.inj h).2) ended_ne_park
  case h_3 => cases h
  case h_4 => cases h
  case h_5 filter =>
    split at h
    case isTrue => cases h
    case isFalse hs =>
      cases h
      refine ⟨rfl, rfl, ?_⟩
      intro hw
      simpa [hw] using hs

/-- A read that moved something goes to the end of the buffer. -/
theorem Going.heed {had : ℕ} {io : Except RuntimeError Io} {n : ℕ} (hg : t.Going)
    (h : t.heed had io = (r, .inr n)) : r.Going := by
  unfold RecvTask.heed at h
  split at h
  case h_4 =>
    cases h
    exact hg
  case h_5 => split at h <;> cases h
  all_goals cases h

theorem Going.append (hg : t.Going) (bytes : List UInt8) :
    Going { t with progress := { t.progress with got := t.progress.got ++ bytes } } where
  started := hg.started
  behind := hg.behind.trans (by simp)

/-- What has just been taken over from the connection has not been searched. -/
theorem Going.takeLeftover (hg : t.Going) (hz : t.progress.searched = 0)
    (h : t.takeLeftover = (r, none)) : r.Going := by
  unfold RecvTask.takeLeftover at h
  split at h
  case h_1 | h_2 => cases h
  case h_3 =>
    dsimp only at h
    split at h
    · cases h
      exact hg
    · split at h <;> cases h
      exact ⟨hg.started, hz ▸ Nat.zero_le _⟩

end Atap.Stream.RecvTask

namespace Atap.Stream

/-- A read of a plain socket puts what it moves at the end of the buffer, and leaves all as it is if
it has to wait. -/
theorem Conn.read_ready_cases (c : Conn) (into : List UInt8) (room n : ℕ) :
    ∃ c' bytes io, c.read into room (.ready n) = (c', into ++ bytes, io) ∧
      ∀ f, io = .ok (.wait f) → c' = c ∧ bytes = [] := by
  unfold Conn.read
  split
  case isTrue => exact ⟨c, [], .ok .closed, by rw [List.append_nil], fun _ h => by cases h⟩
  case isFalse =>
    split
    case h_1 => exact ⟨c, [], .ok (.wait .read), by rw [List.append_nil], fun f _ => ⟨rfl, rfl⟩⟩
    case h_2 => exact ⟨c, [], .ok .closed, by rw [List.append_nil], fun _ h => by cases h⟩
    case h_3 => exact ⟨c, [], .ok .truncated, by rw [List.append_nil], fun _ h => by cases h⟩
    case h_4 => exact ⟨_, _, _, rfl, fun _ h => by cases h⟩

/-- What the kernel holds has no part in whether a receive is finished. -/
theorem RecvTask.unfinished_on {t : RecvTask} (c : Conn) :
    (t.on c).Unfinished ↔ t.Unfinished := by
  unfold RecvTask.Unfinished
  rw [RecvTask.done_on]

namespace Readable

open RecvTask (Unfinished Going)

/-! ### While a receive is parked -/

/-- What the kernel reports: unread bytes, or the end. -/
def Recv.IsReadable (s : Recv) : Prop := s.pipe.source.unread ≠ [] ∨ s.pipe.source.ending ≠ none

/-- The session has a byte or the end for the receive, or what the receive has read is enough for an
outcome. -/
def Recv.Answerable (k : Tls) (s : Recv) : Prop :=
  s.source.ready k ≠ [] ∨ s.source.closed k = true ∨ ¬ s.pipe.Unfinished ∨
    (s.pipe.want.isSome = true ∧ s.pipe.progress.got ≠ [])

/-- What holds of a receive, by where it stands. -/
def Recv.Fits (k : Tls) (s : Recv) : Prop :=
  match s.pc with
  | .idle | .done _ => True
  | .ready => s.pipe.progress.searched = 0 ∧ s.pipe.progress.started = false
  | .loop _ => s.pipe.Going
  | .read _ => s.pipe.Going ∧ s.pipe.Unfinished ∧ s.source = .plain
  | .reader _ _ => s.pipe.Going ∧ s.pipe.Unfinished
  | .pend _ | .readTls _ => s.pipe.Going ∧ s.pipe.Unfinished ∧ s.source.ready k = [] ∧
      s.source.closed k = false
  | .parked f => s.pipe.Going ∧ (f = .read → s.IsReadable ∨ ¬ s.Answerable k)

variable {k : Tls} {s s' : Recv} {t : RecvTask}

theorem fits_settle {e : Except RuntimeError Step}
    (h : ∀ f, e = .ok (.park f) → ({ s with pipe := t, pc := .parked f } : Recv).Fits k) :
    (s.settle t e).Fits k := by
  unfold Recv.settle
  split
  · trivial
  · exact h _ rfl
  · trivial

/-- After a read, what there is to show is that the receive waits for the right thing. -/
theorem fits_heeded {moved had : ℕ} {io : Except RuntimeError Io} (hg : t.Going)
    (h : ∀ f, io = .ok (.wait f) → (t.want.isSome = true → had = 0) →
      ({ s with pipe := t, pc := .parked f } : Recv).Fits k) :
    (s.heeded moved (t.heed had io)).Fits k := by
  rcases hq : t.heed had io with ⟨r, e | n⟩
  · refine fits_settle ?_
    rintro f rfl
    obtain ⟨hio, rfl, hsome⟩ := RecvTask.park_of_heed hq
    exact h f hio hsome
  · exact hg.heed hq

/-- A receive that found nothing, in its session or in its socket, waits for the socket. -/
theorem fits_parked {f : Filter} (hg : t.Going) (hu : t.Unfinished)
    (hsome : t.want.isSome = true → t.progress.got.length = 0) (hready : s.source.ready k = [])
    (hclosed : s.source.closed k = false) :
    ({ s with pipe := t, pc := .parked f } : Recv).Fits k := by
  refine ⟨hg, fun _ => .inr ?_⟩
  rintro (hr | hc | hn | ⟨hw, hne⟩)
  · exact hr hready
  · exact absurd hc (by rw [hclosed]; exact Bool.false_ne_true)
  · exact hn hu
  · exact hne (List.length_eq_zero_iff.mp (hsome hw))

/-- A read that did not wait, or failed. -/
theorem fits_came {moved : ℕ} {io : Except RuntimeError Io} (hg : s.pipe.Going)
    (h : ∀ f, io ≠ .ok (.wait f)) : (s.came moved io).Fits k :=
  fits_heeded hg fun f hf => absurd hf (h f)

/-- A read that waits, with nothing in the session. -/
theorem fits_came_wait {moved : ℕ} {f : Filter} (hg : s.pipe.Going) (hu : s.pipe.Unfinished)
    (hready : s.source.ready k = []) (hclosed : s.source.closed k = false) :
    (s.came moved (.ok (.wait f))).Fits k := by
  refine fits_heeded hg ?_
  rintro f' - hsome
  exact fits_parked hg hu hsome hready hclosed

theorem fits_askReader {moved : ℕ} {ended : Bool} (hg : s.pipe.Going) (hu : s.pipe.Unfinished) :
    (s.askReader k moved ended).Fits k := by
  unfold Recv.askReader
  dsimp only
  split
  · exact fits_came hg nofun
  · split
    · exact fits_heeded (hg.append _) nofun
    · rename_i hready
      split
      · exact fits_came hg nofun
      · rename_i hclosed
        split
        · exact fits_came hg nofun
        · exact ⟨hg, hu, not_not.mp hready, Bool.eq_false_iff.mpr hclosed⟩

theorem fits_askSocket {moved n : ℕ} (hg : s.pipe.Going) (hu : s.pipe.Unfinished)
    (hready : s.source.ready k = []) (hclosed : s.source.closed k = false) :
    (s.askSocket k moved n).Fits k := by
  unfold Recv.askSocket
  dsimp only
  split
  · exact fits_came_wait hg hu hready hclosed
  · split
    · exact fits_came ⟨hg.started, hg.behind⟩ nofun
    · exact ⟨⟨hg.started, hg.behind⟩, (RecvTask.unfinished_on { s.pipe.source with
        taken := s.pipe.source.taken ++ s.pipe.source.unread.take (n + 1)
        unread := s.pipe.source.unread.drop (n + 1) }).mpr hu⟩

/-- A read of a plain socket. -/
theorem fits_turn {moved n : ℕ} (hg : s.pipe.Going) (hu : s.pipe.Unfinished)
    (hp : s.source = .plain) : (s.heeded moved (s.pipe.turn (.ready n))).Fits k := by
  obtain ⟨c, bytes, io, hread, hwait⟩ := s.pipe.source.read_ready_cases s.pipe.progress.got
    (min s.pipe.room fileChunk) n
  rw [RecvTask.turn_eq hread]
  refine fits_heeded ⟨hg.started, hg.behind.trans (by simp)⟩ ?_
  intro f hf hsome
  obtain ⟨rfl, rfl⟩ := hwait f hf
  simp only [List.append_nil]
  refine fits_parked hg hu hsome ?_ ?_
  · rw [hp]
    rfl
  · rw [hp]
    rfl

/-- What the step has moved, at the head of the loop. -/
def Pc.atLoop : Pc → Option ℕ
  | loop moved => some moved
  | _ => none

/-- No step on a session moves as much as one turn may. -/
def Short (s : Recv) : Prop :=
  s.source.isTls = true → ∀ moved ∈ s.pc.atLoop, moved < stepBudget

instance : Decidable (Short s) := inferInstanceAs (Decidable (_ → ∀ _ ∈ _, _))

/-- What the kernel holds has no part in it, but for what it wakes. -/
theorem fits_hold {unread : List UInt8} {ending : Option Ending} (h : s.Fits k)
    (hr : s.IsReadable → (s.hold unread ending).IsReadable) : (s.hold unread ending).Fits k := by
  have hgoing (hg : s.pipe.Going) : (s.hold unread ending).pipe.Going := ⟨hg.started, hg.behind⟩
  have hunf : (s.hold unread ending).pipe.Unfinished ↔ s.pipe.Unfinished :=
    RecvTask.unfinished_on _
  have hpc : (s.hold unread ending).pc = s.pc := rfl
  unfold Recv.Fits at h ⊢
  rw [hpc]
  split at h
  case h_1 | h_2 => trivial
  case h_3 => exact h
  case h_4 => exact hgoing h
  case h_5 | h_7 | h_8 => exact ⟨hgoing h.1, hunf.mpr h.2.1, h.2.2⟩
  case h_6 => exact ⟨hgoing h.1, hunf.mpr h.2⟩
  case h_9 =>
    refine ⟨hgoing h.1, ?_⟩
    intro hf
    refine (h.2 hf).imp hr ?_
    intro hno hans
    refine hno (hans.imp id (Or.imp id (Or.imp ?_ id)))
    exact fun hn hu => hn (hunf.mpr hu)

/-- A receive that is run or resumed: it has begun, or it has nothing yet. -/
theorem going_of_rests (h : s.Fits k) (hr : s.pc.rests = true) :
    s.pipe.Going ∨ s.pipe.progress.searched = 0 ∧ s.pipe.progress.started = false := by
  unfold Recv.Fits at h
  split at h
  case h_3 => exact .inr h
  case h_9 => exact .inl h.1
  all_goals simp_all [Pc.rests]

/-- The head of the loop: a receive parks here for having moved enough. On a plain socket it holds
all it has, and on a session it does not come to this. -/
theorem fits_look {moved : ℕ} {e : Except RuntimeError Step} (hg : s.pipe.Going)
    (hshort : s.source.isTls = true → moved < stepBudget)
    (hl : s.pipe.look moved = (t, some e)) : (s.settle t e).Fits k := by
  refine fits_settle ?_
  rintro f rfl
  obtain ⟨hm, hu, hg', hw⟩ := RecvTask.park_of_look hg hl
  have hplain : s.source = .plain := by
    cases hs : s.source with
    | plain => rfl
    | tls fed given =>
      rw [hs] at hshort
      exact absurd hm (not_le.mpr (hshort rfl))
  refine fits_parked hg' hu ?_ ?_ ?_
  · rw [hw]
    exact nofun
  · rw [hplain]
    rfl
  · rw [hplain]
    rfl

/-- What holds of a receive holds after every step. -/
theorem fits_next {a : Act} (h : s.Fits k) (hshort : Short s) (hn : s.next k a = some s') :
    s'.Fits k := by
  have hat {pc : Pc} (hpc : s.pc = pc) : ({ s with pc := pc } : Recv).Fits k := by
    subst hpc
    exact h
  unfold Recv.next at hn
  split at hn
  case h_1 =>
    split at hn <;> cases hn
    exact ⟨rfl, rfl⟩
  case h_2 =>
    obtain ⟨hrest, hn⟩ := Option.ite_none_right_eq_some.mp hn
    obtain hg | ⟨hz, hs⟩ := going_of_rests h hrest
    · rw [if_pos hg.started] at hn
      cases hn
      exact hg
    · rw [if_neg (by rw [hs]; exact Bool.false_ne_true)] at hn
      split at hn
      · cases hn
        trivial
      · rename_i hl
        cases hn
        have hg : Going { s.pipe with progress := { s.pipe.progress with started := true } } :=
          ⟨rfl, hz ▸ Nat.zero_le _⟩
        exact hg.takeLeftover hz hl
  case h_3 =>
    split at hn
    case h_1 moved hpc =>
      have hg := hat hpc
      split at hn
      case h_1 hl =>
        cases hn
        exact fits_look hg (fun ht => hshort ht moved (by rw [hpc]; rfl)) hl
      case h_2 hl =>
        cases hn
        obtain ⟨hu, hg'⟩ := RecvTask.unfinished_of_look hg hl
        cases hs : s.source with
        | plain => exact ⟨hg', hu, rfl⟩
        | tls fed given => exact ⟨hg', hu⟩
    case h_2 moved ended hpc =>
      cases hn
      obtain ⟨hg, hu⟩ := hat hpc
      exact fits_askReader hg hu
    case h_3 moved hpc =>
      cases hn
      have hf := hat hpc
      exact hf
    case h_4 => cases hn
  case h_4 n =>
    split at hn
    case h_1 moved hpc =>
      cases hn
      obtain ⟨hg, hu, hp⟩ := hat hpc
      exact fits_turn hg hu hp
    case h_2 moved hpc =>
      cases hn
      obtain ⟨hg, hu, hr, hc⟩ := hat hpc
      exact fits_askSocket hg hu hr hc
    case h_3 => cases hn
  case h_5 =>
    split at hn
    case h_1 | h_2 =>
      cases hn
      exact h
    case h_3 moved hpc =>
      cases hn
      obtain ⟨hg, hu, -⟩ := hat hpc
      exact ⟨hg, hu⟩
    case h_4 => cases hn
  case h_6 =>
    split at hn
    case h_1 moved hpc =>
      cases hn
      obtain ⟨hg, hu, hr, hc⟩ := hat hpc
      exact fits_came_wait hg hu hr hc
    case h_2 => cases hn
  case h_7 code =>
    split at hn
    case h_1 moved hpc | h_2 moved hpc | h_3 moved hpc =>
      cases hn
      have hf := hat hpc
      exact fits_came hf.1 nofun
    case h_4 => cases hn
  case h_8 bytes =>
    obtain ⟨he, hn⟩ := Option.ite_none_right_eq_some.mp hn
    cases hn
    refine fits_hold h ?_
    rintro (hu | hne)
    · exact .inl fun hnil => hu (List.append_eq_nil_iff.mp hnil).1
    · exact absurd he hne
  case h_9 =>
    cases hn
    exact fits_hold h fun _ => .inr nofun
  case h_10 =>
    obtain ⟨-, hn⟩ := Option.ite_none_right_eq_some.mp hn
    cases hn
    trivial

/-! ### Whole connections -/

/-- The receives that runs on a connection lead to whose steps are all as `Ok` has it, one receive
after the other. -/
def Reached (k : Tls) (Ok : Recv → Prop) : Recv → Prop :=
  Run.Reach (Recv.next k) (fun s => s.pc = .idle) fun s _ => Ok s

theorem fits_of_reached (h : Reached k Short s) : s.Fits k := by
  refine h.invariant ?_ ?_
  · intro s hs
    unfold Recv.Fits
    rw [hs]
    trivial
  · intro s a s' ih hok hn
    exact fits_next ih hok hn

/-- **A receive is woken if its answer is there.** Whatever its source and whatever arrives when,
while it is parked on its socket, the socket is readable, or neither it nor its session has anything
for it to go on with. -/
theorem woken (h : Reached k Short s) (hpc : s.pc = .parked .read) :
    s.IsReadable ∨ ¬ s.Answerable k := by
  have hf := fits_of_reached h
  unfold Recv.Fits at hf
  rw [hpc] at hf
  exact hf.2 rfl

/-- A session that sends everything as it is. -/
def clear : Tls where
  plain fed := fed
  handshaking _ := false
  closed _ := false
  refuses _ := false
  plain_append fed more := List.prefix_append fed more
  closed_append _ _ := nofun

/-- A connection over which nothing has come. -/
def silent : Recv := ⟨.new ⟨[], [], [], none⟩ .toEnd, .tls [] 0, .idle⟩

/-- One of three bytes has come. -/
theorem woken_oneByte : ∃ s, Reached clear Short s ∧ s.pc = .parked .read ∧
    s.pipe.progress.got = [7] ∧ (s.IsReadable ∨ ¬ s.Answerable clear) := by
  obtain ⟨s, hr, hpc, hgot⟩ : ∃ s, Run.exec (Recv.next clear) (fun s _ => Short s) silent
      [.start (.exact 3), .step, .arrive [7], .go, .go, .go, .take 5, .go, .go, .go, .go, .take 5] =
        some s ∧ s.pc = .parked .read ∧ s.pipe.progress.got = [7] := ⟨_, rfl, rfl, rfl⟩
  have h : Reached clear Short s := Run.Reach.exec (.init rfl) hr
  exact ⟨s, h, hpc, hgot, woken h hpc⟩

section Withheld

/-- A session whose other side says goodbye after as much as one turn moves. -/
def farewell : Tls where
  plain fed := fed.take stepBudget
  handshaking _ := false
  closed fed := decide (stepBudget < fed.length)
  refuses _ := false
  plain_append fed more := (List.prefix_append fed more).take stepBudget
  closed_append fed more hc := by
    have hlt := of_decide_eq_true hc
    refine ⟨decide_eq_true ?_, List.take_append_of_le_length hlt.le⟩
    rw [List.length_append]
    omega

variable {bytes : List UInt8} {f n : ℕ}

/-- A receive to the end. The session was fed `f` of the bytes, all that came, and has handed out
`n`. -/
def part (bytes : List UInt8) (f n : ℕ) (pc : Pc) : Recv :=
  ⟨⟨⟨[], bytes.take f, [], none⟩, .toEnd, ⟨bytes.take n, true, 0⟩⟩, .tls (bytes.take f) n, pc⟩

theorem look_part (pc : Pc) : (part bytes f n pc).pipe.look n =
    ((part bytes f n pc).pipe, if stepBudget ≤ n then some (.ok (.park .read)) else none) := by
  have hdone : (part bytes f n pc).pipe.done = ((part bytes f n pc).pipe, .ok none) := rfl
  unfold RecvTask.look
  rw [hdone]
  dsimp only
  split
  · rfl
  · rfl

theorem next_part : (part bytes f n (.loop n)).next farewell .go =
    some (if stepBudget ≤ n then part bytes f n (.parked .read)
      else part bytes f n (.reader n false)) := by
  have hpc : (part bytes f n (.loop n)).pc = .loop n := rfl
  unfold Recv.next
  dsimp only
  rw [hpc]
  dsimp only
  rw [look_part]
  by_cases hn : stepBudget ≤ n
  · rw [if_pos hn, if_pos hn]
    rfl
  · rw [if_neg hn, if_neg hn]
    rfl

/-- Nothing is left in the session, so the receive goes on to the socket. -/
theorem reached_readTls (hn : n < stepBudget)
    (h : Reached farewell (fun _ => True) (part bytes n n (.loop n))) :
    Reached farewell (fun _ => True) (part bytes n n (.readTls n)) := by
  have hread : Reached farewell (fun _ => True) (part bytes n n (.reader n false)) := by
    refine h.step (a := .go) trivial ?_
    rw [next_part, if_neg (by omega)]
  have hready : (((bytes.take n).take stepBudget).drop n : List UInt8) = [] := by
    rw [List.drop_eq_nil_iff, List.length_take, List.length_take]
    omega
  have hopen : ¬ decide (stepBudget < (bytes.take n).length) = true := by
    rw [decide_eq_true_iff, List.length_take]
    omega
  have hpend : Reached farewell (fun _ => True) (part bytes n n (.pend n)) := by
    refine hread.step (a := .go) trivial (congrArg some ?_)
    unfold Recv.askReader
    show (if fileChunk = 0 then _ else if ((bytes.take n).take stepBudget).drop n ≠ [] then _
      else if decide (stepBudget < (bytes.take n).length) = true then _ else _) = _
    rw [if_neg (by decide), if_neg (not_not.mpr hready), if_neg hopen]
    rfl
  exact hpend.step (a := .go) trivial rfl

/-- A record comes in, is fed to the session and handed out. -/
theorem reached_record {p r : ℕ} (hn : n < stepBudget) (hr : r ≤ fileChunk) (hpos : 0 < r)
    (hfed : n + p ≤ bytes.length) (hplain : min (n + p) stepBudget = n + r)
    (h : Reached farewell (fun _ => True) (part bytes n n (.loop n))) :
    Reached farewell (fun _ => True) (part bytes (n + p) (n + r) (.loop (n + r))) := by
  -- the record, and what is decrypted of it
  obtain ⟨piece, hpiece⟩ : ∃ piece, piece = (bytes.drop n).take p := ⟨_, rfl⟩
  have hlen : piece.length = p := by
    rw [hpiece, List.length_take, List.length_drop]
    omega
  have hne : piece ≠ [] := by
    rintro rfl
    rw [List.length_nil] at hlen
    omega
  have hjoin : bytes.take n ++ piece = bytes.take (n + p) := by rw [hpiece, List.take_add]
  have hfeed : Reached farewell (fun _ => True) (part bytes (n + p) n (.reader n false)) := by
    refine ((reached_readTls hn h).step (a := .arrive piece) trivial rfl).step (a := .take (p - 1))
      trivial (congrArg some ?_)
    unfold Recv.askSocket
    have hsome : ¬ (piece = [] ∧ (none : Option Ending) = none) := fun he => hne he.1
    show (if piece = [] ∧ (none : Option Ending) = none then _ else _) = _
    rw [if_neg hsome]
    show Recv.mk ⟨⟨_, bytes.take n ++ piece.take (p - 1 + 1), piece.drop (p - 1 + 1), _⟩, _, _⟩
      (.tls (bytes.take n ++ piece.take (p - 1 + 1)) n) (.reader n piece.isEmpty) = _
    have htake : piece.take (p - 1 + 1) = piece := List.take_of_length_le (by omega)
    have hdrop : piece.drop (p - 1 + 1) = [] := List.drop_of_length_le (by omega)
    rw [htake, hdrop, hjoin, List.isEmpty_eq_false_iff.mpr hne]
    rfl
  have hready : ((bytes.take (n + p)).take stepBudget).drop n = (bytes.drop n).take r := by
    rw [List.take_take, Nat.min_comm, hplain, List.drop_take, Nat.add_sub_cancel_left]
  have hout : ((bytes.drop n).take r).length = r := by
    rw [List.length_take, List.length_drop]
    omega
  have hsome : (bytes.drop n).take r ≠ [] := by
    intro hnil
    rw [hnil, List.length_nil] at hout
    omega
  refine hfeed.step (a := .go) trivial (congrArg some ?_)
  unfold Recv.askReader
  show (if fileChunk = 0 then _ else if ((bytes.take (n + p)).take stepBudget).drop n ≠ [] then
    Recv.mk ⟨_, _, ⟨bytes.take n ++ (((bytes.take (n + p)).take stepBudget).drop n).take fileChunk,
      _, _⟩⟩ (.tls (bytes.take (n + p))
        (n + ((((bytes.take (n + p)).take stepBudget).drop n).take fileChunk).length))
      (.loop (n + ((((bytes.take (n + p)).take stepBudget).drop n).take fileChunk).length))
    else _) = _
  have hall : ((bytes.drop n).take r).take fileChunk = (bytes.drop n).take r :=
    List.take_of_length_le (by omega)
  rw [if_neg (by decide), hready, if_pos hsome, hall, hout, ← List.take_add]
  rfl

/-- What one record carries here. -/
def record : ℕ := 16 * 1024

/-- Record by record, up to the last. -/
theorem reached_records (hb : bytes.length = stepBudget + 1) (i : ℕ) (hi : i < 64) :
    Reached farewell (fun _ => True)
      (part bytes (i * record) (i * record) (.loop (i * record))) := by
  have hrec : record = 16384 := rfl
  have hbudget : stepBudget = 1048576 := rfl
  have hchunk : fileChunk = 65536 := rfl
  induction i with
  | zero =>
    rw [Nat.zero_mul]
    have hnew : Reached farewell (fun _ => True)
        ⟨⟨⟨[], [], [], none⟩, .toEnd, .new⟩, .tls [] 0, .idle⟩ := .init rfl
    exact (hnew.step (a := .start .toEnd) trivial rfl).step (a := .step) trivial rfl
  | succ i ih =>
    rw [Nat.succ_mul]
    have hle : i * record ≤ 62 * 16384 := Nat.mul_le_mul (by omega) hrec.le
    refine reached_record ?_ ?_ ?_ ?_ ?_ (ih (by omega))
    all_goals omega

end Withheld

/-- A receive to the end, of as much as one turn moves. The last record comes with the goodbye, and
the other side keeps its socket open: the receive parks on the socket with the end processed. -/
theorem answer_withheld : ∃ s, Reached farewell (fun _ => True) s ∧ s.pc = .parked .read ∧
    ¬ s.IsReadable ∧ s.Answerable farewell := by
  obtain ⟨bytes, hb⟩ : ∃ bytes : List UInt8, bytes.length = stepBudget + 1 :=
    ⟨List.replicate _ 0, List.length_replicate⟩
  have hrec : 63 * record + record = stepBudget := by decide
  have hlast : Reached farewell (fun _ => True)
      (part bytes (63 * record + (record + 1)) (63 * record + record)
        (.loop (63 * record + record))) := by
    refine reached_record (by decide) (by decide) (by decide) ?_ ?_
      (reached_records hb 63 (by decide))
    · omega
    · omega
  rw [← Nat.add_assoc, hrec] at hlast
  refine ⟨part bytes (stepBudget + 1) stepBudget (.parked .read),
    hlast.step (a := .go) trivial ?_, rfl, ?_, .inr (.inl ?_)⟩
  · rw [next_part, if_pos le_rfl]
  · rintro (hu | he)
    · exact hu rfl
    · exact he rfl
  · show decide (stepBudget < (bytes.take (stepBudget + 1)).length) = true
    rw [decide_eq_true_iff, List.length_take]
    omega

end Readable

end Atap.Stream
