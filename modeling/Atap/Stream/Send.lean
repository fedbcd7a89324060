import Atap.Interleave.Run
import Atap.Stream.Recv

/-!
# Sending a buffer

A send hands its buffer to its source piece by piece, over as many steps as it takes. A socket or a
pipe sends what it takes. A TLS session keeps what it takes until `write_tls` has moved it to the
socket, and a write tries that before and after without caring whether it got anywhere: only the
flush at the end waits for it.

One step of the model is one call of the kernel or of the session, or the part of `advance` between
two of them. The lock on a session is held for one call of the source, so between two calls other
tasks may leave any amount in it (`Act.others`). How much the records of a piece come to is up to
the session.

`handed` and `earlier` are a history, and no step reads them: what this run handed to its source,
and what each of the earlier ones did.

* `Task.Step.fits`: what was handed over is what counts as sent, but for the bytes a session has
  just taken.
* `sent_eq`: what every run handed over is a prefix of the buffer, and a send that reports success
  has handed over all of it and, on a session, has just found it empty.
-/

namespace Atap.Stream.Send

/-- `Source`: where the bytes go. -/
inductive Source
  | socket
  | pipe
  | tls
  deriving DecidableEq

def eintr : ℤ := 4

def eagain : ℤ := 35

def enobufs : ℤ := 55

/-- What is made of an error of the kernel. -/
inductive Heed
  | retry
  | wait
  | fail
  deriving DecidableEq

/-- `write_raw`, `write_pipe` and `send_pending`: only a socket waits for memory too. -/
def Source.heed (s : Source) (code : Option ℤ) : Heed :=
  if code = some eintr then .retry
  else if code = some eagain then .wait
  else if s = .socket ∧ code = some enobufs then .wait
  else .fail

/-- Where a send stands. -/
inductive Pc
  /-- No run is on. -/
  | idle
  /-- A run has begun, and no step of it is on. -/
  | ready
  /-- At the head of the loop of `advance`, with what this step has moved. -/
  | loop (moved : ℕ)
  /-- Before the call that writes to a socket or pipe. -/
  | write (moved want : ℕ)
  /-- In the first `send_pending` of a write to a session. -/
  | before (moved want : ℕ)
  /-- Before the session is given bytes. -/
  | give (moved want : ℕ)
  /-- In the second `send_pending`, the session having taken some. -/
  | after (moved put : ℕ)
  /-- In the `send_pending` of a flush. -/
  | flush
  | parked (filter : Filter)
  | done (out : Except RuntimeError ℕ)
  deriving DecidableEq

/-- A send, with the session it shares with others. -/
structure Task where
  source : Source
  data : List UInt8
  sent : ℕ
  /-- How much a session has not given to the socket yet. -/
  held : ℕ
  pc : Pc
  handed : List UInt8
  earlier : List (List UInt8)
  deriving DecidableEq

inductive Act
  /-- `prepare`, at the start of a run; also what cloning the task for `execute` comes to. -/
  | prepare
  /-- The task is run, or resumed from a park. -/
  | step
  | go
  /-- The kernel takes `n` bytes. -/
  | put (n : ℕ)
  /-- The session takes `n` bytes, and what they are sent as comes to `cost`. -/
  | take (n cost : ℕ)
  | error (code : Option ℤ)
  /-- Other tasks have used the session. -/
  | others (held : ℕ)
  deriving DecidableEq

namespace Task

/-- `SendTask::new`. -/
def new (source : Source) (data : List UInt8) (held : ℕ) : Task :=
  ⟨source, data, 0, held, .idle, [], []⟩

/-- `SendTask::prepare`. -/
def prepare (t : Task) : Task :=
  { t with sent := 0, pc := .ready, handed := [], earlier := t.handed :: t.earlier }

/-- The bytes of one write, `&data[sent..sent + want]`, as far as they are taken. -/
def piece (t : Task) (n : ℕ) : List UInt8 := (t.data.drop t.sent).take n

/-- The head of the loop of `advance`. -/
def loop (t : Task) (moved : ℕ) : Task :=
  if t.sent = t.data.length then
    { t with pc := if t.source = .tls then .flush else .done (.ok t.sent) }
  else if stepBudget ≤ moved then { t with pc := .parked .write }
  else
    let want := min (t.data.length - t.sent) fileChunk
    { t with pc := if t.source = .tls then .before moved want else .write moved want }

/-- A write has moved `put` bytes. -/
def advanced (t : Task) (moved put : ℕ) : Task :=
  { t with sent := t.sent + put, pc := .loop (moved + put) }

/-- The end of a write to a session, whatever the second `send_pending` came to. -/
def written (t : Task) (moved put : ℕ) : Task :=
  if put = 0 then { t with pc := .parked .write } else t.advanced moved put

/-- A call that failed: it is made again, comes to a wait, or ends the send. -/
def heed (t : Task) (code : Option ℤ) (wait : Task) : Task :=
  match t.source.heed code with
  | .retry => t
  | .wait => wait
  | .fail => { t with pc := .done (.error (.checkError code)) }

/-- `write_tls` moves `n` bytes to the socket, as long as there are any. -/
def drain (t : Task) (n : ℕ) : Option Task :=
  if t.held ≠ 0 ∧ n ≤ t.held then some { t with held := t.held - n } else none

/-- One step. -/
def next (t : Task) : Act → Option Task
  | .prepare =>
    match t.pc with
    -- a run that parked may have been given up
    | .idle | .parked _ | .done _ => some t.prepare
    | _ => none
  | .step =>
    match t.pc with
    | .ready | .parked _ => some { t with pc := .loop 0 }
    | _ => none
  | .go =>
    match t.pc with
    | .loop moved => some (t.loop moved)
    | .before moved want => if t.held = 0 then some { t with pc := .give moved want } else none
    | .after moved put => if t.held = 0 then some (t.written moved put) else none
    | .flush => if t.held = 0 then some { t with pc := .done (.ok t.sent) } else none
    | _ => none
  | .put n =>
    match t.pc with
    | .write moved want =>
      if n ≤ want then some ({ t with handed := t.handed ++ t.piece n }.advanced moved n) else none
    | .before _ _ | .after _ _ | .flush => t.drain n
    | _ => none
  | .take n cost =>
    match t.pc with
    | .give moved want =>
      if n ≤ want then
        some { t with held := t.held + cost, handed := t.handed ++ t.piece n, pc := .after moved n }
      else none
    | _ => none
  | .error code =>
    match t.pc with
    | .write _ _ | .flush => some (t.heed code { t with pc := .parked .write })
    -- the outcome of these two is not looked at
    | .before moved want => some (t.heed code { t with pc := .give moved want })
    | .after moved put => some (t.heed code (t.written moved put))
    | .give _ _ => some { t with pc := .done (.error (.checkError code)) }
    | _ => none
  | .others held =>
    match t.pc with
    | .before _ _ | .give _ _ | .after _ _ | .flush => none
    | _ => some { t with held := held }

/-! ### What a step can do -/

/-- The steps, one constructor for each thing a step can do. -/
inductive Step (t : Task) : Task → Prop
  | prepare : Step t t.prepare
  | resume (h : t.pc = .ready ∨ ∃ f, t.pc = .parked f) : Step t { t with pc := .loop 0 }
  | loop (moved : ℕ) (h : t.pc = .loop moved) : Step t (t.loop moved)
  /-- Bytes left the session, the call is made again, or others used the session. -/
  | held (held : ℕ) : Step t { t with held := held }
  | put (moved want n : ℕ) (h : t.pc = .write moved want) (hn : n ≤ want) :
      Step t ({ t with handed := t.handed ++ t.piece n }.advanced moved n)
  | cleared (moved want : ℕ) (h : t.pc = .before moved want) :
      Step t { t with pc := .give moved want }
  | take (moved want n cost : ℕ) (h : t.pc = .give moved want) (hn : n ≤ want) :
      Step t { t with
        held := t.held + cost, handed := t.handed ++ t.piece n, pc := .after moved n }
  | written (moved put : ℕ) (h : t.pc = .after moved put) : Step t (t.written moved put)
  | flushed (h : t.pc = .flush) (hheld : t.held = 0) : Step t { t with pc := .done (.ok t.sent) }
  | park (h : (∃ moved want, t.pc = .write moved want) ∨ t.pc = .flush) :
      Step t { t with pc := .parked .write }
  | fail (code : Option ℤ) : Step t { t with pc := .done (.error (.checkError code)) }

variable {t t' : Task}

theorem step_heed {w : Task} (hw : Step t w) (code : Option ℤ) : Step t (t.heed code w) := by
  unfold heed
  split
  · exact .held t.held
  · exact hw
  · exact .fail code

theorem step_drain {n : ℕ} (h : t.drain n = some t') : Step t t' := by
  unfold drain at h
  obtain ⟨-, h⟩ := Option.ite_none_right_eq_some.mp h
  cases h
  exact .held _

/-- Every step is one of these. -/
theorem next_step {a : Act} (hn : t.next a = some t') : Step t t' := by
  unfold next at hn
  split at hn
  case h_1 =>
    split at hn <;> cases hn
    all_goals exact .prepare
  case h_2 =>
    split at hn
    case h_1 hpc =>
      cases hn
      exact .resume (.inl hpc)
    case h_2 f hpc =>
      cases hn
      exact .resume (.inr ⟨f, hpc⟩)
    case h_3 => cases hn
  case h_3 =>
    split at hn
    case h_1 moved hpc =>
      cases hn
      exact .loop moved hpc
    case h_2 moved want hpc =>
      obtain ⟨-, hn⟩ := Option.ite_none_right_eq_some.mp hn
      cases hn
      exact .cleared moved want hpc
    case h_3 moved put hpc =>
      obtain ⟨-, hn⟩ := Option.ite_none_right_eq_some.mp hn
      cases hn
      exact .written moved put hpc
    case h_4 hpc =>
      obtain ⟨hheld, hn⟩ := Option.ite_none_right_eq_some.mp hn
      cases hn
      exact .flushed hpc hheld
    case h_5 => cases hn
  case h_4 n =>
    split at hn
    case h_1 moved want hpc =>
      obtain ⟨hle, hn⟩ := Option.ite_none_right_eq_some.mp hn
      cases hn
      exact .put moved want n hpc hle
    case h_2 | h_3 | h_4 => exact step_drain hn
    case h_5 => cases hn
  case h_5 n cost =>
    split at hn
    case h_1 moved want hpc =>
      obtain ⟨hle, hn⟩ := Option.ite_none_right_eq_some.mp hn
      cases hn
      exact .take moved want n cost hpc hle
    case h_2 => cases hn
  case h_6 code =>
    split at hn
    case h_1 moved want hpc =>
      cases hn
      exact step_heed (.park (.inl ⟨moved, want, hpc⟩)) code
    case h_2 hpc =>
      cases hn
      exact step_heed (.park (.inr hpc)) code
    case h_3 moved want hpc =>
      cases hn
      exact step_heed (.cleared moved want hpc) code
    case h_4 moved put hpc =>
      cases hn
      exact step_heed (.written moved put hpc) code
    case h_5 =>
      cases hn
      exact .fail code
    case h_6 => cases hn
  case h_7 held =>
    split at hn
    case h_5 =>
      cases hn
      exact .held held
    all_goals cases hn

end Task

/-! ### What a run has handed over -/

/-- What was handed over is what counts as sent. -/
structure Exact (data : List UInt8) (sent : ℕ) (handed : List UInt8) : Prop where
  le : sent ≤ data.length
  eq : handed = data.take sent

/-- What was handed over, by where the send stands. Only between the two calls a write to a session
makes is the session ahead of the count, and there the send may end. -/
def Pc.Fits (data : List UInt8) (sent : ℕ) (handed : List UInt8) : Pc → Prop
  | idle | ready | loop _ | parked _ => Exact data sent handed
  | write _ want | before _ want | give _ want =>
    Exact data sent handed ∧ sent + want ≤ data.length
  | after _ put => Exact data (sent + put) handed
  | flush => Exact data sent handed ∧ sent = data.length
  | done (.ok n) => n = data.length ∧ handed = data
  | done (.error _) => handed <+: data

section

variable {data handed : List UInt8} {sent : ℕ}

theorem Exact.isPrefix (h : Exact data sent handed) : handed <+: data := by
  rw [h.eq]
  exact List.take_prefix _ _

/-- All of it has been handed over once all of it counts as sent. -/
theorem Exact.all (h : Exact data sent handed) (hs : sent = data.length) : handed = data := by
  rw [h.eq, hs, List.take_length]

/-- A piece goes after what was handed over. -/
theorem Exact.append (h : Exact data sent handed) {n : ℕ} (hn : sent + n ≤ data.length) :
    Exact data (sent + n) (handed ++ (data.drop sent).take n) where
  le := hn
  eq := by rw [h.eq, List.take_add]

theorem Pc.Fits.isPrefix {pc : Pc} (h : pc.Fits data sent handed) : handed <+: data := by
  unfold Pc.Fits at h
  split at h
  case h_1 | h_2 | h_3 | h_4 | h_8 => exact h.isPrefix
  case h_5 | h_6 | h_7 | h_9 => exact h.1.isPrefix
  case h_10 => rw [h.2]
  case h_11 => exact h

end

namespace Task

def Fits (t : Task) : Prop := t.pc.Fits t.data t.sent t.handed

variable {t t' : Task}

theorem fits_loop (h : Exact t.data t.sent t.handed) (moved : ℕ) : (t.loop moved).Fits := by
  unfold Task.loop
  split
  case isTrue hall =>
    unfold Fits
    dsimp only
    split
    · exact ⟨h, hall⟩
    · exact ⟨hall, h.all hall⟩
  case isFalse =>
    split
    · exact h
    · have hwant : t.sent + min (t.data.length - t.sent) fileChunk ≤ t.data.length := by
        have := h.le
        omega
      unfold Fits
      dsimp only
      split
      · exact ⟨h, hwant⟩
      · exact ⟨h, hwant⟩

/-- The end of a write to a session counts what the session took. -/
theorem fits_written {moved put : ℕ} (h : Exact t.data (t.sent + put) t.handed) :
    (t.written moved put).Fits := by
  unfold written
  split
  case isTrue hz =>
    subst hz
    exact h
  case isFalse => exact h

/-- What was handed over fits after every step. -/
theorem Step.fits (hs : Step t t') (h : t.Fits) : t'.Fits := by
  have hat {pc : Pc} (hpc : t.pc = pc) : pc.Fits t.data t.sent t.handed := hpc ▸ h
  cases hs with
  | prepare => exact ⟨Nat.zero_le _, rfl⟩
  | resume hpc =>
    obtain hpc | ⟨f, hpc⟩ := hpc
    · have hf := hat hpc
      exact hf
    · have hf := hat hpc
      exact hf
  | loop moved hpc => exact fits_loop (hat hpc) moved
  | held held => exact h
  | put moved want n hpc hn | take moved want n cost hpc hn =>
    obtain ⟨he, hwant⟩ := hat hpc
    exact he.append (by omega)
  | cleared moved want hpc =>
    have hf := hat hpc
    exact hf
  | written moved put hpc => exact fits_written (hat hpc)
  | flushed hpc =>
    obtain ⟨he, hall⟩ := hat hpc
    exact ⟨hall, he.all hall⟩
  | park hpc =>
    obtain ⟨moved, want, hpc⟩ | hpc := hpc
    · have hf := hat hpc
      exact hf.1
    · have hf := hat hpc
      exact hf.1
  | fail code => exact Pc.Fits.isPrefix h

/-- The buffer and its source stay, and what earlier runs handed over changes only when one
begins. -/
theorem Step.keeps (hs : Step t t') : t'.data = t.data ∧ t'.source = t.source ∧
    (t'.earlier = t.earlier ∨ t'.earlier = t.handed :: t.earlier) := by
  cases hs with
  | prepare => exact ⟨rfl, rfl, .inr rfl⟩
  | loop moved =>
    unfold Task.loop
    split
    · exact ⟨rfl, rfl, .inl rfl⟩
    · split <;> exact ⟨rfl, rfl, .inl rfl⟩
  | written moved put =>
    unfold Task.written
    split <;> exact ⟨rfl, rfl, .inl rfl⟩
  | _ => exact ⟨rfl, rfl, .inl rfl⟩

/-- A send to a session succeeds only in a flush that finds nothing left in it. -/
theorem Step.flushed_of_done (hs : Step t t') {n : ℕ} (hd : t'.pc = .done (.ok n))
    (hnot : t.pc ≠ .done (.ok n)) (htls : t.source = .tls) : t.pc = .flush ∧ t'.held = 0 := by
  cases hs with
  | flushed hpc hheld => exact ⟨hpc, hheld⟩
  | held held => exact absurd hd hnot
  | loop moved =>
    unfold Task.loop at hd
    simp only [htls, if_true] at hd
    split at hd
    · cases hd
    · split at hd <;> cases hd
  | written moved put =>
    unfold Task.written at hd
    split at hd <;> cases hd
  | _ => cases hd

end Task

/-! ### Whole sends -/

/-- The sends of a buffer that runs lead to, one after the other. -/
def Reached (source : Source) (data : List UInt8) : Task → Prop :=
  Run.Reach Task.next (fun t => ∃ held, t = .new source data held) fun _ _ => True

variable {source : Source} {data : List UInt8} {t : Task}

/-- What holds of a send throughout its runs. -/
structure Inv (source : Source) (data : List UInt8) (t : Task) : Prop where
  source_eq : t.source = source
  data_eq : t.data = data
  fits : t.Fits
  earlier : ∀ run ∈ t.earlier, run <+: data

theorem inv_of_reached (h : Reached source data t) : Inv source data t := by
  refine h.invariant ?_ ?_
  · rintro t ⟨held, rfl⟩
    exact ⟨rfl, rfl, ⟨Nat.zero_le _, rfl⟩, nofun⟩
  · intro t a t' ih _ hn
    have hs := Task.next_step hn
    obtain ⟨hdata, hsource, hearlier⟩ := hs.keeps
    refine ⟨hsource.trans ih.source_eq, hdata.trans ih.data_eq, hs.fits ih.fits, ?_⟩
    intro run hrun
    obtain he | he := hearlier
    · rw [he] at hrun
      exact ih.earlier run hrun
    · rw [he] at hrun
      obtain rfl | hrun := List.mem_cons.mp hrun
      · exact ih.data_eq ▸ Pc.Fits.isPrefix ih.fits
      · exact ih.earlier run hrun

/-- **A send sends its buffer, once and in order.** Whatever the kernel, the session and other tasks
do: what each run handed to the source, this one and every earlier one, is a prefix of the buffer; a
run that reports success reports the length of the buffer and has handed over all of it; it does so,
on a session, in a flush that finds nothing left; and a run begins with nothing sent. -/
theorem sent_eq (h : Reached source data t) :
    (∀ run ∈ t.handed :: t.earlier, run <+: data) ∧
    (∀ n, t.pc = .done (.ok n) → n = data.length ∧ t.handed = data) ∧
    (∀ a t' n, t.next a = some t' → t'.pc = .done (.ok n) → t.pc ≠ .done (.ok n) →
      source = .tls → t.pc = .flush ∧ t'.held = 0) ∧
    (∀ t', t.next .prepare = some t' → t'.sent = 0 ∧ t'.handed = []) := by
  have hi := inv_of_reached h
  refine ⟨?_, ?_, ?_, ?_⟩
  · intro run hrun
    obtain rfl | hrun := List.mem_cons.mp hrun
    · exact hi.data_eq ▸ Pc.Fits.isPrefix hi.fits
    · exact hi.earlier run hrun
  · intro n hpc
    have hf := hi.fits
    unfold Task.Fits at hf
    rw [hpc, hi.data_eq] at hf
    exact hf
  · intro a t' n hn hd hnot htls
    exact (Task.next_step hn).flushed_of_done hd hnot (hi.source_eq.trans htls)
  · intro t' hn
    unfold Task.next at hn
    dsimp only at hn
    split at hn <;> cases hn
    all_goals exact ⟨rfl, rfl⟩

/-- Three bytes through a session that takes two of them while the socket is full, and one more in
the next round. -/
def twoRounds : List Act :=
  [.prepare, .step, .go, .go, .take 2 5, .error (some eagain), .go, .error (some eintr), .put 5,
    .go, .take 1 3, .error (some eagain), .go, .error (some eagain), .step, .go, .put 3, .go]

theorem sent_eq_twoRounds : ∃ t : Task, Reached .tls [1, 2, 3] t ∧ t.pc = .done (.ok 3) ∧
    t.handed = [1, 2, 3] := by
  obtain ⟨t, hr, hpc⟩ : ∃ t, Run.exec Task.next (fun _ _ => True) (.new .tls [1, 2, 3] 0)
      twoRounds = some t ∧ t.pc = .done (.ok 3) := ⟨_, rfl, rfl⟩
  have h : Reached .tls [1, 2, 3] t := Run.Reach.exec (.init ⟨0, rfl⟩) hr
  exact ⟨t, h, hpc, ((sent_eq h).2.1 3 hpc).2⟩

end Atap.Stream.Send
