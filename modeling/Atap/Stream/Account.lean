import Atap.Stream.Recv

/-!
# No byte is lost between receives

Bytes move from the stream into the buffer of a receive, and from there out as its output or back in
front of the leftover. `Balanced` is the account: what was received before, what the receive at hand
has read, and the leftover are, in this order, what was read from the stream. Every part of a step
keeps it, whichever of its ways out a receive takes, as long as nothing is read on top of a leftover
(`RecvTask.Dry`).

A `Session` is one connection with one receive after the other on it, of any kind, each of which
may succeed, fail, be dropped, or be prepared again part way.
-/

namespace Atap.Stream

/-- What has arrived is there to be read. -/
def Answer.readies : Answer → Bool
  | .ready _ => true
  | .again _ | .error _ => false
  | .interrupted a => a.readies

/-- The call comes to an error. -/
def Answer.fails : Answer → Bool
  | .error _ => true
  | .ready _ | .again _ => false
  | .interrupted a => a.fails

namespace Conn

variable (c : Conn) (b : List UInt8)

theorem putFront_eq : c.putFront b = { c with leftover := b ++ c.leftover } := by
  unfold putFront
  split
  case isTrue h => rw [List.isEmpty_iff.mp h]; rfl
  case isFalse => rfl

@[simp] theorem putFront_leftover : (c.putFront b).leftover = b ++ c.leftover := by
  rw [putFront_eq]

@[simp] theorem putFront_unread : (c.putFront b).unread = c.unread := by rw [putFront_eq]

/-- What a read can come to. -/
inductive Reads (c : Conn) (into : List UInt8) (room : ℕ) (a : Answer) :
    Conn × List UInt8 × Except RuntimeError Io → Prop
  | moved (b u : List UInt8) (hb : b ≠ []) (hu : c.unread = b ++ u) :
      Reads c into room a
        ({ c with taken := c.taken ++ b, unread := u }, into ++ b, .ok (.moved b.length))
  | closed (h : room = 0 ∨ c.unread = [] ∧ c.ending = some .closed) :
      Reads c into room a (c, into, .ok .closed)
  | truncated (h : c.unread = [] ∧ c.ending = some .cut) :
      Reads c into room a (c, into, .ok .truncated)
  | wait (filter : Filter) (h : a.readies = true → c.unread = [] ∧ c.ending = none) :
      Reads c into room a (c, into, .ok (.wait filter))
  | error (code : Option ℤ) (h : a.fails = true) :
      Reads c into room a (c, into, .error (.checkError code))

theorem reads (into : List UInt8) (room : ℕ) (a : Answer) :
    c.Reads into room a (c.read into room a) := by
  induction a with
  | interrupted a ih =>
    -- The call that was interrupted is made again.
    rw [read]
    generalize c.read into room a = r at ih ⊢
    cases ih with
    | moved b u hb hu => exact .moved b u hb hu
    | closed h => exact .closed h
    | truncated h => exact .truncated h
    | wait filter h => exact .wait filter h
    | error code h => exact .error code h
  | again filter => exact .wait filter nofun
  | error code => exact .error code rfl
  | ready n =>
    unfold read
    split
    case isTrue h => exact .closed (.inl h)
    case isFalse h =>
      split
      case h_1 hu he => exact .wait .read fun _ => ⟨hu, he⟩
      case h_2 hu he => exact .closed (.inr ⟨hu, he⟩)
      case h_3 hu he => exact .truncated ⟨hu, he⟩
      case h_4 b l hu =>
        have hlen : ((b :: l).take (min (n + 1) (min room (b :: l).length))).length =
            min (n + 1) (min room (b :: l).length) := by
          rw [List.length_take]
          omega
        have hpos : 0 < min (n + 1) (min room (b :: l).length) := by
          rw [List.length_cons]
          omega
        have hr := @Reads.moved c into room (.ready n)
          ((b :: l).take (min (n + 1) (min room (b :: l).length)))
          ((b :: l).drop (min (n + 1) (min room (b :: l).length)))
          (List.ne_nil_of_length_pos (by rw [hlen]; exact hpos))
          (by rw [hu, List.take_append_drop])
        rwa [hlen] at hr

end Conn

namespace RecvTask

variable {c : Conn} {t t' : RecvTask} {P out : List UInt8} {a : Answer} {as as' : List Answer}
  {moved n : ℕ}

/-- What the next receives are to get: what this one has read, the leftover, and what is unread. -/
def rest (t : RecvTask) : List UInt8 := t.progress.got ++ t.source.leftover ++ t.source.unread

/-- Since the connection was `c`, `P` was received, and all else that was there is still to come. -/
structure Balanced (c : Conn) (P : List UInt8) (t : RecvTask) : Prop where
  rest : P ++ t.rest = c.leftover ++ c.unread
  stream : t.source.taken ++ t.source.unread = c.taken ++ c.unread
  ending : t.source.ending = c.ending

/-- Nothing is left over under what the receive has read, or it has all it wants. -/
def Dry (t : RecvTask) : Prop :=
  t.source.leftover = [] ∨ t.want = .exact t.progress.got.length

/-- What leaves the receive and the leftover at the front was received; the stream is left alone. -/
theorem Balanced.move {l : List UInt8} (h : Balanced c P t)
    (hs : t'.source = { t.source with leftover := l })
    (hk : out ++ (t'.progress.got ++ l) = t.progress.got ++ t.source.leftover) :
    Balanced c (P ++ out) t' := by
  refine ⟨?_, ?_, ?_⟩
  · rw [← h.rest, RecvTask.rest, RecvTask.rest, hs, ← hk]
    simp only [List.append_assoc]
  · rw [hs]; exact h.stream
  · rw [hs]; exact h.ending

theorem Balanced.take (h : Balanced c P t) : Balanced c (P ++ t.take.2) t.take.1 :=
  h.move rfl rfl

theorem Balanced.putBack (h : Balanced c P t) : Balanced c P t.putBack := by
  have hm : Balanced c (P ++ []) t.putBack := h.move (t.source.putFront_eq _) rfl
  rwa [List.append_nil] at hm

theorem Balanced.takeLeftover (hg : t.progress.got = []) (h : Balanced c P t) :
    Balanced c (P ++ t.takeLeftover.2.getD []) t.takeLeftover.1 := by
  unfold RecvTask.takeLeftover
  split
  · exact h.move rfl rfl
  · exact h.move rfl rfl
  · dsimp only
    split
    · exact h.move rfl rfl
    · split
      · exact h.move rfl (by simp [hg])
      · exact h.move rfl (by simp [hg])

/-- A receive that the leftover is not enough for has all of it, or all it wants. -/
theorem dry_takeLeftover (h : t.takeLeftover.2 = none) :
    t.takeLeftover.1.Dry := by
  unfold RecvTask.takeLeftover at h ⊢
  split at h
  case h_1 | h_2 => cases h
  case h_3 =>
    dsimp only at h ⊢
    split at h
    case isTrue he =>
      rw [if_pos he]
      exact .inl (List.isEmpty_iff.mp he)
    case isFalse he =>
      rw [if_neg he]
      split at h
      · cases h
      case isFalse hw =>
        rw [if_neg hw]
        rcases hwant : t.want with max | len | ⟨d, max⟩ | -
        · rw [hwant] at hw; exact absurd rfl hw
        · rcases Nat.le_total len t.source.leftover.length with hle | hle
          · exact .inr (by simp [Nat.min_eq_left hle])
          · exact .inl (by simp [Nat.min_eq_right hle])
        · exact .inl (by simp)
        · exact .inl (by simp)

theorem started_takeLeftover : t.takeLeftover.1.progress.started = t.progress.started := by
  unfold RecvTask.takeLeftover
  split
  · rfl
  · rfl
  · dsimp only
    split
    · rfl
    · split <;> rfl

/-- A receive that the leftover is enough for keeps nothing of it. -/
theorem progress_takeLeftover (h : t.takeLeftover.2 = some out) :
    t.takeLeftover.1.progress = t.progress := by
  unfold RecvTask.takeLeftover at h ⊢
  split at h
  · rfl
  · rfl
  · dsimp only at h ⊢
    split at h
    · cases h
    case isFalse he =>
      rw [if_neg he]
      split at h
      case isTrue hw => rw [if_pos hw]
      case isFalse => cases h

/-- What `done` hands out. -/
def Except.bytes : Except RuntimeError (Option (List UInt8)) → List UInt8
  | .ok (some out) => out
  | _ => []

theorem Balanced.done (h : Balanced c P t) : Balanced c (P ++ Except.bytes t.done.2) t.done.1 := by
  unfold RecvTask.done
  split
  case h_1 | h_2 =>
    split
    · exact h.take
    · exact h.move rfl rfl
  case h_3 => exact h.move rfl rfl
  case h_4 d max _ =>
    dsimp only
    split
    · split <;> exact h.move rfl rfl
    · split
      · exact h.move rfl rfl
      · refine h.move (t.source.putFront_eq _) ?_
        simp only [Except.bytes, RecvTask.take, List.nil_append]
        rw [← List.append_assoc, List.take_append_drop]

/-- A receive part way, with nothing left over under what it has read. -/
structure Mid (c : Conn) (P : List UInt8) (t : RecvTask) : Prop where
  balanced : Balanced c P t
  leftover : t.source.leftover = []
  started : t.progress.started = true

/-- What a step leaves behind, by what it came to. -/
def Settled (c : Conn) (P : List UInt8) (t : RecvTask) : Except RuntimeError Step → Prop
  | .error _ => Balanced c P t
  | .ok (.done (.ok out)) => Balanced c (P ++ out) t ∧ t.progress.got = []
  | .ok (.done (.error _)) => Balanced c P t ∧ t.progress.got = []
  | .ok (.park _) => Mid c P t

/-- A receive that is not done goes on as it is, but for how far the search got. -/
theorem done_eq_none (h : t.done = (t', .ok none)) :
    t'.source = t.source ∧ t'.want = t.want ∧ t'.progress.got = t.progress.got ∧
      t'.progress.started = t.progress.started ∧ t.want ≠ .exact t.progress.got.length := by
  unfold RecvTask.done at h
  split at h
  case h_1 n hw | h_2 n hw =>
    split at h
    · cases h
    case isFalse hn =>
      obtain ⟨rfl, -⟩ := Prod.mk.inj h
      refine ⟨rfl, rfl, rfl, rfl, fun he => ?_⟩
      rw [hw] at he
      cases he
      all_goals exact hn (le_refl _)
  case h_3 hw =>
    obtain ⟨rfl, -⟩ := Prod.mk.inj h
    exact ⟨rfl, rfl, rfl, rfl, by rw [hw]; nofun⟩
  case h_4 hw =>
    dsimp only at h
    split at h
    · obtain ⟨rfl, -⟩ := Prod.mk.inj h
      exact ⟨rfl, rfl, rfl, rfl, by rw [hw]; nofun⟩
    · split at h <;> cases h

/-- The buffer of a receive that is done is empty. -/
theorem got_eq_nil_of_done (h : t.done = (t', .ok (some out))) : t'.progress.got = [] := by
  unfold RecvTask.done at h
  split at h
  case h_1 | h_2 =>
    split at h
    · obtain ⟨rfl, -⟩ := Prod.mk.inj h
      rfl
    · cases h
  case h_3 => cases h
  case h_4 =>
    dsimp only at h
    split at h
    · split at h <;> cases h
    · split at h
      · cases h
      · obtain ⟨rfl, -⟩ := Prod.mk.inj h
        rfl

theorem look_spec (moved : ℕ) (hb : Balanced c P t) (hd : t.Dry) (hs : t.progress.started = true) :
    match t.look moved with
    | (t', none) => Mid c P t'
    | (t', some r) => Settled c P t' r := by
  have hdone := hb.done
  unfold look
  rcases h : t.done with ⟨t', e | (_ | out)⟩
  · have : Balanced c P t' := by simpa [h, Except.bytes] using hdone
    exact this
  · obtain ⟨h1, -, -, h4, h5⟩ := done_eq_none h
    have hmid : Mid c P t' := by
      refine ⟨by simpa [h, Except.bytes] using hdone, ?_, h4.trans hs⟩
      rw [h1]
      exact hd.resolve_right h5
    by_cases hm : stepBudget ≤ moved
    · by_cases hw : t'.want.isSome = true
      · simp only [if_pos hm, if_pos hw]
        exact ⟨hmid.balanced.take, rfl⟩
      · simp only [if_pos hm, if_neg hw]
        exact hmid
    · simp only [if_neg hm]
      exact hmid
  · exact ⟨by simpa [h, Except.bytes] using hdone, got_eq_nil_of_done h⟩

/-- What is read goes to the end of the buffer. -/
theorem Mid.append {b u : List UInt8} (h : Mid c P t) (hu : t.source.unread = b ++ u) :
    Mid c P
      { t with
        source := { t.source with taken := t.source.taken ++ b, unread := u }
        progress := { t.progress with got := t.progress.got ++ b } } := by
  obtain ⟨⟨hr, hst, he⟩, hl, hs⟩ := h
  rw [rest, hl, List.append_nil, hu] at hr
  rw [hu] at hst
  refine ⟨⟨?_, ?_, he⟩, hl, hs⟩
  · simpa only [rest, hl, List.append_nil, List.append_assoc] using hr
  · simpa only [List.append_assoc] using hst

theorem Mid.ended (h : Mid c P t) : Settled c P t.ended.1 t.ended.2 := by
  unfold RecvTask.ended
  split
  · exact ⟨h.balanced.take, rfl⟩
  · exact ⟨h.balanced.take, rfl⟩
  · exact h.balanced
  · exact h.balanced

theorem Mid.turn (h : Mid c P t) :
    match t.turn a with
    | (t', .inl r) => Settled c P t' r
    | (t', .inr _) => Mid c P t' := by
  have hr := t.source.reads t.progress.got (min t.room fileChunk) a
  unfold RecvTask.turn
  dsimp only
  generalize t.source.read t.progress.got (min t.room fileChunk) a = r at hr ⊢
  cases hr with
  | moved b u hb hu => exact h.append hu
  | closed => exact h.ended
  | truncated | error => exact h.balanced
  | wait =>
    by_cases hw : (t.want.isSome && decide (0 < t.progress.got.length)) = true
    · simp only [if_pos hw]
      exact ⟨h.balanced.take, rfl⟩
    · simp only [if_neg hw]
      exact h

theorem Mid.dry (h : Mid c P t) : t.Dry := .inl h.leftover

/-- One round of the loop: it ends at its head or at the read, or goes round again. -/
theorem loop_cases {r : Except RuntimeError Step} (h : t.loop moved as = some (t', r, as')) :
    (t.look moved = (t', some r) ∧ as' = as) ∨
    ∃ u a l, t.look moved = (u, none) ∧ as = a :: l ∧
      ((u.turn a = (t', .inl r) ∧ as' = l) ∨
        ∃ v n, u.turn a = (v, .inr n) ∧ v.loop (moved + n) l = some (t', r, as')) := by
  unfold loop at h
  rcases hk : t.look moved with ⟨u, _ | r'⟩
  · simp only [hk] at h
    rcases as with _ | ⟨a, l⟩
    · cases h
    · refine .inr ⟨u, a, l, rfl, rfl, ?_⟩
      dsimp only at h
      rcases hv : u.turn a with ⟨v, r' | n⟩
      · simp only [hv, Option.some.injEq, Prod.mk.injEq] at h
        obtain ⟨rfl, rfl, rfl⟩ := h
        exact .inl ⟨rfl, rfl⟩
      · simp only [hv] at h
        exact .inr ⟨v, n, rfl, h⟩
  · simp only [hk, Option.some.injEq, Prod.mk.injEq] at h
    obtain ⟨rfl, rfl, rfl⟩ := h
    exact .inl ⟨rfl, rfl⟩

/-- Over the whole of a step, by induction on the answers. -/
theorem loop_spec {r : Except RuntimeError Step} (hb : Balanced c P t) (hd : t.Dry)
    (hs : t.progress.started = true) (h : t.loop moved as = some (t', r, as')) :
    Settled c P t' r := by
  induction as generalizing t moved with
  | nil =>
    obtain ⟨hk, -⟩ | ⟨u, a, l, -, hl, -⟩ := loop_cases h
    · simpa only [hk] using look_spec moved hb hd hs
    · cases hl
  | cons a as ih =>
    have hl := look_spec moved hb hd hs
    obtain ⟨hk, -⟩ | ⟨u, a, l, hk, heq, hu⟩ := loop_cases h
    · simpa only [hk] using hl
    · obtain ⟨rfl, rfl⟩ := List.cons.inj heq
      rw [hk] at hl
      have ht := Mid.turn (a := a) hl
      obtain ⟨hv, -⟩ | ⟨v, n, hv, hn⟩ := hu
      · simpa only [hv] using ht
      · rw [hv] at ht
        exact ih ht.balanced ht.dry ht.started hn

/-! ### A receive keeps what it wants -/

theorem want_takeLeftover : t.takeLeftover.1.want = t.want := by
  unfold RecvTask.takeLeftover
  split
  · rfl
  · rfl
  · dsimp only
    split
    · rfl
    · split <;> rfl

theorem want_done : t.done.1.want = t.want := by
  unfold RecvTask.done
  split
  case h_1 | h_2 => split <;> rfl
  case h_3 => rfl
  case h_4 =>
    dsimp only
    split
    · rfl
    · split <;> rfl

theorem want_look : (t.look moved).1.want = t.want := by
  have h := want_done (t := t)
  unfold look
  rcases hd : t.done with ⟨t', e | (_ | out)⟩
  · rw [hd] at h; exact h
  · rw [hd] at h
    dsimp only
    split
    · split <;> exact h
    · exact h
  · rw [hd] at h; exact h

theorem want_ended : t.ended.1.want = t.want := by
  unfold RecvTask.ended
  split <;> rfl

theorem want_turn : (t.turn a).1.want = t.want := by
  unfold turn
  dsimp only
  rcases (t.source.read t.progress.got (min t.room fileChunk) a).2.2 with e | (n | _ | _ | f)
  · rfl
  · rfl
  · exact want_ended
  · rfl
  · dsimp only
    split <;> rfl

/-- A receive between two steps: not begun, or part way. -/
def Between (c : Conn) (P : List UInt8) (t : RecvTask) : Prop :=
  Balanced c P t ∧ (t.progress = .new ∨ Mid c P t)

theorem advance_spec {r : Except RuntimeError Step} (ht : Between c P t)
    (h : t.advance as = some (t', r, as')) : Settled c P t' r := by
  obtain ⟨hb, hn | hm⟩ := ht
  · unfold advance at h
    rw [hn, if_neg (by decide)] at h
    set u : RecvTask := { t with progress := { Reading.new with started := true } }
    have hu : Balanced c P u := by
      have hm : Balanced c (P ++ []) u := hb.move rfl (by rw [hn]; rfl)
      rwa [List.append_nil] at hm
    have hl := hu.takeLeftover rfl
    rcases hk : u.takeLeftover with ⟨v, _ | out⟩
    · simp only [hk, Option.getD_none, List.append_nil] at h hl
      refine loop_spec hl ?_ ?_ h
      · simpa only [hk] using dry_takeLeftover (t := u) (by rw [hk])
      · simpa only [hk] using started_takeLeftover (t := u)
    · simp only [hk, Option.getD_some, Option.some.injEq, Prod.mk.injEq] at h hl
      obtain ⟨rfl, rfl, -⟩ := h
      have hp := progress_takeLeftover (show u.takeLeftover.2 = some out by rw [hk])
      rw [hk] at hp
      exact ⟨hl, by rw [hp]; rfl⟩
  · unfold advance at h
    rw [if_pos hm.started] at h
    exact loop_spec hb hm.dry hm.started h

/-- What a step leaves behind once it has put back what a failure leaves. -/
theorem settleRecv_spec {step : Step} (ht : Between c P t)
    (h : t.settleRecv as = some (t', step, as')) : Settled c P t' (.ok step) := by
  obtain ⟨⟨u, r, as₁⟩, hadv, hr⟩ := Option.map_eq_some_iff.mp h
  have hs := advance_spec ht hadv
  rcases r with e | st
  · obtain ⟨rfl, rfl, -⟩ : u.putBack = t' ∧ Step.done (.error e) = step ∧ as₁ = as' := by
      simpa using hr
    have hb : Balanced c P u := hs
    exact ⟨hb.putBack, rfl⟩
  · obtain ⟨rfl, rfl, -⟩ : u = t' ∧ st = step ∧ as₁ = as' := by simpa using hr
    exact hs

end RecvTask

/-! ### One receive after the other -/

/-- A connection, the receive that is on it and whether that is over, and what was received. -/
structure Session where
  conn : Conn
  current : Option (Want × Reading × Bool)
  outputs : List (List UInt8)

/-- What is done with the receive at hand. -/
inductive Op
  /-- A receive is made. -/
  | start (want : Want)
  /-- A run of it begins, or begins again. -/
  | prepare
  | step (as : List Answer)
  | drop

namespace Session

/-- A connection that nothing was received on. -/
def new (stream : List UInt8) (ending : Option Ending) : Session :=
  ⟨⟨[], [], stream, ending⟩, none, []⟩

/-- The receive at hand has begun, and is not over. -/
def inProgress (s : Session) : Bool := s.current.any fun r => r.2.1.started && !r.2.2

/-- One operation. A receive is made when there is none, and stepped when it is not over; a step
whose answers do not suffice is not done yet. -/
def op (s : Session) : Op → Option Session
  | .start want =>
    match s.current with
    | none => some { s with current := some (want, .new, false) }
    | some _ => none
  | .prepare =>
    s.current.map fun (want, progress, _) =>
      let t := (RecvTask.mk s.conn want progress).prepare
      { s with conn := t.source, current := some (want, t.progress, false) }
  | .step as =>
    match s.current with
    | some (want, progress, false) =>
      ((RecvTask.mk s.conn want progress).settleRecv as).map fun
        | (t, .done (.ok out), _) =>
          { conn := t.source, current := some (want, t.progress, true)
            outputs := s.outputs ++ [out] }
        | (t, .done (.error _), _) =>
          { s with conn := t.source, current := some (want, t.progress, true) }
        | (t, .park _, _) => { s with conn := t.source, current := some (want, t.progress, false) }
    | _ => none
  | .drop =>
    s.current.map fun (want, progress, _) =>
      { s with conn := (RecvTask.mk s.conn want progress).putBack.source, current := none }

/-- One operation after the other. -/
def run (s : Session) (ops : List Op) : Option Session := ops.foldlM op s

variable {s s' : Session} {c : Conn} {ops : List Op} {o : Op}

/-- The account holds for the receive at hand, whose buffer is empty unless it is part way. -/
def Sound (c : Conn) (s : Session) : Prop :=
  match s.current with
  | none => ∀ want, RecvTask.Balanced c s.outputs.flatten ⟨s.conn, want, .new⟩
  | some (want, progress, false) => RecvTask.Between c s.outputs.flatten ⟨s.conn, want, progress⟩
  | some (want, progress, true) =>
    RecvTask.Balanced c s.outputs.flatten ⟨s.conn, want, progress⟩ ∧ progress.got = []

theorem Sound.balanced {want : Want} {progress : Reading} {isOver : Bool} (h : Sound c s)
    (hc : s.current = some (want, progress, isOver)) :
    RecvTask.Balanced c s.outputs.flatten ⟨s.conn, want, progress⟩ := by
  rw [Sound, hc] at h
  cases isOver
  · exact h.1
  · exact h.1

/-- An empty buffer can be taken for a new one, of any receive. -/
theorem balanced_new {want : Want} (want' : Want) {progress : Reading} {P : List UInt8}
    {conn : Conn} (h : RecvTask.Balanced c P ⟨conn, want, progress⟩) (hg : progress.got = []) :
    RecvTask.Balanced c P ⟨conn, want', .new⟩ := by
  have hm : RecvTask.Balanced c (P ++ []) ⟨conn, want', .new⟩ :=
    h.move rfl (by simp [hg, Reading.new])
  rwa [List.append_nil] at hm

/-- **Every operation keeps the account.** -/
theorem Sound.op (h : Sound c s) (ho : s.op o = some s') : Sound c s' := by
  cases o with
  | start want =>
    simp only [Session.op] at ho
    split at ho
    · rename_i hc
      obtain rfl := Option.some.inj ho
      rw [Sound, hc] at h
      exact ⟨h want, .inl rfl⟩
    · cases ho
  | prepare =>
    obtain ⟨⟨want, progress, isOver⟩, hc, rfl⟩ := Option.map_eq_some_iff.mp ho
    exact ⟨balanced_new _ (h.balanced hc).putBack rfl, .inl rfl⟩
  | step as =>
    simp only [Session.op] at ho
    split at ho
    · rename_i want progress hc
      obtain ⟨⟨t, step, as'⟩, hst, hs⟩ := Option.map_eq_some_iff.mp ho
      rw [Sound, hc] at h
      have hset := RecvTask.settleRecv_spec h hst
      rcases step with (e | out) | f
      · obtain rfl : _ = s' := hs
        exact ⟨⟨hset.1.rest, hset.1.stream, hset.1.ending⟩, hset.2⟩
      · obtain rfl : _ = s' := hs
        refine ⟨?_, hset.2⟩
        rw [List.flatten_append, List.flatten_singleton]
        exact ⟨hset.1.rest, hset.1.stream, hset.1.ending⟩
      · obtain rfl : _ = s' := hs
        obtain ⟨hb, hl, hst⟩ := hset
        have hb' : RecvTask.Balanced c s.outputs.flatten ⟨t.source, want, t.progress⟩ :=
          ⟨hb.rest, hb.stream, hb.ending⟩
        exact ⟨hb', .inr ⟨hb', hl, hst⟩⟩
    · cases ho
  | drop =>
    obtain ⟨⟨want, progress, isOver⟩, hc, rfl⟩ := Option.map_eq_some_iff.mp ho
    exact fun want' => balanced_new want' (h.balanced hc).putBack rfl

theorem sound_new (stream : List UInt8) (ending : Option Ending) :
    Sound (new stream ending).conn (new stream ending) := fun _ => ⟨rfl, rfl, rfl⟩

theorem Sound.run (h : Sound c s) (hr : s.run ops = some s') : Sound c s' := by
  induction ops generalizing s with
  | nil =>
    obtain rfl : s = s' := Option.some.inj hr
    exact h
  | cons o ops ih =>
    rw [Session.run, List.foldlM_cons] at hr
    obtain ⟨s₁, h1, h2⟩ := Option.bind_eq_some_iff.mp hr
    exact ih (h.op h1) h2

/-- **Every byte, once and in order.** Whatever was received on a connection, in whichever ways
receives were made, cut short and begun again: where no receive is in progress, the outputs of the
ones that succeeded and then the leftover are what was read from the stream. -/
theorem outputs_and_leftover (stream : List UInt8) (ending : Option Ending) (ops : List Op)
    (h : (new stream ending).run ops = some s) (hp : s.inProgress = false) :
    s.outputs.flatten ++ s.conn.leftover = s.conn.taken ∧
      s.conn.taken ++ s.conn.unread = stream := by
  have hs := (sound_new stream ending).run h
  -- Between receives the buffer is empty, so all that is not received is the leftover.
  obtain ⟨hr, hst⟩ : s.outputs.flatten ++ (s.conn.leftover ++ s.conn.unread) = stream ∧
      s.conn.taken ++ s.conn.unread = stream := by
    rcases hc : s.current with _ | ⟨want, progress, isOver⟩
    · rw [Sound, hc] at hs
      obtain ⟨hr, hst, -⟩ := hs (.some 0)
      exact ⟨hr, hst⟩
    · have hb := hs.balanced hc
      have hg : progress.got = [] := by
        rw [inProgress, hc] at hp
        rw [Sound, hc] at hs
        cases isOver
        · obtain ⟨-, hn | hm⟩ := hs
          · exact congrArg Reading.got hn
          · have := hm.started
            simp_all
        · exact hs.2
      obtain ⟨hr, hst, -⟩ := balanced_new want hb hg
      exact ⟨hr, hst⟩
  refine ⟨?_, hst⟩
  rw [← hst, ← List.append_assoc] at hr
  exact List.append_cancel_right hr

/-- A `recv_until` that is dropped part way, and then two receives. -/
def cutShort : List Op :=
  [.start (.until [10] 8), .prepare, .step [.ready 0, .again .read], .drop,
    .start (.exact 1), .prepare, .step [], .drop,
    .start (.until [10] 8), .prepare, .step [.interrupted (.ready 5)]]

/-- The stream `a\nbc`, of which the first receive reads the `a` and gives it back. -/
theorem outputs_and_leftover_cutShort : ∃ s, (new [97, 10, 98, 99] none).run cutShort = some s ∧
    s.inProgress = false ∧ s.outputs = [[97], [10]] ∧ s.conn.leftover = [98, 99] ∧
      s.outputs.flatten ++ s.conn.leftover = s.conn.taken ∧
      s.conn.taken ++ s.conn.unread = [97, 10, 98, 99] := by
  have h : (new [97, 10, 98, 99] none).run cutShort = some
      ⟨⟨[98, 99], [97, 10, 98, 99], [], none⟩, some (.until [10] 8, ⟨[], true, 3⟩, true),
        [[97], [10]]⟩ := rfl
  exact ⟨_, h, rfl, rfl, rfl, outputs_and_leftover _ _ _ h rfl⟩

end Session

end Atap.Stream
