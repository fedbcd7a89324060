import Atap.Stream.Tls

/-!
# From clear text to TLS

To a receive, a TLS connection is a connection whose stream is **what the session decrypts**
(`TlsConn.view`). Every read of it is a read of that one (`TlsConn.read_view`), so a receive on it,
and one receive after the other, runs as on the view, and the account of `Session.Sound` holds.

The leftover is the one thing that is not the session's. A connection that has none when it is
upgraded keeps the two apart.

* `clear_text_stays_out`: what is received after such an upgrade is a prefix of what the session has
  decrypted, and what was not received before it is fed to the session.
* `clear_text_gets_in`: with a leftover, it is received as if it had come through TLS, and the
  session never sees it.
-/

namespace Atap.Stream

/-! ### What a receive does without reading -/

namespace RecvTask

variable {t : RecvTask} {c : Conn}

/-- The receive on another stream, with its leftover. -/
def on (t : RecvTask) (c : Conn) : RecvTask :=
  { t with source := { c with leftover := t.source.leftover } }

theorem putBack_on : (t.on c).putBack = t.putBack.on c := by
  unfold putBack
  rw [Conn.putFront_eq, Conn.putFront_eq]
  rfl

theorem takeLeftover_on : (t.on c).takeLeftover = (t.takeLeftover.1.on c, t.takeLeftover.2) := by
  obtain ⟨⟨leftover, _, _, _⟩, want, _⟩ := t
  rcases want with (_ | n) | (_ | n) | ⟨d, n⟩ | _ <;> cases leftover <;> rfl

theorem done_on : (t.on c).done = (t.done.1.on c, t.done.2) := by
  obtain ⟨s, want, g⟩ := t
  rcases want with n | n | ⟨d, n⟩ | _
  case some | exact =>
    by_cases hn : n ≤ g.got.length
    · simp only [done, on, hn, if_true]
      rfl
    · simp only [done, on, hn, if_false]
  case toEnd => rfl
  case «until» =>
    have hf : (RecvTask.mk { c with leftover := s.leftover } (.until d n) g).found d =
        (RecvTask.mk s (.until d n) g).found d := rfl
    simp only [done, on, hf]
    rcases (RecvTask.mk s (.until d n) g).found d with _ | pos
    · rfl
    · by_cases hn : n < pos + d.length
      · simp only [hn, if_true]
      · simp only [hn, if_false, Conn.putFront_eq]
        rfl

theorem look_on (moved : ℕ) :
    (t.on c).look moved = ((t.look moved).1.on c, (t.look moved).2) := by
  unfold look
  rw [done_on]
  rcases t.done with ⟨u, e | _ | out⟩
  · rfl
  · have hw : (u.on c).want = u.want := rfl
    by_cases hm : stepBudget ≤ moved
    · by_cases hs : u.want.isSome = true
      · simp only [hm, hw, hs, if_true]
        rfl
      · simp only [hm, hw, hs, if_true]
        rfl
    · simp only [hm, if_false]
  · rfl

theorem heed_on (had : ℕ) {io : Except RuntimeError Io} :
    (t.on c).heed had io = ((t.heed had io).1.on c, (t.heed had io).2) := by
  obtain ⟨s, want, g⟩ := t
  rcases io with e | (n | _ | _ | f)
  · rfl
  · rfl
  · cases want <;> rfl
  · rfl
  · cases want <;> cases had <;> rfl

/-- What is done without reading leaves the stream alone. -/
def Aside (t u : RecvTask) : Prop :=
  u.want = t.want ∧ ∃ l, u.source = { t.source with leftover := l }

theorem aside_of_on {u : RecvTask} (hw : u.want = t.want) (h : u = u.on t.source) : Aside t u :=
  ⟨hw, u.source.leftover, congrArg source h⟩

theorem aside_look (moved : ℕ) : Aside t (t.look moved).1 :=
  aside_of_on want_look (congrArg Prod.fst (look_on (t := t) (c := t.source) moved))

theorem aside_takeLeftover : Aside t t.takeLeftover.1 :=
  aside_of_on want_takeLeftover (congrArg Prod.fst (takeLeftover_on (t := t) (c := t.source)))

theorem aside_putBack : Aside t t.putBack := aside_of_on rfl (putBack_on (t := t) (c := t.source))

theorem want_heed (had : ℕ) {io : Except RuntimeError Io} : (t.heed had io).1.want = t.want := by
  rcases io with e | (n | _ | _ | f)
  · rfl
  · rfl
  · exact want_ended
  · rfl
  · obtain ⟨s, want, g⟩ := t
    cases want <;> cases had <;> rfl

theorem aside_heed (had : ℕ) {io : Except RuntimeError Io} : Aside t (t.heed had io).1 :=
  aside_of_on (want_heed had) (congrArg Prod.fst (heed_on (t := t) (c := t.source) had))

end RecvTask

/-! ### The stream behind a session -/

/-- A read that finds `b`. -/
theorem Conn.read_ready {c : Conn} {b u into : List UInt8} {room : ℕ} (hu : c.unread = b ++ u)
    (hb : b ≠ []) (hr : b.length ≤ room) :
    c.read into room (.ready (b.length - 1)) =
      ({ c with taken := c.taken ++ b, unread := u }, into ++ b, .ok (.moved b.length)) := by
  obtain ⟨x, l, rfl⟩ := List.exists_cons_of_ne_nil hb
  have hroom : room ≠ 0 := by
    rintro rfl
    cases hr
  have hk : min ((x :: l).length - 1 + 1) (min room (x :: (l ++ u)).length) = (x :: l).length := by
    simp only [List.length_cons, List.length_append] at hr ⊢
    omega
  rw [List.cons_append] at hu
  unfold read
  rw [if_neg hroom, hu]
  dsimp only
  rw [hk, ← List.cons_append, List.take_left, List.drop_left]

namespace TlsConn

variable {k : Tls} {c c' : TlsConn} {tcp : Conn} {a : Answer}

/-- The connection a receive has before it: its stream is what the session decrypts, and it ends as
the session says. -/
def view (k : Tls) (c : TlsConn) : Conn where
  leftover := c.tcp.leftover
  taken := (k.plain c.fed).take c.given
  unread := (k.plain (c.fed ++ c.tcp.unread)).drop c.given
  ending :=
    if k.closed (c.fed ++ c.tcp.unread) then some .closed else c.tcp.ending.map fun _ => .cut

/-- Since the TCP connection was upgraded, what was read from its socket was fed to the session. -/
structure Fed (k : Tls) (tcp : Conn) (c : TlsConn) : Prop where
  given : c.given ≤ (k.plain c.fed).length
  eof : c.eof = true → c.tcp.unread = [] ∧ c.tcp.ending ≠ none
  stream : c.fed ++ c.tcp.unread = tcp.unread

theorem fed_new : Fed k tcp ⟨tcp, [], 0, false⟩ := ⟨Nat.zero_le _, nofun, rfl⟩

theorem Fed.feed (h : Fed k tcp c) (n : ℕ) : Fed k tcp (c.feed n) where
  given := h.given.trans (k.plain_append c.fed _).length_le
  eof he := ⟨by simp [TlsConn.feed, (h.eof he).1], (h.eof he).2⟩
  stream := by
    simp only [TlsConn.feed, List.append_assoc, List.take_append_drop]
    exact h.stream

theorem view_feed (h : Fed k tcp c) (n : ℕ) : (c.feed n).view k = c.view k := by
  obtain ⟨l, hl⟩ := k.plain_append c.fed (c.tcp.unread.take n)
  have htaken : (k.plain (c.fed ++ c.tcp.unread.take n)).take c.given =
      (k.plain c.fed).take c.given := by
    rw [← hl, List.take_append_of_le_length h.given]
  simp only [view, TlsConn.feed, List.append_assoc, List.take_append_drop, htaken]

/-- Reading from the socket changes nothing that a receive has before it. -/
theorem readTls_spec (h : Fed k tcp c) (a : Answer) :
    Fed k tcp (c.readTls k a).1 ∧ (c.readTls k a).1.view k = c.view k ∧
      (c.readTls k a).1.given = c.given := by
  induction a with
  | interrupted a ih => exact ih
  | again f | error e => exact ⟨h, rfl, rfl⟩
  | ready n =>
    unfold readTls
    split
    case isTrue => exact ⟨h, rfl, rfl⟩
    case isFalse hopen =>
      dsimp only
      split
      case isFalse => exact ⟨h.feed _, view_feed h _, rfl⟩
      case isTrue hu =>
        refine ⟨⟨h.given, fun _ => ⟨hu, fun he => hopen ⟨hu, he⟩⟩, h.stream⟩, rfl, rfl⟩

/-- What the session has ready comes next in the stream. -/
theorem view_unread (h : Fed k tcp c) : ∃ u,
    (c.view k).unread = (k.plain c.fed).drop c.given ++ u := by
  obtain ⟨l, hl⟩ := k.plain_append c.fed c.tcp.unread
  refine ⟨l, ?_⟩
  rw [view, ← hl, List.drop_append_of_le_length h.given]

/-- The session hands out what it has ready. -/
theorem read_moved (into : List UInt8) {room : ℕ} (h : Fed k tcp c) (hroom : room ≠ 0)
    (hready : (k.plain c.fed).drop c.given ≠ []) (b : List UInt8)
    (hb : b = ((k.plain c.fed).drop c.given).take room) :
    Fed k tcp { c with given := c.given + b.length } ∧
      (c.view k).read into room (.ready (b.length - 1)) =
        (({ c with given := c.given + b.length } : TlsConn).view k, into ++ b,
          .ok (.moved b.length)) := by
  obtain ⟨u, hu⟩ := view_unread h
  have hsplit : b ++ ((k.plain c.fed).drop c.given).drop b.length =
      (k.plain c.fed).drop c.given := by
    rw [hb, List.length_take, List.take_eq_take_min, List.take_append_drop]
  have hlen : b.length ≤ room ∧ b.length ≤ (k.plain c.fed).length - c.given := by
    rw [hb, List.length_take, List.length_drop]
    omega
  have hne : b ≠ [] := by
    rw [hb]
    exact fun he => (List.take_eq_nil_iff.mp he).elim hroom hready
  have hgiven := h.given
  refine ⟨⟨by dsimp only; omega, h.eof, h.stream⟩, ?_⟩
  rw [Conn.read_ready (b := b) (by rw [hu, ← hsplit, List.append_assoc]) hne hlen.1]
  have htaken : (k.plain c.fed).take c.given ++ b = (k.plain c.fed).take (c.given + b.length) := by
    rw [List.take_add, ← hsplit, List.take_left]
  have hunread : ((k.plain c.fed).drop c.given).drop b.length ++ u =
      (k.plain (c.fed ++ c.tcp.unread)).drop (c.given + b.length) := by
    have hv : (k.plain (c.fed ++ c.tcp.unread)).drop c.given =
        b ++ (((k.plain c.fed).drop c.given).drop b.length ++ u) := by
      rw [← List.append_assoc, hsplit]
      exact hu
    rw [← List.drop_drop, hv, List.drop_left]
  simp only [view, htaken, hunread]

/-- A session that is closed, or cut off, with nothing ready is at the end of its stream. -/
theorem read_ended (into : List UInt8) {room : ℕ} (h : Fed k tcp c) (hroom : room ≠ 0)
    (hready : (k.plain c.fed).drop c.given = []) :
    (k.closed c.fed = true → (c.view k).read into room (.ready 0) = (c.view k, into, .ok .closed)) ∧
      (k.closed c.fed = false → c.eof = true →
        (c.view k).read into room (.ready 0) = (c.view k, into, .ok .truncated)) := by
  constructor
  · intro hc
    obtain ⟨hcl, hpl⟩ := k.closed_append c.fed c.tcp.unread hc
    have hu : (c.view k).unread = [] := by
      rw [view, hpl]
      exact hready
    have he : (c.view k).ending = some .closed := by
      rw [view, hcl]
      rfl
    unfold Conn.read
    rw [if_neg hroom, hu, he]
  · intro hc heof
    obtain ⟨hnil, hne⟩ := h.eof heof
    have hu : (c.view k).unread = [] := by
      rw [view, hnil, List.append_nil]
      exact hready
    have he : (c.view k).ending = some .cut := by
      obtain ⟨e, hen⟩ := Option.ne_none_iff_exists'.mp hne
      rw [view, hnil, List.append_nil, hc, hen]
      rfl
    unfold Conn.read
    rw [if_neg hroom, hu, he]

/-- A read that comes back with what is to be waited for, or with an error, of the kernel. -/
theorem exists_answer (c : Conn) (into : List UInt8) (room : ℕ) {io : Except RuntimeError Io}
    (h : (∃ f, io = .ok (.wait f)) ∨ ∃ code, io = .error (.checkError code)) :
    ∃ a, c.read into room a = (c, into, io) := by
  obtain ⟨f, rfl⟩ | ⟨code, rfl⟩ := h
  · exact ⟨.again f, rfl⟩
  · exact ⟨.error code, rfl⟩

theorem sent_spec {io : Except RuntimeError Io} (h : a.sent = some io) :
    (∃ f, io = .ok (.wait f)) ∨ ∃ code, io = .error (.checkError code) := by
  induction a with
  | ready n => cases h
  | again f => exact .inl ⟨_, (Option.some.inj h).symm⟩
  | error code => exact .inr ⟨_, (Option.some.inj h).symm⟩
  | interrupted a ih => exact ih h

theorem readTls_io {io : Except RuntimeError Io} (h : (c.readTls k a).2 = some io) :
    (∃ f, io = .ok (.wait f)) ∨ ∃ code, io = .error (.checkError code) := by
  induction a with
  | interrupted a ih => exact ih h
  | again f => exact .inl ⟨_, (Option.some.inj h).symm⟩
  | error code => exact .inr ⟨_, (Option.some.inj h).symm⟩
  | ready n =>
    unfold readTls at h
    split at h
    · exact .inl ⟨_, (Option.some.inj h).symm⟩
    · obtain ⟨-, h⟩ := Option.ite_none_right_eq_some.mp h
      exact .inr ⟨_, (Option.some.inj h).symm⟩

/-- **A read of a TLS connection is a read of what the session decrypts.** -/
theorem read_view {c c' : TlsConn} {into into' : List UInt8} {room : ℕ}
    {io : Except RuntimeError Io} {as : List (Answer × Answer)} (h : Fed k tcp c)
    (hr : c.read k into room as = some (c', into', io)) :
    Fed k tcp c' ∧ ∃ a, (c.view k).read into room a = (c'.view k, into', io) := by
  unfold read at hr
  dsimp only at hr
  split at hr
  case isTrue hroom =>
    obtain ⟨rfl, rfl, rfl⟩ : c = c' ∧ into = into' ∧ _ = io := by simpa using hr
    exact ⟨h, .ready 0, by simp only [Conn.read, hroom, if_true]⟩
  case isFalse hroom =>
    split at hr
    case isTrue hready =>
      simp only [Option.some.injEq, Prod.mk.injEq] at hr
      obtain ⟨rfl, rfl, rfl⟩ := hr
      obtain ⟨hf, hread⟩ := read_moved into h hroom hready _ rfl
      exact ⟨hf, _, hread⟩
    case isFalse hready =>
      obtain ⟨hclosed, hcut⟩ := read_ended into h hroom (not_not.mp hready)
      split at hr
      case isTrue hc =>
        obtain ⟨rfl, rfl, rfl⟩ : c = c' ∧ into = into' ∧ _ = io := by simpa using hr
        exact ⟨h, .ready 0, hclosed hc⟩
      case isFalse hc =>
        split at hr
        case isTrue he =>
          obtain ⟨rfl, rfl, rfl⟩ : c = c' ∧ into = into' ∧ _ = io := by simpa using hr
          exact ⟨h, .ready 0, hcut (eq_false_of_ne_true hc) he⟩
        case isFalse =>
          cases as with
          | nil => cases hr
          | cons a as =>
            obtain ⟨send, recv⟩ := a
            dsimp only at hr
            split at hr
            case h_1 io' hsend =>
              obtain ⟨rfl, rfl, rfl⟩ : c = c' ∧ into = into' ∧ io' = io := by simpa using hr
              exact ⟨h, exists_answer _ into room (sent_spec hsend)⟩
            case h_2 =>
              obtain ⟨hf, hv, -⟩ := readTls_spec h recv
              split at hr
              case h_1 c₁ io' hread =>
                obtain ⟨rfl, rfl, rfl⟩ : c₁ = c' ∧ into = into' ∧ io' = io := by simpa using hr
                rw [hread] at hf hv
                rw [← hv]
                exact ⟨hf, exists_answer _ into room (readTls_io (by rw [hread]))⟩
              case h_2 c₁ hread =>
                rw [hread] at hf hv
                rw [← hv]
                exact read_view hf hr
termination_by structural as

end TlsConn

/-! ### Receives on what the session decrypts -/

theorem RecvTask.turn_eq {t : RecvTask} {a : Answer} {c : Conn} {got : List UInt8}
    {io : Except RuntimeError Io}
    (h : t.source.read t.progress.got (min t.room fileChunk) a = (c, got, io)) :
    t.turn a = RecvTask.heed { t with source := c, progress := { t.progress with got := got } }
      t.progress.got.length io := by
  unfold RecvTask.turn
  rw [h]
  rcases io with e | (n | _ | _ | f) <;> rfl

section Loop

variable {t t' r : RecvTask} {moved n : ℕ} {a : Answer} {as : List Answer}
  {e : Except RuntimeError Step}

theorem RecvTask.loop_of_look (h : t.look moved = (r, some e)) :
    t.loop moved as = some (r, e, as) := by
  unfold RecvTask.loop
  rw [h]

theorem RecvTask.loop_of_turn (h : t.look moved = (r, none)) (hr : r.turn a = (t', .inl e)) :
    t.loop moved (a :: as) = some (t', e, as) := by
  unfold RecvTask.loop
  rw [h]
  dsimp only
  rw [hr]

theorem RecvTask.loop_of_moved (h : t.look moved = (r, none)) (hr : r.turn a = (t', .inr n)) :
    t.loop moved (a :: as) = t'.loop (moved + n) as := by
  rw [RecvTask.loop, h]
  dsimp only
  rw [hr]

end Loop

namespace TlsRecv

variable {k : Tls} {t t' : TlsRecv} {tcp : Conn} {r : RecvTask} {moved : ℕ}

/-- The receive, on what the session decrypts. -/
def view (k : Tls) (t : TlsRecv) : RecvTask := ⟨t.source.view k, t.want, t.progress⟩

theorem view_eq : t.view k = t.pipe.on (t.source.view k) := rfl

/-- What is done with the pipe is done with the leftover. -/
theorem after_view (hr : t.pipe.Aside r) : (t.after r).view k = r.on (t.source.view k) := by
  obtain ⟨hw, l, hl⟩ := hr
  unfold after view RecvTask.on TlsConn.view
  rw [hl, hw]
  rfl

theorem fed_after (hf : t.source.Fed k tcp) (hr : t.pipe.Aside r) :
    (t.after r).source.Fed k tcp := by
  obtain ⟨-, l, hl⟩ := hr
  unfold after
  rw [hl]
  exact ⟨hf.given, hf.eof, hf.stream⟩

theorem turn_view {as : List (Answer × Answer)} {e : Except RuntimeError Step ⊕ ℕ}
    (hf : t.source.Fed k tcp) (h : t.turn k as = some (t', e)) :
    t'.source.Fed k tcp ∧ ∃ a, (t.view k).turn a = (t'.view k, e) := by
  obtain ⟨⟨c, got, io⟩, hr, heq⟩ := Option.map_eq_some_iff.mp h
  obtain ⟨rfl, rfl⟩ := Prod.mk.inj heq
  obtain ⟨hfed, a, ha⟩ := TlsConn.read_view hf hr
  refine ⟨fed_after hfed (RecvTask.aside_heed _), a, ?_⟩
  rw [RecvTask.turn_eq (t := t.view k) ha, after_view (RecvTask.aside_heed _)]
  exact RecvTask.heed_on (t := pipe ⟨c, t.want, { t.progress with got := got }⟩) (c := c.view k) _

theorem look_view {e : Option (Except RuntimeError Step)} (hf : t.source.Fed k tcp)
    (h : t.pipe.look moved = (r, e)) :
    (t.after r).source.Fed k tcp ∧ (t.view k).look moved = ((t.after r).view k, e) := by
  have hr : t.pipe.Aside r := by
    have := RecvTask.aside_look (t := t.pipe) moved
    rwa [h] at this
  refine ⟨fed_after hf hr, ?_⟩
  rw [after_view hr, view_eq, RecvTask.look_on, h]

/-- The loop on a TLS connection is the loop on what the session decrypts. -/
theorem loop_view {as : List (List (Answer × Answer))} {e : Except RuntimeError Step}
    (hf : t.source.Fed k tcp) (h : t.loop k moved as = some (t', e)) :
    t'.source.Fed k tcp ∧ ∃ as', (t.view k).loop moved as' = some (t'.view k, e, []) := by
  induction as generalizing t moved with
  | nil =>
    unfold loop at h
    split at h
    case h_2 => cases h
    case h_1 r e' hl =>
      cases h
      obtain ⟨hfed, hv⟩ := look_view hf hl
      exact ⟨hfed, [], RecvTask.loop_of_look hv⟩
  | cons a as ih =>
    unfold loop at h
    split at h
    case h_1 r e' hl =>
      cases h
      obtain ⟨hfed, hv⟩ := look_view hf hl
      exact ⟨hfed, [], RecvTask.loop_of_look hv⟩
    case h_2 r hl =>
      obtain ⟨hfed, hv⟩ := look_view hf hl
      dsimp only at h
      split at h
      case h_1 => cases h
      case h_2 t₁ e' ht =>
        cases h
        obtain ⟨hfed₁, a', ha⟩ := turn_view hfed ht
        exact ⟨hfed₁, [a'], RecvTask.loop_of_turn hv ha⟩
      case h_3 t₁ n ht =>
        obtain ⟨hfed₁, a', ha⟩ := turn_view hfed ht
        obtain ⟨hfed', as', has⟩ := ih hfed₁ h
        exact ⟨hfed', a' :: as', (RecvTask.loop_of_moved hv ha).trans has⟩

theorem takeLeftover_view {out : Option (List UInt8)} (hf : t.source.Fed k tcp)
    (h : t.pipe.takeLeftover = (r, out)) :
    (t.after r).source.Fed k tcp ∧ (t.view k).takeLeftover = ((t.after r).view k, out) := by
  have hr : t.pipe.Aside r := by
    have := RecvTask.aside_takeLeftover (t := t.pipe)
    rwa [h] at this
  refine ⟨fed_after hf hr, ?_⟩
  rw [after_view hr, view_eq, RecvTask.takeLeftover_on, h]

theorem advance_view {as : List (List (Answer × Answer))} {e : Except RuntimeError Step}
    (hf : t.source.Fed k tcp) (h : t.advance k as = some (t', e)) :
    t'.source.Fed k tcp ∧ ∃ as', (t.view k).advance as' = some (t'.view k, e, []) := by
  unfold advance at h
  unfold RecvTask.advance
  split at h
  case isTrue hs =>
    obtain ⟨hfed, as', has⟩ := loop_view hf h
    exact ⟨hfed, as', (if_pos hs).trans has⟩
  case isFalse hs =>
    -- the receive begins, and is the same on the pipe but for that
    let u : TlsRecv := { t with progress := { t.progress with started := true } }
    have hpipe : ({ t.pipe with progress := { t.progress with started := true } } : RecvTask) =
        u.pipe := rfl
    have hview : ({ t.view k with progress := { (t.view k).progress with started := true } } :
        RecvTask) = u.view k := rfl
    have hnot : ¬ (t.view k).progress.started = true := hs
    simp only [if_neg hnot, hview]
    rcases hl : u.pipe.takeLeftover with ⟨r, _ | out⟩
    · obtain ⟨hfed, hv⟩ := takeLeftover_view (t := u) hf hl
      simp only [hpipe, hl] at h
      obtain ⟨hfed', as', has⟩ := loop_view hfed h
      exact ⟨hfed', as', by rw [hv]; exact has⟩
    · obtain ⟨hfed, hv⟩ := takeLeftover_view (t := u) hf hl
      simp only [hpipe, hl] at h
      cases h
      exact ⟨hfed, [], by rw [hv]; rfl⟩

/-- What is put back goes in front of the leftover, which is the pipe's. -/
theorem putBack_view : (t.after t.pipe.putBack).view k = (t.view k).putBack := by
  rw [after_view RecvTask.aside_putBack, view_eq, RecvTask.putBack_on]

theorem settleRecv_view {as : List (List (Answer × Answer))} {step : Step}
    (hf : t.source.Fed k tcp) (h : t.settleRecv k as = some (t', step)) :
    t'.source.Fed k tcp ∧ ∃ as', (t.view k).settleRecv as' = some (t'.view k, step, []) := by
  obtain ⟨⟨u, r⟩, hadv, hr⟩ := Option.map_eq_some_iff.mp h
  obtain ⟨hfed, as', has⟩ := advance_view hf hadv
  unfold RecvTask.settleRecv
  rcases r with e | st
  · obtain ⟨rfl, rfl⟩ := Prod.mk.inj hr
    refine ⟨fed_after hfed RecvTask.aside_putBack, as', ?_⟩
    rw [has, putBack_view]
    rfl
  · obtain ⟨rfl, rfl⟩ := Prod.mk.inj hr
    refine ⟨hfed, as', ?_⟩
    rw [has]
    rfl

end TlsRecv

namespace TlsSession

variable {k : Tls} {s s' : TlsSession} {tcp : Conn} {o : TlsOp} {ops : List TlsOp}

/-- The connection and its receives, on what the session decrypts. -/
def view (k : Tls) (s : TlsSession) : Session := ⟨s.conn.view k, s.current, s.outputs⟩

/-- An operation on a TLS connection is one on what the session decrypts. -/
theorem op_view (hf : s.conn.Fed k tcp) (h : s.op k o = some s') :
    s'.conn.Fed k tcp ∧ ∃ o', (s.view k).op o' = some (s'.view k) := by
  cases o with
  | start want =>
    simp only [op] at h
    split at h
    case h_1 hc =>
      obtain rfl := Option.some.inj h
      exact ⟨hf, .start want, by simp only [Session.op, view, hc]⟩
    case h_2 => cases h
  | prepare =>
    obtain ⟨⟨want, progress, isOver⟩, hc, rfl⟩ := Option.map_eq_some_iff.mp h
    have haside : (TlsRecv.mk s.conn want progress).pipe.Aside
        (TlsRecv.mk s.conn want progress).pipe.prepare :=
      RecvTask.aside_putBack (t := (TlsRecv.mk s.conn want progress).pipe)
    refine ⟨TlsRecv.fed_after hf haside, .prepare, ?_⟩
    have hv := congrArg RecvTask.source
      (TlsRecv.putBack_view (k := k) (t := ⟨s.conn, want, progress⟩))
    simp only [Session.op, view, hc]
    exact congrArg (fun c => some (Session.mk c _ _)) hv.symm
  | step as =>
    simp only [op] at h
    split at h
    case h_2 => cases h
    case h_1 want progress hc =>
      obtain ⟨⟨t, step⟩, hst, hs⟩ := Option.map_eq_some_iff.mp h
      obtain ⟨hfed, as', has⟩ := TlsRecv.settleRecv_view hf hst
      have hview : (TlsRecv.mk s.conn want progress).view k = ⟨s.conn.view k, want, progress⟩ := rfl
      rw [hview] at has
      rcases step with (e | out) | f
      all_goals
        obtain rfl := hs
        refine ⟨hfed, .step as', ?_⟩
        simp only [Session.op, view, hc, has]
        rfl
  | drop =>
    obtain ⟨⟨want, progress, isOver⟩, hc, rfl⟩ := Option.map_eq_some_iff.mp h
    refine ⟨TlsRecv.fed_after (t := ⟨s.conn, want, progress⟩) hf RecvTask.aside_putBack, .drop, ?_⟩
    have hv := congrArg RecvTask.source
      (TlsRecv.putBack_view (k := k) (t := ⟨s.conn, want, progress⟩))
    simp only [Session.op, view, hc]
    exact congrArg (fun c => some (Session.mk c _ _)) hv.symm

/-- So is one operation after the other, and the account holds. -/
theorem sound_of_run {c : Conn} (hf : s.conn.Fed k tcp) (hs : Session.Sound c (s.view k))
    (h : s.run k ops = some s') : s'.conn.Fed k tcp ∧ Session.Sound c (s'.view k) := by
  induction ops generalizing s with
  | nil =>
    obtain rfl : s = s' := Option.some.inj h
    exact ⟨hf, hs⟩
  | cons o ops ih =>
    rw [run, List.foldlM_cons] at h
    obtain ⟨s₁, h1, h2⟩ := Option.bind_eq_some_iff.mp h
    obtain ⟨hf₁, o', ho⟩ := op_view hf h1
    exact ih hf₁ (hs.op ho) h2

end TlsSession

/-! ### The upgrade -/

namespace TlsConn

variable {k : Tls} {c c' : TlsConn} {tcp : Conn}

/-- The handshake feeds the session, and touches neither the leftover nor what it has decrypted. -/
theorem handshake_spec {as : List (Answer × Answer)} {r : Except RuntimeError (Option Io)}
    (hf : Fed k tcp c) (h : c.handshake k as = some (c', r)) :
    Fed k tcp c' ∧ c'.view k = c.view k ∧ c'.given = c.given := by
  induction as generalizing c with
  | nil => cases h
  | cons a as ih =>
    obtain ⟨send, recv⟩ := a
    unfold handshake at h
    split at h
    case h_1 | h_2 =>
      obtain ⟨rfl, -⟩ := Prod.mk.inj (Option.some.inj h)
      exact ⟨hf, rfl, rfl⟩
    case h_3 =>
      obtain ⟨hf₁, hv, hg⟩ := readTls_spec hf recv
      split at h
      case isTrue =>
        obtain ⟨rfl, -⟩ := Prod.mk.inj (Option.some.inj h)
        exact ⟨hf, rfl, rfl⟩
      case isFalse =>
        split at h
        case h_1 hr | h_2 hr =>
          obtain ⟨rfl, -⟩ := Prod.mk.inj (Option.some.inj h)
          rw [hr] at hf₁ hv hg
          exact ⟨hf₁, hv, hg⟩
        case h_3 c₁ hr =>
          rw [hr] at hf₁ hv hg
          split at h
          case isTrue =>
            obtain ⟨rfl, -⟩ := Prod.mk.inj (Option.some.inj h)
            exact ⟨hf₁, hv, hg⟩
          case isFalse =>
            obtain ⟨hf', hv', hg'⟩ := ih hf₁ h
            exact ⟨hf', hv'.trans hv, hg'.trans hg⟩

theorem shake_spec {steps : List (List (Answer × Answer))} (hf : Fed k tcp c)
    (h : c.shake k steps = some c') :
    Fed k tcp c' ∧ c'.view k = c.view k ∧ c'.given = c.given := by
  induction steps generalizing c with
  | nil => cases h
  | cons as steps ih =>
    unfold shake at h
    split at h
    case h_1 c₁ hs =>
      obtain rfl := Option.some.inj h
      exact handshake_spec hf hs
    case h_2 c₁ _ hs =>
      obtain ⟨hf₁, hv, hg⟩ := handshake_spec hf hs
      obtain ⟨hf', hv', hg'⟩ := ih hf₁ h
      exact ⟨hf', hv'.trans hv, hg'.trans hg⟩
    case h_3 => cases h

end TlsConn

/-- What is received on a TLS connection that started without a leftover is what the session has
handed out, but for what is left over since and what the receive at hand has. -/
theorem TlsSession.outputs_given {k : Tls} {s : TlsSession} {c : Conn}
    (hs : Session.Sound c (s.view k)) (hl : c.leftover = []) (ht : c.taken = []) :
    s.outputs.flatten <+: (k.plain s.conn.fed).take s.conn.given := by
  -- the account, for the receive at hand or for none
  obtain ⟨t, hb, hsrc⟩ : ∃ t : RecvTask, RecvTask.Balanced c s.outputs.flatten t ∧
      t.source = s.conn.view k := by
    rcases hc : s.current with _ | ⟨want, progress, isOver⟩
    · have hcur : (s.view k).current = none := hc
      rw [Session.Sound, hcur] at hs
      exact ⟨_, hs (.some 0), rfl⟩
    · exact ⟨_, hs.balanced (s := s.view k) hc, rfl⟩
  have hrest := hb.rest
  have hstream := hb.stream
  rw [hl, List.nil_append] at hrest
  rw [ht, List.nil_append, ← hrest, RecvTask.rest, ← List.append_assoc] at hstream
  refine ⟨t.progress.got ++ t.source.leftover, ?_⟩
  have := List.append_cancel_right hstream
  rw [hsrc] at this ⊢
  exact this.symm

/-- **Nothing received in the clear is taken for TLS data**: on a connection that has no leftover
when it is upgraded, what the TLS receives return is a prefix of what the session has decrypted, and
every byte of the stream that was not received before is fed to the session, or still unread. -/
theorem clear_text_stays_out (k : Tls) (stream : List UInt8) (ending : Option Ending)
    (ops : List Op) {s : Session} (hs : (Session.new stream ending).run ops = some s)
    (hnone : s.current = none) (hl : s.conn.leftover = []) (steps : List (List (Answer × Answer)))
    {c : TlsConn} (hc : TlsConn.upgrade k s.conn steps = some c) (tops : List TlsOp)
    {s' : TlsSession} (hs' : (TlsSession.new c).run k tops = some s') :
    s'.outputs.flatten <+: k.plain s'.conn.fed ∧
      s.outputs.flatten ++ s'.conn.fed ++ s'.conn.tcp.unread = stream := by
  obtain ⟨hf, hv, hg⟩ := TlsConn.shake_spec TlsConn.fed_new hc
  have hsound : Session.Sound (c.view k) ((TlsSession.new c).view k) := fun _ => ⟨rfl, rfl, rfl⟩
  obtain ⟨hf', hsound'⟩ := TlsSession.sound_of_run hf hsound hs'
  constructor
  · have hgiven := TlsSession.outputs_given hsound' (by rw [hv]; exact hl) (by rw [hv]; rfl)
    exact hgiven.trans <| List.take_prefix _ _
  · have hbefore := (Session.sound_new stream ending).run hs
    rw [Session.Sound, hnone] at hbefore
    have hrest := (hbefore (.some 0)).rest
    rw [RecvTask.rest, hl] at hrest
    rw [List.append_assoc, hf'.stream]
    exact hrest

/-- **A leftover is what the first TLS receive returns**, whatever the session makes of what it is
fed: two connections that differ in nothing else give different results. -/
theorem leftover_received (k : Tls) {tcp : Conn} (hl : tcp.leftover ≠ [])
    {steps : List (List (Answer × Answer))} {c : TlsConn}
    (hc : TlsConn.upgrade k tcp steps = some c) (n : ℕ) (as : List (List (Answer × Answer))) :
    ∃ s, (TlsSession.new c).run k [.start (.some (n + 1)), .step as] = some s ∧
      s.conn.fed = c.fed ∧ s.outputs = [tcp.leftover.take (n + 1)] := by
  obtain ⟨-, hv, -⟩ := TlsConn.shake_spec TlsConn.fed_new hc
  have hleft : c.tcp.leftover = tcp.leftover := (congrArg Conn.leftover hv :)
  obtain ⟨b, l, hbl⟩ := List.exists_cons_of_ne_nil hl
  obtain ⟨⟨_, taken, unread, ending⟩, fed, given, eof⟩ := c
  obtain rfl := hleft.trans hbl
  refine ⟨_, rfl, rfl, ?_⟩
  rw [hbl]
  exact congrArg ([·]) List.take_eq_take_min.symm

/-- A session whose handshake is one byte, and that leaves all that follows as it is. -/
def oneByte : Tls where
  plain fed := fed.drop 1
  handshaking fed := fed.isEmpty
  closed _ := false
  refuses _ := false
  plain_append fed more := by
    cases fed
    · exact List.nil_prefix
    · exact List.prefix_append _ _
  closed_append := nofun

/-- What the other side says to the handshake. -/
def hello : List (List (Answer × Answer)) :=
  [[(.ready 0, .ready 0), (.ready 0, .ready 0)]]

/-- A `recv(5)`, with one read. -/
def recvFive : List TlsOp :=
  [.start (.some 5), .prepare, .step [[(.ready 0, .ready 0)], [(.ready 0, .again .read)]]]

/-- A line of two bytes is received in the clear, and no more than that is read. -/
def clearLine : List Op := [.start (.exact 2), .prepare, .step [.ready 1], .drop]

theorem run_clearLine : (Session.new [97, 10, 1, 98] none).run clearLine =
    some ⟨⟨[], [97, 10], [1, 98], none⟩, none, [[97, 10]]⟩ := rfl

theorem upgrade_clearLine : TlsConn.upgrade oneByte ⟨[], [97, 10], [1, 98], none⟩ hello =
    some ⟨⟨[], [97, 10, 1], [98], none⟩, [1], 0, false⟩ := rfl

theorem recv_clearLine :
    (TlsSession.new ⟨⟨[], [97, 10, 1], [98], none⟩, [1], 0, false⟩).run oneByte recvFive =
      some ⟨⟨⟨[], [97, 10, 1, 98], [], none⟩, [1, 98], 1, false⟩,
        some (.some 5, ⟨[], true, 0⟩, true), [[98]]⟩ := rfl

theorem clear_text_stays_out_line : ∃ s c s',
    (Session.new [97, 10, 1, 98] none).run clearLine = some s ∧ s.conn.leftover = [] ∧
    TlsConn.upgrade oneByte s.conn hello = some c ∧
    (TlsSession.new c).run oneByte recvFive = some s' ∧ s'.outputs = [[98]] ∧
    s'.outputs.flatten <+: oneByte.plain s'.conn.fed ∧
      s.outputs.flatten ++ s'.conn.fed ++ s'.conn.tcp.unread = [97, 10, 1, 98] :=
  ⟨_, _, _, run_clearLine, rfl, upgrade_clearLine, recv_clearLine, rfl,
    clear_text_stays_out oneByte _ _ clearLine run_clearLine rfl rfl hello upgrade_clearLine
      recvFive recv_clearLine⟩

/-- The line is received with `recv_until`, and the read finds one byte more. -/
def clearUntil : List Op := [.start (.until [10] 8), .prepare, .step [.ready 2], .drop]

theorem run_clearUntil : (Session.new [97, 10, 88, 1, 98] none).run clearUntil =
    some ⟨⟨[88], [97, 10, 88], [1, 98], none⟩, none, [[97, 10]]⟩ := rfl

theorem upgrade_clearUntil : TlsConn.upgrade oneByte ⟨[88], [97, 10, 88], [1, 98], none⟩ hello =
    some ⟨⟨[88], [97, 10, 88, 1], [98], none⟩, [1], 0, false⟩ := rfl

theorem recv_clearUntil :
    (TlsSession.new ⟨⟨[88], [97, 10, 88, 1], [98], none⟩, [1], 0, false⟩).run oneByte recvFive =
      some ⟨⟨⟨[], [97, 10, 88, 1], [98], none⟩, [1], 0, false⟩,
        some (.some 5, ⟨[], true, 0⟩, true), [[88]]⟩ := rfl

/-- The byte that was read with the line is what the first TLS receive returns: the session has
decrypted nothing, and was never fed it. Without that byte in the clear, and with the same session,
the same receive returns what the session decrypts. -/
theorem clear_text_gets_in :
    (∃ s c s', (Session.new [97, 10, 88, 1, 98] none).run clearUntil = some s ∧
      s.outputs = [[97, 10]] ∧ s.conn.leftover = [88] ∧
      TlsConn.upgrade oneByte s.conn hello = some c ∧
      (TlsSession.new c).run oneByte recvFive = some s' ∧ s'.outputs = [[88]] ∧
      oneByte.plain s'.conn.fed = [] ∧
      s.outputs.flatten ++ s'.conn.fed ++ s'.conn.tcp.unread = [97, 10, 1, 98]) ∧
    ∃ s c s', (Session.new [97, 10, 1, 98] none).run clearLine = some s ∧
      s.outputs = [[97, 10]] ∧ s.conn.leftover = [] ∧
      TlsConn.upgrade oneByte s.conn hello = some c ∧
      (TlsSession.new c).run oneByte recvFive = some s' ∧ s'.outputs = [[98]] :=
  ⟨⟨_, _, _, run_clearUntil, rfl, rfl, upgrade_clearUntil, recv_clearUntil, rfl, rfl, rfl⟩,
    _, _, _, run_clearLine, rfl, rfl, upgrade_clearLine, recv_clearLine, rfl⟩

end Atap.Stream
