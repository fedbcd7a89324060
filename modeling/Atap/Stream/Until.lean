import Atap.Stream.Account

/-!
# Receiving up to a delimiter

`untilResult` says what `recv_until` is for, of the bytes that are left over and still to arrive,
and of how they end: the shortest line, if it is short enough, or else why there is none. It is not
told how the bytes arrive.

What a receive part way relies on is in `Hunt`. The buffer and the unread stream are the input; no
line ends in the part that has been searched, so a search that resumes finds the first one
(`position_resume`). Each round either goes on with a buffer that has no line and is not too long
(`Undecided`), or ends with `untilResult`; and each read that finds something shortens what is
unread, so with enough of them the receive does end.
-/

namespace Atap.Stream

/-- What is to come of the bytes `input`: the shortest line of at most `max`, or that there are
`max` bytes without one, or that the stream ends first. -/
def untilResult (d : List UInt8) (max : ℕ) (input : List UInt8) (ending : Option Ending) :
    Option (Except RuntimeError (List UInt8)) :=
  match (lineEnd d input).filter (· ≤ max) with
  | some k => some (.ok (input.take k))
  | none =>
    if max ≤ input.length then some (.error .tooLong) else ending.map fun _ => .error .closed

/-- The buffer has no line, and room for one. -/
def Undecided (d : List UInt8) (max : ℕ) (got : List UInt8) : Prop :=
  lineEnd d got = none ∧ got.length < max

section Result

variable {d got u : List UInt8} {max k : ℕ} {e : Option Ending}

theorem untilResult_of_line (hk : lineEnd d got = some k) (hle : k ≤ max) :
    untilResult d max (got ++ u) e = some (.ok (got.take k)) := by
  have hlen : k ≤ got.length := (lineEnd_eq_some.mp hk).1.1
  rw [untilResult, lineEnd_append_of_some hk, Option.filter_some_pos (by simpa using hle)]
  dsimp only
  rw [List.take_append_of_le_length hlen]

theorem untilResult_of_long_line (hk : lineEnd d got = some k) (hlt : max < k) :
    untilResult d max (got ++ u) e = some (.error .tooLong) := by
  have hlen : k ≤ got.length := (lineEnd_eq_some.mp hk).1.1
  rw [untilResult, lineEnd_append_of_some hk, Option.filter_some_neg (by simpa using hlt)]
  dsimp only
  rw [if_pos (by rw [List.length_append]; omega)]

theorem untilResult_of_full (hn : lineEnd d got = none) (hle : max ≤ got.length) :
    untilResult d max (got ++ u) e = some (.error .tooLong) := by
  have hf : (lineEnd d (got ++ u)).filter (· ≤ max) = none := by
    refine Option.filter_eq_none_iff.mpr fun k hk => ?_
    have := lt_of_lineEnd_append hn hk
    simp only [decide_eq_true_eq]
    omega
  rw [untilResult, hf]
  dsimp only
  rw [if_pos (by rw [List.length_append]; omega)]

theorem Undecided.untilResult (h : Undecided d max got) :
    untilResult d max got e = e.map fun _ => .error .closed := by
  rw [Stream.untilResult, h.1]
  exact if_neg (not_le.mpr h.2)

end Result

namespace RecvTask

variable {c : Conn} {d : List UInt8} {max moved n : ℕ} {t t' : RecvTask} {a : Answer}
  {as as' : List Answer}

/-- What `recv_until` is to come to, from the connection `c`. -/
def expected (c : Conn) (d : List UInt8) (max : ℕ) : Option (Except RuntimeError (List UInt8)) :=
  untilResult d max (c.leftover ++ c.unread) c.ending

/-- A `recv_until` part way. -/
structure Hunt (c : Conn) (d : List UInt8) (max : ℕ) (t : RecvTask) : Prop where
  mid : Mid c [] t
  want : t.want = .until d max
  le : t.progress.searched ≤ t.progress.got.length
  none : d ≠ [] → ∀ k ≤ t.progress.searched, ¬ EndsAt d t.progress.got k

/-- What a step leaves behind, by what it came to. -/
def Answered (c : Conn) (d : List UInt8) (max : ℕ) (t : RecvTask) : Except RuntimeError Step → Prop
  | .error e => expected c d max = some (.error e)
  | .ok (.done r) => expected c d max = some r
  | .ok (.park _) => Hunt c d max t

theorem Hunt.expected_eq (h : Hunt c d max t) :
    expected c d max = untilResult d max (t.progress.got ++ t.source.unread) t.source.ending := by
  have hr := h.mid.balanced.rest
  rw [rest, h.mid.leftover, List.append_nil, List.nil_append] at hr
  rw [expected, hr, h.mid.balanced.ending]

/-- The search from where the last one stopped finds the first line. -/
theorem Hunt.found (h : Hunt c d max t) :
    (t.found d).map (· + d.length) = lineEnd d t.progress.got := by
  unfold RecvTask.found
  dsimp only
  by_cases hd : d = []
  · subst hd
    exact (lineEnd_eq_some.mpr
      ⟨⟨Nat.zero_le _, List.nil_suffix⟩, fun j hj => absurd hj (by simp)⟩).symm
  · rw [if_neg (by simpa using hd)]
    exact position_resume hd (h.none hd)

/-- A buffer that has all been searched, in vain. -/
theorem Hunt.searched (h : Hunt c d max t) (hn : lineEnd d t.progress.got = Option.none) :
    Hunt c d max
      { t with progress := { t.progress with searched := t.progress.got.length } } := by
  obtain ⟨⟨⟨hr, hst, he⟩, hl, hs⟩, hw, -, -⟩ := h
  exact ⟨⟨⟨hr, hst, he⟩, hl, hs⟩, hw, le_refl _, fun _ k _ => lineEnd_eq_none.mp hn k⟩

theorem Hunt.done (h : Hunt c d max t) :
    match t.done with
    | (t', .ok Option.none) =>
      Hunt c d max t' ∧ Undecided d max t'.progress.got ∧ t'.source = t.source
    | (_, .ok (some out)) => expected c d max = some (.ok out)
    | (_, .error e) => expected c d max = some (.error e) := by
  have hfound := h.found
  rw [h.expected_eq]
  unfold RecvTask.done
  rw [h.want]
  dsimp only
  rcases hf : t.found d with _ | pos
  · have hn : lineEnd d t.progress.got = Option.none := by rw [← hfound, hf]; rfl
    dsimp only
    by_cases hm : max ≤ t.progress.got.length
    · rw [if_pos hm]
      exact untilResult_of_full hn hm
    · rw [if_neg hm]
      have hs := h.searched hn
      rw [h.want] at hs
      exact ⟨hs, ⟨hn, not_le.mp hm⟩, rfl⟩
  · have hk : lineEnd d t.progress.got = some (pos + d.length) := by rw [← hfound, hf]; rfl
    dsimp only
    by_cases hm : max < pos + d.length
    · rw [if_pos hm]
      exact untilResult_of_long_line hk hm
    · rw [if_neg hm]
      exact untilResult_of_line hk (not_lt.mp hm)

theorem Hunt.look (h : Hunt c d max t) (moved : ℕ) :
    match t.look moved with
    | (t', Option.none) =>
      Hunt c d max t' ∧ Undecided d max t'.progress.got ∧ t'.source = t.source ∧ moved < stepBudget
    | (t', some r) => Answered c d max t' r ∧ (∀ f, r = .ok (.park f) →
        t'.source = t.source ∧ stepBudget ≤ moved) := by
  have hdone := h.done
  unfold RecvTask.look
  rcases hd : t.done with ⟨t', e | (_ | out)⟩
  · rw [hd] at hdone
    exact ⟨hdone, nofun⟩
  · rw [hd] at hdone
    obtain ⟨hh, hu, hs⟩ := hdone
    dsimp only
    have hw : t'.want.isSome = false := by rw [hh.want]; rfl
    by_cases hm : stepBudget ≤ moved
    · simp only [if_pos hm, hw, Bool.false_eq_true, if_false]
      exact ⟨hh, fun _ _ => ⟨hs, hm⟩⟩
    · simp only [if_neg hm]
      exact ⟨hh, hu, hs, not_le.mp hm⟩
  · rw [hd] at hdone
    exact ⟨hdone, nofun⟩

/-- What is read goes to the end of the buffer, behind what has been searched. -/
theorem Hunt.append {b u : List UInt8} (h : Hunt c d max t) (hu : t.source.unread = b ++ u) :
    Hunt c d max
      { t with
        source := { t.source with taken := t.source.taken ++ b, unread := u }
        progress := { t.progress with got := t.progress.got ++ b } } := by
  refine ⟨h.mid.append hu, h.want, ?_, fun hd k hk => ?_⟩
  · exact h.le.trans (by rw [List.length_append]; exact Nat.le_add_right ..)
  · rw [endsAt_append (hk.trans h.le)]
    exact h.none hd k hk

/-- A round reads something, or ends with the result, or finds nothing and parks. -/
theorem Hunt.turn (h : Hunt c d max t) (hu : Undecided d max t.progress.got)
    (ha : a.fails = false) :
    match t.turn a with
    | (t', .inl r) => Answered c d max t' r ∧ (∀ f, r = .ok (.park f) → t' = t ∧
        (a.readies = true → expected c d max = Option.none))
    | (t', .inr _) => Hunt c d max t' ∧ t'.source.unread.length < t.source.unread.length := by
  have hr := t.source.reads t.progress.got (min t.room fileChunk) a
  have hroom : min t.room fileChunk ≠ 0 := by
    rw [RecvTask.room, h.want]
    exact (show min fileChunk fileChunk ≠ 0 by decide)
  -- Once there is nothing more to read, the buffer is all there was.
  have hend (hn : t.source.unread = []) :
      expected c d max = t.source.ending.map fun _ => .error .closed := by
    rw [h.expected_eq, hn, List.append_nil, hu.untilResult]
  unfold RecvTask.turn
  dsimp only
  generalize t.source.read t.progress.got (min t.room fileChunk) a = r at hr ⊢
  cases hr with
  | moved b u hb hub =>
    refine ⟨h.append hub, ?_⟩
    rw [hub, List.length_append]
    exact Nat.lt_add_of_pos_left (List.length_pos_iff.mpr hb)
  | closed hc =>
    obtain ⟨hn, he⟩ := hc.resolve_left hroom
    unfold RecvTask.ended
    rw [h.want]
    refine ⟨?_, nofun⟩
    exact (hend hn).trans (by rw [he]; rfl)
  | truncated hc =>
    obtain ⟨hn, he⟩ := hc
    refine ⟨?_, nofun⟩
    exact (hend hn).trans (by rw [he]; rfl)
  | wait f hf =>
    have hw : t.want.isSome = false := by rw [h.want]; rfl
    simp only [hw, Bool.false_and, Bool.false_eq_true, if_false]
    refine ⟨h, fun _ _ => ⟨trivial, fun hra => ?_⟩⟩
    obtain ⟨hn, he⟩ := hf hra
    exact (hend hn).trans (by rw [he]; rfl)
  | error code hf => rw [ha] at hf; cases hf

/-- Over the whole of a step, by induction on the answers: it ends with the result, or parks with
the hunt going on. -/
theorem Hunt.loop {r : Except RuntimeError Step} (h : Hunt c d max t)
    (ha : ∀ a ∈ as, a.fails = false) (hl : t.loop moved as = some (t', r, as')) :
    Answered c d max t' r ∧ as' <:+ as := by
  induction as generalizing t moved with
  | nil =>
    have hlook := h.look moved
    obtain ⟨hk, rfl⟩ | ⟨u, a, l, -, hl, -⟩ := loop_cases hl
    · rw [hk] at hlook
      exact ⟨hlook.1, List.suffix_refl _⟩
    · cases hl
  | cons a as ih =>
    have hlook := h.look moved
    obtain ⟨hk, rfl⟩ | ⟨u, a, l, hk, heq, hu⟩ := loop_cases hl
    · rw [hk] at hlook
      exact ⟨hlook.1, List.suffix_refl _⟩
    · obtain ⟨rfl, rfl⟩ := List.cons.inj heq
      rw [hk] at hlook
      obtain ⟨hu', hund, -⟩ := hlook
      have hturn := hu'.turn hund (ha _ (List.mem_cons_self ..))
      obtain ⟨hv, rfl⟩ | ⟨v, n, hv, hn⟩ := hu
      · rw [hv] at hturn
        exact ⟨hturn.1, List.suffix_cons ..⟩
      · rw [hv] at hturn
        obtain ⟨hr, hsuf⟩ := ih hturn.1 (fun b hb => ha b (List.mem_cons_of_mem _ hb)) hn
        exact ⟨hr, hsuf.trans (List.suffix_cons ..)⟩

/-- How many answers found something. -/
def readies (as : List Answer) : ℕ := as.countP Answer.readies

theorem readies_cons (a : Answer) (as : List Answer) :
    readies (a :: as) = readies as + if a.readies = true then 1 else 0 :=
  List.countP_cons

theorem readies_cons_le (a : Answer) (as : List Answer) : readies (a :: as) ≤ readies as + 1 := by
  rw [readies_cons]
  split <;> omega

/-- A step that has not ended has used up its answers, each of which that found something shortened
what is unread. -/
theorem Hunt.loop_none (h : Hunt c d max t) (ha : ∀ a ∈ as, a.fails = false)
    (hl : t.loop moved as = Option.none) :
    readies as ≤ t.source.unread.length := by
  induction as generalizing t moved with
  | nil => exact Nat.zero_le _
  | cons a as ih =>
    have hlook := h.look moved
    unfold RecvTask.loop at hl
    rcases hk : t.look moved with ⟨u, _ | r⟩
    · rw [hk] at hlook hl
      obtain ⟨hu, hund, hs, -⟩ := hlook
      have hturn := hu.turn hund (ha _ (List.mem_cons_self ..))
      dsimp only at hl
      rcases hv : u.turn a with ⟨v, r | n⟩
      · rw [hv] at hl
        cases hl
      · rw [hv] at hl hturn
        have := ih hturn.1 (fun b hb => ha b (List.mem_cons_of_mem _ hb)) hl
        have hlt := hturn.2
        have hle := readies_cons_le a as
        rw [hs] at hlt
        omega
    · rw [hk] at hl
      cases hl

/-- A step that parks has used an answer, and what was unread is shorter by what it found. -/
theorem Hunt.loop_park {f : Filter} (h : Hunt c d max t) (ha : ∀ a ∈ as, a.fails = false)
    (hx : expected c d max ≠ Option.none)
    (hl : t.loop moved as = some (t', .ok (.park f), as')) :
    (moved < stepBudget → as'.length < as.length) ∧
      readies as + t'.source.unread.length ≤ t.source.unread.length + readies as' := by
  induction as generalizing t moved with
  | nil =>
    have hlook := h.look moved
    obtain ⟨hk, rfl⟩ | ⟨u, a, l, -, hl, -⟩ := loop_cases hl
    · rw [hk] at hlook
      obtain ⟨hs, hle⟩ := hlook.2 f rfl
      exact ⟨fun hlt => absurd hle (not_le.mpr hlt), by rw [hs]; omega⟩
    · cases hl
  | cons a as ih =>
    have hlook := h.look moved
    obtain ⟨hk, rfl⟩ | ⟨u, a, l, hk, heq, hu⟩ := loop_cases hl
    · rw [hk] at hlook
      obtain ⟨hs, hle⟩ := hlook.2 f rfl
      exact ⟨fun hlt => absurd hle (not_le.mpr hlt), by rw [hs]; omega⟩
    · obtain ⟨rfl, rfl⟩ := List.cons.inj heq
      rw [hk] at hlook
      obtain ⟨hu', hund, hs, -⟩ := hlook
      have hturn := hu'.turn hund (ha _ (List.mem_cons_self ..))
      obtain ⟨hv, rfl⟩ | ⟨v, n, hv, hn⟩ := hu
      · rw [hv] at hturn
        obtain ⟨rfl, hra⟩ := hturn.2 f rfl
        have hra : ¬ a.readies = true := fun hr => hx (hra hr)
        refine ⟨fun _ => Nat.lt_succ_self _, ?_⟩
        rw [readies_cons, if_neg hra, hs]
        omega
      · rw [hv] at hturn
        obtain ⟨hv', hlt⟩ := hturn
        obtain ⟨hr, hsp⟩ := ih hv' (fun b hb => ha b (List.mem_cons_of_mem _ hb)) hn
        have hsuf := (hv'.loop (fun b hb => ha b (List.mem_cons_of_mem _ hb)) hn).2.length_le
        refine ⟨fun _ => Nat.lt_succ_of_le hsuf, ?_⟩
        have hle := readies_cons_le a as
        rw [hs] at hlt
        omega

/-- A `recv_until` that takes over what is left over. -/
def begun (c : Conn) (d : List UInt8) (max : ℕ) : RecvTask :=
  { source := { c with leftover := [] }, want := .until d max, progress := ⟨c.leftover, true, 0⟩ }

theorem advance_new : (new c (.until d max)).advance as = (begun c d max).loop 0 as := by
  unfold advance begun
  rw [if_neg (show ¬ (new c (.until d max)).progress.started = true from Bool.false_ne_true)]
  unfold takeLeftover new Reading.new
  by_cases he : c.leftover = []
  · simp only [he, List.isEmpty_nil, if_true]
    rw [← he]
  · simp only [List.isEmpty_iff, he, if_false, Want.isSome, Bool.false_eq_true, Nat.min_self,
      List.drop_length, List.take_length]

theorem hunt_begun : Hunt c d max (begun c d max) := by
  refine ⟨⟨⟨?_, rfl, rfl⟩, rfl, rfl⟩, rfl, Nat.zero_le _, fun hd k hk he => ?_⟩
  · simp [rest, begun]
  · have hle := he.length_le
    have := List.length_pos_iff.mpr hd
    have : k ≤ 0 := hk
    omega

/-- A `recv_until` between two steps: not begun, or part way. -/
def Ready (c : Conn) (d : List UInt8) (max : ℕ) (t : RecvTask) : Prop :=
  t = new c (.until d max) ∨ Hunt c d max t

/-- A step is the loop, of a receive part way with as much to read. -/
theorem Ready.exists_loop (h : Ready c d max t) : ∃ u, Hunt c d max u ∧
    u.source.unread = t.source.unread ∧ ∀ as, t.advance as = u.loop 0 as := by
  obtain rfl | h := h
  · exact ⟨_, hunt_begun, rfl, fun _ => advance_new⟩
  · refine ⟨t, h, rfl, fun as => ?_⟩
    unfold advance
    rw [if_pos h.mid.started]

theorem Ready.between (h : Ready c d max t) : Between c [] t := by
  obtain rfl | h := h
  · exact ⟨⟨rfl, rfl, rfl⟩, .inl rfl⟩
  · exact ⟨h.mid.balanced, .inr h.mid⟩

/-- What was handed out. -/
def received : Except RuntimeError (List UInt8) → List UInt8
  | .ok out => out
  | .error _ => []

/-- A step that is done comes with the result, and one that is not leaves the hunt going on. -/
theorem Ready.settleRecv {step : Step} (h : Ready c d max t) (ha : ∀ a ∈ as, a.fails = false)
    (hs : t.settleRecv as = some (t', step, as')) :
    as' <:+ as ∧
      match step with
      | .done r => expected c d max = some r ∧
          received r ++ (t'.source.leftover ++ t'.source.unread) = c.leftover ++ c.unread ∧
          t'.progress.got = []
      | .park _ => Hunt c d max t' := by
  have hset := settleRecv_spec h.between hs
  obtain ⟨u, hu, -, hadv⟩ := h.exists_loop
  obtain ⟨⟨v, r, as₁⟩, hl, hr⟩ := Option.map_eq_some_iff.mp hs
  rw [hadv] at hl
  obtain ⟨hans, hsuf⟩ := hu.loop ha hl
  rcases r with e | (r | f)
  · obtain ⟨-, rfl, rfl⟩ : _ ∧ Step.done (.error e) = step ∧ as₁ = as' := by simpa using hr
    obtain ⟨⟨hrest, -⟩, hgot⟩ := hset
    refine ⟨hsuf, hans, ?_, hgot⟩
    simpa [received, rest, hgot] using hrest
  · obtain ⟨-, rfl, rfl⟩ : _ ∧ Step.done r = step ∧ as₁ = as' := by simpa using hr
    refine ⟨hsuf, hans, ?_⟩
    cases r with
    | error e | ok out =>
      obtain ⟨⟨hrest, -⟩, hgot⟩ := hset
      exact ⟨by simpa [received, rest, hgot] using hrest, hgot⟩
  · obtain ⟨rfl, rfl, rfl⟩ : v = t' ∧ Step.park f = step ∧ as₁ = as' := by simpa using hr
    exact ⟨hsuf, hans⟩

/-- Over all steps: whatever `drive` comes back with is the result. -/
theorem Ready.drive {c' : Conn} {r : Except RuntimeError (List UInt8)} (h : Ready c d max t)
    (ha : ∀ a ∈ as, a.fails = false) (hd : t.drive n as = some (c', r)) :
    expected c d max = some r ∧
      received r ++ (c'.leftover ++ c'.unread) = c.leftover ++ c.unread := by
  induction n generalizing t as with
  | zero => cases hd
  | succ n ih =>
    unfold RecvTask.drive at hd
    rcases hs : t.settleRecv as with _ | ⟨u, step, as'⟩
    · rw [hs] at hd
      cases hd
    · rw [hs] at hd
      obtain ⟨hsuf, hstep⟩ := h.settleRecv ha hs
      rcases step with r' | f
      · cases hd
        obtain ⟨he, hrest, hgot⟩ := hstep
        refine ⟨he, ?_⟩
        simpa [putBack, RecvTask.take, hgot] using hrest
      · exact ih (.inr hstep) (fun a hm => ha a (hsuf.subset hm)) hd

/-- With more answers that find something than there are bytes, and time for every one of them,
`drive` comes back. -/
theorem Ready.drive_isSome (h : Ready c d max t) (ha : ∀ a ∈ as, a.fails = false)
    (hx : expected c d max ≠ Option.none) (hr : t.source.unread.length < readies as)
    (hn : as.length < n) : (t.drive n as).isSome = true := by
  induction n generalizing t as with
  | zero => exact absurd hn (Nat.not_lt_zero _)
  | succ n ih =>
    obtain ⟨u, hu, hunread, hadv⟩ := h.exists_loop
    rw [← hunread] at hr
    unfold RecvTask.drive
    rcases hl : u.loop 0 as with _ | ⟨v, r, as'⟩
    · exact absurd (hu.loop_none ha hl) (not_le.mpr hr)
    · obtain ⟨hans, hsuf⟩ := hu.loop ha hl
      unfold RecvTask.settleRecv
      rw [hadv, hl]
      rcases r with e | (r | f)
      · rfl
      · rfl
      · obtain ⟨hlen, hsp⟩ := hu.loop_park ha hx hl
        have hlen := hlen (by decide)
        exact ih (.inr hans) (fun a hm => ha a (hsuf.subset hm)) (by omega) (by omega)

/-- **A line, however it arrives.** For every delimiter and limit, whatever is left over and still
to come, and however the reads are cut, interrupted and parked: `recv_until` comes back with
`untilResult` of the leftover and the stream, and leaves of these all but the line. If that is a
result at all, it comes back as soon as the stream has been read. -/
theorem recv_until_result (c : Conn) (d : List UInt8) (max n : ℕ) (as : List Answer)
    (ha : ∀ a ∈ as, a.fails = false) :
    (∀ c' r, (new c (.until d max)).drive n as = some (c', r) →
      untilResult d max (c.leftover ++ c.unread) c.ending = some r ∧
        received r ++ (c'.leftover ++ c'.unread) = c.leftover ++ c.unread) ∧
    (untilResult d max (c.leftover ++ c.unread) c.ending ≠ Option.none →
      c.unread.length < readies as → as.length < n →
        ((new c (.until d max)).drive n as).isSome = true) := by
  have h : Ready c d max (new c (.until d max)) := .inl rfl
  exact ⟨fun c' r hd => h.drive ha hd, fun hx hr hn => h.drive_isSome ha hx hr hn⟩

/-- The stream `ab\r\nc`, after a leftover `x`. -/
def twoLines : Conn := ⟨[120], [], [97, 98, 13, 10, 99], some .closed⟩

/-- Reads that cut the delimiter in two. -/
def straddling : List Answer :=
  [.ready 2, .again .read, .interrupted (.ready 0), .ready 5, .ready 0, .ready 0, .ready 0]

theorem recv_until_result_straddling :
    ((new twoLines (.until [13, 10] 8)).drive 9 straddling).isSome = true ∧
    ∀ c' r, (new twoLines (.until [13, 10] 8)).drive 9 straddling = some (c', r) →
      r = .ok [120, 97, 98, 13, 10] ∧ c'.leftover ++ c'.unread = [99] := by
  obtain ⟨hres, hsome⟩ := recv_until_result twoLines [13, 10] 8 9 straddling (by decide)
  refine ⟨hsome (by decide) (by decide) (by decide), fun c' r hd => ?_⟩
  obtain ⟨hr, hrest⟩ := hres c' r hd
  obtain rfl : r = .ok [120, 97, 98, 13, 10] := Option.some.inj (hr.symm.trans rfl)
  exact ⟨rfl, List.append_cancel_left hrest⟩

end RecvTask

end Atap.Stream
