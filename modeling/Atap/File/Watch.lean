import Atap.Common
import Atap.Interleave.Run
import Mathlib.Data.List.Sublists
import Mathlib.Tactic.Common

/-!
# Watching a file

A watch opens its path once, takes a snapshot of the file, and from then on every step takes another
and compares it with the snapshot of the **last report**. That one is replaced only when something
wanted has moved; then the step ends with what has moved. A path that is not there yet can be waited
for, on its directory.

What the kernel says to the calls of one step is a `Kernel`. The bytes of the path are not here:
they are only handed to the kernel. `looks` and `base` are a history, and no step reads them: the
snapshots taken so far, and how many there were before the one of the last report.

* `Snapshot.holds_moved`: what a comparison finds, kind by kind.
* `nothing_lost`: a kind that is wanted and that moved between two looks in a row is reported with
  the second, and nothing else is reported than what moved since the last report. One kind needs an
  assumption (`Shrinking`): a file that grows back to a length it had at the last report has not
  become longer than it was then.
* `growth_lost`: so a watch that looks for nothing but growth does not see it.
-/

namespace Atap.Watch

/-- What can be told apart in the life of a file that has a name. -/
inductive Kind
  | written
  | extended
  | attributes
  | linked
  | renamed
  deriving DecidableEq

/-- The place of the kind among the notes of the kernel. -/
def Kind.bit : Kind → ℕ
  | written => 1
  | extended => 2
  | attributes => 3
  | linked => 4
  | renamed => 5

/-- `Change`: a set of notes. -/
structure Change where
  bits : BitVec 32
  deriving DecidableEq

namespace Change

/-- `Change::WRITTEN`, `EXTENDED`, `ATTRIBUTES`, `LINKED` and `RENAMED`. -/
def of (k : Kind) : Change := ⟨BitVec.twoPow 32 k.bit⟩

def removed : Change := ⟨0x1#32⟩

def created : Change := ⟨1#32 <<< 31⟩

/-- `EVERY_NOTE`. -/
def everyNote : BitVec 32 := 0x3f#32

/-- `Change::notes`. -/
def notes (c : Change) : BitVec 32 := c.bits &&& everyNote

/-- `Change::holds`. -/
def holds (c part : Change) : Bool := c.bits &&& part.bits == part.bits

end Change

/-- What a watched path looked like. -/
structure Snapshot where
  ino : ℕ
  size : ℕ
  mtime : ℤ × ℤ
  mode : ℕ
  owner : ℕ × ℕ
  nlink : ℕ
  atPath : Option ℕ
  deriving DecidableEq

namespace Snapshot

/-- A note, if it is one. -/
def note (moved : Bool) (c : Change) : BitVec 32 := if moved then c.bits else 0#32

/-- What moved between a snapshot and a later one. -/
def moved (s now : Snapshot) : Change :=
  if now.nlink = 0 then ⟨note (s.nlink != 0) .removed⟩
  else ⟨note (now.atPath != s.atPath) (.of .renamed) |||
    note (now.nlink != s.nlink) (.of .linked) |||
    note (s.size < now.size) (.of .extended) ||| note (now.mtime != s.mtime) (.of .written) |||
    note (now.mode != s.mode || now.owner != s.owner) (.of .attributes)⟩

/-- `Snapshot::against`. -/
def against (s now : Snapshot) (wanted : BitVec 32) : Option Change :=
  let c := (s.moved now).notes &&& wanted
  if c = 0#32 then none else some ⟨c⟩

/-- `Snapshot::gone`. -/
def gone (s : Snapshot) : Bool := s.nlink == 0

end Snapshot

/-- `libc::ENOENT`. -/
def enoent : ℤ := 2

/-- What a step came to: what happened, or what to wait for and whether for a bounded time. -/
inductive Step
  | done (change : Change)
  | park (ident : ℕ) (notes : BitVec 32) (deadline : Bool)
  deriving DecidableEq

/-- A watch. The fields of the source, the path only as far as the kernel can be given it, and the
history. -/
structure WatchTask where
  path : Bool
  notes : BitVec 32
  seen : Option Snapshot
  fd : Option ℕ
  appear : Bool
  parent : Option ℕ
  looks : List Snapshot
  base : ℕ
  deriving DecidableEq

/-- What the kernel says when the path is looked for and opened. -/
structure Visit where
  exists_ : Bool
  opened : Except RuntimeError ℕ
  first : Except RuntimeError Snapshot

/-- What the kernel says to the calls of one step: to the visits of a path that is waited for, to
the open of its directory, to the open of a path that is not, and to the snapshot. -/
structure Kernel where
  visit : Visit
  parent : Except RuntimeError ℕ
  again : Visit
  plain : Visit
  now : Except RuntimeError Snapshot

namespace WatchTask

/-- `File::watch`, with `only` and `appear`. -/
def new (path : Bool) (wanted : Change) (appear : Bool) : WatchTask :=
  ⟨path, wanted.notes, none, none, appear, none, [], 0⟩

/-- `watching`: the descriptor and the snapshot of the last report, opening the path first. -/
def watching (t : WatchTask) (v : Visit) : WatchTask × Except RuntimeError (ℕ × Snapshot) :=
  match t.fd, t.seen with
  | some fd, some seen => (t, .ok (fd, seen))
  | _, _ =>
    if !t.path then (t, .error .badPath)
    else
      match v.opened, v.first with
      | .error e, _ => (t, .error e)
      | .ok _, .error e => (t, .error e)
      | .ok fd, .ok seen =>
        ({ t with fd := some fd, seen := some seen, looks := t.looks ++ [seen],
                  base := t.looks.length }, .ok (fd, seen))

/-- `arrival`, up to the directory: none where the path leads nowhere. -/
def found (t : WatchTask) (v : Visit) : WatchTask × Option (Except RuntimeError (Option Step)) :=
  if !t.path then (t, some (.error .badPath))
  else if v.exists_ then
    match t.watching v with
    | (t', .ok _) =>
      if t.parent.isSome then ({ t' with parent := none }, some (.ok (some (.done .created))))
      else (t', some (.ok none))
    | (t', .error e) =>
      -- gone again before it could be opened
      if e = .checkError (some enoent) then (t', none) else (t', some (.error e))
  else (t, none)

/-- The park on the directory, for a write to it. -/
def parkOn (parent : ℕ) : Step := .park parent (Change.of .written).bits true

/-- `arrival`: nothing once the path is there and watched. -/
def arrival (t : WatchTask) (k : Kernel) : WatchTask × Except RuntimeError (Option Step) :=
  match t.found k.visit with
  | (t, some r) => (t, r)
  | (t, none) =>
    match t.parent, k.parent with
    | some parent, _ => (t, .ok (some (parkOn parent)))
    | none, .error e => (t, .error e)
    | none, .ok parent =>
      -- looked for again, since it may have come while the directory was opened
      match { t with parent := some parent }.found k.again with
      | (t, some r) => (t, r)
      | (t, none) => (t, .ok (some (parkOn parent)))

/-- `advance`, once the path is watched. -/
def look (t : WatchTask) (fd : ℕ) (seen : Snapshot) (now : Except RuntimeError Snapshot) :
    WatchTask × Except RuntimeError Step :=
  if !t.path then (t, .error .badPath)
  else
    match now with
    | .error e => (t, .error e)
    | .ok now =>
      let t' := { t with looks := t.looks ++ [now] }
      match seen.against now t.notes with
      | some change => ({ t' with seen := some now, base := t.looks.length }, .ok (.done change))
      -- the backstop bounds the wait, and a file with no names left needs none
      | none => (t', .ok (.park fd t.notes !seen.gone))

def advance (t : WatchTask) (k : Kernel) : WatchTask × Except RuntimeError Step :=
  let (t, early) :=
    if t.appear && t.fd.isNone then t.arrival k else (t, .ok none)
  match early with
  | .error e => (t, .error e)
  | .ok (some step) => (t, .ok step)
  | .ok none =>
    match t.watching k.plain with
    | (t, .error e) => (t, .error e)
    | (t, .ok (fd, seen)) => t.look fd seen k.now

/-- Whether the watch looks for a kind of change. -/
def wants (t : WatchTask) (k : Kind) : Bool := (Change.mk t.notes).holds (.of k)

end WatchTask

/-! ### One comparison -/

namespace Kind

/-- A later snapshot differs from an earlier one by a change of the kind. -/
def Differs (a b : Snapshot) : Kind → Prop
  | written => b.mtime ≠ a.mtime
  | extended => a.size < b.size
  | attributes => b.mode ≠ a.mode ∨ b.owner ≠ a.owner
  | linked => b.nlink ≠ a.nlink
  | renamed => b.atPath ≠ a.atPath

instance (a b : Snapshot) (k : Kind) : Decidable (k.Differs a b) := by
  cases k <;> unfold Differs <;> infer_instance

/-- What a kind looks at is the same in both. -/
def Same (a b : Snapshot) : Kind → Prop
  | written => b.mtime = a.mtime
  | extended => b.size = a.size
  | attributes => b.mode = a.mode ∧ b.owner = a.owner
  | linked => b.nlink = a.nlink
  | renamed => b.atPath = a.atPath

variable {a b c : Snapshot} {k : Kind}

theorem Same.refl (a : Snapshot) (k : Kind) : k.Same a a := by
  cases k <;> simp [Same]

/-- What is the same in two is compared to a third with the same outcome. -/
theorem Same.differs (h : k.Same a b) (hd : k.Differs b c) : k.Differs a c := by
  cases k <;> simp_all [Same, Differs]

theorem Same.trans (h : k.Same a b) (h' : k.Same b c) : k.Same a c := by
  cases k <;> simp_all [Same]

/-- Only a length can move without being a change. -/
theorem same_of_not_differs (h : ¬ k.Differs a b) (hk : k = extended → ¬ b.size < a.size) :
    k.Same a b := by
  cases k with
  | extended =>
    have hle : a.size ≤ b.size := not_lt.mp (hk rfl)
    exact le_antisymm (not_lt.mp h) hle
  | written | linked | renamed => exact not_not.mp h
  | attributes => exact ⟨not_not.mp fun hm => h (.inl hm), not_not.mp fun ho => h (.inr ho)⟩

end Kind

namespace Change

/-- A kind is named by its own note. -/
theorem holds_of {c : Change} {k : Kind} : c.holds (.of k) = c.bits.getLsbD k.bit := by
  have hb : k.bit < 32 := by cases k <;> decide
  unfold holds of
  rw [BitVec.and_twoPow]
  cases hc : c.bits.getLsbD k.bit with
  | true => simp
  | false =>
    have hz : (0#32 : BitVec 32) ≠ BitVec.twoPow 32 k.bit := by cases k <;> decide
    simpa using hz

/-- Every kind is among the notes. -/
theorem getLsbD_everyNote (k : Kind) : everyNote.getLsbD k.bit = true := by
  cases k <;> decide

end Change

namespace Snapshot

variable {s now : Snapshot} {wanted : BitVec 32} {c : Change}

theorem getLsbD_note (b : Bool) (c : Change) (i : ℕ) :
    (note b c).getLsbD i = (b && c.bits.getLsbD i) := by
  cases b <;> simp [note]

/-- What a comparison finds of a file that has a name. -/
theorem holds_moved (h : now.nlink ≠ 0) (k : Kind) :
    (s.moved now).holds (.of k) = true ↔ k.Differs s now := by
  rw [Change.holds_of]
  unfold moved
  rw [if_neg h]
  simp only [BitVec.getLsbD_or, getLsbD_note, Change.of, BitVec.getLsbD_twoPow]
  cases k <;> simp [Kind.bit, Kind.Differs]

/-- A report names a kind if it is wanted and has moved. -/
theorem holds_against (h : now.nlink ≠ 0) (hc : s.against now wanted = some c) (k : Kind) :
    c.holds (.of k) = true ↔ (Change.mk wanted).holds (.of k) = true ∧ k.Differs s now := by
  unfold against at hc
  obtain ⟨-, he⟩ := Option.ite_none_left_eq_some.mp hc
  obtain rfl := Option.some.inj he
  rw [← holds_moved h, Change.holds_of, Change.holds_of, Change.holds_of]
  simp [Change.notes, Change.getLsbD_everyNote, and_comm]

/-- Nothing is reported only if no wanted kind has moved. -/
theorem not_differs_of_against (h : now.nlink ≠ 0) (hc : s.against now wanted = none) {k : Kind}
    (hk : (Change.mk wanted).holds (.of k) = true) : ¬ k.Differs s now := by
  unfold against at hc
  have hz : (s.moved now).notes &&& wanted = 0#32 := by
    by_contra hne
    rw [if_neg hne] at hc
    exact Option.some_ne_none _ hc
  intro hd
  have hbit := congrArg (BitVec.getLsbD · k.bit) hz
  rw [← holds_moved h, Change.holds_of] at hd
  rw [Change.holds_of] at hk
  simp [Change.notes, Change.getLsbD_everyNote, hd, hk] at hbit

end Snapshot

/-! ### One step -/

/-- What a step can do to a watch before it looks: take another directory, or open the path and take
the snapshot that stands for the last report. -/
inductive Opened (t : WatchTask) : WatchTask → Prop
  | rest (parent : Option ℕ) : Opened t { t with parent := parent }
  | first (fd : ℕ) (s : Snapshot) (parent : Option ℕ) (h : t.fd = none ∨ t.seen = none) :
    Opened t { t with fd := some fd, seen := some s, parent := parent, looks := t.looks ++ [s],
                      base := t.looks.length }

theorem Opened.trans {t t₁ t₂ : WatchTask} (h : Opened t t₁) (h' : Opened t₁ t₂) : Opened t t₂ := by
  cases h with
  | rest p =>
    cases h' with
    | rest q => exact .rest q
    | first fd s q hn => exact .first fd s q hn
  | first fd s p hn =>
    cases h' with
    | rest q => exact .first fd s q hn
    | first fd' s' q hn' => simp at hn'

namespace WatchTask

variable {t t₁ : WatchTask} {v : Visit} {k : Kernel}

/-- `watching` opens the path at most once. -/
theorem opened_watching (t : WatchTask) (v : Visit) : Opened t (t.watching v).1 := by
  unfold watching
  split
  · exact .rest t.parent
  · rename_i hno
    have hn : t.fd = none ∨ t.seen = none := by
      by_contra hboth
      obtain ⟨hfd, hseen⟩ := not_or.mp hboth
      obtain ⟨fd, hfd⟩ := Option.ne_none_iff_exists'.mp hfd
      obtain ⟨s, hs⟩ := Option.ne_none_iff_exists'.mp hseen
      exact hno fd s hfd hs
    split
    · exact .rest t.parent
    · split
      · exact .rest t.parent
      · exact .rest t.parent
      · exact .first _ _ t.parent hn

/-- What `watching` hands out is the snapshot of the last report. -/
theorem seen_of_watching {fd : ℕ} {s : Snapshot} (h : (t.watching v).2 = .ok (fd, s)) :
    (t.watching v).1.seen = some s := by
  unfold watching at h ⊢
  split at h
  case h_1 _ _ _ hs =>
    cases h
    exact hs
  case h_2 =>
    split at h
    case isTrue => cases h
    case isFalse hp =>
      rw [if_neg hp]
      split at h <;> cases h
      rfl

theorem opened_found (t : WatchTask) (v : Visit) : Opened t (t.found v).1 := by
  have hw := opened_watching t v
  unfold found
  split
  · exact .rest t.parent
  · split
    · split
      · rename_i t' _ heq
        rw [heq] at hw
        split
        · exact hw.trans (.rest none)
        · exact hw
      · rename_i t' e heq
        rw [heq] at hw
        split <;> exact hw
    · exact .rest t.parent

/-- A step that names no kind of change. -/
def Quiet (r : Except RuntimeError Step) : Prop :=
  ∀ c, r = .ok (.done c) → ∀ k, c.holds (.of k) = false

theorem quiet_error (e : RuntimeError) : Quiet (.error e) := by
  intro c h
  cases h

theorem quiet_park (i : ℕ) (n : BitVec 32) (d : Bool) : Quiet (.ok (.park i n d)) := by
  intro c h
  cases h

/-- That a path came into being is none of the kinds. -/
theorem quiet_created : Quiet (.ok (.done .created)) := by
  intro c h k
  cases h
  cases k <;> decide

/-- A path that was not there is found or not; it has not changed. -/
theorem quiet_found {step : Step} (h : (t.found v).2 = some (.ok (some step))) :
    Quiet (.ok step) := by
  have hstep : step = .done .created := by
    unfold found at h
    split at h
    · cases h
    · split at h
      · split at h
        · split at h <;> cases h
          rfl
        · split at h <;> cases h
      · cases h
  rw [hstep]
  exact quiet_created

theorem opened_arrival (t : WatchTask) (k : Kernel) : Opened t (t.arrival k).1 := by
  have hf := opened_found t k.visit
  unfold arrival
  split
  case h_1 t' r heq =>
    rw [heq] at hf
    exact hf
  case h_2 t' heq =>
    rw [heq] at hf
    split
    case h_1 => exact hf
    case h_2 => exact hf
    case h_3 parent _ _ =>
      have hg := (hf.trans (.rest (some parent))).trans
        (opened_found { t' with parent := some parent } k.again)
      split
      case h_1 heq' =>
        rw [heq'] at hg
        exact hg
      case h_2 heq' =>
        rw [heq'] at hg
        exact hg

theorem quiet_arrival {step : Step} (h : (t.arrival k).2 = .ok (some step)) :
    Quiet (.ok step) := by
  unfold arrival at h
  split at h
  case h_1 heq => exact quiet_found (by rw [heq, ← h])
  case h_2 =>
    split at h
    case h_1 =>
      cases h
      exact quiet_park _ _ _
    case h_2 => cases h
    case h_3 =>
      split at h
      case h_1 heq => exact quiet_found (by rw [heq, ← h])
      case h_2 =>
        cases h
        exact quiet_park _ _ _

/-- What a step comes to: it ends before it looks, or it looks. -/
theorem advance_cases (t : WatchTask) (k : Kernel) :
    ∃ t₁, Opened t t₁ ∧ ((∃ r, Quiet r ∧ t.advance k = (t₁, r)) ∨
      ∃ fd s, t₁.seen = some s ∧ t.advance k = t₁.look fd s k.now) := by
  -- the part before the look, as one watch and one outcome
  obtain ⟨t₀, early, hopen, hearly, heq⟩ : ∃ t₀ early, Opened t t₀ ∧
      (∀ step, early = .ok (some step) → Quiet (.ok step)) ∧
      (if t.appear && t.fd.isNone then t.arrival k else (t, .ok none)) = (t₀, early) := by
    split
    · refine ⟨_, _, opened_arrival t k, ?_, rfl⟩
      intro step hs
      exact quiet_arrival hs
    · refine ⟨t, _, .rest t.parent, ?_, rfl⟩
      intro step hs
      cases hs
  unfold advance
  rw [heq]
  match early with
  | .error e => exact ⟨t₀, hopen, .inl ⟨_, quiet_error e, rfl⟩⟩
  | .ok (some step) => exact ⟨t₀, hopen, .inl ⟨_, hearly step rfl, rfl⟩⟩
  | .ok none =>
    have hw := opened_watching t₀ k.plain
    match hwat : t₀.watching k.plain with
    | (t₁, .error e) =>
      rw [hwat] at hw
      exact ⟨t₁, hopen.trans hw, .inl ⟨_, quiet_error e, by simp [hwat]⟩⟩
    | (t₁, .ok (fd, s)) =>
      have hs := seen_of_watching (t := t₀) (v := k.plain) (by rw [hwat])
      rw [hwat] at hw hs
      exact ⟨t₁, hopen.trans hw, .inr ⟨fd, s, hs, by simp [hwat]⟩⟩

/-- What a look comes to: nothing is seen, a change is reported, or the watch parks. -/
theorem look_cases (t : WatchTask) (fd : ℕ) (s : Snapshot) (now : Except RuntimeError Snapshot) :
    (∃ e, t.look fd s now = (t, .error e)) ∨
    ∃ l, now = .ok l ∧
      ((∃ c, s.against l t.notes = some c ∧ t.look fd s now =
          ({ t with seen := some l, looks := t.looks ++ [l], base := t.looks.length },
            .ok (.done c))) ∨
        (s.against l t.notes = none ∧ t.look fd s now =
          ({ t with looks := t.looks ++ [l] }, .ok (.park fd t.notes !s.gone)))) := by
  unfold look
  split
  · exact .inl ⟨_, rfl⟩
  · split
    · exact .inl ⟨_, rfl⟩
    · rename_i l
      refine .inr ⟨l, rfl, ?_⟩
      split
      case h_1 c hc => exact .inl ⟨c, hc, rfl⟩
      case h_2 hc => exact .inr ⟨hc, rfl⟩

end WatchTask

/-! ### A whole run -/

/-- The watches that runs lead to whose steps are all as `Ok` has it. -/
def Reached (Ok : WatchTask → Kernel → Prop) : WatchTask → Prop :=
  Run.Reach (fun t k => some (t.advance k).1)
    (fun t => ∃ path wanted appear, t = .new path wanted appear) Ok

/-- The file has a name when it is looked at. -/
def Named (k : Kernel) : Prop := ∀ now, k.now = .ok now → now.nlink ≠ 0

/-- Where growth is looked for, no look finds the file shorter than the look before it did unless
another change that is looked for lies between the two. -/
def Shrinking (t : WatchTask) (k : Kernel) : Prop :=
  t.wants .extended → ∀ before a b, (t.advance k).1.looks = before ++ [a, b] → b.size < a.size →
    ∃ kind, kind ≠ .extended ∧ t.wants kind ∧ kind.Differs a b

/-- What holds of a watch between two steps. -/
structure Inv (t : WatchTask) : Prop where
  /-- Nothing has been seen before the path is open. -/
  unopened : t.fd = none ∨ t.seen = none → t.looks = [] ∧ t.base = 0
  /-- The snapshot of the last report is one of the looks. -/
  kept : ∀ s, t.seen = some s → ∃ before after, t.looks = before ++ s :: after ∧
    before.length = t.base
  /-- The last look agrees with it on everything that is looked for. -/
  same : ∀ s last, t.seen = some s → t.looks.getLast? = some last →
    ∀ kind, t.wants kind → kind.Same s last

namespace Inv

variable {t t₁ : WatchTask} {s l : Snapshot}

theorem new (path : Bool) (wanted : Change) (appear : Bool) : Inv (.new path wanted appear) where
  unopened _ := ⟨rfl, rfl⟩
  kept _ h := nomatch h
  same _ _ h := nomatch h

theorem opened (h : Inv t) (ho : Opened t t₁) : Inv t₁ := by
  cases ho with
  | rest parent => exact ⟨h.unopened, h.kept, h.same⟩
  | first fd s parent hn =>
    obtain ⟨hl, -⟩ := h.unopened hn
    constructor
    · intro hno
      simp at hno
    · intro s' hs
      cases hs
      exact ⟨t.looks, [], rfl, rfl⟩
    · intro s' last hs hlast kind _
      cases hs
      rw [hl] at hlast
      cases hlast
      exact Kind.Same.refl s kind

/-- A watch that has reported is open. -/
theorem fd_ne_none (h : Inv t) (hs : t.seen = some s) : t.fd ≠ none := by
  intro hfd
  obtain ⟨before, after, hl, -⟩ := h.kept s hs
  obtain ⟨hnil, -⟩ := h.unopened (.inl hfd)
  rw [hnil] at hl
  simp at hl

/-- There is a look before the next one. -/
theorem exists_last (h : Inv t) (hs : t.seen = some s) :
    ∃ before last, t.looks = before ++ [last] := by
  obtain ⟨before, after, hl, -⟩ := h.kept s hs
  have hne : t.looks ≠ [] := by
    rw [hl]
    simp
  exact ⟨t.looks.dropLast, t.looks.getLast hne, (List.dropLast_append_getLast hne).symm⟩

/-- A look that reports leaves its own snapshot behind. -/
theorem reported (h : Inv t) (hs : t.seen = some s) :
    Inv { t with seen := some l, looks := t.looks ++ [l], base := t.looks.length } where
  unopened hn := by
    rcases hn with hfd | hnone
    · exact absurd hfd (h.fd_ne_none hs)
    · cases hnone
  kept s' hs' := by
    cases hs'
    exact ⟨t.looks, [], rfl, rfl⟩
  same s' last hs' hlast kind _ := by
    cases hs'
    rw [List.getLast?_concat] at hlast
    cases hlast
    exact Kind.Same.refl l kind

/-- A look that does not report agrees with the snapshot of the last report. -/
theorem passed (h : Inv t) (hs : t.seen = some s)
    (hsame : ∀ kind, t.wants kind → kind.Same s l) : Inv { t with looks := t.looks ++ [l] } where
  unopened hn := by
    rcases hn with hfd | hnone
    · exact absurd hfd (h.fd_ne_none hs)
    · rw [hs] at hnone
      cases hnone
  kept s' hs' := by
    obtain ⟨before, after, hl, hb⟩ := h.kept s' hs'
    exact ⟨before, after ++ [l], by simp [hl], hb⟩
  same s' last hs' hlast kind hk := by
    rw [List.getLast?_concat] at hlast
    cases hlast
    rw [hs] at hs'
    cases hs'
    exact hsame kind hk

end Inv

/-- If nothing is reported, what is looked for is as it was at the look before. Only a length needs
the assumption, since a file that has become shorter has not changed by the comparison. -/
theorem same_of_against {t : WatchTask} {s last l : Snapshot} (hname : l.nlink ≠ 0)
    (hsame : ∀ kind, t.wants kind → kind.Same s last) (hc : s.against l t.notes = none)
    (hshrink : t.wants .extended → l.size < last.size →
      ∃ kind, kind ≠ .extended ∧ t.wants kind ∧ kind.Differs last l)
    (kind : Kind) (hk : t.wants kind) : kind.Same s l := by
  have hno {kind : Kind} (hk : t.wants kind) : ¬ kind.Differs last l := fun hd =>
    Snapshot.not_differs_of_against hname hc hk ((hsame kind hk).differs hd)
  refine (hsame kind hk).trans (Kind.same_of_not_differs (hno hk) ?_)
  rintro rfl hlt
  obtain ⟨other, -, hother, hd⟩ := hshrink hk hlt
  exact hno hother hd

/-- The watch is as steady after a step as before. -/
theorem Inv.advance {t : WatchTask} {k : Kernel} (h : Inv t) (hk : Named k) (hs : Shrinking t k) :
    Inv (t.advance k).1 := by
  obtain ⟨t₁, ho, ⟨r, -, heq⟩ | ⟨fd, s, hseen, heq⟩⟩ := t.advance_cases k
  · rw [heq]
    exact h.opened ho
  · have h₁ := h.opened ho
    have hnotes : t₁.notes = t.notes := by cases ho <;> rfl
    obtain ⟨e, hl⟩ | ⟨l, hnow, ⟨c, hc, hl⟩ | ⟨hc, hl⟩⟩ := t₁.look_cases fd s k.now
    · rw [heq, hl]
      exact h₁
    · rw [heq, hl]
      exact h₁.reported hseen
    · obtain ⟨before, last, hlast⟩ := h₁.exists_last hseen
      unfold Shrinking at hs
      rw [heq, hl] at hs ⊢
      have hsame := h₁.same s last hseen (by rw [hlast, List.getLast?_concat])
      refine h₁.passed hseen (same_of_against (hk l hnow) hsame hc ?_)
      intro hw hlt
      have hpair : t₁.looks ++ [l] = before ++ [last, l] := by simp [hlast]
      simp only [WatchTask.wants, hnotes] at hw ⊢
      exact hs hw before last l hpair hlt

theorem inv_of_reached {t : WatchTask} (h : Reached (fun t k => Named k ∧ Shrinking t k) t) :
    Inv t := by
  refine h.invariant ?_ ?_
  · rintro t ⟨path, wanted, appear, rfl⟩
    exact .new path wanted appear
  · intro t k t' ih hk hn
    cases hn
    exact ih.advance hk.1 hk.2

/-- An open takes one look at most, and there was none before it. -/
theorem Inv.length_le_of_opened {t t₁ : WatchTask} (h : Inv t) (ho : Opened t t₁) :
    t₁.looks.length ≤ t.looks.length ∨ t₁.looks.length ≤ 1 := by
  cases ho with
  | rest parent => exact .inl le_rfl
  | first fd s parent hn =>
    obtain ⟨hl, -⟩ := h.unopened hn
    exact .inr (by simp [hl])

/-- What is reported is found between the snapshot of the last report and this look. -/
theorem Inv.pair_sublist {t t₁ : WatchTask} {s l : Snapshot} (h : Inv t) (ho : Opened t t₁)
    (hs : t₁.seen = some s) : [s, l].Sublist ((t₁.looks ++ [l]).drop t.base) := by
  obtain ⟨before, after, hl, hb⟩ := (h.opened ho).kept s hs
  have hbase : t₁.base = t.base := by
    cases ho with
    | rest parent => rfl
    | first fd s parent hn =>
      obtain ⟨hl, hz⟩ := h.unopened hn
      simp [hl, hz]
  rw [hl, ← hbase, ← hb, List.append_assoc, List.drop_left]
  exact (List.Sublist.append (List.nil_sublist after) (List.Sublist.refl [l])).cons_cons s

/-- Two looks in a row, the second of them taken in this step, are not there without a look. -/
theorem Inv.not_pair_of_opened {t t₁ : WatchTask} (h : Inv t) (ho : Opened t t₁)
    {before : List Snapshot} {a b : Snapshot} (hl : t₁.looks = before ++ [a, b])
    (hlen : t.looks.length ≤ (before ++ [a]).length) : False := by
  have hle := h.length_le_of_opened ho
  rw [hl] at hle
  simp only [List.length_append, List.length_cons, List.length_nil] at hle hlen
  omega

/-- Nothing that is looked for passes unseen from one look to the next. -/
theorem Inv.reports {t : WatchTask} {k : Kernel} (h : Inv t) (hk : Named k)
    {before : List Snapshot} {a b : Snapshot} {kind : Kind}
    (hl : (t.advance k).1.looks = before ++ [a, b])
    (hlen : t.looks.length ≤ (before ++ [a]).length) (hw : t.wants kind)
    (hd : kind.Differs a b) :
    ∃ c, (t.advance k).2 = .ok (.done c) ∧ c.holds (.of kind) = true := by
  obtain ⟨t₁, ho, ⟨r, -, heq⟩ | ⟨fd, s, hseen, heq⟩⟩ := t.advance_cases k
  · rw [heq] at hl
    exact (h.not_pair_of_opened ho hl hlen).elim
  · have hnotes : t₁.notes = t.notes := by cases ho <;> rfl
    rw [heq] at hl ⊢
    -- the look before this one agrees with the last report, so the change is one since then
    have hfrom {l : Snapshot} (hlooks : t₁.looks ++ [l] = before ++ [a, b]) :
        b = l ∧ kind.Differs s l := by
      have hsplit : t₁.looks ++ [l] = (before ++ [a]) ++ [b] := by simp [hlooks]
      have hlast := List.append_inj_left' hsplit rfl
      cases List.append_inj_right' hsplit rfl
      have hsame := (h.opened ho).same s a hseen (by rw [hlast, List.getLast?_concat]) kind
        (by rwa [WatchTask.wants, hnotes])
      exact ⟨rfl, hsame.differs hd⟩
    obtain ⟨e, he⟩ | ⟨l, hnow, ⟨c, hc, he⟩ | ⟨hc, he⟩⟩ := t₁.look_cases fd s k.now
    · rw [he] at hl
      exact (h.not_pair_of_opened ho hl hlen).elim
    · rw [he] at hl ⊢
      obtain ⟨rfl, hds⟩ := hfrom hl
      rw [hnotes] at hc
      exact ⟨c, rfl, (Snapshot.holds_against (hk b hnow) hc kind).mpr ⟨hw, hds⟩⟩
    · rw [he] at hl
      obtain ⟨rfl, hds⟩ := hfrom hl
      rw [hnotes] at hc
      exact absurd hds (Snapshot.not_differs_of_against (hk b hnow) hc hw)

/-- Nothing is reported that has not moved since the last report. -/
theorem Inv.of_reports {t : WatchTask} {k : Kernel} (h : Inv t) (hk : Named k) {c : Change}
    {kind : Kind} (hr : (t.advance k).2 = .ok (.done c)) (hc : c.holds (.of kind) = true) :
    ∃ a b, [a, b].Sublist ((t.advance k).1.looks.drop t.base) ∧ kind.Differs a b := by
  obtain ⟨t₁, ho, ⟨r, hquiet, heq⟩ | ⟨fd, s, hseen, heq⟩⟩ := t.advance_cases k
  · rw [heq] at hr
    exact absurd (hquiet c hr kind) (by simp [hc])
  · rw [heq] at hr ⊢
    obtain ⟨e, he⟩ | ⟨l, hnow, ⟨c', hag, he⟩ | ⟨-, he⟩⟩ := t₁.look_cases fd s k.now
    · rw [he] at hr
      cases hr
    · rw [he] at hr ⊢
      cases hr
      have hd := ((Snapshot.holds_against (hk l hnow) hag kind).mp hc).2
      exact ⟨s, l, h.pair_sublist ho hseen, hd⟩
    · rw [he] at hr
      cases hr

/-- **A watch loses nothing.** Whatever run it has behind it, if two looks in a row differ by a
change of a kind that is looked for, the step that takes the second reports that kind; and a step
reports a kind only if two of the looks since the last report, its own included, differ by a change
of it. -/
theorem nothing_lost {t : WatchTask} {k : Kernel}
    (h : Reached (fun t k => Named k ∧ Shrinking t k) t) (hk : Named k) :
    (∀ before a b kind, (t.advance k).1.looks = before ++ [a, b] →
      t.looks.length ≤ (before ++ [a]).length → t.wants kind → kind.Differs a b →
      ∃ c, (t.advance k).2 = .ok (.done c) ∧ c.holds (.of kind) = true) ∧
    (∀ c kind, (t.advance k).2 = .ok (.done c) → c.holds (.of kind) = true →
      ∃ a b, [a, b].Sublist ((t.advance k).1.looks.drop t.base) ∧ kind.Differs a b) := by
  have hi := inv_of_reached h
  constructor
  · intro before a b kind hl hlen hw hd
    exact hi.reports hk hl hlen hw hd
  · intro c kind hr hc
    exact hi.of_reports hk hr hc

/-- A file of a length, with nothing else to tell it apart. -/
def ofSize (size : ℕ) : Snapshot := ⟨7, size, (1000, 0), 0o100644, (501, 20), 1, some 7⟩

/-- A kernel that opens the path at a length and is looked at with another. -/
def sized (first now : ℕ) : Kernel :=
  let visit : Visit := ⟨true, .ok 3, .ok (ofSize first)⟩
  ⟨visit, .ok 4, visit, visit, .ok (ofSize now)⟩

theorem named_sized (first now : ℕ) : Named (sized first now) := by
  intro l hl
  cases hl
  exact Nat.one_ne_zero

/-- A watch for growth that has opened its file. -/
def growing (first now : ℕ) : WatchTask :=
  ((WatchTask.new true (.of .extended) false).advance (sized first now)).1

/-- A file of ten bytes that grows to twelve and then to twenty. -/
theorem nothing_lost_growing :
    ∃ c, ((growing 10 12).advance (sized 10 20)).2 = .ok (.done c) ∧
      c.holds (.of .extended) = true := by
  have hshrink : Shrinking (.new true (.of .extended) false) (sized 10 12) := by
    intro _ before a b hl hlt
    have hpair : [ofSize 10, ofSize 12] = before ++ [a, b] := hl
    have hlen := congrArg List.length hpair
    cases before with
    | nil =>
      cases hpair
      exact absurd hlt (by decide)
    | cons x rest =>
      simp only [List.length_append, List.length_cons, List.length_nil] at hlen
      omega
  have hreach : Reached (fun t k => Named k ∧ Shrinking t k) (growing 10 12) :=
    .step (.init ⟨true, .of .extended, false, rfl⟩) ⟨named_sized 10 12, hshrink⟩ rfl
  exact (nothing_lost hreach (named_sized 10 20)).1 [ofSize 10] (ofSize 12) (ofSize 20) .extended
    (by decide +kernel) (by decide +kernel) (by decide +kernel) (by decide +kernel)

/-- A watch that looks for nothing but growth. The file has ten bytes when it is opened, five at the
next look and eight at the one after: between these two it has grown, and the watch parks. -/
theorem growth_lost :
    Reached (fun _ k => Named k) (growing 10 5) ∧ Named (sized 10 8) ∧
      ((growing 10 5).advance (sized 10 8)).1.looks = [ofSize 10] ++ [ofSize 5, ofSize 8] ∧
      (growing 10 5).looks = [ofSize 10, ofSize 5] ∧ (growing 10 5).wants .extended ∧
      Kind.extended.Differs (ofSize 5) (ofSize 8) ∧
      ∀ c, ((growing 10 5).advance (sized 10 8)).2 ≠ .ok (.done c) := by
  refine ⟨.step (.init ⟨true, .of .extended, false, rfl⟩) (named_sized 10 5) rfl, named_sized 10 8,
    by decide +kernel, by decide +kernel, by decide +kernel, by decide +kernel, ?_⟩
  intro c hc
  have hpark : ((growing 10 5).advance (sized 10 8)).2 =
      .ok (.park 3 (Change.of .extended).notes true) := rfl
  rw [hpark] at hc
  cases hc

end Atap.Watch
