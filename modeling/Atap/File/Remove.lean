import Atap.Common
import Mathlib.Data.List.Infix
import Mathlib.Data.List.MinMax
import Mathlib.Data.List.Nodup
import Mathlib.Logic.Function.Basic

/-!
# Removing a directory and all that is in it

`remove_dir_all` empties a directory with a stack of open directories, each with the names in it
that are still to go, read in full when it was opened. A name that is a directory is opened and put
on top; one that is not is unlinked. A directory whose names have run out is taken off the stack and
removed through the one below it, and the first of all by its path.

The file system is a finite tree that nobody else changes. A descriptor is where its directory is.
Symbolic links are followed where the kernel follows them, in every component of a path but the
last. What the kernel may refuse, and when the task is cancelled, is left open (`Choice`); a call
that is interrupted is made again, and counts as one.

* `Frames`: what the stack has to do with the tree. Every name in an open directory is one of those
  still to go, or that of the directory open above it.
* `Within`: what is left of the tree is as it was, and what is gone was in the part to remove.
* `walk_mono`: a path that still leads somewhere leads where it led before.
* `weight`: what every turn of the loop makes less.
-/

namespace Atap.Remove

open Function

/-! ### The file system -/

/-- A component of a path. -/
inductive Comp (N : Type*)
  | dot
  | dotdot
  | name (n : N)

/-- A path without a trailing slash. -/
structure CPath (N : Type*) where
  absolute : Bool
  comps : List (Comp N)

inductive Kind (N : Type*)
  | file
  | link (target : CPath N)
  | dir

/-- Where an entry is: its name, and the names of the directories it is in, from the inside out. -/
abbrev Path (N : Type*) := List N

/-- A finite tree of directories, files and links. -/
structure FileSystem (N : Type*) where
  kind : Path N → Option (Kind N)
  /-- All entries, in the order in which their directories list them. -/
  paths : List (Path N)
  nodup : paths.Nodup
  mem_paths : ∀ q, q ∈ paths ↔ q ≠ [] ∧ (kind q).isSome
  root : kind [] = some .dir
  closed : ∀ n q, (kind (n :: q)).isSome → kind q = some .dir

inductive Errno
  | enoent
  | enotdir
  | enotempty
  | eperm
  | einval
  | eloop
  | other (code : ℕ)
  deriving DecidableEq

/-- The number the code reads. -/
def Errno.code : Errno → ℤ
  | enoent => 2
  | enotdir => 20
  | enotempty => 66
  | eperm => 1
  | einval => 22
  | eloop => 62
  | other code => code

section FileSystem

variable {N : Type*} [DecidableEq N] (fs : FileSystem N)

/-- The name of an entry, if it is in the directory. -/
def nameIn (q : Path N) : Path N → Option N
  | [] => none
  | n :: r => if r = q then some n else none

theorem nameIn_eq_some {q r : Path N} {n : N} : nameIn q r = some n ↔ r = n :: q := by
  cases r with
  | nil => simp [nameIn]
  | cons m r => simp [nameIn, and_comm]

/-- The names in a directory, as `readdir` gives them. -/
def FileSystem.children (q : Path N) : List N := fs.paths.filterMap (nameIn q)

theorem FileSystem.mem_children {n : N} {q : Path N} :
    n ∈ fs.children q ↔ (fs.kind (n :: q)).isSome := by
  rw [FileSystem.children, List.mem_filterMap]
  constructor
  · rintro ⟨r, hmem, h⟩
    rw [nameIn_eq_some] at h
    exact ((fs.mem_paths _).mp (h ▸ hmem)).2
  · intro h
    exact ⟨n :: q, (fs.mem_paths _).mpr ⟨List.cons_ne_nil n q, h⟩, nameIn_eq_some.mpr rfl⟩

theorem FileSystem.nodup_children (q : Path N) : (fs.children q).Nodup := by
  refine List.Nodup.filterMap ?_ fs.nodup
  intro r r' n h h'
  rw [nameIn_eq_some.mp h, nameIn_eq_some.mp h']

theorem FileSystem.children_eq_nil {q : Path N} :
    fs.children q = [] ↔ ∀ n, fs.kind (n :: q) = none := by
  rw [List.eq_nil_iff_forall_not_mem]
  refine forall_congr' fun n => ?_
  rw [fs.mem_children, Option.not_isSome_iff_eq_none]

/-- The tree without an entry that has nothing in it. -/
def FileSystem.remove (q : Path N) (hne : q ≠ []) (hempty : fs.children q = []) :
    FileSystem N where
  kind := update fs.kind q none
  paths := fs.paths.filter (· ≠ q)
  nodup := fs.nodup.filter _
  mem_paths r := by
    rw [List.mem_filter, fs.mem_paths, decide_eq_true_iff]
    by_cases h : r = q
    · simp [h]
    · simp [h]
  root := by rw [update_of_ne hne.symm, fs.root]
  closed n r h := by
    by_cases hq : n :: r = q
    · rw [hq, update_self] at h
      cases h
    · rw [update_of_ne hq] at h
      rw [update_of_ne, fs.closed n r h]
      rintro rfl
      rw [fs.children_eq_nil.mp hempty n] at h
      cases h

/-! ### The system calls -/

def FileSystem.removeAt (q : Path N) : Except Errno (FileSystem N) :=
  if h : q ≠ [] ∧ fs.children q = [] then .ok (fs.remove q h.1 h.2) else .error .enotempty

/-- `unlinkat` without `AT_REMOVEDIR`. -/
def FileSystem.unlinkAt (q : Path N) : Except Errno (FileSystem N) :=
  match fs.kind q with
  | none => .error .enoent
  | some .dir => .error .eperm
  | some _ => fs.removeAt q

/-- `unlinkat` with `AT_REMOVEDIR`. -/
def FileSystem.rmdirAt (q : Path N) : Except Errno (FileSystem N) :=
  match fs.kind q with
  | none => .error .enoent
  | some .dir => fs.removeAt q
  | some _ => .error .enotdir

/-- Where the components of a path lead, all of them directories or links to such. -/
def FileSystem.walkWith (follow : Path N → CPath N → Except Errno (Path N)) :
    Path N → List (Comp N) → Except Errno (Path N)
  | d, [] => .ok d
  | d, .dot :: cs => FileSystem.walkWith follow d cs
  | d, .dotdot :: cs => FileSystem.walkWith follow d.tail cs
  | d, .name n :: cs =>
    match fs.kind (n :: d) with
    | none => .error .enoent
    | some .file => .error .enotdir
    | some .dir => FileSystem.walkWith follow (n :: d) cs
    | some (.link target) => (follow d target).bind fun d => FileSystem.walkWith follow d cs

/-- The directory a path leads to from another, with links in links up to a limit. -/
def FileSystem.walk : ℕ → Path N → CPath N → Except Errno (Path N)
  | 0, _, _ => .error .eloop
  | limit + 1, d, path =>
    match fs.kind (if path.absolute then [] else d) with
    | some .dir =>
      fs.walkWith (FileSystem.walk limit) (if path.absolute then [] else d) path.comps
    | _ => .error .enoent

/-- What a component leads to from a directory. -/
def Comp.under (d : Path N) : Comp N → Path N
  | dot => d
  | dotdot => d.tail
  | name n => n :: d

/-- The entry a path names: its last component is not followed. -/
def FileSystem.named (limit : ℕ) (cwd : Path N) (path : CPath N) : Except Errno (Path N) :=
  match path.comps.reverse with
  | [] => if path.absolute then .ok [] else .error .enoent
  | last :: dirs => (fs.walk limit cwd ⟨path.absolute, dirs.reverse⟩).map last.under

def FileSystem.lstat (limit : ℕ) (cwd : Path N) (path : CPath N) : Except Errno (Kind N) :=
  (fs.named limit cwd path).bind fun q => (fs.kind q).elim (.error .enoent) .ok

/-- `open_dir`, which follows no link in the last component. -/
def FileSystem.openDir (limit : ℕ) (cwd : Path N) (path : CPath N) : Except Errno (Path N) :=
  (fs.named limit cwd path).bind fun q =>
    match fs.kind q with
    | some .dir => .ok q
    | some _ => .error .enotdir
    | none => .error .enoent

def FileSystem.unlink (limit : ℕ) (cwd : Path N) (path : CPath N) :
    Except Errno (FileSystem N) :=
  (fs.named limit cwd path).bind fs.unlinkAt

/-- `rmdir` takes no path that ends in `.` or `..`. -/
def FileSystem.rmdir (limit : ℕ) (cwd : Path N) (path : CPath N) : Except Errno (FileSystem N) :=
  match path.comps.reverse with
  | .name _ :: _ => (fs.named limit cwd path).bind fs.rmdirAt
  | _ => .error .einval

end FileSystem

/-! ### `remove_dir_all` -/

/-- What happens at a turn of the loop, or before or after it. -/
inductive Choice
  /-- The calls do what they do. -/
  | go
  /-- One of them fails. -/
  | fail (e : Errno)
  /-- The task is found cancelled, where the code looks. -/
  | cancel
  deriving DecidableEq

/-- The result of a call. -/
def call {α : Type*} (c : Choice) (r : Except Errno α) : Except RuntimeError α :=
  match c with
  | .fail e => .error (.checkError e.code)
  | _ => r.mapError (.checkError ·.code)

/-- A directory being emptied, and the entries in it still to go, the next one first. -/
structure Emptying (N : Type*) where
  fd : Path N
  /-- Its name in the directory above it; the first one has none. -/
  name : Option N
  left : List N

section Loop

variable {N : Type*} [DecidableEq N]

/-- `open_dir` and `entries`. -/
def FileSystem.opened (fs : FileSystem N) (fd : Path N) (name : Option N) : Emptying N :=
  ⟨fd, name, (fs.children fd).reverse⟩

/-- One turn of the loop. -/
def iterate (fs : FileSystem N) (c : Choice) :
    List (Emptying N) → Except RuntimeError (FileSystem N × List (Emptying N))
  | [] => .ok (fs, [])
  | top :: below =>
    if c = .cancel then .error .cancelled
    else
      match top.left with
      | [] =>
        match below with
        | [] => .ok (fs, [])
        | parent :: _ =>
          (call c (fs.rmdirAt (top.name.toList ++ parent.fd))).map (·, below)
      | name :: left =>
        match fs.kind (name :: top.fd) with
        | none => .error (.checkError Errno.enoent.code)
        | some .dir =>
          (call c (.ok (fs.opened (name :: top.fd) (some name)))).map fun e =>
            (fs, e :: { top with left := left } :: below)
        | some _ =>
          (call c (fs.unlinkAt (name :: top.fd))).map (·, { top with left := left } :: below)

/-- The loop, with a choice for each turn, and those that are left after it. -/
def run : List Choice → FileSystem N → List (Emptying N) →
    Option (FileSystem N × Except RuntimeError (List Choice))
  | cs, fs, [] => some (fs, .ok cs)
  | [], _, _ :: _ => none
  | c :: cs, fs, top :: below =>
    match iterate fs c (top :: below) with
    | .error e => some (fs, .error e)
    | .ok (fs', stack) => run cs fs' stack

/-- What a last call leaves. -/
def finish (fs : FileSystem N) (r : Except RuntimeError (FileSystem N)) :
    FileSystem N × Except RuntimeError Unit :=
  match r with
  | .error e => (fs, .error e)
  | .ok fs' => (fs', .ok ())

/-- `remove_dir_all`, and nothing when the choices run out before it returns. -/
def removeDirAll (limit : ℕ) (cwd : Path N) (path : CPath N) (fs : FileSystem N) :
    List Choice → Option (FileSystem N × Except RuntimeError Unit)
  | [] => none
  | c :: cs =>
    match call c (fs.lstat limit cwd path) with
    | .error e => some (fs, .error e)
    | .ok .dir =>
      match call c (fs.openDir limit cwd path) with
      | .error e => some (fs, .error e)
      | .ok fd =>
        match run cs fs [fs.opened fd none] with
        | none => none
        | some (fs', .error e) => some (fs', .error e)
        | some (_, .ok []) => none
        | some (fs', .ok (c :: _)) => some (finish fs' (call c (fs'.rmdir limit cwd path)))
    | .ok _ => some (finish fs (call c (fs.unlink limit cwd path)))

end Loop

section Spec

variable {N : Type*} {fs₀ fs fs' : FileSystem N} {p q : Path N} {c : Choice}
  {top : Emptying N} {below stack : List (Emptying N)} {above : Option N}
  {limit : ℕ} {cwd : Path N} {path : CPath N}

/-! ### What a call says -/

theorem call_eq_ok {α : Type*} {r : Except Errno α} {a : α} (h : call c r = .ok a) : r = .ok a := by
  cases c with
  | fail e => cases h
  | _ =>
    cases r with
    | error e => cases h
    | ok b =>
      cases h
      rfl

theorem map_call_eq_ok {α β : Type*} {r : Except Errno α} {f : α → β} {b : β}
    (h : (call c r).map f = .ok b) : ∃ a, r = .ok a ∧ f a = b := by
  cases hc : call c r with
  | error e => rw [hc] at h; cases h
  | ok a =>
    rw [hc] at h
    cases h
    exact ⟨a, call_eq_ok hc, rfl⟩

theorem bind_eq_ok {α β ε : Type*} {r : Except ε α} {f : α → Except ε β} {b : β}
    (h : r.bind f = .ok b) : ∃ a, r = .ok a ∧ f a = .ok b := by
  cases r with
  | error e => cases h
  | ok a => exact ⟨a, rfl, h⟩

theorem openDir_eq_ok (h : fs.openDir limit cwd path = .ok p) :
    fs.named limit cwd path = .ok p ∧ fs.kind p = some .dir := by
  obtain ⟨q, hq, h⟩ := bind_eq_ok h
  split at h
  case h_1 hk =>
    cases h
    exact ⟨hq, hk⟩
  case h_2 | h_3 => cases h

theorem exists_depth (fs : FileSystem N) :
    ∃ depth, ∀ r, (fs.kind r).isSome → r.length ≤ depth := by
  refine ⟨(fs.paths.map List.length).foldr max 0, fun r hr => ?_⟩
  by_cases hne : r = []
  · rw [hne]
    exact Nat.zero_le _
  · have hmem := (fs.mem_paths r).mpr ⟨hne, hr⟩
    exact List.le_max_of_le' 0 (List.mem_map_of_mem hmem) le_rfl

/-- What is left is as it was, and what is gone was in the part to remove. -/
def Within (p : Path N) (fs₀ fs : FileSystem N) : Prop :=
  ∀ r, fs.kind r = fs₀.kind r ∨ fs.kind r = none ∧ p <:+ r

theorem Within.kind (h : Within p fs₀ fs) {r : Path N} {k : Kind N} (hk : fs.kind r = some k) :
    fs₀.kind r = some k := by
  rcases h r with heq | ⟨hnone, -⟩
  · rw [← heq, hk]
  · rw [hnone] at hk
    cases hk

/-- Nothing is below an entry with nothing in it. -/
theorem kind_of_below (h : ∀ n, fs.kind (n :: p) = none) {r : Path N} (hr : p <:+ r) (hne : r ≠ p) :
    fs.kind r = none := by
  obtain ⟨l, rfl⟩ := hr
  induction l with
  | nil => exact absurd rfl hne
  | cons n l ih =>
    by_cases hl : l = []
    · rw [hl]
      exact h n
    · have hnone := ih (by simpa using hl)
      by_contra hsome
      rw [List.cons_append, ← ne_eq, Option.ne_none_iff_isSome] at hsome
      rw [fs.closed n _ hsome] at hnone
      cases hnone

/-! ### Where a path leads -/

theorem walkWith_mono {f f' : Path N → CPath N → Except Errno (Path N)}
    (hk : ∀ r k, fs.kind r = some k → fs₀.kind r = some k)
    (hf : ∀ d path e, f d path = .ok e → f' d path = .ok e) {cs : List (Comp N)} {d e : Path N}
    (h : fs.walkWith f d cs = .ok e) : fs₀.walkWith f' d cs = .ok e := by
  induction cs generalizing d with
  | nil => exact h
  | cons c cs ih =>
    cases c with
    | dot => exact ih h
    | dotdot => exact ih h
    | name n =>
      simp only [FileSystem.walkWith] at h ⊢
      split at h
      case h_1 | h_2 => cases h
      case h_3 hdir =>
        rw [hk _ _ hdir]
        exact ih h
      case h_4 target hlink =>
        rw [hk _ _ hlink]
        obtain ⟨d', hd, h⟩ := bind_eq_ok h
        show (f' d target).bind _ = _
        rw [hf _ _ _ hd]
        exact ih h

/-- **A path that still leads somewhere leads where it led before.** -/
theorem walk_mono (hk : ∀ r k, fs.kind r = some k → fs₀.kind r = some k) {limit : ℕ}
    {d e : Path N} {path : CPath N} (h : fs.walk limit d path = .ok e) :
    fs₀.walk limit d path = .ok e := by
  induction limit generalizing d path e with
  | zero => cases h
  | succ limit ih =>
    unfold FileSystem.walk at h ⊢
    split at h
    case h_1 hdir =>
      rw [hk _ _ hdir]
      exact walkWith_mono hk (fun d path e => ih) h
    case h_2 => cases h

theorem named_mono (hk : ∀ r k, fs.kind r = some k → fs₀.kind r = some k) {limit : ℕ}
    {cwd : Path N} {path : CPath N} (h : fs.named limit cwd path = .ok q) :
    fs₀.named limit cwd path = .ok q := by
  unfold FileSystem.named at h ⊢
  split at h
  case h_1 => exact h
  case h_2 last dirs _ =>
    cases hw : fs.walk limit cwd ⟨path.absolute, dirs.reverse⟩ with
    | error e => rw [hw] at h; cases h
    | ok d =>
      rw [hw] at h
      rw [walk_mono hk hw]
      exact h

/-! ### The stack and the tree -/

/-- The names in an open directory are those still to go and that of the directory open above
it. -/
structure Open (fs : FileSystem N) (f : Emptying N) (above : Option N) : Prop where
  dir : fs.kind f.fd = some .dir
  nodup : f.left.Nodup
  names : ∀ n, (fs.kind (n :: f.fd)).isSome ↔ n ∈ f.left ∨ above = some n
  fresh : ∀ n ∈ f.left, above ≠ some n

/-- The open directories, from the last one opened down to the one to remove. -/
inductive Frames (fs : FileSystem N) (p : Path N) : Option N → List (Emptying N) → Prop
  | root {above : Option N} {f : Emptying N} (h : Open fs f above) (hp : f.fd = p) :
      Frames fs p above [f]
  | cons {above : Option N} {f g : Emptying N} {n : N} {rest : List (Emptying N)}
      (h : Open fs f above) (hname : f.name = some n) (hfd : f.fd = n :: g.fd)
      (hr : Frames fs p (some n) (g :: rest)) : Frames fs p above (f :: g :: rest)

theorem Frames.head (h : Frames fs p above (top :: below)) : Open fs top above := by
  cases h with
  | root h _ => exact h
  | cons h _ _ _ => exact h

/-- A change to the names of the topmost directory. -/
theorem Frames.set {left : List N} {above' : Option N} (h : Frames fs p above (top :: below))
    (ho : Open fs { top with left := left } above') :
    Frames fs p above' ({ top with left := left } :: below) := by
  cases h with
  | root _ hp => exact .root ho hp
  | cons _ hname hfd hr => exact .cons ho hname hfd hr

theorem Frames.suffix (h : Frames fs p above stack) (hs : stack = top :: below) :
    p <:+ top.fd ∧ top.fd.length + 1 = p.length + stack.length := by
  induction h generalizing top below with
  | root _ hp =>
    cases hs
    exact ⟨hp ▸ List.suffix_rfl, by rw [hp]; rfl⟩
  | cons _ _ hfd _ ih =>
    cases hs
    obtain ⟨hsuff, hlen⟩ := ih rfl
    rw [hfd]
    refine ⟨hsuff.trans (List.suffix_cons ..), ?_⟩
    simp only [List.length_cons] at hlen ⊢
    omega

/-! ### What a call leaves -/

variable [DecidableEq N]

/-- One entry is gone, and nothing else. -/
structure Gone (fs : FileSystem N) (q : Path N) (fs' : FileSystem N) : Prop where
  was : (fs.kind q).isSome
  empty : ∀ n, fs.kind (n :: q) = none
  kind : fs'.kind = update fs.kind q none
  paths : fs'.paths.length < fs.paths.length

theorem gone_of_removeAt (hk : (fs.kind q).isSome) (h : fs.removeAt q = .ok fs') :
    Gone fs q fs' := by
  unfold FileSystem.removeAt at h
  split at h
  case isTrue hq =>
    cases h
    refine ⟨hk, fs.children_eq_nil.mp hq.2, rfl, ?_⟩
    refine List.length_filter_lt_length_iff_exists.mpr ⟨q, ?_, by simp⟩
    exact (fs.mem_paths q).mpr ⟨hq.1, hk⟩
  case isFalse => cases h

theorem gone_of_unlinkAt (h : fs.unlinkAt q = .ok fs') : Gone fs q fs' := by
  unfold FileSystem.unlinkAt at h
  split at h
  case h_1 | h_2 => cases h
  case h_3 k _ hk => exact gone_of_removeAt (hk ▸ rfl) h

theorem gone_of_rmdirAt (h : fs.rmdirAt q = .ok fs') : Gone fs q fs' := by
  unfold FileSystem.rmdirAt at h
  split at h
  case h_1 | h_3 => cases h
  case h_2 hk => exact gone_of_removeAt (hk ▸ rfl) h

theorem Within.gone (h : Within p fs₀ fs) (hg : Gone fs q fs') (hp : p <:+ q) :
    Within p fs₀ fs' := by
  intro r
  rw [hg.kind]
  by_cases hr : r = q
  · rw [hr, update_self]
    exact .inr ⟨rfl, hp⟩
  · rw [update_of_ne hr]
    exact h r

/-- What is removed further up is no matter to a directory. -/
theorem Open.gone {f : Emptying N} (h : Open fs f above) (hg : Gone fs q fs')
    (hq : f.fd.length + 1 < q.length) : Open fs' f above := by
  have hne : ∀ r : Path N, r.length < q.length → fs'.kind r = fs.kind r := by
    intro r hr
    rw [hg.kind, update_of_ne]
    rintro rfl
    exact lt_irrefl _ hr
  refine ⟨?_, h.nodup, ?_, h.fresh⟩
  · rw [hne _ (by omega)]
    exact h.dir
  · intro n
    rw [hne (n :: f.fd) hq]
    exact h.names n

theorem Frames.gone (h : Frames fs p above stack) (hs : stack = top :: below) (hg : Gone fs q fs')
    (hq : top.fd.length + 1 < q.length) : Frames fs' p above stack := by
  induction h generalizing top below with
  | root h hp =>
    cases hs
    exact .root (h.gone hg hq) hp
  | cons h hname hfd _ ih =>
    cases hs
    refine .cons (h.gone hg hq) hname hfd (ih rfl ?_)
    rw [hfd, List.length_cons] at hq
    omega

theorem open_opened (fs : FileSystem N) {fd : Path N} (name : Option N)
    (h : fs.kind fd = some .dir) : Open fs (fs.opened fd name) none := by
  refine ⟨h, List.nodup_reverse.mpr (fs.nodup_children fd), ?_, fun _ _ => nofun⟩
  intro n
  show (fs.kind (n :: fd)).isSome ↔ n ∈ (fs.children fd).reverse ∨ _
  rw [List.mem_reverse, fs.mem_children]
  simp

/-- What is open of the topmost directory after an entry of it is gone. -/
theorem Frames.gone_head {n : N} {g g' : Emptying N} {rest : List (Emptying N)} {o : Option N}
    (h : Frames fs p o (g :: rest)) (hg : Gone fs (n :: g.fd) fs') (hopen : Open fs' g' none)
    (hfd : g'.fd = g.fd) (hname : g'.name = g.name) : Frames fs' p none (g' :: rest) := by
  cases h with
  | root _ hp => exact .root hopen (hfd.trans hp)
  | cons _ hn hf hr =>
    refine .cons hopen (hname.trans hn) (hfd.trans hf) (hr.gone rfl hg ?_)
    rw [List.length_cons, hf, List.length_cons]
    omega

/-- The directory an entry of which is gone keeps its other names. -/
theorem Open.less {n : N} {g : Emptying N} {left : List N} (h : Open fs g above)
    (hg : Gone fs (n :: g.fd) fs') (hnodup : left.Nodup)
    (hleft : ∀ m, m ∈ left ↔ m ≠ n ∧ (m ∈ g.left ∨ above = some m)) :
    Open fs' { g with left := left } none := by
  refine ⟨?_, hnodup, fun m => ?_, fun _ _ => nofun⟩
  · rw [hg.kind, update_of_ne (List.cons_ne_self n g.fd).symm]
    exact h.dir
  · rw [hg.kind]
    by_cases hm : m = n
    · simp [hm, hleft]
    · rw [update_of_ne (by simpa using hm), h.names m]
      simp [hm, hleft]

/-- A directory is left when the one above it is gone. -/
theorem Frames.pop {n : N} {g : Emptying N} {rest : List (Emptying N)}
    (h : Frames fs p (some n) (g :: rest)) (hg : Gone fs (n :: g.fd) fs') :
    Frames fs' p none (g :: rest) := by
  refine h.gone_head hg (h.head.less hg h.head.nodup fun m => ?_) rfl rfl
  have hne : m ∈ g.left → m ≠ n := fun hm he => h.head.fresh m hm (congrArg some he.symm)
  grind

/-- An entry of the topmost directory is gone. -/
theorem Frames.unlink {name : N} {left : List N} (h : Frames fs p none (top :: below))
    (hleft : top.left = name :: left) (hg : Gone fs (name :: top.fd) fs') :
    Frames fs' p none ({ top with left := left } :: below) := by
  obtain ⟨hnew, hnodup⟩ := List.nodup_cons.mp (hleft ▸ h.head.nodup)
  refine h.gone_head hg (h.head.less hg hnodup fun m => ?_) rfl rfl
  rw [hleft]
  grind

/-- A directory in the topmost one is opened. -/
theorem Frames.push {name : N} {left : List N} (h : Frames fs p none (top :: below))
    (hleft : top.left = name :: left) (hdir : fs.kind (name :: top.fd) = some .dir) :
    Frames fs p none
      (fs.opened (name :: top.fd) (some name) :: { top with left := left } :: below) := by
  have ho := h.head
  obtain ⟨hnew, hnodup⟩ := List.nodup_cons.mp (hleft ▸ ho.nodup)
  refine .cons (open_opened fs _ hdir) rfl rfl (h.set ⟨ho.dir, hnodup, ?_, ?_⟩)
  · intro m
    rw [ho.names m, hleft]
    simp [or_comm, eq_comm]
  · rintro m hm ⟨⟩
    exact hnew hm

/-- What holds at every turn of the loop. -/
structure Inv (fs₀ : FileSystem N) (p : Path N) (fs : FileSystem N) (stack : List (Emptying N)) :
    Prop where
  within : Within p fs₀ fs
  dir : fs.kind p = some .dir
  frames : stack ≠ [] → Frames fs p none stack
  empty : stack = [] → ∀ n, fs.kind (n :: p) = none

/-- What every turn of the loop makes less, in a tree no deeper than `depth`. -/
def weight (depth : ℕ) (fs : FileSystem N) (stack : List (Emptying N)) : ℕ :=
  fs.paths.length * (depth + 2) + if stack = [] then 0 else depth + 2 - stack.length

theorem weight_lt_of_gone {depth : ℕ} {stack' : List (Emptying N)} (hg : Gone fs q fs') :
    weight depth fs' stack' < weight depth fs stack := by
  have hextra : (if stack' = [] then 0 else depth + 2 - stack'.length) < depth + 2 := by
    split
    case isTrue => omega
    case isFalse h =>
      have := List.length_pos_iff.mpr h
      omega
  calc weight depth fs' stack'
      < fs'.paths.length * (depth + 2) + (depth + 2) := Nat.add_lt_add_left hextra _
    _ = (fs'.paths.length + 1) * (depth + 2) := (Nat.succ_mul ..).symm
    _ ≤ fs.paths.length * (depth + 2) := Nat.mul_le_mul_right _ hg.paths
    _ ≤ weight depth fs stack := Nat.le_add_right ..

/-- An entry below the directory to remove is gone. -/
theorem Inv.gone {stack' : List (Emptying N)} (hi : Inv fs₀ p fs stack) (hg : Gone fs q fs')
    (hp : p <:+ q) (hlen : p.length < q.length) (hframes : Frames fs' p none stack')
    (hne : stack' ≠ []) : Inv fs₀ p fs' stack' := by
  refine ⟨hi.within.gone hg hp, ?_, fun _ => hframes, fun h => absurd h hne⟩
  rw [hg.kind, update_of_ne, hi.dir]
  rintro rfl
  exact lt_irrefl _ hlen

/-- **One turn of the loop.** -/
theorem Inv.of_iterate {depth : ℕ} (hi : Inv fs₀ p fs (top :: below))
    (hdepth : ∀ r, (fs₀.kind r).isSome → r.length ≤ depth)
    (h : iterate fs c (top :: below) = .ok (fs', stack)) :
    Inv fs₀ p fs' stack ∧ weight depth fs' stack < weight depth fs (top :: below) := by
  have hf := hi.frames (List.cons_ne_nil _ _)
  obtain ⟨hsuff, hlen⟩ := hf.suffix rfl
  have hshort : (top :: below).length ≤ depth + 1 := by
    have := hdepth top.fd (hi.within.kind hf.head.dir ▸ rfl)
    omega
  have hple := hsuff.length_le
  simp only [Remove.iterate] at h
  split at h
  case isTrue => cases h
  case isFalse =>
    split at h
    case h_1 hleft =>
      cases below with
      | nil =>
        cases h
        cases hf with
        | root ho hp =>
          refine ⟨⟨hi.within, hi.dir, fun hne => absurd rfl hne, fun _ n => ?_⟩, ?_⟩
          · have hnames := ho.names n
            rw [hleft, hp] at hnames
            simpa using hnames
          · simp [weight]
      | cons g rest =>
        obtain ⟨fs₁, hcall, heq⟩ := map_call_eq_ok h
        cases heq
        cases hf with
        | cons ho hname hfd hr =>
          rw [hname] at hcall
          have hg : Gone fs top.fd fs' := hfd ▸ gone_of_rmdirAt hcall
          have hbelow := (hr.suffix rfl).1.length_le
          rw [hfd, List.length_cons] at hlen
          refine ⟨hi.gone hg hsuff ?_ (hr.pop (hfd ▸ hg)) nofun, weight_lt_of_gone hg⟩
          rw [hfd, List.length_cons]
          omega
    case h_2 name left hleft =>
      split at h
      case h_1 => cases h
      case h_2 hdir =>
        obtain ⟨e, he, heq⟩ := map_call_eq_ok h
        cases he
        cases heq
        refine ⟨⟨hi.within, hi.dir, fun _ => hf.push hleft hdir, nofun⟩, ?_⟩
        simp only [weight, List.cons_ne_nil, if_false, List.length_cons] at hshort ⊢
        omega
      case h_3 =>
        obtain ⟨fs₁, hcall, heq⟩ := map_call_eq_ok h
        cases heq
        have hg := gone_of_unlinkAt hcall
        refine ⟨hi.gone hg (hsuff.trans (List.suffix_cons ..)) ?_ (hf.unlink hleft hg) nofun,
          weight_lt_of_gone hg⟩
        rw [List.length_cons]
        omega

/-- What has nothing in it can be removed. -/
theorem exists_removeAt (hne : q ≠ []) (h : ∀ n, fs.kind (n :: q) = none) :
    ∃ fs', fs.removeAt q = .ok fs' :=
  ⟨_, dif_pos ⟨hne, fs.children_eq_nil.mpr h⟩⟩

theorem exists_rmdirAt (hne : q ≠ []) (hdir : fs.kind q = some .dir)
    (h : ∀ n, fs.kind (n :: q) = none) : ∃ fs', fs.rmdirAt q = .ok fs' := by
  unfold FileSystem.rmdirAt
  rw [hdir]
  exact exists_removeAt hne h

theorem exists_unlinkAt {k : Kind N} (hne : q ≠ []) (hk : fs.kind q = some k) (hdir : k ≠ .dir) :
    ∃ fs', fs.unlinkAt q = .ok fs' := by
  have hempty : ∀ n, fs.kind (n :: q) = none := by
    intro n
    by_contra hsome
    have := fs.closed n q (Option.isSome_iff_ne_none.mpr hsome)
    exact hdir (Option.some.inj (hk.symm.trans this))
  unfold FileSystem.unlinkAt
  rw [hk]
  cases k with
  | dir => exact absurd rfl hdir
  | _ => exact exists_removeAt hne hempty

/-- A turn at which nothing is refused goes through. -/
theorem Inv.exists_iterate (hi : Inv fs₀ p fs (top :: below)) :
    ∃ r, iterate fs .go (top :: below) = .ok r := by
  have hf := hi.frames (List.cons_ne_nil _ _)
  have ho := hf.head
  cases hleft : top.left with
  | nil =>
    cases hf with
    | root => exact ⟨_, by simp only [iterate, hleft]; rfl⟩
    | cons _ hname hfd _ =>
      have hempty : ∀ n, fs.kind (n :: top.fd) = none := by simpa [hleft] using ho.names
      obtain ⟨fs', h⟩ := exists_rmdirAt (by simp [hfd]) ho.dir hempty
      rw [hfd] at h
      exact ⟨_, by simp [iterate, hleft, hname, h, call, Except.mapError, Except.map]; rfl⟩
  | cons name left =>
    obtain ⟨k, hk⟩ := Option.isSome_iff_exists.mp
      ((ho.names name).mpr (.inl (hleft ▸ List.mem_cons_self ..)))
    by_cases hdir : k = .dir
    · exact ⟨_, by simp [iterate, hleft, hk, hdir, call, Except.mapError, Except.map]; rfl⟩
    · obtain ⟨fs', h⟩ := exists_unlinkAt (List.cons_ne_nil _ _) hk hdir
      exact ⟨(fs', { top with left := left } :: below), by
        simp [iterate, hleft, hk, h, call, Except.mapError, Except.map]⟩

/-! ### The whole of it -/

/-- What the loop leaves, whichever way it ends; it goes through where nothing is refused. -/
theorem Inv.of_run {cs : List Choice} {res : Except RuntimeError (List Choice)} {depth : ℕ}
    (hi : Inv fs₀ p fs stack) (hdepth : ∀ r, (fs₀.kind r).isSome → r.length ≤ depth)
    (h : run cs fs stack = some (fs', res)) :
    Within p fs₀ fs' ∧ (res.isOk → fs'.kind p = some .dir ∧ ∀ n, fs'.kind (n :: p) = none) ∧
      ((∀ c ∈ cs, c = .go) → ∃ rest, res = .ok rest ∧ ∀ c ∈ rest, c = .go) := by
  induction cs generalizing fs stack with
  | nil =>
    cases stack with
    | nil =>
      cases h
      exact ⟨hi.within, fun _ => ⟨hi.dir, hi.empty rfl⟩, fun hgo => ⟨_, rfl, hgo⟩⟩
    | cons top below => cases h
  | cons c cs ih =>
    cases stack with
    | nil =>
      cases h
      exact ⟨hi.within, fun _ => ⟨hi.dir, hi.empty rfl⟩, fun hgo => ⟨_, rfl, hgo⟩⟩
    | cons top below =>
      simp only [Remove.run] at h
      split at h
      case h_1 hstep =>
        cases h
        refine ⟨hi.within, nofun, fun hgo => ?_⟩
        obtain ⟨r, hr⟩ := hi.exists_iterate
        rw [hgo c (List.mem_cons_self ..), hr] at hstep
        cases hstep
      case h_2 hstep =>
        obtain ⟨hw, hok, hall⟩ := ih (hi.of_iterate hdepth hstep).1 h
        exact ⟨hw, hok, fun hgo => hall fun c hc => hgo c (List.mem_cons_of_mem _ hc)⟩

/-- The loop ends before as many turns as it weighs, and leaves the choices it had no use for. -/
theorem Inv.exists_run {cs : List Choice} {depth : ℕ} (hi : Inv fs₀ p fs stack)
    (hdepth : ∀ r, (fs₀.kind r).isSome → r.length ≤ depth)
    (hcs : weight depth fs stack ≤ cs.length) :
    ∃ fs' res, run cs fs stack = some (fs', res) ∧
      ∀ rest, res = .ok rest → cs.length ≤ rest.length + weight depth fs stack := by
  induction cs generalizing fs stack with
  | nil =>
    cases stack with
    | nil => exact ⟨fs, _, rfl, by rintro _ ⟨⟩; exact Nat.le_add_right ..⟩
    | cons top below =>
      have hf := hi.frames (List.cons_ne_nil _ _)
      have hlen := (hf.suffix rfl).2
      have := hdepth top.fd (hi.within.kind hf.head.dir ▸ rfl)
      simp only [weight, List.cons_ne_nil, if_false, List.length_nil] at hcs
      omega
  | cons c cs ih =>
    cases stack with
    | nil => exact ⟨fs, _, rfl, by rintro _ ⟨⟩; exact Nat.le_add_right ..⟩
    | cons top below =>
      cases hstep : iterate fs c (top :: below) with
      | error e => exact ⟨fs, .error e, by simp only [Remove.run, hstep], nofun⟩
      | ok r =>
        obtain ⟨fs₁, stack₁⟩ := r
        obtain ⟨hi₁, hlt⟩ := hi.of_iterate hdepth hstep
        rw [List.length_cons] at hcs ⊢
        obtain ⟨fs', res, hrun, hrest⟩ := ih hi₁ (by omega)
        refine ⟨fs', res, by simpa only [Remove.run, hstep] using hrun, ?_⟩
        intro rest hres
        have := hrest rest hres
        omega

/-- The directory to remove is opened. -/
theorem inv_opened (h : fs.kind p = some .dir) : Inv fs p fs [fs.opened p none] :=
  ⟨fun _ => .inl rfl, h, fun _ => .root (open_opened fs none h) rfl, nofun⟩

/-- The last entry of the part to remove is gone. -/
theorem Within.exact {fs₁ : FileSystem N} (hw : Within p fs fs₁) (hg : Gone fs₁ p fs')
    (r : Path N) : (p <:+ r → fs'.kind r = none) ∧ (¬ p <:+ r → fs'.kind r = fs.kind r) := by
  rw [hg.kind]
  by_cases hr : r = p
  · rw [hr, update_self]
    exact ⟨fun _ => rfl, fun h => absurd List.suffix_rfl h⟩
  · rw [update_of_ne hr]
    refine ⟨fun h => kind_of_below hg.empty h hr, fun h => ?_⟩
    exact (hw r).resolve_right fun hnone => h hnone.2

theorem unlink_eq_ok (h : fs.unlink limit cwd path = .ok fs') :
    ∃ p, fs.named limit cwd path = .ok p ∧ Gone fs p fs' := by
  obtain ⟨q, hq, h⟩ := bind_eq_ok h
  exact ⟨q, hq, gone_of_unlinkAt h⟩

theorem rmdir_eq_ok (h : fs.rmdir limit cwd path = .ok fs') :
    ∃ p, fs.named limit cwd path = .ok p ∧ Gone fs p fs' := by
  unfold FileSystem.rmdir at h
  split at h
  case h_1 =>
    obtain ⟨q, hq, h⟩ := bind_eq_ok h
    exact ⟨q, hq, gone_of_rmdirAt h⟩
  case h_2 => cases h

/-- How `remove_dir_all` ends: with nothing gone but in the part to remove, or with exactly that
part gone. -/
inductive Ended (limit : ℕ) (cwd : Path N) (path : CPath N) (fs fs' : FileSystem N) :
    Except RuntimeError Unit → Prop
  | unchanged (e : RuntimeError) (h : fs' = fs) : Ended limit cwd path fs fs' (.error e)
  | part (e : RuntimeError) (p : Path N) (hp : fs.named limit cwd path = .ok p)
      (h : Within p fs fs') : Ended limit cwd path fs fs' (.error e)
  | whole (p : Path N) (fs₁ : FileSystem N) (hp : fs.named limit cwd path = .ok p)
      (hw : Within p fs fs₁) (hg : Gone fs₁ p fs') : Ended limit cwd path fs fs' (.ok ())

theorem ended_of_removeDirAll {cs : List Choice} {res : Except RuntimeError Unit}
    (h : removeDirAll limit cwd path fs cs = some (fs', res)) :
    Ended limit cwd path fs fs' res := by
  cases cs with
  | nil => cases h
  | cons c cs =>
    simp only [removeDirAll] at h
    split at h
    case h_1 e _ =>
      cases h
      exact .unchanged e rfl
    case h_2 =>
      split at h
      case h_1 e _ =>
        cases h
        exact .unchanged e rfl
      case h_2 p hopen =>
        obtain ⟨hp, hdir⟩ := openDir_eq_ok (call_eq_ok hopen)
        obtain ⟨depth, hdepth⟩ := exists_depth fs
        split at h
        case h_1 => cases h
        case h_2 e hrun =>
          cases h
          exact .part e p hp ((inv_opened hdir).of_run hdepth hrun).1
        case h_3 => cases h
        case h_4 fs₁ c' _ hrun =>
          obtain ⟨hw, -⟩ := (inv_opened hdir).of_run hdepth hrun
          cases hcall : call c' (fs₁.rmdir limit cwd path) with
          | error e =>
            rw [hcall] at h
            cases h
            exact .part e p hp hw
          | ok fs₂ =>
            rw [hcall] at h
            cases h
            -- the path leads where it led when the directory was opened
            obtain ⟨q, hq, hg⟩ := rmdir_eq_ok (call_eq_ok hcall)
            have hsame := named_mono (fun _ _ => hw.kind) hq
            rw [hp] at hsame
            cases hsame
            exact .whole p fs₁ hp hw hg
    case h_3 =>
      cases hcall : call c (fs.unlink limit cwd path) with
      | error e =>
        rw [hcall] at h
        cases h
        exact .unchanged e rfl
      | ok fs₁ =>
        rw [hcall] at h
        cases h
        obtain ⟨q, hq, hg⟩ := unlink_eq_ok (call_eq_ok hcall)
        exact .whole q fs hq (fun _ => .inl rfl) hg

/-- The path ends in the name of an entry, and does not lead through what is below it. -/
structure Names (limit : ℕ) (cwd : Path N) (path : CPath N) (fs : FileSystem N) (p : Path N) :
    Prop where
  last : ∃ n dirs, path.comps.reverse = .name n :: dirs
  ne : p ≠ []
  isSome : (fs.kind p).isSome
  named : ∀ fs', Within p fs fs' → fs'.named limit cwd path = .ok p

/-- **Where nothing is refused, `remove_dir_all` succeeds.** -/
theorem removeDirAll_go {cs : List Choice} {res : Except RuntimeError Unit}
    (hn : Names limit cwd path fs p) (hgo : ∀ c ∈ cs, c = .go)
    (h : removeDirAll limit cwd path fs cs = some (fs', res)) : res = .ok () := by
  have hp := hn.named fs fun _ => .inl rfl
  obtain ⟨k, hk⟩ := Option.isSome_iff_exists.mp hn.isSome
  have hl : fs.lstat limit cwd path = .ok k := by simp [FileSystem.lstat, hp, hk, Except.bind]
  cases cs with
  | nil => cases h
  | cons c cs =>
    obtain ⟨rfl, hrest⟩ := List.forall_mem_cons.mp hgo
    by_cases hdir : k = .dir
    · subst hdir
      have ho : fs.openDir limit cwd path = .ok p := by
        simp [FileSystem.openDir, hp, hk, Except.bind]
      obtain ⟨depth, hdepth⟩ := exists_depth fs
      simp only [removeDirAll, hl, ho, call, Except.mapError] at h
      split at h
      case h_1 | h_3 => cases h
      case h_2 hrun =>
        obtain ⟨_, hres, -⟩ := ((inv_opened hk).of_run hdepth hrun).2.2 hrest
        cases hres
      case h_4 fs₁ c' _ hrun =>
        obtain ⟨hw, hok, hall⟩ := (inv_opened hk).of_run hdepth hrun
        obtain ⟨_, hres, hgo⟩ := hall hrest
        cases hres
        obtain rfl := hgo c' (List.mem_cons_self ..)
        obtain ⟨fs₂, h₂⟩ := exists_rmdirAt hn.ne (hok rfl).1 (hok rfl).2
        have hr : fs₁.rmdir limit cwd path = .ok fs₂ := by
          obtain ⟨n, dirs, hlast⟩ := hn.last
          simp [FileSystem.rmdir, hlast, hn.named fs₁ hw, Except.bind, h₂]
        rw [hr] at h
        exact (Prod.mk.inj (Option.some.inj h)).2.symm
    · obtain ⟨fs₁, h₁⟩ := exists_unlinkAt hn.ne hk hdir
      have hu : fs.unlink limit cwd path = .ok fs₁ := by
        simp [FileSystem.unlink, hp, Except.bind, h₁]
      simp only [removeDirAll, hl, hu, call, Except.mapError] at h
      exact (Prod.mk.inj (Option.some.inj h)).2.symm

/-- `remove_dir_all` returns, given as many choices as there are turns in it. -/
theorem exists_removeDirAll (fs : FileSystem N) (limit : ℕ) (cwd : Path N) (path : CPath N) :
    ∃ turns, ∀ cs : List Choice, turns ≤ cs.length →
      (removeDirAll limit cwd path fs cs).isSome := by
  obtain ⟨depth, hdepth⟩ := exists_depth fs
  refine ⟨weight depth fs [fs.opened [] none] + 2, fun cs hcs => ?_⟩
  cases cs with
  | nil => cases hcs
  | cons c cs =>
    rw [List.length_cons] at hcs
    simp only [removeDirAll]
    split
    case h_1 => rfl
    case h_2 =>
      split
      case h_1 => rfl
      case h_2 p hopen =>
        obtain ⟨-, hdir⟩ := openDir_eq_ok (call_eq_ok hopen)
        have hweight : weight depth fs [fs.opened p none] =
            weight depth fs [fs.opened [] none] := rfl
        obtain ⟨fs', res, hrun, hrest⟩ := (inv_opened hdir).exists_run hdepth
          (show weight depth fs [fs.opened p none] ≤ cs.length by omega)
        rw [hrun]
        cases res with
        | error e => rfl
        | ok rest =>
          have := hrest rest rfl
          cases rest with
          | nil =>
            rw [List.length_nil] at this
            omega
          | cons c' rest => rfl
    case h_3 => rfl

/-- **What `remove_dir_all` removes.** It ends, whatever the calls do and whenever it is cancelled.
It succeeds if nothing is refused. When it does, the entry its path names is gone with everything
below it, and every other entry is as it was, those that links in the removed part lead to included.
However it ends, what is gone is in the part the path names, and nothing is left in a directory that
is gone. -/
theorem removed_exactly (limit : ℕ) (cwd : Path N) (path : CPath N) (fs : FileSystem N) :
    (∃ turns, ∀ cs : List Choice, turns ≤ cs.length →
      (removeDirAll limit cwd path fs cs).isSome) ∧
    ∀ cs fs' res, removeDirAll limit cwd path fs cs = some (fs', res) →
      ((∃ p, Names limit cwd path fs p) → (∀ c ∈ cs, c = .go) → res = .ok ()) ∧
      (res.isOk → ∃ p, fs.named limit cwd path = .ok p ∧ (fs.kind p).isSome ∧
        ∀ r, (p <:+ r → fs'.kind r = none) ∧ (¬ p <:+ r → fs'.kind r = fs.kind r)) ∧
      (∀ r, fs'.kind r = fs.kind r ∨
        fs'.kind r = none ∧ ∃ p, fs.named limit cwd path = .ok p ∧ p <:+ r) ∧
      ∀ n r, fs'.kind r = none → fs'.kind (n :: r) = none := by
  refine ⟨exists_removeDirAll fs limit cwd path, ?_⟩
  intro cs fs' res h
  refine ⟨?_, ?_, ?_, ?_⟩
  · rintro ⟨p, hn⟩ hgo
    exact removeDirAll_go hn hgo h
  · intro hok
    cases ended_of_removeDirAll h with
    | unchanged => cases hok
    | part => cases hok
    | whole p fs₁ hp hw hg =>
      refine ⟨p, hp, ?_, hw.exact hg⟩
      obtain ⟨k, hk⟩ := Option.isSome_iff_exists.mp hg.was
      rw [hw.kind hk]
      rfl
  · intro r
    cases ended_of_removeDirAll h with
    | unchanged _ heq => exact .inl (heq ▸ rfl)
    | part _ p hp hw => exact (hw r).imp_right fun hr => ⟨hr.1, p, hp, hr.2⟩
    | whole p fs₁ hp hw hg =>
      by_cases hr : p <:+ r
      · exact .inr ⟨(hw.exact hg r).1 hr, p, hp, hr⟩
      · exact .inl ((hw.exact hg r).2 hr)
  · intro n r hnone
    by_contra hsome
    rw [← ne_eq, Option.ne_none_iff_isSome] at hsome
    rw [fs'.closed n r hsome] at hnone
    cases hnone

end Spec

/-- A directory with a link in it to a file elsewhere. -/
def linked : FileSystem ℕ where
  kind
    | [] | [0] => some .dir
    | [1, 0] => some (.link ⟨true, [.name 2]⟩)
    | [2] => some .file
    | _ => none
  paths := [[0], [1, 0], [2]]
  nodup := by decide
  mem_paths q := by
    constructor
    · simp only [List.mem_cons, List.not_mem_nil, or_false]
      rintro (rfl | rfl | rfl) <;> exact ⟨nofun, rfl⟩
    · rintro ⟨hne, h⟩
      split at h <;> simp_all
  root := rfl
  closed n q h := by
    split at h <;> simp_all

theorem names_linked : Names 8 [] ⟨false, [.name 0]⟩ linked [0] := by
  refine ⟨⟨0, [], rfl⟩, nofun, rfl, fun fs' _ => ?_⟩
  show (fs'.walk 8 [] ⟨false, []⟩).map _ = _
  rw [FileSystem.walk, if_neg Bool.false_ne_true, fs'.root]
  rfl

/-- The link is gone with the directory, and what it leads to is not. -/
theorem removed_exactly_linked : ∃ fs' res, removeDirAll 8 [] ⟨false, [.name 0]⟩ linked
    (List.replicate 5 .go) = some (fs', res) ∧ res = .ok () ∧ fs'.paths = [[2]] ∧
    ∃ p, linked.named 8 [] ⟨false, [.name 0]⟩ = .ok p ∧ (linked.kind p).isSome ∧
      ∀ r, (p <:+ r → fs'.kind r = none) ∧ (¬ p <:+ r → fs'.kind r = linked.kind r) := by
  obtain ⟨fs', res, h, hpaths⟩ : ∃ fs' res, removeDirAll 8 [] ⟨false, [.name 0]⟩ linked
      (List.replicate 5 .go) = some (fs', res) ∧ fs'.paths = [[2]] := ⟨_, _, rfl, rfl⟩
  obtain ⟨hok, hexact, -⟩ := (removed_exactly _ _ _ _).2 _ _ _ h
  have hres := hok ⟨_, names_linked⟩ (by simp)
  exact ⟨fs', res, h, hres, hpaths, hexact (by rw [hres]; rfl)⟩

end Atap.Remove
