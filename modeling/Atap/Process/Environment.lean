import Atap.Common
import Mathlib.Data.List.Basic
import Mathlib.Data.List.Nodup

/-!
# The environment of a child

A process task keeps its variables as entries `NAME=VALUE`, one for each it was given, and writes
them over the environment it inherits: `merge` leaves out every inherited entry that has the name of
one of them, and puts them all behind the rest.

* `merged_env`: the child finds every name it was given once, with the value given last, and every
  other inherited entry, exactly if no name was given twice.
* `given_twice`: a name that was given twice is there twice, with the first value first.
-/

namespace Atap.Environment

abbrev Bytes := List UInt8

/-- `b'='`. -/
def equals : UInt8 := 61

/-- The environment a setup asks for. -/
inductive Env
  | inherited
  | bad
  | only (vars : List Bytes)
  | over (vars : List Bytes)
  deriving DecidableEq

/-- An entry of the form the kernel takes. -/
def entry (name value : Bytes) : Bytes := name ++ equals :: value

/-- `as_c_var`. `CString::new` refuses a zero byte. -/
def asCVar (name value : Bytes) : Option Bytes :=
  if name = [] ∨ equals ∈ name then none
  else if 0 ∈ entry name value then none else some (entry name value)

def asEnv (vars : List (Bytes × Bytes)) (into : List Bytes → Env) : Env :=
  match vars.mapM fun var => asCVar var.1 var.2 with
  | some vars => into vars
  | none => .bad

/-- `key`: the bytes of an entry that name the variable. -/
def key (entry : Bytes) : Bytes :=
  match entry.findIdx? (· == equals) with
  | some i => entry.take i
  | none => entry

/-- `merge`, with `none` for the null pointer at the end. -/
def merge (base vars : List Bytes) : List (Option Bytes) :=
  let kept := base.filter fun entry => !vars.any fun var => key var == key entry
  kept.map some ++ vars.map some ++ [none]

/-- `Env::envp`, in a process whose own environment is `base`. Nothing means that the child is
handed that as it is. -/
def Env.envp (base : List Bytes) : Env → Except RuntimeError (Option (List (Option Bytes)))
  | .inherited => .ok none
  | .bad => .error .badVariable
  | .only vars => .ok (some (vars.map some ++ [none]))
  | .over vars => .ok (some (merge base vars))

/-- What a child reads of a pointer array: the entries before the first null. -/
def entriesOf (envp : List (Option Bytes)) : List Bytes :=
  (envp.takeWhile Option.isSome).filterMap id

/-- The environment a child is given. -/
def Env.given (base : List Bytes) (env : Env) : Except RuntimeError (List Bytes) :=
  (env.envp base).map fun envp => (envp.map entriesOf).getD base

/-! ### Entries and their names -/

theorem entriesOf_append_none (l : List Bytes) : entriesOf (l.map some ++ [none]) = l := by
  induction l with
  | nil => rfl
  | cons e l ih =>
    unfold entriesOf at ih ⊢
    simp

/-- The name of an entry is what was joined in front of the first equals sign. -/
theorem key_entry {name value : Bytes} (h : equals ∉ name) : key (entry name value) = name := by
  have hfind : (entry name value).findIdx? (· == equals) = some name.length := by
    unfold entry
    induction name with
    | nil => rfl
    | cons b name ih =>
      rw [List.mem_cons, not_or] at h
      rw [List.cons_append, List.findIdx?_cons, ih h.2]
      simp [Ne.symm h.1]
  rw [key, hfind]
  exact List.take_left' rfl

theorem asCVar_eq_some {name value e : Bytes} (h : asCVar name value = some e) :
    e = entry name value ∧ key e = name := by
  simp only [asCVar, Option.ite_none_left_eq_some, Option.some.injEq, not_or] at h
  obtain ⟨⟨-, hname⟩, -, rfl⟩ := h
  exact ⟨rfl, key_entry hname⟩

/-- Variables that convert are the entries they were joined to, under their names. -/
theorem asEnv_eq_over {vars : List (Bytes × Bytes)} {entries : List Bytes}
    (h : asEnv vars .over = .over entries) :
    entries = vars.map (fun var => entry var.1 var.2) ∧ entries.map key = vars.map Prod.fst := by
  unfold asEnv at h
  split at h
  case h_2 => cases h
  case h_1 es hes =>
    cases h
    induction vars generalizing entries with
    | nil =>
      cases hes
      exact ⟨rfl, rfl⟩
    | cons var vars ih =>
      rw [List.mapM_cons] at hes
      obtain ⟨e, he, hrest⟩ := Option.bind_eq_some_iff.mp hes
      obtain ⟨es, hvars, heq⟩ := Option.bind_eq_some_iff.mp hrest
      cases heq
      obtain ⟨rfl, hkey⟩ := asCVar_eq_some he
      obtain ⟨rfl, hkeys⟩ := ih hvars
      exact ⟨rfl, by rw [List.map_cons, List.map_cons, hkey, hkeys]⟩

/-! ### What the child is given -/

section Merge

variable {base entries : List Bytes} {vars : List (Bytes × Bytes)} {name value : Bytes}

/-- A name that is given once. -/
theorem filter_vars (hd : (vars.map Prod.fst).Nodup) (h : (name, value) ∈ vars) :
    vars.filter (fun var => var.1 == name) = [(name, value)] := by
  induction vars with
  | nil => cases h
  | cons var vars ih =>
    obtain ⟨hnew, hd⟩ := List.nodup_cons.mp hd
    rcases List.mem_cons.mp h with rfl | h
    · rw [List.filter_cons_of_pos (by simp), List.filter_eq_nil_iff.mpr]
      intro var hvar heq
      exact hnew (List.mem_map.mpr ⟨var, hvar, eq_of_beq heq⟩)
    · rw [List.filter_cons_of_neg, ih hd h]
      intro heq
      exact hnew (List.mem_map.mpr ⟨(name, value), h, (eq_of_beq heq).symm⟩)

/-- The value that was given last for a name. -/
def lastGiven (vars : List (Bytes × Bytes)) (name : Bytes) : Option Bytes :=
  (vars.filter fun var => var.1 == name).getLast?.map Prod.snd

/-- The child's entries: those inherited under other names, then the ones that were given. -/
theorem given_over : (Env.over entries).given base =
    .ok (base.filter (fun e => decide (key e ∉ entries.map key)) ++ entries) := by
  have hkept : (fun e => !entries.any fun var => key var == key e) =
      fun e => decide (key e ∉ entries.map key) := by
    funext e
    rw [Bool.eq_iff_iff]
    simp
  show Except.ok (entriesOf (merge base entries)) = _
  rw [merge, hkept, ← List.map_append, entriesOf_append_none]

/-- **Every name is given once, and the rest is inherited**, exactly if no name was given twice. In
the environment of a child whose variables convert, every one of their names is the name of one
entry, with the value given last for it, and the entries under other names are those of the
inherited environment, in their order, if and only if the names are distinct. -/
theorem merged_env (base : List Bytes) (hc : asEnv vars .over = .over entries) :
    (∃ env, (asEnv vars .over).given base = .ok env ∧
      (∀ name ∈ vars.map Prod.fst, ∃ value, lastGiven vars name = some value ∧
        env.filter (fun e => key e == name) = [entry name value]) ∧
      env.filter (fun e => decide (key e ∉ vars.map Prod.fst)) =
        base.filter (fun e => decide (key e ∉ vars.map Prod.fst))) ↔
    (vars.map Prod.fst).Nodup := by
  obtain ⟨hentries, hkeys⟩ := asEnv_eq_over hc
  constructor
  · rintro ⟨env, hgiven, hnames, -⟩
    rw [hc, given_over] at hgiven
    cases hgiven
    refine List.nodup_iff_count_le_one.mpr fun name => ?_
    by_cases hname : name ∈ vars.map Prod.fst
    · -- all entries that were given for the name are among those found under it
      obtain ⟨value, -, hone⟩ := hnames name hname
      have hlen := congrArg List.length hone
      rw [List.filter_append, List.length_append, List.length_singleton] at hlen
      rw [← hkeys, List.count, List.countP_map, List.countP_eq_length_filter]
      exact Nat.le_trans (Nat.le_add_left ..) (Nat.le_of_eq hlen)
    · rw [List.count_eq_zero_of_not_mem hname]
      exact Nat.zero_le 1
  intro hd
  refine ⟨_, by rw [hc, given_over, hkeys], ?_, ?_⟩
  · intro name hname
    obtain ⟨⟨n, value⟩, hvar, rfl⟩ := List.mem_map.mp hname
    refine ⟨value, by rw [lastGiven, filter_vars hd hvar]; rfl, ?_⟩
    -- none of what is inherited has the name
    have hbase : (base.filter fun e => decide (key e ∉ vars.map Prod.fst)).filter
        (fun e => key e == n) = [] := by
      refine List.filter_eq_nil_iff.mpr fun e he heq => ?_
      have hnot := of_decide_eq_true (List.mem_filter.mp he).2
      exact hnot (eq_of_beq heq ▸ hname)
    have hkey : ∀ var ∈ vars, key (entry var.1 var.2) = var.1 := by
      rw [hentries, List.map_map] at hkeys
      exact List.map_inj_left.mp hkeys
    rw [List.filter_append, hbase, List.nil_append, hentries, List.filter_map,
      List.filter_congr (q := fun var => var.1 == n), filter_vars hd hvar]
    · rfl
    · intro var hmem
      exact congrArg (· == n) (hkey var hmem)
  · have hgiven : entries.filter (fun e => decide (key e ∉ vars.map Prod.fst)) = [] := by
      refine List.filter_eq_nil_iff.mpr fun e he hnot => ?_
      exact of_decide_eq_true hnot (hkeys ▸ List.mem_map_of_mem he)
    rw [List.filter_append, hgiven, List.append_nil, List.filter_filter]
    simp

end Merge

/-- A variable is replaced and another is new; the third is inherited. -/
theorem merged_env_replaced : ∃ env,
    (asEnv [([65], [49]), ([66], [])] .over).given [entry [65] [48], entry [67] [49]] = .ok env ∧
      env.filter (fun e => key e == [65]) = [entry [65] [49]] := by
  obtain ⟨env, hgiven, hnames, -⟩ := (merged_env [entry [65] [48], entry [67] [49]]
    (show asEnv [([65], [49]), ([66], [])] .over = .over _ from rfl)).mpr (by decide)
  obtain ⟨value, hlast, hfilter⟩ := hnames [65] (by decide)
  cases hlast
  exact ⟨env, hgiven, hfilter⟩

/-- A name that is given twice is in the child's environment twice, and the first value that was
given for it comes first. -/
theorem given_twice :
    (asEnv [([65], [49]), ([65], [50])] .over).given [] = .ok [entry [65] [49], entry [65] [50]] ∧
      key (entry [65] [49]) = [65] ∧ key (entry [65] [50]) = [65] ∧
      lastGiven [([65], [49]), ([65], [50])] [65] = some [50] :=
  ⟨rfl, rfl, rfl, rfl⟩

end Atap.Environment
