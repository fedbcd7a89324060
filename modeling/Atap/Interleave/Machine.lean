import Mathlib.Algebra.BigOperators.Group.Finset.Basic
import Mathlib.Algebra.BigOperators.Fin
import Mathlib.Algebra.Order.BigOperators.Group.Finset
import Mathlib.Data.Fintype.Basic
import Mathlib.Tactic.Abel

/-!
# Interleaved threads over one shared memory

A `Machine M L C` is one program run by every thread of a system: `next m l c` is the
effect of **one** indivisible operation of a thread whose own state (its program counter
and its locals) is `l` on the shared memory `m`. The choice `c` resolves what the program
leaves open: which call an idle thread makes, with which argument, and whether a weak
exchange fails for no reason; where a type of choices has `go`, that is the next step of the
program the thread is in. `none` means that the operation is not enabled.

A configuration is the memory with the local state of every thread, and a step fires one
thread. Nothing is assumed about the order in which threads fire, so a property of every
configuration in `Reach` holds for every interleaving.

* `Machine.Reach Init Ok`: what is reached from `Init` by steps that all meet `Ok`. The
  guard is how an assumption about a run is stated ("no thread stalls for long", "the
  branch that goes wrong is not taken"); `unguarded` is no assumption at all.
* `Machine.Reach.invariant`: the one induction over runs every safety proof goes through.
* `total w loc`: the sum of a weight over all threads, in any commutative monoid, with the
  law `total_update_add` for what one step does to it. What the threads hold privately is
  accounted for through a weight in `Multiset`.
* `count p loc`: the number of threads in a phase. A counter word of the memory is tied to
  the threads that raised it through such a count.
-/

namespace Atap

open Function

open Finset

variable {T M L C A : Type*}

/-- One program run by every thread: `next m l c` is one indivisible operation of a thread
in the local state `l` on the memory `m`, under the choice `c`. -/
structure Machine (M L C : Type*) where
  next : M → L → C → Option (M × L)

/-! Reading a program backwards: what holds of what it may yield holds of what it yielded. -/

section Yield

variable {R : M → L → Prop} {m m₁ m₂ m' : M} {l l₁ l₂ l' : L} {c : Prop} [Decidable c]

theorem yield (h : some (m, l) = some (m', l')) (hr : R m l) : R m' l' := by
  cases h
  exact hr

theorem yield_guard (h : (if c then some (m, l) else none) = some (m', l'))
    (hr : c → R m l) : R m' l' := by
  obtain ⟨hc, h⟩ := Option.ite_none_right_eq_some.mp h
  exact yield h (hr hc)

theorem yield_unless (h : (if c then none else some (m, l)) = some (m', l'))
    (hr : ¬ c → R m l) : R m' l' := by
  obtain ⟨hc, h⟩ := Option.ite_none_left_eq_some.mp h
  exact yield h (hr hc)

theorem yield_ite (h : (if c then some (m₁, l₁) else some (m₂, l₂)) = some (m', l'))
    (h₁ : c → R m₁ l₁) (h₂ : ¬ c → R m₂ l₂) : R m' l' := by
  split at h
  case isTrue hc => exact yield h (h₁ hc)
  case isFalse hc => exact yield h (h₂ hc)

theorem yield_fst (h : some (if c then m₁ else m₂, l) = some (m', l'))
    (h₁ : c → R m₁ l) (h₂ : ¬ c → R m₂ l) : R m' l' := by
  split at h
  case isTrue hc => exact yield h (h₁ hc)
  case isFalse hc => exact yield h (h₂ hc)

theorem yield_snd (h : some (m, if c then l₁ else l₂) = some (m', l'))
    (h₁ : c → R m l₁) (h₂ : ¬ c → R m l₂) : R m' l' := by
  split at h
  case isTrue hc => exact yield h (h₁ hc)
  case isFalse hc => exact yield h (h₂ hc)

end Yield

/-- The shared memory, with the local state of every thread. -/
@[ext]
structure Config (T M L : Type*) where
  mem : M
  loc : T → L

/-- What the first of two programs side by side sees of a configuration. -/
def Config.fst {M' L' : Type*} (s : Config T (M × M') (L × L')) : Config T M L :=
  ⟨s.mem.1, Prod.fst ∘ s.loc⟩

/-- What the second of two programs side by side sees of a configuration. -/
def Config.snd {M' L' : Type*} (s : Config T (M × M') (L × L')) : Config T M' L' :=
  ⟨s.mem.2, Prod.snd ∘ s.loc⟩

namespace Machine

variable [DecidableEq T] (P : Machine M L C)

/-- Thread `t` takes one step. -/
def fire (s : Config T M L) (t : T) (c : C) : Option (Config T M L) :=
  (P.next s.mem (s.loc t) c).map fun r => ⟨r.1, update s.loc t r.2⟩

variable {P} in
theorem fire_eq_some {s s' : Config T M L} {t : T} {c : C} :
    P.fire s t c = some s' ↔ ∃ m' l', P.next s.mem (s.loc t) c = some (m', l') ∧
      s' = ⟨m', update s.loc t l'⟩ := by
  simp only [fire, Option.map_eq_some_iff, Prod.exists]
  constructor
  · rintro ⟨m', l', h, rfl⟩
    exact ⟨m', l', h, rfl⟩
  · rintro ⟨m', l', h, rfl⟩
    exact ⟨m', l', h, rfl⟩

/-- What is reached from an initial configuration by steps that all meet the guard `Ok`. -/
inductive Reach (Init : Config T M L → Prop) (Ok : Config T M L → T → C → Prop) :
    Config T M L → Prop
  | init {s : Config T M L} (h : Init s) : Reach Init Ok s
  | step {s s' : Config T M L} {t : T} {c : C} (hs : Reach Init Ok s) (hok : Ok s t c)
      (hf : P.fire s t c = some s') : Reach Init Ok s'

/-- The guard of a run nothing is assumed about. -/
def unguarded : Config T M L → T → C → Prop := fun _ _ _ => True

variable {P} {Init : Config T M L → Prop} {Ok Ok' : Config T M L → T → C → Prop}

/-- **The invariant rule**: what holds at the start and is kept by every guarded step of
every thread holds in every configuration reached. -/
theorem Reach.invariant {I : Config T M L → Prop} (h0 : ∀ s, Init s → I s)
    (hstep : ∀ s t c m' l', I s → Ok s t c → P.next s.mem (s.loc t) c = some (m', l') →
      I ⟨m', update s.loc t l'⟩)
    {s : Config T M L} (hs : P.Reach Init Ok s) : I s := by
  induction hs with
  | init h => exact h0 _ h
  | step _ hok hf ih =>
    obtain ⟨m', l', hn, rfl⟩ := fire_eq_some.mp hf
    exact hstep _ _ _ _ _ ih hok hn

/-- A weaker guard reaches at least as much. -/
theorem Reach.mono (h : ∀ s t c, Ok s t c → Ok' s t c) {s : Config T M L}
    (hs : P.Reach Init Ok s) : P.Reach Init Ok' s := by
  induction hs with
  | init h0 => exact .init h0
  | step _ hok hf ih => exact .step ih (h _ _ _ hok) hf

instance (s : Config T M L) (t : T) (c : C) : Decidable (unguarded s t c) :=
  .isTrue trivial

section Run

/-! The numerals that name the threads of a schedule. -/

instance neZero_two : NeZero 2 := ⟨by decide⟩

instance neZero_three : NeZero 3 := ⟨by decide⟩

instance neZero_four : NeZero 4 := ⟨by decide⟩

variable (P) (Ok) [∀ s t c, Decidable (Ok s t c)]

/-- Fires the threads of a schedule in order, and stops at a step the guard refuses. -/
def run : Config T M L → List (T × C) → Option (Config T M L)
  | s, [] => some s
  | s, (t, c) :: rest => if Ok s t c then (P.fire s t c).bind fun s' => run s' rest else none

variable {P} {Ok}

theorem run_append (s : Config T M L) (l l' : List (T × C)) :
    P.run Ok s (l ++ l') = (P.run Ok s l).bind fun s' => P.run Ok s' l' := by
  induction l generalizing s with
  | nil => rfl
  | cons tc l ih =>
    obtain ⟨t, c⟩ := tc
    simp only [List.cons_append, run]
    split
    · cases P.fire s t c with
      | none => rfl
      | some s₁ => exact ih s₁
    · rfl

/-- A run reaches its last configuration. -/
theorem Reach.run {s s' : Config T M L} {sched : List (T × C)} (hs : P.Reach Init Ok s)
    (h : P.run Ok s sched = some s') : P.Reach Init Ok s' := by
  induction sched generalizing s with
  | nil =>
    obtain rfl : s = s' := by simpa [Machine.run] using h
    exact hs
  | cons tc rest ih =>
    obtain ⟨t, c⟩ := tc
    obtain ⟨hok, h⟩ := Option.ite_none_right_eq_some.mp h
    obtain ⟨s₁, hf, hr⟩ := Option.bind_eq_some_iff.mp h
    exact ih (.step hs hok hf) hr

/-- What a run can be seen to end in is reached. -/
theorem Reach.exists_of_run {s : Config T M L} {p : Config T M L → Prop} [DecidablePred p]
    (hs : P.Reach Init Ok s) (sched : List (T × C)) (h : (P.run Ok s sched).any (p ·) = true) :
    ∃ s', P.Reach Init Ok s' ∧ p s' := by
  obtain ⟨s', hr, hp⟩ := (Option.any_eq_true _ _).mp h
  exact ⟨s', hs.run hr, of_decide_eq_true hp⟩

end Run

section Both

variable {M' L' C' : Type*} {Q : Machine M' L' C'} {s : Config T (M × M') (L × L')}
  {Init₂ : Config T (M × M') (L × L') → Prop} {Init' : Config T M' L' → Prop}

/-- Two programs side by side: every thread has a state of its own in each, and steps in either. -/
def both (P : Machine M L C) (Q : Machine M' L' C') : Machine (M × M') (L × L') (C ⊕ C') where
  next m l
    | .inl c => (P.next m.1 l.1 c).map fun r => ((r.1, m.2), (r.2, l.2))
    | .inr c => (Q.next m.2 l.2 c).map fun r => ((m.1, r.1), (l.1, r.2))

/-- The first of two programs side by side runs as it does alone. -/
theorem Reach.fst (h0 : ∀ s, Init₂ s → Init s.fst) (hs : (P.both Q).Reach Init₂ unguarded s) :
    P.Reach Init unguarded s.fst := by
  induction hs with
  | init h => exact .init (h0 _ h)
  | @step s s' t c _ _ hf ih =>
    obtain ⟨m', l', hn, rfl⟩ := fire_eq_some.mp hf
    rcases c with c | c
    case inl =>
      obtain ⟨r, hr, heq⟩ := Option.map_eq_some_iff.mp hn
      obtain ⟨rfl, rfl⟩ := Prod.mk.inj heq
      refine .step ih trivial (t := t) (c := c) (fire_eq_some.mpr ⟨r.1, r.2, hr, ?_⟩)
      simp only [Config.fst, Function.comp_update]
    case inr =>
      obtain ⟨r, hr, heq⟩ := Option.map_eq_some_iff.mp hn
      obtain ⟨rfl, rfl⟩ := Prod.mk.inj heq
      have heq : Config.fst ⟨(s.mem.1, r.1), update s.loc t ((s.loc t).1, r.2)⟩ =
          s.fst := by
        simp only [Config.fst, Function.comp_update]
        exact congrArg (Config.mk _) (update_eq_self t _)
      rw [heq]
      exact ih

/-- So does the second. -/
theorem Reach.snd (h0 : ∀ s, Init₂ s → Init' s.snd) (hs : (P.both Q).Reach Init₂ unguarded s) :
    Q.Reach Init' unguarded s.snd := by
  induction hs with
  | init h => exact .init (h0 _ h)
  | @step s s' t c _ _ hf ih =>
    obtain ⟨m', l', hn, rfl⟩ := fire_eq_some.mp hf
    rcases c with c | c
    case inl =>
      obtain ⟨r, hr, heq⟩ := Option.map_eq_some_iff.mp hn
      obtain ⟨rfl, rfl⟩ := Prod.mk.inj heq
      have heq : Config.snd ⟨(r.1, s.mem.2), update s.loc t (r.2, (s.loc t).2)⟩ =
          s.snd := by
        simp only [Config.snd, Function.comp_update]
        exact congrArg (Config.mk _) (update_eq_self t _)
      rw [heq]
      exact ih
    case inr =>
      obtain ⟨r, hr, heq⟩ := Option.map_eq_some_iff.mp hn
      obtain ⟨rfl, rfl⟩ := Prod.mk.inj heq
      refine .step ih trivial (t := t) (c := c) (fire_eq_some.mpr ⟨r.1, r.2, hr, ?_⟩)
      simp only [Config.snd, Function.comp_update]

end Both

section Solo

variable (P)

/-- One thread takes steps, and no other. -/
def solo : List C → M → L → Option (M × L)
  | [], m, l => some (m, l)
  | c :: rest, m, l => (P.next m l c).bind fun r => solo rest r.1 r.2

variable {P} {m n : M} {l k : L} {f : T → L} {t : T}

theorem solo_append {cs cs' : List C} (h : P.solo cs m l = some (n, k)) :
    P.solo (cs ++ cs') m l = P.solo cs' n k := by
  induction cs generalizing m l with
  | nil =>
    cases h
    rfl
  | cons c cs ih =>
    obtain ⟨r, hr, h⟩ := Option.bind_eq_some_iff.mp h
    rw [List.cons_append, solo, hr]
    exact ih h

/-- A step of the thread whose state was written last. -/
theorem Reach.move {c : C} (hs : P.Reach Init Ok ⟨m, update f t l⟩)
    (hok : Ok ⟨m, update f t l⟩ t c) (hn : P.next m l c = some (n, k)) :
    P.Reach Init Ok ⟨n, update f t k⟩ := by
  refine .step hs hok (fire_eq_some.mpr ⟨n, k, ?_, ?_⟩)
  · change P.next m (update f t l t) c = some (n, k)
    rw [update_self]
    exact hn
  · rw [update_idem]

/-- What one thread does on its own is reached. -/
theorem Reach.solo {cs : List C} (hs : P.Reach Init unguarded ⟨m, update f t l⟩)
    (h : P.solo cs m l = some (n, k)) :
    P.Reach Init unguarded ⟨n, update f t k⟩ := by
  induction cs generalizing m l with
  | nil =>
    cases h
    exact hs
  | cons c cs ih =>
    obtain ⟨r, hr, h⟩ := Option.bind_eq_some_iff.mp h
    exact ih (hs.move trivial hr) h

end Solo

end Machine

section Update

variable [DecidableEq T] {m : M} {f : T → L} {t u : T} {l : L}

theorem Config.loc_self : (Config.mk m (update f t l)).loc t = l := update_self ..

theorem Config.loc_of_ne (h : u ≠ t) : (Config.mk m (update f t l)).loc u = f u :=
  update_of_ne h ..

/-- What holds of the thread that moved and of the others holds of all. -/
theorem forall_update {P : L → Prop} (h : P l) (ho : ∀ u, u ≠ t → P (f u)) :
    ∀ u, P (update f t l u) :=
  (Function.forall_update_iff f fun _ => P).mpr ⟨h, ho⟩

/-- What some thread does, one does after a step of another, or one that comes to do it. -/
theorem exists_update {P : L → Prop} (h : P l ∨ (∃ u, P (f u)) ∧ ¬P (f t)) :
    ∃ u, P (update f t l u) := by
  obtain h | ⟨⟨u, hu⟩, ht⟩ := h
  · exact ⟨t, by rwa [update_self]⟩
  · have hne : u ≠ t := by
      rintro rfl
      exact ht hu
    exact ⟨u, by rwa [update_of_ne hne]⟩

/-- A phase that one thread at a time is in stays so, if a thread comes to it while no other is in
it. -/
theorem unique_update {p : L → Bool} (h : ∀ u v, p (f u) = true → p (f v) = true → u = v)
    (hl : p l = true → ∀ u, u ≠ t → p (f u) = false) (u v : T)
    (hu : p (update f t l u) = true) (hv : p (update f t l v) = true) :
    u = v := by
  rcases eq_or_ne u t with rfl | hut <;> rcases eq_or_ne v u with rfl | hvu
  · rfl
  · rw [update_self] at hu
    rw [update_of_ne hvu, hl hu v hvu] at hv
    cases hv
  · rfl
  · rw [update_of_ne hut] at hu
    rcases eq_or_ne v t with rfl | hvt
    · rw [update_self] at hv
      cases hu.symm.trans (hl hv u hut)
    · rw [update_of_ne hvt] at hv
      exact h u v hu hv

end Update

/-! ### Sums over the threads -/

section Total

variable [Fintype T] [AddCommMonoid A]

/-- The sum over every thread of a weight of its local state. -/
def total (w : L → A) (loc : T → L) : A := ∑ t, w (loc t)

/-- **What one step does to a sum over the threads**: the weight of the thread that moved
is exchanged for its new one. -/
theorem total_update_add [DecidableEq T] (w : L → A) (loc : T → L) (t : T) (l : L) :
    total w (update loc t l) + w (loc t) = total w loc + w l := by
  have hw : (fun u => w (update loc t l u)) =
      update (fun u => w (loc u)) t (w l) :=
    Function.comp_update w loc t l
  have hnew : total w (update loc t l) = w l + ∑ u ∈ univ \ {t}, w (loc u) := by
    rw [total, hw, sum_update_of_mem (mem_univ t)]
  have hold : total w loc = w (loc t) + ∑ u ∈ univ \ {t}, w (loc u) := by
    rw [total, ← add_sum_erase univ (fun u => w (loc u)) (mem_univ t), erase_eq]
  rw [hnew, hold]
  abel

theorem total_eq_zero_of_forall {w : L → A} {loc : T → L} (h : ∀ t, w (loc t) = 0) :
    total w loc = 0 :=
  sum_eq_zero fun t _ => h t

end Total

section TotalNat

variable [Fintype T] {w : L → ℕ} {f : T → L}

theorem le_total (t : T) : w (f t) ≤ total w f :=
  single_le_sum (f := fun u => w (f u)) (fun _ _ => Nat.zero_le _) (mem_univ t)

theorem add_le_total {t u : T} (h : t ≠ u) : w (f t) + w (f u) ≤ total w f := by
  classical
  rw [← sum_pair (f := fun v => w (f v)) h]
  exact sum_le_sum_of_subset (subset_univ _)

end TotalNat

/-! ### Counting the threads in a phase -/

section Count

variable [Fintype T] {p : L → Bool} {f : T → L}

/-- How many threads are in the phase `p`. -/
def count (p : L → Bool) (f : T → L) : ℕ := total (fun l => (p l).toNat) f

theorem count_update [DecidableEq T] (p : L → Bool) (f : T → L) (t : T) (l : L) :
    count p (update f t l) + (p (f t)).toNat = count p f + (p l).toNat :=
  total_update_add (fun l => (p l).toNat) f t l

/-- A step that stays in the phase, or stays out of it, leaves the count alone. -/
theorem count_update_of_eq [DecidableEq T] {t : T} {l : L} (h : p l = p (f t)) :
    count p (update f t l) = count p f := by
  have := count_update p f t l
  rw [h] at this
  omega

/-- A counter word that moves with a phase goes on counting it. -/
theorem eq_count_update [DecidableEq T] {t : T} {l : L} {x x' : ℕ} (h : x = count p f)
    (hx : x' + (p (f t)).toNat = x + (p l).toNat) : x' = count p (update f t l) := by
  have := count_update p f t l
  omega

theorem count_pos {t : T} (h : p (f t) = true) : 0 < count p f := by
  have hle : (p (f t)).toNat ≤ count p f := le_total (w := fun l => (p l).toNat) t
  rw [h] at hle
  exact hle

theorem count_eq_zero : count p f = 0 ↔ ∀ t, p (f t) = false := by
  constructor
  · intro h t
    by_contra hne
    exact absurd h (count_pos (Bool.not_eq_false _ ▸ hne)).ne'
  · intro h
    exact total_eq_zero_of_forall fun t => by rw [h t]; rfl

theorem exists_of_count_pos (h : 0 < count p f) : ∃ t, p (f t) = true := by
  by_contra hne
  refine h.ne' (count_eq_zero.mpr fun t => ?_)
  exact Bool.eq_false_iff.mpr fun ht => hne ⟨t, ht⟩

/-- Two threads in a phase that holds at most one are the same thread. -/
theorem eq_of_count_le_one (h : count p f ≤ 1) {t u : T} (ht : p (f t) = true)
    (hu : p (f u) = true) : t = u := by
  by_contra hne
  have hle : (p (f t)).toNat + (p (f u)).toNat ≤ count p f :=
    add_le_total (w := fun l => (p l).toNat) hne
  rw [ht, hu] at hle
  simp only [Bool.toNat_true] at hle
  omega

/-- A phase only one thread can be in counts that thread. -/
theorem count_eq_of_alone {t : T} (h : ∀ u, u ≠ t → p (f u) = false) :
    count p f = (p (f t)).toNat := by
  refine sum_eq_single t (fun u _ hu => ?_) fun ht => absurd (mem_univ t) ht
  show (p (f u)).toNat = 0
  rw [h u hu]
  rfl

theorem count_le_card : count p f ≤ Fintype.card T := by
  calc count p f ≤ ∑ _t : T, 1 := sum_le_sum fun t _ => Bool.toNat_le (p (f t))
    _ = Fintype.card T := by simp

theorem count_le_of_forall {q : L → Bool} (h : ∀ t, p (f t) = true → q (f t) = true) :
    count p f ≤ count q f := by
  refine sum_le_sum fun t _ => ?_
  show (p (f t)).toNat ≤ (q (f t)).toNat
  cases hp : p (f t) with
  | false => exact Nat.zero_le _
  | true => rw [h _ hp]

/-- A narrower phase holds no more threads. -/
theorem count_le_count {q : L → Bool} (h : ∀ l, p l = true → q l = true) :
    count p f ≤ count q f :=
  count_le_of_forall fun t => h (f t)

end Count

end Atap
