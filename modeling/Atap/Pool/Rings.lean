import Atap.Pool.Ring

/-!
# The rings of a pool

Every worker pushes to and pops from a ring of its own, and steals from the rings of the others: a
thief copies entries out of the victim's ring and, once its exchange of the victim's `head` has
landed, pushes them one by one to its own. This module is the whole pool, with the steps of
`Atap.Pool.Ring` on every ring. The entries a thief has no room for, which go back to the shared
queue, leave the model with it.

A ring is kept with its history (`Kept`): what was pushed to it, what was taken out of it, and how
many operations it has seen.

* `Kept.Exact`: what was taken is the first part of what was pushed, and what was not is in the
  cells.
* `Reads`: what a thread has read of the cells is what was pushed there, as long as `head` has not
  moved. Nothing is known of it once `head` has, and then the exchange does not land.
* `Good.since`: the operations since a thread loaded `head` bound how far `head` has come, so that
  fewer than `2 ^ 32` of them are no full turn of it.
-/

namespace Atap.Rings

open Function (update update_of_ne update_self)

/-- A ring with its history, which no step reads. -/
structure Kept where
  ring : Ring.Mem
  /-- The entries pushed to it. -/
  log : List ℕ
  /-- The entries taken out of it. -/
  out : List ℕ
  /-- The pushes, and the pops and steals that took something. -/
  ops : ℕ

/-- What a step puts into the ring. -/
def puts : Ring.Pc → List ℕ
  | .pushMove raw _ => [raw]
  | _ => []

/-- What a step that ends here has taken out of the ring. -/
def takes : Ring.Pc → List ℕ
  | .popped raw => [raw]
  | .stole raws => raws
  | _ => []

/-- Whether a step ends a push, a pop or a steal. -/
def counts : Ring.Pc → Bool
  | .pushed | .popped _ | .stole _ => true
  | _ => false

/-- The ring after a step. -/
def Kept.after (k : Kept) (pc pc' : Ring.Pc) (r : Ring.Mem) : Kept :=
  ⟨r, k.log ++ puts pc, k.out ++ takes pc', k.ops + (counts pc').toNat⟩

/-- The next step loads `head`. -/
def loads : Ring.Pc → Bool
  | .popHead | .stealHead => true
  | _ => false

/-- A worker's thread: the ring it works on, where it is, the operations that ring had seen when it
loaded `head`, and the stolen entries it has yet to put away. -/
structure Local (W : Type*) where
  self : W
  on : W
  pc : Ring.Pc
  mark : ℕ
  rest : List ℕ

inductive Act (W : Type*)
  /-- The calls an idle thread makes. -/
  | push (id : ℕ)
  | pop
  | steal (victim : W)
  /-- A step in the ring. -/
  | ring (a : Ring.Act)
  /-- `pop` has claimed the task it took, or goes on to the next one. -/
  | claim (won : Bool)
  | go

section Machine

variable {W : Type*} [DecidableEq W]

/-- Goes on with the entries that are left to put away. -/
def Local.put (l : Local W) : List ℕ → Local W
  | [] => { l with pc := .idle, rest := [] }
  | raw :: rest => { l with on := l.self, pc := .pushTail raw, rest := rest }

def next (m : W → Kept) (l : Local W) : Act W → Option ((W → Kept) × Local W)
  | .push id =>
    if l.pc = .idle then some (m, { l with on := l.self, pc := .pushTail (id + 1), rest := [] })
    else none
  | .pop => if l.pc = .idle then some (m, { l with on := l.self, pc := .popHead }) else none
  | .steal victim =>
    if l.pc = .idle then some (m, { l with on := victim, pc := .stealHead }) else none
  | .ring a =>
    (Ring.step (m l.on).ring l.pc a).map fun r =>
      (update m l.on ((m l.on).after l.pc r.2 r.1),
        { l with pc := r.2, mark := if loads l.pc then (m l.on).ops else l.mark })
  | .claim won =>
    match l.pc with
    | .popped _ => some (m, { l with pc := if won then .idle else .popHead })
    | _ => none
  | .go =>
    match l.pc with
    -- a zero is no entry
    | .stole raws => some (m, l.put (raws.filter (· ≠ 0)))
    | .pushed | .full _ => some (m, l.put l.rest)
    | .empty | .missed => some (m, { l with pc := .idle })
    | _ => none

def machine : Machine (W → Kept) (Local W) (Act W) := ⟨next⟩

/-- Fewer than `2 ^ 32` operations on a ring between a thread's load of its `head` and its exchange
of it. -/
def InTime (s : Config W (W → Kept) (Local W)) (t : W) (_ : Act W) : Prop :=
  (s.loc t).pc.loaded ≠ none → (s.mem (s.loc t).on).ops < (s.loc t).mark + 2 ^ Ring.wordBits

instance (s : Config W (W → Kept) (Local W)) (t : W) (a : Act W) : Decidable (InTime s t a) :=
  inferInstanceAs (Decidable (_ → _))

/-- New rings, and threads that have called nothing. -/
structure Fresh (s : Config W (W → Kept) (Local W)) : Prop where
  head : ∀ v, (s.mem v).ring.head = 0
  tail : ∀ v, (s.mem v).ring.tail = 0
  log : ∀ v, (s.mem v).log = []
  out : ∀ v, (s.mem v).out = []
  self : ∀ t, (s.loc t).self = t
  idle : ∀ t, (s.loc t).pc = .idle

end Machine

/-! ### One ring -/

/-- What was taken is the first of what was pushed, and the rest is in the cells. -/
structure Kept.Exact (k : Kept) : Prop where
  bounded : k.ring.Bounded
  length : k.log.length = k.ring.tail
  out : k.out = k.log.take k.ring.head
  cells : ∀ i, k.ring.head ≤ i → i < k.ring.tail → k.log[i]? = some (k.ring.cell i)

/-- What a thread has read of a ring. -/
def Reads (k : Kept) : Ring.Pc → Prop
  | .pushMove raw tail => k.ring.cell tail = raw
  | .popSwap head raw => k.ring.head = head → k.log[head]? = some raw
  | .stealCell head take raws => take ≤ 128 ∧ raws.length < take ∧
    (k.ring.head = head → (k.log.drop head).take raws.length = raws)
  | .stealSwap head take raws => take ≤ 128 ∧ raws.length = take ∧
    (k.ring.head = head → (k.log.drop head).take take = raws)
  | _ => True

/-- The `head` a thread has loaded. -/
def loadedHead : Ring.Pc → Option ℕ
  | .popTail head | .popCell head | .popSwap head _ | .stealTail head | .stealCell head _ _
  | .stealSwap head _ _ => some head
  | _ => none

/-- What a thread relies on. -/
structure Good (k : Kept) (mark : ℕ) (pc : Ring.Pc) : Prop where
  fits : pc.Fits k.ring
  reads : Reads k pc
  /-- A push moves `tail` by one and a steal `head` by half a ring at most, and when `head` was
  loaded `tail` was no more than a ring ahead. -/
  since : ∀ head ∈ loadedHead pc, 128 * mark + 128 * k.ring.tail + k.ring.head ≤
    128 * k.ops + 129 * head + 128 * Ring.localQueue

/-- A ring later on, for a thread other than the one that took the step. -/
structure Later (pushing : Bool) (k k' : Kept) : Prop where
  head_le : k.ring.head ≤ k'.ring.head
  tail_le : k.ring.tail ≤ k'.ring.tail
  log : k.log <+: k'.log
  ops : 128 * k'.ring.tail + k'.ring.head + 128 * k.ops ≤
    128 * k'.ops + 128 * k.ring.tail + k.ring.head
  still : pushing = false → k'.ring.tail = k.ring.tail ∧ k'.ring.cells = k.ring.cells

section Step

variable {k k' : Kept} {mark : ℕ} {pc pc' : Ring.Pc} {r : Ring.Mem} {pushing : Bool}

theorem getElem?_of_prefix {l l' : List ℕ} (h : l <+: l') {i x : ℕ} (hx : l[i]? = some x) :
    l'[i]? = some x := by
  obtain ⟨t, rfl⟩ := h
  rw [List.getElem?_append_left (List.getElem?_eq_some_iff.mp hx).1, hx]

theorem take_drop_of_prefix {l l' raws : List ℕ} {n head : ℕ} (h : l <+: l')
    (hn : head + n ≤ l.length) (hr : (l.drop head).take n = raws) :
    (l'.drop head).take n = raws := by
  obtain ⟨t, rfl⟩ := h
  rw [List.drop_append_of_le_length (by omega),
    List.take_append_of_le_length (by rw [List.length_drop]; omega), hr]

/-- What a thread relies on is not disturbed by the others. -/
theorem Good.later (h : Good k mark pc) (he : k.Exact) (hl : Later pushing k k')
    (hp : pc.pushes = true → pushing = false) : Good k' mark pc := by
  have hhead := hl.head_le
  have htail := he.length
  refine ⟨h.fits.mono hl.head_le hl.tail_le fun hpush => (hl.still (hp hpush)).1, ?_, ?_⟩
  · have hr := h.reads
    have hf := h.fits
    cases pc with
    | pushMove raw tail =>
      show k'.ring.cells _ = raw
      rw [(hl.still (hp rfl)).2]
      exact hr
    | popSwap head raw =>
      intro heq
      have := hf.1
      exact getElem?_of_prefix hl.log (hr (by omega))
    | stealCell head take raws =>
      refine ⟨hr.1, hr.2.1, fun heq => ?_⟩
      have := hf.1
      have := hf.2 (by omega)
      have := hr.2.1
      exact take_drop_of_prefix hl.log (by omega) (hr.2.2 (by omega))
    | stealSwap head take raws =>
      refine ⟨hr.1, hr.2.1, fun heq => ?_⟩
      have := hf.1
      have := hf.2 (by omega)
      exact take_drop_of_prefix hl.log (by omega) (hr.2.2 (by omega))
    | _ => trivial
  · intro head hh
    have := h.since head hh
    have := hl.ops
    omega

theorem reads_copy {head take : ℕ} {raws : List ℕ} (ht : take ≤ 128) (hle : raws.length ≤ take)
    (hr : k.ring.head = head → (k.log.drop head).take raws.length = raws) :
    Reads k (Ring.copy head take raws) := by
  unfold Ring.copy
  split
  case isTrue h => exact ⟨ht, h, hr⟩
  case isFalse h =>
    obtain rfl : raws.length = take := by omega
    exact ⟨ht, rfl, hr⟩

theorem loadedHead_copy {head take : ℕ} {raws : List ℕ} :
    loadedHead (Ring.copy head take raws) = some head := by
  unfold Ring.copy
  split <;> rfl

theorem copy_quiet (head take : ℕ) (raws : List ℕ) :
    takes (Ring.copy head take raws) = [] ∧ counts (Ring.copy head take raws) = false := by
  unfold Ring.copy
  split <;> exact ⟨rfl, rfl⟩

/-- An exchange of `head` in time finds it unmoved. -/
theorem Good.head_eq {head : ℕ} (h : Good k mark pc) (he : k.Exact) (hs : loadedHead pc = some head)
    (htime : k.ops < mark + 2 ^ Ring.wordBits) :
    k.ring.head < head + 2 ^ Ring.wordBits := by
  have hsince := h.since head hs
  have hb := he.bounded.head_le
  unfold Ring.wordBits Ring.localQueue at *
  omega

/-- A `head` loaded in time that is the word in `tail` is `tail`. -/
theorem Good.head_eq_tail {head : ℕ} (h : Good k mark (.popTail head)) (he : k.Exact)
    (htime : k.ops < mark + 2 ^ Ring.wordBits)
    (heq : head % 2 ^ Ring.wordBits = k.ring.tail % 2 ^ Ring.wordBits) :
    k.ring.head = k.ring.tail := by
  have hsince := h.since head rfl
  have hle : head ≤ k.ring.head := h.fits
  have hb := he.bounded.head_le
  have hroom := he.bounded.tail_le
  unfold Ring.wordBits Ring.localQueue at *
  omega

/-- What a step leaves. -/
structure Stepped (k : Kept) (pc : Ring.Pc) (k' : Kept) (mark' : ℕ) (pc' : Ring.Pc) : Prop where
  exact : k'.Exact
  good : Good k' mark' pc'
  later : Later pc.pushes k k'

/-- A step that writes nothing. -/
theorem Stepped.quiet {mark' : ℕ} (he : k.Exact) (hp : puts pc = []) (ht : takes pc' = [])
    (hc : counts pc' = false) (hg : Good k mark' pc') :
    Stepped k pc (k.after pc pc' k.ring) mark' pc' := by
  have hk : k.after pc pc' k.ring = k := by
    rw [Kept.after, hp, ht, hc, List.append_nil, List.append_nil]
    rfl
  rw [hk]
  exact ⟨he, hg, le_rfl, le_rfl, List.prefix_refl _, by omega, fun _ => ⟨rfl, rfl⟩⟩

/-- A cell is written only when the last entry in it has been taken. -/
theorem cell_ne {head tail i : ℕ} (hroom : tail < head + Ring.localQueue) (hi : head ≤ i)
    (hlt : i < tail) : i % Ring.localQueue ≠ tail % Ring.localQueue := by
  unfold Ring.localQueue at *
  omega

/-- The owner writes the cell at `tail`. -/
theorem Kept.Exact.write (he : k.Exact) {raw : ℕ}
    (hroom : k.ring.tail < k.ring.head + Ring.localQueue) :
    Kept.Exact { k with ring := { k.ring with
      cells := update k.ring.cells (k.ring.tail % Ring.localQueue) raw } } := by
  refine ⟨⟨he.bounded.head_le, he.bounded.tail_le⟩, he.length, he.out, ?_⟩
  intro i hi hlt
  rw [he.cells i hi hlt]
  exact congrArg some (update_of_ne (cell_ne hroom hi hlt) ..).symm

/-- The owner moves `tail` over the cell it has written. -/
theorem Kept.Exact.publish (he : k.Exact) {raw n : ℕ} (hcell : k.ring.cell k.ring.tail = raw)
    (hb : Ring.Mem.Bounded { k.ring with tail := k.ring.tail + 1 }) :
    Kept.Exact ⟨{ k.ring with tail := k.ring.tail + 1 }, k.log ++ [raw], k.out ++ [], n⟩ := by
  have hlen := he.length
  have hle := he.bounded.head_le
  refine ⟨hb, ?_, ?_, ?_⟩
  · rw [List.length_append, hlen]
    rfl
  · rw [List.append_nil, he.out]
    exact (List.take_append_of_le_length (hlen ▸ hle)).symm
  · intro i hi hlt
    rcases Nat.lt_succ_iff_lt_or_eq.mp hlt with hlt | rfl
    · rw [List.getElem?_append_left (hlen ▸ hlt)]
      exact he.cells i hi hlt
    · rw [List.getElem?_append_right hlen.le, hlen, Nat.sub_self]
      exact congrArg some hcell.symm

/-- Taking what is at `head`, in the order it was pushed. -/
theorem Kept.Exact.take (he : k.Exact) {n ops : ℕ} {raws : List ℕ}
    (hraws : (k.log.drop k.ring.head).take n = raws)
    (hb : Ring.Mem.Bounded { k.ring with head := k.ring.head + n }) :
    Kept.Exact ⟨{ k.ring with head := k.ring.head + n }, k.log ++ [], k.out ++ raws, ops⟩ := by
  rw [List.append_nil]
  refine ⟨hb, he.length, ?_, ?_⟩
  · rw [he.out, ← hraws]
    exact (List.take_add ..).symm
  · intro i hi hlt
    exact he.cells i (le_trans (Nat.le_add_right _ n) hi) hlt

/-- **What one step of any thread does to a ring.** -/
theorem Kept.step (h : Ring.Step k.ring pc r pc') (he : k.Exact) (hg : Good k mark pc)
    (htime : pc.loaded ≠ none → k.ops < mark + 2 ^ Ring.wordBits) :
    Stepped k pc (k.after pc pc' r) (if loads pc then k.ops else mark) pc' := by
  have hstall : ∀ head, pc.loaded = some head → k.ring.head < head + 2 ^ Ring.wordBits := by
    intro head hl
    refine hg.head_eq he ?_ (htime (hl ▸ nofun))
    cases pc <;> first | (cases hl; rfl) | cases hl
  have hm := h.bounded he.bounded hg.fits hstall
  have hfits := hm.fits
  have hhead := he.bounded.head_le
  have htail := he.bounded.tail_le
  cases h with
  | pushTail raw | pushFull raw tail | pushHead raw tail hlt | popEmpty head _ | popZero head
  | popLost head raw | stealNone head | stealLost head take raws =>
    exact .quiet he rfl rfl rfl ⟨hfits, trivial, nofun⟩
  | pushCell raw tail =>
    obtain ⟨rfl, hroom⟩ := hg.fits
    have hk : k.after (.pushCell raw k.ring.tail) (.pushMove raw k.ring.tail) { k.ring with
        cells := update k.ring.cells (k.ring.tail % Ring.localQueue) raw } =
        { k with ring := { k.ring with
          cells := update k.ring.cells (k.ring.tail % Ring.localQueue) raw } } := by
      rw [Kept.after]
      simp [puts, takes, counts]
    rw [hk]
    refine ⟨he.write hroom, ⟨hfits, update_self .., nofun⟩, ?_⟩
    exact ⟨le_rfl, le_rfl, List.prefix_refl _, by
      show 128 * k.ring.tail + k.ring.head + 128 * k.ops ≤
        128 * k.ops + 128 * k.ring.tail + k.ring.head
      omega, nofun⟩
  | pushMove raw tail =>
    obtain ⟨rfl, hroom⟩ := hg.fits
    refine ⟨he.publish hg.reads hm.bounded, ⟨trivial, trivial, nofun⟩, ?_⟩
    exact ⟨le_rfl, Nat.le_succ _, List.prefix_append .., by
      show 128 * (k.ring.tail + 1) + k.ring.head + 128 * k.ops ≤
        128 * (k.ops + 1) + 128 * k.ring.tail + k.ring.head
      omega, nofun⟩
  | popHead | stealHead =>
    refine .quiet he rfl rfl rfl ⟨hfits, trivial, ?_⟩
    rintro _ ⟨⟩
    show 128 * k.ops + 128 * k.ring.tail + k.ring.head ≤ _
    omega
  | popTail head hne => exact .quiet he rfl rfl rfl ⟨hfits, trivial, hg.since⟩
  | popCell head hne =>
    refine .quiet he rfl rfl rfl ⟨hfits, ?_, hg.since⟩
    intro heq
    exact he.cells head heq.le (hg.fits.2 heq)
  | popWon head raw hsame =>
    obtain rfl := hsame.eq hg.fits.1 (hstall head rfl)
    have hraw : (k.log.drop k.ring.head).take 1 = [raw] := by
      rw [List.take_one, List.head?_drop, hg.reads rfl]
      rfl
    refine ⟨he.take hraw hm.bounded, ⟨trivial, trivial, nofun⟩, ?_⟩
    exact ⟨Nat.le_succ _, le_rfl, List.prefix_append .., by
      show 128 * k.ring.tail + (k.ring.head + 1) + 128 * k.ops ≤
        128 * (k.ops + 1) + 128 * k.ring.tail + k.ring.head
      omega, fun _ => ⟨rfl, rfl⟩⟩
  | stealTail head hne =>
    obtain ⟨ht, hc⟩ := copy_quiet head (Ring.share (wrappingSub Ring.wordBits k.ring.tail head)) []
    refine .quiet he rfl ht hc ⟨hfits, reads_copy ?_ (Nat.zero_le _) fun _ => rfl, ?_⟩
    · exact min_le_right _ _
    · rw [loadedHead_copy]
      exact hg.since
  | stealCell head take raws =>
    obtain ⟨ht, hc⟩ := copy_quiet head take (raws ++ [k.ring.cell (head + raws.length)])
    obtain ⟨htake, hlt, hread⟩ := hg.reads
    have hlen : (raws ++ [k.ring.cell (head + raws.length)]).length = raws.length + 1 := by
      rw [List.length_append]
      rfl
    refine .quiet he rfl ht hc ⟨hfits, reads_copy htake (hlen ▸ hlt) ?_, ?_⟩
    · intro heq
      have hcell : k.log[head + raws.length]? = some (k.ring.cell (head + raws.length)) := by
        have := hg.fits.2 heq
        exact he.cells _ (by omega) (by omega)
      rw [hlen, List.take_add_one, hread heq, List.getElem?_drop, hcell]
      rfl
    · rw [loadedHead_copy]
      exact hg.since
  | stealWon head take raws hsame =>
    obtain rfl := hsame.eq hg.fits.1 (hstall head rfl)
    obtain ⟨htake, hlen, hread⟩ := hg.reads
    refine ⟨he.take (hread rfl) hm.bounded, ⟨trivial, trivial, nofun⟩, ?_⟩
    exact ⟨Nat.le_add_right _ _, le_rfl, List.prefix_append .., by
      show 128 * k.ring.tail + (k.ring.head + take) + 128 * k.ops ≤
        128 * (k.ops + 1) + 128 * k.ring.tail + k.ring.head
      omega, fun _ => ⟨rfl, rfl⟩⟩

end Step

/-! ### The pool -/

section Pool

variable {W : Type*} [DecidableEq W] {m m' : W → Kept} {l l' : Local W} {a : Act W}

/-- A call that has looked at nothing yet. -/
def starts : Ring.Pc → Bool
  | .idle | .pushTail _ | .popHead | .stealHead => true
  | _ => false

theorem good_of_starts {k : Kept} {mark : ℕ} {pc : Ring.Pc} (h : starts pc = true) :
    Good k mark pc := by
  cases pc <;> first | (cases h; done) | exact ⟨trivial, trivial, nofun⟩

/-- The steps: a call or a return, which looks at no ring, or a step on the thread's ring. Only
its owner begins to push to one. -/
inductive Step (m : W → Kept) (l : Local W) : (W → Kept) → Local W → Prop
  | call (l' : Local W) (hs : l'.self = l.self) (hpc : starts l'.pc = true)
      (hp : l'.pc.pushes = true → l'.on = l'.self) : Step m l m l'
  | ring {r : Ring.Mem} {pc' : Ring.Pc} (h : Ring.Step (m l.on).ring l.pc r pc') :
      Step m l (update m l.on ((m l.on).after l.pc pc' r))
        { l with pc := pc', mark := if loads l.pc then (m l.on).ops else l.mark }

theorem step_put (l : Local W) (raws : List ℕ) : Step m l m (l.put raws) := by
  cases raws with
  | nil => exact .call _ rfl rfl nofun
  | cons raw rest => exact .call _ rfl rfl fun _ => rfl

theorem next_step (h : next m l a = some (m', l')) : Step m l m' l' := by
  unfold next at h
  split at h
  case h_1 => exact yield_guard h fun _ => .call _ rfl rfl fun _ => rfl
  case h_2 | h_3 => exact yield_guard h fun _ => .call _ rfl rfl nofun
  case h_4 a =>
    obtain ⟨⟨r, pc'⟩, hs, h⟩ := Option.map_eq_some_iff.mp h
    exact yield (congrArg some h) (.ring (Ring.step_step hs))
  case h_5 won =>
    split at h
    · exact yield h (.call _ rfl (by cases won <;> rfl) (by cases won <;> exact nofun))
    · cases h
  case h_6 =>
    split at h
    case h_1 | h_2 | h_3 => exact yield h (step_put l _)
    case h_4 | h_5 => exact yield h (.call _ rfl rfl nofun)
    case h_6 => cases h

structure Inv (s : Config W (W → Kept) (Local W)) : Prop where
  exact : ∀ v, (s.mem v).Exact
  good : ∀ t, Good (s.mem (s.loc t).on) (s.loc t).mark (s.loc t).pc
  self : ∀ t, (s.loc t).self = t
  own : ∀ t, (s.loc t).pc.pushes = true → (s.loc t).on = t

omit [DecidableEq W] in
theorem Fresh.inv {s : Config W (W → Kept) (Local W)} (h : Fresh s) : Inv s where
  exact v := by
    refine ⟨⟨?_, ?_⟩, ?_, ?_, ?_⟩
    · rw [h.head]
      exact Nat.zero_le _
    · rw [h.tail]
      exact Nat.zero_le _
    · rw [h.log, h.tail]
      rfl
    · rw [h.out, h.log, h.head]
      rfl
    · intro i _ hi
      rw [h.tail] at hi
      exact absurd hi (Nat.not_lt_zero i)
  good t := good_of_starts (by rw [h.idle t]; rfl)
  self := h.self
  own t hp := by rw [h.idle t] at hp; cases hp

theorem Inv.step {s : Config W (W → Kept) (Local W)} {t : W} (hi : Inv s)
    (h : Step s.mem (s.loc t) m' l') (htime : InTime s t a) :
    Inv ⟨m', update s.loc t l'⟩ := by
  cases h with
  | call l' hs hpc hp =>
    refine ⟨hi.exact, ?_, ?_, ?_⟩
    all_goals
      intro u
      rcases eq_or_ne u t with rfl | hu
    · simpa only [update_self] using good_of_starts hpc
    · simpa only [update_of_ne hu] using hi.good u
    · simpa only [update_self] using hs.trans (hi.self u)
    · simpa only [update_of_ne hu] using hi.self u
    · simp only [update_self]
      exact fun hpush => (hp hpush).trans (hs.trans (hi.self u))
    · simpa only [update_of_ne hu] using hi.own u
  | ring h =>
    have hstep := Kept.step h (hi.exact _) (hi.good t) htime
    refine ⟨?_, ?_, ?_, ?_⟩
    all_goals intro u
    · show Kept.Exact (update s.mem (s.loc t).on _ u)
      rcases eq_or_ne u (s.loc t).on with rfl | hu
      · simpa only [update_self] using hstep.exact
      · simpa only [update_of_ne hu] using hi.exact u
    · rcases eq_or_ne u t with rfl | hu
      · simpa only [update_self] using hstep.good
      · simp only [update_of_ne hu]
        by_cases hon : (s.loc u).on = (s.loc t).on
        · rw [hon, update_self]
          refine (hon ▸ hi.good u).later (hi.exact _) hstep.later fun hpush => ?_
          -- both would be the owner
          by_contra hne
          have ht := hi.own t (Bool.eq_true_of_not_eq_false hne)
          exact hu ((hi.own u hpush).symm.trans (hon.trans ht))
        · rw [update_of_ne hon]
          exact hi.good u
    · rcases eq_or_ne u t with rfl | hu
      · simpa only [update_self] using hi.self u
      · simpa only [update_of_ne hu] using hi.self u
    · rcases eq_or_ne u t with rfl | hu
      · simp only [update_self]
        exact fun hpush => hi.own u (h.pushes hpush)
      · simpa only [update_of_ne hu] using hi.own u

/-- What is in the ring, oldest first. -/
def Kept.waiting (k : Kept) : List ℕ :=
  (List.range' k.ring.head (k.ring.tail - k.ring.head)).map k.ring.cell

theorem Kept.Exact.log_eq {k : Kept} (he : k.Exact) : k.log = k.out ++ k.waiting := by
  have hlen := he.length
  have hle := he.bounded.head_le
  refine List.ext_getElem? fun i => ?_
  rw [he.out, Kept.waiting, List.getElem?_append, List.length_take, min_eq_left (hlen ▸ hle)]
  split
  case isTrue hlt => exact (List.getElem?_take_of_lt hlt).symm
  case isFalse hge =>
    rw [List.getElem?_map]
    rcases Nat.lt_or_ge i k.ring.tail with hlt | hge'
    · rw [he.cells i (Nat.le_of_not_lt hge) hlt, List.getElem?_range' (by omega)]
      refine congrArg (fun n => some (k.ring.cell n)) ?_
      omega
    · rw [List.getElem?_eq_none (hlen ▸ hge'), List.getElem?_eq_none]
      · rfl
      · rw [List.length_range']
        omega

/-- **The rings of a pool lose nothing and repeat nothing.** On every ring, what was taken out is
the first part of what was pushed, in that order, and the rest is in its cells; `head` and `tail`
are at most a ring apart. A thread about to write a cell writes none whose entry has not been taken,
a pop comes back with nothing only if there is nothing in the ring, and a thief whose exchange does
not land leaves every ring as it was. -/
theorem rings_exact {s : Config W (W → Kept) (Local W)} (hs : machine.Reach Fresh InTime s) :
    (∀ v, (s.mem v).log = (s.mem v).out ++ (s.mem v).waiting ∧
      (s.mem v).out.length = (s.mem v).ring.head ∧
      wrappingSub Ring.wordBits (s.mem v).ring.tail (s.mem v).ring.head =
        (s.mem v).waiting.length ∧ (s.mem v).waiting.length ≤ Ring.localQueue) ∧
    (∀ t raw tail, (s.loc t).pc = .pushCell raw tail →
      ∀ i, (s.mem (s.loc t).on).ring.head ≤ i → i < (s.mem (s.loc t).on).ring.tail →
        i % Ring.localQueue ≠ tail % Ring.localQueue) ∧
    (∀ t head a m' l', (s.loc t).pc = .popTail head →
      (s.mem (s.loc t).on).ops < (s.loc t).mark + 2 ^ Ring.wordBits →
      next s.mem (s.loc t) a = some (m', l') → l'.pc = .empty →
      (s.mem (s.loc t).on).ring.head = (s.mem (s.loc t).on).ring.tail) ∧
    ∀ t head take raws a m' l', (s.loc t).pc = .stealSwap head take raws →
      next s.mem (s.loc t) a = some (m', l') → l'.pc = .missed → m' = s.mem := by
  have hi : Inv s := by
    refine hs.invariant (fun s h => h.inv) ?_
    intro s t a m' l' hi hok hn
    exact hi.step (next_step hn) hok
  refine ⟨?_, ?_, ?_, ?_⟩
  · intro v
    have he := hi.exact v
    have hle := he.bounded.head_le
    have hroom := he.bounded.tail_le
    have hword : Ring.localQueue < 2 ^ Ring.wordBits := by decide
    have hwait : (s.mem v).waiting.length = (s.mem v).ring.tail - (s.mem v).ring.head := by
      rw [Kept.waiting, List.length_map, List.length_range']
    rw [hwait, wrappingSub_eq hle (by omega)]
    refine ⟨he.log_eq, ?_, rfl, by omega⟩
    rw [he.out, List.length_take, min_eq_left (he.length ▸ hle)]
  · intro t raw tail hpc i hlo hhi
    have hf := (hi.good t).fits
    rw [hpc] at hf
    obtain ⟨rfl, hroom⟩ := hf
    exact cell_ne hroom hlo hhi
  · intro t head a m' l' hpc htime hn hempty
    cases next_step hn with
    | call _ _ hstart _ =>
      rw [hempty] at hstart
      cases hstart
    | ring h =>
      simp only at hempty
      subst hempty
      rw [hpc] at h
      cases h with
      | popEmpty _ heq =>
        exact (hpc ▸ hi.good t).head_eq_tail (hi.exact _) htime heq
  · intro t head take raws a m' l' hpc hn hmissed
    cases next_step hn with
    | call => rfl
    | ring h =>
      simp only at hmissed
      subst hmissed
      rw [hpc] at h ⊢
      cases h
      rw [Kept.after]
      simp [puts, takes, counts]

end Pool

/-- Two workers. -/
def two : Config (Fin 2) (Fin 2 → Kept) (Local (Fin 2)) :=
  ⟨fun _ => ⟨⟨0, 0, fun _ => 0⟩, [], [], 0⟩, fun t => ⟨t, t, .idle, 0, []⟩⟩

theorem fresh_two : Fresh two :=
  ⟨fun _ => rfl, fun _ => rfl, fun _ => rfl, fun _ => rfl, fun _ => rfl, fun _ => rfl⟩

/-- A call, and the steps it takes in the ring. -/
def calling (t : Fin 2) (a : Act (Fin 2)) (n : ℕ) : List (Fin 2 × Act (Fin 2)) :=
  (t, a) :: List.replicate n (t, .ring .go)

/-- The first worker pushes three tasks, the second steals the oldest, and the first pops the next
one. -/
theorem rings_exact_two : ∃ s : Config (Fin 2) (Fin 2 → Kept) (Local (Fin 2)),
    machine.Reach Fresh InTime s ∧ (s.mem 0).log = [5, 6, 7] ∧ (s.mem 0).out = [5, 6] ∧
      (s.mem 1).log = [5] ∧ (s.mem 0).log = (s.mem 0).out ++ (s.mem 0).waiting := by
  obtain ⟨s, hs, hlog, hout, hlog'⟩ : ∃ s : Config (Fin 2) _ _, machine.Reach Fresh InTime s ∧
      (s.mem 0).log = [5, 6, 7] ∧ (s.mem 0).out = [5, 6] ∧ (s.mem 1).log = [5] :=
    (Machine.Reach.init fresh_two).exists_of_run (calling 0 (.push 4) 4 ++ [(0, .go)] ++
      calling 0 (.push 5) 4 ++ [(0, .go)] ++ calling 0 (.push 6) 4 ++ [(0, .go)] ++
      calling 1 (.steal 0) 4 ++ calling 1 .go 4 ++ calling 0 .pop 4) (by decide +kernel)
  exact ⟨s, hs, hlog, hout, hlog', ((rings_exact hs).1 0).1⟩

end Atap.Rings
