import Atap.Pool.Ring

/-!
# How much is waiting for a worker

`backlog` reads `tail`, then `head`, then the LIFO slot of a worker, and answers with how far the
two words are apart and one more if the slot is filled. Any thread may ask, while the owner pushes
and pops and while others steal.

* `backlog_le`: the answer is at most one more than there are cells, provided that `head` has not
  passed the `tail` that was loaded by the time it is loaded itself (`Current`), and that no
  exchange of `head` comes a full turn late (`InTime`).
* `backlog_huge`: without the first, it can be `2 ^ 32 - 1`. The owner pushes once more, and both
  entries are taken between the two loads.
-/

namespace Atap.Backlog

open Function

/-- What a worker has for the tasks that wait for it. -/
structure Mem where
  ring : Ring.Mem
  /-- The LIFO slot, zero or the id of a task plus one. -/
  lifo : ℕ

inductive Pc
  | idle
  /-- In `push`, `pop` or `steal_into`. -/
  | ring (pc : Ring.Pc)
  /-- `put_lifo`, before the exchange. -/
  | putLifo (id : ℕ)
  /-- `take_lifo`, before the swap. -/
  | takeLifo
  /-- `backlog`, before the load of `tail`. -/
  | backTail
  /-- `backlog`, before the load of `head`. -/
  | backHead (tail : ℕ)
  /-- `backlog`, before the load of the slot. -/
  | backLifo (apart : ℕ)
  /-- `backlog` has answered. -/
  | counted (value : ℕ)
  deriving DecidableEq

/-- A thread, and whether it is the one that owns the worker. -/
structure Local where
  owner : Bool
  pc : Pc
  deriving DecidableEq

inductive Act
  /-- The calls an idle thread makes. -/
  | push (id : ℕ)
  | pop
  | steal
  | put (id : ℕ)
  | take
  | backlog
  /-- A step in the ring. -/
  | ring (a : Ring.Act)
  /-- `pop` has claimed the task it took, or goes on to the next one. -/
  | claim (won : Bool)
  | go
  deriving DecidableEq

/-- A call returns. -/
def returned : Ring.Pc → Bool
  | .pushed | .full _ | .empty | .stole _ | .missed => true
  | _ => false

def next (m : Mem) (l : Local) : Act → Option (Mem × Local)
  -- only the owner may push
  | .push id =>
    if l.owner = true ∧ l.pc = .idle then some (m, { l with pc := .ring (.pushTail (id + 1)) })
    else none
  | .pop => if l.pc = .idle then some (m, { l with pc := .ring .popHead }) else none
  | .steal => if l.pc = .idle then some (m, { l with pc := .ring .stealHead }) else none
  | .put id => if l.pc = .idle then some (m, { l with pc := .putLifo id }) else none
  | .take => if l.pc = .idle then some (m, { l with pc := .takeLifo }) else none
  | .backlog => if l.pc = .idle then some (m, { l with pc := .backTail }) else none
  | .ring a =>
    match l.pc with
    | .ring pc =>
      (Ring.step m.ring pc a).map fun r => ({ m with ring := r.1 }, { l with pc := .ring r.2 })
    | _ => none
  | .claim won =>
    match l.pc with
    | .ring (.popped _) => some (m, { l with pc := if won then .idle else .ring .popHead })
    | _ => none
  | .go =>
    match l.pc with
    | .ring pc => if returned pc then some (m, { l with pc := .idle }) else none
    | .putLifo id =>
      some (if m.lifo = 0 then { m with lifo := id + 1 } else m, { l with pc := .idle })
    | .takeLifo => some ({ m with lifo := 0 }, { l with pc := .idle })
    | .backTail => some (m, { l with pc := .backHead m.ring.tail })
    | .backHead tail =>
      some (m, { l with pc := .backLifo (wrappingSub Ring.wordBits tail m.ring.head) })
    | .backLifo apart =>
      some (m, { l with pc := .counted (apart + if m.lifo ≠ 0 then 1 else 0) })
    | .counted _ => some (m, { l with pc := .idle })
    | .idle => none

def machine : Machine Mem Local Act := ⟨next⟩

/-! ### What a step can do -/

/-- The calls that have loaded nothing yet, and the return from one. -/
def Pc.blank : Pc → Bool
  | idle | ring .popHead | ring .stealHead | putLifo _ | takeLifo | backTail => true
  | _ => false

/-- The steps, by what they have to do with the counts. -/
inductive Step (m : Mem) (owner : Bool) : Pc → Mem → Pc → Prop
  | push (raw : ℕ) (h : owner = true) : Step m owner .idle m (.ring (.pushTail raw))
  | blank {pc : Pc} (lifo : ℕ) (pc' : Pc) (h : pc'.blank = true) :
      Step m owner pc { m with lifo := lifo } pc'
  | ring {pc pc' : Ring.Pc} {r : Ring.Mem} (h : Ring.Step m.ring pc r pc') :
      Step m owner (.ring pc) { m with ring := r } (.ring pc')
  | backTail : Step m owner .backTail m (.backHead m.ring.tail)
  | backHead (tail : ℕ) :
      Step m owner (.backHead tail) m (.backLifo (wrappingSub Ring.wordBits tail m.ring.head))
  | backLifo (apart one : ℕ) (h : one ≤ 1) :
      Step m owner (.backLifo apart) m (.counted (apart + one))

theorem next_step {m m' : Mem} {l l' : Local} {a : Act} (h : next m l a = some (m', l')) :
    Step m l.owner l.pc m' l'.pc ∧ l'.owner = l.owner := by
  unfold next at h
  split at h
  case h_1 id =>
    obtain ⟨⟨ho, hpc⟩, h⟩ := Option.ite_none_right_eq_some.mp h
    cases h
    rw [hpc]
    exact ⟨.push _ ho, rfl⟩
  case h_7 =>
    split at h
    case h_1 pc hpc =>
      obtain ⟨⟨r, pc'⟩, hs, h⟩ := Option.map_eq_some_iff.mp h
      cases h
      rw [hpc]
      exact ⟨.ring (Ring.step_step hs), rfl⟩
    case h_2 => cases h
  case h_8 won =>
    split at h
    case h_1 =>
      cases h
      exact ⟨.blank m.lifo _ (by cases won <;> rfl), rfl⟩
    case h_2 => cases h
  case h_9 =>
    split at h
    case h_1 =>
      obtain ⟨-, h⟩ := Option.ite_none_right_eq_some.mp h
      cases h
      exact ⟨.blank m.lifo _ rfl, rfl⟩
    case h_2 id _ =>
      cases h
      split
      · exact ⟨.blank (id + 1) _ rfl, rfl⟩
      · exact ⟨.blank m.lifo _ rfl, rfl⟩
    case h_3 =>
      cases h
      exact ⟨.blank 0 _ rfl, rfl⟩
    case h_4 hpc =>
      cases h
      rw [hpc]
      exact ⟨.backTail, rfl⟩
    case h_5 tail hpc =>
      cases h
      rw [hpc]
      exact ⟨.backHead tail, rfl⟩
    case h_6 apart hpc =>
      cases h
      rw [hpc]
      exact ⟨.backLifo apart _ (by split <;> decide), rfl⟩
    case h_7 =>
      cases h
      exact ⟨.blank m.lifo _ rfl, rfl⟩
    case h_8 => cases h
  all_goals
    obtain ⟨-, h⟩ := Option.ite_none_right_eq_some.mp h
    cases h
    exact ⟨.blank m.lifo _ rfl, rfl⟩

/-! ### What holds throughout -/

/-- The thread has begun a `push`. -/
def Pc.pushes : Pc → Bool
  | ring pc => pc.pushes
  | _ => false

/-- What a thread has loaded, against what is there now. -/
def Pc.Fits (m : Mem) : Pc → Prop
  | ring pc => pc.Fits m.ring
  | backHead tail => tail ≤ m.ring.tail
  | backLifo apart => apart ≤ Ring.localQueue
  | counted value => value ≤ Ring.localQueue + 1
  | _ => True

theorem Pc.fits_of_blank {m : Mem} {pc : Pc} (h : pc.blank = true) : pc.Fits m := by
  unfold blank at h
  split at h <;> trivial

theorem Pc.Fits.mono {m m' : Mem} {pc : Pc} (h : pc.Fits m) (hh : m.ring.head ≤ m'.ring.head)
    (ht : m.ring.tail ≤ m'.ring.tail) (hp : pc.pushes = true → m'.ring.tail = m.ring.tail) :
    pc.Fits m' := by
  cases pc with
  | ring pc => exact Ring.Pc.Fits.mono h hh ht hp
  | backHead tail => exact le_trans h ht
  | backLifo apart => exact h
  | counted value => exact h
  | _ => trivial

variable {T : Type*}

structure Inv (s : Config T Mem Local) : Prop where
  bounded : s.mem.ring.Bounded
  fits : ∀ t, (s.loc t).pc.Fits s.mem
  /-- Only the owner pushes. -/
  pushes : ∀ t, (s.loc t).pc.pushes = true → (s.loc t).owner = true
  alone : ∀ t u, (s.loc t).owner = true → (s.loc u).owner = true → t = u

/-- The count an exchange of `head` is for. -/
def Pc.loaded : Pc → Option ℕ
  | ring pc => pc.loaded
  | _ => none

/-- The `tail` an answer counts from. -/
def Pc.since : Pc → Option ℕ
  | backHead tail => some tail
  | _ => none

/-- No exchange of `head` comes a full turn after the load it is for. -/
def InTime (s : Config T Mem Local) (t : T) : Prop :=
  ∀ head ∈ (s.loc t).pc.loaded, s.mem.ring.head < head + 2 ^ Ring.wordBits

/-- When `backlog` loads `head`, it has not passed the `tail` loaded before. -/
def Current (s : Config T Mem Local) (t : T) : Prop :=
  ∀ tail ∈ (s.loc t).pc.since, s.mem.ring.head ≤ tail

instance (s : Config T Mem Local) (t : T) : Decidable (InTime s t) :=
  inferInstanceAs (Decidable (∀ _ ∈ _, _))

instance (s : Config T Mem Local) (t : T) : Decidable (Current s t) :=
  inferInstanceAs (Decidable (∀ _ ∈ _, _))

/-- What a step does to the counts, and what its thread has loaded after it. -/
theorem Step.moved {m m' : Mem} {o : Bool} {pc pc' : Pc} (h : Step m o pc m' pc')
    (hb : m.ring.Bounded) (hf : pc.Fits m)
    (htime : ∀ head ∈ pc.loaded, m.ring.head < head + 2 ^ Ring.wordBits)
    (hcur : ∀ tail ∈ pc.since, m.ring.head ≤ tail) :
    m'.ring.Bounded ∧ pc'.Fits m' ∧ m.ring.head ≤ m'.ring.head ∧ m.ring.tail ≤ m'.ring.tail ∧
      (pc.pushes = false → m'.ring.tail = m.ring.tail) := by
  cases h with
  | push raw => exact ⟨hb, trivial, le_rfl, le_rfl, fun _ => rfl⟩
  | blank lifo pc' hblank => exact ⟨hb, Pc.fits_of_blank hblank, le_rfl, le_rfl, fun _ => rfl⟩
  | ring hs =>
    obtain ⟨hb', hf', hh, ht, he⟩ := hs.bounded hb hf htime
    exact ⟨hb', hf', hh, ht, he⟩
  | backTail => exact ⟨hb, le_rfl, le_rfl, le_rfl, fun _ => rfl⟩
  | backHead tail =>
    refine ⟨hb, ?_, le_rfl, le_rfl, fun _ => rfl⟩
    -- the tail that was loaded is between the two counts of now
    have hhead := hcur tail rfl
    have htail : tail ≤ m.ring.tail := hf
    have hroom := hb.tail_le
    have hword : Ring.localQueue < 2 ^ Ring.wordBits := by decide
    show wrappingSub Ring.wordBits tail m.ring.head ≤ Ring.localQueue
    rw [wrappingSub_eq hhead (by omega)]
    omega
  | backLifo apart one hone =>
    exact ⟨hb, Nat.add_le_add hf hone, le_rfl, le_rfl, fun _ => rfl⟩

/-- A thread that begins to push is the owner. -/
theorem Step.pushes {m m' : Mem} {o : Bool} {pc pc' : Pc} (h : Step m o pc m' pc')
    (hp : pc'.pushes = true) : o = true ∨ pc.pushes = true := by
  cases h with
  | push raw ho => exact .inl ho
  | blank lifo pc' hblank =>
    exfalso
    unfold Pc.blank at hblank
    split at hblank
    all_goals first | cases hp | cases hblank
  | ring hs => exact .inr (hs.pushes hp)
  | _ => cases hp

theorem Inv.step [DecidableEq T] {s : Config T Mem Local} {t : T} {m' : Mem} {l' : Local}
    (hi : Inv s) (h : Step s.mem (s.loc t).owner (s.loc t).pc m' l'.pc)
    (ho : l'.owner = (s.loc t).owner) (htime : InTime s t) (hcur : Current s t) :
    Inv ⟨m', update s.loc t l'⟩ := by
  obtain ⟨hb, hf, hh, ht, he⟩ := h.moved hi.bounded (hi.fits t) htime hcur
  -- no other thread is in a push if this one moves `tail`
  have htail {u : T} (hu : u ≠ t) (hp : (s.loc u).pc.pushes = true) :
      m'.ring.tail = s.mem.ring.tail := by
    cases hpt : (s.loc t).pc.pushes with
    | false => exact he hpt
    | true => exact absurd (hi.alone u t (hi.pushes u hp) (hi.pushes t hpt)) hu
  have howner (u : T) : (update s.loc t l' u).owner = (s.loc u).owner := by
    by_cases hu : u = t
    · subst hu
      rw [update_self, ho]
    · rw [update_of_ne hu]
  refine ⟨hb, ?_, ?_, ?_⟩
  · intro u
    by_cases hu : u = t
    · subst hu
      simpa only [update_self] using hf
    · simpa only [update_of_ne hu] using (hi.fits u).mono hh ht (htail hu)
  · intro u hp
    simp only [howner]
    by_cases hu : u = t
    · subst hu
      simp only [update_self] at hp
      rcases h.pushes hp with howns | hpush
      · exact howns
      · exact hi.pushes u hpush
    · simp only [update_of_ne hu] at hp
      exact hi.pushes u hp
  · intro u v hu hv
    simp only [howner] at hu hv
    exact hi.alone u v hu hv

/-- A worker as it is made, with at most one thread that owns it. -/
structure Fresh (s : Config T Mem Local) : Prop where
  head : s.mem.ring.head = 0
  tail : s.mem.ring.tail = 0
  idle : ∀ t, (s.loc t).pc = .idle
  alone : ∀ t u, (s.loc t).owner = true → (s.loc u).owner = true → t = u

theorem Fresh.inv {s : Config T Mem Local} (h : Fresh s) : Inv s where
  bounded := ⟨by rw [h.head]; exact Nat.zero_le _, by rw [h.tail]; exact Nat.zero_le _⟩
  fits t := by rw [h.idle t]; trivial
  pushes t hp := by rw [h.idle t] at hp; cases hp
  alone := h.alone

/-- **No worker has more waiting than it has room for.** Whatever is pushed, popped, stolen, put in
the LIFO slot or taken from it meanwhile, an answer of `backlog` is at most one more than the ring
has cells, if `head` has never passed the `tail` an answer counts from when it is loaded. -/
theorem backlog_le [DecidableEq T] {s : Config T Mem Local}
    (hs : machine.Reach Fresh (fun s t _ => InTime s t ∧ Current s t) s) {t : T} {value : ℕ}
    (h : (s.loc t).pc = .counted value) : value ≤ Ring.localQueue + 1 := by
  have hi : Inv s := by
    refine hs.invariant (fun s hfresh => hfresh.inv) ?_
    intro s t a m' l' hi hok hn
    obtain ⟨hstep, ho⟩ := next_step hn
    exact hi.step hstep ho hok.1 hok.2
  have hf := hi.fits t
  rw [h] at hf
  exact hf

/-- A worker and somebody who asks. -/
abbrev Pair := Config (Fin 2) Mem Local

/-- The first of two threads owns the worker. -/
def pair : Pair := ⟨⟨⟨0, 0, fun _ => 0⟩, 0⟩, fun t => ⟨t = 0, .idle⟩⟩

theorem fresh_pair : Fresh pair := by
  refine ⟨rfl, rfl, fun _ => rfl, ?_⟩
  intro t u ht hu
  exact (of_decide_eq_true ht).trans (of_decide_eq_true hu).symm

/-- The owner pushes a task. -/
def pushing (id : ℕ) : List (Fin 2 × Act) :=
  [(0, .push id), (0, .ring .go), (0, .ring .go), (0, .ring .go), (0, .ring .go), (0, .go)]

/-- The owner takes the oldest task. -/
def popping : List (Fin 2 × Act) :=
  [(0, .pop), (0, .ring .go), (0, .ring .go), (0, .ring .go), (0, .ring .go), (0, .claim true)]

/-- Two tasks are pushed and one is put in the slot before the other thread asks. -/
theorem backlog_le_pair : ∃ s : Pair,
    machine.Reach Fresh (fun s t _ => InTime s t ∧ Current s t) s ∧
      (s.loc 1).pc = .counted 3 ∧ 3 ≤ Ring.localQueue + 1 := by
  obtain ⟨s, hs, h⟩ : ∃ s, machine.Reach Fresh (fun s t _ => InTime s t ∧ Current s t) s ∧
      (s.loc (1 : Fin 2)).pc = .counted 3 :=
    (Machine.Reach.init fresh_pair).exists_of_run (pushing 4 ++ pushing 5 ++
      [(0, .put 6), (0, .go), (1, .backlog), (1, .go), (1, .go), (1, .go)]) (by decide +kernel)
  exact ⟨s, hs, h, backlog_le hs h⟩

/-- One task is there when `tail` is loaded. The owner pushes another and takes both, and only then
is `head` loaded: it is one ahead. -/
theorem backlog_huge : ∃ s : Pair, machine.Reach Fresh Machine.unguarded s ∧
    (s.loc 1).pc = .counted (2 ^ 32 - 1) := by
  refine (Machine.Reach.init fresh_pair).exists_of_run (pushing 4 ++ [(1, .backlog), (1, .go)] ++
    pushing 5 ++ popping ++ popping ++ [(1, .go), (1, .go)]) ?_
  decide +kernel

end Atap.Backlog
