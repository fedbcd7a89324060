import Atap.Pool.Fifo
import Mathlib.Data.List.MinMax

/-!
# The aging pass

A task is stamped with a count of all spawns when it is spawned, and keeps the stamp for good. The
manager looks at the heads of the served sides, takes the one with the smallest stamp, and finds the
queue starving if more than `STARVE_AGE` tasks were spawned up to now since that stamp. If so, it
moves that task up a band and lets the next pops prefer the oldest.

The calls are made one after another: what a call does to the bands is that of `Shared.result`.
Spawning is two steps, the stamp and the put, as a task may be stamped and go elsewhere: to a ring,
a LIFO slot, the blocking queue, or a wait; and a task may be put again with the stamp it has.

The age of a task is how many were **spawned** since, where the purpose is how many were **queued**
since it was put. The two agree, up to one, as long as every spawned task is put here, and only
those are (`Inv.age`): from the last step on that was something else (`odd`). After a repeat is
queued again they have nothing to do with each other (`requeued_starves`).

* `oldest_spec`: the head with the smallest stamp.
* `Inv`, kept by every call.
* `starving_pass`: if the heads that are too old, by either count, were put since then, a pass finds
  the queue starving just when it is, and promotes the task that waited longest.

`fresh`, `puts`, `putAt` and `odd` are histories; no call reads them.
-/

namespace Atap.Aging

open Function

open Injector (Band)
open Shared (Alone Bands Exec Filled waiting)

/-- `STARVE_AGE`. -/
def starveAge : ℕ := 1000000

/-- `STARVE_RELIEF`. -/
def starveRelief : ℕ := 64

/-- `PRIORITY_BAND_SHIFT`. -/
def priorityBandShift : ℕ := 6

/-- `PRIORITY_CLASS_SHIFT`: the bits of a packed priority that hold the sequence. -/
def priorityClassShift : ℕ := 56

/-- The shared queue, the priorities of the tasks, and what was done so far. -/
structure Mem where
  shared : Shared.Mem
  /-- `SEQUENCE`. -/
  sequence : ℕ
  priorityClass : ℕ → Fin 256
  prioritySequence : ℕ → ℕ
  /-- The oldest first pops that are left. -/
  relief : ℕ
  /-- What `grow` is told. -/
  starving : Bool
  /-- The task that was stamped last, until it is put. -/
  fresh : Option ℕ
  /-- How often a task was put. -/
  puts : ℕ
  /-- How many puts there were before the last one of the task. -/
  putAt : ℕ → ℕ
  /-- How many puts there were when a task was last put with an old stamp, or turned out to have
  gone elsewhere. -/
  odd : ℕ

namespace Mem

variable (m : Mem)

/-- The band that serves a task's class, as `push` takes it. -/
def band (id : ℕ) : Band :=
  ⟨min ((m.priorityClass id).val >>> priorityBandShift) (Injector.priorityBands - 1),
    (min_le_right _ _).trans_lt (by decide)⟩

/-- `TaskData::age`, now. -/
def age (id : ℕ) : ℕ := m.sequence - m.prioritySequence id

/-- The heads of the served sides, with their bands. -/
def heads : List (Band × ℕ) :=
  (List.finRange Injector.priorityBands).filterMap fun b =>
    match m.shared.queue.ready b with
    | 0 => none
    | id + 1 => some (b, id)

/-- `Injector::oldest`: the first of those with the smallest stamp. -/
def oldest : Option (Band × ℕ) := m.heads.argmin fun e => m.prioritySequence e.2

/-- The band that `pop` prefers, if there is relief. -/
def prefers : Option Band := if m.relief ≠ 0 then m.oldest.map Prod.fst else none

/-- How many tasks were put since the task was. -/
def since (id : ℕ) : ℕ := m.puts - (m.putAt id + 1)

/-- A task is stamped and not put yet. -/
def pending : ℕ := m.fresh.isSome.toNat

/-! ### The calls -/

/-- A task is spawned, and gets its stamp. -/
def spawn (id : ℕ) (cls : Fin 256) : Mem :=
  { m with
    sequence := (m.sequence + 1) % 2 ^ 64
    priorityClass := update m.priorityClass id cls
    prioritySequence := update m.prioritySequence id (m.sequence % 2 ^ priorityClassShift)
    fresh := some id
    odd := if m.fresh = none then m.odd else m.puts }

/-- A task is put in the shared queue, which leaves `s` behind. -/
def put (id : ℕ) (s : Shared.Mem) : Mem :=
  { m with
    shared := s
    fresh := if m.fresh = some id then none else m.fresh
    puts := m.puts + 1
    putAt := update m.putAt id m.puts
    odd := if m.fresh = some id then m.odd else m.puts + 1 }

/-- A pop that leaves `s` behind and comes back with `r`. Relief is spent on a task of the band that
is preferred. -/
def pop (s : Shared.Mem) (r : Option (ℕ × Band)) : Mem :=
  { m with
    shared := s
    relief := if m.prefers.isSome ∧ r.map Prod.snd = m.prefers then m.relief - 1 else m.relief }

/-- `set_starving`, and the same for `grow`. -/
def setStarving (starving : Bool) : Mem :=
  { m with
    relief := if starving then starveRelief else 0
    starving := starving }

end Mem

/-- `WorkerPool::age`. -/
inductive Ages (m : Mem) : Mem → Prop
  | empty (h : m.oldest = none) : Ages m (m.setStarving false)
  | young (b : Band) (id : ℕ) (h : m.oldest = some (b, id)) (hage : ¬ starveAge < m.age id) :
      Ages m (m.setStarving false)
  | old (b : Band) (id : ℕ) (h : m.oldest = some (b, id)) (hage : starveAge < m.age id)
      (s : Shared.Mem) (r : Option (ℕ × Band)) (he : Exec m.shared (.promote b) s r) :
      Ages m { m.setStarving true with shared := s }

inductive Op
  | spawn (id : ℕ) (cls : Fin 256)
  | put (id : ℕ)
  | pop
  | popFrom (b : Band)
  /-- The first two calls of `tick`. -/
  | pass
  deriving DecidableEq

/-- What a call can do. A task is spawned in a slot that is not queued. -/
inductive Does (m : Mem) : Op → Mem → Prop
  | spawn (id : ℕ) (cls : Fin 256) (h : m.shared.marked id = false) :
      Does m (.spawn id cls) (m.spawn id cls)
  | put (id : ℕ) (s : Shared.Mem) (r : Option (ℕ × Band))
      (he : Exec m.shared (.push id (m.band id)) s r) : Does m (.put id) (m.put id s)
  | pop (s : Shared.Mem) (r : Option (ℕ × Band)) (he : Exec m.shared (.pop m.prefers) s r) :
      Does m .pop (m.pop s r)
  | popFrom (b : Band) (s : Shared.Mem) (r : Option (ℕ × Band))
      (he : Exec m.shared (.popFrom b) s r) : Does m (.popFrom b) { m with shared := s }
  | pass (s : Shared.Mem) (r : Option (ℕ × Band)) (m' : Mem) (he : Exec m.shared .refill s r)
      (h : Ages { m with shared := s } m') : Does m .pass m'

/-- Nothing was done yet. -/
structure Fresh (m : Mem) : Prop where
  shared : Shared.Fresh (⟨m.shared, fun _ => .ret none⟩ : Config Unit Shared.Mem Shared.Local)
  sequence : m.sequence = 0
  relief : m.relief = 0
  starving : m.starving = false
  fresh : m.fresh = none

/-- The sequence does not outgrow its bits. -/
def Bounded (m : Mem) : Op → Prop
  | .spawn .. => m.sequence + 1 < 2 ^ priorityClassShift
  | _ => True

/-- A history of calls. -/
inductive Ran : Mem → Prop
  | fresh {m : Mem} (h : Fresh m) : Ran m
  | call {m m' : Mem} {a : Op} (h : Ran m) (hb : Bounded m a) (hd : Does m a m') : Ran m'

/-! ### What the calls keep -/

/-- What holds between two calls. -/
structure Inv (m : Mem) : Prop where
  alone : Alone m.shared (.ret none)
  sequence : m.sequence < 2 ^ priorityClassShift
  fresh : ∀ id, m.fresh = some id → m.prioritySequence id + 1 = m.sequence
  putAt : ∀ id, m.shared.marked id = true → m.putAt id < m.puts
  /-- **As many were spawned as were put** since a task was put, if that was after all that was odd;
  but for the one that is still to be put. -/
  stamp : ∀ id, m.shared.marked id = true → m.odd ≤ m.putAt id →
    m.prioritySequence id + m.puts + m.pending = m.sequence + m.putAt id

section Steps

variable {m m' : Mem} {id : ℕ}

theorem Fresh.inv (h : Fresh m) : Inv m where
  alone := ⟨h.shared.inv, trivial, trivial⟩
  sequence := h.sequence ▸ Nat.two_pow_pos _
  fresh id hid := by
    rw [h.fresh] at hid
    cases hid
  putAt id hm := by
    rw [show m.shared.marked id = false from h.shared.marked id] at hm
    cases hm
  stamp id hm := by
    rw [show m.shared.marked id = false from h.shared.marked id] at hm
    cases hm

/-- Taking tasks out of the queue, or moving them in it, keeps all of it. -/
theorem Inv.shrink (h : Inv m) {a : Shared.Act} {s : Shared.Mem} {r : Option (ℕ × Band)}
    (he : Exec m.shared a s r) (ha : ∀ id b, a ≠ .push id b) (relief : ℕ) (starving : Bool) :
    Inv { m with shared := s, relief := relief, starving := starving } := by
  have hm : ∀ id, s.marked id = true → m.shared.marked id = true := fun id hid =>
    (h.alone.marked_of_exec he hid).resolve_right fun ⟨b, hb⟩ => ha id b hb
  exact
    { alone := (h.alone.exec he).1.ret
      sequence := h.sequence
      fresh := h.fresh
      putAt := fun id hid => h.putAt id (hm id hid)
      stamp := fun id hid => h.stamp id (hm id hid) }

theorem Inv.spawn (h : Inv m) (cls : Fin 256) (hb : m.sequence + 1 < 2 ^ priorityClassShift)
    (hid : m.shared.marked id = false) : Inv (m.spawn id cls) := by
  have hmod : m.sequence % 2 ^ priorityClassShift = m.sequence := Nat.mod_eq_of_lt h.sequence
  have hnext : (m.sequence + 1) % 2 ^ 64 = m.sequence + 1 :=
    Nat.mod_eq_of_lt (hb.trans (by decide))
  have hne : ∀ id', m.shared.marked id' = true → id' ≠ id := by
    rintro id' hm rfl
    rw [hid] at hm
    cases hm
  refine ⟨h.alone, ?_, ?_, h.putAt, ?_⟩
  · change (m.sequence + 1) % 2 ^ 64 < _
    rwa [hnext]
  · intro id' hid'
    obtain rfl : id = id' := Option.some.inj hid'
    change update m.prioritySequence id _ id + 1 = (m.sequence + 1) % 2 ^ 64
    rw [update_self, hmod, hnext]
  · intro id' hm hodd
    change update m.prioritySequence id _ id' + m.puts + 1 =
      (m.sequence + 1) % 2 ^ 64 + m.putAt id'
    rw [update_of_ne (hne id' hm), hnext]
    change (if m.fresh = none then m.odd else m.puts) ≤ m.putAt id' at hodd
    have hput := h.putAt id' hm
    split at hodd
    case isTrue hfresh =>
      have hstamp := h.stamp id' hm hodd
      rw [Mem.pending, hfresh] at hstamp
      change _ + 0 = _ at hstamp
      omega
    case isFalse => omega

theorem Inv.put (h : Inv m) {s : Shared.Mem} {b : Band} {r : Option (ℕ × Band)}
    (he : Exec m.shared (.push id b) s r) : Inv (m.put id s) := by
  have hm : ∀ id', s.marked id' = true → id' ≠ id → m.shared.marked id' = true := by
    intro id' hid' hne
    refine (h.alone.marked_of_exec he hid').resolve_right ?_
    rintro ⟨b', hb'⟩
    exact hne (Shared.Act.push.inj hb').1.symm
  refine ⟨(h.alone.exec he).1.ret, h.sequence, ?_, ?_, ?_⟩
  · intro id' hfresh
    change (if m.fresh = some id then none else m.fresh) = some id' at hfresh
    split at hfresh
    · cases hfresh
    · exact h.fresh id' hfresh
  · intro id' hid'
    change update m.putAt id m.puts id' < m.puts + 1
    rcases eq_or_ne id' id with rfl | hne
    · rw [update_self]
      exact Nat.lt_succ_self _
    · rw [update_of_ne hne]
      exact Nat.lt_succ_of_lt (h.putAt id' (hm id' hid' hne))
  · intro id' hid' hodd
    change (if m.fresh = some id then m.odd else m.puts + 1) ≤
      update m.putAt id m.puts id' at hodd
    change m.prioritySequence id' + (m.puts + 1) +
        (if m.fresh = some id then none else m.fresh).isSome.toNat =
      m.sequence + update m.putAt id m.puts id'
    rcases eq_or_ne id' id with rfl | hne
    · rw [update_self] at hodd ⊢
      split at hodd
      case isTrue hfresh =>
        have := h.fresh id' hfresh
        rw [if_pos hfresh]
        change _ + 0 = _
        omega
      case isFalse => omega
    · rw [update_of_ne hne] at hodd ⊢
      have hput := h.putAt id' (hm id' hid' hne)
      split at hodd
      case isTrue hfresh =>
        have hstamp := h.stamp id' (hm id' hid' hne) hodd
        rw [Mem.pending, hfresh] at hstamp
        change _ + 1 = _ at hstamp
        rw [if_pos hfresh]
        change _ + 0 = _
        omega
      case isFalse => omega

theorem Inv.call {a : Op} (h : Inv m) (hb : Bounded m a) (hd : Does m a m') : Inv m' := by
  cases hd with
  | spawn id cls hid => exact h.spawn cls hb hid
  | put id s r he => exact h.put he
  | pop s r he | popFrom b s r he => exact h.shrink he nofun _ _
  | pass s r m' he ha =>
    have h₁ := h.shrink he nofun m.relief m.starving
    cases ha with
    | empty => exact ⟨h₁.alone, h₁.sequence, h₁.fresh, h₁.putAt, h₁.stamp⟩
    | young => exact ⟨h₁.alone, h₁.sequence, h₁.fresh, h₁.putAt, h₁.stamp⟩
    | old b id _ _ s' r' he' => exact h₁.shrink he' nofun _ _

theorem Ran.inv (h : Ran m) : Inv m := by
  induction h with
  | fresh h => exact h.inv
  | call _ hb hd ih => exact ih.call hb hd

/-- **The age of a task**, if it was put after all that was odd. -/
theorem Inv.age (h : Inv m) (hm : m.shared.marked id = true) (hodd : m.odd ≤ m.putAt id) :
    m.age id = m.since id + 1 + m.pending := by
  have hput := h.putAt id hm
  have hstamp := h.stamp id hm hodd
  unfold Mem.age Mem.since
  omega

end Steps

/-! ### The pass -/

section Pass

variable {m m' : Mem} {b : Band} {id : ℕ}

theorem mem_heads : (b, id) ∈ m.heads ↔ m.shared.queue.ready b = id + 1 := by
  unfold Mem.heads
  rw [List.mem_filterMap]
  constructor
  · rintro ⟨b', -, hb'⟩
    split at hb'
    · cases hb'
    case h_2 id' h =>
      obtain ⟨rfl, rfl⟩ := Prod.mk.inj (Option.some.inj hb')
      exact h
  · intro h
    refine ⟨b, List.mem_finRange b, ?_⟩
    rw [h]

/-- `oldest` finds the head with the smallest stamp. -/
theorem oldest_spec (h : m.oldest = some (b, id)) :
    m.shared.queue.ready b = id + 1 ∧
      ∀ b' id', m.shared.queue.ready b' = id' + 1 →
        m.prioritySequence id ≤ m.prioritySequence id' := by
  refine ⟨mem_heads.mp (List.argmin_mem h), fun b' id' hb' => ?_⟩
  exact List.le_of_mem_argmin (f := fun e : Band × ℕ => m.prioritySequence e.2)
    (mem_heads.mpr hb') h

theorem oldest_none (h : m.oldest = none) : m.shared.queue.ready b = 0 := by
  have hnil : m.heads = [] := List.argmin_eq_none.mp h
  cases hb : m.shared.queue.ready b with
  | zero => rfl
  | succ id =>
    have hmem := mem_heads.mpr hb
    rw [hnil] at hmem
    cases hmem

/-- After a refill, the head of a served side is the first task of the band. -/
theorem ready_iff_head? (h : Inv m) (hf : Filled m.shared.queue b) :
    m.shared.queue.ready b = id + 1 ↔ (waiting m.shared.queue b).head? = some id := by
  have hlinks := h.alone.whole.ready b
  unfold Filled at hf
  cases hserved : m.shared.queue.served b with
  | nil =>
    rw [hserved] at hlinks
    rw [show m.shared.queue.ready b = 0 from hlinks, hf hserved]
    exact ⟨nofun, nofun⟩
  | cons id' l =>
    rw [hserved] at hlinks
    rw [hlinks.1, waiting, hserved, List.cons_append, List.head?_cons, Option.some_inj,
      Nat.add_right_cancel_iff]

/-- A task is the first of its band. -/
def Mem.Head (m : Mem) (b : Band) (id : ℕ) : Prop := (waiting m.shared.queue b).head? = some id

theorem Mem.Head.marked (hi : Inv m) (h : m.Head b id) : m.shared.marked id = true :=
  (hi.alone.marked_iff id).mpr ⟨b, List.mem_of_mem_head? h⟩

/-- A head that is too old, by its stamp or by what was put since it was, was put after all that was
odd, and is not just at the age; or one short of it while a task is still to be put. -/
def Timely (m : Mem) : Prop :=
  ∀ b id, m.Head b id → starveAge < m.age id ∨ starveAge < m.since id → m.odd ≤ m.putAt id ∧
    (m.since id + m.pending < starveAge ∨ starveAge < m.since id)

/-- The bands after the first task of band `b` was promoted; there is nothing above the highest. -/
def promoted (A : Bands) (b : Band) (id : ℕ) : Bands :=
  if b.val + 1 < Injector.priorityBands then (A.drop b).push (Injector.above b) id else A

/-- What a pass from `m` to `m'` owes to those who wait. -/
structure Relieves (m m' : Mem) : Prop where
  /-- If it finds the queue starving, it promotes the first task that waited longest, and too many
  were put since that was. -/
  starving : m'.starving = true → ∃ b id, m.Head b id ∧
    (∀ b' id', m.Head b' id' → m.putAt id ≤ m.putAt id') ∧ starveAge < m.since id ∧
      waiting m'.shared.queue = promoted (waiting m.shared.queue) b id
  /-- It does if too many were put since one of the first tasks was. -/
  finds : ∀ b id, m.Head b id → starveAge < m.since id → m'.starving = true

theorem age_lt_iff (hi : Inv m) (ht : Timely m) (h : m.Head b id) :
    starveAge < m.age id ↔ starveAge < m.since id := by
  constructor
  · intro hold
    obtain ⟨hodd, hnot⟩ := ht b id h (.inl hold)
    rw [hi.age (h.marked hi) hodd] at hold
    omega
  · intro hold
    rw [hi.age (h.marked hi) (ht b id h (.inr hold)).1]
    omega

/-- Of the heads, the one with the smallest stamp was put first, if it waited for too long. -/
theorem putAt_le (hi : Inv m) (ht : Timely m) {b' : Band} {id' : ℕ} (h : m.Head b id)
    (h' : m.Head b' id') (hold : starveAge < m.since id)
    (hle : m.prioritySequence id ≤ m.prioritySequence id') : m.putAt id ≤ m.putAt id' := by
  by_cases hold' : starveAge < m.since id'
  · have hstamp := hi.stamp id (h.marked hi) (ht b id h (.inr hold)).1
    have hstamp' := hi.stamp id' (h'.marked hi) (ht b' id' h' (.inr hold')).1
    omega
  · unfold Mem.since at hold hold'
    omega

/-- What is promoted is the oldest of the heads, and it is too old. -/
theorem promoted_of_ages (hi : Inv m) (ha : Ages m m') (hs : m'.starving = true) :
    ∃ b id, m.oldest = some (b, id) ∧ starveAge < m.age id ∧
      waiting m'.shared.queue = promoted (waiting m.shared.queue) b id := by
  cases ha with
  | empty => cases hs
  | young => cases hs
  | old b id h hage s r he =>
    refine ⟨b, id, h, hage, ?_⟩
    have hready := (oldest_spec h).1
    obtain ⟨l, hserved, -⟩ := (hi.alone.whole.ready b).eq_cons (hready ▸ Nat.succ_ne_zero id)
    rw [hready, Nat.add_sub_cancel] at hserved
    have hres : waiting s.queue = if b.val + 1 < Injector.priorityBands then
        (waiting m.shared.queue).promote b (m.shared.queue.served b)
      else waiting m.shared.queue := congrArg Prod.fst (hi.alone.exec he).2
    rw [hserved] at hres
    exact hres

/-- The queue is found starving if the oldest of the heads is too old. -/
theorem starving_of_ages (ha : Ages m m') (ho : m.oldest = some (b, id))
    (hage : starveAge < m.age id) : m'.starving = true := by
  cases ha with
  | empty h =>
    rw [ho] at h
    cases h
  | young b' id' h hyoung =>
    rw [ho] at h
    cases h
    exact absurd hage hyoung
  | old => rfl

/-- The pass, from where the refill leaves the queue. -/
theorem relieves_of_ages (hi : Inv m) (hf : ∀ b, Filled m.shared.queue b) (ht : Timely m)
    (ha : Ages m m') : Relieves m m' := by
  have hhead : ∀ b id, m.Head b id ↔ m.shared.queue.ready b = id + 1 := fun b id =>
    (ready_iff_head? hi (hf b)).symm
  constructor
  · intro hs
    obtain ⟨b, id, h, hage, hpromoted⟩ := promoted_of_ages hi ha hs
    obtain ⟨hready, hmin⟩ := oldest_spec h
    have hb := (hhead b id).mpr hready
    have hsince := (age_lt_iff hi ht hb).mp hage
    refine ⟨b, id, hb, fun b' id' hb' => ?_, hsince, hpromoted⟩
    exact putAt_le hi ht hb hb' hsince (hmin b' id' ((hhead b' id').mp hb'))
  · intro b id hb hsince
    have hage := (age_lt_iff hi ht hb).mpr hsince
    cases ho : m.oldest with
    | none =>
      rw [hhead, oldest_none ho] at hb
      cases hb
    | some e =>
      refine starving_of_ages ha ho (hage.trans_le ?_)
      exact Nat.sub_le_sub_left ((oldest_spec ho).2 b id ((hhead b id).mp hb)) m.sequence

/-- A pass refills the bands, which leaves what waits as it is, and then looks at the heads. -/
theorem exists_refilled (hi : Inv m) (hd : Does m .pass m') :
    ∃ s, Inv { m with shared := s } ∧ waiting s.queue = waiting m.shared.queue ∧
      (∀ b, Filled s.queue b) ∧ Ages { m with shared := s } m' := by
  cases hd with
  | pass s r m' he ha =>
    exact ⟨s, hi.shrink he nofun m.relief m.starving, congrArg Prod.fst (hi.alone.exec he).2,
      Shared.filled_of_refill hi.alone he, ha⟩

/-- **A pass finds the queue starving just when it is, and promotes the task that waited longest**,
after any history of calls, if the first tasks of the bands that are too old were put after anything
that was odd, and none is just at the age. -/
theorem starving_pass (h : Ran m) (ht : Timely m) (hd : Does m .pass m') : Relieves m m' := by
  obtain ⟨s, hi₁, hsame, hf, ha⟩ := exists_refilled h.inv hd
  have hhead : ∀ b id, Mem.Head { m with shared := s } b id ↔ m.Head b id := by
    intro b id
    unfold Mem.Head
    rw [hsame]
  have ht₁ : Timely { m with shared := s } := fun b id hb => ht b id ((hhead b id).mp hb)
  obtain ⟨hstarving, hfinds⟩ := relieves_of_ages hi₁ hf ht₁ ha
  constructor
  · intro hs
    obtain ⟨b, id, hb, hmin, hsince, hpromoted⟩ := hstarving hs
    refine ⟨b, id, (hhead b id).mp hb, ?_, hsince, ?_⟩
    · exact fun b' id' hb' => hmin b' id' ((hhead b' id').mpr hb')
    · rw [hpromoted]
      exact congrArg (promoted · b id) hsame
  · exact fun b id hb hsince => hfinds b id ((hhead b id).mpr hb) hsince

/-- A task that alone is the first of its band, and is too old, is promoted. -/
theorem pass_of_sole_head (hi : Inv m) (hh : ∀ b' id', m.Head b' id' ↔ b' = b ∧ id' = id)
    (hage : starveAge < m.age id) (hd : Does m .pass m') :
    m'.starving = true ∧ waiting m'.shared.queue = promoted (waiting m.shared.queue) b id := by
  obtain ⟨s, hi₁, hsame, hf, ha⟩ := exists_refilled hi hd
  have hhead : ∀ b' id', s.queue.ready b' = id' + 1 ↔ b' = b ∧ id' = id := by
    intro b' id'
    rw [ready_iff_head? hi₁ (hf b'), ← hh]
    unfold Mem.Head
    rw [← hsame]
  have ho : Mem.oldest { m with shared := s } = some (b, id) := by
    cases ho : Mem.oldest { m with shared := s } with
    | none =>
      have hready := (hhead b id).mpr ⟨rfl, rfl⟩
      rw [show s.queue.ready b = 0 from oldest_none ho] at hready
      cases hready
    | some e =>
      obtain ⟨b', id'⟩ := e
      obtain ⟨rfl, rfl⟩ := (hhead b' id').mp (oldest_spec ho).1
      rfl
  have hs := starving_of_ages ha ho hage
  obtain ⟨b', id', ho', -, hpromoted⟩ := promoted_of_ages hi₁ ha hs
  rw [ho] at ho'
  obtain ⟨rfl, rfl⟩ := Prod.mk.inj (Option.some.inj ho')
  refine ⟨hs, hpromoted.trans ?_⟩
  exact congrArg (promoted · b id) hsame

/-- A pass comes to an end. -/
theorem exists_pass (hi : Inv m) : ∃ m', Does m .pass m' := by
  obtain ⟨s, r, he⟩ := hi.alone.exists_exec (a := .refill) rfl
  have hi₁ := hi.shrink he nofun m.relief m.starving
  cases ho : Mem.oldest { m with shared := s } with
  | none => exact ⟨_, .pass s r _ he (.empty ho)⟩
  | some e =>
    obtain ⟨b, id⟩ := e
    by_cases hage : starveAge < m.age id
    · obtain ⟨s', r', he'⟩ := hi₁.alone.exists_exec (a := .promote b) rfl
      exact ⟨_, .pass s r _ he (.old b id ho hage s' r' he')⟩
    · exact ⟨_, .pass s r _ he (.young b id ho hage)⟩

end Pass

/-! ### Two histories -/

section Histories

variable {m : Mem} {id : ℕ}

/-- A task that is not queued can be put, and goes to the end of its band. -/
theorem exists_put (hi : Inv m) (hid : m.shared.marked id = false) :
    ∃ s, Does m (.put id) (m.put id s) ∧
      waiting s.queue = (waiting m.shared.queue).push (m.band id) id := by
  have hcall : (Shared.callStep m.shared (.push id (m.band id))).isSome = true := by
    rw [Shared.callStep, if_neg (Bool.eq_false_iff.mp hid)]
    rfl
  obtain ⟨s, r, he⟩ := hi.alone.exists_exec hcall
  exact ⟨s, .put id s r he, congrArg Prod.fst (hi.alone.exec he).2⟩

/-- The tasks `0`, …, `n - 1` were spawned and put in band `0`, in this order. -/
structure Crowd (n : ℕ) (m : Mem) : Prop where
  ran : Ran m
  waiting : waiting m.shared.queue = update (fun _ => []) 0 (List.range n)
  sequence : m.sequence = n
  relief : m.relief = 0
  fresh : m.fresh = none
  puts : m.puts = n
  odd : m.odd = 0
  putAt : ∀ i < n, m.putAt i = i
  stamp : ∀ i < n, m.prioritySequence i = i
  class_eq : ∀ i < n, m.priorityClass i = 0

theorem Crowd.marked {n : ℕ} (h : Crowd n m) : m.shared.marked id = decide (id < n) := by
  rw [Bool.eq_iff_iff, h.ran.inv.alone.marked_iff id, h.waiting, decide_eq_true_iff]
  constructor
  · rintro ⟨b, hid⟩
    rcases eq_or_ne b 0 with rfl | hne
    · rwa [update_self, List.mem_range] at hid
    · rw [update_of_ne hne] at hid
      cases hid
  · intro hid
    exact ⟨0, by rwa [update_self, List.mem_range]⟩

/-- Nothing was done yet. -/
def start : Mem := ⟨Shared.pair.mem, 0, fun _ => 0, fun _ => 0, 0, false, none, 0, fun _ => 0, 0⟩

theorem crowd_start : Crowd 0 start where
  ran := .fresh ⟨⟨Shared.fresh_pair.queue, Shared.fresh_pair.marked, Shared.fresh_pair.pushes,
    Shared.fresh_pair.pops, Shared.fresh_pair.astray, fun _ => rfl⟩, rfl, rfl, rfl, rfl⟩
  waiting := (update_eq_self_iff.mpr rfl).symm
  sequence := rfl
  relief := rfl
  fresh := rfl
  puts := rfl
  odd := rfl
  putAt := nofun
  stamp := nofun
  class_eq := nofun

/-- Another task is spawned and put. -/
theorem Crowd.succ {n : ℕ} (h : Crowd n m) (hn : n + 1 < 2 ^ priorityClassShift) :
    ∃ m', Crowd (n + 1) m' := by
  have hbound : Bounded m (.spawn n 0) := by
    change m.sequence + 1 < _
    rwa [h.sequence]
  have hmarked : m.shared.marked n = false := by
    rw [h.marked]
    exact decide_eq_false (lt_irrefl n)
  have hran : Ran (m.spawn n 0) := h.ran.call hbound (.spawn n 0 hmarked)
  obtain ⟨s, hd, hs⟩ :=
    exists_put hran.inv (show (m.spawn n 0).shared.marked n = false from hmarked)
  have hband : (m.spawn n 0).band n = 0 := by
    unfold Mem.band
    change (⟨min ((update m.priorityClass n 0 n).val >>> _) _, _⟩ : Band) = 0
    simp only [update_self]
    rfl
  have hstamp : (m.sequence + 1) % 2 ^ 64 = n + 1 := by
    rw [h.sequence]
    exact Nat.mod_eq_of_lt (hn.trans (by decide))
  refine ⟨_, hran.call (a := .put n) trivial hd, ?_, hstamp, h.relief, ?_,
    congrArg (· + 1) h.puts, ?_, ?_, ?_, ?_⟩
  · change Shared.waiting s.queue = _
    rw [hs, hband, Bands.push]
    change update (Shared.waiting m.shared.queue) 0
      (Shared.waiting m.shared.queue 0 ++ [n]) = _
    rw [h.waiting, update_self, update_idem, List.range_succ]
  · exact if_pos rfl
  · change (if some n = some n then if m.fresh = none then m.odd else m.puts else m.puts + 1) = 0
    rw [if_pos rfl, if_pos h.fresh]
    exact h.odd
  · intro i hi
    change update m.putAt n m.puts i = i
    rcases Nat.lt_succ_iff_lt_or_eq.mp hi with hi | rfl
    · rw [update_of_ne hi.ne]
      exact h.putAt i hi
    · rw [update_self]
      exact h.puts
  · intro i hi
    change update m.prioritySequence n _ i = i
    rcases Nat.lt_succ_iff_lt_or_eq.mp hi with hi | rfl
    · rw [update_of_ne hi.ne]
      exact h.stamp i hi
    · rw [update_self, h.sequence]
      exact Nat.mod_eq_of_lt ((Nat.lt_succ_self i).trans hn)
  · intro i hi
    change update m.priorityClass n 0 i = 0
    rcases Nat.lt_succ_iff_lt_or_eq.mp hi with hi | rfl
    · rw [update_of_ne hi.ne]
      exact h.class_eq i hi
    · exact update_self ..

theorem exists_crowd {n : ℕ} (hn : n < 2 ^ priorityClassShift) : ∃ m, Crowd n m := by
  induction n with
  | zero => exact ⟨start, crowd_start⟩
  | succ n ih =>
    obtain ⟨m, hm⟩ := ih ((Nat.lt_succ_self n).trans hn)
    exact hm.succ hn

/-- The first task of a crowd is the one that was put first. -/
theorem Crowd.head_iff {n : ℕ} (h : Crowd (n + 1) m) {b : Band} : m.Head b id ↔ b = 0 ∧ id = 0 := by
  unfold Mem.Head
  rw [h.waiting]
  rcases eq_or_ne b 0 with rfl | hne
  · rw [update_self, List.head?_range, if_neg (Nat.succ_ne_zero n), Option.some_inj]
    exact ⟨fun h => ⟨rfl, h.symm⟩, fun h => h.2.symm⟩
  · rw [update_of_ne hne]
    exact ⟨nofun, fun h => absurd h.1 hne⟩

/-- One task waits while more than `STARVE_AGE` others are spawned and put, and is promoted. -/
theorem starving_pass_crowd : ∃ m m', Ran m ∧ Timely m ∧ Does m .pass m' ∧ m'.starving = true ∧
    Relieves m m' := by
  obtain ⟨m, hm⟩ := exists_crowd (n := starveAge + 2) (by decide)
  have hsince : starveAge < m.since 0 := by
    unfold Mem.since
    rw [hm.puts, hm.putAt 0 (Nat.zero_lt_succ _)]
    exact Nat.lt_succ_self _
  have ht : Timely m := by
    intro b id hb _
    obtain ⟨rfl, rfl⟩ := hm.head_iff.mp hb
    exact ⟨hm.odd.trans_le (Nat.zero_le _), .inr hsince⟩
  obtain ⟨m', hd⟩ := exists_pass hm.ran.inv
  have hr := starving_pass hm.ran ht hd
  exact ⟨m, m', hm.ran, ht, hd, hr.finds 0 0 (hm.head_iff.mpr ⟨rfl, rfl⟩) hsince, hr⟩

/-- Tasks that go elsewhere are spawned. -/
theorem exists_spawns (n : ℕ) (h : Ran m) (hm : m.shared.marked 1 = false)
    (hb : m.sequence + n < 2 ^ priorityClassShift) :
    ∃ m', Ran m' ∧ m'.shared = m.shared ∧ m'.sequence = m.sequence + n ∧
      m'.prioritySequence 0 = m.prioritySequence 0 ∧ m'.priorityClass 0 = m.priorityClass 0 := by
  induction n with
  | zero => exact ⟨m, h, rfl, rfl, rfl, rfl⟩
  | succ n ih =>
    obtain ⟨m₁, h₁, hshared, hseq, hstamp, hclass⟩ := ih (by omega)
    have hbound : m₁.sequence + 1 < 2 ^ priorityClassShift := by omega
    refine ⟨m₁.spawn 1 0, h₁.call (a := .spawn 1 0) hbound (.spawn 1 0 (hshared ▸ hm)), hshared, ?_,
      hstamp, hclass⟩
    change (m₁.sequence + 1) % 2 ^ 64 = _
    rw [Nat.mod_eq_of_lt (hbound.trans (by decide)), hseq, Nat.add_assoc]

/-- A repeat is run, `STARVE_AGE` tasks are spawned that go elsewhere, and it is queued again. The
next pass finds the queue starving and promotes it, although no task was put since it was. -/
theorem requeued_starves : ∃ m m', Ran m ∧ m.Head 0 0 ∧ m.since 0 = 0 ∧ Does m .pass m' ∧
    m'.starving = true ∧
      waiting m'.shared.queue = promoted (waiting m.shared.queue) 0 0 := by
  obtain ⟨m₀, h₀⟩ := exists_crowd (n := 1) (by decide)
  have hprefers : m₀.prefers = none := if_neg (not_not.mpr h₀.relief)
  obtain ⟨s, r, he⟩ := h₀.ran.inv.alone.exists_exec (a := .pop m₀.prefers) rfl
  have h₁ : Ran (m₀.pop s r) := h₀.ran.call (a := .pop) trivial (.pop s r he)
  have hempty : waiting s.queue = fun _ => [] := by
    have hres : waiting s.queue =
        ((waiting m₀.shared.queue).serve (m₀.prefers.toList ++ Shared.highestFirst)).1 :=
      congrArg Prod.fst (h₀.ran.inv.alone.exec he).2
    rw [hres, hprefers, h₀.waiting]
    exact update_idem _ _ _ |>.trans (update_eq_self_iff.mpr rfl)
  have hmarked : ∀ id, s.marked id = false := by
    intro id
    refine Bool.eq_false_iff.mpr fun hm => ?_
    obtain ⟨b, hid⟩ := (h₁.inv.alone.marked_iff id).mp hm
    rw [show waiting (m₀.pop s r).shared.queue = _ from hempty] at hid
    cases hid
  have hone : (m₀.pop s r).sequence = 1 := h₀.sequence
  obtain ⟨m₂, h₂, hshared, hseq, hstamp, hclass⟩ :=
    exists_spawns starveAge h₁ (hmarked 1) (by rw [hone]; decide)
  obtain ⟨s₃, hd₃, hs₃⟩ := exists_put h₂.inv
    (show m₂.shared.marked 0 = false by rw [hshared]; exact hmarked 0)
  have h₃ := h₂.call (a := .put 0) trivial hd₃
  have hband : m₂.band 0 = 0 := by
    unfold Mem.band
    simp only [hclass, show (m₀.pop s r).priorityClass 0 = 0 from h₀.class_eq 0 Nat.zero_lt_one]
    rfl
  have hwaiting : waiting s₃.queue = update (fun _ => []) 0 [0] := by
    rw [hs₃, hband, hshared, show waiting (m₀.pop s r).shared.queue = _ from hempty]
    rfl
  have hage : starveAge < (m₂.put 0 s₃).age 0 := by
    change starveAge < m₂.sequence - m₂.prioritySequence 0
    rw [hseq, hstamp, hone,
      show (m₀.pop s r).prioritySequence 0 = 0 from h₀.stamp 0 Nat.zero_lt_one]
    decide
  have hhead : ∀ b id, (m₂.put 0 s₃).Head b id ↔ b = 0 ∧ id = 0 := by
    intro b id
    change (waiting s₃.queue b).head? = some id ↔ _
    rw [hwaiting]
    rcases eq_or_ne b 0 with rfl | hne
    · exact ⟨fun h => ⟨rfl, (Option.some.inj h).symm⟩, fun h => congrArg some h.2.symm⟩
    · rw [update_of_ne hne]
      exact ⟨nofun, fun h => absurd h.1 hne⟩
  obtain ⟨m₄, hd₄⟩ := exists_pass h₃.inv
  refine ⟨_, m₄, h₃, (hhead 0 0).mpr ⟨rfl, rfl⟩, ?_, hd₄, pass_of_sole_head h₃.inv hhead hage hd₄⟩
  change m₂.puts + 1 - (update m₂.putAt 0 m₂.puts 0 + 1) = 0
  rw [update_self, Nat.sub_self]

end Histories

end Atap.Aging
