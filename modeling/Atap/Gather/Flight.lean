import Atap.Gather.Machine

/-!
# One round in flight

A round is emptied out of the slots under their lock and given outside it. What keeps the next
one behind it is the walk: the delivery that filled the last place of a round is part of a walk
of its task, and the walk goes on only once the round is given. Until then nothing fills that
place again, since only walks of its task do and there is one of those at a time. So at most one
round is between the slots and its target.

* `View`: what a thread may rely on where it stands.
* `Orderly`: the walks, the spawn and the rounds in flight are each in one place.
* `Orderly.step`, `orderly_of_reach`: kept by every step, so held in every interleaving.
-/

namespace Atap.Gather

open Function

variable {T U V : Type*}

namespace Pc

/-- The task whose walk the thread is in. -/
def task : Pc U V → Option U
  | walk u | fill u _ _ | writeOff u _ | leave u _ | leaveLook u _ => some u
  | assembled b _ | give b _ | lower b | look b => b.task
  | letGo u => u
  | idle | link _ | settle => none

/-- Who filled the round the thread has emptied out of the slots, until the fill returns. -/
def back : Pc U V → Option (Back U)
  | assembled b _ | give b _ | lower b | look b => some b
  | _ => none

/-- The thread has emptied a round out of the slots, and its fill has not returned. -/
def flies (pc : Pc U V) : Bool := pc.back.isSome

/-- The thread has raised `giving` and not lowered it. -/
def raised : Pc U V → Bool
  | assembled _ _ | give _ _ | lower _ => true
  | _ => false

/-- The thread spawns the set. -/
def spawns : Pc U V → Bool
  | link _ | settle | letGo none => true
  | assembled b _ | give b _ | lower b | look b => b.task.isNone
  | _ => false

end Pc

/-- What is known of a round in flight: the place filled last is empty again. -/
def Flight (m : Mem U V) : Back U → Prop
  | .walk u p => m.set.get? p = some u ∧ m.slots.get? p = some none
  | .settle => m.set.leaves = []

/-- What a thread may rely on where it stands. -/
def View (m : Mem U V) : Pc U V → Prop
  | .link rest => m.leaves + rest.length = m.set.leaves.length
  | .settle => m.leaves = m.set.leaves.length
  | .fill u p d => m.listens u p ∧ d.task = u
  | .writeOff u p | .leave u p => m.listens u p
  | .leaveLook u p => m.set.get? p = some u ∧ m.gone p = true
  | .assembled b _ | .give b _ | .lower b | .look b => Flight m b
  | .idle | .walk _ | .letGo _ => True

/-- The walks, the spawn and the rounds in flight are each in one place. -/
structure Orderly [Fintype T] [DecidableEq U] (m : Mem U V) (loc : T → Pc U V) : Prop where
  lock : ∀ u, count (fun pc => decide (pc.task = some u)) loc = (m.walking u).toNat
  spawner : count Pc.spawns loc ≤ 1
  one : count Pc.flies loc ≤ 1
  giving : m.giving = count Pc.raised loc
  shape : m.slots.shape = m.set.shape
  view : ∀ t, View m (loc t)

section Step

variable [DecidableEq U] {m m' : Mem U V} {pc pc' : Pc U V} {a : Act U V}

omit [DecidableEq U] in
theorem Back.pc_task (b : Back U) : (b.pc : Pc U V).task = b.task := by
  cases b <;> rfl

theorem Step.set_eq (h : Step m pc a m' pc') : m'.set = m.set := by
  cases h <;> rfl

/-- A step takes the lock of a walk, lets it go, or passes it on. -/
theorem Step.lock (h : Step m pc a m' pc') (hw : ∀ u, pc.task = some u → m.walking u = true)
    (u : U) : (decide (pc'.task = some u)).toNat + (m.walking u).toNat =
      (decide (pc.task = some u)).toNat + (m'.walking u).toNat := by
  cases h
  case walk v hv =>
    rcases eq_or_ne u v with rfl | hne
    · simp [Pc.task, hv]
    · simp [Pc.task, hne, hne.symm]
  case stop v =>
    rcases eq_or_ne u v with rfl | hne
    · simp [Pc.task, hw u rfl]
    · simp [Pc.task, hne, hne.symm]
  case look b _ => rw [Back.pc_task]; rfl
  case letGo v => cases v <;> rfl
  all_goals rfl

theorem Step.spawns_le (h : Step m pc a m' pc') : pc'.spawns.toNat ≤ pc.spawns.toNat := by
  cases h
  case settle => exact Nat.zero_le _
  case look b _ | lookBroken b _ => cases b <;> exact le_rfl
  case letGo v => cases v <;> exact Nat.zero_le _
  all_goals exact le_rfl

theorem Step.giving (h : Step m pc a m' pc') (hg : pc.raised = true → 0 < m.giving) :
    m'.giving + pc.raised.toNat = m.giving + pc'.raised.toNat := by
  cases h
  case lower => exact Nat.sub_add_cancel (hg rfl)
  case look b _ => cases b <;> rfl
  case letGo v => cases v <;> rfl
  all_goals rfl

theorem Step.shape_eq (h : Step m pc a m' pc') : m'.slots.shape = m.slots.shape := by
  cases h
  case settleRound => exact Tree.shape_map ..
  case fillPart => exact Tree.shape_set ..
  case fillRound => exact (Tree.shape_map ..).trans (Tree.shape_set ..)
  all_goals rfl

omit [DecidableEq U] in
/-- What a thread relies on is about the places of the task it walks, and about the leaves if it
spawns the set. -/
theorem View.frame (h : View m pc) (hset : m'.set = m.set)
    (hl : pc.spawns = true → m'.leaves = m.leaves)
    (hlist : ∀ u p, pc.task = some u → m.listens u p → m'.listens u p)
    (hgone : ∀ p, m.gone p = true → m'.gone p = true)
    (hslots : ∀ u p, pc.task = some u → m.set.get? p = some u → m.slots.get? p = some none →
      m'.slots.get? p = some none) : View m' pc := by
  have hflight : ∀ b, (∀ u, b.task = some u → pc.task = some u) → Flight m b → Flight m' b := by
    intro b hb hf
    cases b with
    | settle =>
      simp only [Flight, hset] at hf ⊢
      exact hf
    | walk u p =>
      simp only [Flight, hset] at hf ⊢
      exact ⟨hf.1, hslots u p (hb u rfl) hf.1 hf.2⟩
  cases pc
  case link | settle =>
    simp only [View, hset, hl rfl] at h ⊢
    exact h
  case fill u p d => exact ⟨hlist u p rfl h.1, h.2⟩
  case writeOff u p | leave u p => exact hlist u p rfl h
  case leaveLook u p => exact ⟨hset ▸ h.1, hgone p h.2⟩
  case assembled b _ | give b _ | lower b | look b => exact hflight b (fun _ => id) h
  all_goals trivial

omit [DecidableEq U] in
/-- An emptied place is empty. -/
theorem Mem.assemble_get? {p : List ℕ} {r : Tree (Item U V)} (h : (m.slots.get? p).isSome = true) :
    (m.assemble r).slots.get? p = some none := by
  obtain ⟨d, hd⟩ := Option.isSome_iff_exists.mp h
  rw [Mem.assemble, Tree.get?_map, hd]
  rfl

theorem Step.leaves_eq (h : Step m pc a m' pc') (hs : pc.spawns = false) :
    m'.leaves = m.leaves := by
  cases h
  case link => cases hs
  all_goals rfl

/-- A registration is let go by the leaf that goes. -/
theorem Step.listens (h : Step m pc a m' pc') {u : U} {p : List ℕ} (hl : m.listens u p)
    (hpc : ∀ u', pc ≠ .leave u' p) : m'.listens u p := by
  cases h
  case link q _ _ =>
    refine ⟨hl.1, ?_, hl.2.2⟩
    rcases eq_or_ne p q with rfl | hne
    · exact update_self ..
    · exact (update_of_ne hne ..).trans hl.2.1
  case leave v q =>
    have hne : p ≠ q := by
      rintro rfl
      exact hpc v rfl
    exact ⟨hl.1, hl.2.1, (update_of_ne hne ..).trans hl.2.2⟩
  all_goals exact hl

theorem Step.gone (h : Step m pc a m' pc') {p : List ℕ} (hp : m.gone p = true) :
    m'.gone p = true := by
  cases h
  case leave v q =>
    rcases eq_or_ne p q with rfl | hne
    · exact update_self ..
    · exact (update_of_ne hne ..).trans hp
  all_goals exact hp

/-- An empty place is filled by a delivery to it. -/
theorem Step.slots (h : Step m pc a m' pc') {p : List ℕ} (hp : m.slots.get? p = some none)
    (hpc : ∀ u d, pc ≠ .fill u p d) : m'.slots.get? p = some none := by
  have hput : ∀ u q d, pc = .fill u q d → (m.put q d).slots.get? p = some none := by
    rintro u q d rfl
    refine (Tree.get?_set_ne ?_).trans hp
    rintro rfl
    exact hpc u d rfl
  cases h
  case settleRound => exact Mem.assemble_get? (by rw [hp]; rfl)
  case fillPart => exact hput _ _ _ rfl
  case fillRound => exact Mem.assemble_get? (by rw [hput _ _ _ rfl]; rfl)
  all_goals exact hp

/-- What the thread that moves may rely on. -/
theorem Step.view (h : Step m pc a m' pc') (hv : View m pc) (hshape : m.slots.shape = m.set.shape) :
    View m' pc' := by
  cases h
  case link p u rest =>
    simp only [View, List.length_cons] at hv ⊢
    omega
  case linked => exact hv
  case settleRound hl _ => exact List.eq_nil_of_length_eq_zero (hv.symm.trans hl)
  case deliver hl _ _ => exact ⟨hl, rfl⟩
  case panic hl _ => exact hl
  case drop hl => exact hl
  case writeOff => exact hv
  case leave => exact ⟨hv.1, update_self ..⟩
  case fillRound u p d r _ =>
    have hp : ((m.put p d).slots.get? p).isSome = true := by
      have hput : (m.put p d).slots.shape = m.set.shape := (Tree.shape_set ..).trans hshape
      rw [Tree.isSome_get?_of_shape hput, hv.1.1]
      rfl
    exact ⟨hv.1.1, Mem.assemble_get? hp⟩
  case copyTarget | noTarget | give | lower => exact hv
  case look b _ => cases b <;> trivial
  case letGo u => cases u <;> trivial
  all_goals trivial

end Step

section Run

variable [Fintype T] [DecidableEq U] {m m' : Mem U V} {pc' : Pc U V} {a : Act U V}
  {loc : T → Pc U V} {t : T}

theorem Orderly.walking (hi : Orderly m loc) {u : U} (ht : (loc t).task = some u) :
    m.walking u = true := by
  have hpos := count_pos (p := fun pc : Pc U V => decide (pc.task = some u)) (decide_eq_true ht)
  have hlock := hi.lock u
  refine Bool.eq_true_of_not_eq_false fun hf => ?_
  rw [hf, Bool.toNat_false] at hlock
  omega

/-- There is one walk of a task at a time. -/
theorem Orderly.alone (hi : Orderly m loc) {t' : T} {u : U} (ht : (loc t).task = some u)
    (ht' : (loc t').task = some u) : t = t' := by
  have hle : count (fun pc : Pc U V => decide (pc.task = some u)) loc ≤ 1 := by
    rw [hi.lock u]
    exact Bool.toNat_le _
  exact eq_of_count_le_one hle (decide_eq_true ht) (decide_eq_true ht')

/-- The places another walk fills are not those of this one. -/
theorem Orderly.apart (hi : Orderly m loc) {t' : T} {u u' : U} {p p' : List ℕ} (hne : t' ≠ t)
    (ht : (loc t).task = some u) (ht' : (loc t').task = some u') (hp : m.set.get? p = some u)
    (hp' : m.set.get? p' = some u') : p' ≠ p := by
  rintro rfl
  obtain rfl := Option.some.inj (hp.symm.trans hp')
  exact hne (hi.alone ht' ht)

/-- A thread that does not move may rely on what it did. -/
theorem Orderly.view_other (hi : Orderly m loc) (h : Step m (loc t) a m' pc') {t' : T}
    (hne : t' ≠ t) : View m' (loc t') := by
  have hv := hi.view t
  refine (hi.view t').frame h.set_eq ?_ ?_ (fun _ => h.gone) ?_
  · intro hs'
    refine h.leaves_eq (Bool.eq_false_iff.mpr fun hs => hne ?_)
    exact eq_of_count_le_one hi.spawner hs' hs
  · intro u p hu hl
    refine h.listens hl fun v hpc => ?_
    rw [hpc] at hv
    exact hi.apart hne (hpc ▸ rfl) hu hv.1 hl.1 rfl
  · intro u p hu hset hp
    refine h.slots hp fun v d hpc => ?_
    rw [hpc] at hv
    exact hi.apart hne (hpc ▸ rfl) hu hv.1.1 hset rfl

/-- What is known of a round in flight, and whose walk it is part of. -/
theorem Orderly.flight (hi : Orderly m loc) (hf : (loc t).flies = true) :
    ∃ b, Flight m b ∧ (loc t).task = b.task ∧ (loc t).spawns = b.task.isNone := by
  have hv := hi.view t
  generalize loc t = pc at *
  cases pc
  case assembled b _ | give b _ | lower b | look b => exact ⟨b, hv, rfl, rfl⟩
  all_goals cases hf

/-- A round is emptied out of the slots only once the one before it is away. -/
theorem Orderly.no_flight (hi : Orderly m loc) {u : U} {p : List ℕ} {d : Item U V}
    {r : Tree (Item U V)} (hpc : loc t = .fill u p d) (hr : (m.put p d).slots.sequence = some r)
    (t' : T) : (loc t').flies = false := by
  have hv := hi.view t
  rw [hpc] at hv
  refine Bool.eq_false_iff.mpr fun hf => ?_
  have hne : t' ≠ t := by
    rintro rfl
    rw [hpc] at hf
    cases hf
  obtain ⟨b, hb, htask, -⟩ := hi.flight hf
  cases b with
  | settle =>
    have hmem := Tree.mem_leaves.mpr hv.1.1
    rw [show m.set.leaves = [] from hb] at hmem
    cases hmem
  | walk u' p' =>
    have hp := hi.apart hne (hpc ▸ rfl) htask hv.1.1 hb.1
    have hget : (m.put p d).slots.get? p' = some none := (Tree.get?_set_ne hp).trans hb.2
    rw [Tree.map_some_of_sequence hr, Tree.get?_map] at hget
    obtain ⟨d, -, hd⟩ := Option.map_eq_some_iff.mp hget
    cases hd

/-- Nothing else ever fills the round of an empty set. -/
theorem Orderly.no_flight_settle (hi : Orderly m loc) (hpc : loc t = .settle) (hl : m.leaves = 0)
    (t' : T) : (loc t').flies = false := by
  have hv := hi.view t
  rw [hpc] at hv
  refine Bool.eq_false_iff.mpr fun hf => ?_
  obtain ⟨b, hb, -, hspawn⟩ := hi.flight hf
  cases b with
  | settle =>
    obtain rfl : t' = t := eq_of_count_le_one hi.spawner hspawn (hpc ▸ rfl)
    rw [hpc] at hf
    cases hf
  | walk u p =>
    have hmem := Tree.mem_leaves.mpr hb.1
    rw [List.eq_nil_of_length_eq_zero (hv.symm.trans hl)] at hmem
    cases hmem

variable [DecidableEq T]

theorem Orderly.one_step (hi : Orderly m loc) (h : Step m (loc t) a m' pc') :
    count Pc.flies (update loc t pc') ≤ 1 := by
  have hupd := count_update Pc.flies loc t pc'
  have hone := hi.one
  -- Only a round just emptied out of the slots adds to those in flight.
  have hround : (∀ t', (loc t').flies = false) →
      count Pc.flies (update loc t pc') ≤ 1 := by
    intro hnone
    rw [count_eq_zero.mpr hnone] at hupd
    have := Bool.toNat_le pc'.flies
    omega
  have hno_flight := fun {u p d r} => hi.no_flight (t := t) (u := u) (p := p) (d := d) (r := r)
  have hno_settle := hi.no_flight_settle (t := t)
  generalize loc t = pc at *
  cases h
  case fillRound hr => exact hround (hno_flight rfl hr)
  case settleRound hl _ => exact hround (hno_settle rfl hl)
  case look b _ =>
    have hb : (b.pc : Pc U V).flies = false := by cases b <;> rfl
    rw [hb, Bool.toNat_false] at hupd
    omega
  case letGo v =>
    have hv : (v.elim .idle .walk : Pc U V).flies = false := by cases v <;> rfl
    rw [hv, Bool.toNat_false] at hupd
    omega
  all_goals
    simp only [Pc.flies, Pc.back, Option.isSome_some, Option.isSome_none, Bool.toNat_true,
      Bool.toNat_false] at hupd
    omega

/-- **A step keeps the walks, the spawn and the rounds in one place each.** -/
theorem Orderly.step (hi : Orderly m loc) (h : Step m (loc t) a m' pc') :
    Orderly m' (update loc t pc') where
  lock u := by
    have hstep := h.lock (fun _ => hi.walking) u
    have hupd := count_update (fun pc : Pc U V => decide (pc.task = some u)) loc t pc'
    have hlock := hi.lock u
    omega
  spawner := by
    have hstep := h.spawns_le
    have hupd := count_update Pc.spawns loc t pc'
    have hspawner := hi.spawner
    omega
  one := hi.one_step h
  giving := by
    refine eq_count_update hi.giving (h.giving fun hr => ?_)
    rw [hi.giving]
    exact count_pos hr
  shape := by rw [h.shape_eq, h.set_eq, hi.shape]
  view := forall_update (h.view (hi.view t) hi.shape) fun _ hne => hi.view_other h hne

omit [Fintype T] [DecidableEq T] [DecidableEq U] in
theorem Fresh.link_or_idle {handles : Tree U} {s : Config T (Mem U V) (Pc U V)}
    (h : Fresh handles s) (t' : T) : s.loc t' = .link handles.leaves ∨ s.loc t' = .idle := by
  obtain ⟨t, ht, hother⟩ := h.loc
  rcases eq_or_ne t' t with rfl | hne
  · exact .inl ht
  · exact .inr (hother t' hne)

omit [DecidableEq T] in
theorem Fresh.orderly {handles : Tree U} {s : Config T (Mem U V) (Pc U V)} (h : Fresh handles s) :
    Orderly s.mem s.loc := by
  obtain ⟨t, ht, hother⟩ := h.loc
  have hpc := h.link_or_idle
  refine ⟨fun u => ?_, ?_, ?_, ?_, ?_, fun t' => ?_⟩
  · rw [h.walking, count_eq_zero.mpr fun t' => by rcases hpc t' with h | h <;> rw [h] <;> rfl]
    rfl
  · rw [count_eq_of_alone (t := t) fun t' hne => by rw [hother t' hne]; rfl]
    exact Bool.toNat_le _
  · rw [count_eq_zero.mpr fun t' => by rcases hpc t' with h | h <;> rw [h] <;> rfl]
    exact Nat.zero_le 1
  · rw [h.giving, count_eq_zero.mpr fun t' => by rcases hpc t' with h | h <;> rw [h] <;> rfl]
  · rw [h.slots, h.set, Tree.shape_map]
  · rcases hpc t' with hl | hl <;> rw [hl]
    · simp only [View, h.leaves, h.set, Nat.zero_add]
    · trivial

end Run

end Atap.Gather
