import Atap.Gather.Rounds

/-!
# When a set lets its target go

A set holds a handle on the task it gives to, and lets go of it once no further round can be
given. Whether one can is decided in two places, through the flag `broken` and the count `giving`:
`leaf_gone` raises the flag, and leaves it to a fill to let go if the place of the leaf is full or
a round is in flight; a fill that has given its round lets go if it finds the flag raised.

No set is held for nothing (`set_let_go`, third part). The other direction fails: a leaf that goes
while its place is full and a round is in flight leaves a round that can still fill, and the fill in
flight lets go of the target all the same (`let_go_too_early`). With that left out, the target is
let go only once a leaf that is gone has an empty place and no round is on its way, and every round
that fills finds the target held (`set_let_go`).
-/

namespace Atap.Gather

open Function

variable {T U V : Type*}

/-- No further round can fill: a task that is gone has an empty place. -/
def Dead (m : Mem U V) : Prop := ∃ p, m.gone p = true ∧ m.slots.get? p = some none

/-- The copy of an output panics. -/
def Act.panics : Act U V → Bool
  | .panic _ => true
  | _ => false

/-- The place of the leaf that is about to raise `broken`. -/
def Pc.leaving : Pc U V → Option (List ℕ)
  | leave _ p => some p
  | _ => none

/-- Nothing panics, and no task of the set goes while its place is full and a round is in
flight. -/
def GoesFirst (s : Config T (Mem U V) (Pc U V)) (t : T) (a : Act U V) : Prop :=
  a.panics = false ∧ ∀ p ∈ (s.loc t).leaving,
    s.mem.slots.get? p = some none ∨ ∀ t', (s.loc t').flies = false

instance [Fintype T] (s : Config T (Mem ℕ ℕ) (Pc ℕ ℕ)) (t : T) (a : Act ℕ ℕ) :
    Decidable (GoesFirst s t a) :=
  inferInstanceAs (Decidable (_ ∧ _))

/-- Who lets the target go, and when. -/
structure Holding (m : Mem U V) (loc : T → Pc U V) : Prop where
  nonempty : m.set.leaves ≠ []
  /-- The flag is raised for a task that is gone. -/
  broken : m.broken = true ↔ ∃ p, m.gone p = true
  place : ∀ p, m.gone p = true → (m.set.get? p).isSome = true
  /-- The target is let go at the end. -/
  held : m.held = false → Dead m ∧ m.giving = 0
  letGo : ∀ t u, loc t = .letGo u → Dead m ∧ m.giving = 0
  /-- A round in flight that finds the flag raised is the last. -/
  flight : m.broken = true → ∀ t, (loc t).flies = true → Dead m
  calm : ∀ t u p, loc t ≠ .writeOff u p

/-- The thread will let go of the target, or sees to it that somebody does, should the place `p`
be empty for good. -/
def Pc.attends (p : List ℕ) : Pc U V → Bool
  | assembled _ _ | give _ _ | lower _ | look _ | letGo _ => true
  | leaveLook _ q => p = q
  | _ => false

/-- A thread is in `fill`, in `leaf_gone` or in what they call. -/
def Pc.acts : Pc U V → Bool
  | idle | link _ | settle | walk _ => false
  | _ => true

/-- A set that can fill no further round is let go, or somebody is about to. -/
def Attended (m : Mem U V) (loc : T → Pc U V) : Prop :=
  ∀ p, m.gone p = true → m.slots.get? p = some none →
    m.held = false ∨ ∃ t, (loc t).attends p = true

section Step

variable [DecidableEq U] {m m' : Mem U V} {pc pc' : Pc U V} {a : Act U V}

omit [DecidableEq U] in
theorem Pc.attends_of_flies {p : List ℕ} (h : pc.flies = true) : pc.attends p = true := by
  cases pc <;> first | rfl | cases h

omit [DecidableEq U] in
theorem Pc.acts_of_attends {p : List ℕ} (h : pc.attends p = true) : pc.acts = true := by
  cases pc <;> first | rfl | cases h

/-- Nothing fills the place of a task that is gone. -/
theorem Step.dead (h : Step m pc a m' pc') (hv : View m pc) (hd : Dead m) : Dead m' := by
  obtain ⟨p, hgone, hp⟩ := hd
  refine ⟨p, h.gone hgone, h.slots hp ?_⟩
  rintro u d rfl
  rw [hv.1.2.2] at hgone
  cases hgone

omit [DecidableEq U] in
/-- No round fills any more. -/
theorem Dead.not_sequence {p : List ℕ} {d : Item U V} {u : U} (hd : Dead m)
    (hl : m.listens u p) (r : Tree (Item U V)) : (m.put p d).slots.sequence ≠ some r := by
  intro hr
  obtain ⟨q, hgone, hq⟩ := hd
  have hne : q ≠ p := by
    rintro rfl
    rw [hl.2.2] at hgone
    cases hgone
  have hget : (m.put p d).slots.get? q = some none := (Tree.get?_set_ne hne).trans hq
  rw [Tree.map_some_of_sequence hr, Tree.get?_map] at hget
  obtain ⟨d, -, hd⟩ := Option.map_eq_some_iff.mp hget
  cases hd

/-- The end stays the end: no round is on its way, and none will be. -/
theorem Step.isOver (h : Step m pc a m' pc') (hv : View m pc) (hne : m.set.leaves ≠ [])
    (hd : Dead m ∧ m.giving = 0) : Dead m' ∧ m'.giving = 0 := by
  refine ⟨h.dead hv hd.1, ?_⟩
  cases h
  case settleRound hl _ =>
    exact absurd (List.eq_nil_of_length_eq_zero (hv.symm.trans hl)) hne
  case fillRound hr => exact absurd hr (hd.1.not_sequence hv.1 _)
  case lower => exact Nat.sub_eq_zero_of_le (hd.2.le.trans (Nat.zero_le 1))
  all_goals exact hd.2

/-- The flag is raised with a task that goes. -/
theorem Step.broken (h : Step m pc a m' pc') (hv : View m pc)
    (hb : m.broken = true ↔ ∃ p, m.gone p = true)
    (hp : ∀ p, m.gone p = true → (m.set.get? p).isSome = true) :
    (m'.broken = true ↔ ∃ p, m'.gone p = true) ∧
      ∀ p, m'.gone p = true → (m'.set.get? p).isSome = true := by
  cases h
  case leave u p =>
    refine ⟨iff_of_true rfl ⟨p, update_self ..⟩, fun q hq => ?_⟩
    rcases eq_or_ne q p with rfl | hne
    · rw [hv.1]
      rfl
    · exact hp q ((update_of_ne hne ..).symm.trans hq)
  all_goals exact ⟨hb, hp⟩

/-- What lets go of the target. -/
theorem Step.held (h : Step m pc a m' pc') (hh : m'.held = false) :
    m.held = false ∨ (∃ u, pc = .letGo u) ∨ ∃ u p, pc = .writeOff u p := by
  cases h
  case writeOff u p => exact .inr (.inr ⟨u, p, rfl⟩)
  case letGo u => exact .inr (.inl ⟨u, rfl⟩)
  all_goals exact .inl hh

/-- Who comes to let go of the target. -/
theorem Step.toLetGo {u : Option U} (h : Step m pc a m' (.letGo u)) :
    m' = m ∧ (pc = .settle ∧ m.leaves = 0 ∨ (∃ b, pc = .look b ∧ m.broken = true) ∨
      (∃ b, pc = .look b ∧ b = .settle) ∨
      ∃ v p, pc = .leaveLook v p ∧ (∀ d, m.slots.get? p ≠ some (some d)) ∧ m.giving = 0) := by
  generalize hpc' : Pc.letGo u = pc' at h
  cases h
  case settlePart hl _ => exact ⟨rfl, .inl ⟨rfl, hl⟩⟩
  case lookBroken b hb => exact ⟨rfl, .inr (.inl ⟨b, rfl, hb⟩)⟩
  case look b _ =>
    cases b with
    | walk v p => cases hpc'
    | settle => exact ⟨rfl, .inr (.inr (.inl ⟨.settle, rfl, rfl⟩))⟩
  case leaveEmpty v p hd hg => exact ⟨rfl, .inr (.inr (.inr ⟨v, p, rfl, hd, hg⟩))⟩
  case letGo v => cases v <;> cases hpc'
  all_goals cases hpc'

/-- A round comes to be in flight as the slots are emptied. -/
theorem Step.toFlight (h : Step m pc a m' pc') (hf : pc'.flies = true) :
    m'.broken = m.broken ∧ m'.gone = m.gone ∧ (pc.flies = true ∨
      ∀ p, (m.slots.get? p).isSome = true → m'.slots.get? p = some none) := by
  cases h
  case settleRound => exact ⟨rfl, rfl, .inr fun p hp => Mem.assemble_get? hp⟩
  case fillRound u p d r _ =>
    refine ⟨rfl, rfl, .inr fun q hq => Mem.assemble_get? ?_⟩
    have hput : (m.put p d).slots.shape = m.slots.shape := Tree.shape_set ..
    rwa [Tree.isSome_get?_of_shape hput]
  case copyTarget | noTarget | give | lower => exact ⟨rfl, rfl, .inl rfl⟩
  case look b _ => cases b <;> cases hf
  case letGo v => cases v <;> cases hf
  all_goals cases hf

end Step

section Run

variable [Fintype T] [DecidableEq T] [DecidableEq U] {m m' : Mem U V} {pc' : Pc U V} {a : Act U V}
  {loc : T → Pc U V} {t : T}

omit [DecidableEq T] in
/-- A thread whose fill is about to look at the flag finds no round on its way. -/
theorem Orderly.giving_of_look (ho : Orderly m loc) {b : Back U} (hpc : loc t = .look b) :
    m.giving = 0 := by
  rw [ho.giving]
  refine count_eq_zero.mpr fun t' => Bool.eq_false_iff.mpr fun hr => ?_
  have hf' : (loc t').flies = true := by
    generalize loc t' = pc at hr
    cases pc <;> first | rfl | cases hr
  obtain rfl : t' = t := eq_of_count_le_one ho.one hf' (hpc ▸ rfl)
  rw [hpc] at hr
  cases hr

omit [DecidableEq T] in
/-- Whoever comes to let go of the target does so at the end. -/
theorem Holding.letGo_step (hi : Holding m loc) (ho : Orderly m loc) {u : Option U}
    (h : Step m (loc t) a m' (.letGo u)) : Dead m' ∧ m'.giving = 0 := by
  have hv := ho.view t
  obtain ⟨rfl, hpc | ⟨b, hpc, hb⟩ | ⟨b, hpc, rfl⟩ | ⟨v, p, hpc, hd, hg⟩⟩ := h.toLetGo
  · rw [hpc.1] at hv
    exact absurd (List.eq_nil_of_length_eq_zero (hv.symm.trans hpc.2)) hi.nonempty
  · exact ⟨hi.flight hb t (hpc ▸ rfl), ho.giving_of_look hpc⟩
  · rw [hpc] at hv
    exact absurd hv hi.nonempty
  · rw [hpc] at hv
    have hplace : (m'.slots.get? p).isSome = true := by
      rw [Tree.isSome_get?_of_shape ho.shape, hv.1]
      rfl
    obtain ⟨o, hp⟩ := Option.isSome_iff_exists.mp hplace
    cases o with
    | none => exact ⟨⟨p, hv.2, hp⟩, hg⟩
    | some d => exact absurd hp (hd d)

/-- A round in flight once the flag is raised is the last. -/
theorem Holding.flight_step (hi : Holding m loc) (ho : Orderly m loc)
    (hg : ∀ u p, loc t = .leave u p → m.slots.get? p = some none ∨ ∀ t', (loc t').flies = false)
    (h : Step m (loc t) a m' pc') (hb : m'.broken = true) {t' : T}
    (hf : (update loc t pc' t').flies = true) : Dead m' := by
  rcases eq_or_ne t' t with rfl | hne
  · rw [update_self] at hf
    obtain ⟨hbroken, hgone, hflies | hempty⟩ := h.toFlight hf
    · exact h.dead (ho.view t') (hi.flight (hbroken ▸ hb) t' hflies)
    · obtain ⟨p, hp⟩ := hi.broken.mp (hbroken ▸ hb)
      refine ⟨p, hgone ▸ hp, hempty p ?_⟩
      rw [Tree.isSome_get?_of_shape ho.shape]
      exact hi.place p hp
  · rw [update_of_ne hne] at hf
    cases hbroken : m.broken with
    | true => exact h.dead (ho.view t) (hi.flight hbroken t' hf)
    | false =>
      -- The flag is raised by this step, so the guard speaks about the leaf that goes.
      generalize hpc : loc t = pc at h
      cases h
      case leave u p =>
        rcases hg u p hpc with hp | hnone
        · exact ⟨p, update_self .., hp⟩
        · rw [hnone t'] at hf
          cases hf
      all_goals exact absurd (hbroken.symm.trans hb) Bool.false_ne_true

/-- **A step lets go of the target only at the end.** -/
theorem Holding.step (hi : Holding m loc) (ho : Orderly m loc) (hc : a.panics = false)
    (hg : ∀ u p, loc t = .leave u p → m.slots.get? p = some none ∨ ∀ t', (loc t').flies = false)
    (h : Step m (loc t) a m' pc') : Holding m' (update loc t pc') := by
  have hv := ho.view t
  obtain ⟨hbroken, hplace⟩ := h.broken hv hi.broken hi.place
  refine ⟨h.set_eq ▸ hi.nonempty, hbroken, hplace, fun hh => ?_, fun t' u hpc => ?_,
    fun hb t' hf => hi.flight_step ho hg h hb hf, ?_⟩
  · refine h.isOver hv hi.nonempty ?_
    rcases h.held hh with hh | ⟨u, hpc⟩ | ⟨u, p, hpc⟩
    · exact hi.held hh
    · exact hi.letGo t u hpc
    · exact absurd hpc (hi.calm t u p)
  · rcases eq_or_ne t' t with rfl | hne
    · rw [update_self] at hpc
      subst hpc
      exact hi.letGo_step ho h
    · rw [update_of_ne hne] at hpc
      exact h.isOver hv hi.nonempty (hi.letGo t' u hpc)
  · refine forall_update (P := fun pc => ∀ u p, pc ≠ Pc.writeOff u p) (fun u p hpc => ?_)
      fun t' _ => hi.calm t'
    generalize loc t = pc at h
    cases h
    case panic => cases hc
    case look b _ => cases b <;> cases hpc
    case letGo v => cases v <;> cases hpc
    all_goals cases hpc

omit [DecidableEq T] in
/-- While a round is on its way, its fill is. -/
theorem Orderly.flies_of_giving (ho : Orderly m loc) (h : m.giving ≠ 0) :
    ∃ t, (loc t).flies = true := by
  rw [ho.giving] at h
  obtain ⟨t, ht⟩ := exists_of_count_pos (Nat.pos_of_ne_zero h)
  refine ⟨t, ?_⟩
  generalize loc t = pc at ht ⊢
  cases pc <;> first | rfl | cases ht

omit [DecidableEq T] in
/-- A thread that sees to an empty place goes on doing so, hands it on, or lets go. -/
theorem Orderly.attends_step (ho : Orderly m loc) (h : Step m (loc t) a m' pc')
    (hb : m.broken = true) {p : List ℕ} (hp : m.slots.get? p = some none)
    (ht : (loc t).attends p = true) :
    m'.held = false ∨ pc'.attends p = true ∨ ∃ t', t' ≠ t ∧ (loc t').attends p = true := by
  have hgiving := ho.flies_of_giving
  generalize hpc : loc t = pc at h ht
  cases h
  case look b hb' => exact absurd (hb'.symm.trans hb) Bool.false_ne_true
  case letGo => exact .inl rfl
  case leaveFull u q d hq =>
    obtain rfl : p = q := of_decide_eq_true ht
    cases hp.symm.trans hq
  case leaveGiving u q hg =>
    obtain ⟨t', ht'⟩ := hgiving hg
    refine .inr (.inr ⟨t', ?_, Pc.attends_of_flies ht'⟩)
    rintro rfl
    rw [hpc] at ht'
    cases ht'
  case leaveEmpty | copyTarget | noTarget | give | lower | lookBroken => exact .inr (.inl rfl)
  all_goals cases ht

/-- **A step leaves no set held for nothing.** -/
theorem Attended.step (hi : Attended m loc) (ho : Orderly m loc)
    (hb : m.broken = true ↔ ∃ p, m.gone p = true) (h : Step m (loc t) a m' pc') :
    Attended m' (update loc t pc') := by
  intro p hgone hp
  have hself : pc'.attends p = true →
      m'.held = false ∨ ∃ t', (update loc t pc' t').attends p = true :=
    fun h => .inr ⟨t, by rwa [update_self]⟩
  by_cases hold : m.gone p = true ∧ m.slots.get? p = some none
  · rcases hi p hold.1 hold.2 with hh | ⟨t', ht'⟩
    · left
      generalize loc t = pc at h
      cases h <;> first | exact hh | rfl
    · rcases eq_or_ne t' t with rfl | hne
      · rcases ho.attends_step h (hb.mpr ⟨p, hold.1⟩) hold.2 ht' with hh | hpc' | ⟨t', hne, ht'⟩
        · exact .inl hh
        · exact hself hpc'
        · exact .inr ⟨t', by rwa [update_of_ne hne]⟩
      · exact .inr ⟨t', by rwa [update_of_ne hne]⟩
  · -- The task goes with this step, or its place is emptied by it.
    generalize loc t = pc at h
    cases h
    case leave u q =>
      rcases eq_or_ne p q with rfl | hne
      · exact hself (decide_eq_true rfl)
      · exact absurd ⟨(update_of_ne hne ..).symm.trans hgone, hp⟩ hold
    case fillPart u q d _ =>
      rcases eq_or_ne p q with rfl | hne
      · have hplace : (m.slots.get? p).isSome = true := by
          rw [← Tree.isSome_get?_of_shape (show (m.put p d).slots.shape = _ from Tree.shape_set ..),
            hp]
          rfl
        cases (Tree.get?_set_self hplace).symm.trans hp
      · exact absurd ⟨hgone, (Tree.get?_set_ne hne).symm.trans hp⟩ hold
    case settleRound | fillRound => exact hself rfl
    all_goals exact absurd ⟨hgone, hp⟩ hold

omit [DecidableEq T] in
/-- A round on its way finds the target held. -/
theorem Holding.held_of_raised (hi : Holding m loc) (ho : Orderly m loc)
    (ht : (loc t).raised = true) : m.held = true := by
  refine Bool.eq_true_of_not_eq_false fun hh => ?_
  have hgiving := ho.giving
  rw [(hi.held hh).2] at hgiving
  exact absurd hgiving (count_pos ht).ne

/-- Every round that fills is given. -/
theorem Holding.complete_step (hi : Holding m loc) (ho : Orderly m loc) (hg : Given m loc)
    (hc : (∀ t, (loc t).carries = false) → m.past.map Round.value = m.given)
    (h : Step m (loc t) a m' pc')
    (hnone : ∀ t', (update loc t pc' t').carries = false) :
    m'.past.map Round.value = m'.given := by
  have hdue := hg.due t
  have hself : pc'.carries = false := by
    have := hnone t
    rwa [update_self] at this
  have hrest : (loc t).carries = false → m.past.map Round.value = m.given := by
    refine fun ht => hc fun t' => ?_
    rcases eq_or_ne t' t with rfl | hne
    · exact ht
    · have := hnone t'
      rwa [update_of_ne hne] at this
  have hheld := hi.held_of_raised ho (t := t)
  generalize loc t = pc at *
  cases h
  case settleRound | fillRound | copyTarget => cases hself
  case noTarget hh => exact absurd (hh.symm.trans (hheld rfl)) Bool.false_ne_true
  case give => exact hdue
  all_goals exact hrest rfl

omit [Fintype T] [DecidableEq T] [DecidableEq U] in
theorem Fresh.holding {handles : Tree U} {s : Config T (Mem U V) (Pc U V)} (h : Fresh handles s)
    (hne : handles.leaves ≠ []) : Holding s.mem s.loc := by
  obtain ⟨t, ht, hother⟩ := h.loc
  have hpc := h.link_or_idle
  refine ⟨h.set ▸ hne, ?_, fun p hp => ?_, fun hh => ?_, fun t' u hl => ?_, fun hb => ?_,
    fun t' u p hl => ?_⟩
  · rw [h.broken]
    refine iff_of_false Bool.false_ne_true ?_
    rintro ⟨p, hp⟩
    rw [h.gone p] at hp
    cases hp
  · rw [h.gone p] at hp
    cases hp
  · rw [h.held] at hh
    cases hh
  · rcases hpc t' with h | h <;> cases h.symm.trans hl
  · rw [h.broken] at hb
    cases hb
  · rcases hpc t' with h | h <;> cases h.symm.trans hl

/-- **When a set lets its target go.** For a set of at least one task, none of which goes while its
place is full and a round is in flight: the target is let go only once a task that is gone has an
empty place and no round is on its way; a round that fills finds the target held, and is given; and
once no fill or `leaf_gone` is in progress, a set that can fill no further round has let go. -/
theorem set_let_go {handles : Tree U} {s : Config T (Mem U V) (Pc U V)}
    (hne : handles.leaves ≠ []) (hs : (machine U V).Reach (Fresh handles) GoesFirst s) :
    (s.mem.held = false → Dead s.mem ∧ s.mem.giving = 0) ∧
    (∀ t, (s.loc t).raised = true → s.mem.held = true) ∧
    ((∀ t, (s.loc t).carries = false) → s.mem.past.map Round.value = s.mem.given) ∧
    ((∀ t, (s.loc t).acts = false) → Dead s.mem → s.mem.held = false) := by
  have hi := hs.invariant
    (I := fun s => Orderly s.mem s.loc ∧ Holding s.mem s.loc ∧ Given s.mem s.loc ∧
      ((∀ t, (s.loc t).carries = false) → s.mem.past.map Round.value = s.mem.given) ∧
      Attended s.mem s.loc)
    (fun s h => ⟨h.orderly, h.holding hne, h.rounds.2, fun _ => by rw [h.past, h.given]; rfl,
      fun p hp => absurd (h.gone p ▸ hp) Bool.false_ne_true⟩)
    fun s t a m' pc' ⟨ho, hh, hg, hc, ha⟩ hok hn =>
      have h := next_step hn
      ⟨ho.step h, hh.step ho hok.1 (fun u p hpc => hok.2 p (hpc ▸ rfl)) h, hg.step ho h,
        hh.complete_step ho hg hc h, ha.step ho hh.broken h⟩
  obtain ⟨ho, hh, -, hc, ha⟩ := hi
  refine ⟨hh.held, fun t => hh.held_of_raised ho, hc, fun hnone hd => ?_⟩
  obtain ⟨p, hgone, hp⟩ := hd
  rcases ha p hgone hp with hheld | ⟨t, ht⟩
  · exact hheld
  · have := hnone t
    rw [Pc.acts_of_attends ht] at this
    cases this

end Run

/-! ### A pair of tasks -/

/-- A pair is linked, its task `0` publishes `10` and its task `1` publishes `20`, and the round
they make is emptied out of the slots. -/
def roundAssembled : List (Fin 3 × Act ℕ ℕ) :=
  [.go, .go, .go, .go].map (0, ·) ++
    [.publish 0 10, .walk 0, .deliver [0], .go].map (1, ·) ++
    [.publish 1 20, .walk 1, .deliver [1], .go].map (2, ·)

/-- The round is given before task `0` goes, and with its place empty that is the end. -/
theorem set_let_go_pair : ∃ s : Config (Fin 3) _ _,
    pair.leaves ≠ [] ∧ (machine ℕ ℕ).Reach (Fresh pair) GoesFirst s ∧ s.mem.held = false ∧
    Dead s.mem ∧ s.mem.giving = 0 := by
  have hne : pair.leaves ≠ [] := by decide
  obtain ⟨s, hs, h⟩ : ∃ s : Config (Fin 3) _ _,
      (machine ℕ ℕ).Reach (Fresh pair) GoesFirst s ∧ s.mem.held = false :=
    (Machine.Reach.init (newSet_fresh pair)).exists_of_run (roundAssembled ++
      [.go, .go, .go, .go].map (2, ·) ++ [.drop [0], .go, .go, .go].map (1, ·))
      (by decide +kernel)
  exact ⟨s, hne, hs, h, (set_let_go hne hs).1 h⟩

/-- **A target let go too early.** While the round is in flight, task `0` delivers `11` to the next
one and goes. Once the round is given its fill finds the flag raised, and lets go of the target.
Task `1` is still there; with its `21` a second round fills, and is given to nobody. -/
theorem let_go_too_early : ∃ s : Config (Fin 3) _ _,
    (machine ℕ ℕ).Reach (Fresh pair) Machine.unguarded s ∧ s.mem.held = false ∧
    s.mem.giving = 1 ∧ (s.loc 2).raised = true ∧ s.mem.past.length = 2 ∧
    s.mem.given.length = 1 := by
  refine (Machine.Reach.init (newSet_fresh pair)).exists_of_run (roundAssembled ++
    [.stop, .publish 0 11, .walk 0, .deliver [0], .go, .drop [0], .go, .go].map (1, ·) ++
    [.go, .go, .go, .go, .go, .stop, .publish 1 21, .walk 1, .deliver [1], .go].map (2, ·)) ?_
  decide +kernel

end Atap.Gather
