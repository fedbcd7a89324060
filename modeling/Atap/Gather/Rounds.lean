import Atap.Gather.Flight

/-!
# The rounds a set gives

What comes out of a set, for every shape and every interleaving of its tasks
(`rounds_in_order`):

* the rounds are given in the order in which they filled;
* each has the shape of the set, and at every place an output of the task of that place, namely
  the newest delivered there since the round before it filled;
* no delivery is used in two rounds, and the outputs of a place go up from round to round.

The newest delivered is not the newest published: between a publish and the walk that delivers it
a round may fill with the output before it (`older_output_given`).
-/

namespace Atap.Gather

open Function

variable {T U V : Type*}

/-- Everything delivered so far, the newest first. -/
def Mem.log (m : Mem U V) : List (List ℕ × Item U V) :=
  m.deliveries ++ m.past.flatMap Round.deliveries

/-- What is known of a delivery. -/
structure Delivered (m : Mem U V) (e : List ℕ × Item U V) : Prop where
  place : m.set.get? e.1 = some e.2.task
  handed : e.2.number < m.handed e.1
  published : e.2.number < m.published e.2.task
  value : m.outs e.2.task e.2.number = some e.2.value

/-- The rounds so far, and what the slots hold of the next. -/
structure Rounds (m : Mem U V) (loc : T → Pc U V) : Prop where
  log : ∀ e ∈ m.log, Delivered m e
  /-- Deliveries to one place go up. -/
  newest : m.log.Pairwise fun e e' => e.1 = e'.1 → e'.2.number < e.2.number
  fill : ∀ t u p d, loc t = .fill u p d →
    Delivered m (p, d) ∧ ∀ e ∈ m.log, e.1 = p → e.2.number < d.number
  slots : ∀ p, (m.set.get? p).isSome = true → m.slots.get? p = some (m.deliveries.lookup p)
  past : ∀ r ∈ m.past, r.value.shape = m.set.shape ∧ ∀ p, r.value.get? p = r.deliveries.lookup p

/-- Where a thread has a round it has not given. -/
def Pc.carries : Pc U V → Bool
  | assembled _ _ | give _ _ => true
  | _ => false

theorem Pc.flies_of_carries {pc : Pc U V} (h : pc.carries = true) : pc.flies = true := by
  cases pc <;> first | rfl | cases h

/-- A round in hand is the one to give next. -/
def Due (m : Mem U V) : Pc U V → Prop
  | .assembled _ r => m.held = true → m.past.map Round.value = r :: m.given
  | .give _ r => m.past.map Round.value = r :: m.given
  | _ => True

/-- The rounds given are those that filled, but for the one in flight. -/
structure Given (m : Mem U V) (loc : T → Pc U V) : Prop where
  suffix : m.given <:+ m.past.map Round.value
  due : ∀ t, Due m (loc t)
  rest : m.held = true → (∀ t, (loc t).carries = false) → m.past.map Round.value = m.given

theorem Due.of_not_carries {m : Mem U V} {pc : Pc U V} (h : pc.carries = false) : Due m pc := by
  cases pc <;> trivial

theorem Due.frame {m m' : Mem U V} {pc : Pc U V} (h : Due m pc) (hpast : m'.past = m.past)
    (hgiven : m'.given = m.given) (hheld : m'.held = true → m.held = true) : Due m' pc := by
  cases pc
  case assembled b r => exact fun hh => by rw [hpast, hgiven]; exact h (hheld hh)
  case give b r =>
    change m'.past.map Round.value = r :: m'.given
    rw [hpast, hgiven]
    exact h
  all_goals trivial

section Step

variable [DecidableEq U] {m m' : Mem U V} {pc pc' : Pc U V} {a : Act U V}

omit [DecidableEq U] in
theorem Mem.log_assemble (m : Mem U V) (r : Tree (Item U V)) : (m.assemble r).log = m.log := by
  simp [Mem.log, Mem.assemble]

/-- What a step adds to the deliveries. -/
theorem Step.log (h : Step m pc a m' pc') :
    m'.log = m.log ∨ ∃ u p d, pc = .fill u p d ∧ m'.log = (p, d) :: m.log := by
  cases h
  case settleRound => exact .inl (Mem.log_assemble ..)
  case fillPart u p d _ => exact .inr ⟨u, p, d, rfl, rfl⟩
  case fillRound u p d _ _ => exact .inr ⟨u, p, d, rfl, Mem.log_assemble ..⟩
  all_goals exact .inl rfl

/-- A delivery stays one. -/
theorem Step.delivered (h : Step m pc a m' pc') {e : List ℕ × Item U V} (he : Delivered m e) :
    Delivered m' e := by
  have hhanded : ∀ u p, m.listens u p → m.handed p < m.published u →
      e.2.number < update m.handed p (m.published u) e.1 := by
    intro u p _ hp
    rcases eq_or_ne e.1 p with rfl | hne
    · rw [update_self]
      exact he.handed.trans hp
    · rw [update_of_ne hne]
      exact he.handed
  cases h
  case publish u x =>
    refine ⟨he.place, he.handed, ?_, ?_⟩
    · rcases eq_or_ne e.2.task u with heq | hne
      · simp only [heq, update_self]
        exact Nat.lt_succ_of_lt (heq ▸ he.published)
      · simpa only [update_of_ne hne] using he.published
    · rcases eq_or_ne e.2.task u with heq | hne
      · have hn : e.2.number ≠ m.published u := (heq ▸ he.published).ne
        simpa only [heq, update_self, update_of_ne hn] using heq ▸ he.value
      · simpa only [update_of_ne hne] using he.value
  case deliver hl hp _ | panic hl hp => exact ⟨he.place, hhanded _ _ hl hp, he.published, he.value⟩
  all_goals exact ⟨he.place, he.handed, he.published, he.value⟩

/-- What a walk hands to the leaf it delivers to. -/
theorem Step.fill {u : U} {p : List ℕ} {d : Item U V} (h : Step m pc a m' (.fill u p d)) :
    Delivered m' (p, d) ∧ m'.log = m.log ∧ m.handed p ≤ d.number := by
  generalize hpc' : Pc.fill u p d = pc' at h
  cases h
  case deliver hl hp hx =>
    cases hpc'
    have hpos : 0 < m.published u := Nat.zero_lt_of_lt hp
    refine ⟨⟨hl.1, ?_, Nat.sub_lt hpos Nat.one_pos, hx⟩, rfl, Nat.le_sub_one_of_lt hp⟩
    simpa only [update_self] using Nat.sub_lt hpos Nat.one_pos
  case look b _ => cases b <;> cases hpc'
  case letGo v => cases v <;> cases hpc'
  all_goals cases hpc'

end Step

section Run

variable [Fintype T] [DecidableEq U] {m m' : Mem U V} {pc' : Pc U V} {a : Act U V}
  {loc : T → Pc U V} {t : T}

omit [Fintype T] [DecidableEq U] in
/-- A delivery to a place is what its slot holds. -/
theorem Rounds.slots_put (hi : Rounds m loc) (hshape : m.slots.shape = m.set.shape) (p : List ℕ)
    (d : Item U V) (q : List ℕ) (hq : (m.set.get? q).isSome = true) :
    (m.put p d).slots.get? q = some ((m.put p d).deliveries.lookup q) := by
  rcases eq_or_ne q p with rfl | hne
  · refine (Tree.get?_set_self ?_).trans ?_
    · rwa [Tree.isSome_get?_of_shape hshape]
    · simp [Mem.put]
  · refine (Tree.get?_set_ne hne).trans ((hi.slots q hq).trans ?_)
    have hbeq : (q == p) = false := beq_eq_false_iff_ne.mpr hne
    simp [Mem.put, List.lookup_cons, hbeq]

omit [Fintype T] [DecidableEq U] in
/-- A round is what the slots held, and the slots are empty after it. -/
theorem Rounds.assemble {r : Tree (Item U V)} (hshape : m.slots.shape = m.set.shape)
    (hlog : ∀ e ∈ m.deliveries, (m.set.get? e.1).isSome = true)
    (hslots : ∀ p, (m.set.get? p).isSome = true → m.slots.get? p = some (m.deliveries.lookup p))
    (hr : m.slots.sequence = some r) :
    (r.shape = m.set.shape ∧ ∀ p, r.get? p = m.deliveries.lookup p) ∧
      ∀ p, (m.set.get? p).isSome = true →
        (m.assemble r).slots.get? p = some ((m.assemble r).deliveries.lookup p) := by
  have hmap := Tree.map_some_of_sequence hr
  have hrshape : r.shape = m.set.shape := by rw [← hshape, hmap, Tree.shape_map]
  refine ⟨⟨hrshape, fun p => ?_⟩, fun p hp => ?_⟩
  · cases hp : m.set.get? p with
    | none =>
      have hnone : r.get? p = none := by
        rw [← Option.not_isSome_iff_eq_none, Tree.isSome_get?_of_shape hrshape, hp]
        exact Bool.false_ne_true
      rw [hnone]
      refine (List.lookup_eq_none_iff.mpr fun e he => ?_).symm
      rw [bne_iff_ne]
      rintro rfl
      have := hlog e he
      rw [hp] at this
      cases this
    | some u =>
      have hget := hslots p (by rw [hp]; rfl)
      rw [hmap, Tree.get?_map] at hget
      obtain ⟨d, hd, hlookup⟩ := Option.map_eq_some_iff.mp hget
      rw [hd, hlookup]
  · rw [Mem.assemble_get? (by rwa [Tree.isSome_get?_of_shape hshape])]
    rfl

omit [Fintype T] [DecidableEq U] in
theorem Rounds.place_of_mem (hi : Rounds m loc) {e : List ℕ × Item U V} (he : e ∈ m.deliveries) :
    (m.set.get? e.1).isSome = true := by
  rw [(hi.log e (List.mem_append_left _ he)).place]
  rfl

/-- What a step leaves in the slots, and in the rounds that filled. -/
theorem Rounds.slots_step (hi : Rounds m loc) (ho : Orderly m loc) (h : Step m (loc t) a m' pc') :
    (∀ p, (m'.set.get? p).isSome = true → m'.slots.get? p = some (m'.deliveries.lookup p)) ∧
      ∀ r ∈ m'.past, r.value.shape = m'.set.shape ∧
        ∀ p, r.value.get? p = r.deliveries.lookup p := by
  have hview := ho.view t
  have hpast : ∀ {m₁ : Mem U V} {r : Tree (Item U V)}, m₁.set = m.set → m₁.past = m.past →
      (r.shape = m₁.set.shape ∧ ∀ p, r.get? p = m₁.deliveries.lookup p) →
      ∀ r' ∈ (m₁.assemble r).past, r'.value.shape = m₁.set.shape ∧
        ∀ p, r'.value.get? p = r'.deliveries.lookup p := by
    intro m₁ r hset hp hr r' hr'
    rcases List.mem_cons.mp hr' with rfl | hr'
    · exact hr
    · rw [hp] at hr'
      exact hset ▸ hi.past r' hr'
  generalize loc t = pc at *
  cases h
  case settleRound r _ hr =>
    obtain ⟨hround, hslots⟩ := Rounds.assemble ho.shape (fun _ => hi.place_of_mem) hi.slots hr
    exact ⟨hslots, hpast rfl rfl hround⟩
  case fillPart p d _ => exact ⟨hi.slots_put ho.shape p d, hi.past⟩
  case fillRound p d r hr =>
    have hplace : ∀ e ∈ (m.put p d).deliveries, (m.set.get? e.1).isSome = true := by
      intro e he
      rcases List.mem_cons.mp he with rfl | he
      · rw [hview.1.1]
        rfl
      · exact hi.place_of_mem he
    obtain ⟨hround, hslots⟩ := Rounds.assemble (m := m.put p d)
      ((Tree.shape_set ..).trans ho.shape) hplace (hi.slots_put ho.shape p d) hr
    exact ⟨hslots, hpast rfl rfl hround⟩
  all_goals exact ⟨hi.slots, hi.past⟩

variable [DecidableEq T]

/-- A delivery on its way is newer than every one there was. -/
theorem Rounds.fill_step (hi : Rounds m loc) (ho : Orderly m loc) (h : Step m (loc t) a m' pc')
    {t' : T} {u : U} {p : List ℕ} {d : Item U V}
    (hpc : update loc t pc' t' = .fill u p d) :
    Delivered m' (p, d) ∧ ∀ e ∈ m'.log, e.1 = p → e.2.number < d.number := by
  rcases eq_or_ne t' t with rfl | hne
  · rw [update_self] at hpc
    subst hpc
    obtain ⟨hd, hlog, hhanded⟩ := h.fill
    refine ⟨hd, fun e he hp => ?_⟩
    rw [hlog] at he
    exact lt_of_lt_of_le (hp ▸ (hi.log e he).handed) hhanded
  · rw [update_of_ne hne] at hpc
    obtain ⟨hd, hnewer⟩ := hi.fill t' u p d hpc
    refine ⟨h.delivered hd, fun e he hp => ?_⟩
    rcases h.log with hlog | ⟨v, q, d', hpc', hlog⟩
    · exact hnewer e (hlog ▸ he) hp
    · rw [hlog] at he
      rcases List.mem_cons.mp he with rfl | he
      · -- Another walk delivers to places of its own.
        have hq := ho.view t
        have hp' := ho.view t'
        rw [hpc'] at hq
        rw [hpc] at hp'
        exact absurd hp.symm (ho.apart hne (hpc' ▸ rfl) (hpc ▸ rfl) hq.1.1 hp'.1.1)
      · exact hnewer e he hp

/-- **A step keeps the rounds in order.** -/
theorem Rounds.step (hi : Rounds m loc) (ho : Orderly m loc) (h : Step m (loc t) a m' pc') :
    Rounds m' (update loc t pc') := by
  obtain ⟨hslots, hpast⟩ := hi.slots_step ho h
  refine ⟨fun e he => ?_, ?_, fun t' u p d hpc => hi.fill_step ho h hpc, hslots, hpast⟩
  · rcases h.log with hlog | ⟨u, p, d, hpc, hlog⟩
    · exact h.delivered (hi.log e (hlog ▸ he))
    · rw [hlog] at he
      rcases List.mem_cons.mp he with rfl | he
      · exact h.delivered (hi.fill t u p d hpc).1
      · exact h.delivered (hi.log e he)
  · rcases h.log with hlog | ⟨u, p, d, hpc, hlog⟩
    · rw [hlog]
      exact hi.newest
    · rw [hlog]
      refine List.pairwise_cons.mpr ⟨fun e he hp => ?_, hi.newest⟩
      exact (hi.fill t u p d hpc).2 e he hp.symm

omit [Fintype T] [DecidableEq U] in
/-- A step that neither fills a round nor has one in hand. -/
theorem Given.keep (hi : Given m loc) (hpast : m'.past = m.past) (hgiven : m'.given = m.given)
    (hheld : m'.held = true → m.held = true) (hc : (loc t).carries = false)
    (hc' : pc'.carries = false) : Given m' (update loc t pc') := by
  refine ⟨by rw [hpast, hgiven]; exact hi.suffix, ?_, fun hh hnone => ?_⟩
  · exact forall_update (.of_not_carries hc') fun t' _ => (hi.due t').frame hpast hgiven hheld
  · rw [hpast, hgiven]
    refine hi.rest (hheld hh) fun t' => ?_
    rcases eq_or_ne t' t with rfl | hne
    · exact hc
    · have := hnone t'
      rwa [update_of_ne hne] at this

omit [Fintype T] [DecidableEq U] in
/-- A round fills with none in flight. -/
theorem Given.assemble {b : Back U} {r : Tree (Item U V)} (hi : Given m loc)
    (hpast : m'.past.map Round.value = r :: m.past.map Round.value) (hgiven : m'.given = m.given)
    (hheld : m'.held = m.held) (hnone : ∀ t', (loc t').carries = false) :
    Given m' (update loc t (.assembled b r)) := by
  refine ⟨?_, ?_, fun hh hnone => ?_⟩
  · rw [hpast, hgiven]
    exact hi.suffix.trans (List.suffix_cons ..)
  · refine forall_update (P := Due m') (fun hh => ?_) fun t' _ => .of_not_carries (hnone t')
    rw [hpast, hgiven, hi.rest (hheld ▸ hh) hnone]
  · have := hnone t
    rw [update_self] at this
    cases this

/-- **A step gives the rounds in the order in which they filled.** -/
theorem Given.step (hi : Given m loc) (ho : Orderly m loc) (h : Step m (loc t) a m' pc') :
    Given m' (update loc t pc') := by
  have hcarries : (∀ t', (loc t').flies = false) → ∀ t', (loc t').carries = false :=
    fun hnone t' => Bool.eq_false_iff.mpr fun hc => by
      have := hnone t'
      rw [Pc.flies_of_carries hc] at this
      cases this
  have halone : (loc t).flies = true → ∀ t', t' ≠ t → (loc t').carries = false :=
    fun hf t' hne => Bool.eq_false_iff.mpr fun hc =>
      hne (eq_of_count_le_one ho.one (Pc.flies_of_carries hc) hf)
  have hdue := hi.due t
  generalize hpc : loc t = pc at h hdue
  cases h
  case settleRound hl _ =>
    exact hi.assemble rfl rfl rfl (hcarries (ho.no_flight_settle hpc hl))
  case fillRound hr => exact hi.assemble rfl rfl rfl (hcarries (ho.no_flight hpc hr))
  case copyTarget b r hh =>
    refine ⟨hi.suffix, ?_, fun _ hnone => ?_⟩
    · exact forall_update (P := Due m) (hdue hh) fun t' _ => hi.due t'
    · have := hnone t
      rw [update_self] at this
      cases this
  case noTarget b r hh =>
    refine ⟨hi.suffix, ?_, fun hh' => absurd (hh.symm.trans hh') Bool.false_ne_true⟩
    exact forall_update (P := Due m) trivial fun t' _ => hi.due t'
  case give b r =>
    refine ⟨hdue ▸ List.suffix_rfl, ?_, fun _ _ => hdue⟩
    exact forall_update (P := Due _) trivial fun t' hne =>
      .of_not_carries (halone (hpc ▸ rfl) t' hne)
  case look b _ => exact hi.keep rfl rfl id (hpc ▸ rfl) (by cases b <;> rfl)
  case letGo v => exact hi.keep rfl rfl nofun (hpc ▸ rfl) (by cases v <;> rfl)
  case writeOff => exact hi.keep rfl rfl nofun (hpc ▸ rfl) rfl
  all_goals exact hi.keep rfl rfl id (hpc ▸ rfl) rfl

omit [Fintype T] [DecidableEq U] [DecidableEq T] in
theorem Fresh.rounds {handles : Tree U} {s : Config T (Mem U V) (Pc U V)} (h : Fresh handles s) :
    Rounds s.mem s.loc ∧ Given s.mem s.loc := by
  obtain ⟨t, ht, hother⟩ := h.loc
  have hlog : s.mem.log = [] := by rw [Mem.log, h.deliveries, h.past]; rfl
  have hpc := h.link_or_idle
  refine ⟨⟨?_, ?_, fun t' u p d hfill => ?_, fun p hp => ?_, ?_⟩, ?_, fun t' => ?_, fun _ _ => ?_⟩
  · rw [hlog]
    exact nofun
  · rw [hlog]
    exact .nil
  · rcases hpc t' with hl | hl <;> cases hl.symm.trans hfill
  · obtain ⟨u, hu⟩ := Option.isSome_iff_exists.mp (h.set ▸ hp)
    rw [h.slots, Tree.get?_map, hu, h.deliveries]
    rfl
  · rw [h.past]
    exact nofun
  · rw [h.given]
    exact List.nil_suffix
  · rcases hpc t' with hl | hl <;> rw [hl] <;> trivial
  · rw [h.past, h.given]
    rfl

theorem rounds_of_reach {handles : Tree U}
    {Ok : Config T (Mem U V) (Pc U V) → T → Act U V → Prop} {s : Config T (Mem U V) (Pc U V)}
    (hs : (machine U V).Reach (Fresh handles) Ok s) :
    Rounds s.mem s.loc ∧ Given s.mem s.loc ∧ s.mem.set = handles := by
  have hi := hs.invariant
    (I := fun s => Orderly s.mem s.loc ∧ Rounds s.mem s.loc ∧ Given s.mem s.loc ∧
      s.mem.set = handles)
    (fun _ h => ⟨h.orderly, h.rounds.1, h.rounds.2, h.set⟩)
    fun _ _ _ _ _ ⟨ho, hr, hg, hset⟩ _ hn => ⟨ho.step (next_step hn), hr.step ho (next_step hn),
      hg.step ho (next_step hn), (next_step hn).set_eq.trans hset⟩
  exact hi.2

omit [Fintype T] [DecidableEq U] [DecidableEq T] in
/-- The first delivery to a place in a list that goes up is the newest. -/
theorem lookup_newest {l : List (List ℕ × Item U V)} {p : List ℕ} {d : Item U V}
    (hl : l.Pairwise fun e e' => e.1 = e'.1 → e'.2.number < e.2.number)
    (h : l.lookup p = some d) :
    (p, d) ∈ l ∧ ∀ e ∈ l, e.1 = p → e.2.number ≤ d.number := by
  obtain ⟨l₁, l₂, rfl, hfirst⟩ := List.lookup_eq_some_iff.mp h
  refine ⟨by simp, fun e he hp => ?_⟩
  obtain ⟨-, hl₂, -⟩ := List.pairwise_append.mp hl
  rcases List.mem_append.mp he with he | he
  · exact absurd hp.symm (bne_iff_ne.mp (hfirst e he))
  · rcases List.mem_cons.mp he with rfl | he
    · exact le_rfl
    · exact ((List.pairwise_cons.mp hl₂).1 e he hp.symm).le

omit [Fintype T] [DecidableEq U] [DecidableEq T] in
/-- Deliveries to one place go up within a round, and from one to the next. -/
theorem Rounds.pairwise (hi : Rounds m loc) :
    (∀ r ∈ m.past, r.deliveries.Pairwise fun e e' => e.1 = e'.1 → e'.2.number < e.2.number) ∧
      m.past.Pairwise fun r r' => ∀ e ∈ r.deliveries, ∀ e' ∈ r'.deliveries,
        e.1 = e'.1 → e'.2.number < e.2.number :=
  List.pairwise_flatMap.mp (List.pairwise_append.mp hi.newest).2.1

omit [Fintype T] [DecidableEq U] [DecidableEq T] in
/-- The outputs of a place go up from round to round. -/
theorem Rounds.increasing (hi : Rounds m loc) : m.past.Pairwise fun r r' =>
    ∀ p d d', r.value.get? p = some d → r'.value.get? p = some d' → d'.number < d.number := by
  have hmem : ∀ r ∈ m.past, ∀ p d, r.value.get? p = some d → (p, d) ∈ r.deliveries := by
    intro r hr p d hd
    rw [(hi.past r hr).2 p] at hd
    exact (lookup_newest (hi.pairwise.1 r hr) hd).1
  refine hi.pairwise.2.imp_of_mem fun {r r'} hr hr' hlt p d d' hd hd' => ?_
  exact hlt (p, d) (hmem r hr p d hd) (p, d') (hmem r' hr' p d' hd') rfl

omit [Fintype T] [DecidableEq U] [DecidableEq T] in
/-- What stands at a place of a round is the newest delivery to it. -/
theorem Rounds.newest_at (hi : Rounds m loc) {r : Round U V} (hr : r ∈ m.past) {p : List ℕ} {u : U}
    (hp : m.set.get? p = some u) :
    ∃ d, r.value.get? p = some d ∧ d.task = u ∧ m.outs u d.number = some d.value ∧
      (p, d) ∈ r.deliveries ∧ ∀ e ∈ r.deliveries, e.1 = p → e.2.number ≤ d.number := by
  obtain ⟨hshape, hlookup⟩ := hi.past r hr
  have hsome : (r.value.get? p).isSome = true := by
    rw [Tree.isSome_get?_of_shape hshape, hp]
    rfl
  obtain ⟨d, hd⟩ := Option.isSome_iff_exists.mp hsome
  obtain ⟨hmem, hnewest⟩ := lookup_newest (hi.pairwise.1 r hr) ((hlookup p).symm.trans hd)
  have hdel := hi.log (p, d) (List.mem_append_right _ (List.mem_flatMap.mpr ⟨r, hr, hmem⟩))
  obtain rfl : d.task = u := Option.some.inj (hdel.place.symm.trans hp)
  exact ⟨d, hd, rfl, hdel.value, hmem, hnewest⟩

/-- **The rounds of a set.** They are given in the order in which they filled; each has the shape
of the set, with the newest delivery to every place since the round before; and no delivery is in
two of them. -/
theorem rounds_in_order {handles : Tree U} {s : Config T (Mem U V) (Pc U V)}
    (hs : (machine U V).Reach (Fresh handles) Machine.unguarded s) :
    s.mem.given <:+ s.mem.past.map Round.value ∧
    (∀ r ∈ s.mem.past, r.value.shape = handles.shape ∧ ∀ p u, handles.get? p = some u →
      ∃ d, r.value.get? p = some d ∧ d.task = u ∧ s.mem.outs u d.number = some d.value ∧
        (p, d) ∈ r.deliveries ∧ ∀ e ∈ r.deliveries, e.1 = p → e.2.number ≤ d.number) ∧
    s.mem.past.Pairwise fun r r' => ∀ p d d', r.value.get? p = some d →
      r'.value.get? p = some d' → d'.number < d.number := by
  obtain ⟨hr, hg, hset⟩ := rounds_of_reach hs
  refine ⟨hg.suffix, fun r hmem => ⟨?_, fun p u hp => ?_⟩, hr.increasing⟩
  · rw [← hset]
    exact (hr.past r hmem).1
  · exact hr.newest_at hmem (hset ▸ hp)

end Run

/-! ### A set of two tasks -/

/-- The tasks `0` and `1` in a tuple, about to be linked by thread `0`. -/
def pair : Tree ℕ := .node [.leaf 0, .leaf 1]

/-- A set just made, with nothing published. -/
def newSet (handles : Tree ℕ) : Config (Fin 3) (Mem ℕ ℕ) (Pc ℕ ℕ) where
  mem := ⟨handles, handles.map fun _ => none, true, 0, false, 0, fun _ => false, fun _ => 0,
    fun _ _ => none, fun _ => false, fun _ => 0, fun _ => false, [], [], []⟩
  loc t := if t = 0 then .link handles.leaves else .idle

theorem newSet_fresh (handles : Tree ℕ) : Fresh handles (newSet handles) where
  set := rfl
  slots := rfl
  held := rfl
  leaves := rfl
  broken := rfl
  giving := rfl
  walking _ := rfl
  handed _ := rfl
  gone _ := rfl
  linked _ := rfl
  deliveries := rfl
  past := rfl
  given := rfl
  loc := ⟨0, rfl, fun _ ht => if_neg ht⟩

/-- The set is linked, and task `0` publishes `10`, which is delivered, and then `11`, which is
not. -/
def publishedTwice : List (Fin 3 × Act ℕ ℕ) :=
  [.go, .go, .go, .go].map (0, ·) ++
    [.publish 0 10, .walk 0, .deliver [0], .go, .stop, .publish 0 11].map (1, ·)

/-- Task `1` publishes an output, which fills the round, and the round is given. -/
def roundGiven (x : ℕ) : List (Fin 3 × Act ℕ ℕ) :=
  [.publish 1 x, .walk 1, .deliver [1], .go, .go, .go].map (2, ·)

/-- Two rounds of a pair are given, in the order of the outputs and in the shape of the pair. -/
theorem rounds_in_order_pair : ∃ s : Config (Fin 3) _ _,
    (machine ℕ ℕ).Reach (Fresh pair) Machine.unguarded s ∧
    s.mem.given.map (Tree.get? [0]) = [some ⟨0, 1, 11⟩, some ⟨0, 0, 10⟩] ∧
    s.mem.given <:+ s.mem.past.map Round.value ∧
    ∀ r ∈ s.mem.past, r.value.shape = pair.shape := by
  obtain ⟨s, hs, h⟩ : ∃ s : Config (Fin 3) _ _,
      (machine ℕ ℕ).Reach (Fresh pair) Machine.unguarded s ∧
      s.mem.given.map (Tree.get? [0]) = [some ⟨0, 1, 11⟩, some ⟨0, 0, 10⟩] :=
    (Machine.Reach.init (newSet_fresh pair)).exists_of_run (publishedTwice ++ roundGiven 20 ++
      [.walk 0, .deliver [0], .go].map (1, ·) ++ [.go, .go, .stop].map (2, ·) ++ roundGiven 21)
      (by decide +kernel)
  obtain ⟨hgiven, hround, -⟩ := rounds_in_order hs
  exact ⟨s, hs, h, hgiven, fun r hr => (hround r hr).1⟩

/-- **An older output is given.** Task `0` has published twice by the time the round fills, and
the round has its first output. -/
theorem older_output_given : ∃ s : Config (Fin 3) _ _,
    (machine ℕ ℕ).Reach (Fresh pair) Machine.unguarded s ∧
    s.mem.given.map (Tree.get? [0]) = [some ⟨0, 0, 10⟩] ∧
    s.mem.past.map (fun r => r.published 0) = [2] := by
  refine (Machine.Reach.init (newSet_fresh pair)).exists_of_run (publishedTwice ++ roundGiven 20) ?_
  decide +kernel

end Atap.Gather
