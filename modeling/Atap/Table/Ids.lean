import Atap.Interleave.Word
import Atap.Table.Machine

/-!
# Every id is in one place

An id below `next_id` is on the free list, handed out, in the hands of a thread, or lost to a
block the kernel refused; it is never in two of these at once. `places` counts them.

* `Ids`: every id is in at most one place, and below `next_id`; the free list ends; and every
  thread can rely on what it loaded (`Local`). A pop relies on its link only as long as no
  other pop landed, which is what the tag checks.
* `Ids.step`: kept by every step in which no thread stalls across a full turn of the tag.
* `ids_apart`: so no id is handed out while it is out, and the free list is a list of distinct
  ids none of which is out.
-/

namespace Atap.Table

open Function

variable {T : Type*}

/-- The ids `After` still holds. -/
def After.ids : After → List ℕ
  | free => []
  | walk _ w => w.taken ++ w.rest
  | restore ids limit => ids.filter (· < limit)

/-- The ids in the hands of a thread. -/
def Pc.ids : Pc → List ℕ
  | growBlock id | growMap id | count id | freeSlot id | freeCount id => [id]
  | pushLoad id k | pushLink id _ _ k | pushSwap id _ _ k => id :: k.ids
  | walkSlot _ w | walkNext _ w => w.taken ++ w.rest
  | release taken _ _ | record taken _ _ | lower taken _ _ => taken
  | restore ids limit => ids.filter (· < limit)
  | _ => []

/-- How often an id is on the list, out, or in the hands of a thread at `pc`. -/
def spots (m : Mem) (pc : Pc) (id : ℕ) : ℕ :=
  m.chain.count id + (decide (id ∈ m.alive)).toNat + pc.ids.count id

/-- How many places an id is in. -/
def places [Fintype T] (m : Mem) (loc : T → Pc) (id : ℕ) : ℕ :=
  m.chain.count id + (decide (id ∈ m.alive)).toNat + total (fun pc => pc.ids.count id) loc

/-- The rest of a list a trim took: the links go on through it, and its pages were not handed
back. -/
structure Tail (m : Mem) (cursor : ℕ) (rest : List ℕ) : Prop where
  links : Links m.next cursor rest
  written : ∀ id ∈ rest, m.released id = false

/-- What a thread with the rest of a push may rely on. -/
def After.Local (m : Mem) : After → Prop
  | free => True
  | walk cursor w => Tail m cursor w.rest
  | restore _ _ => True

/-- What a thread may rely on. -/
def Pc.Local (m : Mem) : Pc → Prop
  | popSlot v id | popNext v id => v ≤ m.pops ∧ (v = m.pops → id ∈ m.chain)
  | popSwap v id next => v ≤ m.pops ∧ (v = m.pops → id ∈ m.chain ∧ m.next id = next)
  | freeCount id => id < maxTaskId
  | pushLoad id k => id < maxTaskId ∧ k.Local m
  | pushLink id _ index k => id < maxTaskId ∧ index ≤ maxTaskId ∧ k.Local m
  | pushSwap id _ index k =>
    id < maxTaskId ∧ m.next id = index ∧ m.released id = false ∧ k.Local m
  | walkSlot cursor w => Tail m cursor w.rest
  | walkNext id w => id < maxTaskId ∧ Tail m (id + 1) w.rest
  | release taken keep current | record taken keep current | lower taken keep current =>
    ∀ id, keep ≤ id → id < current → id ∈ taken
  | _ => True

/-- What holds in every interleaving. -/
structure Ids [Fintype T] (m : Mem) (loc : T → Pc) : Prop where
  one : ∀ id, places m loc id ≤ 1
  below : ∀ id, 0 < places m loc id → id < m.nextId
  links : Links m.next m.head m.chain
  chain : ∀ id ∈ m.chain, id < maxTaskId ∧ m.released id = false
  locals : ∀ t, (loc t).Local m

/-! ### What a step does to the places -/

section Step

variable {m m' : Mem} {pc pc' : Pc}

theorem keepFrom_spec {taken : List ℕ} {floor current id : ℕ}
    (hk : keepFrom taken floor current ≤ id) (hid : id < current) : id ∈ taken := by
  induction current with
  | zero => exact absurd hid (Nat.not_lt_zero id)
  | succ c ih =>
    unfold keepFrom at hk
    split at hk
    case isTrue h =>
      rcases Nat.lt_succ_iff_lt_or_eq.mp hid with hlt | rfl
      · exact ih hk hlt
      · exact h.2
    case isFalse => omega

theorem Walk.done_ids (w : Walk) (id : ℕ) :
    w.done.ids.count id ≤ (w.taken ++ w.rest).count id := by
  rw [List.count_append]
  unfold Walk.done
  split
  · exact Nat.zero_le _
  · split
    · exact (List.filter_sublist.count_le id).trans (Nat.le_add_right _ _)
    · exact Nat.le_add_right _ _

theorem Walk.done_local (w : Walk) : w.done.Local m := by
  unfold Walk.done
  split
  · trivial
  · split
    · trivial
    · exact fun id hk hid => keepFrom_spec hk hid

/-- A pop that lands takes the first id of the list. -/
theorem chain_of_pop {id : ℕ} (hl : Links m.next m.head m.chain) (hh : m.head = id + 1) :
    m.chain = id :: m.chain.tail ∧ Links m.next (m.next id) m.chain.tail := by
  obtain ⟨l, hc, hl'⟩ := hl.eq_cons (hh ▸ Nat.succ_ne_zero id)
  rw [hh, Nat.add_sub_cancel] at hc hl'
  rw [hc]
  exact ⟨rfl, hl'⟩

/-- The first id of what is left of a walk. -/
theorem Tail.eq_cons {cursor : ℕ} {rest : List ℕ} (h : Tail m cursor rest) (hc : cursor ≠ 0) :
    rest = (cursor - 1) :: rest.tail ∧ Tail m (m.next (cursor - 1)) rest.tail := by
  obtain ⟨l, hr, hl⟩ := h.links.eq_cons hc
  have hw := h.written
  rw [hr] at hw ⊢
  exact ⟨rfl, hl, fun id hid => hw id (List.mem_cons_of_mem _ hid)⟩

theorem After.pc_ids (k : After) : k.pc.ids = k.ids := by cases k <;> rfl

/-- **A step puts no id in a second place.** -/
theorem Step.spots (h : Step m pc m' pc') (hl : Links m.next m.head m.chain)
    (hp : pc.Local m) (hpc : pc ≠ .grow) (id : ℕ) : spots m' pc' id ≤ spots m pc id := by
  cases h
  case grow => exact absurd rfl hpc
  case free x hx =>
    show m.chain.count id + (decide (id ∈ m.alive.erase x)).toNat + [x].count id ≤
      m.chain.count id + (decide (id ∈ m.alive)).toNat + 0
    rcases eq_or_ne id x with rfl | hne
    · simp [hx]
    · simp [hne, hne.symm]
  case popWon v x next hh =>
    show m.chain.tail.count id + (decide (id ∈ m.alive)).toNat + [x].count id ≤
      m.chain.count id + (decide (id ∈ m.alive)).toNat + 0
    rw [(chain_of_pop hl hh.2).1, List.tail_cons]
    simp only [List.count_cons, List.count_nil]
    omega
  case count x =>
    show m.chain.count id + (decide (id ∈ insert x m.alive)).toNat + 0 ≤
      m.chain.count id + (decide (id ∈ m.alive)).toNat + [x].count id
    rcases eq_or_ne id x with rfl | hne
    · simp
    · simp [hne, hne.symm]
  case pushWon x v index k hh =>
    show (x :: m.chain).count id + (decide (id ∈ m.alive)).toNat + k.pc.ids.count id ≤
      m.chain.count id + (decide (id ∈ m.alive)).toNat + (x :: k.ids).count id
    rw [After.pc_ids, List.count_cons, List.count_cons]
    omega
  case drainWon v index floor current hh =>
    show 0 + (decide (id ∈ m.alive)).toNat + m.chain.count id ≤
      m.chain.count id + (decide (id ∈ m.alive)).toNat + 0
    omega
  case walkOver cursor w => exact Nat.add_le_add_left (w.done_ids id) _
  case walkBack x w =>
    refine Nat.add_le_add_left ?_ _
    show (x :: (w.taken ++ w.rest.tail)).count id ≤ (w.taken ++ w.rest).count id
    rw [(hp.2.eq_cons (Nat.succ_ne_zero x)).1]
    simp only [List.count_append, List.count_cons, List.tail_cons, Nat.add_sub_cancel]
    omega
  case walkTake x w =>
    refine Nat.add_le_add_left ?_ _
    show ((w.taken ++ [x]) ++ w.rest.tail).count id ≤ (w.taken ++ w.rest).count id
    rw [(hp.2.eq_cons (Nat.succ_ne_zero x)).1]
    simp only [List.count_append, List.count_cons, List.tail_cons, List.count_nil,
      Nat.add_sub_cancel]
    omega
  case lowerWon | lowerLost => exact Nat.add_le_add_left (List.filter_sublist.count_le id) _
  case restoreSkip x ids limit =>
    exact Nat.add_le_add_left (((List.sublist_cons_self x ids).filter _).count_le id) _
  case restorePush x ids limit hlt hid =>
    refine Nat.add_le_add_left (le_of_eq ?_) _
    show (x :: ids.filter (· < limit)).count id = ((x :: ids).filter (· < limit)).count id
    rw [List.filter_cons_of_pos (by simpa using hlt)]
  case popGone | growOver | growRefused | freeGone | restoreOver =>
    exact Nat.add_le_add_left (Nat.zero_le _) _
  all_goals exact le_rfl

/-! ### What a step leaves to the others -/

/-- What a step of a thread with `ids` in its hands leaves alone: the slots that are not in
its hands and were not handed back, and, unless it pops, the ids on the list. -/
structure Keeps (m m' : Mem) (ids : List ℕ) : Prop where
  pops : m.pops ≤ m'.pops
  chain : m'.pops = m.pops → ∀ id ∈ m.chain, id ∈ m'.chain
  next : ∀ id, id ∉ ids → m.released id = false → m'.next id = m.next id
  released : ∀ id, id ∉ ids → m.released id = false → m'.released id = false

theorem Keeps.of_eq {ids : List ℕ} (hp : m'.pops = m.pops) (hc : m'.chain = m.chain)
    (hn : m'.next = m.next) (hr : m'.released = m.released) : Keeps m m' ids where
  pops := hp.ge
  chain _ _ h := hc ▸ h
  next _ _ _ := hn ▸ rfl
  released _ _ h := hr ▸ h

theorem Keeps.mono {ids ids' : List ℕ} (h : Keeps m m' ids) (hs : ∀ id ∈ ids, id ∈ ids') :
    Keeps m m' ids' where
  pops := h.pops
  chain := h.chain
  next id hid := h.next id fun hmem => hid (hs id hmem)
  released id hid := h.released id fun hmem => hid (hs id hmem)

theorem keeps_setNext {x index : ℕ} : Keeps m (m.setNext x index) [x] where
  pops := le_rfl
  chain _ _ h := h
  next _ hid _ := update_of_ne (List.ne_of_not_mem_cons hid) _ _
  released _ hid hr := (update_of_ne (List.ne_of_not_mem_cons hid) _ _).trans hr

theorem Step.keeps (h : Step m pc m' pc') (hp : pc.Local m) : Keeps m m' pc.ids := by
  cases h
  case zero x hx =>
    refine ⟨le_rfl, fun _ _ h => h, fun id _ hid => ?_, fun _ _ h => h⟩
    refine update_of_ne ?_ _ _
    rintro rfl
    rw [hx] at hid
    cases hid
  case popWon | drainWon =>
    exact ⟨Nat.le_succ _, fun h => absurd h (Nat.succ_ne_self _), fun _ _ _ => rfl, fun _ _ h => h⟩
  case pushLink x v index k =>
    exact keeps_setNext.mono fun id hid => List.mem_singleton.mp hid ▸ List.mem_cons_self
  case pushWon =>
    exact ⟨le_rfl, fun _ _ h => List.mem_cons_of_mem _ h, fun _ _ _ => rfl, fun _ _ h => h⟩
  case release taken keep current =>
    refine ⟨le_rfl, fun _ _ h => h, fun _ _ _ => rfl, fun id hid hr => ?_⟩
    show (m.released id || decide (keep ≤ id ∧ id < current)) = false
    rw [hr, Bool.false_or]
    exact decide_eq_false fun h => hid (hp id h.1 h.2)
  all_goals exact .of_eq rfl rfl rfl rfl

theorem Tail.frame {cursor : ℕ} {rest ids : List ℕ} (h : Tail m cursor rest)
    (hk : Keeps m m' ids) (hd : ∀ id ∈ rest, id ∉ ids) : Tail m' cursor rest where
  links := h.links.congr fun id hid => hk.next id (hd id hid) (h.written id hid)
  written id hid := hk.released id (hd id hid) (h.written id hid)

theorem After.Local.frame {k : After} {ids : List ℕ} (h : k.Local m) (hk : Keeps m m' ids)
    (hd : ∀ id ∈ k.ids, id ∉ ids) : k.Local m' := by
  cases k
  case walk cursor w =>
    exact Tail.frame h hk fun id hid => hd id (List.mem_append_right _ hid)
  all_goals trivial

/-- **What a thread relies on outlives the steps of the others.** -/
theorem Pc.Local.frame {ids : List ℕ} (h : pc.Local m) (hk : Keeps m m' ids)
    (hc : ∀ id ∈ m.chain, id ∉ ids ∧ m.released id = false) (hd : ∀ id ∈ pc.ids, id ∉ ids) :
    pc.Local m' := by
  -- A pop that saw the last tag finds its id still on the list; a later tag frees it.
  have hpop : ∀ {v id}, v ≤ m.pops → v = m'.pops → (v = m.pops → id ∈ m.chain) →
      id ∈ m.chain ∧ id ∈ m'.chain := by
    intro v id hv hv' hid
    have heq : m'.pops = m.pops := le_antisymm (hv' ▸ hv) hk.pops
    have hmem := hid (hv'.trans heq)
    exact ⟨hmem, hk.chain heq id hmem⟩
  cases pc
  case popSlot v id | popNext v id => exact ⟨h.1.trans hk.pops, fun hv => (hpop h.1 hv h.2).2⟩
  case popSwap v id next =>
    refine ⟨h.1.trans hk.pops, fun hv => ?_⟩
    obtain ⟨hold, hnew⟩ := hpop h.1 hv fun h' => (h.2 h').1
    have heq : v = m.pops := le_antisymm h.1 (hv ▸ hk.pops)
    refine ⟨hnew, ?_⟩
    rw [hk.next id (hc id hold).1 (hc id hold).2]
    exact (h.2 heq).2
  case pushLoad id k =>
    exact ⟨h.1, h.2.frame hk fun x hx => hd x (List.mem_cons_of_mem _ hx)⟩
  case pushLink id v index k =>
    exact ⟨h.1, h.2.1, h.2.2.frame hk fun x hx => hd x (List.mem_cons_of_mem _ hx)⟩
  case pushSwap id v index k =>
    obtain ⟨hid, hnext, hrel, hlocal⟩ := h
    have hmem := hd id List.mem_cons_self
    refine ⟨hid, ?_, hk.released id hmem hrel,
      hlocal.frame hk fun x hx => hd x (List.mem_cons_of_mem _ hx)⟩
    rw [hk.next id hmem hrel]
    exact hnext
  case walkSlot cursor w => exact Tail.frame h hk fun x hx => hd x (List.mem_append_right _ hx)
  case walkNext id w =>
    exact ⟨h.1, h.2.frame hk fun x hx => hd x (List.mem_append_right _ hx)⟩
  all_goals exact h

/-! ### What a step leaves to its own thread -/

theorem asLink_of_le {index : ℕ} (h : index ≤ maxTaskId) : asLink index = index :=
  Nat.mod_eq_of_lt (h.trans_lt (by decide))

theorem head_le (hl : Links m.next m.head m.chain) (hc : ∀ id ∈ m.chain, id < maxTaskId) :
    m.head ≤ maxTaskId := by
  rcases Nat.eq_zero_or_pos m.head with h0 | hpos
  · omega
  · obtain ⟨l, hchain, -⟩ := hl.eq_cons hpos.ne'
    have := hc (m.head - 1) (hchain ▸ List.mem_cons_self)
    omega

theorem Step.local_self (h : Step m pc m' pc') (hl : Links m.next m.head m.chain)
    (hc : ∀ id ∈ m.chain, id < maxTaskId ∧ m.released id = false) (hp : pc.Local m)
    (hn : pc.ids.Nodup) : pc'.Local m' := by
  cases h
  case popLoad h =>
    obtain ⟨l, hchain, -⟩ := hl.eq_cons h
    exact ⟨le_rfl, fun _ => hchain ▸ List.mem_cons_self⟩
  case popSlot => exact hp
  case popNext => exact ⟨hp.1, fun hv => ⟨hp.2 hv, rfl⟩⟩
  case freeSlot id h => exact h
  case freeCount => exact ⟨hp, trivial⟩
  case pushLoad => exact ⟨hp.1, head_le hl fun id hid => (hc id hid).1, hp.2⟩
  case pushLink id v index k =>
    obtain ⟨hid, hindex, hlocal⟩ := hp
    refine ⟨hid, ?_, update_self .., hlocal.frame keeps_setNext fun x hx hmem => ?_⟩
    · show update m.next id (asLink index) id = index
      rw [update_self, asLink_of_le hindex]
    · rw [List.mem_singleton.mp hmem] at hx
      exact (List.nodup_cons.mp hn).1 hx
  case pushWon id v index k h =>
    obtain ⟨-, -, -, hlocal⟩ := hp
    cases k <;> first | trivial | exact ⟨hlocal.links, hlocal.written⟩
  case pushLost => exact ⟨hp.1, hp.2.2.2⟩
  case drainWon v index floor current h =>
    refine ⟨?_, fun id hid => (hc id hid).2⟩
    rw [← h.2]
    exact hl
  case walkOver cursor w => exact w.done_local
  case walkSlot cursor w h hid =>
    refine ⟨hid, ?_⟩
    rw [Nat.sub_add_cancel (Nat.pos_of_ne_zero h)]
    exact hp
  case walkBack id w => exact ⟨hp.1, (hp.2.eq_cons (Nat.succ_ne_zero id)).2⟩
  case walkTake id w => exact (hp.2.eq_cons (Nat.succ_ne_zero id)).2
  case release => exact hp
  case record => exact hp
  case restorePush id ids limit hlt hid => exact ⟨hid, trivial⟩
  all_goals trivial

/-- **The free list after a step.** A pop that lands on the tag it loaded took the link the
first id has now. -/
theorem Step.links (h : Step m pc m' pc') (hl : Links m.next m.head m.chain)
    (hc : ∀ id ∈ m.chain, id < maxTaskId ∧ m.released id = false) (hp : pc.Local m)
    (hd : ∀ id ∈ m.chain, id ∉ pc.ids)
    (hstall : ∀ v id next, pc = .popSwap v id next → m.pops < v + 2 ^ tagBits) :
    Links m'.next m'.head m'.chain ∧
      ∀ id ∈ m'.chain, id < maxTaskId ∧ m'.released id = false := by
  have hk := h.keeps hp
  have hsame : Links m'.next m.head m.chain :=
    hl.congr fun id hid => hk.next id (hd id hid) (hc id hid).2
  have hchain : ∀ id ∈ m.chain, id < maxTaskId ∧ m'.released id = false :=
    fun id hid => ⟨(hc id hid).1, hk.released id (hd id hid) (hc id hid).2⟩
  cases h
  case popWon v id next h =>
    have hv : v = m.pops := eq_of_mod_eq_of_lt hp.1 (hstall v id next rfl) h.1.symm
    obtain ⟨hcons, htail⟩ := chain_of_pop hl h.2
    refine ⟨?_, fun x hx => hchain x (List.mem_of_mem_tail hx)⟩
    show Links m.next next m.chain.tail
    rw [← (hp.2 hv).2]
    exact htail
  case pushWon id v index k h =>
    obtain ⟨hid, hnext, hrel, -⟩ := hp
    refine ⟨hsame.cons (hnext.trans h.2.symm), fun x hx => ?_⟩
    rcases List.mem_cons.mp hx with rfl | hx
    · exact ⟨hid, hrel⟩
    · exact hchain x hx
  case drainWon => exact ⟨rfl, nofun⟩
  all_goals exact ⟨hsame, hchain⟩

end Step

section Run

variable [Fintype T] {m m' : Mem} {pc' : Pc} {loc : T → Pc} {t u : T}

theorem places_le (m : Mem) (loc : T → Pc) (t : T) (id : ℕ) :
    spots m (loc t) id ≤ places m loc id :=
  Nat.add_le_add_left (le_total (w := fun pc : Pc => pc.ids.count id) t) _

/-- An id on the list is in no thread's hands. -/
theorem Ids.not_mem_ids (hi : Ids m loc) {id : ℕ} (hid : id ∈ m.chain) : id ∉ (loc t).ids := by
  intro hmem
  have h1 := List.count_pos_iff.mpr hid
  have h2 := List.count_pos_iff.mpr hmem
  have h3 := places_le m loc t id
  have h4 := hi.one id
  unfold spots at h3
  omega

/-- No id is in the hands of two threads. -/
theorem Ids.disjoint (hi : Ids m loc) (hne : u ≠ t) {id : ℕ} (hid : id ∈ (loc u).ids) :
    id ∉ (loc t).ids := by
  intro hmem
  have h1 := List.count_pos_iff.mpr hid
  have h2 := List.count_pos_iff.mpr hmem
  have h3 := add_le_total (w := fun pc : Pc => pc.ids.count id) (f := loc) hne
  have h4 := hi.one id
  unfold places at h4
  omega

theorem Ids.nodup (hi : Ids m loc) (t : T) : (loc t).ids.Nodup := by
  refine List.nodup_iff_count_le_one.mpr fun id => ?_
  have h3 := places_le m loc t id
  have h4 := hi.one id
  unfold spots at h3
  omega

variable [DecidableEq T]

theorem places_update (m m' : Mem) (loc : T → Pc) (t : T) (pc' : Pc) (id : ℕ) :
    places m' (update loc t pc') id + spots m (loc t) id =
      places m loc id + spots m' pc' id := by
  have h := total_update_add (fun pc : Pc => pc.ids.count id) loc t pc'
  unfold places spots
  omega

/-- A step puts no id in a second place, and the table grows by an id that is nowhere. -/
theorem Ids.one_step (hi : Ids m loc) (h : Step m (loc t) m' pc') (id : ℕ) :
    places m' (update loc t pc') id ≤ 1 := by
  have hone := hi.one id
  have hupd := places_update m m' loc t pc' id
  by_cases hgrow : loc t = .grow
  · have hbelow := hi.below id
    rw [hgrow] at h hupd
    cases h
    rcases eq_or_ne id m.nextId with rfl | hne
    · have hfree : places m loc m.nextId = 0 := by
        by_contra hpos
        exact lt_irrefl _ (hbelow (Nat.pos_of_ne_zero hpos))
      unfold spots at hupd
      simp only [Pc.ids, List.count_cons_self, List.count_nil] at hupd
      omega
    · unfold spots at hupd
      simp only [Pc.ids, List.count_cons, List.count_nil, beq_iff_eq, hne.symm, if_false] at hupd
      omega
  · have hspots := h.spots hi.links (hi.locals t) hgrow id
    omega

/-- Every id stays below the mark: the table grows past the id it hands out, and a trim lowers
the mark only past ids that are in its own hands. -/
theorem Ids.below_step (hi : Ids m loc) (h : Step m (loc t) m' pc') (id : ℕ)
    (hid : 0 < places m' (update loc t pc') id) : id < m'.nextId := by
  have hone := hi.one id
  have hbelow := hi.below id
  have hupd := places_update m m' loc t pc' id
  have hspots := fun hg => h.spots hi.links (hi.locals t) hg id
  have hlocal := hi.locals t
  generalize hpc : loc t = pc at *
  cases h
  case grow =>
    rcases eq_or_ne id m.nextId with rfl | hne
    · exact Nat.lt_succ_self _
    · unfold spots at hupd
      simp only [Pc.ids, List.count_cons, List.count_nil, beq_iff_eq, hne.symm, if_false] at hupd
      exact Nat.lt_succ_of_lt (hbelow (by omega))
  case lowerWon taken keep current h =>
    by_contra hge
    have hpos : 0 < places m loc id := by
      have := hspots nofun
      omega
    have hmem : id ∈ taken := hlocal id (Nat.le_of_not_lt hge) (h ▸ hbelow hpos)
    have hcount := List.count_pos_iff.mpr hmem
    have hzero : (taken.filter (· < keep)).count id = 0 :=
      List.count_eq_zero.mpr fun hf => hge (by simpa using (List.mem_filter.mp hf).2)
    unfold spots at hupd
    simp only [Pc.ids] at hupd
    omega
  all_goals
    have := hspots nofun
    exact hbelow (by omega)

/-- **A step keeps every id in one place**, unless it is a pop that stalled across a full turn
of the tag. -/
theorem Ids.step (hi : Ids m loc) (h : Step m (loc t) m' pc')
    (hstall : ∀ v id next, loc t = .popSwap v id next → m.pops < v + 2 ^ tagBits) :
    Ids m' (update loc t pc') := by
  have hd : ∀ id ∈ m.chain, id ∉ (loc t).ids := fun id hid => hi.not_mem_ids hid
  obtain ⟨hlinks, hchain⟩ := h.links hi.links hi.chain (hi.locals t) hd hstall
  refine ⟨hi.one_step h, hi.below_step h, hlinks, hchain, forall_update ?_ ?_⟩
  · exact h.local_self hi.links hi.chain (hi.locals t) (hi.nodup t)
  · intro u hne
    exact (hi.locals u).frame (h.keeps (hi.locals t))
      (fun id hid => ⟨hd id hid, (hi.chain id hid).2⟩) fun id hid => hi.disjoint hne hid

theorem Ids.of_next {s : Config T Mem Pc} {a : Act} (hi : Ids s.mem s.loc) (hok : NoStall s t a)
    (hn : machine.next s.mem (s.loc t) a = some (m', pc')) :
    Ids m' (update s.loc t pc') :=
  hi.step (next_step hn) fun v id nx hpc => hok v (by rw [hpc]; rfl)

omit [DecidableEq T] in
theorem Fresh.ids {s : Config T Mem Pc} (h : Fresh s) : Ids s.mem s.loc := by
  have hplaces : ∀ id, places s.mem s.loc id = 0 := by
    intro id
    have hzero : total (fun pc : Pc => pc.ids.count id) s.loc = 0 :=
      total_eq_zero_of_forall fun t => by rw [h.loc t]; rfl
    rw [places, h.chain, h.alive, hzero]
    rfl
  refine ⟨fun id => ?_, fun id hid => ?_, ?_, ?_, fun t => ?_⟩
  · rw [hplaces id]
    exact Nat.zero_le _
  · rw [hplaces id] at hid
    exact absurd hid (lt_irrefl 0)
  · rw [h.head, h.chain]
    rfl
  · rw [h.chain]
    exact nofun
  · rw [h.loc t]
    trivial

theorem ids_of_reach {s : Config T Mem Pc} (hs : machine.Reach Fresh NoStall s) :
    Ids s.mem s.loc :=
  hs.invariant (I := fun s => Ids s.mem s.loc) (fun _ h => h.ids)
    fun _ _ _ _ _ hi hok hn => hi.of_next hok hn

/-- **No id is handed out while it is out**, and following the free list from its head visits
distinct ids, none of them out, and ends. -/
theorem ids_apart {s : Config T Mem Pc} (hs : machine.Reach Fresh NoStall s) :
    (∀ t id, s.loc t = .count id → id ∉ s.mem.alive) ∧
      ∃ l, Links s.mem.next s.mem.head l ∧ l.Nodup ∧ ∀ id ∈ l, id ∉ s.mem.alive := by
  have hi := ids_of_reach hs
  refine ⟨fun t id hpc hmem => ?_, s.mem.chain, hi.links, ?_, fun id hid hmem => ?_⟩
  · have h1 := places_le s.mem s.loc t id
    have h2 := hi.one id
    rw [spots, hpc, decide_eq_true hmem] at h1
    simp only [Pc.ids, List.count_cons_self, Bool.toNat_true] at h1
    omega
  · refine List.nodup_iff_count_le_one.mpr fun id => ?_
    have h2 := hi.one id
    unfold places at h2
    omega
  · have h1 := List.count_pos_iff.mpr hid
    have h2 := hi.one id
    rw [places, decide_eq_true hmem, Bool.toNat_true] at h2
    omega

end Run

/-- A call, and the `n` steps of it that follow. -/
def calling (t : Fin 2) (a : Act) (n : ℕ) : List (Fin 2 × Act) :=
  (t, a) :: List.replicate n (t, .go)

/-- Three ids are handed out, two of them are given back, and the other thread is about to be
handed the last of these. -/
theorem ids_apart_newTable : ∃ s, machine.Reach Fresh NoStall s ∧ s.loc (1 : Fin 2) = .count 1 ∧
    s.mem.head = 1 ∧ (1 ∉ s.mem.alive) ∧
      ∃ l, Links s.mem.next s.mem.head l ∧ l.Nodup ∧ ∀ id ∈ l, id ∉ s.mem.alive := by
  obtain ⟨s, hs, hpc, hhead⟩ : ∃ s, machine.Reach Fresh NoStall s ∧
      s.loc (1 : Fin 2) = .count 1 ∧ s.mem.head = 1 :=
    (Machine.Reach.init newTable_fresh).exists_of_run (calling 0 .alloc 5 ++ calling 0 .alloc 4 ++
      calling 0 .alloc 4 ++ calling 0 (.free 0) 5 ++ calling 0 (.free 1) 5 ++
      calling 1 .alloc 4) (by decide +kernel)
  obtain ⟨hout, hlist⟩ := ids_apart hs
  exact ⟨s, hs, hpc, hhead, hout 1 1 hpc, hlist⟩

end Atap.Table
