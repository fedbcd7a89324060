import Atap.Table.Ids

/-!
# No id is lost

Every id below `next_id` is in some place: handed out, on the free list, or in the hands of a
thread. A trim works from the `next_id` it loaded first. It puts back what it took and does not give
up only below a limit, which is that `next_id` or the one it lowers it to; so what is on the list
when the trim takes it and not below that first `next_id` is put nowhere (`trim_loses`). It gets
there when the table grows, and the new id is given back, after the load.

* `Spanned`: whenever a trim takes the list, all of it is below the `next_id` that the trim loaded.
* `Whole.step`: an id that is in some place stays in some place, if it is below the mark at all.
* `none_lost`: so in every run under the condition, once no operation is in progress, every id below
  the mark is out or on the free list.
-/

namespace Atap.Table

open Function

variable {T : Type*}

/-- The kernel refuses no block, and the table does not grow past the last id. -/
def Served (s : Config T Mem Pc) (t : T) (a : Act) : Prop :=
  a ≠ .refuse ∧ (s.loc t = .grow → s.mem.nextId < maxTaskId)

/-- The head that a trim is about to exchange, and the `next_id` that it loaded. -/
def Pc.drains : Pc → Option (ℕ × ℕ × ℕ)
  | drainSwap v index _ current => some (v, index, current)
  | _ => none

/-- A trim that takes the list takes only ids below the `next_id` that it loaded. -/
def Spanned (s : Config T Mem Pc) (t : T) (_ : Act) : Prop :=
  ∀ d ∈ (s.loc t).drains, s.mem.sameHead d.1 d.2.1 → ∀ id ∈ s.mem.chain, id < d.2.2

/-- No thread stalls, and every call is served. -/
def Steady (s : Config T Mem Pc) (t : T) (a : Act) : Prop := NoStall s t a ∧ Served s t a

/-- What a whole table is kept by. -/
def Careful (s : Config T Mem Pc) (t : T) (a : Act) : Prop := Steady s t a ∧ Spanned s t a

/-! ### What a thread counts on -/

/-- The ids whose slots a thread will look up. -/
def Pc.relies : Pc → List ℕ
  | popSlot _ id => [id]
  | growBlock _ | growMap _ => []
  | pc => pc.ids

/-- The id a thread is growing the table by. -/
def Pc.grows : Pc → Option ℕ
  | growBlock id | growMap id => some id
  | _ => none

/-- What a trim has taken is below the `next_id` it loaded, and it lowers that. -/
def After.Below : After → Prop
  | walk _ w => ∀ id ∈ w.taken ++ w.rest, id < w.current
  | _ => True

/-- What a trim has taken is below the `next_id` it loaded, and it lowers that. -/
def Pc.Below : Pc → Prop
  | pushLoad _ k | pushLink _ _ _ k | pushSwap _ _ _ k => k.Below
  | walkSlot _ w | walkNext _ w => ∀ id ∈ w.taken ++ w.rest, id < w.current
  | release taken keep current | record taken keep current | lower taken keep current =>
    keep ≤ current ∧ ∀ id ∈ taken, id < current
  | _ => True

structure Pc.Held (m : Mem) (pc : Pc) : Prop where
  slots : ∀ id ∈ pc.relies, m.slot id = true
  grows : ∀ id ∈ pc.grows, id < maxTaskId
  below : pc.Below

/-- No id below the mark is lost, and every id that was handed out has a slot. -/
structure Whole [Fintype T] (m : Mem) (loc : T → Pc) : Prop where
  whole : ∀ id < m.nextId, 0 < places m loc id
  chain : ∀ id ∈ m.chain, m.slot id = true
  alive : ∀ id ∈ m.alive, m.slot id = true
  held : ∀ t, (loc t).Held m

/-! ### Why an operation is cut short -/

section Short

variable {m m' : Mem} {pc pc' : Pc} {a : Act} {v id x cursor limit : ℕ} {ids : List ℕ} {w : Walk}

theorem slot_of_popGone (h : next m (.popSlot v id) a = some (m', .idle)) : m.slot id = false := by
  cases a with
  | go =>
    simp only [next, allocStep] at h
    split at h
    · cases h
    · exact Bool.eq_false_iff.mpr ‹_›
  | _ => cases h

theorem slot_of_freeGone (h : next m (.freeSlot id) a = some (m', .idle)) : m.slot id = false := by
  cases a with
  | go =>
    simp only [next, pushStep] at h
    split at h
    · cases h
    · exact Bool.eq_false_iff.mpr ‹_›
  | _ => cases h

theorem le_of_growOver (h : next m (.growBlock id) a = some (m', .idle)) : maxTaskId ≤ id := by
  cases a with
  | go =>
    simp only [next, allocStep] at h
    split at h
    · assumption
    · split at h <;> cases h
  | _ => cases h

theorem slot_of_growFound (h : next m (.growBlock id) a = some (m', .count id)) :
    m.slot id = true := by
  cases a with
  | go =>
    simp only [next, allocStep] at h
    split at h
    · cases h
    · rename_i hlt
      split at h
      · rename_i hm
        simp [Mem.slot, hm, Nat.lt_of_not_le hlt]
      · cases h
  | _ => cases h

theorem eq_refuse_of_growRefused (h : next m (.growMap id) a = some (m', .idle)) :
    a = .refuse := by
  cases a with
  | refuse => rfl
  | _ => cases h

theorem slot_of_walkOver (h : next m (.walkSlot cursor w) a = some (m', w.done)) :
    cursor = 0 ∨ m.slot (cursor - 1) = false := by
  cases a with
  | go =>
    simp only [next, trimStep] at h
    split at h
    · exact .inl ‹_›
    · split at h
      · have hdone := (Prod.mk.inj (Option.some.inj h)).2
        unfold Walk.done at hdone
        split at hdone
        · cases hdone
        · split at hdone <;> cases hdone
      · exact .inr (Bool.eq_false_iff.mpr ‹_›)
  | _ => cases h

theorem slot_of_restoreSkip
    (h : next m (.restore (id :: ids) limit) a = some (m', .restore ids limit)) :
    limit ≤ id ∨ m.slot id = false := by
  cases a with
  | go =>
    simp only [next, trimStep] at h
    split at h
    · exact .inl ‹_›
    · split at h
      · cases h
      · exact .inr (Bool.eq_false_iff.mpr ‹_›)
  | _ => cases h

/-! ### What a step does not lose -/

/-- At the end of its walk a trim has every id it took, and only those it puts below the
`next_id` it loaded. -/
theorem Walk.count_le_done (hb : ∀ x ∈ w.taken, x < w.current) :
    w.taken.count id ≤ w.done.ids.count id := by
  unfold Walk.done
  split
  case isTrue h =>
    rw [h]
    exact Nat.zero_le _
  case isFalse =>
    split
    · show _ ≤ (w.taken.filter (· < w.current)).count id
      rw [List.filter_eq_self.mpr fun x hx => decide_eq_true (hb x hx)]
    · exact le_rfl

/-- A step leaves an id in as many places as it was in, if it is below the mark after it. -/
theorem spots_le_of_next (hn : next m pc a = some (m', pc')) (ha : a ≠ .refuse)
    (hl : Links m.next m.head m.chain) (hp : pc.Local m) (hh : pc.Held m)
    (hone : spots m pc id ≤ 1) (hid : id < m'.nextId) : spots m pc id ≤ spots m' pc' id := by
  cases next_step hn
  case free x hx =>
    show m.chain.count id + (decide (id ∈ m.alive)).toNat + 0 ≤
      m.chain.count id + (decide (id ∈ m.alive.erase x)).toNat + [x].count id
    rcases eq_or_ne id x with rfl | hne
    · simp [hx]
    · simp [hne, hne.symm]
  case popGone v x =>
    have hslot := slot_of_popGone hn
    rw [hh.slots x List.mem_cons_self] at hslot
    cases hslot
  case popWon v x next hhead =>
    show m.chain.count id + (decide (id ∈ m.alive)).toNat + 0 ≤
      m.chain.tail.count id + (decide (id ∈ m.alive)).toNat + [x].count id
    have hcount : m.chain.count id = m.chain.tail.count id + [x].count id := by
      rw [(chain_of_pop hl hhead.2).1, List.tail_cons]
      simp only [List.count_cons, List.count_nil]
      omega
    omega
  case grow => exact Nat.le_add_right _ _
  case growOver x =>
    exact absurd (hh.grows x rfl) (Nat.not_lt.mpr (le_of_growOver hn))
  case growRefused => exact absurd (eq_refuse_of_growRefused hn) ha
  case count x =>
    show m.chain.count id + (decide (id ∈ m.alive)).toNat + [x].count id ≤
      m.chain.count id + (decide (id ∈ insert x m.alive)).toNat + 0
    rcases eq_or_ne id x with rfl | hne
    · rw [decide_eq_true (Finset.mem_insert_self id m.alive), Bool.toNat_true]
      exact hone.trans (Nat.le_add_left _ _)
    · simp [hne, hne.symm]
  case freeGone x =>
    have hslot := slot_of_freeGone hn
    rw [hh.slots x List.mem_cons_self] at hslot
    cases hslot
  case pushWon x v index k hhead =>
    show m.chain.count id + (decide (id ∈ m.alive)).toNat + (x :: k.ids).count id ≤
      (x :: m.chain).count id + (decide (id ∈ m.alive)).toNat + k.pc.ids.count id
    rw [After.pc_ids, List.count_cons, List.count_cons]
    omega
  case drainWon v index floor current hhead =>
    show m.chain.count id + (decide (id ∈ m.alive)).toNat + 0 ≤
      0 + (decide (id ∈ m.alive)).toNat + m.chain.count id
    omega
  case walkOver cursor w =>
    have hcursor : cursor = 0 := by
      by_contra hne
      have hmem : cursor - 1 ∈ w.taken ++ w.rest := by
        rw [(Tail.eq_cons hp hne).1]
        exact List.mem_append_right _ List.mem_cons_self
      have hslot := (slot_of_walkOver hn).resolve_left hne
      rw [hh.slots _ hmem] at hslot
      cases hslot
    have hrest : w.rest = [] := (hcursor ▸ hp.links : Links m.next 0 w.rest).eq_nil
    refine Nat.add_le_add_left ?_ _
    show (w.taken ++ w.rest).count id ≤ w.done.ids.count id
    rw [hrest, List.append_nil]
    exact Walk.count_le_done fun x hx => hh.below x (List.mem_append_left _ hx)
  case walkBack x w =>
    refine Nat.add_le_add_left ?_ _
    show (w.taken ++ w.rest).count id ≤ (x :: (w.taken ++ w.rest.tail)).count id
    rw [(hp.2.eq_cons (Nat.succ_ne_zero x)).1]
    simp only [List.count_append, List.count_cons, List.tail_cons, Nat.add_sub_cancel]
    omega
  case walkTake x w =>
    refine Nat.add_le_add_left ?_ _
    show (w.taken ++ w.rest).count id ≤ ((w.taken ++ [x]) ++ w.rest.tail).count id
    rw [(hp.2.eq_cons (Nat.succ_ne_zero x)).1]
    simp only [List.count_append, List.count_cons, List.tail_cons, List.count_nil,
      Nat.add_sub_cancel]
    omega
  case lowerWon taken keep current hcur =>
    refine Nat.add_le_add_left ?_ _
    show taken.count id ≤ (taken.filter (· < keep)).count id
    exact (List.count_filter (p := fun x => decide (x < keep)) (decide_eq_true hid)).ge
  case lowerLost taken keep current =>
    refine Nat.add_le_add_left ?_ _
    show taken.count id ≤ (taken.filter (· < current)).count id
    rw [List.filter_eq_self.mpr fun x hx => decide_eq_true (hh.below.2 x hx)]
  case restoreSkip x ids limit =>
    refine Nat.add_le_add_left ?_ _
    show ((x :: ids).filter (· < limit)).count id ≤ (ids.filter (· < limit)).count id
    have hle : limit ≤ x := by
      by_contra hlt
      have hmem : x ∈ (x :: ids).filter (· < limit) :=
        List.mem_filter.mpr ⟨List.mem_cons_self, decide_eq_true (Nat.lt_of_not_le hlt)⟩
      have hslot := (slot_of_restoreSkip hn).resolve_left hlt
      rw [hh.slots x hmem] at hslot
      cases hslot
    rw [List.filter_cons_of_neg (by simpa using hle)]
  case restorePush x ids limit hlt hid =>
    refine Nat.add_le_add_left (le_of_eq ?_) _
    show ((x :: ids).filter (· < limit)).count id = (x :: ids.filter (· < limit)).count id
    rw [List.filter_cons_of_pos (by simpa using hlt)]
  all_goals exact le_rfl

/-! ### What a thread counts on after a step -/

/-- Blocks stay mapped. -/
theorem slot_of_next (hn : next m pc a = some (m', pc')) (hs : m.slot id = true) :
    m'.slot id = true := by
  cases next_step hn
  case growMapped x =>
    obtain ⟨hlt, hm⟩ := Bool.and_eq_true_iff.mp hs
    refine Bool.and_eq_true_iff.mpr ⟨hlt, ?_⟩
    show update m.mapped (blockOf x) true (blockOf id) = true
    by_cases hb : blockOf id = blockOf x
    · rw [hb, update_self]
    · rwa [update_of_ne hb]
  all_goals exact hs

/-- What a trim does with what it took is within what it loaded. -/
theorem Walk.done_below (hb : ∀ x ∈ w.taken, x < w.current) : w.done.Below := by
  unfold Walk.done
  split
  · trivial
  · split
    case isTrue => trivial
    case isFalse h => exact ⟨(Nat.lt_of_not_le h).le, hb⟩

theorem Walk.done_relies (hs : x ∈ w.done.relies) : x ∈ w.taken := by
  unfold Walk.done at hs
  split at hs
  · cases hs
  · split at hs
    · exact List.mem_of_mem_filter hs
    · exact hs

theorem Walk.done_grows (w : Walk) : w.done.grows = none := by
  unfold Walk.done
  split
  · rfl
  · split <;> rfl

theorem After.pc_relies (k : After) : k.pc.relies = k.ids := by cases k <;> rfl

theorem After.pc_below (k : After) : k.pc.Below = k.Below := by cases k <;> rfl

theorem After.pc_grows (k : After) : k.pc.grows = none := by cases k <;> rfl

/-- An id whose slot a thread will look up was on the list, was out, or it relied on it before;
or it has just made sure of the slot. -/
theorem relies_of_next (hn : next m pc a = some (m', pc')) (hl : Links m.next m.head m.chain)
    (hp : pc.Local m) (hg : ∀ id ∈ pc.grows, id < maxTaskId) (hx : x ∈ pc'.relies) :
    x ∈ pc.relies ∨ x ∈ m.chain ∨ x ∈ m.alive ∨ m'.slot x = true := by
  cases next_step hn
  case free y hy =>
    cases List.mem_singleton.mp hx
    exact .inr (.inr (.inl hy))
  case popLoad h =>
    cases List.mem_singleton.mp hx
    obtain ⟨l, hchain, -⟩ := hl.eq_cons h
    exact .inr (.inl (hchain ▸ List.mem_cons_self))
  case popWon v y next hhead =>
    cases List.mem_singleton.mp hx
    exact .inr (.inl ((chain_of_pop hl hhead.2).1 ▸ List.mem_cons_self))
  case growFound y =>
    cases List.mem_singleton.mp hx
    exact .inr (.inr (.inr (slot_of_growFound hn)))
  case growMapped y =>
    cases List.mem_singleton.mp hx
    refine .inr (.inr (.inr (Bool.and_eq_true_iff.mpr ⟨decide_eq_true (hg x rfl), ?_⟩)))
    exact update_self ..
  case pushWon y v index k hhead =>
    rw [After.pc_relies] at hx
    exact .inl (List.mem_cons_of_mem _ hx)
  case drainWon => exact .inr (.inl hx)
  case walkOver cursor w => exact .inl (List.mem_append_left _ (Walk.done_relies hx))
  case walkBack y w =>
    refine .inl ?_
    show x ∈ w.taken ++ w.rest
    rw [(hp.2.eq_cons (Nat.succ_ne_zero y)).1]
    simpa [Pc.relies, Pc.ids, After.ids, or_left_comm] using hx
  case walkTake y w =>
    refine .inl ?_
    show x ∈ w.taken ++ w.rest
    rw [(hp.2.eq_cons (Nat.succ_ne_zero y)).1]
    simpa [Pc.relies, Pc.ids, or_assoc] using hx
  case lowerWon | lowerLost => exact .inl (List.mem_of_mem_filter hx)
  case restoreSkip y ids limit =>
    exact .inl (((List.sublist_cons_self y ids).filter _).subset hx)
  case restorePush y ids limit hlt hid =>
    refine .inl ?_
    show x ∈ (y :: ids).filter (· < limit)
    rw [List.filter_cons_of_pos (by simpa using hlt)]
    exact hx
  all_goals first | exact .inl hx | cases hx

/-- A thread that grows the table grows it by an id that there is. -/
theorem grows_of_next (hn : next m pc a = some (m', pc')) (hg : ∀ id ∈ pc.grows, id < maxTaskId)
    (hserved : pc = .grow → m.nextId < maxTaskId) (hx : x ∈ pc'.grows) : x < maxTaskId := by
  cases next_step hn
  case grow =>
    cases hx
    exact hserved rfl
  case growMissing y => exact hg x hx
  case walkOver cursor w =>
    rw [Walk.done_grows] at hx
    cases hx
  case pushWon y v index k hhead =>
    rw [After.pc_grows] at hx
    cases hx
  all_goals cases hx

theorem below_of_next (hn : next m pc a = some (m', pc')) (hp : pc.Local m) (hb : pc.Below)
    (hspan : ∀ d ∈ pc.drains, m.sameHead d.1 d.2.1 → ∀ id ∈ m.chain, id < d.2.2) :
    pc'.Below := by
  cases next_step hn
  case pushWon y v index k hhead =>
    rw [After.pc_below]
    exact hb
  case drainWon v index floor current hhead => exact hspan _ rfl hhead
  case walkOver cursor w => exact Walk.done_below fun x hx => hb x (List.mem_append_left _ hx)
  case walkBack y w =>
    intro x hx
    refine hb x ?_
    rw [(hp.2.eq_cons (Nat.succ_ne_zero y)).1]
    simpa using (List.mem_append.mp hx).imp_right .inr
  case walkTake y w =>
    intro x hx
    refine hb x ?_
    rw [(hp.2.eq_cons (Nat.succ_ne_zero y)).1]
    simpa [or_assoc] using hx
  all_goals first | exact hb | trivial

/-- An id that comes on the list, or out, was in the hands of the thread. -/
theorem mem_of_next (hn : next m pc a = some (m', pc')) :
    (x ∈ m'.chain → x ∈ m.chain ∨ x ∈ pc.relies) ∧
      (x ∈ m'.alive → x ∈ m.alive ∨ x ∈ pc.relies) := by
  cases next_step hn
  case free y hy => exact ⟨.inl, fun hx => .inl (Finset.mem_of_mem_erase hx)⟩
  case popWon => exact ⟨fun hx => .inl (List.mem_of_mem_tail hx), .inl⟩
  case count y =>
    refine ⟨.inl, fun hx => ?_⟩
    obtain rfl | hx := Finset.mem_insert.mp hx
    · exact .inr List.mem_cons_self
    · exact .inl hx
  case pushWon y v index k hhead =>
    refine ⟨fun hx => ?_, .inl⟩
    obtain rfl | hx := List.mem_cons.mp hx
    · exact .inr List.mem_cons_self
    · exact .inl hx
  case drainWon => exact ⟨nofun, .inl⟩
  all_goals exact ⟨.inl, .inl⟩

/-- The mark rises by the id that the table grows by, and otherwise not at all. -/
theorem nextId_of_next (hn : next m pc a = some (m', pc')) (hb : pc.Below) :
    m'.nextId ≤ m.nextId ∨
      m'.nextId = m.nextId + 1 ∧ spots m' pc' m.nextId = spots m pc m.nextId + 1 := by
  cases next_step hn
  case grow =>
    refine .inr ⟨rfl, ?_⟩
    show _ + [m.nextId].count m.nextId = _ + 0 + 1
    rw [List.count_cons_self, List.count_nil]
    rfl
  case lowerWon taken keep current h => exact .inl (h ▸ hb.1)
  all_goals exact .inl le_rfl

end Short

/-! ### Every run -/

section Run

variable [Fintype T] [DecidableEq T] {m m' : Mem} {pc' : Pc} {loc : T → Pc} {t : T} {a : Act}

theorem Whole.step (hw : Whole m loc) (hi : Ids m loc) (hok : Careful ⟨m, loc⟩ t a)
    (hn : next m (loc t) a = some (m', pc')) : Whole m' (update loc t pc') := by
  obtain ⟨⟨-, hrefuse, hgrow⟩, hspan⟩ := hok
  have hh := hw.held t
  have hslot {x : ℕ} (hx : x ∈ m.chain ∨ x ∈ m.alive ∨ x ∈ (loc t).relies) :
      m'.slot x = true := by
    obtain hx | hx | hx := hx
    · exact slot_of_next hn (hw.chain x hx)
    · exact slot_of_next hn (hw.alive x hx)
    · exact slot_of_next hn (hh.slots x hx)
  refine ⟨?_, ?_, ?_, ?_⟩
  · intro id hid
    have hupd := places_update m m' loc t pc' id
    have hone := (places_le m loc t id).trans (hi.one id)
    have hle := spots_le_of_next hn hrefuse hi.links (hi.locals t) hh hone hid
    by_cases hlt : id < m.nextId
    · have hpos := hw.whole id hlt
      omega
    · -- only the id the table has just grown by was not below the mark
      obtain hmark | ⟨hmark, hspots⟩ := nextId_of_next hn hh.below
      · exact absurd (hid.trans_le hmark) hlt
      · obtain rfl : id = m.nextId := by omega
        omega
  · intro id hid
    exact hslot (((mem_of_next hn).1 hid).imp_right .inr)
  · intro id hid
    exact hslot (.inr ((mem_of_next hn).2 hid))
  · intro u
    by_cases hu : u = t
    · subst hu
      rw [update_self]
      refine ⟨?_, ?_, below_of_next hn (hi.locals u) hh.below hspan⟩
      · intro x hx
        obtain hx | hx | hx | hx := relies_of_next hn hi.links (hi.locals u) hh.grows hx
        · exact hslot (.inr (.inr hx))
        · exact hslot (.inl hx)
        · exact hslot (.inr (.inl hx))
        · exact hx
      · intro x
        exact grows_of_next hn hh.grows hgrow
    · rw [update_of_ne hu]
      exact ⟨fun x hx => slot_of_next hn ((hw.held u).slots x hx), (hw.held u).grows,
        (hw.held u).below⟩

omit [DecidableEq T] in
theorem Fresh.whole {s : Config T Mem Pc} (h : Fresh s) : Whole s.mem s.loc := by
  refine ⟨?_, ?_, ?_, ?_⟩
  · intro id hid
    rw [h.nextId] at hid
    cases hid
  · rw [h.chain]
    exact nofun
  · rw [h.alive]
    exact nofun
  · intro t
    rw [h.loc t]
    exact ⟨nofun, nofun, trivial⟩

omit [DecidableEq T] in
/-- An id that no thread has in its hands is out or on the free list. -/
theorem Whole.mem (hw : Whole m loc) (hids : ∀ t, (loc t).ids = []) {id : ℕ}
    (hid : id < m.nextId) : id ∈ m.alive ∨ id ∈ m.chain := by
  have hpos := hw.whole id hid
  have hzero : total (fun pc : Pc => pc.ids.count id) loc = 0 :=
    total_eq_zero_of_forall fun t => by rw [hids t]; rfl
  by_contra hnot
  obtain ⟨hout, hlist⟩ := not_or.mp hnot
  rw [places, hzero, List.count_eq_zero.mpr hlist, decide_eq_false hout] at hpos
  cases hpos

/-- Every id is in one place, and none is lost. -/
theorem ids_whole {s : Config T Mem Pc} (hs : machine.Reach Fresh Careful s) :
    Ids s.mem s.loc ∧ Whole s.mem s.loc := by
  refine hs.invariant (I := fun s => Ids s.mem s.loc ∧ Whole s.mem s.loc)
    (fun _ h => ⟨h.ids, h.whole⟩) ?_
  intro s t a m' pc' hi hok hn
  exact ⟨hi.1.of_next hok.1.1 hn, hi.2.step hi.1 hok hn⟩

/-- **No id is lost.** If whenever a trim takes the free list all of it is below the `next_id` that
the trim loaded, then once no operation is in progress every id below the mark is out or on the
free list. -/
theorem none_lost {s : Config T Mem Pc} (hs : machine.Reach Fresh Careful s)
    (hidle : ∀ t, s.loc t = .idle) : ∃ l, Links s.mem.next s.mem.head l ∧
      ∀ id < s.mem.nextId, id ∈ s.mem.alive ∨ id ∈ l := by
  obtain ⟨hi, hw⟩ := ids_whole hs
  exact ⟨s.mem.chain, hi.links, fun id hid => hw.mem (fun t => by rw [hidle t]; rfl) hid⟩

/-! ### Whole calls -/

omit [Fintype T] in
/-- A step with the head that the thread loaded still there. -/
theorem steady_of {pc : Pc} (ha : a ≠ .refuse) (hl : ∀ v ∈ pc.loaded, v = m.pops)
    (hg : pc = .grow → m.nextId < maxTaskId) :
    Steady ⟨m, update loc t pc⟩ t a := by
  have hself : update loc t pc t = pc := update_self ..
  refine ⟨?_, ha, ?_⟩
  · intro v hv
    rw [hl v (hself ▸ hv)]
    exact Nat.lt_add_of_pos_right (Nat.two_pow_pos _)
  · intro hpc
    exact hg (hself ▸ hpc)

/-- The head that a thread loaded is still there, and it is not a trim about to take the list. -/
structure Pc.Fair (m : Mem) (pc : Pc) : Prop where
  loaded : ∀ v ∈ pc.loaded, v = m.pops
  drains : pc.drains = none
  grows : pc = .grow → m.nextId < maxTaskId

omit [Fintype T] in
theorem reach_move {pc q : Pc} {n : Mem}
    (hs : machine.Reach Fresh Careful ⟨m, update loc t pc⟩)
    (hn : next m pc a = some (n, q)) (ha : a ≠ .refuse) (hf : pc.Fair m) :
    machine.Reach Fresh Careful ⟨n, update loc t q⟩ := by
  refine hs.move ⟨steady_of ha hf.loaded hf.grows, ?_⟩ hn
  intro d hd
  rw [show (Config.mk m (update loc t pc)).loc t = pc from update_self ..,
    hf.drains] at hd
  cases hd

/-- An `alloc` that finds no id on the list grows the table. -/
theorem reach_grow (hs : machine.Reach Fresh Careful ⟨m, loc⟩) (hidle : loc t = .idle)
    (hchain : m.chain = []) (hmax : m.nextId < maxTaskId) :
    ∃ m', machine.Reach Fresh Careful ⟨m', loc⟩ ∧ m'.chain = [] ∧ m'.nextId = m.nextId + 1 ∧
      m'.live = m.live + 1 ∧ m'.alive = insert m.nextId m.alive ∧ m'.trimming = m.trimming := by
  have hhead : m.head = 0 := by
    have hl := (ids_whole hs).1.links
    rw [show (Config.mk m loc).mem.chain = [] from hchain] at hl
    exact hl
  rw [← update_eq_self t loc, hidle] at hs ⊢
  have h₁ := reach_move (a := .alloc) hs rfl nofun ⟨nofun, rfl, nofun⟩
  have h₂ := reach_move (a := .go) (n := m) (q := .grow) h₁
    (by simp [next, allocStep, hhead]) nofun ⟨nofun, rfl, nofun⟩
  have h₃ := reach_move (a := .go) h₂ rfl nofun ⟨nofun, rfl, fun _ => hmax⟩
  have hlast {m₁ : Mem} (h : machine.Reach Fresh Careful
      ⟨m₁, update loc t (.count m.nextId)⟩) :=
    reach_move (a := .go) h rfl nofun ⟨nofun, rfl, nofun⟩
  cases hm : m.mapped (blockOf m.nextId) with
  | true =>
    have h₄ := reach_move (a := .go) (q := .count m.nextId) h₃
      (by simp [next, allocStep, hm, Nat.not_le.mpr hmax]; rfl) nofun ⟨nofun, rfl, nofun⟩
    exact ⟨_, hlast h₄, hchain, rfl, rfl, rfl, rfl⟩
  | false =>
    have h₄ := reach_move (a := .go) (q := .growMap m.nextId) h₃
      (by simp [next, allocStep, hm, Nat.not_le.mpr hmax]; rfl) nofun ⟨nofun, rfl, nofun⟩
    have h₅ := reach_move (a := .go) h₄ rfl nofun ⟨nofun, rfl, nofun⟩
    exact ⟨_, hlast h₅, hchain, rfl, rfl, rfl, rfl⟩

/-- An `alloc` that finds an id on the list takes it. -/
theorem reach_pop {id : ℕ} {l : List ℕ} (hs : machine.Reach Fresh Careful ⟨m, loc⟩)
    (hidle : loc t = .idle) (hchain : m.chain = id :: l) :
    ∃ m', machine.Reach Fresh Careful ⟨m', loc⟩ ∧ m'.chain = l ∧ m'.nextId = m.nextId := by
  obtain ⟨hi, hw⟩ := ids_whole hs
  have hhead : m.head = id + 1 := by
    have hl := hi.links
    rw [show (Config.mk m loc).mem.chain = id :: l from hchain] at hl
    exact hl.1
  have hslot : m.slot id = true := hw.chain id (hchain ▸ List.mem_cons_self)
  rw [← update_eq_self t loc, hidle] at hs ⊢
  have h₁ := reach_move (a := .alloc) hs rfl nofun ⟨nofun, rfl, nofun⟩
  have h₂ := reach_move (a := .go) (n := m) (q := .popSlot m.pops id) h₁
    (by simp [next, allocStep, hhead]) nofun ⟨nofun, rfl, nofun⟩
  have h₃ := reach_move (a := .go) (n := m) (q := .popNext m.pops id) h₂
    (by simp [next, allocStep, hslot]) nofun ⟨nofun, rfl, nofun⟩
  have h₄ := reach_move (a := .go) h₃ rfl nofun ⟨nofun, rfl, nofun⟩
  have h₅ := reach_move (a := .go) (q := .count id) h₄
    (n := { m with pops := m.pops + 1, head := m.next id, chain := m.chain.tail })
    (by simp [next, allocStep, hhead]) nofun
    ⟨fun v hv => (Option.some.inj hv).symm, rfl, nofun⟩
  refine ⟨_, reach_move (a := .go) h₅ rfl nofun ⟨nofun, rfl, nofun⟩, ?_, rfl⟩
  show m.chain.tail = l
  rw [hchain, List.tail_cons]

/-- A `free` puts its id first on the list. -/
theorem reach_free {id : ℕ} (hs : machine.Reach Fresh Careful ⟨m, loc⟩) (hidle : loc t = .idle)
    (hid : id ∈ m.alive) :
    ∃ m', machine.Reach Fresh Careful ⟨m', loc⟩ ∧ m'.chain = id :: m.chain ∧
      m'.nextId = m.nextId ∧ m'.live = m.live - 1 ∧ m'.alive = m.alive.erase id ∧
      m'.trimming = m.trimming := by
  have hslot : m.slot id = true := (ids_whole hs).2.alive id hid
  rw [← update_eq_self t loc, hidle] at hs ⊢
  have h₁ := reach_move (a := .free id) (n := { m with alive := m.alive.erase id })
    (q := .freeSlot id) hs (by simp [next, callStep, hid]) nofun ⟨nofun, rfl, nofun⟩
  have h₂ := reach_move (a := .go) (n := { m with alive := m.alive.erase id })
    (q := .freeCount id) h₁ ?_ nofun ⟨nofun, rfl, nofun⟩
  · have h₃ := reach_move (a := .go) h₂ rfl nofun ⟨nofun, rfl, nofun⟩
    have h₄ := reach_move (a := .go) h₃ rfl nofun ⟨nofun, rfl, nofun⟩
    have h₅ := reach_move (a := .go) h₄ rfl nofun ⟨nofun, rfl, nofun⟩
    exact ⟨_, reach_move (a := .go) (q := .idle) h₅ (if_pos ⟨rfl, rfl⟩) nofun
      ⟨fun v hv => (Option.some.inj hv).symm, rfl, nofun⟩, rfl, rfl, rfl, rfl, rfl⟩
  · show some _ = some _
    rw [if_pos (show Mem.slot { m with alive := m.alive.erase id } id = true from hslot)]

/-- Growing a new table, one call after another. -/
theorem reach_grown (t : T) (hfresh : Fresh ⟨m, loc⟩) (hlive : m.live = 0) (n : ℕ)
    (hn : n ≤ maxTaskId) : ∃ m', machine.Reach Fresh Careful ⟨m', loc⟩ ∧ m'.chain = [] ∧
      m'.nextId = n ∧ m'.live = n ∧ m'.alive = Finset.range n ∧ m'.trimming = false := by
  induction n with
  | zero =>
    exact ⟨m, .init hfresh, hfresh.chain, hfresh.nextId, hlive, hfresh.alive, hfresh.trimming⟩
  | succ n ih =>
    obtain ⟨m₁, hs, hchain, hnext, hlive, halive, htrim⟩ := ih (Nat.le_of_succ_le hn)
    obtain ⟨m₂, hs', hchain', hnext', hlive', halive', htrim'⟩ :=
      reach_grow (t := t) hs (hfresh.loc t) hchain (hnext ▸ hn)
    refine ⟨m₂, hs', hchain', by rw [hnext', hnext], by rw [hlive', hlive], ?_, ?_⟩
    · rw [halive', halive, hnext, Finset.range_add_one]
    · rw [htrim', htrim]

/-- Giving ids back, from the last one down. -/
theorem reach_freed (hs : machine.Reach Fresh Careful ⟨m, loc⟩) (hidle : loc t = .idle) {n : ℕ}
    (halive : m.alive = Finset.range n) (hlive : m.live = n) :
    ∃ m', machine.Reach Fresh Careful ⟨m', loc⟩ ∧ m'.nextId = m.nextId ∧ m'.live = 0 ∧
      m'.alive = ∅ ∧ m'.trimming = m.trimming := by
  induction n generalizing m with
  | zero => exact ⟨m, hs, rfl, hlive, halive, rfl⟩
  | succ n ih =>
    obtain ⟨m₁, hs', -, hnext, hlive', halive', htrim⟩ := reach_free hs hidle
      (halive ▸ Finset.self_mem_range_succ n)
    rw [halive, Finset.range_add_one, Finset.erase_insert Finset.notMem_range_self] at halive'
    rw [hlive, Nat.add_sub_cancel] at hlive'
    obtain ⟨m₂, hs'', hnext', hlive'', halive'', htrim'⟩ := ih hs' halive' hlive'
    exact ⟨m₂, hs'', hnext'.trans hnext, hlive'', halive'', htrim'.trans htrim⟩

/-- Taking every id there is on the list. -/
theorem reach_popped (hs : machine.Reach Fresh Careful ⟨m, loc⟩) (hidle : loc t = .idle)
    {l : List ℕ} (hchain : m.chain = l) :
    ∃ m', machine.Reach Fresh Careful ⟨m', loc⟩ ∧ m'.chain = [] ∧ m'.nextId = m.nextId := by
  induction l generalizing m with
  | nil => exact ⟨m, hs, hchain, rfl⟩
  | cons id l ih =>
    obtain ⟨m₁, hs', hchain', hnext⟩ := reach_pop hs hidle hchain
    obtain ⟨m₂, hs'', hchain'', hnext'⟩ := ih hs' hchain'
    exact ⟨m₂, hs'', hchain'', hnext'.trans hnext⟩

omit [Fintype T] in
/-- A trim takes a list of one id, and comes to that id. -/
theorem reach_drained {Ok : Config T Mem Pc → T → Act → Prop} {id floor current : ℕ}
    (hs : machine.Reach Fresh Ok ⟨m, update loc t (.drainLoad floor current)⟩)
    (hok : ∀ n pc, (∀ v ∈ pc.loaded, v = n.pops) → pc ≠ .grow →
      (∀ d ∈ pc.drains, n.chain = [id] ∧ d.2.2 = current) → Ok ⟨n, update loc t pc⟩ t .go)
    (hhead : m.head = id + 1) (hchain : m.chain = [id]) (hslot : m.slot id = true) :
    machine.Reach Fresh Ok ⟨{ m with pops := m.pops + 1, head := 0, chain := [] },
      update loc t (.walkNext id ⟨floor, current, [], [id]⟩)⟩ := by
  have h₁ := hs.move (c := .go) (n := m) (k := .drainSwap m.pops (id + 1) floor current)
    (hok m (.drainLoad floor current) nofun nofun nofun)
    (by simp [machine, next, trimStep, hhead])
  have h₂ := h₁.move (c := .go) (n := { m with pops := m.pops + 1, head := 0, chain := [] })
    (k := .walkSlot (id + 1) ⟨floor, current, [], [id]⟩)
    (hok m (.drainSwap m.pops (id + 1) floor current) (fun v hv => (Option.some.inj hv).symm) nofun
      fun d hd => ⟨hchain, Option.some.inj hd ▸ rfl⟩)
    (by simp [machine, next, trimStep, hhead, hchain])
  refine h₂.move (c := .go) (hok _ (.walkSlot (id + 1) _) nofun nofun nofun) ?_
  show some _ = some _
  rw [if_neg (Nat.succ_ne_zero id), if_pos (show Mem.slot { m with
    pops := m.pops + 1, head := 0, chain := [] } (id + 1 - 1) = true from hslot)]
  rfl

end Run

/-- The second thread has begun a trim of a table that spans 4097 ids with none of them out, and
has loaded that. The first has taken every id. -/
theorem reach_begun : ∃ m : Mem, machine.Reach Fresh Careful
    ⟨m, update (fun _ : Fin 2 => .idle) 1 (.drainLoad 4096 4097)⟩ ∧ m.chain = [] ∧
      m.nextId = 4097 := by
  obtain ⟨m₁, h₁, -, hnext₁, hlive₁, halive₁, htrim₁⟩ :=
    reach_grown (0 : Fin 2) newTable_fresh rfl 4097 (by decide)
  obtain ⟨m₂, h₂, hnext₂, hlive₂, -, htrim₂⟩ := reach_freed (t := 0) h₁ rfl halive₁ hlive₁
  have hspan : m₂.nextId = 4097 := hnext₂.trans hnext₁
  -- the trim begins
  have h₃ : machine.Reach Fresh Careful ⟨{ m₂ with trimming := true },
      update (fun _ : Fin 2 => .idle) 1 (.drainLoad 4096 4097)⟩ := by
    rw [← update_eq_self (1 : Fin 2) fun _ => Pc.idle] at h₂
    have g₁ := reach_move (a := .trim) h₂ rfl nofun ⟨nofun, rfl, nofun⟩
    have g₂ := reach_move (a := .go) (n := { m₂ with trimming := true }) (q := .trimSpan) g₁
      (by simp [next, trimStep, htrim₂, htrim₁]) nofun ⟨nofun, rfl, nofun⟩
    have g₃ := reach_move (a := .go) g₂ rfl nofun ⟨nofun, rfl, nofun⟩
    refine reach_move (a := .go) g₃ ?_ nofun ⟨nofun, rfl, nofun⟩
    simp [next, trimStep, hspan, hlive₂]
    decide
  obtain ⟨m₄, h₄, hchain₄, hnext₄⟩ := reach_popped (t := 0) h₃ rfl rfl
  exact ⟨m₄, h₄, hchain₄, hnext₄.trans hspan⟩

/-- A trim takes the list while it holds an id that was given back late, and puts it back. -/
theorem none_lost_newTable : ∃ s : Config (Fin 2) Mem Pc, machine.Reach Fresh Careful s ∧
    s.mem.nextId = 4097 ∧ ∃ l, Links s.mem.next s.mem.head l ∧
      ∀ id < s.mem.nextId, id ∈ s.mem.alive ∨ id ∈ l := by
  obtain ⟨m, h, hchain, hnext⟩ := reach_begun
  have halive : 0 ∈ m.alive := by
    have hspan : 0 < m.nextId := hnext.symm ▸ Nat.succ_pos 4096
    refine ((ids_whole h).2.mem ?_ hspan).resolve_right ?_
    · show ∀ t : Fin 2, (update (fun _ => Pc.idle) 1 (.drainLoad 4096 4097) t).ids = []
      decide
    · exact hchain ▸ List.not_mem_nil
  obtain ⟨m₁, h₁, hchain₁, hnext₁, -⟩ := reach_free (t := 0) h rfl halive
  replace hchain₁ : m₁.chain = [0] := hchain₁.trans (by rw [hchain])
  obtain ⟨hi, hw⟩ := ids_whole h₁
  obtain ⟨hhead, hlink⟩ : m₁.head = 1 ∧ m₁.next 0 = 0 := by
    have hl := hi.links
    rw [show (Config.mk m₁ _).mem.chain = [0] from hchain₁] at hl
    exact ⟨hl.1, hl.2⟩
  have h₂ := reach_drained h₁ ?_ hhead hchain₁
    (hw.chain 0 (hchain₁ ▸ List.mem_cons_self))
  · -- the id is put back, and nothing was set aside
    have h₃ := reach_move (a := .go) (q := .pushLoad 0 (.walk 0 ⟨4096, 4097, [], []⟩)) h₂
      (by simp [next, trimStep, hlink]; rfl) nofun ⟨nofun, rfl, nofun⟩
    have h₄ := reach_move (a := .go) h₃ rfl nofun ⟨nofun, rfl, nofun⟩
    have h₅ := reach_move (a := .go) h₄ rfl nofun ⟨nofun, rfl, nofun⟩
    have h₆ := reach_move (a := .go) (q := .walkSlot 0 ⟨4096, 4097, [], []⟩) h₅ (if_pos ⟨rfl, rfl⟩)
      nofun ⟨fun v hv => (Option.some.inj hv).symm, rfl, nofun⟩
    have h₇ := reach_move (a := .go) h₆ rfl nofun ⟨nofun, rfl, nofun⟩
    have h₈ := reach_move (a := .go) h₇ rfl nofun ⟨nofun, rfl, nofun⟩
    have hidle : ∀ t : Fin 2, update (fun _ => Pc.idle) 1 .idle t = .idle := by decide
    exact ⟨_, h₈, hnext₁.trans hnext, none_lost h₈ hidle⟩
  · intro n pc hl hg hd
    refine ⟨steady_of nofun hl (absurd · hg), fun d hpc _ id hid => ?_⟩
    have hself : update (fun _ : Fin 2 => Pc.idle) 1 pc 1 = pc := update_self ..
    obtain ⟨hc, hcurrent⟩ := hd d (hself ▸ hpc)
    obtain rfl := List.mem_singleton.mp (hc ▸ hid)
    exact hcurrent ▸ Nat.succ_pos 4096

/-- The first thread then grows the table by one more id, and gives that one back. -/
theorem reach_grown_late : ∃ m : Mem, machine.Reach Fresh Careful
    ⟨m, update (fun _ : Fin 2 => .idle) 1 (.drainLoad 4096 4097)⟩ ∧ m.chain = [4097] ∧
      m.nextId = 4098 ∧ 4097 ∉ m.alive := by
  obtain ⟨m₄, h₄, hchain₄, hspan₄⟩ := reach_begun
  obtain ⟨m₅, h₅, hchain₅, hnext₅, -, halive₅, -⟩ :=
    reach_grow (t := 0) h₄ rfl hchain₄ (hspan₄ ▸ by decide)
  rw [hspan₄] at hnext₅ halive₅
  obtain ⟨m₆, h₆, hchain₆, hnext₆, -, halive₆, -⟩ :=
    reach_free (t := 0) h₅ rfl
      (show 4097 ∈ m₅.alive from halive₅ ▸ Finset.mem_insert_self ..)
  refine ⟨m₆, h₆, hchain₆.trans (by rw [hchain₅]), hnext₆.trans hnext₅, ?_⟩
  rw [halive₆]
  exact Finset.notMem_erase 4097 _

/-- A trim that takes the list with an id on it that is not below the `next_id` it loaded gives up,
and puts that id nowhere: it is below the mark, and neither out nor on the list. -/
theorem trim_loses : ∃ s : Config (Fin 2) Mem Pc, machine.Reach Fresh Steady s ∧
    (∀ t, s.loc t = .idle) ∧ 4097 < s.mem.nextId ∧ 4097 ∉ s.mem.alive ∧ s.mem.head = 0 := by
  obtain ⟨m, hs, hchain, hnext, hout⟩ := reach_grown_late
  obtain ⟨hi, hw⟩ := ids_whole hs
  obtain ⟨hhead, hlink⟩ : m.head = 4098 ∧ m.next 4097 = 0 := by
    have hl := hi.links
    rw [show (Config.mk m _).mem.chain = [4097] from hchain] at hl
    exact ⟨hl.1, hl.2⟩
  have hslot : m.slot 4097 = true := hw.chain 4097 (hchain ▸ List.mem_cons_self)
  replace hs : machine.Reach Fresh Steady _ := hs.mono fun _ _ _ h => h.1
  have h₃ := reach_drained hs (fun n pc hl hg _ => steady_of nofun hl (absurd · hg)) hhead hchain
    hslot
  -- it sets the id aside, and finds that it can lower nothing
  have h₄ := h₃.move (c := .go) (n := { m with pops := m.pops + 1, head := 0, chain := [] })
    (k := .walkSlot 0 ⟨4096, 4097, [4097], []⟩) (steady_of nofun nofun nofun)
    (by simp [machine, next, trimStep, hlink])
  have h₅ := h₄.move (c := .go) (k := .restore [4097] 4097) (steady_of nofun nofun nofun) rfl
  -- nothing of what it took is below the limit
  have h₆ := h₅.move (c := .go) (k := .restore [] 4097) (steady_of nofun nofun nofun) rfl
  have h₇ := h₆.move (c := .go) (steady_of nofun nofun nofun) rfl
  have h₈ := h₇.move (c := .go) (steady_of nofun nofun nofun) rfl
  refine ⟨_, h₈, ?_, ?_, hout, rfl⟩
  · show ∀ t : Fin 2, update (fun _ => Pc.idle) 1 .idle t = .idle
    decide
  · show 4097 < m.nextId
    rw [hnext]
    decide

end Atap.Table
