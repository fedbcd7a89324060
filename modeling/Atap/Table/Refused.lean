import Atap.Table.Whole

/-!
# An `alloc` that comes back with nothing

`alloc` takes an id from `next_id` before it makes sure of the block, and when the kernel refuses
the block, or the id is past the last one, it returns nothing and leaves `next_id` where it is. So
the mark is one higher afterwards, and everything else as it was (`Alone.step`). The id it took is
lost (`Ids.lost_step`): the table only grows by ids that are not below the mark, and a trim lowers
the mark only past ids that it holds.

* `refused_alloc`: both, the first for an `alloc` alone on a table in any state, and the second for
  every interleaving.
* `mark_raised`: the first `alloc` on a new table is refused, and the mark is 1.
-/

namespace Atap.Table

open Function

variable {T : Type*} {m m' m₁ : Mem} {pc pc' : Pc} {a : Act} {id : ℕ}

/-! ### An `alloc` alone -/

/-- The `alloc` has not taken an id yet. -/
def Pc.looks : Pc → Bool
  | popLoad | popSlot _ _ | popNext _ _ | popSwap _ _ _ | grow => true
  | _ => false

/-- The `alloc` has an id to hand out, or is over. -/
def Pc.served : Pc → Bool
  | idle | count _ => true
  | _ => false

/-- What an `alloc` that has handed out nothing has written since it found the table as `m`. -/
inductive Alone (m : Mem) : Mem → Pc → Prop
  | look (pc : Pc) (h : pc.looks = true) : Alone m m pc
  | grown (pc : Pc) (h : pc.grows = some m.nextId) :
      Alone m { m with nextId := m.nextId + 1 } pc

/-- A step of an `alloc` writes nothing but the mark, until it hands out an id. -/
theorem Alone.step (h : Alone m m₁ pc) (hn : next m₁ pc a = some (m', pc')) :
    Alone m m' pc' ∨ pc'.served = true := by
  cases h with
  | look pc h =>
    cases pc with
    | popLoad => cases next_step hn <;> exact .inl (.look _ rfl)
    | popSlot v id =>
      cases next_step hn with
      | popSlot => exact .inl (.look _ rfl)
      | popGone => exact .inr rfl
    | popNext v id =>
      cases next_step hn
      exact .inl (.look _ rfl)
    | popSwap v id nx =>
      cases next_step hn with
      | popWon => exact .inr rfl
      | popLost => exact .inl (.look _ rfl)
    | grow =>
      cases next_step hn
      exact .inl (.grown _ rfl)
    | _ => cases h
  | grown pc h =>
    cases pc with
    | growBlock id =>
      cases next_step hn with
      | growMissing => exact .inl (.grown _ h)
      | _ => exact .inr rfl
    | growMap id => cases next_step hn <;> exact .inr rfl
    | _ => cases h

/-- Once it has an id to hand out, nothing is left but to do so. -/
theorem served_of_next (h : pc.served = true) (ha : a = .go ∨ a = .fail)
    (hn : next m pc a = some (m', pc')) : pc'.served = true := by
  cases pc with
  | idle => obtain rfl | rfl := ha <;> cases hn
  | count id =>
    cases next_step hn
    rfl
  | _ => cases h

/-- The steps of an `alloc`, one after another. -/
theorem Alone.solo {cs : List Act} (h : Alone m m₁ pc ∨ pc.served = true)
    (hcs : ∀ a ∈ cs, a = .go ∨ a = .fail) (hn : machine.solo cs m₁ pc = some (m', pc')) :
    Alone m m' pc' ∨ pc'.served = true := by
  induction cs generalizing m₁ pc with
  | nil =>
    cases hn
    exact h
  | cons c cs ih =>
    obtain ⟨⟨m₂, pc₂⟩, hc, hn⟩ := Option.bind_eq_some_iff.mp hn
    refine ih ?_ (fun a ha => hcs a (List.mem_cons_of_mem _ ha)) hn
    obtain h | h := h
    · exact h.step hc
    · exact .inr (served_of_next h (hcs c List.mem_cons_self) hc)

/-- A call that gives up on the id it grew the table by writes nothing more. -/
theorem eq_of_refused (hg : pc.grows = some id) (hn : next m pc a = some (m', .idle)) :
    m' = m := by
  cases pc with
  | growBlock x | growMap x =>
    cases next_step hn
    rfl
  | _ => cases hg

/-! ### The id it took -/

section Run

variable [Fintype T] {loc : T → Pc} {t : T}

/-- An id that is nowhere is in nobody's hands. -/
theorem not_mem_of_places (hz : places m loc id = 0) :
    id ∉ m.alive ∧ id ∉ m.chain ∧ ∀ u, id ∉ (loc u).ids := by
  unfold places at hz
  refine ⟨?_, ?_, ?_⟩
  · intro hmem
    rw [decide_eq_true hmem, Bool.toNat_true] at hz
    omega
  · intro hmem
    have hpos := List.count_pos_iff.mpr hmem
    omega
  · intro u hmem
    have hpos := List.count_pos_iff.mpr hmem
    have hle := le_total (w := fun pc : Pc => pc.ids.count id) (f := loc) u
    omega

variable [DecidableEq T]

/-- **An id that is lost stays lost.** -/
theorem Ids.lost_step (hi : Ids m loc) (h : Step m (loc t) m' pc') (hid : id < m.nextId)
    (hz : places m loc id = 0) :
    id < m'.nextId ∧ places m' (update loc t pc') id = 0 := by
  have hupd := places_update m m' loc t pc' id
  have hspots := fun hg => h.spots hi.links (hi.locals t) hg id
  have hlocal := hi.locals t
  have hnot := (not_mem_of_places hz).2.2 t
  generalize hpc : loc t = pc at *
  cases h
  case grow =>
    refine ⟨Nat.lt_succ_of_lt hid, ?_⟩
    unfold spots at hupd
    simp only [Pc.ids, List.count_cons, List.count_nil, beq_iff_eq, hid.ne', if_false] at hupd
    omega
  case lowerWon taken keep current h =>
    have := hspots fun hg => by cases hg
    refine ⟨?_, by omega⟩
    by_contra hge
    exact hnot (hlocal id (Nat.le_of_not_lt hge) (h ▸ hid))
  all_goals
    have := hspots fun hg => by cases hg
    exact ⟨hid, by omega⟩

/-- The id that a refused call took is nowhere once the call is over. -/
theorem Ids.lost_of_refused (hi : Ids m loc) (hg : (loc t).grows = some id)
    (hn : next m (loc t) a = some (m', .idle)) :
    id < m'.nextId ∧ places m' (update loc t .idle) id = 0 := by
  have hupd := places_update m m' loc t .idle id
  have hone := hi.one id
  have hmem : (loc t).ids = [id] := by
    generalize loc t = pc at hg
    cases pc <;> first | (cases hg; rfl) | cases hg
  have hle := places_le m loc t id
  rw [eq_of_refused hg hn] at hupd ⊢
  unfold spots at hupd hle
  rw [hmem, List.count_cons_self, List.count_nil] at hupd hle
  have hbelow := hi.below id (by omega)
  simp only [Pc.ids, List.count_nil] at hupd
  exact ⟨hbelow, by omega⟩

/-- An `alloc` alone that takes an id and then returns nothing leaves the mark one higher, by that
id, and everything else as it found it. In every interleaving the return itself writes nothing, and
from then on the id it took is below the mark and in no place: no later `alloc` hands it out. -/
theorem refused_alloc :
    (∀ (m : Mem) (cs : List Act) (m₁ m' : Mem) (pc : Pc) (a : Act) (id : ℕ),
      (∀ a ∈ cs, a = .go ∨ a = .fail) → machine.solo (.alloc :: cs) m .idle = some (m₁, pc) →
      pc.grows = some id → next m₁ pc a = some (m', .idle) →
      id = m.nextId ∧ m' = { m with nextId := m.nextId + 1 }) ∧
    ∀ (s : Config T Mem Pc) (t : T) (a : Act) (m' : Mem) (id : ℕ),
      machine.Reach Fresh NoStall s → (s.loc t).grows = some id →
      next s.mem (s.loc t) a = some (m', .idle) →
      m' = s.mem ∧ ∀ s', machine.Reach (· = ⟨m', update s.loc t .idle⟩) NoStall s' →
        id < s'.mem.nextId ∧ id ∉ s'.mem.alive ∧ id ∉ s'.mem.chain ∧
          ∀ u, id ∉ (s'.loc u).ids := by
  constructor
  · intro m cs m₁ m' pc a id hcs hsolo hg hn
    obtain ⟨⟨m₂, pc₂⟩, hc, hsolo⟩ := Option.bind_eq_some_iff.mp hsolo
    cases hc
    have hm := eq_of_refused hg hn
    obtain h | h := Alone.solo (.inl (.look _ rfl)) hcs hsolo
    · cases h with
      | look pc h => cases pc <;> first | (cases hg; done) | cases h
      | grown pc h => exact ⟨Option.some.inj (hg.symm.trans h), hm⟩
    · cases pc <;> first | (cases hg; done) | cases h
  · intro s t a m' id hs hg hn
    have hi := ids_of_reach hs
    have hok : NoStall s t a := by
      intro v hv
      generalize s.loc t = pc at hg hv
      cases pc <;> first | (cases hg; done) | cases hv
    refine ⟨eq_of_refused hg hn, ?_⟩
    intro s' hs'
    have hlost : Ids s'.mem s'.loc ∧ id < s'.mem.nextId ∧ places s'.mem s'.loc id = 0 := by
      refine hs'.invariant
        (I := fun s => Ids s.mem s.loc ∧ id < s.mem.nextId ∧ places s.mem s.loc id = 0) ?_ ?_
      · rintro _ rfl
        exact ⟨hi.of_next hok hn, hi.lost_of_refused hg hn⟩
      · intro s t a m' pc' ⟨hi, hid, hz⟩ hok hn
        exact ⟨hi.of_next hok hn, hi.lost_step (next_step hn) hid hz⟩
    exact ⟨hlost.2.1, not_mem_of_places hlost.2.2⟩

end Run

/-- The second thread's first call, up to where the block is asked for. -/
def asked : List (Fin 2 × Act) := calling 1 .alloc 3

theorem refused_alloc_asked :
    (∃ m₁ m' : Mem, machine.solo [.alloc, .go, .go, .go] newTable.mem .idle =
        some (m₁, .growMap 0) ∧ next m₁ (.growMap 0) .refuse = some (m', .idle) ∧
      m' = { newTable.mem with nextId := 1 }) ∧
    ∃ s : Config (Fin 2) Mem Pc, machine.Reach Fresh NoStall s ∧ s.loc 1 = .growMap 0 ∧
      ∀ s', machine.Reach (· = ⟨s.mem, update s.loc 1 .idle⟩) NoStall s' →
        0 < s'.mem.nextId ∧ 0 ∉ s'.mem.alive ∧ 0 ∉ s'.mem.chain ∧ ∀ u, 0 ∉ (s'.loc u).ids := by
  obtain ⟨halone, hlost⟩ := refused_alloc (T := Fin 2)
  constructor
  · exact ⟨_, _, rfl, rfl,
      (halone newTable.mem [.go, .go, .go] _ _ _ .refuse 0 (by simp) rfl rfl rfl).2⟩
  · obtain ⟨s, hs, hpc⟩ : ∃ s : Config (Fin 2) _ _, machine.Reach Fresh NoStall s ∧
        s.loc 1 = .growMap 0 :=
      (Machine.Reach.init newTable_fresh).exists_of_run asked (by decide +kernel)
    exact ⟨s, hs, hpc, (hlost s 1 .refuse s.mem 0 hs (hpc ▸ rfl) (hpc ▸ rfl)).2⟩

/-- The kernel refuses the first block of a new table. Nothing is out and nothing is on the free
list, and the mark is 1. -/
theorem mark_raised : ∃ s : Config (Fin 2) Mem Pc,
    machine.run NoStall newTable (asked ++ [(1, .refuse)]) = some s ∧ (∀ t, s.loc t = .idle) ∧
      newTable.mem.nextId = 0 ∧ s.mem.nextId = 1 ∧ s.mem.alive = ∅ ∧ s.mem.head = 0 :=
  ⟨_, rfl, by decide, rfl, rfl, rfl, rfl⟩

end Atap.Table
