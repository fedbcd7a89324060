import Atap.Interleave.Owned
import Atap.Select.Machine

/-!
# Who is poked after it has returned

A `wake` loads the queue of a registration in one step and pokes it in a later one. In between the
`join_first` whose registration it was may take it back and return, and its thread may end: the
poke then goes to whatever has the descriptor by then (`poke_astray`).

What `join_first` does see to is that nothing of it is left in a slot when it returns
(`Inv.selected`), so that no `wake` finds its queue later. If it also returned only when no `wake`
has loaded its queue and is yet to poke it (`Unheard`), every poke would be for a `join_first` that
is still there, on a queue that is still its own.

* `Step.carries`: a call is in its thread's stack until it returns.
* `Inv.step`: what is registered, and what is about to be poked, is of a call that is there.
* `poked_in_time`: in every run under the condition, a poke is for a call that has not returned.
-/

namespace Atap.Select

open Function

variable {T : Type*} {m m' : Mem} {l l' : Local} {a : Act}

/-- What a call holds it has in its hands, in slots with a task. -/
structure Join.Fits (state : ℕ → TaskState) (j : Join) : Prop where
  ids : ∀ id ∈ j.holding, id ∈ j.ids
  asks : ∀ id ∈ j.pc.asks, id ∈ j.ids
  alive : ∀ id ∈ j.holding, state id ≠ .free
  found : ∀ id ∈ j.pc.found, state id ≠ .free

/-- The call that is about to return. -/
def Local.returns (l : Local) : Option ℕ :=
  match l.stack with
  | .join j :: _ =>
    match j.pc with
    | .done _ => some j.no
    | _ => none
  | _ => none

/-- The call whose queue is about to be poked. -/
def Frame.answers : Frame → Option ℕ
  | call _ no => some no
  | _ => none

/-- A `join_first` returns only when no `wake` has loaded its queue and is yet to poke it. -/
def Unheard (s : Config T Mem Local) (t : T) (a : Act) : Prop :=
  a = .go → ∀ no ∈ (s.loc t).returns, ∀ u, ∀ f ∈ (s.loc u).stack, f.answers ≠ some no

instance [Fintype T] (s : Config T Mem Local) (t : T) (a : Act) : Decidable (Unheard s t a) :=
  inferInstanceAs (Decidable (a = .go → ∀ no ∈ (s.loc t).returns, ∀ u, ∀ f ∈ (s.loc u).stack,
    f.answers ≠ some no))

/-! ### One call -/

theorem Join.holding_of_done {j : Join} {w : Option ℕ} (h : j.pc = .done w) : j.holding = [] := by
  rw [Join.holding, h]

theorem Join.holding_of_set {j : Join} {id : ℕ} {rest : List ℕ} (h : j.pc = .set id rest) :
    j.holding = j.registered := by
  rw [Join.holding, h]

theorem Join.holding_of_unset {j : Join} {id : ℕ} {rest : List ℕ} {w : Option ℕ}
    (h : j.pc = .unset id rest w) : j.holding = id :: rest := by
  rw [Join.holding, h]

theorem start_asks (ids : List ℕ) : (start ids).asks = [] ∧ (start ids).found = none := by
  cases ids <;> exact ⟨rfl, rfl⟩

theorem holding_start (no : ℕ) (ids : List ℕ) : (Join.mk no ids [] (start ids)).holding = [] := by
  cases ids <;> rfl

namespace JoinStep

variable {queue : Option ℕ} {j j' : Join}

theorem no_eq (h : JoinStep m queue j m' j') : j'.no = j.no := by
  cases h with
  | move _ hno => exact hno
  | _ => rfl

theorem ids_eq (h : JoinStep m queue j m' j') : j'.ids = j.ids := by
  cases h with
  | move _ hno hids => exact hids
  | _ => rfl

/-- A step of a call writes to registrations only. -/
theorem mem_eq (h : JoinStep m queue j m' j') :
    m'.state = m.state ∧ m'.handles = m.handles ∧ m'.opened = m.opened := by
  cases h <;> exact ⟨rfl, rfl, rfl⟩

theorem fits (h : JoinStep m queue j m' j') (hf : j.Fits m.state) : j'.Fits m.state := by
  cases h with
  | move _ hno hids hsub hkeep hasks hfound =>
    constructor
    · intro id hid
      exact hids.symm ▸ hf.ids id (hsub id hid)
    · intro id hid
      exact hids.symm ▸ (hasks id hid).elim (hf.asks id) (fun hid => hid)
    · intro id hid
      exact hf.alive id (hsub id hid)
    · exact hfound
  | took id rest q hq hpc hs =>
    have hid : id ∈ j.pc.asks := hpc ▸ List.mem_cons_self
    have hheld (x : ℕ) (hx : x ∈ j.registered ++ [id]) : x ∈ j.holding ∨ x = id := by
      rw [Join.holding_of_set hpc]
      exact (List.mem_append.mp hx).imp_right List.mem_singleton.mp
    constructor
    · intro x hx
      obtain hx | rfl := hheld x hx
      · exact hf.ids x hx
      · exact hf.asks x hid
    · intro x hx
      exact hf.asks x (hpc ▸ List.mem_cons_of_mem _ hx)
    · intro x hx
      obtain hx | rfl := hheld x hx
      · exact hf.alive x hx
      · exact hf.found x (hpc ▸ rfl)
    · exact nofun
  | cleared id rest w q hq hpc | kept id rest w q hq hpc hs =>
    have hheld (x : ℕ) (hx : x ∈ rest) : x ∈ j.holding :=
      Join.holding_of_unset hpc ▸ List.mem_cons_of_mem _ hx
    constructor
    · intro x hx
      exact hf.ids x (hheld x hx)
    · exact nofun
    · intro x hx
      exact hf.alive x (hheld x hx)
    · exact nofun

/-- What a call holds it goes on holding, unless the slot is empty or has not its queue. -/
theorem holds {q : ℕ} (h : JoinStep m (some q) j m' j') {id : ℕ} (hid : id ∈ j.holding) :
    id ∈ j'.holding ∨ m.state id = .free ∨ (m'.select id).map Prod.fst ≠ some q := by
  cases h with
  | move _ hno hids hsub hkeep => exact (hkeep id hid).imp_right .inl
  | took id' rest q' hq hpc =>
    rw [Join.holding_of_set hpc] at hid
    exact .inl (List.mem_append_left _ hid)
  | cleared id' rest w q' hq hpc =>
    rw [Join.holding_of_unset hpc] at hid
    obtain rfl | hid := List.mem_cons.mp hid
    · refine .inr (.inr ?_)
      show (update m.select id none id).map Prod.fst ≠ some q
      rw [update_self]
      exact nofun
    · exact .inl hid
  | kept id' rest w q' hq hpc hs =>
    cases hq
    rw [Join.holding_of_unset hpc] at hid
    obtain rfl | hid := List.mem_cons.mp hid
    · exact .inr (.inr hs)
    · exact .inl hid

/-- A registration that is new is of the call that moves. -/
theorem select (h : JoinStep m queue j m' j') {id : ℕ} {x : ℕ × ℕ} (hx : m'.select id = some x) :
    m.select id = some x ∨ queue = some x.1 ∧ x.2 = j'.no ∧ id ∈ j'.holding := by
  cases h with
  | move | kept => exact .inl hx
  | took id' rest q hq hpc hs =>
    dsimp only at hx
    by_cases hid : id = id'
    · subst hid
      rw [update_self] at hx
      cases hx
      exact .inr ⟨hq, rfl, List.mem_append_right _ List.mem_cons_self⟩
    · rw [update_of_ne hid] at hx
      exact .inl hx
  | cleared id' rest w q hq hpc =>
    dsimp only at hx
    by_cases hid : id = id'
    · subst hid
      rw [update_self] at hx
      cases hx
    · rw [update_of_ne hid] at hx
      exact .inl hx

end JoinStep

/-! ### One step of a thread -/

namespace Step

/-- A call stays in its thread's stack, and its thread keeps its queue, until it returns. -/
theorem carries (h : Step m l a m' l') {q : ℕ} (hq : l.queue = some q) {j : Join}
    (hj : .join j ∈ l.stack) :
    (l'.queue = some q ∧ ∃ j', .join j' ∈ l'.stack ∧ j'.no = j.no ∧ ∀ id ∈ j.holding,
      id ∈ j'.holding ∨ m.state id = .free ∨ (m'.select id).map Prod.fst ≠ some q) ∨
    j.holding = [] ∧ a = .go ∧ l.returns = some j.no := by
  cases h with
  | create q' hnone =>
    rw [hq] at hnone
    cases hnone
  | close q' hstack =>
    rw [hstack] at hj
    cases hj
  | settle | destroy => exact .inl ⟨hq, j, hj, rfl, fun _ => .inl⟩
  | join ids | wake id => exact .inl ⟨hq, j, List.mem_cons_of_mem _ hj, rfl, fun _ => .inl⟩
  | heard id q' no rest hstack =>
    rw [hstack, List.mem_cons] at hj
    obtain hj | hj := hj
    · cases hj
    · exact .inl ⟨hq, j, List.mem_cons_of_mem _ hj, rfl, fun _ => .inl⟩
  | pop f rest hstack hf =>
    rw [hstack, List.mem_cons] at hj
    obtain hj | hj := hj
    · exact absurd hj.symm (hf j)
    · exact .inl ⟨hq, j, hj, rfl, fun _ => .inl⟩
  | inner j₀ rest m₁ j₁ hstack hin =>
    rw [hstack, List.mem_cons] at hj
    obtain hj | hj := hj
    · cases hj
      rw [hq] at hin
      exact .inl ⟨hq, j₁, List.mem_cons_self, hin.no_eq, fun _ => hin.holds⟩
    · exact .inl ⟨hq, j, List.mem_cons_of_mem _ hj, rfl, fun _ => .inl⟩
  | ret j₀ rest w hstack hpc ha =>
    rw [hstack, List.mem_cons] at hj
    obtain hj | hj := hj
    · cases hj
      refine .inr ⟨Join.holding_of_done hpc, ha, ?_⟩
      rw [Local.returns, hstack]
      dsimp only
      rw [hpc]
    · exact .inl ⟨hq, j, hj, rfl, fun _ => .inl⟩

/-- A registration that is new is of the innermost call of the thread that moves. -/
theorem select (h : Step m l a m' l') {id : ℕ} {x : ℕ × ℕ} (hx : m'.select id = some x) :
    m.select id = some x ∨
      l'.queue = some x.1 ∧ ∃ j, .join j ∈ l'.stack ∧ j.no = x.2 ∧ id ∈ j.holding := by
  cases h with
  | destroy id' =>
    dsimp only at hx
    by_cases hid : id = id'
    · subst hid
      rw [update_self] at hx
      cases hx
    · rw [update_of_ne hid] at hx
      exact .inl hx
  | inner j₀ rest m₁ j₁ hstack hin =>
    obtain hx | ⟨hq, hno, hid⟩ := hin.select hx
    · exact .inl hx
    · exact .inr ⟨hq, j₁, List.mem_cons_self, hno.symm, hid⟩
  | _ => exact .inl hx

/-- A poke is of a registration that was found. -/
theorem call (h : Step m l a m' l') {q no : ℕ} (hc : .call q no ∈ l'.stack) :
    .call q no ∈ l.stack ∨ l.returns = none ∧ ∃ id, m.select id = some (q, no) := by
  cases h with
  | heard id q' no' rest hstack hs =>
    obtain hc | hc := List.mem_cons.mp hc
    · cases hc
      refine .inr ⟨?_, id, hs⟩
      rw [Local.returns, hstack]
    · exact .inl (hstack ▸ List.mem_cons_of_mem _ hc)
  | pop f rest hstack | ret j rest w hstack => exact .inl (hstack ▸ List.mem_cons_of_mem _ hc)
  | join ids | wake id =>
    obtain hc | hc := List.mem_cons.mp hc
    · cases hc
    · exact .inl hc
  | inner j rest m₁ j₁ hstack =>
    obtain hc | hc := List.mem_cons.mp hc
    · cases hc
    · exact .inl (hstack ▸ List.mem_cons_of_mem _ hc)
  | _ => exact .inl hc

/-- Every call fits after the step, by the states before it. -/
theorem fits (h : Step m l a m' l') (hf : ∀ j, .join j ∈ l.stack → j.Fits m.state) {j : Join}
    (hj : .join j ∈ l'.stack) : j.Fits m.state := by
  cases h with
  | join ids =>
    obtain hj | hj := List.mem_cons.mp hj
    · cases hj
      obtain ⟨hasks, hfound⟩ := start_asks ids
      constructor <;> simp [holding_start, hasks, hfound]
    · exact hf j hj
  | inner j₀ rest m₁ j₁ hstack hin =>
    rw [hstack] at hf
    obtain hj | hj := List.mem_cons.mp hj
    · cases hj
      exact hin.fits (hf j₀ List.mem_cons_self)
    · exact hf j (List.mem_cons_of_mem _ hj)
  | heard id q no rest hstack =>
    obtain hj | hj := List.mem_cons.mp hj
    · cases hj
    · exact hf j (hstack ▸ List.mem_cons_of_mem _ hj)
  | wake id =>
    obtain hj | hj := List.mem_cons.mp hj
    · cases hj
    · exact hf j hj
  | pop f rest hstack | ret j₀ rest w hstack => exact hf j (hstack ▸ List.mem_cons_of_mem _ hj)
  | _ => exact hf j hj

/-- A slot is emptied only when it is in no hands, and then no call moves. -/
theorem alive (h : Step m l a m' l') {id : ℕ} (hs : m.state id ≠ .free) :
    m'.state id ≠ .free ∨ m.handles id = 0 ∧ l' = l := by
  cases h with
  | settle id' st hst =>
    refine .inl ?_
    show update m.state id' st id ≠ .free
    by_cases hid : id = id'
    · subst hid
      rwa [update_self]
    · rwa [update_of_ne hid]
  | destroy id' hzero =>
    by_cases hid : id = id'
    · subst hid
      exact .inr ⟨hzero, rfl⟩
    · refine .inl ?_
      show update m.state id' .free id ≠ .free
      rwa [update_of_ne hid]
  | inner j₀ rest m₁ j₁ hstack hin => exact .inl (hin.mem_eq.1 ▸ hs)
  | _ => exact .inl hs

/-- The hands are counted. -/
theorem handles (h : Step m l a m' l') (id : ℕ) (hle : l.ids.count id ≤ m.handles id) :
    m'.handles id + l.ids.count id = m.handles id + l'.ids.count id := by
  cases h with
  | join ids =>
    have he : (ids ++ l.ids).count id = ids.count id + l.ids.count id := List.count_append ..
    show m.handles id + ids.count id + l.ids.count id = m.handles id + (ids ++ l.ids).count id
    omega
  | heard id' q no rest hstack => rw [Local.ids, Local.ids, hstack]; rfl
  | pop f rest hstack hf =>
    have hids : f.ids = [] := by
      cases f with
      | join j => exact absurd rfl (hf j)
      | _ => rfl
    rw [Local.ids, Local.ids, hstack, List.flatMap_cons, hids]
    rfl
  | inner j₀ rest m₁ j₁ hstack hin =>
    rw [hin.mem_eq.2.1, Local.ids, Local.ids, hstack, List.flatMap_cons, List.flatMap_cons,
      Frame.ids, Frame.ids, hin.ids_eq]
  | ret j₀ rest w hstack =>
    have he : l.ids.count id = j₀.ids.count id + (rest.flatMap Frame.ids).count id := by
      rw [Local.ids, hstack]
      exact List.count_append ..
    show m.handles id - j₀.ids.count id + l.ids.count id =
      m.handles id + (rest.flatMap Frame.ids).count id
    omega
  | _ => rfl

theorem queue (h : Step m l a m' l') : Handed m.opened l.queue m'.opened l'.queue := by
  cases h with
  | create q hq hf => exact .take q hf
  | close q hstack hq => exact .give q hq
  | inner j₀ rest m₁ j₁ hstack hin =>
    rw [hin.mem_eq.2.2]
    exact .same
  | _ => exact .same

end Step

/-! ### Every run -/

theorem Join.Fits.mono {state state' : ℕ → TaskState} {j : Join} (h : j.Fits state)
    (hs : ∀ id ∈ j.ids, state id ≠ .free → state' id ≠ .free) : j.Fits state' := by
  refine ⟨h.ids, h.asks, ?_, ?_⟩
  · intro id hid
    exact hs id (h.ids id hid) (h.alive id hid)
  · intro id hid
    refine hs id (h.asks id ?_) (h.found id hid)
    generalize j.pc = pc at hid ⊢
    cases pc with
    | set id' rest =>
      cases hid
      exact List.mem_cons_self
    | _ => cases hid

variable [Fintype T] {s : Config T Mem Local} {t : T}

structure Inv (s : Config T Mem Local) : Prop where
  fits : ∀ t j, .join j ∈ (s.loc t).stack → j.Fits s.mem.state
  handles : ∀ id, s.mem.handles id = total (fun l : Local => l.ids.count id) s.loc
  own : Owned s.mem.opened fun t => (s.loc t).queue
  /-- A registration is of a call that is there and still holds it. -/
  selected : ∀ id q no, s.mem.select id = some (q, no) →
    ∃ u j, (s.loc u).queue = some q ∧ .join j ∈ (s.loc u).stack ∧ j.no = no ∧ id ∈ j.holding
  /-- A poke is for a call that is there. -/
  calls : ∀ t q no, .call q no ∈ (s.loc t).stack →
    ∃ u j, (s.loc u).queue = some q ∧ .join j ∈ (s.loc u).stack ∧ j.no = no

namespace Inv

/-- Who has a task in its hands is counted. -/
theorem handles_ne_zero (hi : Inv s) {j : Join} (hj : .join j ∈ (s.loc t).stack) {id : ℕ}
    (hid : id ∈ j.ids) : s.mem.handles id ≠ 0 := by
  have hmem : id ∈ (s.loc t).ids := List.mem_flatMap.mpr ⟨.join j, hj, hid⟩
  have hpos := List.count_pos_iff.mpr hmem
  have hle := le_total (w := fun l : Local => l.ids.count id) (f := s.loc) t
  rw [hi.handles id]
  omega

variable [DecidableEq T]

theorem step (hi : Inv s) (hok : Unheard s t a) (h : Step s.mem (s.loc t) a m' l') :
    Inv ⟨m', update s.loc t l'⟩ := by
  refine ⟨?_, ?_, hi.own.step_of h.queue, ?_, ?_⟩
  · intro u j hj
    -- a call fits by the states before the step, and none of its slots is emptied by it
    have halive (hl : l' = s.loc t → .join j ∈ (s.loc u).stack) (id : ℕ) (hid : id ∈ j.ids)
        (hs : s.mem.state id ≠ .free) : m'.state id ≠ .free := by
      obtain hs | ⟨hzero, he⟩ := h.alive hs
      · exact hs
      · exact absurd hzero (hi.handles_ne_zero (hl he) hid)
    by_cases hu : u = t
    · subst hu
      rw [Config.loc_self] at hj
      exact (h.fits (hi.fits u) hj).mono (halive fun he => he ▸ hj)
    · rw [Config.loc_of_ne hu] at hj
      exact (hi.fits u j hj).mono (halive fun _ => hj)
  · intro id
    have hle := le_total (w := fun l : Local => l.ids.count id) (f := s.loc) t
    have hadd := total_update_add (fun l : Local => l.ids.count id) s.loc t l'
    have hstep := h.handles id (hi.handles id ▸ hle)
    have hold := hi.handles id
    dsimp only at hadd ⊢
    omega
  · intro id q no hnew
    obtain hs | ⟨hq, j, hj, hno, hid⟩ := h.select hnew
    · obtain ⟨u, j, hq, hj, hno, hid⟩ := hi.selected id q no hs
      by_cases hu : u = t
      · subst hu
        obtain ⟨hq', j', hj', hno', hheld⟩ | ⟨hnil, -⟩ := h.carries hq hj
        · refine ⟨u, j', by rwa [Config.loc_self], by rwa [Config.loc_self], hno'.trans hno, ?_⟩
          obtain hid' | hfree | hsel := hheld id hid
          · exact hid'
          · exact absurd hfree ((hi.fits u j hj).alive id hid)
          · rw [hnew] at hsel
            exact absurd rfl hsel
        · rw [hnil] at hid
          cases hid
      · exact ⟨u, j, by rwa [Config.loc_of_ne hu], by rwa [Config.loc_of_ne hu], hno, hid⟩
    · exact ⟨t, j, by rwa [Config.loc_self], by rwa [Config.loc_self], hno, hid⟩
  · intro v q no hc
    -- the call a poke is for was there before the step, and has not returned by it
    obtain ⟨u, j, hq, hj, rfl, hret⟩ : ∃ u j, (s.loc u).queue = some q ∧
        .join j ∈ (s.loc u).stack ∧ j.no = no ∧ (a = .go → (s.loc t).returns ≠ some no) := by
      have hcall {v : T} (hc : .call q no ∈ (s.loc v).stack) (ha : a = .go) :
          (s.loc t).returns ≠ some no :=
        fun hret => hok ha no hret v (.call q no) hc rfl
      by_cases hv : v = t
      · subst hv
        rw [Config.loc_self] at hc
        obtain hc | ⟨hnone, id, hs⟩ := h.call hc
        · obtain ⟨u, j, hq, hj, hno⟩ := hi.calls v q no hc
          exact ⟨u, j, hq, hj, hno, hcall hc⟩
        · obtain ⟨u, j, hq, hj, hno, -⟩ := hi.selected id q no hs
          exact ⟨u, j, hq, hj, hno, fun _ hret => absurd (hnone.symm.trans hret) nofun⟩
      · rw [Config.loc_of_ne hv] at hc
        obtain ⟨u, j, hq, hj, hno⟩ := hi.calls v q no hc
        exact ⟨u, j, hq, hj, hno, hcall hc⟩
    by_cases hu : u = t
    · subst hu
      obtain ⟨hq', j', hj', hno', -⟩ | ⟨-, ha, hreturns⟩ := h.carries hq hj
      · exact ⟨u, j', by rwa [Config.loc_self], by rwa [Config.loc_self], hno'⟩
      · exact absurd hreturns (hret ha)
    · exact ⟨u, j, by rwa [Config.loc_of_ne hu], by rwa [Config.loc_of_ne hu], rfl⟩

end Inv

/-- No thread is in a call or has a queue yet, and nothing is registered. -/
structure Fresh (s : Config T Mem Local) : Prop where
  select : ∀ id, s.mem.select id = none
  handles : ∀ id, s.mem.handles id = 0
  loc : ∀ t, s.loc t = ⟨none, []⟩

theorem Fresh.inv (h : Fresh s) : Inv s := by
  refine ⟨?_, ?_, Owned.of_none fun t => by rw [h.loc t], ?_, ?_⟩
  · intro t j hj
    rw [h.loc t] at hj
    cases hj
  · intro id
    rw [h.handles id, total_eq_zero_of_forall]
    intro t
    rw [h.loc t]
    rfl
  · intro id q no hs
    rw [h.select id] at hs
    cases hs
  · intro t q no hc
    rw [h.loc t] at hc
    cases hc

/-- If a `join_first` returns only when no `wake` has loaded its queue and is yet to poke it, every
poke is for a `join_first` that has not returned, and on a queue that is open and its thread's. -/
theorem poked_in_time [DecidableEq T] (hs : machine.Reach Fresh Unheard s) {q no : ℕ}
    (hc : .call q no ∈ (s.loc t).stack) :
    ∃ u j, (s.loc u).queue = some q ∧ .join j ∈ (s.loc u).stack ∧ j.no = no ∧
      s.mem.opened q = true := by
  have hi : Inv s := by
    refine hs.invariant (fun _ => Fresh.inv) ?_
    intro s t a m' l' hi hok hn
    exact hi.step hok (next_step hn)
  obtain ⟨u, j, hq, hj, hno⟩ := hi.calls t q no hc
  exact ⟨u, j, hq, hj, hno, hi.own.taken u q hq⟩

/-! ### A task settles while it is raced -/

/-- Two tasks that are yet to run, and three threads. -/
def racing : Config (Fin 3) Mem Local where
  mem := ⟨fun id => if id = 7 ∨ id = 8 then .pending else .free, fun _ => none, fun _ => 0,
    fun _ => false, 0⟩
  loc _ := ⟨none, []⟩

theorem fresh_racing : Fresh racing := ⟨fun _ => rfl, fun _ => rfl, fun _ => rfl⟩

/-- The first thread registers for both tasks. The second settles one, and loads the queue. -/
def loaded : List (Fin 3 × Act) :=
  [(0, .create 3), (0, .join [7, 8])] ++ .replicate 9 (0, .go) ++
    [(1, .settle 7 .ready), (1, .wake 7), (1, .go)]

theorem poked_in_time_loaded : ∃ s : Config (Fin 3) Mem Local, machine.Reach Fresh Unheard s ∧
    .call 3 0 ∈ (s.loc 1).stack ∧ ∃ u j, (s.loc u).queue = some 3 ∧
      .join j ∈ (s.loc u).stack ∧ j.no = 0 ∧ s.mem.opened 3 = true := by
  obtain ⟨s, hs, h⟩ : ∃ s : Config (Fin 3) _ _, machine.Reach Fresh Unheard s ∧
      .call 3 0 ∈ (s.loc 1).stack :=
    (Machine.Reach.init fresh_racing).exists_of_run loaded (by decide +kernel)
  exact ⟨s, hs, h, poked_in_time hs h⟩

/-- The first thread finds the task settled, takes its registrations back and returns, and ends.
The third makes a queue and gets the same descriptor: it never raced anything, and is poked. -/
theorem poke_astray : ∃ s : Config (Fin 3) Mem Local, machine.Reach Fresh Machine.unguarded s ∧
    .call 3 0 ∈ (s.loc 1).stack ∧ (s.loc 0).queue = none ∧ (s.loc 2).queue = some 3 ∧
      (s.loc 0).stack = [] ∧ (s.loc 2).stack = [] := by
  refine (Machine.Reach.init fresh_racing).exists_of_run
    (loaded ++ .replicate 7 (0, .go) ++ [(0, .close), (2, .create 3)]) ?_
  decide +kernel

end Atap.Select
