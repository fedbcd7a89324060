import Atap.Slot.Readers

/-!
# Every value has one owner

Each value written into a slot is either moved out by one taker or dropped in place once
(`value_settled_once`). The books are kept by `BalanceAt`: the value last written is with the
slot (`filled`), in one thread's hands, or settled, and these add up to one. A value leaves
the books only when the next one is written, which by then finds it settled.

The words alone do not balance the books. A repeat begun from `taken` swaps `filled` and drops
the value a taker has already won and not yet emptied, and the taker then moves it out as
well (`value_settled_twice`). The condition `TakesFirst` keeps a run's swap of `filled` behind
every taker that has still to empty the slot, and its write behind every taker that has still
to move the payload out.
-/

namespace Atap.Slot

open Function

variable {α T : Type*} [Fintype T]

namespace Custody

/-- Holds a value that is neither the slot's nor settled. -/
def inHand : Custody α → Bool
  | dropping | wrote | moves _ => true
  | _ => false

/-- Won a value that is still the slot's. -/
def claimsValue : Custody α → Bool
  | claims _ => true
  | _ => false

/-- Owns a slot that holds no value. -/
def ownsEmpty : Custody α → Bool
  | empty => true
  | _ => false

/-- Handed the slot the value it wrote and has yet to publish it. -/
def ownsFilled : Custody α → Bool
  | filled => true
  | _ => false

/-- About to drop what the slot owns, as the last one out. -/
def dropsLast : Custody α → Bool
  | lastDrop => true
  | _ => false

/-- Left nothing in the slot, as the last one out. -/
def isGone : Custody α → Bool
  | gone => true
  | _ => false

/-- Has no part in the books. -/
def bystander : Custody α → Bool
  | none | reads _ | took _ _ => true
  | _ => false

end Custody

/-- What every thread has to do with the value. -/
def custodies (loc : T → Pc α) : T → Custody α := fun t => (loc t).custody

/-- How often the value in the payload was settled. An empty payload has nothing left to
settle. -/
def Store.spent (m : Store α) : ℕ :=
  match m.payload with
  | some x => m.moves x.serial + m.drops x.serial
  | none => 1

theorem Store.spent_of_payload {m : Store α} {x : Written α} (h : m.payload = some x) :
    m.spent = m.moves x.serial + m.drops x.serial := by
  rw [Store.spent, h]

theorem Store.spent_moveOut {m : Store α} (h : m.spent = 0) : m.moveOut.spent = m.spent + 1 := by
  unfold Store.spent at h
  split at h
  · simp only [Store.spent, Store.moveOut, ‹m.payload = _›, update_self]
    omega
  · cases h

theorem Store.spent_dropInPlace {m : Store α} (h : m.spent = 0) :
    m.dropInPlace.spent = m.spent + 1 := by
  unfold Store.spent at h
  split at h
  · simp only [Store.spent, Store.dropInPlace, ‹m.payload = _›, update_self]
    omega
  · cases h

/-- The books of the value in the payload, in numbers: how often it was settled, how many
threads hold it, have won it, own the slot without it, have just filled it in, and stand at
the end of `destroy`. -/
structure BalanceAt (st : TaskState) (listeners : ℕ) (filled : Bool)
    (runs spent hands claims empties fills last gone : ℕ) : Prop where
  balance : gone = 0 → st ≠ .free → spent + filled.toNat + hands = 1
  settled : 0 < gone ∨ st = .free → spent = 1
  empties_filled : 0 < empties → filled = false
  parked : st = .running → runs = 0 → filled = false
  pending : st = .pending → filled = false
  claims_filled : 0 < claims → filled = true
  ready : st = .ready → 0 < listeners → filled = true
  fills_filled : 0 < fills → filled = true
  last_filled : 0 < last → filled = true

namespace BalanceAt

variable {st st' : TaskState} {l l' : ℕ} {b : Bool} {r s h c e f d g : ℕ}
  {r' s' h' c' e' f' d' g' : ℕ}

theorem cast (hb : BalanceAt st l b r s h c e f d g) (hr : r' = r) (hs : s' = s) (hh : h' = h)
    (hc : c' = c) (he : e' = e) (hf : f' = f) (hd : d' = d) (hg : g' = g) :
    BalanceAt st l b r' s' h' c' e' f' d' g' := by
  subst hr hs hh hc he hf hd hg
  exact hb

/-- A step that leaves the value alone. -/
theorem frame (hb : BalanceAt st l b r s h c e f d g) (hfree : st' = .free ↔ st = .free)
    (hrun : st' = .running → r' = 0 → st = .running ∧ r = 0)
    (hpend : st' = .pending → st = .pending)
    (hready : st' = .ready → 0 < l' → st = .ready ∧ 0 < l) :
    BalanceAt st' l' b r' s h c e f d g :=
  { hb with
    balance := fun h0 hs => hb.balance h0 fun h => hs (hfree.mpr h)
    settled := fun h => hb.settled (h.imp_right hfree.mp)
    parked := fun hs h0 => (hrun hs h0).elim hb.parked
    pending := fun hs => hb.pending (hpend hs)
    ready := fun hs hl => (hready hs hl).elim hb.ready }

/-- The slot comes into a run's hands without a value in it. -/
theorem own (hb : BalanceAt st l b r s h c e f d g) (hf : b = false) :
    BalanceAt st l b r s h c (e + 1) f d g :=
  { hb with empties_filled := fun _ => hf }

/-- A run begins, or goes on, in a slot with no value in it. -/
theorem begins (hb : BalanceAt st l b r s h c e f d g) (hst : st ≠ .free) (hf : b = false) :
    BalanceAt .running l b (r + 1) s h c (e + 1) f d g :=
  { hb with
    balance := fun h0 _ => hb.balance h0 hst
    settled := fun h => hb.settled (h.imp_right nofun)
    empties_filled := fun _ => hf
    parked := fun _ _ => hf
    pending := nofun
    ready := nofun }

/-- A run lets go of a slot with no value in it. -/
theorem letGo (hb : BalanceAt st l b r s h c e f d g) (he : e' + 1 = e) :
    BalanceAt st l b r' s h c e' f d g :=
  have hf := hb.empties_filled (by omega)
  { hb with
    empties_filled := fun _ => hf
    parked := fun _ _ => hf }

/-- A run's swap or a taker's store takes the value from the slot. -/
theorem takeFrom (hb : BalanceAt st l true r s h c e f d g) (hst : st ≠ .ready) :
    BalanceAt st l false r s (h + 1) 0 e 0 0 g :=
  { hb with
    balance := fun h0 hs => by
      have := hb.balance h0 hs
      simp only [Bool.toNat_true, Bool.toNat_false] at this ⊢
      omega
    empties_filled := fun _ => rfl
    parked := fun _ _ => rfl
    pending := fun _ => rfl
    claims_filled := nofun
    ready := fun h => absurd h hst
    fills_filled := nofun
    last_filled := nofun }

/-- A value in hand is settled. -/
theorem settle (hb : BalanceAt st l b r s h c e f d g) (hst : st ≠ .free) (hg : g = 0)
    (hh : h' + 1 = h) : BalanceAt st l b r (s + 1) h' c e f d g :=
  { hb with
    balance := fun h0 hs => by have := hb.balance h0 hs; omega
    settled := by simp [hst, hg] }

/-- What is in hand is neither settled nor the slot's. -/
theorem of_hands (hb : BalanceAt st l b r s h c e f d g) (hst : st ≠ .free) (hg : g = 0)
    (hh : h' + 1 = h) : s = 0 ∧ b = false := by
  have := hb.balance hg hst
  cases b
  · exact ⟨by omega, rfl⟩
  · simp only [Bool.toNat_true] at this
    omega

/-- An owner with the slot to itself finds the last value settled. -/
theorem spent_eq_one (hb : BalanceAt st l b r s h c e f d g) (hst : st ≠ .free) (hg : g = 0)
    (hh : h = 0) (he : 0 < e) : s = 1 := by
  have := hb.balance hg hst
  rw [hb.empties_filled he, hh] at this
  exact this

/-- A new value is written over a settled one. -/
theorem write (hb : BalanceAt st l b r s h c e f d g) (hst : st ≠ .free) (hg : g = 0)
    (he : e' + 1 = e) : BalanceAt st l b r 0 1 c e' f d g :=
  have hf := hb.empties_filled (by omega)
  { hb with
    balance := fun _ _ => by rw [hf]; rfl
    settled := by simp [hst, hg]
    empties_filled := fun _ => hf }

/-- The slot is handed the value written. -/
theorem fill (hb : BalanceAt st l b r s h c e f d g) (hst : st.heldByRun = true) (hg : g = 0)
    (hr : 0 < r) (he : e = 0) (hh : h' + 1 = h) : BalanceAt st l true r s h' c e (f + 1) d g where
  balance h0 hs := by
    have := hb.balance h0 hs
    simp only [Bool.toNat_true]
    omega
  settled h := by
    rcases h with h | rfl
    · omega
    · cases hst
  empties_filled h := by omega
  parked _ h := by omega
  pending h := by rw [h] at hst; cases hst
  claims_filled _ := rfl
  ready _ _ := rfl
  fills_filled _ := rfl
  last_filled _ := rfl

/-- The value the slot was handed becomes readable. -/
theorem makeReady (hb : BalanceAt st l b r s h c e f d g) (hst : st ≠ .free) (hf : f' + 1 = f) :
    BalanceAt .ready l b r' s h c e f' d g :=
  have hb' := hb.fills_filled (by omega)
  { hb with
    balance := fun h0 _ => hb.balance h0 hst
    settled := fun h => hb.settled (h.imp_right nofun)
    parked := nofun
    pending := nofun
    ready := fun _ _ => hb'
    fills_filled := fun _ => hb' }

/-- The value the slot was handed stays there, in a slot an ending closed. -/
theorem stayStopped (hb : BalanceAt st l b r s h c e f d g) (hst : st ≠ .running)
    (hf : f' + 1 = f) : BalanceAt st l b r' s h c e f' d g :=
  { hb with
    parked := fun h => absurd h hst
    fills_filled := fun _ => hb.fills_filled (by omega) }

/-- A taker wins the value. -/
theorem win (hb : BalanceAt .ready l b r s h c e f d g) (hl : 0 < l) :
    BalanceAt .taken l b r s h (c + 1) e f d g :=
  { hb with
    balance := fun h0 _ => hb.balance h0 nofun
    settled := fun h => hb.settled (h.imp_right nofun)
    parked := nofun
    pending := nofun
    claims_filled := fun _ => hb.ready rfl hl
    ready := nofun }

/-- The last one out finds a value. -/
theorem lastLookFull (hb : BalanceAt st l true r s h c e f d g) :
    BalanceAt st l true r s h c e f (d + 1) g :=
  { hb with last_filled := fun _ => rfl }

/-- The last one out finds no value: it was settled before. -/
theorem lastLookEmpty (hb : BalanceAt st l b r s h c e f d g) (hst : st ≠ .free) (hg : g = 0)
    (hh : h = 0) (hb' : b = false) : BalanceAt st l b r s h c e f d (g + 1) :=
  { hb with
    balance := nofun
    settled := fun _ => by
      have := hb.balance hg hst
      rw [hb', hh] at this
      exact this }

/-- The last one out settles the value it found. -/
theorem lastDrop (hb : BalanceAt st l b r s h c e f d g) (hs : s = 0) (hd : d' + 1 = d) :
    BalanceAt st l b r (s + 1) h c e f d' (g + 1) :=
  { hb with
    balance := nofun
    settled := fun _ => by omega
    last_filled := fun _ => hb.last_filled (by omega) }

/-- What the slot owns is not settled. -/
theorem of_filled (hb : BalanceAt st l b r s h c e f d g) (hst : st ≠ .free) (hg : g = 0)
    (hb' : b = true) : s = 0 := by
  have := hb.balance hg hst
  rw [hb'] at this
  simp only [Bool.toNat_true] at this
  omega

/-- The slot is free, with every value settled. -/
theorem free (hb : BalanceAt st l b r s h c e f d g) (hg : g' + 1 = g) :
    BalanceAt .free l b r s h c e f d g' :=
  { hb with
    balance := fun _ h => absurd rfl h
    settled := fun _ => hb.settled (.inl (by omega))
    parked := nofun
    pending := nofun
    ready := nofun }

end BalanceAt

/-- The books of the value in the payload. -/
def Balance (w : Words) (m : Store α) (ph : T → Phase) (cu : T → Custody α) : Prop :=
  BalanceAt w.state w.listeners m.filled (count Phase.runs ph) m.spent (count Custody.inHand cu)
    (count Custody.claimsValue cu) (count Custody.ownsEmpty cu) (count Custody.ownsFilled cu)
    (count Custody.dropsLast cu) (count Custody.isGone cu)

/-! ### Who is alone -/

section Alone

variable {s : Config T (Mem α) (Pc α)} {t u : T}

theorem Guarded.of_present (hg : Guarded s) (h : (s.loc t).phase.present = true) :
    0 < s.mem.listeners ∧ s.mem.state ≠ .free ∧ ∀ u, (s.loc u).phase.leaving = false := by
  have hl : 0 < s.mem.listeners := by
    rw [hg.accounts.listeners]
    exact count_pos (t := t) h
  refine ⟨hl, fun hs => hl.ne' (hg.lastOut.free hs), fun u => ?_⟩
  by_contra hu
  exact hl.ne' (hg.lastOut.listeners (count_pos (t := u) (Bool.not_eq_false _ ▸ hu)))

theorem Guarded.not_owns (hg : Guarded s) (h : (s.loc t).phase.owns = true) (hu : u ≠ t) :
    (s.loc u).phase.owns = false := by
  by_contra h'
  have hle := hg.exclusion.owns_le.trans hg.exclusion.runs_le
  exact hu (eq_of_count_le_one hle (Bool.not_eq_false _ ▸ h') h)

theorem Guarded.not_taking (hg : Guarded s) (h : (s.loc t).phase.taking = true) (hu : u ≠ t) :
    (s.loc u).phase.taking = false := by
  by_contra h'
  exact hu (eq_of_count_le_one hg.exclusion.taking_le (Bool.not_eq_false _ ▸ h') h)

theorem Guarded.eq_out (hg : Guarded s) (h : (s.loc t).phase.leaving = true) (hu : u ≠ t) :
    s.loc u = .out := by
  have hl : s.mem.listeners = 0 := hg.lastOut.listeners (count_pos (t := t) h)
  have hpres := count_eq_zero.mp (hg.accounts.listeners.symm.trans hl) u
  have hleave : (s.loc u).phase.leaving = false := by
    by_contra h'
    exact hu (eq_of_count_le_one hg.lastOut.le_one (Bool.not_eq_false _ ▸ h') h)
  revert hpres hleave
  unfold phases
  cases s.loc u <;> simp [Pc.phase, Phase.present, Phase.leaving]

end Alone

theorem owns_of_custody {pc : Pc α} (h : pc.custody.ownsEmpty = true ∨
    pc.custody.ownsFilled = true ∨ pc.custody = .dropping ∨ pc.custody = .wrote) :
    pc.phase.owns = true := by
  cases pc <;>
    simp [Pc.custody, Custody.ownsEmpty, Custody.ownsFilled, Pc.phase, Phase.owns] at h ⊢

theorem taking_of_custody {pc : Pc α} (h : pc.custody.claimsValue = true ∨
    ∃ w, pc.custody = .moves w) : pc.phase.taking = true := by
  cases pc <;> simp [Pc.custody, Custody.claimsValue, Pc.phase, Phase.taking] at h ⊢

theorem leaving_of_custody {pc : Pc α} (h : pc.custody.dropsLast = true ∨
    pc.custody.isGone = true) : pc.phase.leaving = true := by
  cases pc <;>
    simp [Pc.custody, Custody.dropsLast, Custody.isGone, Pc.phase, Phase.leaving] at h ⊢

section Alone

variable {m : Mem α} {loc : T → Pc α} {t : T} {q : Custody α → Bool}

/-- What only an owner of the slot can be, no other thread is. -/
theorem Guarded.count_of_owns (hg : Guarded ⟨m, loc⟩) (ht : (loc t).phase.owns = true)
    (hq : ∀ pc : Pc α, q pc.custody = true → pc.phase.owns = true) :
    count q (custodies loc) = (q (loc t).custody).toNat := by
  refine count_eq_of_alone fun u hu => ?_
  by_contra hne
  have := hq (loc u) (Bool.not_eq_false _ ▸ hne)
  rw [hg.not_owns ht hu] at this
  cases this

/-- What only a taker can be, no other thread is. -/
theorem Guarded.count_of_taking (hg : Guarded ⟨m, loc⟩) (ht : (loc t).phase.taking = true)
    (hq : ∀ pc : Pc α, q pc.custody = true → pc.phase.taking = true) :
    count q (custodies loc) = (q (loc t).custody).toNat := by
  refine count_eq_of_alone fun u hu => ?_
  by_contra hne
  have := hq (loc u) (Bool.not_eq_false _ ▸ hne)
  rw [hg.not_taking ht hu] at this
  cases this

/-- The last one out is alone. -/
theorem Guarded.count_of_leaving (hg : Guarded ⟨m, loc⟩) (ht : (loc t).phase.leaving = true)
    (hq : q .none = false) : count q (custodies loc) = (q (loc t).custody).toNat := by
  refine count_eq_of_alone fun u hu => ?_
  have hout : loc u = .out := hg.eq_out ht hu
  rw [custodies, hout]
  exact hq

/-- A run about to write holds the slot alone, once no taker is left: another owner is
excluded, and nobody else has a value in hand. -/
theorem Guarded.inHand_eq_zero {v : Via} (hg : Guarded ⟨m, loc⟩) (ht : loc t = .running v)
    (htake : ∀ u, (loc u).phase.taking = false) : count Custody.inHand (custodies loc) = 0 := by
  have howns : (loc t).phase.owns = true := by rw [ht]; rfl
  refine count_eq_zero.mpr fun u => ?_
  by_contra hne
  have hu : (loc u).custody.inHand = true := Bool.not_eq_false _ ▸ hne
  have hut : u ≠ t := by
    rintro rfl
    rw [ht] at hu
    cases hu
  have hno : (loc u).phase.owns = false := hg.not_owns howns hut
  have hnt := htake u
  revert hu hno hnt
  cases loc u <;> simp [Pc.custody, Pc.phase, Custody.inHand, Phase.taking, Phase.owns]

/-- Nobody is in `destroy` while somebody holds a listener. -/
theorem Guarded.count_last (hg : Guarded ⟨m, loc⟩) (ht : (loc t).phase.present = true)
    (hq : ∀ pc : Pc α, q pc.custody = true → pc.phase.leaving = true) :
    count q (custodies loc) = 0 := by
  refine count_eq_zero.mpr fun u => ?_
  by_contra hne
  have := hq (loc u) (Bool.not_eq_false _ ▸ hne)
  rw [(hg.of_present ht).2.2 u] at this
  cases this

end Alone

section Step

variable [DecidableEq T] {loc : T → Pc α} {t : T} {pc pc' : Pc α}

omit [Fintype T] in
theorem custodies_update : custodies (update loc t pc') =
    update (custodies loc) t pc'.custody :=
  Function.comp_update Pc.custody loc t pc'

theorem count_custodies (q : Custody α → Bool) (hpc : loc t = pc) (pc' : Pc α) :
    count q (custodies (update loc t pc')) + (q pc.custody).toNat =
      count q (custodies loc) + (q pc'.custody).toNat := by
  rw [custodies_update, ← hpc]
  exact count_update q (custodies loc) t pc'.custody

theorem count_phases (q : Phase → Bool) (hpc : loc t = pc) (pc' : Pc α) :
    count q (phases (update loc t pc')) + (q pc.phase).toNat =
      count q (phases loc) + (q pc'.phase).toNat := by
  rw [phases_update, ← hpc]
  exact count_update q (phases loc) t pc'.phase

/-- A step that leaves the value alone, and each thread with its part in the books, keeps them
if the state still allows them. -/
theorem Balance.frame {w w' : Words} {m : Store α} (hb : Balance w m (phases loc) (custodies loc))
    (hpc : loc t = pc) (hc : pc'.custody = pc.custody ∨
      pc.custody.bystander = true ∧ pc'.custody.bystander = true)
    (hfree : w'.state = .free ↔ w.state = .free)
    (hrun : w'.state = .running → count Phase.runs (phases (update loc t pc')) = 0 →
      w.state = .running ∧ count Phase.runs (phases loc) = 0)
    (hpend : w'.state = .pending → w.state = .pending)
    (hready : w'.state = .ready → 0 < w'.listeners → w.state = .ready ∧ 0 < w.listeners) :
    Balance w' m (phases (update loc t pc')) (custodies (update loc t pc')) := by
  have heq : ∀ q : Custody α → Bool, (∀ c, c.bystander = true → q c = false) →
      count q (custodies (update loc t pc')) = count q (custodies loc) := fun q hq => by
    have hcount := count_custodies q hpc pc'
    have : q pc'.custody = q pc.custody := by
      rcases hc with hc | ⟨h, h'⟩
      · rw [hc]
      · rw [hq _ h, hq _ h']
    rw [this] at hcount
    omega
  refine (BalanceAt.frame hb hfree hrun hpend hready).cast rfl rfl (heq _ ?_) (heq _ ?_) (heq _ ?_)
    (heq _ ?_) (heq _ ?_) (heq _ ?_) <;>
    rintro (_ | _) <;> first | exact fun _ => rfl | exact nofun

variable {m m' : Mem α}

/-- **The books are kept by every step**, if a run's swap of `filled` comes after every taker
that has to empty the slot, and its write after every taker that has to move the payload. -/
theorem Balance.step (hg : Guarded ⟨m, loc⟩) (hr : Readable ⟨m, loc⟩)
    (hb : Balance m.toWords m.toStore (phases loc) (custodies loc)) (h : Step m (loc t) m' pc')
    (hswap : ∀ v, loc t = .recycleSwap v → ∀ u, (loc u).custody.claimsValue = false)
    (hwrite : ∀ v, loc t = .running v → pc' = .wrote v → ∀ u, (loc u).phase.taking = false) :
    Balance m'.toWords m'.toStore (phases (update loc t pc'))
      (custodies (update loc t pc')) := by
  -- What the guard says about the thread that moves, whatever it does.
  have hpres : (loc t).phase.present = true →
      0 < m.listeners ∧ m.state ≠ .free ∧ ∀ u, (loc u).phase.leaving = false := hg.of_present
  have halone := fun h : phases loc t = .trying .run => hg.accounts.runs_eq_zero h
  have howns := fun (q : Custody α → Bool) ht => hg.count_of_owns (q := q) (t := t) ht
  have htake := fun (q : Custody α → Bool) ht => hg.count_of_taking (q := q) (t := t) ht
  have hleave := fun (q : Custody α → Bool) ht => hg.count_of_leaving (q := q) (t := t) ht
  have hlast : (loc t).phase.present = true → count Custody.dropsLast (custodies loc) = 0 :=
    fun ht => hg.count_last ht fun _ h => leaving_of_custody (.inl h)
  have hgone : (loc t).phase.present = true → count Custody.isGone (custodies loc) = 0 :=
    fun ht => hg.count_last ht fun _ h => leaving_of_custody (.inr h)
  have hheld : (loc t).phase.runs = true → 0 < count Phase.runs (phases loc) ∧
      m.state.heldByRun = true := fun h =>
    have h := count_pos (p := Phase.runs) (f := phases loc) (t := t) h
    ⟨h, hg.exclusion.runs_state h⟩
  have htaken : (loc t).phase.taking = true → m.state ≠ .ready ∧
      ∀ u, (loc u).phase.hasWritten = false := fun h => by
    have h := count_pos (p := Phase.taking) (f := phases loc) (t := t) h
    refine ⟨fun hs => ?_, fun u => ?_⟩
    · have := hg.exclusion.taking_state h
      simp [hs, TaskState.heldByRun, TaskState.stopped] at this
    · by_contra hu
      exact h.ne' (hg.exclusion.wrote_taking (count_pos (t := u) (Bool.not_eq_false _ ▸ hu)))
  have hlive : (loc t).phase.leaving = true → m.state ≠ .free := fun h =>
    hg.lastOut.live (count_pos (t := t) h)
  generalize hpc : loc t = pc at *
  have hsame : pc'.phase.runs = pc.phase.runs → ∀ {p : Prop}, p →
      count Phase.runs (phases (update loc t pc')) = 0 →
      p ∧ count Phase.runs (phases loc) = 0 := fun he _ hp h0 => by
    have := count_phases Phase.runs hpc pc'
    rw [he] at this
    exact ⟨hp, by omega⟩
  have er := count_phases Phase.runs hpc pc'
  have eh := count_custodies Custody.inHand hpc pc'
  have ec := count_custodies Custody.claimsValue hpc pc'
  have ee := count_custodies Custody.ownsEmpty hpc pc'
  have ef := count_custodies Custody.ownsFilled hpc pc'
  have ed := count_custodies Custody.dropsLast hpc pc'
  have eg := count_custodies Custody.isGone hpc pc'
  cases h with
  | quiet hw hs hp hc =>
    rw [hw, hs, phases_update, custodies_update, hp, hc, ← hpc]
    exact (update_eq_self t (phases loc)).symm ▸
      (update_eq_self t (custodies loc)).symm ▸ hb
  | join hl => exact hb.frame hpc (.inl rfl) Iff.rfl (hsame rfl) id fun h _ => ⟨h, hl⟩
  | leave _ | lastOut _ =>
    exact hb.frame hpc (.inl rfl) Iff.rfl (hsame rfl) id fun h _ => ⟨h, (hpres rfl).1⟩
  | claim _ | publish _ | takeDown | rearm | count | backOut | waited _ | winWaited _
    | destroyTask => exact hb.frame hpc (.inl rfl) Iff.rfl (hsame rfl) id fun h hl => ⟨h, hl⟩
  | enter _ | leaveRead | handOver =>
    exact hb.frame hpc (.inr ⟨rfl, rfl⟩) Iff.rfl (hsame rfl) id fun h hl => ⟨h, hl⟩
  | letGo hw hs hp hc =>
    rw [hw, hs]
    exact hb.frame hpc (.inl hc.symm) Iff.rfl (hsame (by rw [hp]; rfl)) id fun h hl => ⟨h, hl⟩
  | stop hp hc e =>
    have hne := (hpres (by rw [hp]; rfl)).2.1
    exact hb.frame hpc (.inl hc.symm) (iff_of_false e.state_ne_free hne)
      (fun h => absurd h e.state_ne_running) (fun h => absurd h e.state_ne_pending)
      fun h => absurd h e.state_ne_ready
  | fail =>
    exact hb.frame hpc (.inl rfl) (iff_of_false (fun h => by cases h) (hpres rfl).2.1)
      (fun h => by cases h) (fun h => by cases h) fun h => by cases h
  | beginAgain hp hc h =>
    have hne := (hpres (by rw [hp]; rfl)).2.1
    rw [hp] at er
    refine hb.frame hpc (.inl hc.symm) (iff_of_false (fun h => by cases h) hne) (fun _ h0 => ?_)
      (fun h => by cases h) fun h => by cases h
    rw [h0] at er
    cases er
  | beginPending h =>
    exact (BalanceAt.begins hb (hpres rfl).2.1 (hb.pending h)).cast er rfl eh ec ee ef ed eg
  | resume h =>
    have hf := hb.parked h (halone (by rw [phases, hpc]; rfl))
    have hb' := (BalanceAt.begins hb (hpres rfl).2.1 hf).cast er rfl eh ec ee ef ed eg
    rw [← h] at hb'
    exact hb'
  | swapEmpty h =>
    exact (BalanceAt.own hb h).cast (Nat.add_right_cancel er) rfl eh ec ee ef ed eg
  | @swapFull v h =>
    have hst : m.state ≠ .ready := fun hr => by have := (hheld rfl).2; rw [hr] at this; cases this
    have hc0 : count Custody.claimsValue (custodies loc) = 0 := count_eq_zero.mpr (hswap v rfl)
    have hf0 := howns Custody.ownsFilled rfl fun pc h => owns_of_custody (.inr (.inl h))
    rw [Balance, h] at hb
    exact (hb.takeFrom hst).cast (Nat.add_right_cancel er) rfl eh (ec.trans hc0) ee
      (ef.trans hf0) (ed.trans (hlast rfl)) eg
  | dropOld =>
    obtain ⟨hs, hf⟩ := BalanceAt.of_hands hb (hpres rfl).2.1 (hgone rfl) eh
    exact ((BalanceAt.settle hb (hpres rfl).2.1 (hgone rfl) eh).own hf).cast
      (Nat.add_right_cancel er) (Store.spent_dropInPlace hs) rfl ec ee ef ed eg
  | moveOut =>
    obtain ⟨hs, hf⟩ := BalanceAt.of_hands hb (hpres rfl).2.1 (hgone rfl) eh
    exact (BalanceAt.settle hb (hpres rfl).2.1 (hgone rfl) eh).cast er
      (Store.spent_moveOut hs) rfl ec ee ef ed eg
  | @write v x =>
    have hh := hg.inHand_eq_zero hpc (hwrite v rfl rfl)
    have hspent : (m.toStore.write x).spent = 0 := by
      obtain ⟨hm, hd⟩ := hr.fresh m.writes le_rfl
      exact (congrArg₂ (· + ·) hm hd)
    exact (BalanceAt.write hb (hpres rfl).2.1 (hgone rfl) ee).cast (Nat.add_right_cancel er)
      hspent (eh.trans (by rw [hh]; rfl)) ec rfl ef ed eg
  | fill =>
    have he := howns Custody.ownsEmpty rfl fun pc h => owns_of_custody (.inl h)
    exact (BalanceAt.fill hb (hheld rfl).2 (hgone rfl) (hheld rfl).1 he eh).cast
      (Nat.add_right_cancel er) rfl rfl ec ee ef ed eg
  | makeReady h =>
    exact (BalanceAt.makeReady hb (hpres rfl).2.1 ef).cast rfl rfl eh ec ee rfl ed eg
  | stayStopped h => exact (BalanceAt.stayStopped hb h ef).cast rfl rfl eh ec ee rfl ed eg
  | park | panic | die => exact (BalanceAt.letGo hb ee).cast rfl rfl eh ec rfl ef ed eg
  | win h =>
    rw [Balance, h] at hb
    exact (hb.win (hpres rfl).1).cast er rfl eh ec ee ef ed eg
  | empty =>
    have hc := htake Custody.claimsValue rfl fun pc h => taking_of_custody (.inl h)
    have hf0 : count Custody.ownsFilled (custodies loc) = 0 := count_eq_zero.mpr fun u => by
      have := (htaken rfl).2 u
      revert this
      rw [custodies]
      cases loc u <;> simp [Pc.custody, Pc.phase, Custody.ownsFilled, Phase.hasWritten]
    have hfull := hb.claims_filled (by rw [hc]; exact Nat.one_pos)
    rw [Balance, hfull] at hb
    exact (hb.takeFrom (htaken rfl).1).cast er rfl eh (Nat.add_right_cancel (ec.trans hc)) ee
      (ef.trans hf0) (ed.trans (hlast rfl)) eg
  | lastLookFull h =>
    rw [Balance, h] at hb ⊢
    exact hb.lastLookFull.cast er rfl eh ec ee ef ed eg
  | lastLookEmpty h =>
    exact (BalanceAt.lastLookEmpty hb (hlive rfl) (hleave _ rfl rfl) (hleave _ rfl rfl) h).cast er
      rfl eh ec ee ef ed eg
  | lastDrop =>
    have hfull := hb.last_filled (by rw [hleave _ rfl rfl]; exact Nat.one_pos)
    have hs := BalanceAt.of_filled hb (hlive rfl) (hleave _ rfl rfl) hfull
    exact (BalanceAt.lastDrop hb hs ed).cast er (Store.spent_dropInPlace hs) eh ec ee ef rfl eg
  | free => exact (BalanceAt.free hb eg).cast er rfl eh ec ee ef ed rfl

end Step

/-! ### The history of every value -/

/-- The value last written is on the books, takers hold the value they won, and every earlier
value was settled once. -/
structure Settled (s : Config T (Mem α) (Pc α)) : Prop where
  balance : Balance s.mem.toWords s.mem.toStore (phases s.loc) (custodies s.loc)
  payload : 0 < s.mem.writes → s.mem.payload ≠ none
  held : ∀ t w, (s.loc t).custody = .claims w ∨ (s.loc t).custody = .moves w → s.mem.payload = w
  got : ∀ t w g, s.loc t = .took w g → g = w ∧ w ≠ none
  older : ∀ k, k + 1 < s.mem.writes → s.mem.moves k + s.mem.drops k = 1

/-- A taker holds the value in the payload when it wins, and held its value before otherwise. -/
theorem Step.won {m m' : Mem α} {pc pc' : Pc α} {w : Option (Written α)} (h : Step m pc m' pc')
    (hw : pc'.custody = .claims w ∨ pc'.custody = .moves w) : m'.payload = m.payload ∧
      (w = m.payload ∨ pc.custody = .claims w ∨ pc.custody = .moves w) := by
  cases h with
  | quiet _ hs _ hc => exact ⟨by rw [hs], .inr (hc ▸ hw)⟩
  | win _ =>
    rcases hw with hw | hw <;> cases hw
    exact ⟨rfl, .inl rfl⟩
  | winWaited _ => exact ⟨rfl, .inr hw⟩
  | empty =>
    rcases hw with hw | hw <;> cases hw
    exact ⟨rfl, .inr (.inl rfl)⟩
  | _ => rcases hw with hw | hw <;> cases hw

/-- A take is over with what the payload held. -/
theorem Step.took {m m' : Mem α} {pc pc' : Pc α} {w g : Option (Written α)}
    (h : Step m pc m' pc') (hw : pc' = .took w g) :
    pc = .took w g ∨ pc = .takeMove w ∧ g = m.payload := by
  cases h with
  | quiet _ _ _ hc =>
    rw [hw] at hc
    cases pc <;> cases hc
    exact .inl rfl
  | moveOut =>
    cases hw
    exact .inr ⟨rfl, rfl⟩
  | _ => cases hw

/-- Whether this is the step that swaps `filled` for a run. -/
def swapsFilled : Pc α → Bool
  | .recycleSwap _ => true
  | _ => false

/-- A run swaps `filled` only after every taker that won has emptied the slot, and writes the
payload only after every taker that won has moved it out. -/
def TakesFirst (s : Config T (Mem α) (Pc α)) (t : T) (a : Act α) : Prop :=
  WriteAfterTakes s t a ∧
    (swapsFilled (s.loc t) = true → ∀ u, (s.loc u).custody.claimsValue = false)

instance (s : Config T (Mem α) (Pc α)) (t : T) (a : Act α) : Decidable (TakesFirst s t a) :=
  inferInstanceAs (Decidable (_ ∧ _))

theorem Fresh.settled {s : Config T (Mem α) (Pc α)} (h : Fresh s) : Settled s where
  balance := by
    have hzero : ∀ q : Custody α → Bool, q .none = false → count q (custodies s.loc) = 0 :=
      fun q hq => count_eq_zero.mpr fun t => by
        rcases h.loc t with ht | ht <;> simp only [custodies, ht, Pc.custody, hq]
    have hspent : s.mem.toStore.spent = 1 := by rw [Store.spent, h.payload]
    rw [Balance, h.state, h.filled, hspent, hzero _ rfl, hzero _ rfl, hzero _ rfl, hzero _ rfl,
      hzero _ rfl, hzero _ rfl]
    exact ⟨fun _ _ => rfl, fun _ => rfl, nofun, nofun, fun _ => rfl, nofun, nofun, nofun, nofun⟩
  payload h0 := by rw [h.writes] at h0; cases h0
  held t w ht := by
    rcases h.loc t with hl | hl <;> rw [hl] at ht <;> rcases ht with ht | ht <;> cases ht
  got t w g ht := by rcases h.loc t with hl | hl <;> rw [hl] at ht <;> cases ht
  older k hk := by rw [h.writes] at hk; omega

section Settled

variable [DecidableEq T] {s : Config T (Mem α) (Pc α)} {t : T} {m' : Mem α} {pc' : Pc α}
  {a : Act α}

omit [DecidableEq T] in
/-- A run that writes, with no taker about, finds the value before it settled. -/
theorem Settled.spent_eq_one {v : Via} (hg : Guarded s) (hs : Settled s)
    (ht : s.loc t = .running v) (htake : ∀ u, (s.loc u).phase.taking = false) :
    s.mem.toStore.spent = 1 := by
  have hpres : (s.loc t).phase.present = true := by rw [ht]; rfl
  have hgone : count Custody.isGone (custodies s.loc) = 0 :=
    hg.count_last hpres fun _ h => leaving_of_custody (.inr h)
  refine BalanceAt.spent_eq_one hs.balance (hg.of_present hpres).2.1 hgone
    (hg.inHand_eq_zero ht htake) (count_pos (t := t) ?_)
  rw [custodies, ht]
  rfl

theorem Settled.step (hg : Guarded s) (hr : Readable s) (hs : Settled s) (hok : TakesFirst s t a)
    (hn : next s.mem (s.loc t) a = some (m', pc')) :
    Settled ⟨m', update s.loc t pc'⟩ := by
  have h := next_step hn
  have hwrite : ∀ v, s.loc t = .running v → pc' = .wrote v → ∀ u, (s.loc u).phase.taking = false :=
    fun v hv hw => hok.1 (writesPayload_of_hasWritten hn (by rw [hv]; rfl) (by rw [hw]; rfl))
  have hswap : ∀ v, s.loc t = .recycleSwap v → ∀ u, (s.loc u).custody.claimsValue = false :=
    fun v hv => hok.2 (by rw [hv]; rfl)
  -- The last value is the one a move or a drop settles, so the earlier ones stay as they are.
  have hne : ∀ {k}, k + 1 < s.mem.writes → ∀ x, s.mem.payload = some x → x.serial ≠ k :=
    fun hk x hx => by have := hr.serial x hx; omega
  have hheld : m'.payload = s.mem.payload ∨ (∀ u, (s.loc u).phase.taking = false) →
      ∀ u w, (update s.loc t pc' u).custody = .claims w ∨
        (update s.loc t pc' u).custody = .moves w → m'.payload = w := by
    intro hpay u w hu
    rcases eq_or_ne u t with rfl | hut
    · rw [update_self] at hu
      obtain ⟨he, hw | hw⟩ := h.won hu
      · rw [he, hw]
      · rw [he, hs.held u w hw]
    · rw [update_of_ne hut] at hu
      rcases hpay with he | htake
      · rw [he, hs.held u w hu]
      · have htk : (s.loc u).phase.taking = true := by
          rcases hu with hu | hu
          · exact taking_of_custody (.inl (by rw [hu]; rfl))
          · exact taking_of_custody (.inr ⟨w, hu⟩)
        rw [htake u] at htk
        cases htk
  have hgot : ∀ u w g, update s.loc t pc' u = .took w g → g = w ∧ w ≠ none := by
    intro u w g hu
    rcases eq_or_ne u t with rfl | hut
    · rw [update_self] at hu
      rcases h.took hu with ht | ⟨ht, rfl⟩
      · exact hs.got u w g ht
      · have hw : s.mem.payload = w := hs.held u w (.inr (by rw [ht]; rfl))
        refine ⟨hw, fun h0 => ?_⟩
        -- A value in hand is not settled, and an empty payload counts as settled.
        have hpres : (s.loc u).phase.present = true := by rw [ht]; rfl
        have hpos : 0 < count Custody.inHand (custodies s.loc) :=
          count_pos (t := u) (by rw [custodies, ht]; rfl)
        have := hs.balance.balance (hg.count_last hpres fun _ h => leaving_of_custody (.inr h))
          (hg.of_present hpres).2.1
        have hspent : s.mem.toStore.spent = 1 := by rw [Store.spent, hw, h0]
        omega
    · rw [update_of_ne hut] at hu
      exact hs.got u w g hu
  have hbal := Balance.step hg hr hs.balance h hswap hwrite
  rcases h.store with ⟨v, x, hv, hv', hw⟩ | ⟨-, hsame | ⟨-, hout⟩ | ⟨-, hdrop⟩⟩
  · have htake := hwrite v hv hv'
    refine ⟨hbal, ?_, hheld (.inr htake), hgot, fun k hk => ?_⟩
    · rw [hw]
      exact fun _ => nofun
    · rw [hw] at hk ⊢
      show s.mem.moves k + s.mem.drops k = 1
      rcases Nat.lt_succ_iff_lt_or_eq.mp hk with hk | hk
      · exact hs.older k hk
      · -- The value before the one written.
        have hspent := hs.spent_eq_one hg hv htake
        obtain ⟨y, hy⟩ := Option.ne_none_iff_exists'.mp (hs.payload (by omega))
        have hky : y.serial = k := by have := hr.serial y hy; omega
        rwa [Store.spent_of_payload hy, hky] at hspent
  · refine ⟨hbal, ?_, hheld (.inl hsame.payload), hgot, fun k hk => ?_⟩
    · rw [hsame.payload, hsame.writes]
      exact hs.payload
    · rw [hsame.writes] at hk
      rw [hsame.moves, hsame.drops]
      exact hs.older k hk
  · refine ⟨hbal, ?_, hheld (.inl (by rw [hout]; rfl)), hgot,
      fun k hk => ?_⟩ <;> rw [hout] at *
    · exact hs.payload
    · rw [Store.moveOut_moves (hne hk)]
      exact hs.older k hk
  · refine ⟨hbal, ?_, hheld (.inl (by rw [hdrop]; rfl)), hgot,
      fun k hk => ?_⟩ <;> rw [hdrop] at *
    · exact hs.payload
    · rw [Store.dropInPlace_drops (hne hk)]
      exact hs.older k hk

theorem Reach.settled (hT : Fintype.card T < 2 ^ 32)
    (hs : (machine α).Reach Fresh TakesFirst s) : Readable s ∧ Settled s := by
  have h := hs.invariant (I := fun s => Guarded s ∧ Readable s ∧ Settled s)
    (fun _ h => ⟨h.guarded, h.readable, h.settled⟩) fun _ _ _ _ _ hi hok h =>
      ⟨hi.1.step hT hok.1 h, hi.2.1.step hi.1 (next_step h), hi.2.2.step hi.1 hi.2.1 hok h⟩
  exact h.2

omit [DecidableEq T] in
/-- The last value is settled at most once, and was settled once the slot is free. -/
theorem Settled.spent_le (hs : Settled s) :
    s.mem.toStore.spent ≤ 1 ∧ (s.mem.state = .free → s.mem.toStore.spent = 1) := by
  have hb := hs.balance
  refine ⟨?_, fun hf => hb.settled (.inr hf)⟩
  by_cases hgone : 0 < count Custody.isGone (custodies s.loc) ∨ s.mem.state = .free
  · exact (hb.settled hgone).le
  · have := hb.balance (by omega) fun h => hgone (.inr h)
    omega

end Settled

/-- **Every value has one owner.** In every state reached, a value was moved out or dropped in
place at most once in all, and exactly once as soon as a later value was written or the slot
was destroyed; and a take that is over moved out the value it won. -/
theorem value_settled_once [DecidableEq T] (hT : Fintype.card T < 2 ^ 32)
    {s : Config T (Mem α) (Pc α)} (hs : (machine α).Reach Fresh TakesFirst s) :
    (∀ k, s.mem.moves k + s.mem.drops k ≤ 1) ∧
      (∀ k, k + 1 < s.mem.writes → s.mem.moves k + s.mem.drops k = 1) ∧
      (s.mem.state = .free → ∀ k, k < s.mem.writes → s.mem.moves k + s.mem.drops k = 1) ∧
      ∀ t won got, s.loc t = .took won got → got = won ∧ won ≠ none := by
  obtain ⟨hr, hs⟩ := Reach.settled hT hs
  have hlast : ∀ k, k + 1 = s.mem.writes → s.mem.toStore.spent = s.mem.moves k + s.mem.drops k := by
    intro k hk
    obtain ⟨x, hx⟩ := Option.ne_none_iff_exists'.mp (hs.payload (by omega))
    have : x.serial = k := by have := hr.serial x hx; omega
    rw [Store.spent_of_payload hx, this]
  refine ⟨fun k => ?_, hs.older, fun hf k hk => ?_, hs.got⟩
  · rcases lt_trichotomy (k + 1) s.mem.writes with hk | hk | hk
    · exact (hs.older k hk).le
    · rw [← hlast k hk]
      exact hs.spent_le.1
    · obtain ⟨hm, hd⟩ := hr.fresh k (by omega)
      omega
  · rcases Nat.lt_or_eq_of_le hk with hk | hk
    · exact hs.older k hk
    · rw [← hlast k hk]
      exact hs.spent_le.2 hf

/-- Thread 1 takes the output of a first run, a second run publishes, and everybody leaves. -/
def takeThenDestroy : List (Fin 3 × Act ℕ) :=
  runOnce 7 ++ [(1, .take), (1, .go), (1, .go), (1, .go), (1, .go)] ++
    [(0, .run), (0, .go), (0, .go), (0, .go), (0, .go), (0, .go), (0, .go), (0, .done 8), (0, .go),
      (0, .go), (0, .again)] ++
    [(0, .leave), (1, .leave), (2, .leave), (2, .go), (2, .go), (2, .go), (2, .go)]

theorem value_settled_once_repeatSlot : ∃ s : Config (Fin 3) (Mem ℕ) (Pc ℕ),
    (machine ℕ).Reach Fresh TakesFirst s ∧ s.mem.state = .free ∧ s.mem.writes = 2 ∧
      ∀ k, k < s.mem.writes → s.mem.moves k + s.mem.drops k = 1 := by
  obtain ⟨s, hs, hf, hw⟩ : ∃ s : Config (Fin 3) _ _, (machine ℕ).Reach Fresh TakesFirst s ∧
      s.mem.state = .free ∧ s.mem.writes = 2 :=
    (Machine.Reach.init repeatSlot_fresh).exists_of_run takeThenDestroy (by decide)
  exact ⟨s, hs, hf, hw, (value_settled_once (by decide) hs).2.2.1 hf⟩

/-- A run begun from `Taken` drops the value thread 1 has won, and thread 1 moves it out. -/
def dropUnderTaker : List (Fin 3 × Act ℕ) :=
  runOnce 7 ++ [(1, .take)] ++
    [(0, .run), (0, .go), (0, .go), (0, .go), (0, .go), (0, .go), (0, .go), (0, .go)] ++
    [(1, .go), (1, .go), (1, .go)]

/-- **A value can be settled twice** when nothing orders a run after a take. -/
theorem value_settled_twice : ∃ s : Config (Fin 3) (Mem ℕ) (Pc ℕ),
    (machine ℕ).Reach Fresh Machine.unguarded s ∧ s.mem.moves 0 = 1 ∧ s.mem.drops 0 = 1 := by
  exact (Machine.Reach.init repeatSlot_fresh).exists_of_run dropUnderTaker (by decide)

end Atap.Slot
