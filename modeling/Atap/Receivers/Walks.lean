import Atap.Receivers.Order

/-!
# No registration is left behind

A walk that finds the lock taken leaves its request behind and goes, a walk that finds no
registration and no lock goes as well, and a pass has the whole list in its hands, so that the head
reads empty meanwhile. Still every request is met: whoever leaves a request, or sets `CLOSED`,
either looks at the list itself or has left the request with a walk that will look again before it
is done.

* `Walks.asked`: a request on a list nobody walks has a thread that minds it.
* `Walks.stale`: a pass that began before `CLOSED` was set will be followed by another.
* `Walks.owed`: what hangs on closed receivers is about to be looked at.
* `Walks.places`: a registration is hung, in the hands of a pass, or let go.
* `Walks.settled`: with every thread idle, nothing hangs on closed receivers.
-/

namespace Atap.Receivers

open Function

variable {T : Type*}

namespace Walk

/-- The walk holds the lock. -/
def holds : Walk → Bool
  | ask | look | flags | lock | recheck => false
  | _ => true

/-- The registrations a pass has in its hands. -/
def hands : Walk → List ℕ
  | enter _ l | check _ l | back _ l | count _ l => l
  | visit _ _ l kept => l ++ kept
  | keep _ _ i l kept => i :: (l ++ kept)
  | leave kept | push kept => kept
  | _ => []

/-- The pass saw `CLOSED` unset and has registrations to put back. -/
def stale : Walk → Bool
  | swap c | enter c _ | check c _ | back c _ | count c _ | visit c _ _ _ | keep c _ _ _ _ => !c
  | leave kept | push kept => !kept.isEmpty
  | _ => false

/-- The pass saw `CLOSED` set. -/
def closing : Walk → Bool
  | swap c | enter c _ | check c _ | back c _ | count c _ | visit c _ _ _ | keep c _ _ _ _ => c
  | _ => false

/-- What a pass has found to stay so far. -/
def kept : Walk → List ℕ
  | visit _ _ _ kept | keep _ _ _ _ kept => kept
  | _ => []

@[simp] theorem holds_passOver (kept : List ℕ) : (passOver kept).holds = true := by
  unfold passOver; split <;> rfl

theorem mem_hands_passOver {kept : List ℕ} {i : ℕ} (h : i ∈ kept) :
    i ∈ (passOver kept).hands := by
  unfold passOver
  split
  case isTrue hk => rw [hk] at h; cases h
  case isFalse => exact h

theorem stale_passOver {kept : List ℕ} (h : (passOver kept).stale = true) :
    kept.isEmpty = false := by
  unfold passOver at h
  split at h
  · cases h
  · simpa [stale] using h

@[simp] theorem closing_passOver (kept : List ℕ) : (passOver kept).closing = false := by
  unfold passOver; split <;> rfl

end Walk

namespace Pc

/-- The thread holds the lock. -/
def holds : Pc → Bool
  | walk _ w => w.holds
  | _ => false

/-- The registrations the thread has in its hands. -/
def hands : Pc → List ℕ
  | walk _ w => w.hands
  | _ => []

/-- The thread's pass saw `CLOSED` unset and has registrations to put back. -/
def stale : Pc → Bool
  | walk _ w => w.stale
  | _ => false

/-- The thread's pass saw `CLOSED` set. -/
def closing : Pc → Bool
  | walk _ w => w.closing
  | _ => false

/-- What the thread's pass has found to stay so far. -/
def kept : Pc → List ℕ
  | walk _ w => w.kept
  | _ => []

/-- The thread is on its way to ask for a walk. -/
def asks : Pc → Bool
  | regState | regKind | regClose | walk _ .ask => true
  | _ => false

/-- The thread will see to a request. -/
def minds : Pc → Bool
  | regState | regKind | regClose | walk _ .ask | walk _ .look | walk _ .lock
  | walk _ .recheck => true
  | _ => false

/-- The thread has taken a request and is about to take the list off, with `CLOSED` seen if it is
set. -/
def fresh : Pc → Bool
  | walk _ .close | walk _ (.swap true) => true
  | _ => false

end Pc

section Step

variable {m m' : Mem} {pc pc' : Pc} {w : Walk} {o : Option Walk} {a : Act}

theorem WalkStep.locked (h : WalkStep m w a m' o) (hl : w.holds = true → m.locked = true) :
    m'.locked.toNat + w.holds.toNat =
      m.locked.toNat + (o.elim false Walk.holds).toNat := by
  cases h
  case lock h => rw [h]; rfl
  case unlock => rw [hl rfl]; rfl
  case blindOver | leave => rw [Option.elim_some, Walk.holds_passOver]; rfl
  all_goals rfl

/-- One thread holds the lock. -/
theorem Step.locked (h : Step m pc a m' pc') (hl : pc.holds = true → m.locked = true) :
    m'.locked.toNat + pc.holds.toNat = m.locked.toNat + pc'.holds.toNat := by
  cases h
  case walk h => exact h.locked hl
  case walked r _ h =>
    have := h.locked hl
    cases r <;> exact this
  all_goals rfl

theorem WalkStep.places (h : WalkStep m w a m' o) {i : ℕ} (hi : i ∈ m.head ∨ i ∈ w.hands) :
    m'.gone i = true ∨ i ∈ m'.head ∨ i ∈ o.elim [] Walk.hands := by
  cases h
  case swapNone h => exact .inr (.inl (hi.resolve_right List.not_mem_nil))
  case swap h => exact .inr (.inr (hi.resolve_right List.not_mem_nil))
  case back | count =>
    refine .inr (hi.imp_right fun hi => ?_)
    exact List.mem_append_left _ hi
  case blindOver | leave => exact .inr (hi.imp_right Walk.mem_hands_passOver)
  case visitPanic c g j l kept _ | letGo c rd j l kept _ =>
    rcases hi with hi | hi
    · exact .inr (.inl hi)
    · rcases List.mem_cons.mp hi with rfl | hi
      · exact .inl (update_self ..)
      · exact .inr (.inr hi)
  case keep rd j l kept _ =>
    refine .inr (hi.imp_right fun hi => ?_)
    rcases List.mem_cons.mp hi with rfl | hi
    · exact List.mem_append_right _ List.mem_cons_self
    · rcases List.mem_append.mp hi with hi | hi
      · exact List.mem_append_left _ hi
      · exact List.mem_append_right _ (List.mem_cons_of_mem _ hi)
  case push kept =>
    exact .inr (.inl (List.mem_append.mpr hi.symm))
  all_goals exact .inr hi

/-- A registration goes from hand to hand, or is let go. -/
theorem Step.places (h : Step m pc a m' pc') {i : ℕ} (hi : i ∈ m.head ∨ i ∈ pc.hands) :
    m'.gone i = true ∨ i ∈ m'.head ∨ i ∈ pc'.hands := by
  cases h
  case walk h => exact h.places hi
  case walked r _ h => exact (h.places hi).imp_right fun hi => .inl (hi.resolve_right nofun)
  case push => exact .inr (.inl (List.mem_cons_of_mem _ (hi.resolve_right List.not_mem_nil)))
  all_goals exact .inr (.inl (hi.resolve_right List.not_mem_nil))

theorem Step.gone (h : Step m pc a m' pc') {i : ℕ} (hg : m.gone i = true) : m'.gone i = true := by
  have hdrop (j : ℕ) : update m.gone j true i = true := by
    rcases eq_or_ne i j with rfl | hne
    · exact update_self ..
    · rwa [update_of_ne hne]
  cases h
  case walk h =>
    cases h
    case visitPanic | letGo => exact hdrop _
    all_goals exact hg
  case walked h => cases h <;> exact hg
  all_goals exact hg

theorem Step.closed (h : Step m pc a m' pc') (hc : m.closed = true) : m'.closed = true := by
  cases h
  case walk h | walked h => cases h <;> exact hc
  all_goals first | exact hc | rfl

/-- Whoever closes the receivers asks for a walk. -/
theorem Step.closes (h : Step m pc a m' pc') (hc : m'.closed = true) :
    m.closed = true ∨ m'.rewalk = true ∨ pc'.asks = true := by
  cases h
  case walk h | walked h => cases h <;> exact .inl hc
  case regClose => exact .inr (.inr rfl)
  case close | panicClose => exact .inr (.inl rfl)
  all_goals exact .inl hc

/-- A request is taken up by the thread that holds the lock, and nobody else. -/
theorem Step.rewalk (h : Step m pc a m' pc') (hr : m.rewalk = true) :
    m'.rewalk = true ∨ pc.holds = true ∧ pc.stale = false ∧ pc'.fresh = true := by
  cases h
  case walk h =>
    cases h
    case take => exact .inr ⟨rfl, rfl, rfl⟩
    all_goals first | exact .inl hr | exact .inl rfl
  case walked h => cases h <;> exact .inl hr
  all_goals first | exact .inl hr | exact .inl rfl

/-- A thread on its way to ask does ask. -/
theorem Step.asks (h : Step m pc a m' pc') (hp : pc.asks = true) :
    m'.rewalk = true ∨ pc'.asks = true := by
  cases h
  case walk h => cases h <;> first | exact .inl rfl | cases hp
  case walked h => cases h <;> cases hp
  all_goals first | exact .inr rfl | cases hp

theorem WalkStep.kept (h : WalkStep m w a m' o) (hk : w.closing = true → w.kept = [])
    (hc : o.elim false Walk.closing = true) : o.elim [] Walk.kept = [] := by
  cases h
  case blind | visit | visitSeen | visitPanic | letGo => exact hk hc
  case blindOver | leave => simp at hc
  all_goals first | rfl | cases hc

/-- A pass that saw `CLOSED` keeps nothing. -/
theorem Step.kept (h : Step m pc a m' pc') (hk : pc.closing = true → pc.kept = [])
    (hc : pc'.closing = true) : pc'.kept = [] := by
  cases h
  case walk h => exact h.kept hk hc
  case walked r _ _ => cases r <;> cases hc
  all_goals cases hc

theorem WalkStep.stale (h : WalkStep m w a m' o) (hk : w.closing = true → w.kept = [])
    (hs : o.elim false Walk.stale = true) : w.stale = true ∨ m.closed = false := by
  cases h
  case close => exact .inr (by simpa [Walk.stale] using hs)
  case blindOver c kept =>
    have hne := Walk.stale_passOver hs
    cases c
    · exact .inl rfl
    · rw [show kept = [] from hk rfl] at hne; cases hne
  case visitOver c g kept =>
    cases c
    · exact .inl rfl
    · rw [Option.elim_some, Walk.stale, show kept = [] from hk rfl] at hs; cases hs
  case leave kept =>
    have hne := Walk.stale_passOver hs
    exact .inl (by rw [Walk.stale, hne]; rfl)
  all_goals first | exact .inl hs | cases hs

/-- A pass comes to be out of date only as somebody closes the receivers behind it. -/
theorem Step.stale (h : Step m pc a m' pc') (hk : pc.closing = true → pc.kept = [])
    (hs : pc'.stale = true) : pc.stale = true ∨ m.closed = false ∧ m'.closed = false := by
  cases h
  case walk h =>
    rcases h.stale hk hs with hst | hc
    · exact .inl hst
    · exact .inr ⟨hc, by cases h <;> exact hc⟩
  case walked r _ h => cases r <;> cases hs
  all_goals cases hs

/-- A pass goes by `CLOSED` as it is, or was before somebody set it. -/
theorem Step.closing (h : Step m pc a m' pc') (hc : pc'.closing = true) :
    pc.closing = true ∨ m.closed = true := by
  cases h
  case walk h =>
    cases h
    case close => exact .inr hc
    case blindOver | leave => simp [Pc.closing] at hc
    all_goals first | exact .inl hc | cases hc
  case walked r _ h => cases r <;> cases hc
  all_goals cases hc

/-- What the list comes to hold, and who sees to it. -/
theorem Step.head (h : Step m pc a m' pc') (hh : m'.head ≠ []) :
    pc'.asks = true ∨ m.head ≠ [] ∧ (pc.fresh = true → pc'.fresh = true ∨ m.closed = false) ∨
      pc.stale = true := by
  cases h
  case push => exact .inl rfl
  case walk h =>
    cases h
    case close =>
      refine .inr (.inl ⟨hh, fun _ => ?_⟩)
      cases hc : m.closed
      · exact .inr rfl
      · exact .inl rfl
    case swapNone h => exact absurd h hh
    case swap => exact absurd rfl hh
    case push kept =>
      cases kept with
      | nil => exact .inr (.inl ⟨hh, nofun⟩)
      | cons i l => exact .inr (.inr rfl)
    all_goals exact .inr (.inl ⟨hh, nofun⟩)
  case walked h => cases h <;> exact .inr (.inl ⟨hh, nofun⟩)
  all_goals exact .inr (.inl ⟨hh, nofun⟩)

theorem WalkStep.minds (h : WalkStep m w a m' o) (hl : w.holds = true → m.locked = true)
    (hr : m'.rewalk = true) (hlk : m'.locked = false) (hh : m'.head ≠ []) :
    (∃ w', o = some w' ∧ (w' = .look ∨ w' = .lock ∨ w' = .recheck)) ∨ w = .flags ∧ m' = m := by
  cases h
  case lookNone h => exact absurd h hh
  case flags => exact .inr ⟨rfl, rfl⟩
  case lockHeld h => cases h.symm.trans hlk
  case recheck h => cases h.symm.trans hr
  case ask => exact .inl ⟨_, rfl, .inl rfl⟩
  case look | flagsLocked | recheckAsked => exact .inl ⟨_, rfl, .inr (.inl rfl)⟩
  case unlock => exact .inl ⟨_, rfl, .inr (.inr rfl)⟩
  case lock => cases hlk
  all_goals cases (hl rfl).symm.trans hlk

/-- **Nobody turns away from a request on a list nobody walks.** -/
theorem Step.minds (h : Step m pc a m' pc') (hl : pc.holds = true → m.locked = true)
    (hr : m'.rewalk = true) (hlk : m'.locked = false) (hh : m'.head ≠ []) :
    pc'.minds = true ∨
      pc.minds = false ∧ m.rewalk = true ∧ m.locked = false ∧ m.head ≠ [] := by
  cases h
  case walk h =>
    rcases h.minds hl hr hlk hh with ⟨_, heq, hw⟩ | ⟨rfl, rfl⟩
    · obtain rfl := Option.some.inj heq
      rcases hw with rfl | rfl | rfl <;> exact .inl rfl
    · exact .inr ⟨rfl, hr, hlk, hh⟩
  case walked h =>
    rcases h.minds hl hr hlk hh with ⟨_, heq, -⟩ | ⟨rfl, rfl⟩
    · cases heq
    · exact .inr ⟨rfl, hr, hlk, hh⟩
  all_goals first | exact .inl rfl | exact .inr ⟨rfl, hr, hlk, hh⟩

end Step

/-- A walk has been asked for, or is about to be. -/
def Asked (m : Mem) (loc : T → Pc) : Prop := m.rewalk = true ∨ ∃ t, (loc t).asks = true

/-- How the walks see to every request. -/
structure Walks [Fintype T] (m : Mem) (loc : T → Pc) : Prop where
  lock : m.locked.toNat = count Pc.holds loc
  kept : ∀ t, (loc t).closing = true → (loc t).kept = []
  closing : ∀ t, (loc t).closing = true → m.closed = true
  places : ∀ i < m.nodes, m.gone i = true ∨ i ∈ m.head ∨ ∃ t, i ∈ (loc t).hands
  asked : m.rewalk = true → m.locked = false → m.head ≠ [] → ∃ t, (loc t).minds = true
  stale : ∀ t, (loc t).stale = true → m.closed = true → Asked m loc
  owed : m.closed = true → m.head ≠ [] → Asked m loc ∨ ∃ t, (loc t).fresh = true

theorem Walk.holds_of_stale {w : Walk} (h : w.stale = true) : w.holds = true := by
  cases w <;> first | rfl | cases h

theorem Pc.holds_of_stale {pc : Pc} (h : pc.stale = true) : pc.holds = true := by
  cases pc <;> first | exact Walk.holds_of_stale h | cases h

section Run

variable {m m' : Mem} {pc' : Pc} {a : Act} {loc : T → Pc} {t : T}

section

variable [DecidableEq T]

/-- A request, or the thread that is about to make one, stays until a pass takes it up. -/
theorem Step.asked (h : Step m (loc t) a m' pc') (hi : Asked m loc) :
    Asked m' (update loc t pc') ∨
      (loc t).holds = true ∧ (loc t).stale = false ∧ pc'.fresh = true := by
  rcases hi with hr | ⟨u, hu⟩
  · exact (h.rewalk hr).imp_left .inl
  · refine .inl ?_
    rcases eq_or_ne u t with rfl | hne
    · rcases h.asks hu with hr | hpc
      · exact .inl hr
      · exact .inr ⟨u, by rw [update_self]; exact hpc⟩
    · exact .inr ⟨u, by rw [update_of_ne hne]; exact hu⟩

/-- Whoever closes the receivers has asked for a walk, or is about to. -/
theorem Step.asked_of_closes (h : Step m (loc t) a m' pc') (hc : m'.closed = true)
    (hn : m.closed = false) : Asked m' (update loc t pc') := by
  rcases h.closes hc with hc | hr | hpc
  · cases hn.symm.trans hc
  · exact .inl hr
  · exact .inr ⟨t, by rw [update_self]; exact hpc⟩

end

variable [Fintype T]

namespace Walks

theorem locked_of_holds (hi : Walks m loc) (ht : (loc t).holds = true) : m.locked = true := by
  have hpos := count_pos ht
  rw [← hi.lock] at hpos
  exact Bool.toNat_eq_one.mp (Nat.le_antisymm (Bool.toNat_le _) hpos)

theorem eq_of_holds (hi : Walks m loc) {u : T} (ht : (loc t).holds = true)
    (hu : (loc u).holds = true) : u = t := by
  have hle := Bool.toNat_le m.locked
  rw [hi.lock] at hle
  exact eq_of_count_le_one hle hu ht

variable [DecidableEq T]

theorem stale_step (hi : Walks m loc) (h : Step m (loc t) a m' pc') (u : T)
    (hu : (update loc t pc' u).stale = true) (hc : m'.closed = true) :
    Asked m' (update loc t pc') := by
  cases hm : m.closed with
  | false => exact h.asked_of_closes hc hm
  | true =>
    rcases eq_or_ne u t with rfl | hne
    · rw [update_self] at hu
      rcases h.stale (hi.kept u) hu with hs | ⟨hcf, -⟩
      · refine (h.asked (hi.stale u hs hm)).resolve_right fun ⟨_, hno, _⟩ => ?_
        cases hs.symm.trans hno
      · cases hm.symm.trans hcf
    · rw [update_of_ne hne] at hu
      refine (h.asked (hi.stale u hu hm)).resolve_right fun ⟨ht, _, _⟩ => ?_
      exact hne (hi.eq_of_holds ht (Pc.holds_of_stale hu))

theorem owed_step (hi : Walks m loc) (h : Step m (loc t) a m' pc') (hc : m'.closed = true)
    (hh : m'.head ≠ []) : Asked m' (update loc t pc') ∨
      ∃ u, (update loc t pc' u).fresh = true := by
  have hnew (hpc : pc'.fresh = true) : ∃ u, (update loc t pc' u).fresh = true :=
    ⟨t, by rw [update_self]; exact hpc⟩
  cases hm : m.closed with
  | false => exact .inl (h.asked_of_closes hc hm)
  | true =>
    rcases h.head hh with hpc | ⟨hhead, hfresh⟩ | hs
    · exact .inl (.inr ⟨t, by rw [update_self]; exact hpc⟩)
    · rcases hi.owed hm hhead with ha | ⟨u, hu⟩
      · exact (h.asked ha).imp_right fun ⟨_, _, hpc⟩ => hnew hpc
      · rcases eq_or_ne u t with rfl | hne
        · rcases hfresh hu with hpc | hcf
          · exact .inr (hnew hpc)
          · cases hm.symm.trans hcf
        · exact .inr ⟨u, by rw [update_of_ne hne]; exact hu⟩
    · refine .inl ((h.asked (hi.stale t hs hm)).resolve_right fun ⟨_, hno, _⟩ => ?_)
      cases hs.symm.trans hno

theorem places_step (hi : Walks m loc) (h : Step m (loc t) a m' pc') (i : ℕ)
    (hlt : i < m'.nodes) : m'.gone i = true ∨ i ∈ m'.head ∨
      ∃ u, i ∈ (update loc t pc' u).hands := by
  have hmine (hp : i ∈ m.head ∨ i ∈ (loc t).hands) : m'.gone i = true ∨ i ∈ m'.head ∨
      ∃ u, i ∈ (update loc t pc' u).hands :=
    (h.places hp).imp_right <| Or.imp_right fun hpc =>
      ⟨t, by rw [update_self]; exact hpc⟩
  have hold : i < m.nodes → m'.gone i = true ∨ i ∈ m'.head ∨
      ∃ u, i ∈ (update loc t pc' u).hands := fun hlt => by
    rcases hi.places i hlt with hg | hp | ⟨u, hu⟩
    · exact .inl (h.gone hg)
    · exact hmine (.inl hp)
    · rcases eq_or_ne u t with rfl | hne
      · exact hmine (.inr hu)
      · exact .inr (.inr ⟨u, by rw [update_of_ne hne]; exact hu⟩)
  rcases h.nodes with hn | ⟨-, hn, hh⟩
  · exact hold (hn ▸ hlt)
  · rcases Nat.lt_succ_iff_lt_or_eq.mp (hn ▸ hlt) with hlt | rfl
    · exact hold hlt
    · exact .inr (.inl (by rw [hh]; exact List.mem_cons_self))

/-- **A step leaves no request behind.** -/
theorem step (hi : Walks m loc) (h : Step m (loc t) a m' pc') :
    Walks m' (update loc t pc') where
  lock := eq_count_update hi.lock (h.locked hi.locked_of_holds)
  kept := forall_update (P := fun pc : Pc => pc.closing = true → pc.kept = [])
    (h.kept (hi.kept t)) fun u _ => hi.kept u
  closing := forall_update (P := fun pc : Pc => pc.closing = true → m'.closed = true)
    (fun hc => h.closed ((h.closing hc).elim (hi.closing t) id))
    fun u _ hu => h.closed (hi.closing u hu)
  places := hi.places_step h
  asked := by
    intro hr hlk hh
    refine exists_update (P := (Pc.minds · = true))
      ((h.minds hi.locked_of_holds hr hlk hh).imp_right ?_)
    exact fun ⟨hno, hr, hlk, hh⟩ => ⟨hi.asked hr hlk hh, Bool.eq_false_iff.mp hno⟩
  stale := hi.stale_step h
  owed := hi.owed_step h

omit [DecidableEq T] in
/-- **With every thread idle, nothing hangs on closed receivers.** -/
theorem settled (hi : Walks m loc) (hidle : ∀ t, loc t = .idle) (hc : m.closed = true) :
    ∀ i < m.nodes, m.gone i = true := by
  have hlocked : m.locked = false := by
    have hnone : count Pc.holds loc = 0 := count_eq_zero.mpr fun t => by rw [hidle]; rfl
    exact Bool.toNat_eq_zero.mp (hi.lock.trans hnone)
  have hhead : m.head = [] := by
    by_contra hne
    have hr : m.rewalk = true := by
      rcases hi.owed hc hne with (hr | ⟨t, ht⟩) | ⟨t, ht⟩
      · exact hr
      · rw [hidle] at ht; cases ht
      · rw [hidle] at ht; cases ht
    obtain ⟨t, ht⟩ := hi.asked hr hlocked hne
    rw [hidle] at ht
    cases ht
  intro i hlt
  rcases hi.places i hlt with hg | hp | ⟨t, ht⟩
  · exact hg
  · rw [hhead] at hp; cases hp
  · rw [hidle] at ht; cases ht

end Walks

theorem Fresh.walks {s : Config T Mem Pc} (h : Fresh s) : Walks s.mem s.loc where
  lock := by
    rw [h.locked, count_eq_zero.mpr fun t => by rw [h.loc]; rfl]
    rfl
  kept t ht := by rw [h.loc] at ht; cases ht
  closing t ht := by rw [h.loc] at ht; cases ht
  places i hlt := by rw [h.nodes] at hlt; cases hlt
  asked _ _ hh := absurd h.head hh
  stale t ht := by rw [h.loc] at ht; cases ht
  owed _ hh := absurd h.head hh

end Run

end Atap.Receivers
