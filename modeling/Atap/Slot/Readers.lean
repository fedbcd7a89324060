import Atap.Slot.Payload

/-!
# A reader keeps its payload

Between an `enter_read` that returned `true` and its `leave_read` a reader clones out of the
payload. The handshake keeps runs and takers past their waits out of its way, and so the
value it was let in on stays where it is: `reader_keeps_payload`.

That is as far as the words go. A repeat may begin from `taken` while the taker that moved
the state there still stands between its exchange and its move of the payload; if the run
then writes and publishes, a reader is let in on the new value and the taker, past its wait,
moves that value out under it (`reader_loses_payload`). The condition `WriteAfterTakes` is
that no run writes the payload while a taker still has it to move out.
-/

namespace Atap.Slot

open Function

variable {α T : Type*} [Fintype T]

/-- What every thread has won of the slot. -/
def phases (loc : T → Pc α) : T → Phase := fun t => (loc t).phase

/-- Whether this is the step that writes the payload. -/
def writesPayload : Pc α → Act α → Bool
  | .running _, .done _ => true
  | _, _ => false

/-- No run writes the payload while a taker that won it has not moved it out. -/
def WriteAfterTakes (s : Config T (Mem α) (Pc α)) (t : T) (a : Act α) : Prop :=
  writesPayload (s.loc t) a = true → ∀ u, (s.loc u).phase.taking = false

instance (s : Config T (Mem α) (Pc α)) (t : T) (a : Act α) : Decidable (WriteAfterTakes s t a) :=
  inferInstanceAs (Decidable (_ → _))

/-- The handshake holds over the slot. -/
structure Guarded (s : Config T (Mem α) (Pc α)) : Prop where
  accounts : Accounts s.mem.toWords (phases s.loc)
  lastOut : LastOut s.mem.toWords (phases s.loc)
  exclusion : Exclusion s.mem.toWords (phases s.loc)

theorem Fresh.guarded {s : Config T (Mem α) (Pc α)} (h : Fresh s) : Guarded s := by
  -- Nobody is past holding a listener.
  have hzero : ∀ q : Phase → Bool, q .outside = false → q .idle = false →
      count q (phases s.loc) = 0 := fun q ho hi => by
    refine count_eq_zero.mpr fun t => ?_
    rcases h.loc t with ht | ht <;> simp only [phases, ht, Pc.phase, ho, hi]
  have hpres : count Phase.present (phases s.loc) = s.mem.listeners := by
    rw [h.listeners]
    refine Finset.sum_congr rfl fun t _ => ?_
    rcases h.loc t with ht | ht <;> simp only [phases, ht] <;> rfl
  refine ⟨⟨hpres.symm, ?_, ?_, ?_, ?_⟩, ⟨?_, ?_, ?_, ?_⟩, ?_⟩
  · rw [hzero _ rfl rfl, h.readers]
  · rw [hzero _ rfl rfl]
    exact Bool.toNat_le _
  · intro hp
    rw [hzero _ rfl rfl, h.task, hp]
    rfl
  · intro _
    exact hzero _ rfl rfl
  · rw [hzero _ rfl rfl]
    exact Nat.zero_le 1
  · rw [hzero _ rfl rfl]
    exact nofun
  · rw [h.state]
    exact nofun
  · rw [h.state]
    exact fun _ => nofun
  · rw [Exclusion, h.state, hzero _ rfl rfl, hzero _ rfl rfl, hzero _ rfl rfl, hzero _ rfl rfl,
      hzero _ rfl rfl, hzero _ rfl rfl]
    exact ⟨le_rfl, le_rfl, le_rfl, Nat.zero_le 1, nofun, Nat.zero_le 1, nofun, nofun, nofun,
      nofun, nofun, nofun⟩

section Step

omit [Fintype T] in
theorem phases_update [DecidableEq T] (loc : T → Pc α) (t : T) (pc : Pc α) :
    phases (update loc t pc) = update (phases loc) t pc.phase :=
  Function.comp_update Pc.phase loc t pc

/-- The step that writes the payload is the one that comes to have written. -/
theorem writesPayload_of_hasWritten {m m' : Mem α} {pc pc' : Pc α} {a : Act α}
    (h : next m pc a = some (m', pc')) (h0 : pc.phase.hasWritten = false)
    (h1 : pc'.phase.hasWritten = true) : writesPayload pc a = true := by
  cases next_step h with
  | quiet _ _ hp _ => rw [hp, h0] at h1; cases h1
  | @write v x => cases v <;> cases a <;> first | rfl | simp [next, outcome] at h
  | fill => cases h0
  | _ => cases h1

variable [DecidableEq T] {s : Config T (Mem α) (Pc α)} {t : T} {m' : Mem α} {pc' : Pc α}
  {a : Act α}

theorem Guarded.step (hT : Fintype.card T < 2 ^ 32) (hs : Guarded s) (hok : WriteAfterTakes s t a)
    (h : next s.mem (s.loc t) a = some (m', pc')) :
    Guarded ⟨m', update s.loc t pc'⟩ := by
  have hm : Move s.mem.toWords (phases s.loc t) m'.toWords pc'.phase := (next_step h).move
  have ha := hs.accounts.move hT hm
  refine ⟨?_, ?_, ?_⟩ <;> rw [phases_update]
  · exact ha
  · exact hs.lastOut.move hs.accounts ha hm
  · refine hs.exclusion.move hs.accounts hs.lastOut hm fun h0 h1 => ?_
    exact count_eq_zero.mpr (hok (writesPayload_of_hasWritten h h0 h1))

end Step

/-! ### When the payload has to hold a value -/

/-- Somebody can read the payload, is reading it, or wrote it and has yet to publish it. -/
def Wanted (w : Words) (loc : T → Phase) : Prop :=
  (w.state = .ready ∧ 0 < w.listeners) ∨ 0 < count Phase.hasWritten loc ∨
    0 < count Phase.letIn loc

section Wanted

variable {w w' : Words} {loc : T → Phase} {t : T} {p' : Phase}

/-- A wanted payload is in no one else's hands. -/
theorem Wanted.elim (ha : Accounts w loc) (hd : LastOut w loc) (hx : Exclusion w loc)
    (h : Wanted w loc) :
    (∀ v, loc t ≠ .owning v) ∧ loc t ≠ .emptying ∧ loc t ≠ .destroying := by
  refine ⟨fun v ht => ?_, fun ht => ?_, fun ht => ?_⟩
  · have howns : 0 < count Phase.owns loc := count_pos (t := t) (by rw [ht]; rfl)
    have hruns : 0 < count Phase.runs loc := howns.trans_le hx.owns_le
    rcases h with ⟨hr, -⟩ | hw | hi
    · have := hx.runs_state hruns
      rw [hr] at this
      cases this
    · obtain ⟨u, hu⟩ := exists_of_count_pos hw
      have hle : count Phase.owns loc ≤ 1 := hx.owns_le.trans hx.runs_le
      have htu : t = u := eq_of_count_le_one hle (by rw [ht]; rfl)
        (by revert hu; cases loc u <;> simp [Phase.hasWritten, Phase.owns])
      rw [← htu, ht] at hu
      cases hu
    · exact hi.ne' (hx.owns_inside howns)
  · have hpast : 0 < count Phase.pastWait loc := count_pos (t := t) (by rw [ht]; rfl)
    have htake : 0 < count Phase.taking loc := hpast.trans_le hx.past_le
    rcases h with ⟨hr, -⟩ | hw | hi
    · have := hx.taking_state htake
      rw [hr] at this
      simp [TaskState.heldByRun, TaskState.stopped] at this
    · exact htake.ne' (hx.wrote_taking hw)
    · exact hi.ne' (hx.past_inside hpast)
  · have hl : w.listeners = 0 := hd.listeners (count_pos (t := t) (by rw [ht]; rfl))
    rcases h with ⟨-, hr⟩ | hw | hi
    · exact hr.ne' hl
    · refine hw.ne' (ha.count_eq_zero hl ?_)
      rintro (_ | _) <;> simp [Phase.hasWritten, Phase.present]
    · refine hi.ne' (ha.count_eq_zero hl ?_)
      rintro (_ | _) <;> simp [Phase.letIn, Phase.present]

/-- Only a write makes a payload wanted that was not. -/
theorem Wanted.of_move [DecidableEq T] (ha : Accounts w loc) (hm : Move w (loc t) w' p')
    (h : Wanted w' (update loc t p'))
    (hp : p'.hasWritten = true → (loc t).hasWritten = true) : Wanted w loc := by
  have hpres : (loc t).present = true → 0 < w.listeners := fun h => by
    rw [ha.listeners]
    exact count_pos h
  rcases h with ⟨hr, hl⟩ | hw | hi
  · rcases hm.state_ready hr with hr | hwrote
    · exact .inl ⟨hr, (hm.listeners_pos hl).elim id hpres⟩
    · exact .inr (.inl (count_pos hwrote))
  · have := count_update Phase.hasWritten loc t p'
    have := Bool.toNat_le_toNat hp
    exact .inr (.inl (by omega))
  · by_cases hin : p'.letIn = true → (loc t).letIn = true
    · have := count_update Phase.letIn loc t p'
      have := Bool.toNat_le_toNat hin
      exact .inr (.inr (by omega))
    · obtain ⟨hin', hout⟩ := Classical.not_imp.mp hin
      obtain ⟨hr, ht⟩ := (hm.letIn hin').resolve_left hout
      exact .inl ⟨hr, hpres ht⟩

end Wanted

/-- The value in the payload was moved out by nobody and dropped by nobody. -/
def Store.holdsValue (m : Store α) : Prop :=
  ∃ x, m.payload = some x ∧ m.moves x.serial = 0 ∧ m.drops x.serial = 0

/-- Two stores that differ in `filled` at most. -/
structure Store.SameValue (m m' : Store α) : Prop where
  payload : m'.payload = m.payload
  writes : m'.writes = m.writes
  moves : m'.moves = m.moves
  drops : m'.drops = m.drops

/-- What a step does to the value in the payload: it is written, moved out, dropped, or left
alone. -/
theorem Step.store {m m' : Mem α} {pc pc' : Pc α} (h : Step m pc m' pc') :
    ((∃ v x, pc = .running v ∧ pc' = .wrote v ∧ m'.toStore = m.write x) ∨
      (pc'.phase.hasWritten = true → pc.phase.hasWritten = true) ∧
        (m.SameValue m'.toStore ∨
          pc.phase = .emptying ∧ m'.toStore = m.moveOut ∨
          ((∃ v, pc.phase = .owning v) ∨ pc.phase = .destroying) ∧
            m'.toStore = m.dropInPlace)) := by
  cases h with
  | @write v x => exact .inl ⟨v, x, rfl, rfl, rfl⟩
  | moveOut => exact .inr ⟨nofun, .inr (.inl ⟨rfl, rfl⟩)⟩
  | @dropOld v => exact .inr ⟨nofun, .inr (.inr ⟨.inl ⟨v, rfl⟩, rfl⟩)⟩
  | lastDrop => exact .inr ⟨nofun, .inr (.inr ⟨.inr rfl, rfl⟩)⟩
  | quiet _ hs hp _ => exact .inr ⟨fun h => hp ▸ h, .inl (by rw [hs]; exact ⟨rfl, rfl, rfl, rfl⟩)⟩
  | letGo _ hs _ _ => exact .inr ⟨nofun, .inl (by rw [hs]; exact ⟨rfl, rfl, rfl, rfl⟩)⟩
  | fill => exact .inr ⟨fun _ => rfl, .inl ⟨rfl, rfl, rfl, rfl⟩⟩
  | _ => exact .inr ⟨nofun, .inl ⟨rfl, rfl, rfl, rfl⟩⟩

/-- A reader comes inside on the value in the payload, and was inside on it otherwise. -/
theorem Step.reading {m m' : Mem α} {pc pc' : Pc α} {w : Option (Written α)}
    (h : Step m pc m' pc') (hw : pc' = .reading w) :
    m'.payload = m.payload ∧ (pc = .reading w ∨ w = m.payload) := by
  cases h with
  | quiet _ hs _ hc =>
    refine ⟨by rw [hs], .inl ?_⟩
    rw [hw] at hc
    cases pc <;> cases hc
    rfl
  | enter _ => exact ⟨rfl, .inr (Pc.reading.inj hw).symm⟩
  | _ => cases hw

/-- A wanted payload holds a value, and it is the one every reader inside was let in on. -/
structure Readable (s : Config T (Mem α) (Pc α)) : Prop where
  fresh : ∀ k, s.mem.writes ≤ k → s.mem.moves k = 0 ∧ s.mem.drops k = 0
  serial : ∀ x, s.mem.payload = some x → x.serial + 1 = s.mem.writes
  value : Wanted s.mem.toWords (phases s.loc) → s.mem.holdsValue
  saw : ∀ t w, s.loc t = .reading w → s.mem.payload = w

theorem Fresh.readable {s : Config T (Mem α) (Pc α)} (h : Fresh s) : Readable s where
  fresh k _ := ⟨h.moves k, h.drops k⟩
  serial x hx := by rw [h.payload] at hx; cases hx
  value hw := by
    have hzero : ∀ q : Phase → Bool, q .outside = false → q .idle = false →
        ¬ 0 < count q (phases s.loc) := fun q ho hi h0 => by
      obtain ⟨t, ht⟩ := exists_of_count_pos h0
      rcases h.loc t with hl | hl <;> simp [phases, hl, Pc.phase, ho, hi] at ht
    rcases hw with ⟨hr, -⟩ | hw | hi
    · rw [h.state] at hr
      cases hr
    · exact absurd hw (hzero _ rfl rfl)
    · exact absurd hi (hzero _ rfl rfl)
  saw t w ht := by rcases h.loc t with hl | hl <;> rw [hl] at ht <;> cases ht

section Readable

variable [DecidableEq T] {s : Config T (Mem α) (Pc α)} {t : T} {m' : Mem α} {pc' : Pc α}
  {a : Act α}

theorem Readable.step (hg : Guarded s) (hs : Readable s) (h : Step s.mem (s.loc t) m' pc') :
    Readable ⟨m', update s.loc t pc'⟩ := by
  have hmove : Move s.mem.toWords (phases s.loc t) m'.toWords pc'.phase := h.move
  have helim := fun hw => Wanted.elim (t := t) hg.accounts hg.lastOut hg.exclusion hw
  have hne : ∀ {k}, s.mem.writes ≤ k → ∀ x, s.mem.payload = some x → x.serial ≠ k :=
    fun hk x hx => by have := hs.serial x hx; omega
  -- A reader that stays inside while the value is written would have kept the writer waiting.
  have hsaw : m'.payload = s.mem.payload ∨ (∃ v, s.loc t = .running v) →
      ∀ u w, update s.loc t pc' u = .reading w → m'.payload = w := by
    intro hpay u w hu
    rcases eq_or_ne u t with rfl | hut
    · rw [update_self] at hu
      obtain ⟨he, hw | hw⟩ := h.reading hu
      · rw [he, hs.saw u w hw]
      · rw [he, hw]
    · rw [update_of_ne hut] at hu
      rcases hpay with he | ⟨v, hv⟩
      · rw [he, hs.saw u w hu]
      · have hin : 0 < count Phase.letIn (phases s.loc) :=
          count_pos (t := u) (by rw [phases, hu]; rfl)
        exact absurd (by rw [phases, hv]; rfl) ((helim (.inr (.inr hin))).1 v)
  rcases h.store with ⟨v, x, hv, -, hw⟩ | ⟨hwrote, hstore⟩
  · refine ⟨fun k hk => ?_, fun y hy => ?_, fun _ => ?_, hsaw (.inr ⟨v, hv⟩)⟩
    · rw [hw] at hk ⊢
      exact hs.fresh k (Nat.le_of_succ_le hk)
    · rw [hw] at hy ⊢
      cases hy
      rfl
    · rw [hw]
      exact ⟨_, rfl, hs.fresh _ le_rfl⟩
  · have hwanted : Wanted m'.toWords (phases (update s.loc t pc')) →
        Wanted s.mem.toWords (phases s.loc) := fun hw => by
      rw [phases_update] at hw
      exact hw.of_move hg.accounts hmove hwrote
    rcases hstore with hsame | ⟨hp, hout⟩ | ⟨hp, hdrop⟩
    · refine ⟨fun k hk => ?_, fun y hy => ?_, fun hw => ?_, hsaw (.inl hsame.payload)⟩
      · rw [hsame.writes] at hk
        rw [hsame.moves, hsame.drops]
        exact hs.fresh k hk
      · rw [hsame.payload] at hy
        rw [hsame.writes]
        exact hs.serial y hy
      · obtain ⟨x, hx, h0⟩ := hs.value (hwanted hw)
        exact ⟨x, by rw [hsame.payload, hx], by rwa [hsame.moves, hsame.drops]⟩
    · refine ⟨fun k hk => ?_, fun y hy => ?_, fun hw => ?_, hsaw (.inl ?_)⟩ <;> rw [hout] at *
      · rw [Store.moveOut_moves (hne hk)]
        exact hs.fresh k hk
      · exact hs.serial y hy
      · exact absurd hp (helim (hwanted hw)).2.1
      · rfl
    · refine ⟨fun k hk => ?_, fun y hy => ?_, fun hw => ?_, hsaw (.inl ?_)⟩ <;> rw [hdrop] at *
      · rw [Store.dropInPlace_drops (hne hk)]
        exact hs.fresh k hk
      · exact hs.serial y hy
      · rcases hp with ⟨v, hp⟩ | hp
        · exact absurd hp ((helim (hwanted hw)).1 v)
        · exact absurd hp (helim (hwanted hw)).2.2
      · rfl

theorem Reach.guarded_readable (hT : Fintype.card T < 2 ^ 32)
    (hs : (machine α).Reach Fresh WriteAfterTakes s) : Guarded s ∧ Readable s :=
  hs.invariant (I := fun s => Guarded s ∧ Readable s) (fun _ h => ⟨h.guarded, h.readable⟩)
    fun _ _ _ _ _ hi hok h => ⟨hi.1.step hT hok h, hi.2.step hi.1 (next_step h)⟩

end Readable

/-- **A reader keeps its payload**: while a reader is inside, the payload holds the value it
was let in on, which is the last one written and was neither moved out nor dropped. -/
theorem reader_keeps_payload [DecidableEq T] (hT : Fintype.card T < 2 ^ 32)
    {s : Config T (Mem α) (Pc α)} (hs : (machine α).Reach Fresh WriteAfterTakes s) {t : T}
    {saw : Option (Written α)} (ht : s.loc t = .reading saw) :
    ∃ x, saw = some x ∧ s.mem.payload = some x ∧ x.serial + 1 = s.mem.writes ∧
      s.mem.moves x.serial = 0 ∧ s.mem.drops x.serial = 0 := by
  obtain ⟨-, hr⟩ := Reach.guarded_readable hT hs
  have hin : 0 < count Phase.letIn (phases s.loc) :=
    count_pos (t := t) (by rw [phases, ht]; rfl)
  obtain ⟨x, hx, h0⟩ := hr.value (.inr (.inr hin))
  exact ⟨x, by rw [← hr.saw t saw ht, hx], hx, hr.serial x hx, h0⟩

/-- The slot of a repeat just spawned, with three listeners. -/
def repeatSlot : Config (Fin 3) (Mem ℕ) (Pc ℕ) where
  mem :=
    { state := .pending, prototype := false, task := true, listeners := 3, readers := 0,
      filled := false, payload := none, writes := 0, moves := fun _ => 0, drops := fun _ => 0,
      kind := .repeating, takesInput := false }
  loc _ := .idle

theorem repeatSlot_fresh : Fresh repeatSlot :=
  ⟨rfl, rfl, rfl, rfl, rfl, rfl, fun _ => rfl, fun _ => rfl, fun _ => .inr rfl, by decide⟩

/-- Thread 0 runs the task in the slot and publishes `x`, and the task goes round again. -/
def runOnce (x : ℕ) : List (Fin 3 × Act ℕ) :=
  [(0, .run), (0, .go), (0, .done x), (0, .go), (0, .go), (0, .again)]

theorem reader_keeps_payload_repeatSlot : ∃ s : Config (Fin 3) (Mem ℕ) (Pc ℕ),
    (machine ℕ).Reach Fresh WriteAfterTakes s ∧ s.loc 1 = .reading (some ⟨0, 7⟩) ∧
      ∃ x, some ⟨0, 7⟩ = some x ∧ s.mem.payload = some x ∧ x.serial + 1 = s.mem.writes ∧
        s.mem.moves x.serial = 0 ∧ s.mem.drops x.serial = 0 := by
  obtain ⟨s, hs, h1⟩ : ∃ s : Config (Fin 3) _ _, (machine ℕ).Reach Fresh WriteAfterTakes s ∧
      s.loc 1 = .reading (some ⟨0, 7⟩) :=
    (Machine.Reach.init repeatSlot_fresh).exists_of_run (runOnce 7 ++ [(1, .read), (1, .go)])
      (by decide)
  exact ⟨s, hs, h1, reader_keeps_payload (by decide) hs h1⟩

/-- A run begun from `Taken` publishes under a taker past its wait, which then moves the new
value out while thread 2 reads it. -/
def takeUnderReader : List (Fin 3 × Act ℕ) :=
  runOnce 7 ++ [(1, .take), (1, .go)] ++
    [(0, .run), (0, .go), (0, .go), (0, .go), (0, .go), (0, .go), (0, .go), (0, .go),
      (0, .done 8), (0, .go), (0, .go)] ++
    [(2, .read), (2, .go), (1, .go), (1, .go)]

/-- **A reader can lose its payload** when nothing orders a run after a take. -/
theorem reader_loses_payload : ∃ s : Config (Fin 3) (Mem ℕ) (Pc ℕ),
    (machine ℕ).Reach Fresh Machine.unguarded s ∧ s.loc 2 = .reading (some ⟨1, 8⟩) ∧
      s.mem.moves 1 = 1 := by
  exact (Machine.Reach.init repeatSlot_fresh).exists_of_run takeUnderReader (by decide)

end Atap.Slot
