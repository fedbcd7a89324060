import Atap.Table.Ids
import Atap.Table.Position

/-!
# The pages a trim hands back

`release_pages` goes through the blocks and rounds what lies of a range of ids in each inward to
whole pages. A trim calls it on the ids from the mark it will lower `next_id` to up to the one it
loaded, and holds them all while it does (`Pc.Local`); an id that one thread holds is in no other
place (`Ids.one`). So no slot of a page that goes back is out, and no `alloc` can hand it out.

* `released_pages`: this, in every interleaving in which no thread stalls across a full turn of the
  free list's tag.
* `live_page_released`: an `alloc` that stalls for such a turn puts an id that the trim holds back
  on the list. The next `alloc` returns it, and its page goes back with a task in it.
-/

namespace Atap.Table

open Function

/-- `usize::div_ceil`. -/
def divCeil (a b : ℕ) : ℕ := if a % b = 0 then a / b else a / b + 1

/-- What `release_pages` hands back of one block: the first byte and the length. -/
def releaseBlock (perPage block lo hi : ℕ) : Option (ℕ × ℕ) :=
  let slots := slotsOf block
  let first := slots - firstBlock
  let start := max lo first
  let stop := min hi (first + slots)
  if stop ≤ start then none
  else
    let head := divCeil (start - first) perPage * perPage
    let tail := (stop - first) / perPage * perPage
    if tail ≤ head then none else some (head * slotSize, (tail - head) * slotSize)

/-- `release_pages`: every range it hands back, as a block, the first byte in it and the length. -/
def releasePages (page : ℕ) (mapped : ℕ → Bool) (lo hi : ℕ) : List (ℕ × ℕ × ℕ) :=
  let perPage := page / slotSize
  if perPage = 0 then []
  else (List.range tableBlocks).filterMap fun block =>
    if mapped block then (releaseBlock perPage block lo hi).map (block, ·) else none

/-! ### Rounding inward -/

section Round

variable {page perPage block lo hi start len : ℕ} {mapped : ℕ → Bool}

theorem le_divCeil_mul {a b : ℕ} (hb : 0 < b) : a ≤ divCeil a b * b := by
  have hdiv := Nat.div_add_mod' a b
  unfold divCeil
  split
  case isTrue h => omega
  case isFalse h =>
    have := Nat.mod_lt a hb
    rw [Nat.succ_mul]
    omega

theorem releaseBlock_eq (h : releaseBlock perPage block lo hi = some (start, len)) :
    ∃ head tail, perPage ∣ head ∧ perPage ∣ tail ∧
      start = head * slotSize ∧ len = (tail - head) * slotSize ∧
      (0 < perPage → ∀ offset, head ≤ offset → offset < tail →
        offset < slotsOf block ∧ lo ≤ firstOf block + offset ∧ firstOf block + offset < hi) := by
  simp only [releaseBlock, Option.ite_none_left_eq_some, Option.some.injEq, Prod.mk.injEq] at h
  obtain ⟨hne, -, rfl, rfl⟩ := h
  refine ⟨_, _, Nat.dvd_mul_left .., Nat.dvd_mul_left .., rfl, rfl, ?_⟩
  intro hpos offset hhead htail
  have hlo := (le_divCeil_mul hpos).trans hhead
  have hhi := htail.trans_le (Nat.div_mul_le_self _ perPage)
  change max lo (firstOf block) - firstOf block ≤ offset at hlo
  change offset < min hi (firstOf block + slotsOf block) - firstOf block at hhi
  omega

/-- Every range of `release_pages` is made of pages, and of slots whose ids are in the range it was
called on. -/
theorem releasePages_spec (hp : slotSize ∣ page)
    (h : (block, start, len) ∈ releasePages page mapped lo hi) :
    page ∣ start ∧ page ∣ len ∧ block < tableBlocks ∧
      ∀ a, start ≤ a → a < start + len →
        a / slotSize < slotsOf block ∧ lo ≤ firstOf block + a / slotSize ∧
          firstOf block + a / slotSize < hi := by
  obtain ⟨n, rfl⟩ := hp
  have hpage : slotSize * n / slotSize = n := Nat.mul_div_cancel_left n (by decide)
  unfold releasePages at h
  rw [hpage] at h
  rcases Nat.eq_zero_or_pos n with rfl | hpos
  · cases h
  · rw [if_neg hpos.ne'] at h
    obtain ⟨b, hb, h⟩ := List.mem_filterMap.mp h
    obtain ⟨-, h⟩ := Option.ite_none_right_eq_some.mp h
    obtain ⟨r, hr, heq⟩ := Option.map_eq_some_iff.mp h
    obtain ⟨rfl, rfl⟩ := Prod.mk.inj heq
    obtain ⟨head, tail, hhead, htail, rfl, rfl, hin⟩ := releaseBlock_eq hr
    rw [mul_comm slotSize n]
    refine ⟨Nat.mul_dvd_mul_right hhead _, Nat.mul_dvd_mul_right (Nat.dvd_sub htail hhead) _,
      List.mem_range.mp hb, ?_⟩
    intro a hlo hhi
    rw [← Nat.add_mul] at hhi
    have h₁ := (Nat.le_div_iff_mul_le (by decide)).mpr hlo
    have h₂ := (Nat.div_lt_iff_lt_mul (by decide)).mpr hhi
    exact hin hpos _ h₁ (by omega)

end Round

/-! ### Who holds the ids -/

/-- What a trim that is handing pages back has taken, and the ids that it cuts off. -/
def Pc.cuts : Pc → Option (List ℕ × ℕ × ℕ)
  | release taken keep current | record taken keep current | lower taken keep current =>
    some (taken, keep, current)
  | _ => none

section Held

variable {T : Type*} [Fintype T] {m m' : Mem} {pc pc' : Pc} {loc : T → Pc} {t : T}
  {taken : List ℕ} {id keep current : ℕ}

omit [Fintype T] in
theorem mem_ids_of_cuts (hl : pc.Local m) (h : pc.cuts = some (taken, keep, current))
    (hlo : keep ≤ id) (hhi : id < current) : id ∈ taken ∧ id ∈ pc.ids := by
  cases pc <;> cases h <;> exact ⟨hl id hlo hhi, hl id hlo hhi⟩

/-- Only the end of an `alloc` hands out an id. -/
theorem Step.alive (h : Step m pc m' pc') (hid : id ∈ m'.alive) :
    id ∈ m.alive ∨ pc = .count id := by
  cases h
  case free x hx => exact .inl (Finset.mem_of_mem_erase hid)
  case count x =>
    rcases Finset.mem_insert.mp hid with rfl | hid
    · exact .inr rfl
    · exact .inl hid
  all_goals exact .inl hid

theorem Ids.not_alive (hi : Ids m loc) (hid : id ∈ (loc t).ids) : id ∉ m.alive := by
  intro hmem
  have h1 := List.count_pos_iff.mpr hid
  have h3 := places_le m loc t id
  have h4 := hi.one id
  unfold spots at h3
  rw [decide_eq_true hmem, Bool.toNat_true] at h3
  omega

/-- What a thread holds no step hands out, unless it is about to hand it out itself. -/
theorem Ids.not_handed_out (hi : Ids m loc) (hid : id ∈ (loc t).ids) (hpc : loc t ≠ .count id)
    {u : T} {a : Act} (hn : next m (loc u) a = some (m', pc')) : id ∉ m'.alive := by
  intro hmem
  rcases (next_step hn).alive hmem with hout | hcount
  · exact hi.not_alive hid hout
  · rcases eq_or_ne u t with rfl | hne
    · exact hpc hcount
    · refine hi.disjoint hne ?_ hid
      rw [hcount]
      exact List.mem_cons_self

end Held

/-- **A page with a task in it is not handed back.** While a trim is handing back what it cuts off,
every range it hands back is made of whole pages, for every page size that is a multiple of the
slot's and every base that is aligned to it. Every byte of the range is some id's, and the ids with
a byte in it are among those the trim cuts off and took off the free list: they are not out, not on
the list and in no other thread's hands, and no step of any thread hands one of them out. -/
theorem released_pages {T : Type*} [Fintype T] [DecidableEq T] {s : Config T Mem Pc}
    (hs : machine.Reach Fresh NoStall s) {t : T} {taken : List ℕ} {keep current : ℕ}
    (ht : (s.loc t).cuts = some (taken, keep, current)) {page base block start len : ℕ}
    (hp : slotSize ∣ page) (hbase : page ∣ base)
    (hr : (block, start, len) ∈ releasePages page s.mem.mapped keep current) :
    page ∣ base + start ∧ page ∣ len ∧
    (∀ a, start ≤ a → a < start + len → ∃ id < maxTaskId, (block, a) ∈ bytesOf id) ∧
    ∀ id < maxTaskId, ∀ a, start ≤ a → a < start + len → (block, a) ∈ bytesOf id →
      keep ≤ id ∧ id < current ∧ id ∈ taken ∧ id ∉ s.mem.alive ∧ id ∉ s.mem.chain ∧
      (∀ u, u ≠ t → id ∉ (s.loc u).ids) ∧
      ∀ u a m' pc', next s.mem (s.loc u) a = some (m', pc') → id ∉ m'.alive := by
  have hi := ids_of_reach hs
  obtain ⟨hstart, hlen, hb, hin⟩ := releasePages_spec hp hr
  -- the slot that a byte of the range is in
  have hbyte : ∀ a, start ≤ a → a < start + len → ∃ id < maxTaskId,
      (block, a) ∈ bytesOf id ∧ keep ≤ id ∧ id < current := by
    intro a hlo hhi
    obtain ⟨ho, hk, hc⟩ := hin a hlo hhi
    refine ⟨_, firstOf_add_lt (p := (block, a / slotSize)) ⟨hb, ho⟩, ?_, hk, hc⟩
    unfold bytesOf
    rw [position_firstOf hb ho]
    exact ⟨rfl, Nat.div_mul_le_self _ _, Nat.lt_mul_of_div_lt (Nat.lt_succ_self _) (by decide)⟩
  refine ⟨dvd_add hbase hstart, hlen, ?_, ?_⟩
  · intro a hlo hhi
    obtain ⟨id, hid, hmem, -⟩ := hbyte a hlo hhi
    exact ⟨id, hid, hmem⟩
  · intro id hid a hlo hhi hmem
    obtain ⟨id', hid', hmem', hk, hc⟩ := hbyte a hlo hhi
    cases eq_of_mem_bytesOf hid hid' hmem hmem'
    obtain ⟨htaken, hheld⟩ := mem_ids_of_cuts (hi.locals t) ht hk hc
    have hpc : s.loc t ≠ .count id := by
      intro heq
      rw [heq] at ht
      cases ht
    exact ⟨hk, hc, htaken, hi.not_alive hheld, fun hchain => hi.not_mem_ids hchain hheld,
      fun u hne hu => hi.disjoint hne hu hheld, fun _ _ _ _ => hi.not_handed_out hheld hpc⟩

/-! ### A table that lost its first ids -/

/-- A new table of three threads, after the kernel has refused the blocks of its first ids. -/
def lostTable (n : ℕ) : Config (Fin 3) Mem Pc where
  mem := { newTable.mem with nextId := n }
  loc _ := .idle

theorem noStall_of_loaded {T : Type*} [DecidableEq T] {m : Mem} {f : T → Pc} {t : T} {pc : Pc}
    {a : Act} (h : pc.loaded = none) : NoStall ⟨m, update f t pc⟩ t a := by
  intro v hv
  rw [show (Config.mk m (update f t pc)).loc t = pc from update_self .., h] at hv
  cases hv

theorem reach_lost {n : ℕ} (hn : n ≤ maxTaskId) : machine.Reach Fresh NoStall (lostTable n) := by
  induction n with
  | zero => exact .init ⟨rfl, rfl, rfl, rfl, rfl, fun _ => rfl, fun _ => rfl⟩
  | succ n ih =>
    have hs := ih (Nat.le_of_succ_le hn)
    have hidle (n : ℕ) : lostTable n =
        ⟨(lostTable n).mem, update (fun _ : Fin 3 => Pc.idle) 2 .idle⟩ := by
      rw [update_eq_self]
      rfl
    rw [hidle] at hs ⊢
    have h₁ := hs.move (c := .alloc) (noStall_of_loaded rfl) rfl
    have h₂ := h₁.move (c := .go) (noStall_of_loaded rfl) rfl
    have h₃ := h₂.move (c := .go) (noStall_of_loaded rfl) rfl
    -- no block is mapped, and the kernel refuses this one
    have hgrow : machine.next (lostTable (n + 1)).mem (.growBlock n) .go =
        some ((lostTable (n + 1)).mem, .growMap n) := by
      show some (_, if maxTaskId ≤ n then Pc.idle else _) = _
      rw [if_neg (Nat.not_le.mpr hn)]
      rfl
    have h₄ := h₃.move (noStall_of_loaded rfl) hgrow
    exact h₄.move (c := .refuse) (noStall_of_loaded rfl) rfl

/-- A call by a thread, and the steps it takes. -/
def calls (t : Fin 3) (a : Act) (n : ℕ) : List (Fin 3 × Act) := (t, a) :: List.replicate n (t, .go)

/-- Two ids are out and the second is given back; a trim takes it off the list and hands its page
back. -/
theorem released_pages_one : ∃ s : Config (Fin 3) Mem Pc, machine.Reach Fresh NoStall s ∧
    (4, 258 * slotSize, slotSize) ∈ releasePages slotSize s.mem.mapped 4098 4099 ∧
    slotSize ∣ slotSize * 7 + 258 * slotSize ∧ 4098 ∉ s.mem.alive := by
  obtain ⟨s, hs, hloc, hr⟩ : ∃ s : Config (Fin 3) _ _, machine.Reach Fresh NoStall s ∧
      s.loc 1 = .release [4098] 4098 4099 ∧
      (4, 258 * slotSize, slotSize) ∈ releasePages slotSize s.mem.mapped 4098 4099 :=
    (reach_lost (n := 4097) (by decide)).exists_of_run (calls 0 .alloc 5 ++ calls 0 .alloc 4 ++
      calls 0 (.free 4098) 5 ++ calls 1 .trim 8) (by decide +kernel)
  have ht : (s.loc 1).cuts = some ([4098], 4098, 4099) := by rw [hloc]; rfl
  obtain ⟨hpage, -, -, hids⟩ :=
    released_pages hs ht (dvd_refl slotSize) (Nat.dvd_mul_right slotSize 7) hr
  have hbyte : (4, 258 * slotSize) ∈ bytesOf 4098 := by
    refine ⟨?_, ?_, ?_⟩ <;> decide +kernel
  obtain ⟨-, -, -, hout, -⟩ := hids 4098 (by decide) _ le_rfl (by decide) hbyte
  exact ⟨s, hs, hr, hpage, hout⟩

/-! ### An `alloc` that stalls -/

section Stall

variable {m : Mem} {id n : ℕ} {T : Type*} [DecidableEq T] {f : T → Pc} {t : T}

/-- What a thread alone makes of an `alloc` that finds an id on the list. -/
theorem solo_pop (hh : m.head = id + 1) (hs : m.slot id = true) :
    machine.solo [.alloc, .go, .go, .go, .go, .go] m .idle =
      some ({ m with
        pops := m.pops + 1
        head := m.next id
        chain := m.chain.tail
        live := m.live + 1
        alive := insert id m.alive }, .idle) := by
  simp [Machine.solo, machine, next, callStep, allocStep, hh, hs]

/-- What a thread alone makes of a `free`. -/
theorem solo_free (hid : id ∈ m.alive) (hs : m.slot id = true) :
    machine.solo [.free id, .go, .go, .go, .go, .go] m .idle =
      some ({ m.setNext id m.head with
        head := id + 1
        chain := id :: m.chain
        live := m.live - 1
        alive := m.alive.erase id }, .idle) := by
  have hs' : Mem.slot { m with alive := m.alive.erase id } id = true := hs
  simp [Machine.solo, machine, next, callStep, pushStep, hid, hs', Mem.setNext, After.pc]

/-- One id is on the list, and another has no link either. -/
structure Spun (m : Mem) (n : ℕ) : Prop where
  pops : m.pops = n
  head : m.head = 4098
  link : m.next 4097 = 0
  other : m.next 4098 = 0
  slot : m.slot 4097 = true ∧ m.slot 4098 = true

/-- Taking the one id on the list and giving it back leaves all but the tag as it was. -/
theorem reach_spun (hs : machine.Reach Fresh Machine.unguarded ⟨m, update f t .idle⟩)
    (h : Spun m 2) :
    ∃ m', machine.Reach Fresh Machine.unguarded ⟨m', update f t .idle⟩ ∧
      Spun m' (n + 2) := by
  induction n with
  | zero => exact ⟨m, hs, h⟩
  | succ n ih =>
    obtain ⟨m₁, hs₁, h₁⟩ := ih
    have hpop := hs₁.solo (solo_pop h₁.head h₁.slot.1)
    refine ⟨_, hpop.solo (solo_free (Finset.mem_insert_self ..) h₁.slot.1), ?_⟩
    refine ⟨congrArg (· + 1) h₁.pops, rfl, ?_, ?_, h₁.slot⟩
    · show update m₁.next 4097 (asLink (m₁.next 4097)) 4097 = 0
      rw [update_self, h₁.link]
      rfl
    · show update m₁.next 4097 (asLink (m₁.next 4097)) 4098 = 0
      rw [update_of_ne (by decide), h₁.other]

end Stall

/-- The first thread is about to exchange the head, the second about to hand the page of the last id
back. -/
def stalled : Fin 3 → Pc := ![.popSwap 0 4097 4099, .release [4098] 4098 4099, .idle]

/-- The third thread gives back two ids, and takes the first of them again; meanwhile the first
thread has loaded the head and the link of that one. A trim takes the other, and the third thread
gives the first back. -/
theorem reach_stalled : ∃ m : Mem,
    machine.Reach Fresh Machine.unguarded ⟨m, update stalled 2 .idle⟩ ∧ Spun m 2 := by
  obtain ⟨s, hs, hloc, hpops, hhead, hlink, hother, hslot⟩ : ∃ s : Config (Fin 3) _ _,
      machine.Reach Fresh Machine.unguarded s ∧ (∀ t, s.loc t = stalled t) ∧ s.mem.pops = 2 ∧
      s.mem.head = 4098 ∧ s.mem.next 4097 = 0 ∧ s.mem.next 4098 = 0 ∧ s.mem.slot 4097 = true ∧
      s.mem.slot 4098 = true :=
    ((reach_lost (n := 4097) (by decide)).mono fun _ _ _ _ => trivial).exists_of_run
      (calls 2 .alloc 5 ++ calls 2 .alloc 4 ++ calls 2 (.free 4098) 5 ++ calls 2 (.free 4097) 5 ++
      calls 0 .alloc 3 ++ calls 2 .alloc 5 ++ calls 1 .trim 8 ++ calls 2 (.free 4097) 5)
      (by decide +kernel)
  have heq : s = ⟨s.mem, update stalled 2 .idle⟩ := by
    have hup : update stalled 2 .idle = stalled := update_eq_self 2 stalled
    rw [hup]
    exact Config.ext rfl (funext hloc)
  exact ⟨s.mem, heq ▸ hs, hpops, hhead, hlink, hother, hslot⟩

/-- An `alloc` that loaded the head before a trim took the list exchanges it after `2 ^ 16` pops,
and so the head is an id that the trim holds. The next `alloc` returns it, while the trim is handing
its page back. -/
theorem live_page_released : ∃ s : Config (Fin 3) Mem Pc,
    machine.Reach Fresh Machine.unguarded s ∧ s.loc 1 = .release [4098] 4098 4099 ∧
    4098 ∈ s.mem.alive ∧ (4, 258 * slotSize) ∈ bytesOf 4098 ∧
    (4, 258 * slotSize, slotSize) ∈ releasePages slotSize s.mem.mapped 4098 4099 := by
  obtain ⟨m, hs, h⟩ := reach_stalled
  obtain ⟨m₁, hs₁, h₁⟩ := reach_spun (n := 65534) hs h
  have hmapped : m₁.mapped 4 = true := (Bool.and_eq_true_iff.mp h₁.slot.2).2
  -- the first thread's exchange finds the tag it loaded
  have hloc : update stalled 2 .idle =
      update stalled 0 (.popSwap 0 4097 4099) :=
    (update_eq_self 2 stalled).trans (update_eq_self 0 stalled).symm
  rw [hloc] at hs₁
  have hswap : machine.next m₁ (.popSwap 0 4097 4099) .go = some ({ m₁ with
      pops := m₁.pops + 1, head := 4099, chain := m₁.chain.tail }, .count 4097) := by
    refine if_pos ⟨?_, h₁.head⟩
    rw [h₁.pops]
    rfl
  have hs₂ := hs₁.move trivial hswap
  rw [← update_eq_self 2 (update stalled 0 (.count 4097))] at hs₂
  -- the third thread finds the trim's id at the head
  refine ⟨_, hs₂.solo (solo_pop rfl h₁.slot.2), rfl, Finset.mem_insert_self .., ?_, ?_⟩
  · refine ⟨?_, ?_, ?_⟩ <;> decide +kernel
  · refine List.mem_filterMap.mpr ⟨4, by decide, ?_⟩
    show (if m₁.mapped 4 = true then _ else _) = _
    rw [if_pos hmapped]
    decide +kernel

end Atap.Table
