import Atap.Table.Machine
import Mathlib.Data.Nat.Bitwise
import Mathlib.Data.Set.Function
import Mathlib.Data.Set.Pairwise.Basic
import Mathlib.Order.CompletePartialOrder

/-!
# Where an id's slot lies

`position` splits an id into a block and a place in it. Block `b` holds `FIRST_BLOCK << b` slots,
so the blocks before it hold `(FIRST_BLOCK << b) - FIRST_BLOCK` ids, and the block of an id is read
off the highest set bit of `id + FIRST_BLOCK`.

`position_invOn` says that this undoes adding a place to the first id of its block, and the layout
of the whole table follows from it: the ids below `MAX_TASK_ID` and the slots of the blocks are in
bijection, and no byte of a block belongs to two of them.
-/

namespace Atap.Table

/-- `usize::BITS`. -/
def usizeBits : ℕ := 64

/-- `FIRST_BLOCK_LOG2`. -/
def firstBlockLog2 : ℕ := 8

/-- `SLOT_SIZE`. -/
def slotSize : ℕ := 256

/-- `INDEX_MASK`. -/
def indexMask : ℕ := 1 <<< 48 - 1

/-- `leading_zeros` of a word of the given width. -/
def leadingZeros (x : ℕ) : ℕ → ℕ
  | 0 => 0
  | w + 1 => if x.testBit w then 0 else leadingZeros x w + 1

/-- `position`: the block that holds an id, and its place there. -/
def position (id : ℕ) : ℕ × ℕ :=
  let shifted := id + firstBlock
  let highest := usizeBits - 1 - leadingZeros shifted usizeBits
  let block := highest - firstBlockLog2
  (block, shifted - firstBlock <<< block)

/-- The slots of a block. -/
def slotsOf (block : ℕ) : ℕ := firstBlock <<< block

/-- The first id of a block, as `release_pages` computes it. -/
def firstOf (block : ℕ) : ℕ := slotsOf block - firstBlock

/-- The slots of the table: a block, and a place in it. -/
def cells : Set (ℕ × ℕ) := {p | p.1 < tableBlocks ∧ p.2 < slotsOf p.1}

/-- The bytes of the blocks that `slot` hands out for an id: the block, and the byte in it. -/
def bytesOf (id : ℕ) : Set (ℕ × ℕ) :=
  {a | a.1 = (position id).1 ∧ (position id).2 * slotSize ≤ a.2 ∧
    a.2 < ((position id).2 + 1) * slotSize}

theorem leadingZeros_add {x k w : ℕ} (hk : 2 ^ k ≤ x) (hx : x < 2 ^ (k + 1)) (hw : k < w) :
    leadingZeros x w + (k + 1) = w := by
  induction w with
  | zero => exact absurd hw (Nat.not_lt_zero k)
  | succ w ih =>
    unfold leadingZeros
    rcases Nat.lt_succ_iff_lt_or_eq.mp hw with hlt | rfl
    · -- The bits above the highest one are clear.
      have hclear : x.testBit w = false :=
        Nat.testBit_lt_two_pow (hx.trans_le (Nat.pow_le_pow_right Nat.zero_lt_two hlt))
      have := ih hlt
      simp only [hclear, Bool.false_eq_true, if_false]
      omega
    · have hset : x.testBit k = true := Nat.testBit_of_two_pow_le_and_two_pow_add_one_gt hk hx
      simp [hset]

theorem slotsOf_eq (block : ℕ) : slotsOf block = 2 ^ (block + firstBlockLog2) := by
  rw [slotsOf, Nat.shiftLeft_eq, pow_add, mul_comm]
  rfl

theorem firstBlock_le (block : ℕ) : firstBlock ≤ slotsOf block := by
  rw [slotsOf, Nat.shiftLeft_eq]
  exact Nat.le_mul_of_pos_right _ (Nat.two_pow_pos block)

theorem slotsOf_succ (block : ℕ) : slotsOf (block + 1) = 2 * slotsOf block := by
  rw [slotsOf_eq, slotsOf_eq, Nat.add_right_comm, pow_succ, mul_comm]

/-- A block's ids end where the next block's begin. -/
theorem firstOf_succ (block : ℕ) : firstOf (block + 1) = firstOf block + slotsOf block := by
  have := firstBlock_le block
  rw [firstOf, firstOf, slotsOf_succ]
  omega

theorem firstOf_mono {b c : ℕ} (h : b ≤ c) : firstOf b ≤ firstOf c := by
  induction h with
  | refl => exact le_rfl
  | step _ ih =>
    rw [firstOf_succ]
    exact ih.trans (Nat.le_add_right _ _)

theorem firstOf_tableBlocks : firstOf tableBlocks = maxTaskId := by
  rw [firstOf, slotsOf, Nat.shiftLeft_eq]
  rfl

/-- `position` finds the place that was added to the first id of a block. -/
theorem position_firstOf {block offset : ℕ} (hb : block < tableBlocks)
    (ho : offset < slotsOf block) : position (firstOf block + offset) = (block, offset) := by
  have hs : firstOf block + offset + firstBlock = slotsOf block + offset := by
    have := firstBlock_le block
    unfold firstOf
    omega
  have hz : leadingZeros (slotsOf block + offset) usizeBits + (block + firstBlockLog2 + 1) =
      usizeBits := by
    apply leadingZeros_add
    · exact slotsOf_eq block ▸ Nat.le_add_right _ _
    · rw [pow_succ, ← slotsOf_eq]
      omega
    · exact (Nat.add_lt_add_right hb _).trans (by decide)
  have hh : usizeBits - 1 - leadingZeros (slotsOf block + offset) usizeBits - firstBlockLog2 =
      block := by omega
  show (usizeBits - 1 - leadingZeros (firstOf block + offset + firstBlock) usizeBits -
      firstBlockLog2, _) = _
  rw [hs, hh, Prod.mk.injEq]
  exact ⟨rfl, Nat.add_sub_cancel_left _ _⟩

/-- Every id below the end of a block is in it or in one before it. -/
theorem exists_firstOf {id : ℕ} : ∀ {blocks : ℕ}, id < firstOf blocks →
    ∃ block offset, block < blocks ∧ offset < slotsOf block ∧ id = firstOf block + offset := by
  intro blocks
  induction blocks with
  | zero => intro h; exact absurd h (Nat.not_lt_zero id)
  | succ blocks ih =>
    intro h
    rcases Nat.lt_or_ge id (firstOf blocks) with hlt | hge
    · obtain ⟨b, o, hb, ho, rfl⟩ := ih hlt
      exact ⟨b, o, Nat.lt_succ_of_lt hb, ho, rfl⟩
    · rw [firstOf_succ] at h
      exact ⟨blocks, id - firstOf blocks, Nat.lt_succ_self _, by omega, by omega⟩

/-- An id that `position` takes apart, and its place. -/
theorem position_spec {id : ℕ} (h : id < maxTaskId) :
    position id ∈ cells ∧ firstOf (position id).1 + (position id).2 = id := by
  obtain ⟨block, offset, hb, ho, rfl⟩ := exists_firstOf (firstOf_tableBlocks ▸ h)
  rw [position_firstOf hb ho]
  exact ⟨⟨hb, ho⟩, rfl⟩

theorem firstOf_add_lt {p : ℕ × ℕ} (hp : p ∈ cells) : firstOf p.1 + p.2 < maxTaskId := by
  have hnext : firstOf p.1 + p.2 < firstOf (p.1 + 1) := by
    rw [firstOf_succ]
    exact Nat.add_lt_add_left hp.2 _
  exact hnext.trans_le (firstOf_tableBlocks ▸ firstOf_mono hp.1)

/-- The block of an id is the one the table's steps look up. -/
theorem position_fst {id : ℕ} (h : id < maxTaskId) : (position id).1 = blockOf id := by
  obtain ⟨block, offset, hb, ho, rfl⟩ := exists_firstOf (firstOf_tableBlocks ▸ h)
  have := firstBlock_le block
  have hs : firstOf block + offset + firstBlock = slotsOf block + offset := by
    unfold firstOf
    omega
  have hlog : Nat.log2 (slotsOf block + offset) = block + firstBlockLog2 := by
    rw [Nat.log2_eq_iff (by unfold firstBlock at this; omega), pow_succ, ← slotsOf_eq]
    omega
  rw [position_firstOf hb ho, blockOf, hs, hlog]
  exact (Nat.add_sub_cancel _ _).symm

theorem position_invOn :
    Set.InvOn (fun p => firstOf p.1 + p.2) position (Set.Iio maxTaskId) cells :=
  ⟨fun _ h => (position_spec h).2, fun _ hp => position_firstOf hp.1 hp.2⟩

/-- Ids that share a byte of a block are one. -/
theorem eq_of_mem_bytesOf {id id' : ℕ} (h : id < maxTaskId) (h' : id' < maxTaskId) {a : ℕ × ℕ}
    (ha : a ∈ bytesOf id) (ha' : a ∈ bytesOf id') : id = id' := by
  obtain ⟨hb, hlo, hhi⟩ := ha
  obtain ⟨hb', hlo', hhi'⟩ := ha'
  have hoff : (position id).2 = (position id').2 := by
    unfold slotSize at *
    omega
  rw [← (position_spec h).2, ← (position_spec h').2, ← hb, ← hb', hoff]

theorem bytesOf_subset {id : ℕ} (h : id < maxTaskId) {a : ℕ × ℕ} (ha : a ∈ bytesOf id) :
    a.2 < slotsOf a.1 * slotSize := by
  obtain ⟨hb, -, hhi⟩ := ha
  rw [hb]
  exact hhi.trans_le (Nat.mul_le_mul_right _ (position_spec h).1.2)

/-- **The ids and the slots are in bijection.** `position` maps the ids below `MAX_TASK_ID` onto
the slots of the table, undoing the sum of a block's first id and a place in it. The bytes of
distinct ids are distinct, and lie in the block that is mapped for them; and an id's index, one
above it, fits a 32-bit link and the index part of a tagged head. -/
theorem position_bijOn :
    Set.BijOn position (Set.Iio maxTaskId) cells ∧
    Set.InvOn (fun p => firstOf p.1 + p.2) position (Set.Iio maxTaskId) cells ∧
    (Set.Iio maxTaskId).PairwiseDisjoint bytesOf ∧
    (∀ id < maxTaskId, ∀ a ∈ bytesOf id, a.2 < slotsOf a.1 * slotSize) ∧
    ∀ id < maxTaskId, asLink (id + 1) = id + 1 ∧ (id + 1) &&& indexMask = id + 1 := by
  refine ⟨?_, position_invOn, ?_, fun id h a ha => bytesOf_subset h ha, ?_⟩
  · exact position_invOn.bijOn (fun _ h => (position_spec h).1) fun _ => firstOf_add_lt
  · intro id h id' h' hne
    exact Set.disjoint_left.mpr fun a ha ha' => hne (eq_of_mem_bytesOf h h' ha ha')
  · intro id h
    have hlt : id + 1 < 2 ^ 32 := lt_of_le_of_lt h (by decide)
    constructor
    · exact Nat.mod_eq_of_lt hlt
    · have hmask : indexMask = 2 ^ 48 - 1 := by decide
      rw [hmask, Nat.and_two_pow_sub_one_eq_mod]
      exact Nat.mod_eq_of_lt (hlt.trans (by decide))

end Atap.Table
