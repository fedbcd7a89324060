import Atap.Interleave.Machine
import Atap.Interleave.Word

/-!
# The ring of a worker

Every worker has a ring of 256 cells for the ids of tasks waiting for it, each as its id plus one.
Its owner pushes at `tail`, which no one else moves; the owner and thieves take from `head`, each
by an exchange of that word. A thief copies up to half of what is there before it knows whether the
exchange will land.

This module is the ring on its own: the steps of `push`, `pop` and `steal_into`, one atomic
operation at a step, for any number of threads of which one at most pushes. What an entry is worth
(its task may have been run by somebody who waited on it) is left to the machines that run these
steps.

* `step`: the steps, and `Step`, one constructor for each way a step can go.
* `Pc.Fits`: what the counts a thread loaded have to do with those in the ring now. An exchange of
  `head` that finds it unmoved takes no more than is there.
* `Step.bounded`: `head` never passes `tail`, nor `tail` it by more than there are cells, in every
  step in which no thread stalls across a full turn of `head`.

The words are `head % 2 ^ 32` and `tail % 2 ^ 32` of unbounded counts of their moves. The cell of a
word is that of its count, as the number of cells divides `2 ^ 32`.
-/

namespace Atap.Ring

/-- `LOCAL_QUEUE`. -/
def localQueue : ℕ := 256

/-- The width of `head` and `tail`. -/
def wordBits : ℕ := 32

/-- The ring. -/
structure Mem where
  /-- How often `head` was moved. -/
  head : ℕ
  /-- How often `tail` was moved. -/
  tail : ℕ
  cells : ℕ → ℕ

/-- The cell a count picks, by `LOCAL_QUEUE_MASK`. -/
def Mem.cell (m : Mem) (i : ℕ) : ℕ := m.cells (i % localQueue)

/-- Where a thread stands in the code, with the counts it loaded. -/
inductive Pc
  | idle
  /-- `push`, before the load of `tail`. -/
  | pushTail (raw : ℕ)
  /-- `push`, before the load of `head`. -/
  | pushHead (raw tail : ℕ)
  /-- `push`, before the cell is written. -/
  | pushCell (raw tail : ℕ)
  /-- `push`, before `tail` is moved. -/
  | pushMove (raw tail : ℕ)
  /-- `push` has returned true. -/
  | pushed
  /-- `push` has returned false. -/
  | full (raw : ℕ)
  /-- `pop`, before the load of `head`. -/
  | popHead
  /-- `pop`, before the load of `tail`. -/
  | popTail (head : ℕ)
  /-- `pop`, before the load of the cell. -/
  | popCell (head : ℕ)
  /-- `pop`, before the exchange of `head`. -/
  | popSwap (head raw : ℕ)
  /-- `pop`, with an entry to claim. -/
  | popped (raw : ℕ)
  /-- `pop` came back with nothing. -/
  | empty
  /-- `steal_into`, before the load of `head`. -/
  | stealHead
  /-- `steal_into`, before the load of `tail`. -/
  | stealTail (head : ℕ)
  /-- `steal_into`, before the load of the next of `take` cells. -/
  | stealCell (head take : ℕ) (raws : List ℕ)
  /-- `steal_into`, before the exchange of `head`. -/
  | stealSwap (head take : ℕ) (raws : List ℕ)
  /-- `steal_into`, with entries to put away. -/
  | stole (raws : List ℕ)
  /-- `steal_into` took nothing. -/
  | missed
  deriving DecidableEq

inductive Act
  | go
  /-- A weak exchange fails for no reason. -/
  | fail
  deriving DecidableEq

/-- How much a thief takes of what is there. -/
def share (available : ℕ) : ℕ := min (max (available / 2) 1) (localQueue / 2)

/-- Where a thief goes on, having read `raws`. -/
def copy (head take : ℕ) (raws : List ℕ) : Pc :=
  if raws.length < take then .stealCell head take raws else .stealSwap head take raws

/-- An exchange of `head` finds the word that was loaded. -/
def Mem.sameHead (m : Mem) (head : ℕ) : Prop := m.head % 2 ^ wordBits = head % 2 ^ wordBits

instance (m : Mem) (head : ℕ) : Decidable (m.sameHead head) := inferInstanceAs (Decidable (_ = _))

/-- The steps of `push`. -/
def pushStep (m : Mem) : Pc → Act → Option (Mem × Pc)
  | .pushTail raw, .go => some (m, .pushHead raw m.tail)
  | .pushHead raw tail, .go =>
    some (m, if localQueue ≤ wrappingSub wordBits tail m.head then .full raw
      else .pushCell raw tail)
  | .pushCell raw tail, .go =>
    some ({ m with cells := Function.update m.cells (tail % localQueue) raw }, .pushMove raw tail)
  | .pushMove _ tail, .go => some ({ m with tail := tail + 1 }, .pushed)
  | _, _ => none

/-- The steps of `pop`. -/
def popStep (m : Mem) : Pc → Act → Option (Mem × Pc)
  | .popHead, .go => some (m, .popTail m.head)
  | .popTail head, .go =>
    some (m, if head % 2 ^ wordBits = m.tail % 2 ^ wordBits then .empty else .popCell head)
  | .popCell head, .go =>
    some (m, if m.cell head = 0 then .popHead else .popSwap head (m.cell head))
  | .popSwap head raw, .go =>
    if m.sameHead head then some ({ m with head := m.head + 1 }, .popped raw)
    else some (m, .popHead)
  | .popSwap _ _, .fail => some (m, .popHead)
  | _, _ => none

/-- The steps of `steal_into` on the ring that is stolen from. -/
def stealStep (m : Mem) : Pc → Act → Option (Mem × Pc)
  | .stealHead, .go => some (m, .stealTail m.head)
  | .stealTail head, .go =>
    some (m, if wrappingSub wordBits m.tail head = 0 then .missed
      else copy head (share (wrappingSub wordBits m.tail head)) [])
  | .stealCell head take raws, .go =>
    some (m, copy head take (raws ++ [m.cell (head + raws.length)]))
  | .stealSwap head take raws, .go =>
    if m.sameHead head then some ({ m with head := m.head + take }, .stole raws)
    else some (m, .missed)
  | _, _ => none

/-- One step of one thread in the ring. -/
def step (m : Mem) (pc : Pc) (a : Act) : Option (Mem × Pc) :=
  (pushStep m pc a).or ((popStep m pc a).or (stealStep m pc a))

/-- The count a thread's exchange of `head` is for. -/
def Pc.loaded : Pc → Option ℕ
  | popSwap head _ | stealSwap head _ _ => some head
  | _ => none

/-! ### What a step can do -/

/-- The steps, one constructor for each way a step can go. -/
inductive Step (m : Mem) : Pc → Mem → Pc → Prop
  | pushTail (raw : ℕ) : Step m (.pushTail raw) m (.pushHead raw m.tail)
  | pushFull (raw tail : ℕ) : Step m (.pushHead raw tail) m (.full raw)
  | pushHead (raw tail : ℕ) (h : wrappingSub wordBits tail m.head < localQueue) :
      Step m (.pushHead raw tail) m (.pushCell raw tail)
  | pushCell (raw tail : ℕ) :
      Step m (.pushCell raw tail)
        { m with cells := Function.update m.cells (tail % localQueue) raw } (.pushMove raw tail)
  | pushMove (raw tail : ℕ) : Step m (.pushMove raw tail) { m with tail := tail + 1 } .pushed
  | popHead : Step m .popHead m (.popTail m.head)
  | popEmpty (head : ℕ) (h : head % 2 ^ wordBits = m.tail % 2 ^ wordBits) :
      Step m (.popTail head) m .empty
  | popTail (head : ℕ) (h : head % 2 ^ wordBits ≠ m.tail % 2 ^ wordBits) :
      Step m (.popTail head) m (.popCell head)
  | popZero (head : ℕ) : Step m (.popCell head) m .popHead
  | popCell (head : ℕ) (h : m.cell head ≠ 0) :
      Step m (.popCell head) m (.popSwap head (m.cell head))
  | popWon (head raw : ℕ) (h : m.sameHead head) :
      Step m (.popSwap head raw) { m with head := m.head + 1 } (.popped raw)
  | popLost (head raw : ℕ) : Step m (.popSwap head raw) m .popHead
  | stealHead : Step m .stealHead m (.stealTail m.head)
  | stealNone (head : ℕ) : Step m (.stealTail head) m .missed
  | stealTail (head : ℕ) (h : wrappingSub wordBits m.tail head ≠ 0) :
      Step m (.stealTail head) m (copy head (share (wrappingSub wordBits m.tail head)) [])
  | stealCell (head take : ℕ) (raws : List ℕ) :
      Step m (.stealCell head take raws) m (copy head take (raws ++ [m.cell (head + raws.length)]))
  | stealWon (head take : ℕ) (raws : List ℕ) (h : m.sameHead head) :
      Step m (.stealSwap head take raws) { m with head := m.head + take } (.stole raws)
  | stealLost (head take : ℕ) (raws : List ℕ) : Step m (.stealSwap head take raws) m .missed

section Inversion

variable {m m' : Mem} {pc pc' : Pc} {a : Act}

theorem pushStep_step (h : pushStep m pc a = some (m', pc')) : Step m pc m' pc' := by
  unfold pushStep at h
  split at h
  case h_5 => cases h
  case h_2 raw tail =>
    exact yield_snd h (fun _ => .pushFull raw tail) fun hroom => .pushHead raw tail
      (Nat.lt_of_not_le hroom)
  case h_1 | h_3 | h_4 =>
    cases h
    constructor

theorem popStep_step (h : popStep m pc a = some (m', pc')) : Step m pc m' pc' := by
  unfold popStep at h
  split at h
  case h_4 head raw => exact yield_ite h (.popWon head raw) fun _ => .popLost head raw
  case h_6 => cases h
  case h_2 head =>
    cases h
    split
    case isTrue heq => exact .popEmpty head heq
    case isFalse hne => exact .popTail head hne
  case h_3 head =>
    cases h
    split
    case isTrue => exact .popZero head
    case isFalse hne => exact .popCell head hne
  case h_1 | h_5 =>
    cases h
    constructor

theorem stealStep_step (h : stealStep m pc a = some (m', pc')) : Step m pc m' pc' := by
  unfold stealStep at h
  split at h
  case h_4 head take raws =>
    exact yield_ite h (.stealWon head take raws) fun _ => .stealLost head take raws
  case h_5 => cases h
  case h_2 head =>
    cases h
    split
    case isTrue => exact .stealNone head
    case isFalse hne => exact .stealTail head hne
  case h_1 | h_3 =>
    cases h
    constructor

/-- Every step is one of these. -/
theorem step_step (h : step m pc a = some (m', pc')) : Step m pc m' pc' := by
  rcases Option.or_eq_some_iff.mp h with hpush | ⟨-, h⟩
  · exact pushStep_step hpush
  rcases Option.or_eq_some_iff.mp h with hpop | ⟨-, hsteal⟩
  · exact popStep_step hpop
  · exact stealStep_step hsteal

end Inversion

/-! ### How far the counts are apart -/

/-- The thread is in `push`, with a `tail` it has loaded. -/
def Pc.pushes : Pc → Bool
  | pushTail _ | pushHead _ _ | pushCell _ _ | pushMove _ _ => true
  | _ => false

/-- `tail` is ahead of `head`, by no more than there are cells. -/
structure Mem.Bounded (m : Mem) : Prop where
  head_le : m.head ≤ m.tail
  tail_le : m.tail ≤ m.head + localQueue

/-- What the counts a thread loaded have to do with those in the ring. Only `push` relies on one
that cannot move; who takes from `head` relies on it only as far as it has not moved. -/
def Pc.Fits (m : Mem) : Pc → Prop
  | pushHead _ tail => tail = m.tail
  | pushCell _ tail | pushMove _ tail => tail = m.tail ∧ tail < m.head + localQueue
  | popTail head | stealTail head => head ≤ m.head
  | popCell head | popSwap head _ => head ≤ m.head ∧ (m.head = head → head < m.tail)
  | stealCell head take _ | stealSwap head take _ =>
    head ≤ m.head ∧ (m.head = head → head + take ≤ m.tail)
  | _ => True

variable {m m' : Mem} {pc pc' : Pc}

/-- What another thread does leaves it so: the counts only climb, and `tail` is not moved under a
thread that pushes. -/
theorem Pc.Fits.mono (h : pc.Fits m) (hh : m.head ≤ m'.head) (ht : m.tail ≤ m'.tail)
    (hp : pc.pushes = true → m'.tail = m.tail) : pc.Fits m' := by
  cases pc with
  | pushHead raw tail => exact Eq.trans h (hp rfl).symm
  | pushCell raw tail | pushMove raw tail => exact ⟨h.1.trans (hp rfl).symm, by have := h.2; omega⟩
  | popTail head | stealTail head => exact le_trans h hh
  | popCell head | popSwap head raw | stealCell head take raws | stealSwap head take raws =>
    obtain ⟨hle, hlt⟩ := h
    refine ⟨hle.trans hh, ?_⟩
    intro he
    have := hlt (by omega)
    omega
  | _ => trivial

/-- A thief takes no more than it saw. -/
theorem share_le {n : ℕ} (h : n ≠ 0) : share n ≤ n := by
  unfold share
  omega

theorem fits_copy {head take : ℕ} {raws : List ℕ} (hle : head ≤ m.head)
    (hlt : m.head = head → head + take ≤ m.tail) : (copy head take raws).Fits m := by
  unfold copy
  split <;> exact ⟨hle, hlt⟩

theorem pushes_copy (head take : ℕ) (raws : List ℕ) : (copy head take raws).pushes = false := by
  unfold copy
  split <;> rfl

/-- A `push` is begun by its caller alone. -/
theorem Step.pushes (h : Step m pc m' pc') (hp : pc'.pushes = true) : pc.pushes = true := by
  cases h with
  | stealTail head hne | stealCell head take raws => rw [pushes_copy] at hp; cases hp
  | _ => first | rfl | cases hp

/-- An exchange that lands before `head` has come round finds it unmoved. -/
theorem Mem.sameHead.eq {head : ℕ} (h : m.sameHead head) (hle : head ≤ m.head)
    (hlt : m.head < head + 2 ^ wordBits) : m.head = head :=
  (eq_of_mod_eq_of_lt hle hlt h.symm).symm

/-- What a step does to the counts. -/
structure Moved (m : Mem) (pc : Pc) (m' : Mem) (pc' : Pc) : Prop where
  bounded : m'.Bounded
  fits : pc'.Fits m'
  head_le : m.head ≤ m'.head
  tail_le : m.tail ≤ m'.tail
  tail_eq : pc.pushes = false → m'.tail = m.tail

/-- A step that writes neither count. -/
theorem Moved.still (hb : m.Bounded) (hf : pc'.Fits m) : Moved m pc m pc' :=
  ⟨hb, hf, le_rfl, le_rfl, fun _ => rfl⟩

/-- The counts stay as far apart as they may be, if the exchange of `head` is no full turn late. -/
theorem Step.bounded (h : Step m pc m' pc') (hb : m.Bounded) (hf : pc.Fits m)
    (hstall : ∀ head, pc.loaded = some head → m.head < head + 2 ^ wordBits) :
    Moved m pc m' pc' := by
  have hle := hb.head_le
  have hroom := hb.tail_le
  have hword : localQueue < 2 ^ wordBits := by decide
  cases h with
  | pushTail raw => exact .still hb rfl
  | pushFull raw tail | popEmpty head _ | popZero head | popLost head raw | stealNone head
  | stealLost head take raws => exact .still hb trivial
  | pushHead raw tail hlt =>
    obtain rfl : tail = m.tail := hf
    rw [wrappingSub_eq hle (by omega)] at hlt
    exact .still hb ⟨rfl, by omega⟩
  | pushCell raw tail => exact ⟨⟨hle, hroom⟩, hf, le_rfl, le_rfl, fun _ => rfl⟩
  | pushMove raw tail =>
    obtain ⟨rfl, hlt⟩ := hf
    exact ⟨⟨hle.trans (Nat.le_succ _), hlt⟩, trivial, le_rfl, Nat.le_succ _, nofun⟩
  | popHead | stealHead => exact .still hb le_rfl
  | popTail head hne =>
    refine .still hb ⟨hf, ?_⟩
    intro he
    -- the words differ, so the counts do
    have hneq : head ≠ m.tail := fun heq => hne (by rw [heq])
    omega
  | popCell head _ => exact .still hb hf
  | popWon head raw hsame =>
    obtain rfl := hsame.eq hf.1 (hstall head rfl)
    have hlt := hf.2 rfl
    exact ⟨⟨hlt, by show m.tail ≤ m.head + 1 + localQueue; omega⟩, trivial, Nat.le_succ _, le_rfl,
      fun _ => rfl⟩
  | stealTail head hne =>
    refine .still hb (fits_copy hf ?_)
    rintro rfl
    rw [wrappingSub_eq hle (by omega)] at hne ⊢
    have := share_le hne
    omega
  | stealCell head take raws => exact .still hb (fits_copy hf.1 hf.2)
  | stealWon head take raws hsame =>
    obtain rfl := hsame.eq hf.1 (hstall head rfl)
    have hlt := hf.2 rfl
    exact ⟨⟨hlt, by show m.tail ≤ m.head + take + localQueue; omega⟩, trivial, Nat.le_add_right _ _,
      le_rfl, fun _ => rfl⟩

end Atap.Ring
