import Atap.Interleave.Links
import Atap.Interleave.Machine
import Mathlib.Data.Finset.Basic

/-!
# The task table's ids

`TaskTable` hands out ids and takes them back. Ids given back wait on a free list threaded
through their slots, whose head is one word, a 16-bit tag over the index of the first id; the
tag moves on every pop. Beyond the list the table grows by `next_id`, which a trim lowers once
it holds every id above the new mark itself. This module is that protocol as a machine, one
atomic operation at a step:

* `alloc`: the pop of the list, and the growth of the table with `block_for`;
* `free`, and `push_free`, which a trim uses as well;
* `trim`: the lock, `reclaim` with `drain_free`, the release of the pages, and `restore`.

The tag is `pops % 2 ^ 16` of an unbounded count of the pops. What the kernel does with a page
it was handed back is the act `zero`: until a slot of it is next written, it may read zero.
Counters of 64 bits are plain numbers.

`alive`, `chain` and the `rest` of a walk are a history; no step reads them.
-/

namespace Atap.Table

open Function

/-- `FIRST_BLOCK`. -/
def firstBlock : ℕ := 256

/-- `TABLE_BLOCKS`. -/
def tableBlocks : ℕ := 23

/-- `MAX_TASK_ID`. -/
def maxTaskId : ℕ := firstBlock * 2 ^ tableBlocks - firstBlock

/-- `TRIM_THRESHOLD`. -/
def trimThreshold : ℕ := 4096

/-- `TRIM_KEEP_PERCENT`. -/
def trimKeepPercent : ℕ := 80

/-- `TRIM_MINIMUM`. -/
def trimMinimum : ℕ := 100

/-- The width of the tag over the index, `usize::BITS - TAG_SHIFT`. -/
def tagBits : ℕ := 16

/-- The block an id is in, the first half of `position`. -/
def blockOf (id : ℕ) : ℕ := Nat.log2 (id + firstBlock) - Nat.log2 firstBlock

/-- What a slot's 32-bit link holds of an index. -/
def asLink (index : ℕ) : ℕ := index % 2 ^ 32

/-- The table, and the links of its slots. -/
structure Mem where
  /-- How often the head's tag was moved. -/
  pops : ℕ
  /-- The index in the head of the free list, `0` for none. -/
  head : ℕ
  /-- `TaskData::next` of each slot. -/
  next : ℕ → ℕ
  nextId : ℕ
  peak : ℕ
  live : ℕ
  trimming : Bool
  /-- The blocks that are mapped. -/
  mapped : ℕ → Bool
  /-- The slots whose page was handed back and which were not written since. -/
  released : ℕ → Bool
  /-- The ids handed out and not given back. -/
  alive : Finset ℕ
  /-- The ids on the free list. -/
  chain : List ℕ

/-- `TaskTable::slot`, as far as whether there is one. -/
def Mem.slot (m : Mem) (id : ℕ) : Bool := decide (id < maxTaskId) && m.mapped (blockOf id)

/-- `TaskData::set_next`: the slot's page is written. -/
def Mem.setNext (m : Mem) (id index : ℕ) : Mem :=
  { m with
    next := update m.next id (asLink index)
    released := update m.released id false }

/-- The mark a trim lowers `next_id` to: below it is the first id, from the top down, that the
trim does not hold, and never less than the floor. -/
def keepFrom (taken : List ℕ) (floor : ℕ) : ℕ → ℕ
  | 0 => 0
  | keep + 1 => if floor < keep + 1 ∧ keep ∈ taken then keepFrom taken floor keep else keep + 1

/-- The least a trim keeps of a table that spans `current` ids with `live` of them out. -/
def trimFloor (live current : ℕ) : ℕ :=
  max (max (live + trimThreshold) (current / 100 * trimKeepPercent)) trimMinimum

/-- What a trim knows while it walks the list it took: the floor, the span it saw, the ids it
has set aside, and what is left of the list. -/
structure Walk where
  floor : ℕ
  current : ℕ
  taken : List ℕ
  rest : List ℕ
  deriving DecidableEq

/-- What follows a `push_free`. -/
inductive After
  /-- `free` returns. -/
  | free
  /-- `drain_free` goes on. -/
  | walk (cursor : ℕ) (w : Walk)
  /-- `restore` goes on. -/
  | restore (ids : List ℕ) (limit : ℕ)
  deriving DecidableEq

/-- Where a thread stands in the code. A head that was loaded is its count of pops and its
index. -/
inductive Pc
  | idle
  /-- `alloc`, before the load of the head. -/
  | popLoad
  /-- `alloc`, before `slot`. -/
  | popSlot (v id : ℕ)
  /-- `alloc`, before the load of the slot's link. -/
  | popNext (v id : ℕ)
  /-- `alloc`, before the exchange of the head. -/
  | popSwap (v id next : ℕ)
  /-- `alloc`, before the table grows. -/
  | grow
  /-- `block_for`, before the load of the block. -/
  | growBlock (id : ℕ)
  /-- `block_for`, before the exchange of the block. -/
  | growMap (id : ℕ)
  /-- `alloc`, before the count of live slots is raised. -/
  | count (id : ℕ)
  /-- `free`, before `slot`. -/
  | freeSlot (id : ℕ)
  /-- `free`, before the count of live slots is lowered. -/
  | freeCount (id : ℕ)
  /-- `push_free`, before the load of the head. -/
  | pushLoad (id : ℕ) (k : After)
  /-- `push_free`, before `set_next`. -/
  | pushLink (id v index : ℕ) (k : After)
  /-- `push_free`, before the exchange of the head. -/
  | pushSwap (id v index : ℕ) (k : After)
  /-- `trim`, before the lock. -/
  | trimLock
  /-- `reclaim`, before the load of `next_id`. -/
  | trimSpan
  /-- `reclaim`, before the load of the count of live slots. -/
  | trimLive (current : ℕ)
  /-- `drain_free`, before the load of the head. -/
  | drainLoad (floor current : ℕ)
  /-- `drain_free`, before the exchange of the head. -/
  | drainSwap (v index floor current : ℕ)
  /-- `drain_free`, before `slot` for the id the cursor is at. -/
  | walkSlot (cursor : ℕ) (w : Walk)
  /-- `drain_free`, before the load of that slot's link. -/
  | walkNext (id : ℕ) (w : Walk)
  /-- `reclaim`, before the pages from `keep` on are released. -/
  | release (taken : List ℕ) (keep current : ℕ)
  /-- `reclaim`, before the peak is recorded. -/
  | record (taken : List ℕ) (keep current : ℕ)
  /-- `reclaim`, before the exchange of `next_id`. -/
  | lower (taken : List ℕ) (keep current : ℕ)
  /-- `restore`, with the ids still to go. -/
  | restore (ids : List ℕ) (limit : ℕ)
  /-- `trim`, before the lock is let go. -/
  | unlock
  deriving DecidableEq

inductive Act
  | go
  | alloc
  | free (id : ℕ)
  | trim
  /-- A weak exchange fails for no reason. -/
  | fail
  /-- The kernel maps no block. -/
  | refuse
  /-- The kernel takes a page back that it was handed. -/
  | zero (id : ℕ)
  deriving DecidableEq

/-- The calls, and what the kernel does on its own. -/
def callStep (m : Mem) : Act → Option (Mem × Pc)
  | .alloc => some (m, .popLoad)
  -- A caller only gives back an id that it was handed and has not given back.
  | .free id =>
    if id ∈ m.alive then some ({ m with alive := m.alive.erase id }, .freeSlot id) else none
  | .trim => some (m, .trimLock)
  | .zero id =>
    if m.released id then some ({ m with next := update m.next id 0 }, .idle) else none
  | _ => none

/-- The steps of `alloc`. -/
def allocStep (m : Mem) : Pc → Act → Option (Mem × Pc)
  | .popLoad, .go =>
    some (m, if m.head = 0 then .grow else .popSlot m.pops (m.head - 1))
  | .popSlot v id, .go => some (m, if m.slot id then .popNext v id else .idle)
  | .popNext v id, .go => some (m, .popSwap v id (m.next id))
  | .popSwap v id next, .go =>
    if m.pops % 2 ^ tagBits = v % 2 ^ tagBits ∧ m.head = id + 1 then
      some ({ m with pops := m.pops + 1, head := next, chain := m.chain.tail }, .count id)
    else some (m, .popLoad)
  | .popSwap _ _ _, .fail => some (m, .popLoad)
  | .grow, .go => some ({ m with nextId := m.nextId + 1 }, .growBlock m.nextId)
  | .growBlock id, .go =>
    some (m, if maxTaskId ≤ id then .idle
      else if m.mapped (blockOf id) then .count id else .growMap id)
  | .growMap id, .go =>
    some ({ m with mapped := update m.mapped (blockOf id) true }, .count id)
  | .growMap _, .refuse => some (m, .idle)
  | .count id, .go => some ({ m with live := m.live + 1, alive := insert id m.alive }, .idle)
  | _, _ => none

/-- Where a thread goes once an id is on the list. -/
def After.pc : After → Pc
  | .free => .idle
  | .walk cursor w => .walkSlot cursor w
  | .restore ids limit => .restore ids limit

/-- The steps of `free` and `push_free`. -/
def pushStep (m : Mem) : Pc → Act → Option (Mem × Pc)
  | .freeSlot id, .go => some (m, if m.slot id then .freeCount id else .idle)
  | .freeCount id, .go => some ({ m with live := m.live - 1 }, .pushLoad id .free)
  | .pushLoad id k, .go => some (m, .pushLink id m.pops m.head k)
  | .pushLink id v index k, .go => some (m.setNext id index, .pushSwap id v index k)
  | .pushSwap id v index k, .go =>
    if m.pops % 2 ^ tagBits = v % 2 ^ tagBits ∧ m.head = index then
      some ({ m with head := id + 1, chain := id :: m.chain }, k.pc)
    else some (m, .pushLoad id k)
  | .pushSwap id _ _ k, .fail => some (m, .pushLoad id k)
  | _, _ => none

/-- What `reclaim` does once the list it took is walked. -/
def Walk.done (w : Walk) : Pc :=
  if w.taken = [] then .unlock
  else if w.current ≤ keepFrom w.taken w.floor w.current then .restore w.taken w.current
  else .release w.taken (keepFrom w.taken w.floor w.current) w.current

/-- The steps of `trim`. -/
def trimStep (m : Mem) : Pc → Act → Option (Mem × Pc)
  | .trimLock, .go => some ({ m with trimming := true }, if m.trimming then .idle else .trimSpan)
  | .trimSpan, .go => some (m, .trimLive m.nextId)
  | .trimLive current, .go =>
    some (m, if current ≤ trimFloor m.live current then .unlock
      else .drainLoad (trimFloor m.live current) current)
  | .drainLoad floor current, .go =>
    some (m, if m.head = 0 then .unlock else .drainSwap m.pops m.head floor current)
  | .drainSwap v index floor current, .go =>
    if m.pops % 2 ^ tagBits = v % 2 ^ tagBits ∧ m.head = index then
      some ({ m with pops := m.pops + 1, head := 0, chain := [] },
        .walkSlot index ⟨floor, current, [], m.chain⟩)
    else some (m, .drainLoad floor current)
  | .drainSwap _ _ floor current, .fail => some (m, .drainLoad floor current)
  | .walkSlot cursor w, .go =>
    some (m, if cursor = 0 then w.done
      else if m.slot (cursor - 1) then .walkNext (cursor - 1) w else w.done)
  | .walkNext id w, .go =>
    some (m, if id < w.floor then .pushLoad id (.walk (m.next id) { w with rest := w.rest.tail })
      else .walkSlot (m.next id) { w with taken := w.taken ++ [id], rest := w.rest.tail })
  | .release taken keep current, .go =>
    some ({ m with released := fun id => m.released id || decide (keep ≤ id ∧ id < current) },
      .record taken keep current)
  | .record taken keep current, .go =>
    some ({ m with peak := max m.peak current }, .lower taken keep current)
  | .lower taken keep current, .go =>
    if m.nextId = current then some ({ m with nextId := keep }, .restore taken keep)
    else some (m, .restore taken current)
  | .restore [] _, .go => some (m, .unlock)
  | .restore (id :: ids) limit, .go =>
    some (m, if limit ≤ id then .restore ids limit
      else if m.slot id then .pushLoad id (.restore ids limit) else .restore ids limit)
  | .unlock, .go => some ({ m with trimming := false }, .idle)
  | _, _ => none

/-- One step of one thread. -/
def next (m : Mem) (pc : Pc) (a : Act) : Option (Mem × Pc) :=
  match pc with
  | .idle => callStep m a
  | .popLoad | .popSlot _ _ | .popNext _ _ | .popSwap _ _ _ | .grow | .growBlock _ | .growMap _
  | .count _ => allocStep m pc a
  | .freeSlot _ | .freeCount _ | .pushLoad _ _ | .pushLink _ _ _ _
  | .pushSwap _ _ _ _ => pushStep m pc a
  | _ => trimStep m pc a

/-- The table as a machine. -/
def machine : Machine Mem Pc Act := ⟨next⟩

/-- `TaskTable::new`, before any call. -/
structure Fresh {T : Type*} (s : Config T Mem Pc) : Prop where
  head : s.mem.head = 0
  nextId : s.mem.nextId = 0
  trimming : s.mem.trimming = false
  alive : s.mem.alive = ∅
  chain : s.mem.chain = []
  released : ∀ id, s.mem.released id = false
  loc : ∀ t, s.loc t = .idle

/-- The count of pops a thread's exchange of the head is for. -/
def Pc.loaded : Pc → Option ℕ
  | popSwap v _ _ | pushSwap _ v _ _ | drainSwap v _ _ _ => some v
  | _ => none

/-- No thread stalls across `2 ^ 16` pops of the list between its load of the head and its
exchange. -/
def NoStall {T : Type*} (s : Config T Mem Pc) (t : T) (_ : Act) : Prop :=
  ∀ v ∈ (s.loc t).loaded, s.mem.pops < v + 2 ^ tagBits

instance {T : Type*} (s : Config T Mem Pc) (t : T) (a : Act) : Decidable (NoStall s t a) :=
  inferInstanceAs (Decidable (∀ _ ∈ _, _))

/-- A new table, and two threads. -/
def newTable : Config (Fin 2) Mem Pc where
  mem := ⟨0, 0, fun _ => 0, 0, 0, 0, false, fun _ => false, fun _ => false, ∅, []⟩
  loc _ := .idle

theorem newTable_fresh : Fresh newTable :=
  ⟨rfl, rfl, rfl, rfl, rfl, fun _ => rfl, fun _ => rfl⟩

/-! ### What a step can do -/

/-- The exchange of the head finds the word it loaded. -/
def Mem.sameHead (m : Mem) (v index : ℕ) : Prop :=
  m.pops % 2 ^ tagBits = v % 2 ^ tagBits ∧ m.head = index

/-- The steps of the code, one constructor for each way a step can go. -/
inductive Step (m : Mem) : Pc → Mem → Pc → Prop
  | alloc : Step m .idle m .popLoad
  | free (id : ℕ) (h : id ∈ m.alive) :
      Step m .idle { m with alive := m.alive.erase id } (.freeSlot id)
  | trim : Step m .idle m .trimLock
  | zero (id : ℕ) (h : m.released id = true) :
      Step m .idle { m with next := update m.next id 0 } .idle
  | popEmpty (h : m.head = 0) : Step m .popLoad m .grow
  | popLoad (h : m.head ≠ 0) : Step m .popLoad m (.popSlot m.pops (m.head - 1))
  | popSlot (v id : ℕ) : Step m (.popSlot v id) m (.popNext v id)
  | popGone (v id : ℕ) : Step m (.popSlot v id) m .idle
  | popNext (v id : ℕ) : Step m (.popNext v id) m (.popSwap v id (m.next id))
  | popWon (v id next : ℕ) (h : m.sameHead v (id + 1)) : Step m (.popSwap v id next)
      { m with pops := m.pops + 1, head := next, chain := m.chain.tail } (.count id)
  | popLost (v id next : ℕ) : Step m (.popSwap v id next) m .popLoad
  | grow : Step m .grow { m with nextId := m.nextId + 1 } (.growBlock m.nextId)
  | growOver (id : ℕ) : Step m (.growBlock id) m .idle
  | growFound (id : ℕ) : Step m (.growBlock id) m (.count id)
  | growMissing (id : ℕ) : Step m (.growBlock id) m (.growMap id)
  | growMapped (id : ℕ) : Step m (.growMap id)
      { m with mapped := update m.mapped (blockOf id) true } (.count id)
  | growRefused (id : ℕ) : Step m (.growMap id) m .idle
  | count (id : ℕ) : Step m (.count id)
      { m with live := m.live + 1, alive := insert id m.alive } .idle
  | freeSlot (id : ℕ) (h : id < maxTaskId) : Step m (.freeSlot id) m (.freeCount id)
  | freeGone (id : ℕ) : Step m (.freeSlot id) m .idle
  | freeCount (id : ℕ) :
      Step m (.freeCount id) { m with live := m.live - 1 } (.pushLoad id .free)
  | pushLoad (id : ℕ) (k : After) : Step m (.pushLoad id k) m (.pushLink id m.pops m.head k)
  | pushLink (id v index : ℕ) (k : After) :
      Step m (.pushLink id v index k) (m.setNext id index) (.pushSwap id v index k)
  | pushWon (id v index : ℕ) (k : After) (h : m.sameHead v index) :
      Step m (.pushSwap id v index k) { m with head := id + 1, chain := id :: m.chain } k.pc
  | pushLost (id v index : ℕ) (k : After) : Step m (.pushSwap id v index k) m (.pushLoad id k)
  | trimBusy : Step m .trimLock { m with trimming := true } .idle
  | trimLock : Step m .trimLock { m with trimming := true } .trimSpan
  | trimSpan : Step m .trimSpan m (.trimLive m.nextId)
  | trimSmall (current : ℕ) : Step m (.trimLive current) m .unlock
  | trimLive (current : ℕ) :
      Step m (.trimLive current) m (.drainLoad (trimFloor m.live current) current)
  | drainEmpty (floor current : ℕ) : Step m (.drainLoad floor current) m .unlock
  | drainLoad (floor current : ℕ) (h : m.head ≠ 0) :
      Step m (.drainLoad floor current) m (.drainSwap m.pops m.head floor current)
  | drainWon (v index floor current : ℕ) (h : m.sameHead v index) :
      Step m (.drainSwap v index floor current)
        { m with pops := m.pops + 1, head := 0, chain := [] }
        (.walkSlot index ⟨floor, current, [], m.chain⟩)
  | drainLost (v index floor current : ℕ) :
      Step m (.drainSwap v index floor current) m (.drainLoad floor current)
  | walkOver (cursor : ℕ) (w : Walk) : Step m (.walkSlot cursor w) m w.done
  | walkSlot (cursor : ℕ) (w : Walk) (h : cursor ≠ 0) (hid : cursor - 1 < maxTaskId) :
      Step m (.walkSlot cursor w) m (.walkNext (cursor - 1) w)
  | walkBack (id : ℕ) (w : Walk) : Step m (.walkNext id w) m
      (.pushLoad id (.walk (m.next id) { w with rest := w.rest.tail }))
  | walkTake (id : ℕ) (w : Walk) : Step m (.walkNext id w) m
      (.walkSlot (m.next id) { w with taken := w.taken ++ [id], rest := w.rest.tail })
  | release (taken : List ℕ) (keep current : ℕ) : Step m (.release taken keep current)
      { m with released := fun id => m.released id || decide (keep ≤ id ∧ id < current) }
      (.record taken keep current)
  | record (taken : List ℕ) (keep current : ℕ) : Step m (.record taken keep current)
      { m with peak := max m.peak current } (.lower taken keep current)
  | lowerWon (taken : List ℕ) (keep current : ℕ) (h : m.nextId = current) :
      Step m (.lower taken keep current) { m with nextId := keep } (.restore taken keep)
  | lowerLost (taken : List ℕ) (keep current : ℕ) :
      Step m (.lower taken keep current) m (.restore taken current)
  | restoreOver (limit : ℕ) : Step m (.restore [] limit) m .unlock
  | restoreSkip (id : ℕ) (ids : List ℕ) (limit : ℕ) :
      Step m (.restore (id :: ids) limit) m (.restore ids limit)
  | restorePush (id : ℕ) (ids : List ℕ) (limit : ℕ) (hl : id < limit) (hid : id < maxTaskId) :
      Step m (.restore (id :: ids) limit) m (.pushLoad id (.restore ids limit))
  | unlock : Step m .unlock { m with trimming := false } .idle

section Steps

variable {m m' : Mem} {pc pc' : Pc} {a : Act}

theorem lt_of_slot {id : ℕ} (h : m.slot id = true) : id < maxTaskId :=
  of_decide_eq_true (Bool.and_eq_true_iff.mp h).1

theorem callStep_step (h : callStep m a = some (m', pc')) : Step m .idle m' pc' := by
  unfold callStep at h
  split at h
  case h_5 => cases h
  case h_2 id => exact yield_guard h (.free id)
  case h_4 id => exact yield_guard h (.zero id)
  case h_1 | h_3 =>
    cases h
    constructor

theorem allocStep_step (h : allocStep m pc a = some (m', pc')) : Step m pc m' pc' := by
  unfold allocStep at h
  split at h
  case h_11 => cases h
  case h_4 v id next => exact yield_ite h (.popWon v id next) fun _ => .popLost v id next
  case h_1 => exact yield_snd h .popEmpty .popLoad
  case h_2 v id => exact yield_snd h (fun _ => .popSlot v id) fun _ => .popGone v id
  case h_7 id =>
    cases h
    split
    · exact .growOver id
    · split
      · exact .growFound id
      · exact .growMissing id
  case h_3 | h_5 | h_6 | h_8 | h_9 | h_10 =>
    cases h
    constructor

theorem pushStep_step (h : pushStep m pc a = some (m', pc')) : Step m pc m' pc' := by
  unfold pushStep at h
  split at h
  case h_7 => cases h
  case h_5 id v index k => exact yield_ite h (.pushWon id v index k) fun _ => .pushLost id v index k
  case h_1 id => exact yield_snd h (fun hc => .freeSlot id (lt_of_slot hc)) fun _ => .freeGone id
  case h_2 | h_3 | h_4 | h_6 =>
    cases h
    constructor

theorem trimStep_step (h : trimStep m pc a = some (m', pc')) : Step m pc m' pc' := by
  unfold trimStep at h
  split at h
  case h_15 => cases h
  case h_5 v index floor current =>
    exact yield_ite h (.drainWon v index floor current) fun _ => .drainLost v index floor current
  case h_11 taken keep current =>
    exact yield_ite h (.lowerWon taken keep current) fun _ => .lowerLost taken keep current
  case h_1 => exact yield_snd h (fun _ => .trimBusy) fun _ => .trimLock
  case h_3 current => exact yield_snd h (fun _ => .trimSmall current) fun _ => .trimLive current
  case h_4 floor current =>
    cases h
    split
    · exact .drainEmpty floor current
    · exact .drainLoad floor current ‹_›
  case h_7 cursor w =>
    cases h
    split
    · exact .walkOver cursor w
    · split
      · exact .walkSlot cursor w ‹_› (lt_of_slot ‹_›)
      · exact .walkOver cursor w
  case h_8 id w => exact yield_snd h (fun _ => .walkBack id w) fun _ => .walkTake id w
  case h_13 id ids limit =>
    cases h
    split
    · exact .restoreSkip id ids limit
    · split
      · exact .restorePush id ids limit (Nat.lt_of_not_le ‹_›) (lt_of_slot ‹_›)
      · exact .restoreSkip id ids limit
  case h_2 | h_6 | h_9 | h_10 | h_12 | h_14 =>
    cases h
    constructor

/-- **What a step of the code can do**, said once. -/
theorem next_step (h : next m pc a = some (m', pc')) : Step m pc m' pc' := by
  unfold next at h
  split at h
  all_goals first
    | exact callStep_step h
    | exact allocStep_step h
    | exact pushStep_step h
    | exact trimStep_step h

end Steps

end Atap.Table
