import Atap.Interleave.Links
import Atap.Interleave.Machine
import Atap.Interleave.Word

/-!
# The shared queue

`Injector` is the queue every spawned task lands in. Each of its bands is two stacks threaded
through the slots of the tasks: tasks are pushed onto `incoming`, and `flip` reverses what was
pushed onto `ready` once that has run dry, which is where tasks are popped. The head of `ready` is
one word, a 16-bit tag over the index of the first task, and the tag moves on every pop and every
flip. `len` counts the tasks, before they are linked and until after they are unlinked.

This module is the queue on its own: the steps of `push`, `take`, `promote` and `refill`, one atomic
operation at a step, for any number of threads. What a pool does around them (the mark of a task,
what it is taken for) is left to the machines that run these steps.

* `step`: the steps, and `Step`, one constructor for each way a step can go.
* `Inv`: every task is in one place; the stacks end; every thread can rely on what it loaded; and
  `len` counts what is in the queue and in the hands of the threads.
* `Inv.step`: kept by every step in which no thread stalls across a full turn of the tag. Without
  that, a pop can land on a head that was popped and pushed again in the meantime, and leave the
  rest of the band behind.

The tag is `bumps % 2 ^ 16` of an unbounded count of its moves. `len` is an integer: below zero it
is not zero either. `pushed` and `served` and the lists in the hands of a flip are a history; no
step reads them.
-/

namespace Atap.Injector

open Function

/-- `PRIORITY_BANDS`. -/
abbrev priorityBands : ℕ := 4

/-- One of the bands. -/
abbrev Band := Fin priorityBands

/-- The width of the tag over the index, `usize::BITS - TAG_SHIFT`. -/
def tagBits : ℕ := 16

/-- An `Injector`, and the links of the slots. -/
structure Mem where
  /-- `TaskData::queue_next` of each slot. -/
  next : ℕ → ℕ
  incoming : Band → ℕ
  /-- The index in the head of the served side, `0` for none. -/
  ready : Band → ℕ
  /-- How often the head's tag was moved. -/
  bumps : Band → ℕ
  flipping : Band → Bool
  len : ℤ
  /-- The tasks on the pushed side. -/
  pushed : Band → List ℕ
  /-- The tasks on the served side. -/
  served : Band → List ℕ

/-- `TaskData::set_queue_next`. -/
def Mem.setNext (m : Mem) (id index : ℕ) : Mem :=
  { m with next := update m.next id index }

/-- What `pop_ready` is called for. -/
inductive For
  /-- `take`, before it has tried a flip. -/
  | take
  /-- `take`, after a flip. -/
  | again
  | promote
  deriving DecidableEq

/-- What `flip` is called for. -/
inductive Flip
  | take
  | refill
  deriving DecidableEq

/-- Where a thread stands in the code. A head of the served side that was loaded is its count of
moves and its index; a flip knows the count of moves it loaded, how far it is, and the tasks it has
still to turn round and those it has turned. -/
inductive Pc
  | idle
  /-- `push`, before the task is counted. -/
  | pushCount (id : ℕ) (b : Band)
  /-- `push`, before the load of the head. -/
  | pushLoad (id : ℕ) (b : Band)
  /-- `push`, before `set_queue_next`. -/
  | pushLink (id : ℕ) (b : Band) (head : ℕ)
  /-- `push`, before the exchange of the head. -/
  | pushSwap (id : ℕ) (b : Band) (head : ℕ)
  /-- `push` has returned. -/
  | pushed (id : ℕ)
  /-- `pop_ready`, before the load of the head. -/
  | popLoad (b : Band) (k : For)
  /-- `pop_ready`, before the load of the link. -/
  | popLink (b : Band) (k : For) (v id : ℕ)
  /-- `pop_ready`, before the exchange of the head. -/
  | popSwap (b : Band) (k : For) (v id next : ℕ)
  /-- `pop_ready`, before `slot`. -/
  | popSlot (b : Band) (k : For) (id : ℕ)
  /-- `pop_ready`, before a retired task is counted out. -/
  | popRetired (b : Band) (k : For)
  /-- `take`, before the task is counted out. -/
  | takeCount (id : ℕ)
  /-- `take`, before the task is claimed. -/
  | took (id : ℕ)
  /-- `promote`, before `slot`. -/
  | promoteSlot (b : Band) (id : ℕ)
  /-- `promote`, before a retired task is counted out. -/
  | promoteRetired
  /-- `flip`, before the lock. -/
  | flipLock (b : Band) (k : Flip)
  /-- `flip`, before the load of the served side. -/
  | flipReady (b : Band) (k : Flip)
  /-- `flip`, before the pushed side is taken. -/
  | flipTake (b : Band) (k : Flip) (v : ℕ)
  /-- `flip`, before the load of the link at the cursor, or the store of what was turned. -/
  | flipLink (b : Band) (k : Flip) (v cursor reversed : ℕ) (rest done : List ℕ)
  /-- `flip`, before the link at the cursor is written. -/
  | flipWrite (b : Band) (k : Flip) (v cursor next reversed : ℕ) (rest done : List ℕ)
  /-- `flip`, before the lock is let go. -/
  | flipLeave (b : Band) (k : Flip) (again : Bool)
  /-- `take` came back with nothing, or `promote` or `flip` has returned. -/
  | isOver
  deriving DecidableEq

inductive Act
  | go
  /-- A weak exchange fails for no reason. -/
  | fail
  deriving DecidableEq

/-- The band a task of `b` is promoted to. -/
def above (b : Band) : Band := if h : b.val + 1 < priorityBands then ⟨b.val + 1, h⟩ else b

/-- Where `pop_ready` leaves its caller when the served side is empty. -/
def For.empty (b : Band) : For → Pc
  | .take => .flipLock b .take
  | .again | .promote => .isOver

/-- Where `pop_ready` leaves its caller with a task. -/
def For.got (b : Band) (id : ℕ) : For → Pc
  | .take | .again => .takeCount id
  | .promote => .promoteSlot b id

/-- Where `flip` leaves its caller. -/
def Flip.done (b : Band) (again : Bool) : Flip → Pc
  | .take => if again then .popLoad b .again else .isOver
  | .refill => .isOver

/-- The exchange of the served side finds the word that was loaded. -/
def Mem.sameReady (m : Mem) (b : Band) (v index : ℕ) : Prop :=
  m.bumps b % 2 ^ tagBits = v % 2 ^ tagBits ∧ m.ready b = index

instance (m : Mem) (b : Band) (v index : ℕ) : Decidable (m.sameReady b v index) :=
  inferInstanceAs (Decidable (_ ∧ _))

/-- The steps of `push`, which `promote` shares. -/
def pushStep (m : Mem) : Pc → Act → Option (Mem × Pc)
  | .pushCount id b, .go => some ({ m with len := m.len + 1 }, .pushLoad id b)
  | .pushLoad id b, .go => some (m, .pushLink id b (m.incoming b))
  | .pushLink id b head, .go => some (m.setNext id head, .pushSwap id b head)
  | .pushSwap id b head, .go =>
    if m.incoming b = head then
      some ({ m with
        incoming := update m.incoming b (id + 1)
        pushed := update m.pushed b (id :: m.pushed b) }, .pushed id)
    else some (m, .pushLoad id b)
  | .pushSwap id b _, .fail => some (m, .pushLoad id b)
  | _, _ => none

/-- The steps of `pop_ready`, and what `take` and `promote` do with the task. -/
def popStep (live : ℕ → Bool) (m : Mem) : Pc → Act → Option (Mem × Pc)
  | .popLoad b k, .go =>
    some (m, if m.ready b = 0 then k.empty b else .popLink b k (m.bumps b) (m.ready b - 1))
  | .popLink b k v id, .go => some (m, .popSwap b k v id (m.next id))
  | .popSwap b k v id next, .go =>
    if m.sameReady b v (id + 1) then
      some ({ m with
        ready := update m.ready b next
        bumps := update m.bumps b (m.bumps b + 1)
        served := update m.served b (m.served b).tail }, .popSlot b k id)
    else some (m, .popLoad b k)
  | .popSwap b k _ _ _, .fail => some (m, .popLoad b k)
  | .popSlot b k id, .go => some (m, if live id then k.got b id else .popRetired b k)
  | .popRetired b k, .go => some ({ m with len := m.len - 1 }, .popLoad b k)
  | .takeCount id, .go => some ({ m with len := m.len - 1 }, .took id)
  | .promoteSlot b id, .go =>
    some (m, if live id then .pushLoad id (above b) else .promoteRetired)
  | .promoteRetired, .go => some ({ m with len := m.len - 1 }, .isOver)
  | _, _ => none

/-- The steps of `flip`. The pushed side that is taken is empty or not; a flip that found it empty
goes straight to letting the lock go. -/
def flipStep (m : Mem) : Pc → Act → Option (Mem × Pc)
  | .flipLock b k, .go =>
    some ({ m with flipping := update m.flipping b true },
      if m.flipping b then k.done b true else .flipReady b k)
  | .flipReady b k, .go =>
    some (m, if m.ready b = 0 then .flipTake b k (m.bumps b) else .flipLeave b k true)
  | .flipTake b k v, .go =>
    some ({ m with
      incoming := update m.incoming b 0
      pushed := update m.pushed b [] },
      if m.incoming b = 0 then .flipLeave b k false
      else .flipLink b k v (m.incoming b) 0 (m.pushed b) [])
  | .flipLink b k v cursor reversed rest done, .go =>
    if cursor = 0 then
      some ({ m with
        ready := update m.ready b reversed
        bumps := update m.bumps b (v + 1)
        served := update m.served b done }, .flipLeave b k (reversed ≠ 0))
    else some (m, .flipWrite b k v cursor (m.next (cursor - 1)) reversed rest done)
  | .flipWrite b k v cursor next reversed rest done, .go =>
    some (m.setNext (cursor - 1) reversed,
      .flipLink b k v next cursor rest.tail ((cursor - 1) :: done))
  | .flipLeave b k again, .go =>
    some ({ m with flipping := update m.flipping b false }, k.done b again)
  | _, _ => none

/-- One step of one thread inside the queue, where `live` says which slots hold a task. -/
def step (live : ℕ → Bool) (m : Mem) (pc : Pc) (a : Act) : Option (Mem × Pc) :=
  (pushStep m pc a).or ((popStep live m pc a).or (flipStep m pc a))

/-- The count of moves a thread's exchange of the served side is for. -/
def Pc.loaded : Pc → Option (Band × ℕ)
  | popSwap b _ v _ _ => some (b, v)
  | _ => none

/-! ### What a step can do -/

/-- The steps, one constructor for each way a step can go. -/
inductive Step (live : ℕ → Bool) (m : Mem) : Pc → Mem → Pc → Prop
  | pushCount (id : ℕ) (b : Band) :
      Step live m (.pushCount id b) { m with len := m.len + 1 } (.pushLoad id b)
  | pushLoad (id : ℕ) (b : Band) :
      Step live m (.pushLoad id b) m (.pushLink id b (m.incoming b))
  | pushLink (id : ℕ) (b : Band) (head : ℕ) :
      Step live m (.pushLink id b head) (m.setNext id head) (.pushSwap id b head)
  | pushWon (id : ℕ) (b : Band) (head : ℕ) (h : m.incoming b = head) :
      Step live m (.pushSwap id b head)
        { m with
          incoming := update m.incoming b (id + 1)
          pushed := update m.pushed b (id :: m.pushed b) } (.pushed id)
  | pushLost (id : ℕ) (b : Band) (head : ℕ) :
      Step live m (.pushSwap id b head) m (.pushLoad id b)
  | popEmpty (b : Band) (k : For) (h : m.ready b = 0) :
      Step live m (.popLoad b k) m (k.empty b)
  | popLoad (b : Band) (k : For) (h : m.ready b ≠ 0) :
      Step live m (.popLoad b k) m (.popLink b k (m.bumps b) (m.ready b - 1))
  | popLink (b : Band) (k : For) (v id : ℕ) :
      Step live m (.popLink b k v id) m (.popSwap b k v id (m.next id))
  | popWon (b : Band) (k : For) (v id next : ℕ) (h : m.sameReady b v (id + 1)) :
      Step live m (.popSwap b k v id next)
        { m with
          ready := update m.ready b next
          bumps := update m.bumps b (m.bumps b + 1)
          served := update m.served b (m.served b).tail } (.popSlot b k id)
  | popLost (b : Band) (k : For) (v id next : ℕ) :
      Step live m (.popSwap b k v id next) m (.popLoad b k)
  | popSlot (b : Band) (k : For) (id : ℕ) (h : live id = true) :
      Step live m (.popSlot b k id) m (k.got b id)
  | popGone (b : Band) (k : For) (id : ℕ) (h : live id = false) :
      Step live m (.popSlot b k id) m (.popRetired b k)
  | popRetired (b : Band) (k : For) :
      Step live m (.popRetired b k) { m with len := m.len - 1 } (.popLoad b k)
  | takeCount (id : ℕ) : Step live m (.takeCount id) { m with len := m.len - 1 } (.took id)
  | promoteSlot (b : Band) (id : ℕ) (h : live id = true) :
      Step live m (.promoteSlot b id) m (.pushLoad id (above b))
  | promoteGone (b : Band) (id : ℕ) (h : live id = false) :
      Step live m (.promoteSlot b id) m .promoteRetired
  | promoteRetired : Step live m .promoteRetired { m with len := m.len - 1 } .isOver
  | flipBusy (b : Band) (k : Flip) (h : m.flipping b = true) :
      Step live m (.flipLock b k) { m with flipping := update m.flipping b true }
        (k.done b true)
  | flipLock (b : Band) (k : Flip) (h : m.flipping b = false) :
      Step live m (.flipLock b k) { m with flipping := update m.flipping b true }
        (.flipReady b k)
  | flipFilled (b : Band) (k : Flip) (h : m.ready b ≠ 0) :
      Step live m (.flipReady b k) m (.flipLeave b k true)
  | flipReady (b : Band) (k : Flip) (h : m.ready b = 0) :
      Step live m (.flipReady b k) m (.flipTake b k (m.bumps b))
  | flipNone (b : Band) (k : Flip) (v : ℕ) (h : m.incoming b = 0) :
      Step live m (.flipTake b k v)
        { m with
          incoming := update m.incoming b 0
          pushed := update m.pushed b [] } (.flipLeave b k false)
  | flipTake (b : Band) (k : Flip) (v : ℕ) (h : m.incoming b ≠ 0) :
      Step live m (.flipTake b k v)
        { m with
          incoming := update m.incoming b 0
          pushed := update m.pushed b [] }
        (.flipLink b k v (m.incoming b) 0 (m.pushed b) [])
  | flipStore (b : Band) (k : Flip) (v reversed : ℕ) (rest done : List ℕ) :
      Step live m (.flipLink b k v 0 reversed rest done)
        { m with
          ready := update m.ready b reversed
          bumps := update m.bumps b (v + 1)
          served := update m.served b done } (.flipLeave b k (reversed ≠ 0))
  | flipLink (b : Band) (k : Flip) (v cursor reversed : ℕ) (rest done : List ℕ) (h : cursor ≠ 0) :
      Step live m (.flipLink b k v cursor reversed rest done) m
        (.flipWrite b k v cursor (m.next (cursor - 1)) reversed rest done)
  | flipWrite (b : Band) (k : Flip) (v cursor next reversed : ℕ) (rest done : List ℕ) :
      Step live m (.flipWrite b k v cursor next reversed rest done)
        (m.setNext (cursor - 1) reversed)
        (.flipLink b k v next cursor rest.tail ((cursor - 1) :: done))
  | flipLeave (b : Band) (k : Flip) (again : Bool) :
      Step live m (.flipLeave b k again)
        { m with flipping := update m.flipping b false } (k.done b again)

section Steps

variable {live : ℕ → Bool} {m m' : Mem} {pc pc' : Pc} {a : Act}

theorem pushStep_step (h : pushStep m pc a = some (m', pc')) : Step live m pc m' pc' := by
  unfold pushStep at h
  split at h
  case h_4 id b head => exact yield_ite h (.pushWon id b head) fun _ => .pushLost id b head
  case h_6 => cases h
  case h_1 | h_2 | h_3 | h_5 =>
    cases h
    constructor

theorem popStep_step (h : popStep live m pc a = some (m', pc')) : Step live m pc m' pc' := by
  unfold popStep at h
  split at h
  case h_3 b k v id next =>
    exact yield_ite h (.popWon b k v id next) fun _ => .popLost b k v id next
  case h_10 => cases h
  case h_1 b k =>
    cases h
    split
    case isTrue hh => exact .popEmpty b k hh
    case isFalse hh => exact .popLoad b k hh
  case h_5 b k id =>
    exact yield_snd h (.popSlot b k id) fun hh => .popGone b k id (Bool.eq_false_iff.mpr hh)
  case h_8 b id =>
    exact yield_snd h (.promoteSlot b id) fun hh => .promoteGone b id (Bool.eq_false_iff.mpr hh)
  case h_2 | h_4 | h_6 | h_7 | h_9 =>
    cases h
    constructor

theorem flipStep_step (h : flipStep m pc a = some (m', pc')) : Step live m pc m' pc' := by
  unfold flipStep at h
  split at h
  case h_4 b k v cursor reversed rest done =>
    split at h
    case isTrue hh =>
      cases h
      subst hh
      exact .flipStore b k v reversed rest done
    case isFalse hh => exact yield h (.flipLink b k v cursor reversed rest done hh)
  case h_7 => cases h
  case h_1 b k =>
    exact yield_snd h (.flipBusy b k) fun hh => .flipLock b k (Bool.eq_false_iff.mpr hh)
  case h_2 b k =>
    cases h
    split
    case isTrue hh => exact .flipReady b k hh
    case isFalse hh => exact .flipFilled b k hh
  case h_3 b k v =>
    cases h
    split
    case isTrue hh => exact .flipNone b k v hh
    case isFalse hh => exact .flipTake b k v hh
  case h_5 b k v cursor next reversed rest done =>
    exact yield h (.flipWrite b k v cursor next reversed rest done)
  case h_6 b k again => exact yield h (.flipLeave b k again)

theorem step_step (h : step live m pc a = some (m', pc')) : Step live m pc m' pc' := by
  rcases Option.or_eq_some_iff.mp h with h | ⟨-, h⟩
  · exact pushStep_step h
  · rcases Option.or_eq_some_iff.mp h with h | ⟨-, h⟩
    · exact popStep_step h
    · exact flipStep_step h

end Steps

/-! ### What holds in every interleaving -/

/-- The tasks in the hands of a thread. -/
def Pc.ids : Pc → List ℕ
  | pushCount id _ | pushLoad id _ | pushLink id _ _ | pushSwap id _ _ => [id]
  | popSlot _ _ id | takeCount id | took id | promoteSlot _ id => [id]
  | flipLink _ _ _ _ _ rest done | flipWrite _ _ _ _ _ _ rest done => rest ++ done
  | _ => []

/-- The retired task a thread is about to drop. -/
def Pc.dropped (live : ℕ → Bool) : Pc → List ℕ
  | popSlot _ _ id | promoteSlot _ id => if live id then [] else [id]
  | _ => []

theorem Pc.dropped_of_live (pc : Pc) : pc.dropped (fun _ => true) = [] := by cases pc <;> rfl

/-- How many of the tasks `len` counts are in the hands of a thread. A task is counted before it is
linked and counted out after it is unlinked, a retired one once it is out of every hand. -/
def Pc.counted : Pc → ℕ
  | pushCount _ _ | took _ => 0
  | popRetired _ _ | promoteRetired => 1
  | pc => pc.ids.length

/-- The thread holds the lock of a band. -/
def Pc.flips (b : Band) : Pc → Bool
  | flipReady b' _ | flipTake b' _ _ | flipLink b' _ _ _ _ _ _ | flipWrite b' _ _ _ _ _ _ _
  | flipLeave b' _ _ => b' = b
  | _ => false

/-- What a thread may rely on. -/
def Pc.Local (m : Mem) : Pc → Prop
  | pushSwap id _ head => m.next id = head
  | popLink b _ v id => v ≤ m.bumps b ∧ (v = m.bumps b → m.ready b = id + 1)
  | popSwap b _ v id next =>
    v ≤ m.bumps b ∧ (v = m.bumps b → m.ready b = id + 1 ∧ m.next id = next)
  | flipTake b _ v => m.ready b = 0 ∧ m.bumps b = v
  | flipLink b _ v cursor reversed rest done =>
    (m.ready b = 0 ∧ m.bumps b = v) ∧ Links m.next cursor rest ∧ Links m.next reversed done
  | flipWrite b _ v cursor next reversed rest done =>
    (m.ready b = 0 ∧ m.bumps b = v) ∧
      (∃ l, rest = (cursor - 1) :: l ∧ Links m.next next l) ∧ cursor ≠ 0 ∧
      Links m.next reversed done
  | _ => True

/-- How often a task is on a stack. -/
def Mem.stacked (m : Mem) (id : ℕ) : ℕ :=
  total (fun l : List ℕ => l.count id) m.pushed + total (fun l : List ℕ => l.count id) m.served

/-- How many tasks are on the stacks. -/
def Mem.size (m : Mem) : ℕ := total List.length m.pushed + total List.length m.served

/-- How many places a task is in. -/
def places {T : Type*} [Fintype T] (m : Mem) (pcs : T → Pc) (id : ℕ) : ℕ :=
  m.stacked id + total (fun pc => pc.ids.count id) pcs

/-- What holds in every interleaving. -/
structure Inv {T : Type*} [Fintype T] (m : Mem) (pcs : T → Pc) : Prop where
  one : ∀ id, places m pcs id ≤ 1
  incoming : ∀ b, Links m.next (m.incoming b) (m.pushed b)
  ready : ∀ b, Links m.next (m.ready b) (m.served b)
  locals : ∀ t, (pcs t).Local m
  flips : ∀ b, count (Pc.flips b) pcs = (m.flipping b).toNat
  len : m.len = m.size + total Pc.counted pcs

section Step

variable {live : ℕ → Bool} {m m' : Mem} {pc pc' : Pc}

/-- What a stack's list being replaced does to a sum over the stacks. -/
theorem total_stack (w : List ℕ → ℕ) (f : Band → List ℕ) (b : Band) (l : List ℕ) :
    total w (update f b l) + w (f b) = total w f + w l :=
  total_update_add w f b l

/-- A pop that lands takes the first task of the served side. -/
theorem served_of_pop {b : Band} {id : ℕ} (hl : Links m.next (m.ready b) (m.served b))
    (hh : m.ready b = id + 1) :
    m.served b = id :: (m.served b).tail ∧ Links m.next (m.next id) (m.served b).tail := by
  obtain ⟨l, hc, hl'⟩ := hl.eq_cons (hh ▸ Nat.succ_ne_zero id)
  rw [hh, Nat.add_sub_cancel] at hc hl'
  rw [hc]
  exact ⟨rfl, hl'⟩

theorem For.ids_empty (k : For) (b : Band) : (k.empty b).ids = [] := by cases k <;> rfl

theorem For.ids_got (k : For) (b : Band) (id : ℕ) : (k.got b id).ids = [id] := by cases k <;> rfl

theorem Flip.ids_done (k : Flip) (b : Band) (again : Bool) : (k.done b again).ids = [] := by
  cases k <;> cases again <;> rfl

/-- The weight of what is on the stacks and in the hands of a thread at `pc`. -/
def weight (w : List ℕ → ℕ) (m : Mem) (pc : Pc) : ℕ :=
  total w m.pushed + total w m.served + w pc.ids

/-- **A step moves the tasks about.** Whatever weighs them, the stacks and the hands of the thread
weigh what they did before, but for a retired task that is dropped. -/
theorem Step.weight_add (h : Step live m pc m' pc')
    (hi : ∀ b, Links m.next (m.incoming b) (m.pushed b))
    (hr : ∀ b, Links m.next (m.ready b) (m.served b)) (hp : pc.Local m) {w : List ℕ → ℕ}
    (hw : ∀ l l', w (l ++ l') = w l + w l') :
    weight w m' pc' + w (pc.dropped live) = weight w m pc := by
  have hnil : w [] = 0 := by
    have := hw [] []
    rw [List.append_nil] at this
    omega
  cases h
  case popGone b k x h | promoteGone b x h =>
    change total w m.pushed + total w m.served + w [] + w (if live x then [] else [x]) = _
    rw [h, hnil]
    rfl
  case popSlot b k x h =>
    change total w m.pushed + total w m.served + w (k.got b x).ids +
      w (if live x then [] else [x]) = _
    rw [h, For.ids_got, if_pos rfl, hnil]
    rfl
  case promoteSlot b x h =>
    change total w m.pushed + total w m.served + w [x] + w (if live x then [] else [x]) = _
    rw [h, if_pos rfl, hnil]
    rfl
  all_goals change weight w _ _ + w [] = _
  all_goals rw [hnil, Nat.add_zero]
  case pushWon x b head h =>
    have hu := total_stack w m.pushed b ([x] ++ m.pushed b)
    change total w (update m.pushed b ([x] ++ m.pushed b)) + total w m.served + w [] =
      total w m.pushed + total w m.served + w [x]
    rw [hw] at hu
    rw [hnil]
    omega
  case popEmpty b k _ =>
    change total w m.pushed + total w m.served + w (k.empty b).ids = _
    rw [For.ids_empty]
    rfl
  case popWon b k v x next h =>
    have hu := total_stack w m.served b (m.served b).tail
    have hc : w (m.served b) = w [x] + w (m.served b).tail := by
      rw [← hw]
      exact congrArg w (served_of_pop (hr b) h.2).1
    change total w m.pushed + total w (update m.served b (m.served b).tail) + w [x] =
      total w m.pushed + total w m.served + w []
    rw [hnil]
    omega
  case flipBusy b k h =>
    change total w m.pushed + total w m.served + w (k.done b true).ids = _
    rw [Flip.ids_done]
    rfl
  case flipNone b k v h =>
    have hpushed : m.pushed b = [] := (h ▸ hi b).eq_nil
    change total w (update m.pushed b []) + total w m.served + w [] = _
    rw [← hpushed, update_eq_self, hpushed]
    rfl
  case flipTake b k v _ =>
    have hu := total_stack w m.pushed b []
    change total w (update m.pushed b []) + total w m.served + w (m.pushed b ++ []) =
      total w m.pushed + total w m.served + w []
    rw [List.append_nil]
    omega
  case flipStore b k v reversed rest done =>
    have hu := total_stack w m.served b done
    obtain ⟨⟨h0, -⟩, hrest, -⟩ := hp
    have hserved : m.served b = [] := (h0 ▸ hr b).eq_nil
    change total w m.pushed + total w (update m.served b done) + w [] =
      total w m.pushed + total w m.served + w (rest ++ done)
    rw [hserved] at hu
    rw [hrest.eq_nil, List.nil_append]
    omega
  case flipWrite b k v cursor next reversed rest done =>
    obtain ⟨-, ⟨l, rfl, -⟩, -, -⟩ := hp
    change total w m.pushed + total w m.served + w (l ++ ([cursor - 1] ++ done)) =
      total w m.pushed + total w m.served + w ([cursor - 1] ++ l ++ done)
    rw [hw, hw, hw, hw]
    omega
  case flipLeave b k again =>
    change total w m.pushed + total w m.served + w (k.done b again).ids = _
    rw [Flip.ids_done]
    rfl
  all_goals rfl

/-- **What a step does to `len`** it does to what is to be counted. -/
theorem Step.len_add (h : Step live m pc m' pc') :
    m'.len + pc.counted + pc'.ids.length + (pc.dropped live).length =
      m.len + pc'.counted + pc.ids.length := by
  cases h
  case popEmpty b k _ => cases k <;> simp [Pc.counted, Pc.ids, Pc.dropped, For.empty]
  case popSlot b k id h => cases k <;> simp [Pc.counted, Pc.ids, Pc.dropped, For.got, h]
  case popGone b k id h | promoteSlot b id h | promoteGone b id h =>
    simp [Pc.counted, Pc.ids, Pc.dropped, h]
  case flipBusy b k h => cases k <;> simp [Pc.counted, Pc.ids, Pc.dropped, Flip.done]
  case flipLeave b k again =>
    cases k <;> cases again <;> simp [Pc.counted, Pc.ids, Pc.dropped, Flip.done]
  case flipWrite =>
    simp only [Pc.counted, Pc.ids, Pc.dropped, Mem.setNext, List.length_nil]
    omega
  all_goals simp [Pc.counted, Pc.ids, Pc.dropped, Mem.setNext]

/-- The thread is in `take`. -/
def Pc.takes : Pc → Bool
  | popLoad _ k | popLink _ k _ _ | popSwap _ k _ _ _ | popSlot _ k _ | popRetired _ k =>
    k ≠ .promote
  | takeCount _ | took _ => true
  | flipLock _ k | flipReady _ k | flipTake _ k _ | flipLink _ k _ _ _ _ _
  | flipWrite _ k _ _ _ _ _ _ | flipLeave _ k _ => k = .take
  | _ => false

/-- The thread is in `push`, or has returned from it. -/
def Pc.pushes : Pc → Bool
  | pushCount _ _ | pushLoad _ _ | pushLink _ _ _ | pushSwap _ _ _ | pushed _ => true
  | _ => false

theorem Step.pushes (h : Step live m pc m' pc') (hp : pc.pushes = true) : pc'.pushes = true := by
  cases h <;> first | rfl | cases hp

/-! ### What a step leaves to the others -/

/-- What a step of a thread at `pc` leaves alone: the links of the tasks that are not in its hands,
and the served side of a band, unless it pops from it or fills it. -/
structure Keeps (m m' : Mem) (pc : Pc) : Prop where
  bumps : ∀ b, m.bumps b ≤ m'.bumps b
  ready : ∀ b, m'.bumps b = m.bumps b → m'.ready b = m.ready b
  still : ∀ b, m.ready b = 0 → pc.flips b = false → m'.bumps b = m.bumps b
  next : ∀ id, id ∉ pc.ids → m'.next id = m.next id

theorem Keeps.of_eq (hb : m'.bumps = m.bumps) (hr : m'.ready = m.ready)
    (hn : m'.next = m.next) : Keeps m m' pc where
  bumps _ := hb ▸ le_rfl
  ready _ _ := hr ▸ rfl
  still _ _ _ := hb ▸ rfl
  next _ _ := hn ▸ rfl

theorem keeps_setNext {x index : ℕ} (hx : x ∈ pc.ids) : Keeps m (m.setNext x index) pc where
  bumps _ := le_rfl
  ready _ _ := rfl
  still _ _ _ := rfl
  next id hid := update_of_ne (fun h : id = x => hid (h ▸ hx)) _ _

/-- The served side of one band is given a new word. -/
theorem keeps_update {b : Band} {index v : ℕ} {l : List ℕ} (hv : m.bumps b < v)
    (hstill : m.ready b = 0 → pc.flips b = true) :
    Keeps m { m with
      ready := update m.ready b index
      bumps := update m.bumps b v
      served := update m.served b l } pc where
  bumps b' := by
    rcases eq_or_ne b' b with rfl | hne
    · exact hv.le.trans (update_self b' v m.bumps).ge
    · exact (update_of_ne hne v m.bumps).ge
  ready b' h := by
    rcases eq_or_ne b' b with rfl | hne
    · exact absurd ((update_self b' v m.bumps).symm.trans h) hv.ne'
    · exact update_of_ne hne _ _
  still b' h0 hf := by
    rcases eq_or_ne b' b with rfl | hne
    · exact absurd ((hstill h0).symm.trans hf) (by decide)
    · exact update_of_ne hne _ _
  next _ _ := rfl

theorem Step.keeps (h : Step live m pc m' pc') (hp : pc.Local m) : Keeps m m' pc := by
  cases h
  case pushLink id b head => exact keeps_setNext (List.mem_singleton.mpr rfl)
  case popWon b k v id next h =>
    exact keeps_update (Nat.lt_succ_self _) fun h0 => absurd (h0.symm.trans h.2) (by simp)
  case flipStore b k v reversed rest done =>
    obtain ⟨⟨-, rfl⟩, -⟩ := hp
    exact keeps_update (Nat.lt_succ_self _) fun _ => decide_eq_true rfl
  case flipWrite b k v cursor next reversed rest done =>
    obtain ⟨-, ⟨l, rfl, -⟩, -⟩ := hp
    exact keeps_setNext (List.mem_append_left _ List.mem_cons_self)
  all_goals exact .of_eq rfl rfl rfl

/-- **What a thread relies on outlives the steps of the others**, as long as they do not share the
lock of a band with it or have its tasks in their hands. -/
theorem Pc.Local.frame {pc₁ : Pc} (h : pc.Local m) (hk : Keeps m m' pc₁)
    (hr : ∀ b, Links m.next (m.ready b) (m.served b))
    (hs : ∀ b, ∀ id ∈ m.served b, id ∉ pc₁.ids) (hd : ∀ id ∈ pc.ids, id ∉ pc₁.ids)
    (hf : ∀ b, pc.flips b = true → pc₁.flips b = false) : pc.Local m' := by
  -- A head that still has the tag it was loaded with is still the head.
  have hpop {b : Band} {v : ℕ} (hv : v ≤ m.bumps b) (hv' : v = m'.bumps b) :
      m'.bumps b = m.bumps b :=
    le_antisymm (hv' ▸ hv) (hk.bumps b)
  have hflip {b : Band} {v : ℕ} (h0 : m.ready b = 0 ∧ m.bumps b = v)
      (hb : pc₁.flips b = false) : m'.ready b = 0 ∧ m'.bumps b = v := by
    have heq := hk.still b h0.1 hb
    exact ⟨(hk.ready b heq).trans h0.1, heq.trans h0.2⟩
  cases pc
  case pushSwap id b head => exact (hk.next id (hd id (List.mem_singleton.mpr rfl))).trans h
  case popLink b k v id =>
    refine ⟨h.1.trans (hk.bumps b), fun hv => ?_⟩
    have heq := hpop h.1 hv
    exact (hk.ready b heq).trans (h.2 (hv.trans heq))
  case popSwap b k v id next =>
    refine ⟨h.1.trans (hk.bumps b), fun hv => ?_⟩
    have heq := hpop h.1 hv
    obtain ⟨hready, hnext⟩ := h.2 (hv.trans heq)
    have hid : id ∈ m.served b := (served_of_pop (hr b) hready).1 ▸ List.mem_cons_self
    exact ⟨(hk.ready b heq).trans hready, (hk.next id (hs b id hid)).trans hnext⟩
  case flipTake b k v => exact hflip h (hf b (decide_eq_true rfl))
  case flipLink b k v cursor reversed rest done =>
    obtain ⟨h0, hrest, hdone⟩ := h
    refine ⟨hflip h0 (hf b (decide_eq_true rfl)), hrest.congr fun id hid => ?_,
      hdone.congr fun id hid => ?_⟩
    · exact hk.next id (hd id (List.mem_append_left _ hid))
    · exact hk.next id (hd id (List.mem_append_right _ hid))
  case flipWrite b k v cursor next reversed rest done =>
    obtain ⟨h0, ⟨l, rfl, hl⟩, hc, hdone⟩ := h
    refine ⟨hflip h0 (hf b (decide_eq_true rfl)), ⟨l, rfl, hl.congr fun id hid => ?_⟩, hc,
      hdone.congr fun id hid => ?_⟩
    · exact hk.next id (hd id (List.mem_append_left _ (List.mem_cons_of_mem _ hid)))
    · exact hk.next id (hd id (List.mem_append_right _ hid))
  all_goals trivial

/-! ### What a step leaves to its own thread -/

theorem For.local_empty (k : For) (b : Band) : (k.empty b).Local m := by cases k <;> trivial

theorem For.local_got (k : For) (b : Band) (id : ℕ) : (k.got b id).Local m := by
  cases k <;> trivial

theorem Flip.local_done (k : Flip) (b : Band) (again : Bool) : (k.done b again).Local m := by
  cases k <;> cases again <;> trivial

theorem Step.local_self (h : Step live m pc m' pc')
    (hi : ∀ b, Links m.next (m.incoming b) (m.pushed b)) (hp : pc.Local m) (hn : pc.ids.Nodup) :
    pc'.Local m' := by
  cases h
  case pushLink id b head => exact update_self ..
  case popEmpty b k _ => exact k.local_empty b
  case popLoad b k h => exact ⟨le_rfl, fun _ => (Nat.succ_pred_eq_of_ne_zero h).symm⟩
  case popLink b k v id => exact ⟨hp.1, fun hv => ⟨hp.2 hv, rfl⟩⟩
  case popSlot b k id h => exact k.local_got b id
  case flipBusy b k h => exact k.local_done b true
  case flipReady b k h => exact ⟨h, rfl⟩
  case flipTake b k v _ => exact ⟨hp, hi b, rfl⟩
  case flipLink b k v cursor reversed rest done h =>
    obtain ⟨h0, hrest, hdone⟩ := hp
    exact ⟨h0, hrest.eq_cons h, h, hdone⟩
  case flipWrite b k v cursor next reversed rest done =>
    obtain ⟨h0, ⟨l, rfl, hl⟩, hc, hdone⟩ := hp
    have hnot : cursor - 1 ∉ l ++ done := (List.nodup_cons.mp hn).1
    have hsame (id : ℕ) (hid : id ∈ l ++ done) :
        (m.setNext (cursor - 1) reversed).next id = m.next id :=
      update_of_ne (fun h : id = cursor - 1 => hnot (h ▸ hid)) _ _
    refine ⟨h0, hl.congr fun id hid => hsame id (List.mem_append_left _ hid),
      (Nat.succ_pred_eq_of_ne_zero hc).symm, ?_⟩
    rw [show (m.setNext (cursor - 1) reversed).next (cursor - 1) = reversed from
      update_self ..]
    exact hdone.congr fun id hid => hsame id (List.mem_append_right _ hid)
  case flipLeave b k again => exact k.local_done b again
  all_goals trivial

/-- A stack after its band was given a new head, the others being as they were. -/
theorem links_update {next : ℕ → ℕ} {heads : Band → ℕ} {lists : Band → List ℕ} {b : Band}
    {head : ℕ} {l : List ℕ} (h : ∀ b, Links next (heads b) (lists b)) (hl : Links next head l)
    (b' : Band) :
    Links next (update heads b head b') (update lists b l b') := by
  rcases eq_or_ne b' b with rfl | hne
  · rwa [update_self, update_self]
  · rw [update_of_ne hne, update_of_ne hne]
    exact h b'

/-- **The pushed side after a step.** -/
theorem Step.incoming (h : Step live m pc m' pc')
    (hi : ∀ b, Links m.next (m.incoming b) (m.pushed b)) (hp : pc.Local m)
    (hd : ∀ b, ∀ id ∈ m.pushed b, id ∉ pc.ids) (b : Band) :
    Links m'.next (m'.incoming b) (m'.pushed b) := by
  have hsame (b : Band) : Links m'.next (m.incoming b) (m.pushed b) :=
    (hi b).congr fun id hid => (h.keeps hp).next id (hd b id hid)
  cases h
  case pushWon id b' head h =>
    exact links_update hi (Links.cons (hi b') (hp.trans h.symm)) b
  case flipNone | flipTake => exact links_update hi (show Links m.next 0 [] from rfl) b
  all_goals exact hsame b

/-- **The served side after a step.** A pop that lands on the tag it loaded took the link the first
task has now. -/
theorem Step.ready (h : Step live m pc m' pc')
    (hr : ∀ b, Links m.next (m.ready b) (m.served b)) (hp : pc.Local m)
    (hd : ∀ b, ∀ id ∈ m.served b, id ∉ pc.ids)
    (hstall : ∀ b v, pc.loaded = some (b, v) → m.bumps b < v + 2 ^ tagBits) (b : Band) :
    Links m'.next (m'.ready b) (m'.served b) := by
  have hsame (b : Band) : Links m'.next (m.ready b) (m.served b) :=
    (hr b).congr fun id hid => (h.keeps hp).next id (hd b id hid)
  cases h
  case popWon b' k v id next h =>
    have hv : v = m.bumps b' := eq_of_mod_eq_of_lt hp.1 (hstall b' v rfl) h.1.symm
    refine links_update hr ?_ b
    rw [← (hp.2 hv).2]
    exact (served_of_pop (hr b') h.2).2
  case flipStore b' k v reversed rest done => exact links_update hr hp.2.2 b
  all_goals exact hsame b

theorem For.flips_empty (k : For) (b b' : Band) : (k.empty b).flips b' = false := by
  cases k <;> rfl

theorem For.flips_got (k : For) (b b' : Band) (id : ℕ) : (k.got b id).flips b' = false := by
  cases k <;> rfl

theorem Flip.flips_done (k : Flip) (b b' : Band) (again : Bool) :
    (k.done b again).flips b' = false := by
  cases k <;> cases again <;> rfl

/-- **The locks after a step**: a thread holds the lock of a band from the exchange that sets it to
the store that clears it. -/
theorem Step.flips (h : Step live m pc m' pc') (hf : ∀ b, pc.flips b = true → m.flipping b = true)
    (b : Band) :
    (m'.flipping b).toNat + (pc.flips b).toNat = (m.flipping b).toNat + (pc'.flips b).toNat := by
  cases h
  case popEmpty b' k _ => rw [For.flips_empty]; rfl
  case popSlot b' k id h => rw [For.flips_got]; rfl
  case flipBusy b' k h =>
    rw [Flip.flips_done]
    change (update m.flipping b' true b).toNat + _ = _
    rw [← h, update_eq_self]
    rfl
  case flipLock b' k h =>
    change (update m.flipping b' true b).toNat + 0 =
      (m.flipping b).toNat + (decide (b' = b)).toNat
    rcases eq_or_ne b b' with rfl | hne
    · rw [update_self, h, decide_eq_true rfl]
      rfl
    · rw [update_of_ne hne, decide_eq_false hne.symm]
      rfl
  case flipLeave b' k again =>
    rw [Flip.flips_done]
    change (update m.flipping b' false b).toNat + (decide (b' = b)).toNat =
      (m.flipping b).toNat + 0
    rcases eq_or_ne b b' with rfl | hne
    · rw [update_self, hf b (decide_eq_true rfl), decide_eq_true rfl]
      rfl
    · rw [update_of_ne hne, decide_eq_false hne.symm]
      rfl
  all_goals rfl

end Step

section Run

variable {T : Type*} [Fintype T] {live : ℕ → Bool} {m m' : Mem} {pc' : Pc} {pcs : T → Pc}
  {t u : T}

/-- A task on a stack is in no thread's hands. -/
theorem Inv.not_mem_ids (hi : Inv m pcs) {id : ℕ} (hid : 0 < m.stacked id) :
    id ∉ (pcs t).ids := by
  intro hmem
  have h1 := List.count_pos_iff.mpr hmem
  have h2 := le_total (w := fun pc : Pc => pc.ids.count id) (f := pcs) t
  have h3 := hi.one id
  unfold places at h3
  omega

theorem stacked_of_pushed {b : Band} {id : ℕ} (h : id ∈ m.pushed b) : 0 < m.stacked id := by
  have h1 := List.count_pos_iff.mpr h
  have h2 := le_total (w := fun l : List ℕ => l.count id) (f := m.pushed) b
  unfold Mem.stacked
  omega

theorem stacked_of_served {b : Band} {id : ℕ} (h : id ∈ m.served b) : 0 < m.stacked id := by
  have h1 := List.count_pos_iff.mpr h
  have h2 := le_total (w := fun l : List ℕ => l.count id) (f := m.served) b
  unfold Mem.stacked
  omega

/-- No task is in the hands of two threads. -/
theorem Inv.disjoint (hi : Inv m pcs) (hne : u ≠ t) {id : ℕ} (hid : id ∈ (pcs u).ids) :
    id ∉ (pcs t).ids := by
  intro hmem
  have h1 := List.count_pos_iff.mpr hid
  have h2 := List.count_pos_iff.mpr hmem
  have h3 := add_le_total (w := fun pc : Pc => pc.ids.count id) (f := pcs) hne
  have h4 := hi.one id
  unfold places at h4
  omega

theorem Inv.nodup (hi : Inv m pcs) (t : T) : (pcs t).ids.Nodup := by
  refine List.nodup_iff_count_le_one.mpr fun id => ?_
  have h1 := le_total (w := fun pc : Pc => pc.ids.count id) (f := pcs) t
  have h2 := hi.one id
  unfold places at h2
  omega

/-- A thread that flips a band found its lock set. -/
theorem Inv.flipping_of_flips (hi : Inv m pcs) {b : Band} (h : (pcs t).flips b = true) :
    m.flipping b = true := by
  have hpos : 0 < count (Pc.flips b) pcs := count_pos h
  rw [hi.flips b] at hpos
  by_contra hne
  rw [Bool.eq_false_iff.mpr hne] at hpos
  exact absurd hpos (Nat.lt_irrefl 0)

/-- One thread at a time flips a band. -/
theorem Inv.flips_ne (hi : Inv m pcs) (hne : u ≠ t) {b : Band} (h : (pcs u).flips b = true) :
    (pcs t).flips b = false := by
  refine Bool.eq_false_iff.mpr fun ht => hne (eq_of_count_le_one ?_ h ht)
  rw [hi.flips b]
  exact Bool.toNat_le _

/-- `Injector::new`, before any call. -/
structure Empty (m : Mem) : Prop where
  incoming : ∀ b, m.incoming b = 0
  ready : ∀ b, m.ready b = 0
  flipping : ∀ b, m.flipping b = false
  pushed : ∀ b, m.pushed b = []
  served : ∀ b, m.served b = []
  len : m.len = 0

theorem Empty.places (h : Empty m) (hpcs : ∀ t, pcs t = .idle) (id : ℕ) : places m pcs id = 0 := by
  have hp : total (fun l : List ℕ => l.count id) m.pushed = 0 :=
    total_eq_zero_of_forall fun b => by rw [h.pushed b]; rfl
  have hs : total (fun l : List ℕ => l.count id) m.served = 0 :=
    total_eq_zero_of_forall fun b => by rw [h.served b]; rfl
  have ht : total (fun pc : Pc => pc.ids.count id) pcs = 0 :=
    total_eq_zero_of_forall fun t => by rw [hpcs t]; rfl
  unfold Injector.places Mem.stacked
  omega

theorem Empty.inv (h : Empty m) (hpcs : ∀ t, pcs t = .idle) : Inv m pcs where
  one id := by
    rw [h.places hpcs]
    exact Nat.zero_le 1
  incoming b := by
    rw [h.incoming b, h.pushed b]
    rfl
  ready b := by
    rw [h.ready b, h.served b]
    rfl
  locals t := by
    rw [hpcs t]
    trivial
  flips b := by
    rw [h.flipping b]
    exact count_eq_zero.mpr fun t => by rw [hpcs t]; rfl
  len := by
    have hp : total List.length m.pushed = 0 :=
      total_eq_zero_of_forall fun b => by rw [h.pushed b]; rfl
    have hs : total List.length m.served = 0 :=
      total_eq_zero_of_forall fun b => by rw [h.served b]; rfl
    have ht : total Pc.counted pcs = 0 := total_eq_zero_of_forall fun t => by rw [hpcs t]; rfl
    have := h.len
    unfold Mem.size
    omega

variable [DecidableEq T]

/-- What one step does to the places of a task. -/
theorem places_update (hi : Inv m pcs) (h : Step live m (pcs t) m' pc') (id : ℕ) :
    places m' (update pcs t pc') id + ((pcs t).dropped live).count id =
      places m pcs id := by
  have hw := h.weight_add hi.incoming hi.ready (hi.locals t)
    (w := fun l => l.count id) fun _ _ => List.count_append
  have hu := total_update_add (fun pc : Pc => pc.ids.count id) pcs t pc'
  have hle := le_total (w := fun pc : Pc => pc.ids.count id) (f := pcs) t
  simp only [weight] at hw
  unfold places Mem.stacked
  omega

/-- What a thread that comes to the queue, or goes, does to the places of a task. -/
theorem places_replace (m : Mem) (pcs : T → Pc) (t : T) (pc' : Pc) (id : ℕ) :
    places m (update pcs t pc') id + (pcs t).ids.count id =
      places m pcs id + pc'.ids.count id := by
  have hu := total_update_add (fun pc : Pc => pc.ids.count id) pcs t pc'
  unfold places
  omega

/-- A thread that comes to the queue, or goes, leaves it whole, as long as it brings no task that is
there already. -/
theorem Inv.replace (hi : Inv m pcs)
    (hone : ∀ id, places m pcs id + pc'.ids.count id ≤ (pcs t).ids.count id + 1)
    (hl : pc'.Local m) (hc : pc'.counted = (pcs t).counted)
    (hf : ∀ b, pc'.flips b = (pcs t).flips b) : Inv m (update pcs t pc') where
  one id := by
    have := places_replace m pcs t pc' id
    have := hone id
    omega
  incoming := hi.incoming
  ready := hi.ready
  locals := forall_update hl fun u _ => hi.locals u
  flips b := (count_update_of_eq (hf b)).trans (hi.flips b)
  len := by
    have hu := total_update_add Pc.counted pcs t pc'
    have hlen := hi.len
    rw [hc] at hu
    omega

/-- **The queue stays whole**, as long as no thread stalls across a full turn of the tag between its
load of the served side and its exchange. -/
theorem Inv.step (hi : Inv m pcs) (h : Step live m (pcs t) m' pc')
    (hstall : ∀ b v, (pcs t).loaded = some (b, v) → m.bumps b < v + 2 ^ tagBits) :
    Inv m' (update pcs t pc') where
  one id := (Nat.le_add_right _ _).trans ((places_update hi h id).le.trans (hi.one id))
  incoming := h.incoming hi.incoming (hi.locals t) fun _ _ hid =>
    hi.not_mem_ids (stacked_of_pushed hid)
  ready := h.ready hi.ready (hi.locals t) (fun _ _ hid => hi.not_mem_ids (stacked_of_served hid))
    hstall
  locals := forall_update
    (h.local_self hi.incoming (hi.locals t) (hi.nodup t)) fun u hne =>
      (hi.locals u).frame (h.keeps (hi.locals t)) hi.ready
        (fun _ _ hid => hi.not_mem_ids (stacked_of_served hid)) (fun _ => hi.disjoint hne)
        (fun _ => hi.flips_ne hne)
  flips b := by
    have hs := h.flips (fun b => hi.flipping_of_flips) b
    have hu := count_update (Pc.flips b) pcs t pc'
    rw [hi.flips b] at hu
    omega
  len := by
    have hw := h.weight_add hi.incoming hi.ready (hi.locals t) (w := List.length)
      fun _ _ => List.length_append
    have hl := h.len_add
    have hu := total_update_add Pc.counted pcs t pc'
    have hlen := hi.len
    unfold weight at hw
    unfold Mem.size at hlen ⊢
    omega

end Run

end Atap.Injector
