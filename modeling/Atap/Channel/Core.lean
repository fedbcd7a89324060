import Atap.Common
import Mathlib.Algebra.Order.Group.Nat
import Mathlib.Data.List.Basic
import Mathlib.Tactic.SplitIfs

/-!
# Channels and their doorbells

A channel is a queue behind a lock, with two **doorbells** that a waiting end parks on. A bell is a
descriptor, and it rings for as long as there is a byte to read. The code writes a byte or takes all
of them where something changes: the queue was empty or is, it was full or is, the last sender or
receiver went. `Belled` is what comes of it: exactly one byte in the receive bell while a receive
has something to do, exactly one in the send bell of a bounded channel while a send has, and none
otherwise.

Everything between taking the lock and giving it back is one step here. An operation is done through
an end that is open. `Log` keeps next to a channel which values it accepted and which were received.
-/

namespace Atap.Channel

variable {α : Type*}

/-- Why a value could not go in. -/
inductive Refused (α : Type*)
  | closed
  | full (value : α)

/-- What the lock guards. -/
structure State (α : Type*) where
  queue : List α
  capacity : Option ℕ
  senders : ℕ
  receivers : ℕ

/-- A channel, with the bytes its bells hold. -/
structure Core (α : Type*) where
  state : State α
  items : ℕ
  room : ℕ

namespace Core

/-- A byte for `items_bell`. -/
def ringItems (c : Core α) : Core α := { c with items := c.items + 1 }

/-- Every byte of `items_bell` is taken. -/
def drainItems (c : Core α) : Core α := { c with items := 0 }

/-- A byte for `room_bell`. -/
def ringRoom (c : Core α) : Core α := { c with room := c.room + 1 }

/-- Every byte of `room_bell` is taken. -/
def drainRoom (c : Core α) : Core α := { c with room := 0 }

/-- The queue has come to its capacity. -/
def full (c : Core α) : Bool := c.state.capacity == some c.state.queue.length

/-- `Core::open`. -/
def «open» (capacity : Option ℕ) : Core α :=
  let c : Core α := ⟨⟨[], capacity, 1, 1⟩, 0, 0⟩
  if capacity.isSome then c.ringRoom else c

def push (c : Core α) (value : α) : Core α × Except (Refused α) Unit :=
  if c.state.receivers = 0 then (c, .error .closed)
  else if c.state.capacity.any fun capacity => capacity ≤ c.state.queue.length then
    (c, .error (.full value))
  else
    let wasEmpty := c.state.queue.isEmpty
    let c := { c with state := { c.state with queue := c.state.queue ++ [value] } }
    let c := if wasEmpty && 0 < c.state.senders then c.ringItems else c
    let c := if c.full then c.drainRoom else c
    (c, .ok ())

def pop (c : Core α) : Core α × Except RuntimeError α :=
  let wasFull := c.full
  match c.state.queue with
  | [] => (c, .error (if c.state.senders = 0 then .closed else .notReady))
  | value :: queue =>
    let c := { c with state := { c.state with queue := queue } }
    -- Once nothing can send, the bell stays rung.
    let c := if queue.isEmpty && 0 < c.state.senders then c.drainItems else c
    let c := if wasFull then c.ringRoom else c
    (c, .ok value)

def addSender (c : Core α) : Core α :=
  { c with state := { c.state with senders := c.state.senders + 1 } }

def dropSender (c : Core α) : Core α :=
  let c := { c with state := { c.state with senders := c.state.senders - 1 } }
  if c.state.senders = 0 && c.state.queue.isEmpty then c.ringItems else c

def addReceiver (c : Core α) : Core α :=
  { c with state := { c.state with receivers := c.state.receivers + 1 } }

def dropReceiver (c : Core α) : Core α :=
  let c := { c with state := { c.state with receivers := c.state.receivers - 1 } }
  if c.state.receivers = 0 && c.full then c.ringRoom else c

end Core

/-- The channel that a capacity makes, if one is given; a capacity of zero holds one. -/
def make (capacity : Option ℕ) : Core α := Core.open (capacity.map (max · 1))

/-- What a step of a task came to: it is done, or parks on its bell. -/
inductive Step (β : Type*)
  | done (out : Except RuntimeError β)
  | park

/-- **What the bells hold.** -/
structure Belled (c : Core α) : Prop where
  items : c.items = if c.state.queue ≠ [] ∨ c.state.senders = 0 then 1 else 0
  room : ∀ n, c.state.capacity = some n →
    c.room = if c.state.queue.length < n ∨ c.state.receivers = 0 then 1 else 0
  fits : ∀ n, c.state.capacity = some n → c.state.queue.length ≤ n
  pos : ∀ n, c.state.capacity = some n → 0 < n

namespace Core

variable (c : Core α)

theorem full_eq_true : c.full = true ↔ c.state.capacity = some c.state.queue.length := beq_iff_eq

/-- A channel that takes a value has somebody to receive it, and room. -/
theorem push_ok {c' : Core α} {v : α} (h : c.push v = (c', .ok ())) :
    0 < c.state.receivers ∧ (∀ n, c.state.capacity = some n → c.state.queue.length < n) ∧
      c'.state = { c.state with queue := c.state.queue ++ [v] } ∧
      c'.items = (if c.state.queue = [] ∧ 0 < c.state.senders then c.items + 1 else c.items) ∧
      c'.room = if c.state.capacity = some (c.state.queue.length + 1) then 0 else c.room := by
  unfold push at h
  split at h
  · cases h
  split at h
  · cases h
  rename_i hr hcap
  obtain ⟨rfl, -⟩ := Prod.mk.inj h
  refine ⟨Nat.pos_of_ne_zero hr, fun n hn => ?_, ?_⟩
  · rw [hn] at hcap
    simpa using hcap
  · simp only [full, Bool.and_eq_true, List.isEmpty_iff, decide_eq_true_eq, beq_iff_eq]
    split_ifs <;> simp_all [ringItems, drainRoom]

/-- A channel that does not take a value stays as it is. -/
theorem push_error {c' : Core α} {v : α} {e : Refused α} (h : c.push v = (c', .error e)) :
    c' = c := by
  unfold push at h
  split at h
  · exact (Prod.mk.inj h).1.symm
  split at h
  · exact (Prod.mk.inj h).1.symm
  · cases h

theorem pop_ok {c' : Core α} {v : α} (h : c.pop = (c', .ok v)) :
    ∃ l, c.state.queue = v :: l ∧ c'.state = { c.state with queue := l } ∧
      c'.items = (if l = [] ∧ 0 < c.state.senders then 0 else c.items) ∧
      c'.room = if c.state.capacity = some (l.length + 1) then c.room + 1 else c.room := by
  unfold pop at h
  dsimp only at h
  split at h
  · cases h
  rename_i value l hq
  obtain ⟨rfl, hv⟩ := Prod.mk.inj h
  obtain rfl := Except.ok.inj hv
  refine ⟨l, hq, ?_⟩
  simp only [full, hq, Bool.and_eq_true, List.isEmpty_iff, decide_eq_true_eq, beq_iff_eq,
    List.length_cons]
  split_ifs <;> simp_all [ringRoom, drainItems]

theorem pop_error {c' : Core α} {e : RuntimeError} (h : c.pop = (c', .error e)) :
    c' = c ∧ c.state.queue = [] ∧ e = if c.state.senders = 0 then .closed else .notReady := by
  unfold pop at h
  dsimp only at h
  split at h
  case h_1 hq =>
    obtain ⟨rfl, he⟩ := Prod.mk.inj h
    exact ⟨rfl, hq, (Except.error.inj he).symm⟩
  case h_2 => cases h

end Core

namespace Belled

variable {c c' : Core α} {v : α}

theorem make (capacity : Option ℕ) : Belled (Channel.make (α := α) capacity) := by
  rcases capacity with _ | n
  · exact ⟨rfl, nofun, nofun, nofun⟩
  · have hpos : 0 < max n 1 := lt_of_lt_of_le Nat.one_pos (le_max_right ..)
    refine ⟨rfl, fun k hk => ?_, fun k _ => Nat.zero_le k, fun k hk => ?_⟩
    · obtain rfl : max n 1 = k := Option.some.inj hk
      exact (if_pos (.inl hpos)).symm
    · obtain rfl : max n 1 = k := Option.some.inj hk
      exact hpos

/-- The receive bell is rung with the first value, and the send bell drained with the last that
fits. -/
theorem push (h : Belled c) (hp : c.push v = (c', .ok ())) : Belled c' := by
  obtain ⟨hr, hroom, hs, hi, hrm⟩ := c.push_ok hp
  refine ⟨?_, fun n hn => ?_, fun n hn => ?_, fun n hn => ?_⟩
  · rw [if_pos (.inl (by rw [hs]; simp)), hi, h.items]
    by_cases hq : c.state.queue = []
    · rcases Nat.eq_zero_or_pos c.state.senders with h0 | h0
      · simp [hq, h0]
      · simp [hq, h0, h0.ne']
    · simp [hq]
  · rw [hs] at hn
    have hlt := hroom n hn
    rw [hrm, hs, h.room n hn, hn]
    simp only [Option.some.injEq, List.length_append, List.length_singleton, hr.ne', or_false, hlt,
      if_true]
    split_ifs <;> omega
  · rw [hs] at hn ⊢
    have hlt := hroom n hn
    simp only [List.length_append, List.length_singleton]
    omega
  · rw [hs] at hn
    exact h.pos n hn

/-- The receive bell is drained with the last value, unless nobody can send, and the send bell rung
with the first room. -/
theorem pop (h : Belled c) (hr : 0 < c.state.receivers) (hp : c.pop = (c', .ok v)) : Belled c' := by
  obtain ⟨l, hq, hs, hi, hrm⟩ := c.pop_ok hp
  refine ⟨?_, fun n hn => ?_, fun n hn => ?_, fun n hn => ?_⟩
  · have hit : c.items = 1 := by rw [h.items, hq, if_pos (.inl (List.cons_ne_nil _ _))]
    rw [hi, hs, hit]
    by_cases hl : l = []
    · rcases Nat.eq_zero_or_pos c.state.senders with h0 | h0
      · simp [hl, h0]
      · simp [hl, h0, h0.ne']
    · simp [hl]
  · rw [hs] at hn
    have hle := h.fits n hn
    rw [hrm, hs, h.room n hn, hn]
    simp only [hq, Option.some.injEq, List.length_cons, hr.ne', or_false] at hle ⊢
    split_ifs <;> omega
  · rw [hs] at hn ⊢
    have hle := h.fits n hn
    rw [hq] at hle
    exact le_trans (Nat.le_succ _) hle
  · rw [hs] at hn
    exact h.pos n hn

theorem addSender (h : Belled c) (hs : 0 < c.state.senders) : Belled c.addSender := by
  refine ⟨?_, h.room, h.fits, h.pos⟩
  change c.items = if c.state.queue ≠ [] ∨ c.state.senders + 1 = 0 then 1 else 0
  rw [h.items]
  simp [hs.ne']

theorem addReceiver (h : Belled c) (hr : 0 < c.state.receivers) : Belled c.addReceiver := by
  refine ⟨h.items, fun n hn => ?_, h.fits, h.pos⟩
  change c.room = if c.state.queue.length < n ∨ c.state.receivers + 1 = 0 then 1 else 0
  rw [h.room n hn]
  simp [hr.ne']

/-- The last sender rings the bell of an empty channel, whose receives have nothing to wait for. -/
theorem dropSender (h : Belled c) (hs : 0 < c.state.senders) : Belled c.dropSender := by
  have hi := h.items
  unfold Core.dropSender
  dsimp only
  split
  case isTrue hx =>
    simp only [Bool.and_eq_true, decide_eq_true_eq, List.isEmpty_iff] at hx
    refine ⟨?_, h.room, h.fits, h.pos⟩
    change c.items + 1 = if c.state.queue ≠ [] ∨ c.state.senders - 1 = 0 then 1 else 0
    rw [hi, if_neg (by simp [hx.2, hs.ne']), if_pos (.inr hx.1)]
  case isFalse hx =>
    simp only [Bool.and_eq_true, decide_eq_true_eq, List.isEmpty_iff, not_and] at hx
    refine ⟨?_, h.room, h.fits, h.pos⟩
    change c.items = if c.state.queue ≠ [] ∨ c.state.senders - 1 = 0 then 1 else 0
    rw [hi]
    by_cases hq : c.state.queue = []
    · rw [if_neg (by simp [hq, hs.ne']), if_neg]
      rintro (hne | h0)
      · exact hne hq
      · exact hx h0 hq
    · rw [if_pos (.inl hq), if_pos (.inl hq)]

/-- The last receiver rings the bell of a full channel, whose sends have nothing to wait for. -/
theorem dropReceiver (h : Belled c) (hr : 0 < c.state.receivers) : Belled c.dropReceiver := by
  unfold Core.dropReceiver
  dsimp only
  split
  case isTrue hx =>
    simp only [Bool.and_eq_true, decide_eq_true_eq, Core.full_eq_true] at hx
    refine ⟨h.items, fun n hn => ?_, h.fits, h.pos⟩
    change c.room + 1 = if c.state.queue.length < n ∨ c.state.receivers - 1 = 0 then 1 else 0
    have hlen : c.state.queue.length = n := Option.some.inj (hx.2.symm.trans hn)
    rw [h.room n hn, if_neg (by rw [hlen]; simp [hr.ne']), if_pos (.inr hx.1)]
  case isFalse hx =>
    simp only [Bool.and_eq_true, decide_eq_true_eq, Core.full_eq_true, not_and] at hx
    refine ⟨h.items, fun n hn => ?_, h.fits, h.pos⟩
    change c.room = if c.state.queue.length < n ∨ c.state.receivers - 1 = 0 then 1 else 0
    have hn' : c.state.capacity = some n := hn
    have hle := h.fits n hn'
    rw [h.room n hn']
    by_cases hlt : c.state.queue.length < n
    · rw [if_pos (.inl hlt), if_pos (.inl hlt)]
    · have hlen : c.state.queue.length = n := by omega
      rw [if_neg (by simp [hlt, hr.ne']), if_neg]
      rintro (hlt' | h0)
      · exact hlt hlt'
      · exact hx h0 (by rw [hn', hlen])

end Belled

/-! ### Whole runs -/

/-- A channel, with the values it accepted and the values that were received, in order. -/
structure Log (α : Type*) where
  core : Core α
  accepted : List α
  received : List α

/-- What is done with a channel, through one of its open ends. -/
inductive Op (α : Type*)
  | push (value : α)
  | pop
  | cloneSender
  | dropSender
  | cloneReceiver
  | dropReceiver

namespace Log

variable {s s' : Log α} {o : Op α} {ops : List (Op α)} {k : Option ℕ}

/-- A channel just opened. -/
def new (capacity : Option ℕ) : Log α := ⟨make capacity, [], []⟩

/-- One operation, if there is an end to do it through. -/
def op (s : Log α) : Op α → Option (Log α)
  | .push value =>
    if 0 < s.core.state.senders then
      match s.core.push value with
      | (c, .ok ()) => some { s with core := c, accepted := s.accepted ++ [value] }
      | (c, .error _) => some { s with core := c }
    else none
  | .pop =>
    if 0 < s.core.state.receivers then
      match s.core.pop with
      | (c, .ok value) => some { s with core := c, received := s.received ++ [value] }
      | (c, .error _) => some { s with core := c }
    else none
  | .cloneSender =>
    if 0 < s.core.state.senders then some { s with core := s.core.addSender } else none
  | .dropSender =>
    if 0 < s.core.state.senders then some { s with core := s.core.dropSender } else none
  | .cloneReceiver =>
    if 0 < s.core.state.receivers then some { s with core := s.core.addReceiver } else none
  | .dropReceiver =>
    if 0 < s.core.state.receivers then some { s with core := s.core.dropReceiver } else none

/-- One operation after the other. -/
def run (s : Log α) (ops : List (Op α)) : Option (Log α) := ops.foldlM op s

/-- The bells are right, and what was accepted is what was received and then what is queued. -/
structure Sound (capacity : Option ℕ) (s : Log α) : Prop where
  capacity : s.core.state.capacity = capacity
  belled : Belled s.core
  order : s.received ++ s.core.state.queue = s.accepted

theorem state_dropSender (c : Core α) :
    c.dropSender.state = { c.state with senders := c.state.senders - 1 } := by
  unfold Core.dropSender
  dsimp only
  split <;> rfl

theorem state_dropReceiver (c : Core α) :
    c.dropReceiver.state = { c.state with receivers := c.state.receivers - 1 } := by
  unfold Core.dropReceiver
  dsimp only
  split <;> rfl

/-- **Every operation keeps the bells and the order.** -/
theorem Sound.op (h : Sound k s) (ho : s.op o = some s') : Sound k s' := by
  obtain ⟨hc, hb, hord⟩ := h
  cases o with
  | push value =>
    obtain ⟨-, ho⟩ := Option.ite_none_right_eq_some.mp ho
    rcases hp : s.core.push value with ⟨c, e | ⟨⟩⟩
    · rw [hp] at ho
      obtain rfl := Option.some.inj ho
      obtain rfl := s.core.push_error hp
      exact ⟨hc, hb, hord⟩
    · rw [hp] at ho
      obtain rfl := Option.some.inj ho
      obtain ⟨-, -, hs, -⟩ := s.core.push_ok hp
      refine ⟨by rw [hs]; exact hc, hb.push hp, ?_⟩
      rw [hs, ← List.append_assoc, hord]
  | pop =>
    obtain ⟨hr, ho⟩ := Option.ite_none_right_eq_some.mp ho
    rcases hp : s.core.pop with ⟨c, e | value⟩
    · rw [hp] at ho
      obtain rfl := Option.some.inj ho
      obtain ⟨rfl, -⟩ := s.core.pop_error hp
      exact ⟨hc, hb, hord⟩
    · rw [hp] at ho
      obtain rfl := Option.some.inj ho
      obtain ⟨l, hq, hs, -⟩ := s.core.pop_ok hp
      refine ⟨by rw [hs]; exact hc, hb.pop hr hp, ?_⟩
      rw [hs, ← hord, hq, List.append_assoc, List.singleton_append]
  | cloneSender =>
    obtain ⟨hs, ho⟩ := Option.ite_none_right_eq_some.mp ho
    obtain rfl := Option.some.inj ho
    exact ⟨hc, hb.addSender hs, hord⟩
  | dropSender =>
    obtain ⟨hs, ho⟩ := Option.ite_none_right_eq_some.mp ho
    obtain rfl := Option.some.inj ho
    refine ⟨?_, hb.dropSender hs, ?_⟩
    · rw [state_dropSender]; exact hc
    · rw [state_dropSender]; exact hord
  | cloneReceiver =>
    obtain ⟨hr, ho⟩ := Option.ite_none_right_eq_some.mp ho
    obtain rfl := Option.some.inj ho
    exact ⟨hc, hb.addReceiver hr, hord⟩
  | dropReceiver =>
    obtain ⟨hr, ho⟩ := Option.ite_none_right_eq_some.mp ho
    obtain rfl := Option.some.inj ho
    refine ⟨?_, hb.dropReceiver hr, ?_⟩
    · rw [state_dropReceiver]; exact hc
    · rw [state_dropReceiver]; exact hord

theorem Sound.run (h : Sound k s) (hr : s.run ops = some s') : Sound k s' := by
  induction ops generalizing s with
  | nil =>
    obtain rfl : s = s' := Option.some.inj hr
    exact h
  | cons o ops ih =>
    rw [Log.run, List.foldlM_cons] at hr
    obtain ⟨s₁, h1, h2⟩ := Option.bind_eq_some_iff.mp hr
    exact ih (h.op h1) h2

end Log

end Atap.Channel
