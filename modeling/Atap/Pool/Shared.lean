import Atap.Pool.Injector

/-!
# Everything that is done to the shared queue

The queue with its callers: `push`, `pop`, `pop_from`, `refill` and `promote`, from any number of
threads, one atomic operation at a step. What the callers add to the steps of the queue is the mark
of a task, which `push` sets and `take` claims, and the order in which `pop` and `refill` go through
the bands. A relief pop tries one band before the others; which one, and whether there is relief at
all, is left open.

A task is pushed by whoever has it, so while it is not queued. No slot in the queue is destroyed.

* `Inv`, kept by every step of a run in which no thread stalls across a full turn of a tag.
* `pushed_popped_once`: **every task that was pushed is popped once**, from the band it was pushed
  or promoted to, and `len` is right.

That no thread stalls across as many pops as there are tags is not enough: a reversal moves the tag
as well, so it goes round in half as many pops.

`pushes`, `pops`, `home`, `astray` and `taken` are histories; no step reads them.
-/

namespace Atap.Shared

open Function (update update_of_ne update_self)

open Injector (Band Pc For Flip)

/-- The queue, the marks of the tasks, and what was done so far. -/
structure Mem where
  queue : Injector.Mem
  /-- The task is marked `QUEUED_SHARED`. -/
  marked : ℕ → Bool
  /-- How often the task was pushed. -/
  pushes : ℕ → ℕ
  /-- How often a pop came back with the task. -/
  pops : ℕ → ℕ
  /-- The band the task was last pushed or promoted to. -/
  home : ℕ → Band
  /-- How often a pop of a band came back with a task that belongs to another. -/
  astray : ℕ
  /-- How often a task was taken off a served side, for a pop or a promotion. -/
  taken : ℕ

/-- What a thread is in the queue for. A pop and a refill know the bands they have still to try. -/
inductive Job
  | push
  | pop (b : Band) (rest : List Band)
  | refill (rest : List Band)
  | promote
  deriving DecidableEq

/-- A thread. -/
inductive Local
  /-- Outside the queue, with what its last call came back with, and from which band. -/
  | ret (r : Option (ℕ × Band))
  | busy (job : Job) (p : Pc)
  deriving DecidableEq

/-- Where the thread stands in the steps of the queue. -/
def Local.inner : Local → Pc
  | ret _ => .idle
  | busy _ p => p

inductive Act
  | push (id : ℕ) (b : Band)
  /-- `pop`, with the band that relief prefers. -/
  | pop (relief : Option Band)
  | popFrom (b : Band)
  | refill
  | promote (b : Band)
  | go
  /-- A weak exchange fails for no reason. -/
  | fail
  deriving DecidableEq

def Act.inner : Act → Option Injector.Act
  | go => some .go
  | fail => some .fail
  | _ => none

/-- `for band in (0..PRIORITY_BANDS).rev()`. -/
def highestFirst : List Band := [3, 2, 1, 0]

/-- A pop goes on to the next band. -/
def nextPop : List Band → Local
  | [] => .ret none
  | b :: rest => .busy (.pop b rest) (.popLoad b .take)

/-- A refill goes on to the next band. -/
def nextFlip : List Band → Local
  | [] => .ret none
  | b :: rest => .busy (.refill rest) (.flipLock b .refill)

/-- A call. -/
def callStep (m : Mem) : Act → Option (Mem × Local)
  | .push id b =>
    if m.marked id then none
    else some ({ m with
      marked := update m.marked id true
      pushes := update m.pushes id (m.pushes id + 1)
      home := update m.home id b }, .busy .push (.pushCount id b))
  | .pop relief => some (m, nextPop (relief.toList ++ highestFirst))
  | .popFrom b => some (m, nextPop [b])
  | .refill => some (m, nextFlip highestFirst.reverse)
  | .promote b =>
    some (m, if b.val + 1 < Injector.priorityBands then .busy .promote (.popLoad b .promote)
      else .ret none)
  | _ => none

/-- `take` claims the task it took, and goes on looking if it is not marked. -/
def claimStep (m : Mem) (id : ℕ) (b : Band) (rest : List Band) : Mem × Local :=
  if m.marked id then
    ({ m with
      marked := update m.marked id false
      pops := update m.pops id (m.pops id + 1)
      astray := m.astray + if m.home id = b then 0 else 1
      taken := m.taken + 1 }, .ret (some (id, b)))
  else ({ m with taken := m.taken + 1 }, .busy (.pop b rest) (.popLoad b .take))

/-- What is noted of a step of the queue. -/
def Mem.noted (m : Mem) : Pc → Pc → Mem
  | .promoteSlot _ id, .pushLoad _ b =>
    { m with
      home := update m.home id b
      taken := m.taken + 1 }
  | _, _ => m

/-- A step in the queue, or back out of it. -/
def busyStep (m : Mem) : Job → Pc → Act → Option (Mem × Local)
  | .pop b rest, .took id, .go => some (claimStep m id b rest)
  | .pop _ rest, .isOver, .go => some (m, nextPop rest)
  | .refill rest, .isOver, .go => some (m, nextFlip rest)
  | .promote, .isOver, .go => some (m, .ret none)
  | .push, .pushed _, .go => some (m, .ret none)
  | .promote, .pushed _, .go => some (m, .ret none)
  | job, p, a => a.inner.bind fun a =>
    (Injector.step (fun _ => true) m.queue p a).map fun r =>
      ({ m.noted p r.2 with queue := r.1 }, .busy job r.2)

/-- The queue and its callers as a machine. -/
def machine : Machine Mem Local Act where
  next m
    | .ret _, a => callStep m a
    | .busy job p, a => busyStep m job p a

/-! ### What a step can do -/

/-- The thread has nothing in its hands and relies on nothing. -/
def bare : Pc → Bool
  | .idle | .isOver | .pushed _ | .popLoad .. | .flipLock .. => true
  | _ => false

/-- The thread is about band `b`, if about any. -/
def on (b : Band) : Pc → Prop
  | .pushCount _ b' | .pushLoad _ b' | .pushLink _ b' _ | .pushSwap _ b' _ | .popLoad b' _
  | .popLink b' _ _ _ | .popSwap b' _ _ _ _ | .popSlot b' _ _ | .popRetired b' _
  | .promoteSlot b' _ | .flipLock b' _ | .flipReady b' _ | .flipTake b' _ _
  | .flipLink b' _ _ _ _ _ _ | .flipWrite b' _ _ _ _ _ _ _ | .flipLeave b' _ _ => b' = b
  | _ => True

/-- A thread that pops a band is in `take` for that band. -/
def Local.On (b : Band) : Local → Prop
  | ret _ => True
  | busy job p => on b p ∧ match job with
    | .pop b' _ => b' = b ∧ (p.takes = true ∨ p = .isOver)
    | _ => True

/-- The steps, with those of a thread that has nothing in its hands and goes on to something else as
one kind. -/
inductive Step (m : Mem) : Local → Mem → Local → Prop
  | push (r : Option (ℕ × Band)) (id : ℕ) (b : Band) (h : m.marked id = false) :
      Step m (.ret r)
        { m with
          marked := update m.marked id true
          pushes := update m.pushes id (m.pushes id + 1)
          home := update m.home id b } (.busy .push (.pushCount id b))
  | turn (l l' : Local) (b : Band) (h : bare l.inner = true) (h' : bare l'.inner = true)
      (hon : l'.On b) : Step m l m l'
  | claim (id : ℕ) (b : Band) (rest : List Band) (h : m.marked id = true) :
      Step m (.busy (.pop b rest) (.took id))
        { m with
          marked := update m.marked id false
          pops := update m.pops id (m.pops id + 1)
          astray := m.astray + if m.home id = b then 0 else 1
          taken := m.taken + 1 } (.ret (some (id, b)))
  | missed (id : ℕ) (b : Band) (rest : List Band) (h : m.marked id = false) :
      Step m (.busy (.pop b rest) (.took id)) { m with taken := m.taken + 1 }
        (.busy (.pop b rest) (.popLoad b .take))
  | inner (job : Job) (p p' : Pc) (q : Injector.Mem)
      (h : Injector.Step (fun _ => true) m.queue p q p') :
      Step m (.busy job p) { m.noted p p' with queue := q } (.busy job p')

section Inversion

variable {m m' : Mem} {l l' : Local} {a : Act}

theorem nextPop_turn (bands : List Band) :
    ∃ b, bare (nextPop bands).inner = true ∧ (nextPop bands).On b := by
  cases bands with
  | nil => exact ⟨0, rfl, trivial⟩
  | cons b rest => exact ⟨b, rfl, rfl, rfl, .inl rfl⟩

theorem nextFlip_turn (bands : List Band) :
    ∃ b, bare (nextFlip bands).inner = true ∧ (nextFlip bands).On b := by
  cases bands with
  | nil => exact ⟨0, rfl, trivial⟩
  | cons b rest => exact ⟨b, rfl, rfl, trivial⟩

theorem Step.pop (h : bare l.inner = true) (bands : List Band) : Step m l m (nextPop bands) := by
  obtain ⟨b, hbare, hon⟩ := nextPop_turn bands
  exact .turn l _ b h hbare hon

theorem Step.flip (h : bare l.inner = true) (bands : List Band) : Step m l m (nextFlip bands) := by
  obtain ⟨b, hbare, hon⟩ := nextFlip_turn bands
  exact .turn l _ b h hbare hon

theorem Step.leave (h : bare l.inner = true) : Step m l m (.ret none) :=
  .turn l _ 0 h rfl trivial

theorem callStep_step {r : Option (ℕ × Band)} (h : callStep m a = some (m', l')) :
    Step m (.ret r) m' l' := by
  unfold callStep at h
  split at h
  case h_1 id b => exact yield_unless h fun hm => .push r id b (Bool.eq_false_iff.mpr hm)
  case h_6 => cases h
  case h_2 | h_3 => exact yield h (.pop rfl _)
  case h_4 => exact yield h (.flip rfl _)
  case h_5 b => exact yield_snd h (fun _ => .turn _ _ b rfl rfl ⟨rfl, trivial⟩) fun _ => .leave rfl

theorem busyStep_step {job : Job} {p : Pc} (h : busyStep m job p a = some (m', l')) :
    Step m (.busy job p) m' l' := by
  unfold busyStep at h
  split at h
  case h_7 =>
    obtain ⟨a, -, h⟩ := Option.bind_eq_some_iff.mp h
    obtain ⟨r, hr, h⟩ := Option.map_eq_some_iff.mp h
    obtain ⟨rfl, rfl⟩ := Prod.mk.inj h
    exact .inner _ _ _ _ (Injector.step_step hr)
  case h_1 b rest id =>
    unfold claimStep at h
    split at h <;> obtain ⟨rfl, rfl⟩ := Prod.mk.inj (Option.some.inj h)
    case isTrue hm => exact .claim id b rest hm
    case isFalse hm => exact .missed id b rest (Bool.eq_false_iff.mpr hm)
  all_goals cases h
  case h_2 => exact .pop rfl _
  case h_3 => exact .flip rfl _
  all_goals exact .leave rfl

theorem next_step (h : machine.next m l a = some (m', l')) : Step m l m' l' := by
  cases l with
  | ret r => exact callStep_step h
  | busy job p => exact busyStep_step h

/-- A step of the queue is a step of a call. -/
theorem busyStep_go (job : Job) {p : Pc} {r : Injector.Mem × Pc}
    (h : Injector.step (fun _ => true) m.queue p .go = some r) :
    busyStep m job p .go = some ({ m.noted p r.2 with queue := r.1 }, .busy job r.2) := by
  cases p
  case took | pushed | isOver => simp [Injector.step, Injector.pushStep, Injector.popStep,
    Injector.flipStep] at h
  all_goals simp [busyStep, Act.inner, h]

end Inversion

/-! ### Bands -/

section Bands

variable {q q' : Injector.Mem} {p p' : Pc} {home : ℕ → Band} {b : Band}

theorem bare_ids (h : bare p = true) : p.ids = [] := by cases p <;> first | rfl | cases h

theorem bare_counted (h : bare p = true) : p.counted = 0 := by cases p <;> first | rfl | cases h

theorem bare_flips (h : bare p = true) (b : Band) : p.flips b = false := by
  cases p <;> first | rfl | cases h

theorem bare_local (h : bare p = true) (q : Injector.Mem) : p.Local q := by
  cases p <;> trivial

/-- A task that is promoted goes to the band above. -/
theorem promoteSlot_step {id : ℕ}
    (hs : Injector.Step (fun _ => true) q (.promoteSlot b id) q' p') :
    q' = q ∧ p' = .pushLoad id (Injector.above b) := by
  cases hs
  case promoteSlot => exact ⟨rfl, rfl⟩
  case promoteGone h => cases h

/-- A step stays with its band, but for the promotion of a task. -/
theorem on_step (hs : Injector.Step (fun _ => true) q p q' p') (h : on b p)
    (hp : ∀ b id, p ≠ .promoteSlot b id) : on b p' := by
  cases hs
  case promoteSlot b' id _ => exact absurd rfl (hp b' id)
  case popEmpty b' k _ | popSlot b' k id _ | flipBusy b' k _ =>
    cases k <;> first | exact h | trivial
  case flipLeave b' k again => cases k <;> cases again <;> first | exact h | trivial
  all_goals first | exact h | trivial

/-- `take` goes on until it has a task or knows of none. -/
theorem takes_step (hs : Injector.Step (fun _ => true) q p q' p') (h : p.takes = true) :
    p'.takes = true ∨ p' = .isOver := by
  cases hs
  case popEmpty b' k _ => cases k <;> first | exact .inl rfl | exact .inr rfl
  case popSlot b' k id _ | flipBusy b' k _ => cases k <;> first | exact .inl rfl | cases h
  case flipLeave b' k again =>
    cases k <;> cases again <;> first | exact .inl rfl | exact .inr rfl
  all_goals exact .inl h

/-- Every task on a stack belongs to its band. -/
def Sorted (home : ℕ → Band) (q : Injector.Mem) : Prop :=
  ∀ b, (∀ id ∈ q.pushed b, home id = b) ∧ ∀ id ∈ q.served b, home id = b

theorem sorted_update {f : Band → List ℕ} {l : List ℕ} (hf : ∀ b, ∀ id ∈ f b, home id = b)
    (hl : ∀ id ∈ l, home id = b) (b' : Band) : ∀ id ∈ update f b l b', home id = b' := by
  rcases eq_or_ne b' b with rfl | hne
  · rwa [update_self]
  · rw [update_of_ne hne]
    exact hf b'

/-- **A step leaves every task in its band**: what it puts on a stack, and what it has in its hands
afterwards. -/
theorem sorted_step (hs : Injector.Step (fun _ => true) q p q' p') (hq : Sorted home q)
    (hon : on b p) (hp : ∀ id ∈ p.ids, home id = b) (hl : p.Local q)
    (hr : ∀ b, Links q.next (q.ready b) (q.served b)) :
    Sorted home q' ∧ ∀ id ∈ p'.ids, home id = b := by
  cases hs
  case pushWon id b' head _ =>
    obtain rfl : b' = b := hon
    refine ⟨fun b => ⟨sorted_update (fun b => (hq b).1) (fun x hx => ?_) b, (hq b).2⟩,
      List.forall_mem_nil _⟩
    rcases List.mem_cons.mp hx with rfl | hx
    · exact hp x List.mem_cons_self
    · exact (hq b').1 x hx
  case popWon b' k v id next h =>
    obtain rfl : b' = b := hon
    obtain ⟨hc, -⟩ := Injector.served_of_pop (hr b') h.2
    refine ⟨fun b => ⟨(hq b).1, sorted_update (fun b => (hq b).2) (fun x hx => ?_) b⟩,
      fun x hx => ?_⟩
    · exact (hq b').2 x (List.mem_of_mem_tail hx)
    · rw [List.mem_singleton.mp hx]
      exact (hq b').2 id (hc ▸ List.mem_cons_self)
  case popEmpty b' k _ => exact ⟨hq, by rw [Injector.For.ids_empty]; exact List.forall_mem_nil _⟩
  case popSlot b' k id _ => exact ⟨hq, by rw [Injector.For.ids_got]; exact hp⟩
  case flipBusy b' k _ | flipLeave b' k again =>
    exact ⟨hq, by rw [Injector.Flip.ids_done]; exact List.forall_mem_nil _⟩
  case flipNone b' k v _ =>
    exact ⟨fun b => ⟨sorted_update (fun b => (hq b).1) (List.forall_mem_nil _) b, (hq b).2⟩,
      List.forall_mem_nil _⟩
  case flipTake b' k v _ =>
    obtain rfl : b' = b := hon
    refine ⟨fun b => ⟨sorted_update (fun b => (hq b).1) (List.forall_mem_nil _) b, (hq b).2⟩,
      fun x hx => ?_⟩
    rw [Injector.Pc.ids, List.append_nil] at hx
    exact (hq b').1 x hx
  case flipStore b' k v reversed rest done =>
    obtain rfl : b' = b := hon
    refine ⟨fun b => ⟨(hq b).1, sorted_update (fun b => (hq b).2) (fun x hx => ?_) b⟩,
      List.forall_mem_nil _⟩
    exact hp x (List.mem_append_right rest hx)
  case flipWrite b' k v cursor next reversed rest done =>
    refine ⟨hq, fun x hx => hp x ?_⟩
    obtain ⟨-, ⟨l, rfl, -⟩, -, -⟩ := hl
    simp only [Injector.Pc.ids, List.tail_cons, List.mem_append, List.mem_cons] at hx ⊢
    tauto
  all_goals exact ⟨hq, by first | exact hp | exact List.forall_mem_nil _⟩

end Bands

/-! ### What holds in every interleaving -/

/-- What holds in every interleaving. -/
structure Inv {T : Type*} [Fintype T] (m : Mem) (loc : T → Local) : Prop where
  whole : Injector.Inv m.queue (Local.inner ∘ loc)
  marked : ∀ id, (m.marked id).toNat = Injector.places m.queue (Local.inner ∘ loc) id
  pushes : ∀ id, m.pushes id = m.pops id + Injector.places m.queue (Local.inner ∘ loc) id
  sorted : Sorted m.home m.queue
  homes : ∀ t, ∃ b, (loc t).On b ∧ ∀ id ∈ (loc t).inner.ids, m.home id = b
  astray : m.astray = 0

section Run

variable {T : Type*} [Fintype T] [DecidableEq T] {m m' : Mem} {loc : T → Local} {t : T}
  {l' : Local}

omit [DecidableEq T] in
/-- A task is in no place while it is not marked. -/
theorem Inv.places_eq_zero (hi : Inv m loc) {id : ℕ} (h : m.marked id = false) :
    Injector.places m.queue (Local.inner ∘ loc) id = 0 := by
  rw [← hi.marked id, h]
  rfl

omit [DecidableEq T] in
theorem not_mem_of_places {id : ℕ}
    (h : Injector.places m.queue (Local.inner ∘ loc) id = 0) :
    (∀ b, id ∉ m.queue.pushed b) ∧ (∀ b, id ∉ m.queue.served b) ∧
      ∀ u, id ∉ (loc u).inner.ids := by
  unfold Injector.places at h
  refine ⟨fun b hid => ?_, fun b hid => ?_, fun u hid => ?_⟩
  · have := Injector.stacked_of_pushed hid
    omega
  · have := Injector.stacked_of_served hid
    omega
  · have hle := le_total (w := fun pc : Pc => pc.ids.count id) (f := Local.inner ∘ loc) u
    have := List.count_pos_iff.mpr hid
    simp only [Function.comp_apply] at hle
    omega

theorem count_of_ne {x id : ℕ} (h : x ≠ id) : [id].count x = 0 :=
  List.count_eq_zero.mpr fun hx => h (List.mem_singleton.mp hx)

/-- Writing down where a task belongs that is nowhere else changes nothing for the others. -/
theorem Sorted.update {home : ℕ → Band} {q : Injector.Mem} {id : ℕ} {b : Band}
    (h : Sorted home q) (hp : ∀ b, id ∉ q.pushed b) (hs : ∀ b, id ∉ q.served b) :
    Sorted (Function.update home id b) q := by
  intro b'
  refine ⟨fun x hx => ?_, fun x hx => ?_⟩
  · have hne : x ≠ id := fun he => hp b' (he ▸ hx)
    rw [update_of_ne hne]
    exact (h b').1 x hx
  · have hne : x ≠ id := fun he => hs b' (he ▸ hx)
    rw [update_of_ne hne]
    exact (h b').2 x hx

omit [Fintype T] in
/-- What the other threads have in their hands, and what the thread that takes a step has. -/
theorem homes_update {home home' : ℕ → Band} {b : Band}
    (h : ∀ t, ∃ b, (loc t).On b ∧ ∀ id ∈ (loc t).inner.ids, home id = b)
    (hother : ∀ u, u ≠ t → ∀ id ∈ (loc u).inner.ids, home' id = home id)
    (hon : l'.On b) (hself : ∀ id ∈ l'.inner.ids, home' id = b) :
    ∀ u, ∃ b, (update loc t l' u).On b ∧
      ∀ id ∈ (update loc t l' u).inner.ids, home' id = b := by
  refine forall_update (P := fun l : Local => ∃ b, l.On b ∧ ∀ id ∈ l.inner.ids, home' id = b)
    ⟨b, hon, hself⟩ fun u hne => ?_
  obtain ⟨b', hon', hhome⟩ := h u
  exact ⟨b', hon', fun id hid => (hother u hne id hid).trans (hhome id hid)⟩

/-- A thread goes on from one place where it has nothing in its hands to another. -/
theorem Inv.turn {b : Band} (hi : Inv m loc) (h : bare (loc t).inner = true)
    (h' : bare l'.inner = true) (hon : l'.On b) : Inv m (update loc t l') := by
  have hplaces : ∀ id, Injector.places m.queue (Local.inner ∘ update loc t l') id =
      Injector.places m.queue (Local.inner ∘ loc) id := by
    intro id
    rw [Function.comp_update]
    have hr := Injector.places_replace m.queue (Local.inner ∘ loc) t l'.inner id
    rwa [Function.comp_apply, bare_ids h, bare_ids h'] at hr
  refine ⟨?_, fun id => (hi.marked id).trans (hplaces id).symm, fun id => ?_, hi.sorted, ?_,
    hi.astray⟩
  · rw [Function.comp_update]
    refine hi.whole.replace (fun id => ?_) (bare_local h' _) ?_ fun b => ?_
    · rw [Function.comp_apply, bare_ids h, bare_ids h']
      exact hi.whole.one id
    · rw [Function.comp_apply, bare_counted h, bare_counted h']
    · rw [Function.comp_apply, bare_flips h, bare_flips h']
  · rw [hplaces id]
    exact hi.pushes id
  · refine homes_update hi.homes (fun _ _ _ _ => rfl) hon fun id hid => ?_
    rw [bare_ids h'] at hid
    cases hid

theorem Inv.push {r : Option (ℕ × Band)} {id : ℕ} {b : Band} (hi : Inv m loc)
    (hl : loc t = .ret r) (h : m.marked id = false) :
    Inv { m with
      marked := update m.marked id true
      pushes := update m.pushes id (m.pushes id + 1)
      home := update m.home id b }
      (update loc t (.busy .push (.pushCount id b))) := by
  have hzero := hi.places_eq_zero h
  obtain ⟨hp, hs, hh⟩ := not_mem_of_places hzero
  have hidle : (Local.inner ∘ loc) t = .idle := by rw [Function.comp_apply, hl]; rfl
  have hplaces : ∀ x, Injector.places m.queue
      (Local.inner ∘ update loc t (.busy .push (.pushCount id b))) x =
        Injector.places m.queue (Local.inner ∘ loc) x + [id].count x := by
    intro x
    rw [Function.comp_update]
    have hr := Injector.places_replace m.queue (Local.inner ∘ loc) t (.pushCount id b) x
    rwa [hidle] at hr
  refine ⟨?_, fun x => ?_, fun x => ?_, hi.sorted.update hp hs, ?_, hi.astray⟩
  · rw [Function.comp_update]
    refine hi.whole.replace (fun x => ?_) trivial (by rw [hidle]; rfl) fun b => by rw [hidle]; rfl
    rw [hidle]
    rcases eq_or_ne x id with rfl | hne
    · rw [hzero]
      exact (Nat.zero_add _).trans_le List.count_le_length
    · have hone := hi.whole.one x
      have hnil := count_of_ne hne
      change _ + [id].count x ≤ 0 + 1
      omega
  · rw [hplaces x]
    rcases eq_or_ne x id with rfl | hne
    · simp [hzero]
    · have hnil := count_of_ne hne
      simp only [hnil, Nat.add_zero, ← hi.marked x, update_of_ne hne]
  · rw [hplaces x]
    rcases eq_or_ne x id with rfl | hne
    · have := hi.pushes x
      simp only [update_self, List.count_singleton_self]
      omega
    · have hnil := count_of_ne hne
      rw [hnil, Nat.add_zero]
      simp only [update_of_ne hne]
      exact hi.pushes x
  · refine homes_update hi.homes (fun u _ x hx => ?_) ⟨rfl, trivial⟩ fun x hx => ?_
    · have hne : x ≠ id := fun he => hh u (he ▸ hx)
      exact update_of_ne hne ..
    · rw [List.mem_singleton.mp hx]
      exact update_self ..

theorem Inv.claim {id : ℕ} {b : Band} {rest : List Band} (hi : Inv m loc)
    (hl : loc t = .busy (.pop b rest) (.took id)) (h : m.marked id = true) :
    Inv { m with
      marked := update m.marked id false
      pops := update m.pops id (m.pops id + 1)
      astray := m.astray + if m.home id = b then 0 else 1
      taken := m.taken + 1 }
      (update loc t (.ret (some (id, b)))) := by
  have htook : (Local.inner ∘ loc) t = .took id := by rw [Function.comp_apply, hl]; rfl
  have hplaces : ∀ x, Injector.places m.queue
      (Local.inner ∘ update loc t (.ret (some (id, b)))) x + [id].count x =
        Injector.places m.queue (Local.inner ∘ loc) x := by
    intro x
    rw [Function.comp_update]
    have hr := Injector.places_replace m.queue (Local.inner ∘ loc) t .idle x
    rwa [htook] at hr
  obtain ⟨b', hon, hhome⟩ := hi.homes t
  refine ⟨?_, fun x => ?_, fun x => ?_, hi.sorted, ?_, ?_⟩
  · rw [Function.comp_update]
    refine hi.whole.replace (fun x => ?_) trivial (by rw [htook]; rfl) fun b => by rw [htook]; rfl
    rw [htook]
    exact (hi.whole.one x).trans (Nat.le_add_left _ _)
  · have hx := hplaces x
    have hm := hi.marked x
    rcases eq_or_ne x id with rfl | hne
    · simp only [update_self, List.count_singleton_self, h, Bool.toNat_true,
        Bool.toNat_false] at hm hx ⊢
      omega
    · rw [count_of_ne hne] at hx
      simp only [update_of_ne hne]
      omega
  · have hx := hplaces x
    have hm := hi.pushes x
    rcases eq_or_ne x id with rfl | hne
    · simp only [update_self, List.count_singleton_self] at hm hx ⊢
      omega
    · rw [count_of_ne hne] at hx
      simp only [update_of_ne hne]
      omega
  · exact homes_update (b := b) hi.homes (fun _ _ _ _ => rfl) trivial nofun
  · rw [hl] at hon hhome
    obtain rfl : b = b' := hon.2.1
    rw [hi.astray, if_pos (hhome id List.mem_cons_self)]

/-- What is noted of a step leaves the rest as it is. -/
theorem noted_eq (m : Mem) (p p' : Pc) : (m.noted p p').marked = m.marked ∧
    (m.noted p p').pushes = m.pushes ∧ (m.noted p p').pops = m.pops ∧
    (m.noted p p').astray = m.astray := by
  unfold Mem.noted
  split <;> exact ⟨rfl, rfl, rfl, rfl⟩

theorem noted_home (m : Mem) {p p' : Pc} (hp : ∀ b id, p ≠ .promoteSlot b id) :
    (m.noted p p').home = m.home := by
  unfold Mem.noted
  split
  case h_1 b id _ _ => exact absurd rfl (hp b id)
  all_goals rfl

/-- What a step of the queue does to the places of a task: nothing. -/
theorem places_inner {job : Job} {p p' : Pc} {q : Injector.Mem} (hi : Inv m loc)
    (hl : loc t = .busy job p) (h : Injector.Step (fun _ => true) m.queue p q p') (id : ℕ) :
    Injector.places q (Local.inner ∘ update loc t (.busy job p')) id =
      Injector.places m.queue (Local.inner ∘ loc) id := by
  have hp : (Local.inner ∘ loc) t = p := by rw [Function.comp_apply, hl]; rfl
  rw [Function.comp_update]
  have hu := Injector.places_update hi.whole (hp ▸ h) id
  rwa [Pc.dropped_of_live, List.count_nil, Nat.add_zero] at hu

omit [DecidableEq T] in
/-- A task that is promoted belongs to the band above from then on, and is in no other hands. -/
theorem Inv.promoted {job : Job} {id : ℕ} {b : Band} (hi : Inv m loc) (b' : Band)
    (hl : loc t = .busy job (.promoteSlot b id)) :
    Sorted (update m.home id b') m.queue ∧
      ∀ u, u ≠ t → ∀ x ∈ (loc u).inner.ids, update m.home id b' x = m.home x := by
  have hp : (Local.inner ∘ loc) t = .promoteSlot b id := by rw [Function.comp_apply, hl]; rfl
  have hid : id ∈ ((Local.inner ∘ loc) t).ids := by rw [hp]; exact List.mem_cons_self
  have hstack : ∀ x, 0 < m.queue.stacked x → x ≠ id := by
    rintro x hx rfl
    exact hi.whole.not_mem_ids hx hid
  refine ⟨hi.sorted.update (fun b hx => ?_) fun b hx => ?_, fun u hne x hx => ?_⟩
  · exact hstack id (Injector.stacked_of_pushed hx) rfl
  · exact hstack id (Injector.stacked_of_served hx) rfl
  · refine update_of_ne ?_ ..
    rintro rfl
    exact hi.whole.disjoint hne hx hid

/-- A thread that pops stays in `take` for its band. -/
theorem Local.On.inner {job : Job} {p p' : Pc} {q q' : Injector.Mem} {b : Band}
    (hon : (Local.busy job p).On b) (h : Injector.Step (fun _ => true) q p q' p')
    (hp : ∀ b id, p ≠ .promoteSlot b id) : (Local.busy job p').On b := by
  refine ⟨on_step h hon.1 hp, ?_⟩
  cases job
  case pop b' rest =>
    obtain ⟨hb, htakes | rfl⟩ := hon.2
    · exact ⟨hb, takes_step h htakes⟩
    · cases h
  all_goals trivial

/-- A step in the queue. -/
theorem Inv.inner {job : Job} {p p' : Pc} {q : Injector.Mem} (hi : Inv m loc)
    (hl : loc t = .busy job p) (h : Injector.Step (fun _ => true) m.queue p q p')
    (hstall : ∀ b v, p.loaded = some (b, v) → m.queue.bumps b < v + 2 ^ Injector.tagBits) :
    Inv { m.noted p p' with queue := q } (update loc t (.busy job p')) := by
  have hp : (Local.inner ∘ loc) t = p := by rw [Function.comp_apply, hl]; rfl
  have hplaces := places_inner hi hl h
  obtain ⟨hmarked, hpushes, hpops, hastray⟩ := noted_eq m p p'
  have hwhole : Injector.Inv q (Local.inner ∘ update loc t (.busy job p')) := by
    rw [Function.comp_update]
    exact hi.whole.step (hp.symm ▸ h) (hp.symm ▸ hstall)
  obtain ⟨b, hon, hhome⟩ := hi.homes t
  rw [hl] at hon hhome
  obtain ⟨hsorted, hids⟩ := sorted_step h hi.sorted hon.1 hhome (hp ▸ hi.whole.locals t)
    hi.whole.ready
  suffices hrest : Sorted (m.noted p p').home q ∧ ∀ u, ∃ b,
      (update loc t (.busy job p') u).On b ∧
        ∀ id ∈ (update loc t (.busy job p') u).inner.ids, (m.noted p p').home id = b from
    ⟨hwhole, fun id => by rw [hplaces id, hmarked]; exact hi.marked id,
      fun id => by rw [hplaces id, hpushes, hpops]; exact hi.pushes id, hrest.1, hrest.2,
      hastray.trans hi.astray⟩
  by_cases hpro : ∃ b id, p = .promoteSlot b id
  · obtain ⟨b', id, rfl⟩ := hpro
    obtain ⟨rfl, rfl⟩ := promoteSlot_step h
    obtain ⟨hsorted', hother⟩ := hi.promoted (Injector.above b') hl
    refine ⟨hsorted', homes_update hi.homes hother (b := Injector.above b') ⟨rfl, ?_⟩
      fun x hx => ?_⟩
    · cases job
      case pop => rcases hon.2.2 with htakes | hover <;> contradiction
      all_goals trivial
    · rw [List.mem_singleton.mp hx]
      exact update_self ..
  · have hne : ∀ b id, p ≠ .promoteSlot b id := fun b id he => hpro ⟨b, id, he⟩
    rw [noted_home m hne]
    exact ⟨hsorted, homes_update hi.homes (fun _ _ _ _ => rfl) (hon.inner h hne) hids⟩

/-- **Every step keeps the invariant**, as long as its thread did not stall. -/
theorem Inv.step (hi : Inv m loc) (hs : Step m (loc t) m' l')
    (hstall : ∀ b v, (loc t).inner.loaded = some (b, v) →
      m.queue.bumps b < v + 2 ^ Injector.tagBits) : Inv m' (update loc t l') := by
  generalize hl : loc t = l at hs
  cases hs
  case push r id b h => exact hi.push hl h
  case turn b h h' hon => exact hi.turn (hl ▸ h) h' hon
  case claim id b rest h => exact hi.claim hl h
  case missed id b rest h =>
    obtain ⟨-, -, hhands⟩ := not_mem_of_places (hi.places_eq_zero h)
    refine absurd ?_ (hhands t)
    rw [hl]
    exact List.mem_cons_self
  case inner job p p' q h => exact hi.inner hl h (by rwa [hl] at hstall)

end Run

/-! ### The result -/

section Result

variable {T : Type*}

/-- No thread stalls across a full turn of the tag, between its load of a served side and its
exchange. -/
def NoStall (s : Config T Mem Local) (t : T) (_ : Act) : Prop :=
  ∀ bv ∈ (s.loc t).inner.loaded, s.mem.queue.bumps bv.1 < bv.2 + 2 ^ Injector.tagBits

instance (s : Config T Mem Local) (t : T) (a : Act) : Decidable (NoStall s t a) :=
  inferInstanceAs (Decidable (∀ bv ∈ (s.loc t).inner.loaded, _))

/-- A queue nothing was done to. -/
structure Fresh (s : Config T Mem Local) : Prop where
  queue : Injector.Empty s.mem.queue
  marked : ∀ id, s.mem.marked id = false
  pushes : ∀ id, s.mem.pushes id = 0
  pops : ∀ id, s.mem.pops id = 0
  astray : s.mem.astray = 0
  loc : ∀ t, s.loc t = .ret none

variable [Fintype T]

theorem Fresh.inv {s : Config T Mem Local} (h : Fresh s) : Inv s.mem s.loc := by
  have hidle : ∀ t, (Local.inner ∘ s.loc) t = .idle := fun t => by
    rw [Function.comp_apply, h.loc t]
    rfl
  have hplaces := h.queue.places hidle
  refine ⟨h.queue.inv hidle, fun id => ?_, fun id => ?_, fun b => ?_, fun t => ?_, h.astray⟩
  · rw [hplaces id, h.marked id]
    rfl
  · rw [hplaces id, h.pushes id, h.pops id]
  · rw [h.queue.pushed b, h.queue.served b]
    exact ⟨nofun, nofun⟩
  · rw [h.loc t]
    exact ⟨0, trivial, nofun⟩

/-- The tasks a thread is turning round. -/
def turning : Pc → List ℕ
  | .flipLink _ _ _ _ _ rest done | .flipWrite _ _ _ _ _ _ rest done => rest ++ done
  | _ => []

theorem turning_le_counted (p : Pc) : (turning p).length ≤ p.counted := by
  cases p <;> first | exact Nat.zero_le _ | exact le_rfl

/-- How many tasks are linked, in a band or in a list that is being turned round. -/
def linked (s : Config T Mem Local) : ℕ :=
  s.mem.queue.size + total (fun l : Local => (turning l.inner).length) s.loc

/-- What the queue owes to those who push. -/
structure Conserved (s : Config T Mem Local) : Prop where
  /-- A task was popped as often as it was pushed, or is on its way through the queue, once. -/
  once : ∀ id, s.mem.pushes id =
    s.mem.pops id + Injector.places s.mem.queue (Local.inner ∘ s.loc) id
  one : ∀ id, Injector.places s.mem.queue (Local.inner ∘ s.loc) id ≤ 1
  /-- The tasks of a side are what its head and the links of the slots lead to, and so are those in
  the hands of a flip. -/
  incoming : ∀ b, Links s.mem.queue.next (s.mem.queue.incoming b) (s.mem.queue.pushed b)
  ready : ∀ b, Links s.mem.queue.next (s.mem.queue.ready b) (s.mem.queue.served b)
  hands : ∀ t, (s.loc t).inner.Local s.mem.queue
  /-- No task is in a band but the one it was pushed or promoted to, or was popped from another. -/
  sorted : Sorted s.mem.home s.mem.queue
  astray : s.mem.astray = 0
  /-- `len` is never below the tasks that are linked. -/
  linked : linked s ≤ s.mem.queue.len
  /-- While no operation is in progress, a task that was not popped is linked, and `len` counts the
  tasks that are. -/
  quiet : (∀ t, ∃ r, s.loc t = .ret r) → s.mem.queue.len = s.mem.queue.size ∧
    ∀ id, s.mem.pushes id = s.mem.pops id + s.mem.queue.stacked id

theorem Inv.conserved {s : Config T Mem Local} (hi : Inv s.mem s.loc) : Conserved s where
  once := hi.pushes
  one := hi.whole.one
  incoming := hi.whole.incoming
  ready := hi.whole.ready
  hands := hi.whole.locals
  sorted := hi.sorted
  astray := hi.astray
  linked := by
    have hle : total (fun l : Local => (turning l.inner).length) s.loc ≤
        total Pc.counted (Local.inner ∘ s.loc) :=
      Finset.sum_le_sum fun t _ => turning_le_counted (s.loc t).inner
    have hlen := hi.whole.len
    unfold Shared.linked
    omega
  quiet h := by
    have hidle : ∀ t, (Local.inner ∘ s.loc) t = .idle := fun t => by
      obtain ⟨r, hr⟩ := h t
      rw [Function.comp_apply, hr]
      rfl
    have hcounted : total Pc.counted (Local.inner ∘ s.loc) = 0 :=
      total_eq_zero_of_forall fun t => by rw [hidle t]; rfl
    refine ⟨by rw [hi.whole.len, hcounted]; exact Int.add_zero _, fun id => ?_⟩
    have hhands : total (fun pc : Pc => pc.ids.count id) (Local.inner ∘ s.loc) = 0 :=
      total_eq_zero_of_forall fun t => by rw [hidle t]; rfl
    have := hi.pushes id
    unfold Injector.places at this
    omega

/-- **Every task that was pushed is popped once**, none is lost or moved to another band but by a
promotion, and `len` is right, as long as no thread stalls across a full turn of a tag. -/
theorem pushed_popped_once [DecidableEq T] {s : Config T Mem Local}
    (hs : machine.Reach Fresh NoStall s) : Conserved s := by
  have hi : Inv s.mem s.loc := by
    refine hs.invariant (I := fun s => Inv s.mem s.loc) (fun _ h => h.inv) ?_
    intro s t a m' l' hi hstall hn
    exact hi.step (next_step hn) fun b v hload => hstall (b, v) hload
  exact hi.conserved

end Result

/-- Two threads. -/
abbrev Pair := Config (Fin 2) Mem Local

def pair : Pair where
  mem := ⟨⟨fun _ => 0, fun _ => 0, fun _ => 0, fun _ => 0, fun _ => false, 0, fun _ => [],
    fun _ => []⟩, fun _ => false, fun _ => 0, fun _ => 0, fun _ => 0, 0, 0⟩
  loc _ := .ret none

theorem fresh_pair : Fresh pair :=
  ⟨⟨fun _ => rfl, fun _ => rfl, fun _ => rfl, fun _ => rfl, fun _ => rfl, rfl⟩, fun _ => rfl,
    fun _ => rfl, fun _ => rfl, rfl, fun _ => rfl⟩

/-- A call, and the next `k` steps of it. -/
def does (t : Fin 2) (a : Act) (k : ℕ) : List (Fin 2 × Act) := (t, a) :: .replicate k (t, .go)

/-- One task is promoted, and one pushed into the band above that is popped before it. -/
theorem pushed_popped_once_pair : ∃ s : Pair, machine.Reach Fresh NoStall s ∧
    s.mem.pops 0 = 0 ∧ s.mem.home 0 = 2 ∧ s.mem.pops 1 = 1 ∧ Conserved s := by
  obtain ⟨s, hs, h0, hhome, h1⟩ : ∃ s : Pair, machine.Reach Fresh NoStall s ∧
      s.mem.pops 0 = 0 ∧ s.mem.home 0 = 2 ∧ s.mem.pops 1 = 1 :=
    (Machine.Reach.init fresh_pair).exists_of_run (does 0 (.push 0 1) 5 ++ does 0 (.push 1 3) 5 ++
      does 1 .refill 26 ++ does 0 (.promote 1) 3 ++ does 1 (.pop none) 6 ++
      .replicate 6 (0, .go)) (by decide +kernel)
  exact ⟨s, hs, h0, hhome, h1, pushed_popped_once hs⟩

end Atap.Shared
