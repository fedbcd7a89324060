import Atap.Pool.Shared

/-!
# First in, first out

What the shared queue is for: one queue for each band, in which the oldest task is the first, and a
pop that serves the highest band there is anything in. `Bands` is that queue, `waiting` what the two
stacks of a band stand for: the served side, and the pushed side the other way round.

A thread that has the queue to itself runs a call from its first step to its last, with weak
exchanges that may fail for no reason. `outcome` says at every step in between what the call will
leave behind and come back with, and **no step changes it** (`outcome_step`). So a call does what
`Serves` says, whatever the exchanges do, and comes to an end once they stop failing
(`exists_exec`).

* `first_in_first_out`: any sequence of calls, one after another.
* A promotion takes what is on the served side only, so it moves the oldest task of the band **if a
  refill came right before it**.
-/

namespace Atap.Shared

open Function (update update_eq_self_iff update_of_ne update_self)

open Injector (Band Pc For Flip)

/-! ### The queue as it is meant -/

/-- The tasks of every band, the oldest first. -/
abbrev Bands := Band → List ℕ

namespace Bands

variable (A : Bands)

def push (b : Band) (id : ℕ) : Bands := update A b (A b ++ [id])

def drop (b : Band) : Bands := update A b (A b).tail

/-- The first task of the first band there is anything in. -/
def serve : List Band → Bands × Option (ℕ × Band)
  | [] => (A, none)
  | b :: rest => match A b with
    | [] => serve rest
    | id :: _ => (A.drop b, some (id, b))

/-- The oldest of the tasks that are served goes to the band above. -/
def promote (b : Band) : List ℕ → Bands
  | [] => A
  | id :: _ => (A.drop b).push (Injector.above b) id

end Bands

/-- What a band holds. -/
def waiting (q : Injector.Mem) : Bands := fun b => q.served b ++ (q.pushed b).reverse

/-- The tasks of a band that a thread is turning round, in the order they come out in. -/
def turned (b : Band) : Pc → List ℕ
  | .flipLink b' _ _ _ _ rest done | .flipWrite b' _ _ _ _ _ rest done =>
    if b' = b then rest.reverse ++ done else []
  | _ => []

/-- What a band holds, while a thread turns one round. -/
def content (q : Injector.Mem) (p : Pc) : Bands := fun b => turned b p ++ waiting q b

/-- What a step does to what the bands hold. -/
def after (A : Bands) : Pc → Pc → Bands
  | .pushSwap id b _, .pushed _ => A.push b id
  | .popSwap b _ _ _ _, .popSlot .. => A.drop b
  | _, _ => A

section Content

variable {q q' : Injector.Mem} {p p' : Pc}

theorem content_of_turned (h : ∀ b, turned b p = []) : content q p = waiting q := by
  funext b
  rw [content, h b, List.nil_append]

theorem turned_empty (k : For) (b b' : Band) : turned b' (k.empty b) = [] := by cases k <;> rfl

theorem turned_got (k : For) (b b' : Band) (id : ℕ) : turned b' (k.got b id) = [] := by
  cases k <;> rfl

theorem turned_done (k : Flip) (b b' : Band) (again : Bool) : turned b' (k.done b again) = [] := by
  cases k <;> cases again <;> rfl

/-- **What a step does to the bands**: a push that lands puts its task at the end, a pop that lands
takes the first, and all else leaves them as they are. -/
theorem content_step (hs : Injector.Step (fun _ => true) q p q' p') (hl : p.Local q)
    (hi : ∀ b, Links q.next (q.incoming b) (q.pushed b))
    (hr : ∀ b, Links q.next (q.ready b) (q.served b)) :
    content q' p' = after (content q p) p p' := by
  cases hs
  case pushWon id b head h =>
    funext b'
    change q.served b' ++ (update q.pushed b (id :: q.pushed b) b').reverse =
      update (waiting q) b (waiting q b ++ [id]) b'
    rcases eq_or_ne b' b with rfl | hne
    · rw [update_self, update_self, List.reverse_cons, ← List.append_assoc]
      rfl
    · rw [update_of_ne hne, update_of_ne hne]
      rfl
  case popWon b k v id next h =>
    obtain ⟨hc, -⟩ := Injector.served_of_pop (hr b) h.2
    funext b'
    change update q.served b (q.served b).tail b' ++ (q.pushed b').reverse =
      update (waiting q) b (waiting q b).tail b'
    rcases eq_or_ne b' b with rfl | hne
    · rw [update_self, update_self, waiting, hc]
      rfl
    · rw [update_of_ne hne, update_of_ne hne]
      rfl
  case popEmpty b k _ => exact content_of_turned (turned_empty k b)
  case popSlot b k id _ => exact content_of_turned (turned_got k b · id)
  case flipBusy b k _ => exact content_of_turned (turned_done k b · true)
  case flipLeave b k again => exact content_of_turned (turned_done k b · again)
  case flipNone b k v h =>
    have hpushed : q.pushed b = [] := (h ▸ hi b).eq_nil
    have hupdate : update q.pushed b [] = q.pushed :=
      update_eq_self_iff.mpr hpushed.symm
    change content { q with incoming := _, pushed := update q.pushed b [] } _ = _
    rw [hupdate]
    rfl
  case flipTake b k v h =>
    have hserved : q.served b = [] := (hl.1 ▸ hr b).eq_nil
    funext b'
    change (if b = b' then (q.pushed b).reverse ++ [] else []) ++
      (q.served b' ++ (update q.pushed b [] b').reverse) = waiting q b'
    rcases eq_or_ne b b' with rfl | hne
    · rw [if_pos rfl, update_self, waiting, hserved]
      simp only [List.append_nil, List.reverse_nil, List.nil_append]
    · rw [if_neg hne, update_of_ne hne.symm]
      rfl
  case flipStore b k v reversed rest done =>
    obtain ⟨⟨h0, -⟩, hrest, -⟩ := hl
    have hserved : q.served b = [] := (h0 ▸ hr b).eq_nil
    funext b'
    change update q.served b done b' ++ (q.pushed b').reverse =
      (if b = b' then rest.reverse ++ done else []) ++ (q.served b' ++ (q.pushed b').reverse)
    rcases eq_or_ne b b' with rfl | hne
    · rw [if_pos rfl, update_self, hserved, hrest.eq_nil]
      rfl
    · rw [if_neg hne, update_of_ne hne.symm]
      rfl
  case flipWrite b k v cursor next reversed rest done =>
    obtain ⟨-, ⟨l, rfl, -⟩, -, -⟩ := hl
    funext b'
    change (if b = b' then l.reverse ++ (cursor - 1) :: done else []) ++ waiting q b' =
      (if b = b' then ((cursor - 1) :: l).reverse ++ done else []) ++ waiting q b'
    rw [List.reverse_cons, List.append_assoc]
    rfl
  all_goals rfl

/-- What a thread that has the queue to itself knows besides. -/
def Exact (q : Injector.Mem) : Pc → Prop
  | .pushLink _ b head | .pushSwap _ b head => q.incoming b = head
  | .popLoad b .again => q.ready b ≠ 0
  | .popLink b _ v _ | .popSwap b _ v _ _ => q.bumps b = v
  | .popRetired .. | .promoteRetired => False
  | .flipLink b _ _ _ _ _ _ | .flipWrite b _ _ _ _ _ _ _ => q.pushed b = []
  | .flipLeave b _ again => if again then q.ready b ≠ 0 else waiting q b = []
  | _ => True

theorem exact_step (hs : Injector.Step (fun _ => true) q p q' p')
    (hi : Injector.Inv q fun _ : Unit => p) (he : Exact q p) : Exact q' p' := by
  have hl : p.Local q := hi.locals ()
  cases hs
  case popEmpty b k h =>
    cases k
    case again => exact absurd h he
    all_goals trivial
  case popSlot b k id _ => cases k <;> trivial
  case popLost b k v id next =>
    have hready : q.ready b ≠ 0 := by
      rw [(hl.2 (show q.bumps b = v from he).symm).1]
      exact Nat.succ_ne_zero id
    cases k <;> first | exact hready | trivial
  case popGone h => cases h
  case promoteGone h => cases h
  case flipBusy b k h =>
    -- Nobody else holds the lock.
    have hflips := hi.flips b
    rw [h] at hflips
    cases hflips
  case flipFilled b k h => exact h
  case flipNone b k v h =>
    have hserved : q.served b = [] := (hl.1 ▸ hi.ready b).eq_nil
    change q.served b ++ (update q.pushed b [] b).reverse = []
    rw [hserved, update_self]
    rfl
  case flipTake b k v h => exact update_self ..
  case flipStore b k v reversed rest done =>
    change if decide (reversed ≠ 0) then update q.ready b reversed b ≠ 0 else
      update q.served b done b ++ (q.pushed b).reverse = []
    rw [update_self, update_self]
    split
    case isTrue h => exact of_decide_eq_true h
    case isFalse h =>
      obtain ⟨-, -, hdone⟩ := hl
      have hzero : reversed = 0 := by
        simpa using h
      rw [hzero] at hdone
      rw [hdone.eq_nil, show q.pushed b = [] from he]
      rfl
  case flipLeave b k again =>
    cases k <;> cases again <;> trivial
  all_goals trivial

end Content

/-! ### What a call comes to -/

/-- What a push or a promotion leaves behind. -/
def lifted (q : Injector.Mem) : Pc → Bands
  | .pushCount id b | .pushLoad id b | .pushLink id b _ | .pushSwap id b _ => (waiting q).push b id
  | .popLoad b _ | .popLink b _ _ _ | .popSwap b _ _ _ _ => (waiting q).promote b (q.served b)
  | .popSlot b _ id | .promoteSlot b id => (waiting q).push (Injector.above b) id
  | _ => waiting q

/-- The task a pop has taken off a served side. -/
def popped : Pc → Option ℕ
  | .popSlot _ _ id | .takeCount id | .took id => some id
  | _ => none

/-- What a pop of band `b`, and then of the bands in `rest`, leaves behind and comes back with. -/
def served (q : Injector.Mem) (b : Band) (rest : List Band) (p : Pc) :
    Bands × Option (ℕ × Band) :=
  match popped p with
  | some id => (waiting q, some (id, b))
  | none => (content q p).serve (if p = .isOver then rest else b :: rest)

/-- **What a call leaves behind and comes back with**, from where a thread stands in it. -/
def outcome (q : Injector.Mem) : Local → Bands × Option (ℕ × Band)
  | .ret r => (waiting q, r)
  | .busy (.pop b rest) p => served q b rest p
  | .busy (.refill _) p => (content q p, none)
  | .busy .push p | .busy .promote p => (lifted q p, none)

section Outcome

variable {q q' : Injector.Mem} {p p' : Pc} {b : Band} {rest : List Band}

theorem serve_cons_of_nil {A : Bands} (h : A b = []) (rest : List Band) :
    A.serve (b :: rest) = A.serve rest := by
  rw [Bands.serve, h]

theorem serve_cons_of_cons {A : Bands} {id : ℕ} {l : List ℕ} (h : A b = id :: l) :
    A.serve (b :: rest) = (A.drop b, some (id, b)) := by
  rw [Bands.serve, h]

/-- The thread is looking for a task in a band. -/
def searches : Pc → Bool
  | .popLoad .. | .popLink .. | .popSwap .. | .flipLock .. | .flipReady .. | .flipTake ..
  | .flipLink .. | .flipWrite .. | .flipLeave .. => true
  | _ => false

theorem served_of_searches (h : searches p = true) :
    served q b rest p = (content q p).serve (b :: rest) := by
  cases p <;> first | rfl | cases h

theorem served_eq (h : searches p = true) (h' : searches p' = true)
    (hc : content q' p' = content q p) : served q' b rest p' = served q b rest p := by
  rw [served_of_searches h, served_of_searches h', hc]

/-- **No step of a pop changes what it comes to.** -/
theorem served_step (hs : Injector.Step (fun _ => true) q p q' p') (htakes : p.takes = true)
    (hon : on b p) (hi : Injector.Inv q fun _ : Unit => p) (he : Exact q p) :
    served q' b rest p' = served q b rest p := by
  have hl : p.Local q := hi.locals ()
  have hc := content_step hs hl hi.incoming hi.ready
  cases hs
  case popEmpty b' k h =>
    cases k
    case take => exact served_eq rfl rfl hc
    case again => exact absurd h he
    case promote => cases htakes
  case popWon b' k v id next h =>
    obtain rfl : b' = b := hon
    obtain ⟨hserved, -⟩ := Injector.served_of_pop (hi.ready b') h.2
    have hfirst : content q (.popSwap b' k v id next) b' =
        id :: ((q.served b').tail ++ (q.pushed b').reverse) := by
      change q.served b' ++ (q.pushed b').reverse = _
      rw [hserved]
      rfl
    rw [served_of_searches (p := .popSwap b' k v id next) rfl, serve_cons_of_cons hfirst]
    exact congrArg (·, some (id, b')) hc
  case popSlot b' k id _ =>
    cases k
    case promote => cases htakes
    all_goals rfl
  case popGone h => cases h
  case popRetired => cases he
  case takeCount => rfl
  case flipBusy b' k h =>
    have hflips := hi.flips b'
    rw [h] at hflips
    cases hflips
  case flipLeave b' k again =>
    obtain rfl : b' = b := hon
    obtain rfl : k = .take := of_decide_eq_true htakes
    cases again
    case true => exact served_eq rfl rfl hc
    case false =>
      have hnil : content q (.flipLeave b' .take false) b' = [] := he
      rw [served_of_searches (p := .flipLeave b' .take false) rfl, serve_cons_of_nil hnil]
      exact congrArg (Bands.serve · rest) hc
  all_goals first | exact served_eq rfl rfl hc | cases htakes

/-- The thread is in the queue for a push or a promotion. -/
def lifts : Pc → Bool
  | .pushCount .. | .pushLoad .. | .pushLink .. | .pushSwap .. | .pushed _ | .promoteSlot ..
  | .isOver => true
  | .popLoad _ k | .popLink _ k _ _ | .popSwap _ k _ _ _ | .popSlot _ k _ => k = .promote
  | _ => false

theorem lifts_of_pushes (h : p.pushes = true) : lifts p = true := by
  cases p <;> first | rfl | cases h

/-- No step of a push or a promotion changes what it comes to. -/
theorem lifted_step (hs : Injector.Step (fun _ => true) q p q' p') (hlifts : lifts p = true)
    (hi : Injector.Inv q fun _ : Unit => p) (he : Exact q p) :
    lifted q' p' = lifted q p ∧ lifts p' = true := by
  have hl : p.Local q := hi.locals ()
  have hc := content_step hs hl hi.incoming hi.ready
  cases hs
  case pushWon id b head h =>
    exact ⟨hc, rfl⟩
  case popEmpty b k h =>
    obtain rfl : k = .promote := of_decide_eq_true hlifts
    have hserved : q.served b = [] := (h ▸ hi.ready b).eq_nil
    refine ⟨?_, rfl⟩
    change waiting q = (waiting q).promote b (q.served b)
    rw [hserved]
    rfl
  case popWon b k v id next h =>
    obtain ⟨hserved, -⟩ := Injector.served_of_pop (hi.ready b) h.2
    refine ⟨?_, hlifts⟩
    change (content _ (.popSlot b k id)).push (Injector.above b) id =
      (waiting q).promote b (q.served b)
    rw [hc, hserved]
    rfl
  case popSlot b k id _ =>
    obtain rfl : k = .promote := of_decide_eq_true hlifts
    exact ⟨rfl, rfl⟩
  case popGone h => cases h
  case promoteGone h => cases h
  all_goals first | exact ⟨rfl, hlifts⟩ | exact ⟨rfl, rfl⟩ | cases hlifts

/-- The thread is in the queue for a refill. -/
def refills : Pc → Bool
  | .flipLock _ k | .flipReady _ k | .flipTake _ k _ | .flipLink _ k _ _ _ _ _
  | .flipWrite _ k _ _ _ _ _ _ | .flipLeave _ k _ => k = .refill
  | .isOver => true
  | _ => false

/-- Nor does one of a refill. -/
theorem refilled_step (hs : Injector.Step (fun _ => true) q p q' p') (hp : refills p = true)
    (hi : Injector.Inv q fun _ : Unit => p) :
    content q' p' = content q p ∧ refills p' = true := by
  have hc := content_step hs (hi.locals ()) hi.incoming hi.ready
  cases hs
  case flipBusy b k h | flipLeave b k again =>
    obtain rfl : k = .refill := of_decide_eq_true hp
    exact ⟨hc, rfl⟩
  all_goals first | exact ⟨hc, hp⟩ | cases hp

end Outcome

/-- A thread is where its call can take it. -/
def Fit : Local → Prop
  | .ret _ => True
  | .busy (.pop b _) p => on b p ∧ (p.takes = true ∨ p = .isOver)
  | .busy (.refill _) p => refills p = true
  | .busy .push p => p.pushes = true
  | .busy .promote p => lifts p = true

/-- A thread has the queue to itself. -/
structure Alone (m : Mem) (l : Local) : Prop where
  inv : Inv m fun _ : Unit => l
  exact : Exact m.queue l.inner
  fit : Fit l

section Alone

variable {m m' : Mem} {l l' : Local} {a : Act}

theorem Alone.whole (h : Alone m l) : Injector.Inv m.queue fun _ : Unit => l.inner := h.inv.whole

/-- A thread that is alone never stalls. -/
theorem Alone.inv_step (h : Alone m l) (hs : Step m l m' l') : Inv m' fun _ : Unit => l' := by
  have hu : update (fun _ : Unit => l) () l' = fun _ => l' :=
    funext fun _ => update_self ..
  rw [← hu]
  refine h.inv.step hs fun b v hload => ?_
  have hv : m.queue.bumps b = v := by
    have he := h.exact
    generalize l.inner = p at he hload
    cases p <;> cases hload
    exact he
  have : 0 < 2 ^ Injector.tagBits := Nat.two_pow_pos _
  omega

/-- The claim of a task that was taken is never missed. -/
theorem Alone.marked {b : Band} {rest : List Band} {id : ℕ}
    (h : Alone m (.busy (.pop b rest) (.took id))) : m.marked id = true := by
  by_contra hm
  obtain ⟨-, -, hhands⟩ := not_mem_of_places (h.inv.places_eq_zero (Bool.eq_false_iff.mpr hm))
  exact hhands () List.mem_cons_self

theorem fit_inner {job : Job} {p p' : Pc} {q : Injector.Mem} (h : Alone m (.busy job p))
    (hs : Injector.Step (fun _ => true) m.queue p q p') :
    Fit (.busy job p') ∧ outcome q (.busy job p') = outcome m.queue (.busy job p) := by
  have hfit := h.fit
  cases job with
  | pop b rest =>
    obtain ⟨hon, htakes | rfl⟩ := hfit
    · have hpro : ∀ b id, p ≠ .promoteSlot b id := by
        rintro b id rfl
        cases htakes
      exact ⟨⟨on_step hs hon hpro, takes_step hs htakes⟩, served_step hs htakes hon h.whole h.exact⟩
    · cases hs
  | refill rest =>
    obtain ⟨hc, hp⟩ := refilled_step hs hfit h.whole
    exact ⟨hp, congrArg (·, none) hc⟩
  | push =>
    obtain ⟨hc, -⟩ := lifted_step hs (lifts_of_pushes hfit) h.whole h.exact
    exact ⟨hs.pushes hfit, congrArg (·, none) hc⟩
  | promote =>
    obtain ⟨hc, hp⟩ := lifted_step hs hfit h.whole h.exact
    exact ⟨hp, congrArg (·, none) hc⟩

/-- **No step of a call changes what it comes to.** -/
theorem Alone.step (h : Alone m l) (ha : a = .go ∨ a = .fail)
    (hn : machine.next m l a = some (m', l')) :
    Alone m' l' ∧ outcome m'.queue l' = outcome m.queue l := by
  have hinv := h.inv_step (next_step hn)
  cases l with
  | ret r => rcases ha with rfl | rfl <;> cases hn
  | busy job p =>
    change busyStep m job p a = _ at hn
    unfold busyStep at hn
    split at hn
    case h_1 b rest id =>
      unfold claimStep at hn
      split at hn <;> obtain ⟨rfl, rfl⟩ := Prod.mk.inj (Option.some.inj hn)
      case isTrue => exact ⟨⟨hinv, trivial, trivial⟩, rfl⟩
      case isFalse hm => exact absurd h.marked hm
    case h_2 b rest =>
      cases hn
      cases rest with
      | nil => exact ⟨⟨hinv, trivial, trivial⟩, rfl⟩
      | cons b' rest => exact ⟨⟨hinv, trivial, rfl, .inl rfl⟩, rfl⟩
    case h_3 rest =>
      cases hn
      cases rest with
      | nil => exact ⟨⟨hinv, trivial, trivial⟩, rfl⟩
      | cons b' rest => exact ⟨⟨hinv, trivial, rfl⟩, rfl⟩
    case h_7 =>
      obtain ⟨a, -, hn⟩ := Option.bind_eq_some_iff.mp hn
      obtain ⟨r, hr, hn⟩ := Option.map_eq_some_iff.mp hn
      obtain ⟨rfl, rfl⟩ := Prod.mk.inj hn
      obtain ⟨hfit, hout⟩ := fit_inner h (Injector.step_step hr)
      exact ⟨⟨hinv, exact_step (Injector.step_step hr) h.whole h.exact, hfit⟩, hout⟩
    all_goals
      cases hn
      exact ⟨⟨hinv, trivial, trivial⟩, rfl⟩

/-! ### A call comes to an end -/

/-- At most how many steps of the queue there are to go, if no exchange fails for no reason. -/
def cost (q : Injector.Mem) : Pc → ℕ
  | .pushCount .. => 5
  | .pushLoad .. => 4
  | .pushLink .. => 3
  | .pushSwap .. => 2
  | .popLoad b .take => 15 + 2 * (q.pushed b).length
  | .popLoad _ _ => 9
  | .popLink .. => 8
  | .popSwap .. => 7
  | .popSlot .. => 6
  | .promoteSlot .. => 5
  | .takeCount _ => 3
  | .took _ => 2
  | .flipLock b _ => 14 + 2 * (q.pushed b).length
  | .flipReady b _ => 13 + 2 * (q.pushed b).length
  | .flipTake b _ _ => 12 + 2 * (q.pushed b).length
  | .flipLink _ _ _ _ _ rest _ => 11 + 2 * rest.length
  | .flipWrite _ _ _ _ _ _ rest _ => 10 + 2 * rest.length
  | .flipLeave .. => 10
  | _ => 1

/-- The thread stands between two calls of the queue. -/
def between : Pc → Bool
  | .idle | .pushed _ | .took _ | .isOver => true
  | _ => false

theorem exists_go {q : Injector.Mem} {p : Pc} (hi : Injector.Inv q fun _ : Unit => p)
    (he : Exact q p) (hp : between p = false) :
    ∃ r, Injector.step (fun _ => true) q p .go = some r ∧ cost r.1 r.2 < cost q p := by
  have hl : p.Local q := hi.locals ()
  cases p
  case idle | pushed | took | isOver => cases hp
  case popRetired | promoteRetired => cases he
  case pushSwap id b head =>
    refine ⟨_, congrArg (Option.or · _) (if_pos he), ?_⟩
    simp only [cost, Nat.one_lt_two]
  case popLoad b k =>
    refine ⟨_, rfl, ?_⟩
    split <;> cases k <;> simp only [cost, Injector.For.empty] <;> omega
  case popSwap b k v id next =>
    have hsame : q.sameReady b v (id + 1) := by
      have hv : q.bumps b = v := he
      exact ⟨congrArg (· % _) hv, (hl.2 hv.symm).1⟩
    refine ⟨_, congrArg (Option.or · _) (if_pos hsame), ?_⟩
    simp only [cost, Nat.lt_succ_self]
  case popSlot b k id =>
    refine ⟨_, rfl, ?_⟩
    cases k <;> simp [cost, Injector.For.got]
  case flipLock b k =>
    have hlock : q.flipping b = false := by
      have hflips := hi.flips b
      exact Bool.toNat_eq_zero.mp hflips.symm
    refine ⟨_, rfl, ?_⟩
    simp only [hlock, Bool.false_eq_true, if_false, cost]
    omega
  case flipReady b k | flipTake b k v =>
    refine ⟨_, rfl, ?_⟩
    split <;> simp only [cost] <;> omega
  case flipLink b k v cursor reversed rest done =>
    rcases eq_or_ne cursor 0 with h | h
    · refine ⟨_, if_pos h, ?_⟩
      simp only [cost]
      omega
    · refine ⟨_, if_neg h, ?_⟩
      simp only [cost]
      omega
  case flipWrite b k v cursor next reversed rest done =>
    obtain ⟨-, ⟨l, rfl, -⟩, -, -⟩ := hl
    refine ⟨_, rfl, ?_⟩
    simp only [cost, List.tail_cons, List.length_cons]
    omega
  case flipLeave b k again =>
    refine ⟨_, rfl, ?_⟩
    cases k <;> cases again <;> simp [cost, Injector.Flip.done]
  all_goals
    refine ⟨_, rfl, ?_⟩
    simp [cost]

/-- What a thread has in the bands it has still to go to. -/
def restCost (q : Injector.Mem) : Job → ℕ
  | .pop _ rest | .refill rest => (rest.map fun b => 20 + 2 * (q.pushed b).length).sum
  | _ => 0

def callCost (q : Injector.Mem) : Local → ℕ
  | .ret _ => 0
  | .busy job p => cost q p + restCost q job

/-- A pop or a refill puts nothing on a pushed side. -/
theorem pushed_le {q q' : Injector.Mem} {p p' : Pc}
    (hs : Injector.Step (fun _ => true) q p q' p') (hp : p.pushes = false) (b : Band) :
    (q'.pushed b).length ≤ (q.pushed b).length := by
  have hupdate : ∀ b', (update q.pushed b' [] b).length ≤ (q.pushed b).length := by
    intro b'
    rcases eq_or_ne b b' with rfl | hne
    · rw [update_self]
      exact Nat.zero_le _
    · rw [update_of_ne hne]
  cases hs
  case flipNone b' _ _ _ | flipTake b' _ _ _ => exact hupdate b'
  all_goals first | exact le_rfl | cases hp

theorem restCost_le {job : Job} {p p' : Pc} {q : Injector.Mem} (h : Alone m (.busy job p))
    (hs : Injector.Step (fun _ => true) m.queue p q p') :
    restCost q job ≤ restCost m.queue job := by
  have hsum : ∀ rest : List Band, p.pushes = false →
      (rest.map fun b => 20 + 2 * (q.pushed b).length).sum ≤
        (rest.map fun b => 20 + 2 * (m.queue.pushed b).length).sum := fun rest hp =>
    List.sum_le_sum fun b _ => Nat.add_le_add_left (Nat.mul_le_mul_left 2 (pushed_le hs hp b)) 20
  cases job with
  | pop b rest =>
    refine hsum rest ?_
    obtain ⟨-, htakes | rfl⟩ := h.fit
    · generalize p = p' at htakes
      cases p' <;> first | rfl | cases htakes
    · rfl
  | refill rest =>
    refine hsum rest ?_
    have hp : refills p = true := h.fit
    generalize p = p' at hp
    cases p' <;> first | rfl | cases hp
  | push => exact le_rfl
  | promote => exact le_rfl

/-- **A call goes on**, and gets nearer to its end. -/
theorem Alone.exists_go {job : Job} {p : Pc} (h : Alone m (.busy job p)) :
    ∃ m' l', machine.next m (.busy job p) .go = some (m', l') ∧
      callCost m'.queue l' < callCost m.queue (.busy job p) := by
  by_cases hp : between p = true
  · have hfit := h.fit
    cases p
    case idle =>
      cases job
      case pop => rcases hfit.2 with htakes | hover <;> contradiction
      all_goals cases hfit
    case pushed id =>
      cases job
      case pop => rcases hfit.2 with htakes | hover <;> contradiction
      case refill => cases hfit
      all_goals exact ⟨_, _, rfl, Nat.zero_lt_one⟩
    case took id =>
      cases job
      case pop b rest =>
        refine ⟨_, _, congrArg some (if_pos h.marked), ?_⟩
        exact Nat.lt_of_lt_of_le Nat.zero_lt_two (Nat.le_add_right _ _)
      all_goals cases hfit
    case isOver =>
      cases job
      case pop b rest =>
        cases rest with
        | nil => exact ⟨_, _, rfl, Nat.zero_lt_one⟩
        | cons b' rest =>
          refine ⟨_, _, rfl, ?_⟩
          simp only [nextPop, callCost, cost, restCost, List.map_cons, List.sum_cons]
          omega
      case refill rest =>
        cases rest with
        | nil => exact ⟨_, _, rfl, Nat.zero_lt_one⟩
        | cons b' rest =>
          refine ⟨_, _, rfl, ?_⟩
          simp only [nextFlip, callCost, cost, restCost, List.map_cons, List.sum_cons]
          omega
      case promote => exact ⟨_, _, rfl, Nat.zero_lt_one⟩
      case push => cases hfit
    all_goals cases hp
  · obtain ⟨r, hr, hcost⟩ := Shared.exists_go h.whole h.exact (Bool.eq_false_iff.mpr hp)
    refine ⟨_, _, busyStep_go _ hr, ?_⟩
    exact Nat.add_lt_add_of_lt_of_le hcost (restCost_le h (Injector.step_step hr))

/-! ### Calls -/

/-- A call is run from its first step to its last, and no other thread takes a step. -/
def Exec (m : Mem) (a : Act) (m' : Mem) (r : Option (ℕ × Band)) : Prop :=
  ∃ r₀ cs, (∀ c ∈ cs, c = .go ∨ c = .fail) ∧
    machine.solo (a :: cs) m (.ret r₀) = some (m', .ret r)

theorem Alone.outcome_of_solo {cs : List Act} {r : Option (ℕ × Band)} (h : Alone m l)
    (hcs : ∀ c ∈ cs, c = .go ∨ c = .fail) (hs : machine.solo cs m l = some (m', .ret r)) :
    Alone m' (.ret r) ∧ (waiting m'.queue, r) = outcome m.queue l := by
  induction cs generalizing m l with
  | nil =>
    cases hs
    exact ⟨h, rfl⟩
  | cons c cs ih =>
    obtain ⟨⟨m₁, l₁⟩, hn, hs⟩ := Option.bind_eq_some_iff.mp hs
    obtain ⟨halone, hout⟩ := h.step (hcs c List.mem_cons_self) hn
    rw [← hout]
    exact ih halone (fun c hc => hcs c (List.mem_cons_of_mem _ hc)) hs

theorem Alone.exists_solo (h : Alone m l) :
    ∃ cs m' r, (∀ c ∈ cs, c = Act.go ∨ c = .fail) ∧ machine.solo cs m l = some (m', .ret r) := by
  induction hn : callCost m.queue l using Nat.strong_induction_on generalizing m l with
  | _ n ih =>
    subst hn
    cases l with
    | ret r => exact ⟨[], m, r, nofun, rfl⟩
    | busy job p =>
      obtain ⟨m₁, l₁, hnext, hlt⟩ := h.exists_go
      obtain ⟨cs, m', r, hcs, hs⟩ := ih _ hlt (h.step (.inl rfl) hnext).1 rfl
      refine ⟨.go :: cs, m', r, List.forall_mem_cons.mpr ⟨.inl rfl, hcs⟩, ?_⟩
      rw [Machine.solo, hnext]
      exact hs

/-- What a call leaves behind and comes back with, from what it finds. -/
def result (q : Injector.Mem) : Act → Bands × Option (ℕ × Band)
  | .push id b => ((waiting q).push b id, none)
  | .pop relief => (waiting q).serve (relief.toList ++ highestFirst)
  | .popFrom b => (waiting q).serve [b]
  | .promote b =>
    (if b.val + 1 < Injector.priorityBands then (waiting q).promote b (q.served b) else waiting q,
      none)
  | _ => (waiting q, none)

theorem Alone.ret {r₀ r : Option (ℕ × Band)} (h : Alone m (.ret r₀)) : Alone m (.ret r) where
  inv := { h.inv with homes := fun _ => ⟨0, trivial, nofun⟩ }
  exact := trivial
  fit := trivial

theorem fit_nextPop (bands : List Band) :
    Exact m.queue (nextPop bands).inner ∧ Fit (nextPop bands) ∧
      outcome m.queue (nextPop bands) = (waiting m.queue).serve bands := by
  cases bands with
  | nil => exact ⟨trivial, trivial, rfl⟩
  | cons b rest => exact ⟨trivial, ⟨rfl, .inl rfl⟩, rfl⟩

theorem fit_nextFlip (bands : List Band) :
    Exact m.queue (nextFlip bands).inner ∧ Fit (nextFlip bands) ∧
      outcome m.queue (nextFlip bands) = (waiting m.queue, none) := by
  cases bands with
  | nil => exact ⟨trivial, trivial, rfl⟩
  | cons b rest => exact ⟨trivial, rfl, rfl⟩

/-- The first step of a call. -/
theorem Alone.call {r₀ : Option (ℕ × Band)} (h : Alone m (.ret r₀))
    (hn : machine.next m (.ret r₀) a = some (m', l')) :
    Alone m' l' ∧ outcome m'.queue l' = result m.queue a := by
  have hinv := h.inv_step (next_step hn)
  change callStep m a = _ at hn
  unfold callStep at hn
  split at hn
  case h_1 id b =>
    obtain ⟨-, hn⟩ := Option.ite_none_left_eq_some.mp hn
    cases hn
    exact ⟨⟨hinv, trivial, rfl⟩, rfl⟩
  case h_5 b =>
    split at hn <;> obtain ⟨rfl, rfl⟩ := Prod.mk.inj (Option.some.inj hn)
    case isTrue hb => exact ⟨⟨hinv, trivial, rfl⟩, congrArg (·, none) (if_pos hb).symm⟩
    case isFalse hb => exact ⟨⟨hinv, trivial, trivial⟩, congrArg (·, none) (if_neg hb).symm⟩
  all_goals cases hn
  case h_2 relief =>
    obtain ⟨hexact, hfit, hout⟩ := fit_nextPop (m := m) (relief.toList ++ highestFirst)
    exact ⟨⟨hinv, hexact, hfit⟩, hout⟩
  case h_3 b =>
    obtain ⟨hexact, hfit, hout⟩ := fit_nextPop (m := m) [b]
    exact ⟨⟨hinv, hexact, hfit⟩, hout⟩
  case h_4 =>
    obtain ⟨hexact, hfit, hout⟩ := fit_nextFlip (m := m) highestFirst.reverse
    exact ⟨⟨hinv, hexact, hfit⟩, hout⟩

/-- **A call does what it should**, whatever its exchanges do. -/
theorem Alone.exec {r₀ r : Option (ℕ × Band)} (h : Alone m (.ret r₀)) (he : Exec m a m' r) :
    Alone m' (.ret r) ∧ (waiting m'.queue, r) = result m.queue a := by
  obtain ⟨r₁, cs, hcs, hs⟩ := he
  obtain ⟨⟨m₁, l₁⟩, hn, hs⟩ := Option.bind_eq_some_iff.mp hs
  obtain ⟨halone, hout⟩ := (h.ret (r := r₁)).call hn
  rw [← hout]
  exact halone.outcome_of_solo hcs hs

/-- **A call comes to an end**, if it can begin. -/
theorem Alone.exists_exec {r₀ : Option (ℕ × Band)} (h : Alone m (.ret r₀))
    (ha : (callStep m a).isSome = true) : ∃ m' r, Exec m a m' r := by
  obtain ⟨⟨m₁, l₁⟩, hn⟩ := Option.isSome_iff_exists.mp ha
  obtain ⟨cs, m', r, hcs, hs⟩ := (h.call hn).1.exists_solo
  refine ⟨m', r, r₀, cs, hcs, ?_⟩
  rw [Machine.solo, show machine.next m (.ret r₀) a = _ from hn]
  exact hs

end Alone

/-! ### A refill -/

section Refill

variable {m m' : Mem} {l l' : Local} {q q' : Injector.Mem} {p p' : Pc}

/-- There is something on the served side, if there is anything at all. -/
def Filled (q : Injector.Mem) (b : Band) : Prop := q.served b = [] → waiting q b = []

/-- A refill has been through the bands that it is not at and has not still to go to. -/
def Refilled (q : Injector.Mem) : Local → Prop
  | .ret _ => ∀ b, Filled q b
  | .busy (.refill rest) p => ∀ b, b ∉ rest → (p = .isOver ∨ ¬ on b p) → Filled q b
  | _ => False

/-- A refill touches the band it is at, and no other. -/
theorem band_eq (hs : Injector.Step (fun _ => true) q p q' p') (hp : refills p = true) {b : Band}
    (hon : ¬ on b p) : q'.served b = q.served b ∧ q'.pushed b = q.pushed b := by
  cases hs
  case flipNone b' k v _ | flipTake b' k v _ => exact ⟨rfl, update_of_ne (fun h => hon h.symm) ..⟩
  case flipStore b' k v _ _ _ => exact ⟨update_of_ne (fun h => hon h.symm) .., rfl⟩
  all_goals first | exact ⟨rfl, rfl⟩ | cases hp

theorem filled_step (hs : Injector.Step (fun _ => true) q p q' p') (hp : refills p = true)
    (hi : Injector.Inv q fun _ : Unit => p) (he : Exact q p) {b : Band}
    (hf : ¬ on b p → Filled q b) (hover : p' = .isOver ∨ ¬ on b p') : Filled q' b := by
  by_cases hon : on b p
  · cases hs
    case flipBusy b' k h =>
      have hflips := hi.flips b'
      rw [h] at hflips
      cases hflips
    case flipLeave b' k again =>
      obtain rfl : b' = b := hon
      intro hserved
      change q.served b' = [] at hserved
      cases again
      case false => exact he
      case true =>
        have hready : q.ready b' ≠ 0 := he
        have hlinks := hi.ready b'
        rw [hserved] at hlinks
        exact absurd hlinks hready
    all_goals first | cases hp | exact hover.elim nofun fun hover => absurd hon hover
  · obtain ⟨hserved, hpushed⟩ := band_eq hs hp hon
    have h := hf hon
    unfold Filled waiting at h ⊢
    rwa [hserved, hpushed]

theorem Refilled.step {rest : List Band} (h : Alone m (.busy (.refill rest) p))
    (hr : Refilled m.queue (.busy (.refill rest) p)) {a : Act} (ha : a = .go ∨ a = .fail)
    (hn : machine.next m (.busy (.refill rest) p) a = some (m', l')) : Refilled m'.queue l' := by
  change busyStep m _ p a = _ at hn
  unfold busyStep at hn
  split at hn
  case h_3 heq =>
    obtain rfl := Job.refill.inj heq
    cases hn
    cases rest with
    | nil => exact fun b => hr b List.not_mem_nil (.inl rfl)
    | cons b' rest =>
      intro b hb hover
      refine hr b (fun hmem => ?_) (.inl rfl)
      rcases List.mem_cons.mp hmem with rfl | hmem
      · rcases hover with hover | hover
        · cases hover
        · exact hover rfl
      · exact hb hmem
  case h_7 =>
    obtain ⟨a, -, hn⟩ := Option.bind_eq_some_iff.mp hn
    obtain ⟨r, hs, hn⟩ := Option.map_eq_some_iff.mp hn
    obtain ⟨rfl, rfl⟩ := Prod.mk.inj hn
    intro b hb hover
    exact filled_step (Injector.step_step hs) h.fit h.whole h.exact (fun hon => hr b hb (.inr hon))
      hover
  all_goals contradiction

theorem Refilled.of_solo {cs : List Act} {r : Option (ℕ × Band)} (h : Alone m l)
    (hr : Refilled m.queue l) (hcs : ∀ c ∈ cs, c = .go ∨ c = .fail)
    (hs : machine.solo cs m l = some (m', .ret r)) : ∀ b, Filled m'.queue b := by
  induction cs generalizing m l with
  | nil =>
    cases hs
    exact hr
  | cons c cs ih =>
    obtain ⟨⟨m₁, l₁⟩, hn, hs⟩ := Option.bind_eq_some_iff.mp hs
    have hc := hcs c List.mem_cons_self
    refine ih (h.step hc hn).1 ?_ (fun c hc => hcs c (List.mem_cons_of_mem _ hc)) hs
    cases l with
    | ret => rcases hc with rfl | rfl <;> cases hn
    | busy job p =>
      cases job
      case refill rest => exact hr.step h hc hn
      all_goals cases hr

/-- **After a refill, whatever a band holds can be served.** -/
theorem filled_of_refill {r₀ r : Option (ℕ × Band)} (h : Alone m (.ret r₀))
    (he : Exec m .refill m' r) (b : Band) : Filled m'.queue b := by
  obtain ⟨r₁, cs, hcs, hs⟩ := he
  obtain ⟨⟨m₁, l₁⟩, hn, hs⟩ := Option.bind_eq_some_iff.mp hs
  refine Refilled.of_solo ((h.ret (r := r₁)).call hn).1 ?_ hcs hs b
  cases hn
  intro b hb hover
  -- The first band is the one it is at.
  have hzero : ∀ b : Band, b ∉ ([1, 2, 3] : List Band) → b = 0 := by decide
  obtain rfl := hzero b hb
  exact hover.elim nofun fun hon => absurd rfl hon

end Refill

/-! ### One call after another -/

/-- The calls that are made in any order: all but a promotion, and no relief. -/
def Act.plain : Act → Bool
  | push .. | pop none | popFrom _ | refill => true
  | _ => false

/-- What was called so far, and what it came back with. -/
inductive Ran : List (Act × Option (ℕ × Band)) → Mem → Prop
  | fresh {m : Mem} (h : Fresh (⟨m, fun _ => .ret none⟩ : Config Unit Mem Local)) : Ran [] m
  | call {log : List (Act × Option (ℕ × Band))} {m m' : Mem} {a : Act} {r : Option (ℕ × Band)}
      (h : Ran log m) (ha : a.plain = true) (he : Exec m a m' r) : Ran (log ++ [(a, r)]) m'

/-- The tasks that were pushed into a band, in order. -/
def pushedTo (b : Band) (log : List (Act × Option (ℕ × Band))) : List ℕ :=
  log.filterMap fun e => match e.1 with
    | .push id b' => if b' = b then some id else none
    | _ => none

/-- The tasks that were popped from a band, in order. -/
def poppedFrom (b : Band) (log : List (Act × Option (ℕ × Band))) : List ℕ :=
  log.filterMap fun e => match e.2 with
    | some (id, b') => if b' = b then some id else none
    | none => none

/-- What a call does to the queue as it is meant, and comes back with. -/
def Serves (A : Bands) : Act → Bands → Option (ℕ × Band) → Prop
  | .push id b, A', r => A' = update A b (A b ++ [id]) ∧ r = none
  | .pop _, A', r => ((∀ b, A b = []) ∧ A' = A ∧ r = none) ∨
    ∃ b id l, A b = id :: l ∧ (∀ b', b < b' → A b' = []) ∧ A' = update A b l ∧
      r = some (id, b)
  | .popFrom b, A', r => (A b = [] ∧ A' = A ∧ r = none) ∨
    ∃ id l, A b = id :: l ∧ A' = update A b l ∧ r = some (id, b)
  | .refill, A', r => A' = A ∧ r = none
  | _, _, _ => False

section Serves

variable {A A' : Bands} {r : Option (ℕ × Band)}

/-- What is served is the first of the first band that has any. -/
theorem serve_spec {bands : List Band} (h : A.serve bands = (A', r)) :
    ((∀ b ∈ bands, A b = []) ∧ A' = A ∧ r = none) ∨
      ∃ l₁ b l₂ id l, bands = l₁ ++ b :: l₂ ∧ (∀ b' ∈ l₁, A b' = []) ∧ A b = id :: l ∧
        A' = update A b l ∧ r = some (id, b) := by
  induction bands with
  | nil =>
    obtain ⟨rfl, rfl⟩ := Prod.mk.inj h
    exact .inl ⟨nofun, rfl, rfl⟩
  | cons b rest ih =>
    cases hA : A b with
    | nil =>
      rw [serve_cons_of_nil hA] at h
      obtain ⟨hrest, rfl, rfl⟩ | ⟨l₁, b₀, l₂, id, l, rfl, hl₁, hb₀, rfl, rfl⟩ := ih h
      · exact .inl ⟨List.forall_mem_cons.mpr ⟨hA, hrest⟩, rfl, rfl⟩
      · exact .inr ⟨b :: l₁, b₀, l₂, id, l, rfl, List.forall_mem_cons.mpr ⟨hA, hl₁⟩, hb₀, rfl, rfl⟩
    | cons id l =>
      rw [serve_cons_of_cons hA] at h
      obtain ⟨rfl, rfl⟩ := Prod.mk.inj h
      refine .inr ⟨[], b, rest, id, l, rfl, nofun, hA, ?_, rfl⟩
      rw [Bands.drop, hA]
      rfl

theorem mem_highestFirst : ∀ b : Band, b ∈ highestFirst := by decide

theorem serves_pop (h : A.serve highestFirst = (A', r)) : Serves A (.pop none) A' r := by
  obtain ⟨hall, rfl, rfl⟩ | ⟨l₁, b, l₂, id, l, hbands, hl₁, hb, rfl, rfl⟩ := serve_spec h
  · exact .inl ⟨fun b => hall b (mem_highestFirst b), rfl, rfl⟩
  · refine .inr ⟨b, id, l, hb, fun b' hlt => hl₁ b' ?_, rfl, rfl⟩
    have hsorted : (l₁ ++ b :: l₂).Pairwise (· > ·) := hbands ▸ (by decide)
    have hmem : b' ∈ l₁ ++ b :: l₂ := hbands ▸ mem_highestFirst b'
    rcases List.mem_append.mp hmem with hmem | hmem
    · exact hmem
    · rcases List.mem_cons.mp hmem with rfl | hmem
      · exact absurd hlt (lt_irrefl _)
      · have hgt := List.rel_of_pairwise_cons (List.pairwise_append.mp hsorted).2.1 hmem
        exact absurd hlt hgt.not_gt

theorem serves_popFrom {b : Band} (h : A.serve [b] = (A', r)) : Serves A (.popFrom b) A' r := by
  cases hA : A b with
  | nil =>
    rw [serve_cons_of_nil hA] at h
    obtain ⟨rfl, rfl⟩ := Prod.mk.inj h
    exact .inl ⟨hA, rfl, rfl⟩
  | cons id l =>
    rw [serve_cons_of_cons hA, Bands.drop, hA] at h
    obtain ⟨rfl, rfl⟩ := Prod.mk.inj h
    exact .inr ⟨id, l, hA, rfl, rfl⟩

theorem Alone.serves {m m' : Mem} {a : Act} {r₀ : Option (ℕ × Band)} (h : Alone m (.ret r₀))
    (ha : a.plain = true) (he : Exec m a m' r) :
    Serves (waiting m.queue) a (waiting m'.queue) r := by
  have hres := (h.exec he).2.symm
  cases a
  case push id b | refill => exact Prod.mk.inj hres.symm
  case popFrom b => exact serves_popFrom hres
  case pop relief =>
    cases relief with
    | none => exact serves_pop hres
    | some => cases ha
  all_goals cases ha

/-- What a call puts at the end of a band and takes off its front. -/
theorem Serves.order {a : Act} (h : Serves A a A' r) (b : Band) :
    A b ++ pushedTo b [(a, r)] = poppedFrom b [(a, r)] ++ A' b := by
  cases a
  case push id b' =>
    obtain ⟨rfl, rfl⟩ := h
    rcases eq_or_ne b b' with rfl | hne
    · simp [pushedTo, poppedFrom]
    · simp [pushedTo, poppedFrom, hne, hne.symm]
  case pop relief =>
    obtain ⟨-, rfl, rfl⟩ | ⟨b', id, l, hb, -, rfl, rfl⟩ := h
    · exact List.append_nil _
    · rcases eq_or_ne b b' with rfl | hne
      · simp [pushedTo, poppedFrom, hb]
      · simp [pushedTo, poppedFrom, hne, hne.symm]
  case popFrom b' =>
    obtain ⟨-, rfl, rfl⟩ | ⟨id, l, hb, rfl, rfl⟩ := h
    · exact List.append_nil _
    · rcases eq_or_ne b b' with rfl | hne
      · simp [pushedTo, poppedFrom, hb]
      · simp [pushedTo, poppedFrom, hne, hne.symm]
  case refill =>
    obtain ⟨rfl, rfl⟩ := h
    exact List.append_nil _
  all_goals cases h

end Serves

section Result

variable {log : List (Act × Option (ℕ × Band))} {m : Mem}

theorem Ran.alone (h : Ran log m) : Alone m (.ret none) := by
  induction h with
  | fresh h => exact ⟨h.inv, trivial, trivial⟩
  | call _ _ he ih => exact (ih.exec he).1.ret

/-- **Tasks come out of a band in the order they went in.** -/
theorem Ran.order (h : Ran log m) (b : Band) :
    pushedTo b log = poppedFrom b log ++ waiting m.queue b := by
  induction h with
  | fresh h =>
    change [] = [] ++ waiting _ b
    rw [waiting, h.queue.served b, h.queue.pushed b]
    rfl
  | @call log m m' a r h ha he ih =>
    have hserves := h.alone.serves ha he
    unfold pushedTo poppedFrom at ih ⊢
    rw [List.filterMap_append, List.filterMap_append, ih, List.append_assoc, List.append_assoc]
    exact congrArg _ (hserves.order b)

/-- While no call is in progress, a task is marked if it waits in a band. -/
theorem Alone.marked_iff {r₀ : Option (ℕ × Band)} (h : Alone m (.ret r₀)) (id : ℕ) :
    m.marked id = true ↔ ∃ b, id ∈ waiting m.queue b := by
  have hplaces : (m.marked id).toNat = m.queue.stacked id := h.inv.marked id
  constructor
  · intro hm
    by_contra hnone
    have hnot : ∀ b, id ∉ m.queue.pushed b ∧ id ∉ m.queue.served b := fun b =>
      ⟨fun hid => hnone ⟨b, List.mem_append_right _ (List.mem_reverse.mpr hid)⟩,
        fun hid => hnone ⟨b, List.mem_append_left _ hid⟩⟩
    have hzero : m.queue.stacked id = 0 := by
      unfold Injector.Mem.stacked
      rw [total_eq_zero_of_forall fun b => List.count_eq_zero.mpr (hnot b).1,
        total_eq_zero_of_forall fun b => List.count_eq_zero.mpr (hnot b).2, Nat.add_zero]
    rw [hm, hzero] at hplaces
    cases hplaces
  · rintro ⟨b, hid⟩
    have hpos : 0 < m.queue.stacked id := by
      rcases List.mem_append.mp hid with hid | hid
      · exact Injector.stacked_of_served hid
      · exact Injector.stacked_of_pushed (List.mem_reverse.mp hid)
    by_contra hm
    rw [Bool.eq_false_iff.mpr hm, Bool.toNat_false] at hplaces
    omega

section Bands

variable {A : Bands} {b b' : Band} {id id' : ℕ}

theorem mem_of_push (h : id ∈ A.push b id' b') : id ∈ A b' ∨ id = id' := by
  rcases eq_or_ne b' b with rfl | hne
  · rwa [Bands.push, update_self, List.mem_append, List.mem_singleton] at h
  · rw [Bands.push, update_of_ne hne] at h
    exact .inl h

theorem mem_of_drop (h : id ∈ A.drop b b') : id ∈ A b' := by
  rcases eq_or_ne b' b with rfl | hne
  · rw [Bands.drop, update_self] at h
    exact List.mem_of_mem_tail h
  · rwa [Bands.drop, update_of_ne hne] at h

theorem mem_of_serve {bands : List Band} (h : id ∈ (A.serve bands).1 b) : id ∈ A b := by
  induction bands with
  | nil => exact h
  | cons b₀ rest ih =>
    unfold Bands.serve at h
    split at h
    · exact ih h
    · exact mem_of_drop h

theorem mem_of_promote {l : List ℕ} (hl : ∀ i ∈ l, i ∈ A b) (h : id ∈ A.promote b l b') :
    ∃ b₀, id ∈ A b₀ := by
  cases l with
  | nil => exact ⟨b', h⟩
  | cons id₀ l =>
    obtain h | rfl := mem_of_push h
    · exact ⟨b', mem_of_drop h⟩
    · exact ⟨b, hl id List.mem_cons_self⟩

/-- Nothing gets into the bands but by a push. -/
theorem mem_of_result {q : Injector.Mem} {a : Act} (h : id ∈ (result q a).1 b) :
    (∃ b', id ∈ waiting q b') ∨ ∃ b', a = .push id b' := by
  cases a
  case push id' b' =>
    obtain h | rfl := mem_of_push h
    · exact .inl ⟨b, h⟩
    · exact .inr ⟨b', rfl⟩
  case pop relief | popFrom b' => exact .inl ⟨b, mem_of_serve h⟩
  case promote b' =>
    refine .inl ?_
    change id ∈ (if _ then (waiting q).promote b' (q.served b') else waiting q) b at h
    split at h
    · exact mem_of_promote (fun i hi => List.mem_append_left _ hi) h
    · exact ⟨b, h⟩
  all_goals exact .inl ⟨b, h⟩

end Bands

/-- A call marks no task but the one it pushes. -/
theorem Alone.marked_of_exec {m' : Mem} {a : Act} {r₀ r : Option (ℕ × Band)} {id : ℕ}
    (h : Alone m (.ret r₀)) (he : Exec m a m' r) (hm : m'.marked id = true) :
    m.marked id = true ∨ ∃ b, a = .push id b := by
  obtain ⟨h', hres⟩ := h.exec he
  obtain ⟨b, hid⟩ := (h'.marked_iff id).mp hm
  rw [show waiting m'.queue = _ from congrArg Prod.fst hres] at hid
  exact (mem_of_result hid).imp_left (h.marked_iff id).mpr

theorem Alone.exists_plain {a : Act} {r₀ : Option (ℕ × Band)} (h : Alone m (.ret r₀))
    (ha : a.plain = true) (hpush : ∀ id b, a = .push id b → ∀ b', id ∉ waiting m.queue b') :
    ∃ m' r, Exec m a m' r := by
  refine h.exists_exec ?_
  cases a
  case push id b =>
    have hm : ¬ m.marked id = true := fun hm => by
      obtain ⟨b', hid⟩ := (h.marked_iff id).mp hm
      exact hpush id b rfl b' hid
    rw [callStep, if_neg hm]
    rfl
  all_goals first | rfl | cases ha

/-- The oldest task of a band goes behind all in the band above. -/
def Promotes (A : Bands) (b : Band) (A' : Bands) : Prop :=
  (A b = [] ∧ A' = A) ∨ ∃ id l, A b = id :: l ∧
    A' = update (update A b l) (Injector.above b)
      (A (Injector.above b) ++ [id])

theorem above_ne {b : Band} (hb : b.val + 1 < Injector.priorityBands) : Injector.above b ≠ b := by
  rw [Injector.above, dif_pos hb]
  intro h
  have := congrArg Fin.val h
  simp at this

theorem Alone.promotes {r₀ r₁ r₂ : Option (ℕ × Band)} {b : Band} {m₁ m₂ : Mem}
    (h : Alone m (.ret r₀)) (hb : b.val + 1 < Injector.priorityBands)
    (he₁ : Exec m .refill m₁ r₁) (he₂ : Exec m₁ (.promote b) m₂ r₂) :
    Promotes (waiting m.queue) b (waiting m₂.queue) := by
  obtain ⟨h₁, hw₁⟩ := h.exec he₁
  obtain ⟨h₂, hw₂⟩ := h₁.exec he₂
  have hsame : waiting m₁.queue = waiting m.queue := congrArg Prod.fst hw₁
  have hres : waiting m₂.queue = (waiting m₁.queue).promote b (m₁.queue.served b) :=
    (congrArg Prod.fst hw₂).trans (if_pos hb)
  have hfilled := filled_of_refill h he₁ b
  rw [hres, ← hsame]
  cases hserved : m₁.queue.served b with
  | nil => exact .inl ⟨hfilled hserved, rfl⟩
  | cons id l =>
    have hb' : waiting m₁.queue b = id :: (l ++ (m₁.queue.pushed b).reverse) := by
      rw [waiting, hserved]
      rfl
    refine .inr ⟨id, _, hb', ?_⟩
    rw [Bands.promote, Bands.push, Bands.drop, hb', List.tail_cons,
      update_of_ne (above_ne hb)]

/-- What the queue owes to those who wait in it. -/
structure FirstInFirstOut (log : List (Act × Option (ℕ × Band))) (m : Mem) : Prop where
  /-- What waits in a band is what its stacks link. -/
  linked : ∀ b, Links m.queue.next (m.queue.ready b) (m.queue.served b) ∧
    Links m.queue.next (m.queue.incoming b) (m.queue.pushed b)
  /-- Tasks come out of a band in the order they went in. -/
  order : ∀ b, pushedTo b log = poppedFrom b log ++ waiting m.queue b
  /-- A call does what it should. -/
  calls : ∀ a m' r, a.plain = true → Exec m a m' r →
    Serves (waiting m.queue) a (waiting m'.queue) r
  /-- A call comes to an end; a task is pushed while it does not wait. -/
  ends : ∀ a, a.plain = true → (∀ id b, a = .push id b → ∀ b', id ∉ waiting m.queue b') →
    ∃ m' r, Exec m a m' r
  /-- A promotion right after a refill moves the oldest task of the band, and nothing else. -/
  promotes : ∀ b : Band, b.val + 1 < Injector.priorityBands → ∀ m₁ r₁ m₂ r₂,
    Exec m .refill m₁ r₁ → Exec m₁ (.promote b) m₂ r₂ →
      Promotes (waiting m.queue) b (waiting m₂.queue)
  promoted : ∀ b : Band, ∀ m₁ r₁, Exec m .refill m₁ r₁ → ∃ m₂ r₂, Exec m₁ (.promote b) m₂ r₂

/-- **First in, first out**, after any sequence of calls that are made one after another. -/
theorem first_in_first_out (h : Ran log m) : FirstInFirstOut log m where
  linked b := ⟨h.alone.whole.ready b, h.alone.whole.incoming b⟩
  order := h.order
  calls _ _ _ ha he := h.alone.serves ha he
  ends _ ha hpush := h.alone.exists_plain ha hpush
  promotes _ hb _ _ _ _ he₁ he₂ := h.alone.promotes hb he₁ he₂
  promoted _ _ _ he₁ := (h.alone.exec he₁).1.exists_exec rfl

/-- Calls, with how many steps each takes and what it comes back with, can be run one after
another. -/
def plays : List (Act × ℕ × Option (ℕ × Band)) → Mem → Bool
  | [], _ => true
  | (a, k, r) :: rest, m => a.plain &&
    (machine.solo (a :: .replicate k .go) m (.ret none)).any fun s =>
      s.2 == .ret r && plays rest s.1

theorem Ran.plays {calls : List (Act × ℕ × Option (ℕ × Band))} (h : Ran log m)
    (hp : plays calls m = true) : ∃ m', Ran (log ++ calls.map fun c => (c.1, c.2.2)) m' := by
  induction calls generalizing log m with
  | nil => exact ⟨m, by rwa [List.map_nil, List.append_nil]⟩
  | cons c rest ih =>
    obtain ⟨a, k, r⟩ := c
    obtain ⟨ha, hany⟩ := Bool.and_eq_true_iff.mp hp
    obtain ⟨⟨m₁, l₁⟩, hs, hrest⟩ := (Option.any_eq_true _ _).mp hany
    obtain ⟨hl, hrest⟩ := Bool.and_eq_true_iff.mp hrest
    obtain rfl := beq_iff_eq.mp hl
    have he : Exec m a m₁ r := ⟨none, _, fun c hc => .inl (List.eq_of_mem_replicate hc), hs⟩
    obtain ⟨m', hm'⟩ := ih (h.call ha he) hrest
    exact ⟨m', by rwa [List.append_assoc] at hm'⟩

end Result

/-- Two tasks of one band with one of another between them. -/
def mixed : List (Act × ℕ × Option (ℕ × Band)) :=
  [(.push 0 1, 5, none), (.push 1 3, 5, none), (.push 2 1, 5, none), (.pop none, 14, some (1, 3)),
    (.pop none, 28, some (0, 1)), (.refill, 19, none), (.popFrom 1, 6, some (2, 1))]

/-- They come out band by band, and the two in the order they went in. -/
theorem first_in_first_out_mixed : ∃ m, Ran (mixed.map fun c => (c.1, c.2.2)) m ∧
    FirstInFirstOut (mixed.map fun c => (c.1, c.2.2)) m := by
  have hfresh : Ran [] pair.mem :=
    .fresh ⟨fresh_pair.queue, fresh_pair.marked, fresh_pair.pushes, fresh_pair.pops,
      fresh_pair.astray, fun _ => rfl⟩
  obtain ⟨m, hm⟩ := hfresh.plays (show plays mixed pair.mem = true by decide +kernel)
  exact ⟨m, hm, first_in_first_out hm⟩

end Atap.Shared
