import Atap.Pool.Shared
import Atap.Pool.Spin

/-!
# A task lost to a tag that came round

The tag of a served side is moved by every pop and by every reversal, so a task that is pushed into
an empty band and popped again moves it on by two, and it comes round in half as many pops as there
are tags. A thread is stopped between its load of the served side and its exchange, holding the head
`0` with `1` behind it. Meanwhile all that was queued is popped and `1` goes through the queue until
the tag is one short of where it was (`reach_spun`). Then `0` is pushed again and `3` behind it, and
the band is reversed. The exchange lands: it takes `0` and puts `1`, which is not queued, at the
head. `3` was pushed and **is linked nowhere** (`pushed_and_lost`), after fewer pops in all than
there are tags.
-/

namespace Atap.Shared

open Function

open Injector (Band Pc For Flip)

section Spin

variable {m : Mem} {id : ℕ}

/-- The thread is in the queue for a push or a pop. -/
def calls (p : Pc) : Prop := p.takes = true ∨ p.pushes = true ∨ p = .isOver

theorem noted_of_calls {p p' : Pc} (h : calls p) : m.noted p p' = m := by
  unfold Mem.noted
  split
  · rcases h with h | h | h <;> cases h
  · rfl

theorem calls_step {q q' : Injector.Mem} {p p' : Pc} (h : calls p)
    (hs : Injector.Step (fun _ => true) q p q' p') : calls p' := by
  rcases h with h | h | rfl
  · exact (takes_step hs h).imp_right .inr
  · exact .inr (.inl (hs.pushes h))
  · cases hs

/-- What a thread does in the queue on its own, for a push or a pop. -/
theorem solo_runs {job : Job} {j : ℕ} {q : Injector.Mem} {p p' : Pc}
    (hp : calls p) (h : Injector.runs (fun _ => true) j m.queue p = some (q, p')) :
    machine.solo (.replicate j .go) m (.busy job p) =
      some ({ m with queue := q }, .busy job p') := by
  induction j generalizing m p with
  | zero =>
    cases h
    rfl
  | succ j ih =>
    obtain ⟨r, hr, h⟩ := Option.bind_eq_some_iff.mp h
    have hnext : machine.next m (.busy job p) .go =
        some ({ m with queue := r.1 }, .busy job r.2) := by
      have := busyStep_go job hr
      rwa [noted_of_calls hp] at this
    rw [List.replicate_succ, Machine.solo, hnext]
    exact ih (calls_step hp (Injector.step_step hr)) h

/-- The highest band is empty, and the task is not queued. -/
@[mk_iff]
structure Spins (m : Mem) (id : ℕ) : Prop where
  ready : m.queue.ready 3 = 0
  flipping : m.queue.flipping 3 = false
  incoming : m.queue.incoming 3 = 0
  next : m.queue.next id = 0
  pushed : m.queue.pushed 3 = []
  served : m.queue.served 3 = []
  marked : m.marked id = false
  home : m.home id = 3

instance (m : Mem) (id : ℕ) : Decidable (Spins m id) :=
  decidable_of_iff' _ (spins_iff m id)

/-- The task is queued. -/
def Mem.submitted (m : Mem) (id : ℕ) : Mem :=
  { m with
    queue := { m.queue with
      len := m.queue.len + 1
      incoming := update m.queue.incoming 3 (id + 1)
      pushed := update m.queue.pushed 3 [id] }
    marked := update m.marked id true
    pushes := update m.pushes id (m.pushes id + 1) }

/-- The task went through the queue `k` times. -/
def Mem.spun (m : Mem) (id k : ℕ) : Mem :=
  { m with
    queue := { m.queue with bumps := update m.queue.bumps 3 (m.queue.bumps 3 + 2 * k) }
    pushes := update m.pushes id (m.pushes id + k)
    pops := update m.pops id (m.pops id + k)
    taken := m.taken + k }

theorem Spins.spun (h : Spins m id) (k : ℕ) : Spins (m.spun id k) id :=
  { h with }

theorem spun_spun (m : Mem) (id j k : ℕ) : (m.spun id j).spun id k = m.spun id (j + k) := by
  simp only [Mem.spun, update_self, update_idem, Nat.mul_add, Nat.add_assoc]

theorem solo_push (h : Spins m id) (r : Option (ℕ × Band)) :
    machine.solo ([.push id 3] ++ (.replicate 4 .go ++ [.go])) m (.ret r) =
      some (m.submitted id, .ret none) := by
  have hstart : machine.solo [.push id 3] m (.ret r) =
      some ({ m with
        marked := update m.marked id true
        pushes := update m.pushes id (m.pushes id + 1)
        home := update m.home id 3 }, .busy .push (.pushCount id 3)) := by
    simp [Machine.solo, machine, callStep, h.marked]
  rw [Machine.solo_append hstart,
    Machine.solo_append (solo_runs (.inr (.inl rfl)) (Injector.runs_push ..))]
  simp [Machine.solo, machine, busyStep, Mem.submitted, update_eq_self_iff, h.next,
    h.incoming, h.pushed, h.home]

theorem solo_pop (h : Spins m id) (r : Option (ℕ × Band)) :
    machine.solo ([.pop none] ++ (.replicate 13 .go ++ [.go])) (m.submitted id) (.ret r) =
      some (m.spun id 1, .ret (some (id, 3))) := by
  have hstart : machine.solo [.pop none] (m.submitted id) (.ret r) =
      some (m.submitted id, .busy (.pop 3 [2, 1, 0]) (.popLoad 3 .take)) := rfl
  have hready : (m.submitted id).queue.ready 3 = 0 := h.ready
  have hin : (m.submitted id).queue.incoming 3 = id + 1 := by
    simp [Mem.submitted]
  rw [Machine.solo_append hstart, Machine.solo_append (solo_runs (.inl rfl) (Injector.runs_take
    rfl hready h.flipping hin h.next h.served))]
  simp [Machine.solo, machine, busyStep, claimStep, Mem.submitted, Mem.spun,
    update_eq_self_iff, h.marked, h.incoming, h.pushed, h.home]

variable {T : Type*} [DecidableEq T] {t : T} {loc : T → Local} {Init : Config T Mem Local → Prop}

/-- **The tag goes round**: one task that is pushed and popped over and over moves it on by two each
time. -/
theorem reach_spun (hs : machine.Reach Init Machine.unguarded ⟨m, loc⟩) (h : Spins m id)
    (ht : loc t = .ret (some (id, 3))) (k : ℕ) :
    machine.Reach Init Machine.unguarded ⟨m.spun id k, loc⟩ := by
  induction k with
  | zero =>
    have hzero : m.spun id 0 = m := by simp [Mem.spun]
    rwa [hzero]
  | succ k ih =>
    have hret : update loc t (.ret (some (id, 3))) = loc :=
      update_eq_self_iff.mpr ht.symm
    rw [← hret] at ih
    have hpop := (ih.solo (solo_push (h.spun k) _)).solo (solo_pop (h.spun k) _)
    rwa [hret, spun_spun] at hpop

end Spin

/-- Three tasks are pushed and turned round; the first thread loads the first of them and its
successor and is stopped; the other pops all three, and the second of them once more. -/
def stalls : List (Fin 2 × Act) :=
  does 1 (.push 0 3) 5 ++ does 1 (.push 1 3) 5 ++ does 1 (.push 2 3) 5 ++ does 1 .refill 27 ++
  does 0 (.pop none) 2 ++ does 1 (.pop none) 6 ++ does 1 (.pop none) 6 ++ does 1 (.pop none) 6 ++
  does 1 (.push 1 3) 5 ++ does 1 (.pop none) 14

/-- The first task is pushed again and one more behind it, they are turned round, and the exchange
lands. -/
def lands : List (Fin 2 × Act) :=
  does 1 (.push 0 3) 5 ++ does 1 (.push 3 3) 5 ++ does 1 .refill 25 ++ .replicate 4 (0, .go)

/-- The last task was pushed and not popped, and no head leads to it. -/
def Pair.lost (s : Pair) : Bool :=
  decide (s.mem.taken < 2 ^ Injector.tagBits) && s.loc 0 == .ret (some (0, 3)) &&
    s.loc 1 == .ret none && s.mem.pushes 3 == 1 && s.mem.pops 3 == 0 &&
    decide (∀ b, s.mem.queue.incoming b = 0 ∧
      s.mem.queue.ready b = if b = 3 then 2 else 0) && s.mem.queue.next 1 == 0

/-- The tag can be brought round, and then a task is lost. -/
def Pair.loses (s : Pair) : Bool :=
  decide (Spins s.mem 1) && s.loc 1 == .ret (some (1, 3)) &&
    (machine.run Machine.unguarded ⟨s.mem.spun 1 32765, s.loc⟩ lands).any Pair.lost

/-- **A task was pushed and is lost**: no operation is in progress, it was not popped, and it is on
no stack. No thread stalled across as many pops as there are tags: there were fewer in all. -/
theorem pushed_and_lost : ∃ s : Pair, machine.Reach Fresh Machine.unguarded s ∧
    s.mem.taken < 2 ^ Injector.tagBits ∧ (∀ t, ∃ r, s.loc t = .ret r) ∧ s.mem.pushes 3 = 1 ∧
    s.mem.pops 3 = 0 ∧ ∀ b, s.mem.queue.incoming b = 0 ∧
      ∃ l, Links s.mem.queue.next (s.mem.queue.ready b) l ∧ 3 ∉ l := by
  obtain ⟨s, hs, h⟩ : ∃ s, machine.Reach Fresh Machine.unguarded s ∧ Pair.loses s = true :=
    (Machine.Reach.init fresh_pair).exists_of_run stalls (by decide +kernel)
  simp only [Pair.loses, Bool.and_eq_true, beq_iff_eq, decide_eq_true_eq] at h
  obtain ⟨⟨hspins, hret⟩, hlands⟩ := h
  obtain ⟨s', hs', h'⟩ := (reach_spun hs hspins hret 32765).exists_of_run
    (p := fun s => Pair.lost s = true) lands (by simpa only [Bool.decide_eq_true] using hlands)
  simp only [Pair.lost, Bool.and_eq_true, beq_iff_eq, decide_eq_true_eq] at h'
  obtain ⟨⟨⟨⟨⟨⟨htaken, h0⟩, h1⟩, hpushes⟩, hpops⟩, hheads⟩, hnext⟩ := h'
  refine ⟨s', hs', htaken, Fin.forall_fin_two.mpr ⟨⟨_, h0⟩, ⟨_, h1⟩⟩, hpushes, hpops,
    fun b => ⟨(hheads b).1, ?_⟩⟩
  rw [(hheads b).2]
  split
  · exact ⟨[1], ⟨rfl, hnext⟩, by decide⟩
  · exact ⟨[], rfl, nofun⟩

end Atap.Shared
