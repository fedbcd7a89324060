import Atap.Common
import Mathlib.Data.List.Basic
import Mathlib.Data.Nat.Notation
import Mathlib.Algebra.Order.Ring.Nat

/-!
# The manager wakes and starts workers

One pass of `balance` and `grow` over a pool in which nobody changes anything meanwhile. `balance`
counts what it takes to be spare, the shared queue and of every worker's own tasks all but one, and
wakes that many parked workers. `grow` starts workers, but not while some worker that is not in a
run has nothing of its own.

The one task that `balance` leaves to its worker is the one the worker **is about to run**. A worker
inside a run is not about to run any: all of its tasks are for others to take (`Pool.stranded`), and
one of them is not counted. So a parked worker may be left asleep (`nobody_woken`), and `grow` does
not help, as it takes the parked worker for free.

* `wakeUp_snd`: `balance` wakes exactly as many as it has counted, or all there are.
* `stranded_add_slack`: the tasks that `balance` misses are one for each worker inside a run that
  has any; they are made up for by idle workers that find something in the shared queue, and by
  workers that are in no run and have more than one task.
* `woken_eq_spare`: with less counted than there are parked workers, just as many are woken as were
  counted, and nobody is started.
* `enough_woken`: when as many are woken or started as there are tasks that only another worker can
  take, or all that are parked.
-/

namespace Atap.Manager

/-- `MAX_WORKERS`. -/
def maxWorkers : ℕ := 4096

/-- `THREAD_RESERVE`. -/
def threadReserve : ℕ := 256

/-- `OVERLOAD_RATIO`. -/
def overloadRatio : ℕ := 64

/-- What the machine and the program's settings leave the pool. -/
structure Limits where
  cores : ℕ
  /-- `tuning::workers_per_core`. -/
  perCore : ℕ
  /-- `thread_budget`. -/
  budget : ℕ

namespace Limits

variable (lim : Limits)

/-- The most threads the pool will ever run. -/
def ceiling : ℕ := min (max (lim.budget - threadReserve) lim.cores) maxWorkers

/-- Workers the pool settles around under load. -/
def target : ℕ := min (lim.cores * lim.perCore) lim.ceiling

end Limits

/-- A `Worker`, as far as the manager looks. -/
structure Worker where
  state : WorkerState
  /-- How many tasks are in the ring. -/
  ring : ℕ
  /-- There is a task in the LIFO slot. -/
  lifo : Bool
  completed : ℕ
  watched : ℕ
  /-- The waits on other tasks the worker is inside. -/
  waits : ℕ
  /-- What the kernel says to `waiting_in_kernel`. -/
  inKernel : Bool
  /-- The worker is inside a run; of one that was asked to stop the state does not tell. -/
  held : Bool
  deriving DecidableEq

namespace Worker

variable (w : Worker)

def backlog : ℕ := w.ring + w.lifo.toNat

def moved : Bool := w.watched != w.completed

def blockedInACall : Bool := w.waits == 0 && w.inKernel

/-- The worker is inside a run. -/
def inRun : Bool := w.state == .running || (w.state == .stopping && w.held)

end Worker

/-- A `WorkerPool`. -/
structure Pool where
  /-- The slots of all workers, whether there is a thread behind them or not. -/
  workers : List Worker
  /-- One past the highest slot that was ever used. -/
  highest : ℕ
  /-- `Injector::len`. -/
  queued : ℕ
  parked : ℕ
  live : ℕ
  /-- The ticks of overload so far. -/
  overloaded : ℕ
  starving : Bool
  stopped : Bool
  deriving DecidableEq

namespace Pool

variable (p : Pool)

/-- The slots below `highest`. -/
def used : List Worker := p.workers.take p.highest

/-! ### `balance` -/

/-- What `balance` takes to be spare. -/
def spare : ℕ :=
  p.queued + ((p.used.filter (·.state.alive)).map fun w => w.backlog - 1).sum

end Pool

/-- Wakes parked workers, as many as there is spare work for; and how many those are. -/
def wakeUp : ℕ → List Worker → List Worker × ℕ
  | _, [] => ([], 0)
  | 0, ws => (ws, 0)
  | spare + 1, w :: ws =>
    if w.state = .parked then
      ({ w with state := .idle } :: (wakeUp spare ws).1, (wakeUp spare ws).2 + 1)
    else (w :: (wakeUp (spare + 1) ws).1, (wakeUp (spare + 1) ws).2)

/-- `WorkerPool::balance`, with how many workers it wakes. -/
def Pool.balance (p : Pool) : Pool × ℕ :=
  if p.parked = 0 then (p, 0)
  else
    ({ p with workers := (wakeUp p.spare p.used).1 ++ p.workers.drop p.highest },
      (wakeUp p.spare p.used).2)

/-! ### `grow` -/

/-- The search of `start_one` for a slot, from the slot at `index` on, with what the kernel will
answer to the next spawns: whether a thread was started, and the answers that are left. -/
def startFrom (limit : ℕ) : List Worker → ℕ → ℕ → ℕ → ℕ → List Bool →
    (List Worker × ℕ × ℕ) × Bool × List Bool
  | [], _, highest, _, live, spawns => (([], highest, live), false, spawns)
  | w :: ws, index, highest, claimed, live, spawns =>
    if index < max (highest + 1) claimed ∧ live < limit then
      if w.state = .empty then
        match spawns with
        | true :: spawns =>
          (({ w with state := .starting } :: ws, max highest (index + 1), live + 1), true, spawns)
        -- the slot is emptied again, and the place given back
        | spawns =>
          let r := startFrom limit ws (index + 1) (max highest (index + 1)) claimed live spawns.tail
          ((w :: r.1.1, r.1.2), r.2)
      else
        let r := startFrom limit ws (index + 1) highest (index + 2) live spawns
        ((w :: r.1.1, r.1.2), r.2)
    else ((w :: ws, highest, live), false, spawns)

/-- `WorkerPool::start_one`, to grow. -/
def Pool.startOne (lim : Limits) (p : Pool) (spawns : List Bool) : Pool × Bool × List Bool :=
  if p.stopped ∨ lim.ceiling ≤ p.live then (p, false, spawns)
  else
    let r := startFrom lim.ceiling p.workers 0 p.highest 0 p.live spawns
    ({ p with workers := r.1.1, highest := r.1.2.1, live := r.1.2.2 }, r.2)

/-- Starts up to so many, and stops at one that does not start; how many did. -/
def Pool.startMany (lim : Limits) : ℕ → Pool → List Bool → Pool × ℕ
  | 0, p, _ => (p, 0)
  | n + 1, p, spawns =>
    match p.startOne lim spawns with
    | (p, false, _) => (p, 0)
    | (p, true, spawns) => ((startMany lim n p spawns).1, (startMany lim n p spawns).2 + 1)

/-- `earned`: the ticks afterwards, and whether a thread was. -/
def earned (ticks : ℕ) (overloaded : Bool) (past : ℕ) : ℕ × Bool :=
  if !overloaded then (0, false)
  else if ticks + 1 < past + 2 then (ticks + 1, false)
  else (0, true)

/-- What `grow` finds out about the workers. -/
structure Seen where
  pending : ℕ
  stuck : Bool
  allStuck : Bool
  idle : Bool
  stranded : Bool
  /-- How many of the stuck workers are blocked in a call. -/
  blocked : ℕ
  deriving DecidableEq

/-- `grow` looks at one worker. -/
def Seen.look (s : Seen) (w : Worker) : Seen :=
  if w.state.alive then
    { pending := s.pending + w.backlog
      stuck := s.stuck || (w.state.busy && !w.moved)
      allStuck := s.allStuck && (w.state.busy && !w.moved)
      idle := s.idle || (w.state.available && w.backlog == 0)
      stranded := s.stranded || (w.state.busy && !w.moved && decide (0 < w.backlog))
      blocked := s.blocked + (w.state.busy && !w.moved && w.blockedInACall).toNat }
  else s

/-- What `grow` finds out about all workers. -/
def Pool.seen (p : Pool) : Seen := p.used.foldl Seen.look ⟨p.queued, false, true, false, false, 0⟩

/-- `moved` records that the manager has looked. -/
def Worker.looked (w : Worker) : Worker :=
  if w.state.alive then { w with watched := w.completed } else w

/-- `WorkerPool::grow`, with how many workers it starts. -/
def Pool.grow (lim : Limits) (spawns : List Bool) (p : Pool) : Pool × ℕ :=
  if lim.ceiling ≤ p.live then (p, 0)
  else
    let s := p.seen
    let p₁ := { p with workers := p.used.map Worker.looked ++ p.workers.drop p.highest }
    if s.pending = 0 ∨ s.idle ∨ !s.stuck then ({ p₁ with overloaded := 0 }, 0)
    else
      let running := p.live - s.blocked
      if 0 < s.blocked ∧ running < lim.target then
        let e := earned p.overloaded true 0
        let p₂ := { p₁ with overloaded := e.1 }
        if e.2 then p₂.startMany lim (min (lim.target - running) s.pending) spawns else (p₂, 0)
      else if p.live < lim.target then p₁.startMany lim 1 spawns
      else
        let overloaded := s.allStuck &&
          (decide (max p.live 1 * overloadRatio ≤ s.pending) || p.starving || s.stranded)
        let e := earned p.overloaded overloaded (p.live - lim.target)
        let p₂ := { p₁ with overloaded := e.1 }
        if e.2 then p₂.startMany lim 1 spawns else (p₂, 0)

/-- One pass of `balance` and `grow`: how many workers are woken or started. -/
def Pool.pass (lim : Limits) (spawns : List Bool) (p : Pool) : ℕ :=
  p.balance.2 + (p.balance.1.grow lim spawns).2

/-! ### Who is there for whom -/

namespace Pool

variable (p : Pool)

def parkedWorkers : ℕ := p.used.countP (·.state == .parked)

/-- The workers that are awake and looking for something to do. -/
def idleAwake : ℕ := p.used.countP (·.state == .idle)

/-- The tasks that only another worker can take now: those in the shared queue beyond what the idle
workers will take, and those of the workers inside a run. -/
def stranded : ℕ :=
  (p.queued - p.idleAwake) + ((p.used.filter (·.inRun)).map (·.backlog)).sum

/-- The workers inside a run that have tasks of their own. -/
def crowded : ℕ := p.used.countP fun w => w.inRun && decide (0 < w.backlog)

/-- The tasks that are counted as spare and are not stranded: those in the shared queue that idle
workers will take, and those of the workers in no run, past the one each is about to run. -/
def slack : ℕ :=
  min p.queued p.idleAwake +
    ((p.used.filter fun w => w.state.alive && !w.inRun).map fun w => w.backlog - 1).sum

/-- A worker that is parked has counted itself before. -/
def Settled : Prop := p.parkedWorkers ≤ p.parked

end Pool

variable {p : Pool} {w : Worker}

theorem Worker.alive_of_inRun (h : w.inRun = true) : w.state.alive = true := by
  unfold Worker.inRun at h
  cases hs : w.state <;> simp_all [WorkerState.alive]

/-- The tasks of workers inside a run are those past the first, and the first of each. -/
theorem sum_inRun (ws : List Worker) :
    ((ws.filter (·.inRun)).map (·.backlog)).sum +
        ((ws.filter fun w => w.state.alive && !w.inRun).map fun w => w.backlog - 1).sum =
      ((ws.filter (·.state.alive)).map fun w => w.backlog - 1).sum +
        ws.countP fun w => w.inRun && decide (0 < w.backlog) := by
  induction ws with
  | nil => rfl
  | cons w ws ih =>
    cases hr : w.inRun with
    | true =>
      have ha := Worker.alive_of_inRun hr
      rcases Nat.eq_zero_or_pos w.backlog with hb | hb
      · simp [hr, ha, hb]
        omega
      · simp [hr, ha, hb]
        omega
    | false =>
      cases ha : w.state.alive with
      | true =>
        simp [hr, ha]
        omega
      | false =>
        simp [hr, ha]
        omega

/-- What `balance` misses is one task for each worker inside a run that has any. -/
theorem stranded_add_slack (p : Pool) : p.stranded + p.slack = p.spare + p.crowded := by
  have hsum := sum_inRun p.used
  unfold Pool.crowded Pool.slack Pool.stranded Pool.spare
  omega

/-- As many are woken as there is spare work for, or all that are parked. -/
theorem wakeUp_snd (n : ℕ) (ws : List Worker) :
    (wakeUp n ws).2 = min n (ws.countP (·.state == .parked)) := by
  induction ws generalizing n with
  | nil => cases n <;> rfl
  | cons w ws ih =>
    cases n with
    | zero => exact (Nat.zero_min _).symm
    | succ n =>
      unfold wakeUp
      split
      case isTrue h =>
        rw [List.countP_cons_of_pos (by simpa using h), Nat.succ_min_succ, ← ih n]
      case isFalse h =>
        rw [List.countP_cons_of_neg (by simpa using h), ← ih (n + 1)]

/-- `balance` wakes as many as it has counted, or all that are parked. -/
theorem balance_snd (hp : p.Settled) : p.balance.2 = min p.spare p.parkedWorkers := by
  unfold Pool.balance
  split
  case isTrue h =>
    have hzero : p.parkedWorkers = 0 := Nat.le_zero.mp (h ▸ hp)
    rw [hzero, Nat.min_zero]
  case isFalse => exact wakeUp_snd p.spare p.used

/-! ### `grow` leaves it to the parked workers -/

theorem length_wakeUp (n : ℕ) (ws : List Worker) : (wakeUp n ws).1.length = ws.length := by
  induction ws generalizing n with
  | nil => cases n <;> rfl
  | cons w ws ih =>
    cases n with
    | zero => rfl
    | succ n =>
      unfold wakeUp
      split
      · exact congrArg (· + 1) (ih n)
      · exact congrArg (· + 1) (ih (n + 1))

/-- With fewer to wake than are parked, some are left parked. -/
theorem exists_parked {n : ℕ} {ws : List Worker} (h : n < ws.countP (·.state == .parked)) :
    ∃ w ∈ (wakeUp n ws).1, w ∈ ws ∧ w.state = .parked := by
  induction ws generalizing n with
  | nil => cases h
  | cons w ws ih =>
    cases n with
    | zero =>
      obtain ⟨w', hw', hs⟩ := List.countP_pos_iff.mp h
      exact ⟨w', hw', hw', beq_iff_eq.mp hs⟩
    | succ n =>
      unfold wakeUp
      split
      case isTrue hs =>
        rw [List.countP_cons_of_pos (by simpa using hs)] at h
        obtain ⟨w', hw', hmem, hs'⟩ := ih (Nat.lt_of_succ_lt_succ h)
        exact ⟨w', List.mem_cons_of_mem _ hw', List.mem_cons_of_mem _ hmem, hs'⟩
      case isFalse hs =>
        rw [List.countP_cons_of_neg (by simpa using hs)] at h
        obtain ⟨w', hw', hmem, hs'⟩ := ih h
        exact ⟨w', List.mem_cons_of_mem _ hw', List.mem_cons_of_mem _ hmem, hs'⟩

/-- One free worker without tasks is enough for `grow` to see an idle one. -/
theorem idle_foldl {s : Seen} {ws : List Worker}
    (h : s.idle = true ∨ ∃ w ∈ ws, w.state.alive = true ∧ w.state.available = true ∧
      w.backlog = 0) : (ws.foldl Seen.look s).idle = true := by
  induction ws generalizing s with
  | nil =>
    obtain h | ⟨w, hw, -⟩ := h
    · exact h
    · cases hw
  | cons w ws ih =>
    refine ih ?_
    unfold Seen.look
    obtain h | ⟨w', hw', halive, havail, hzero⟩ := h
    · refine .inl ?_
      split
      · simp [h]
      · exact h
    · obtain rfl | hw' := List.mem_cons.mp hw'
      · exact .inl (by simp [halive, havail, hzero])
      · exact .inr ⟨w', hw', halive, havail, hzero⟩

theorem take_append_drop_of_length {l ws : List Worker} {n : ℕ}
    (h : l.length = (ws.take n).length) : (l ++ ws.drop n).take n = l := by
  rw [List.length_take] at h
  obtain hn | hn := Nat.le_total n ws.length
  · exact List.take_left' (by omega)
  · rw [List.drop_of_length_le hn, List.append_nil]
    exact List.take_of_length_le (by omega)

/-- `grow` starts nobody while some worker looks idle. -/
theorem grow_snd (lim : Limits) (spawns : List Bool) (h : p.seen.idle = true) :
    (p.grow lim spawns).2 = 0 := by
  unfold Pool.grow
  split
  · rfl
  · dsimp only
    rw [if_pos (.inr (.inl h))]

/-- The workers left parked, which have no tasks, look idle. -/
theorem grow_balance_snd (lim : Limits) (spawns : List Bool) (hp : p.Settled)
    (hown : ∀ w ∈ p.used, w.state = .parked → w.backlog = 0) (h : p.spare < p.parkedWorkers) :
    (p.balance.1.grow lim spawns).2 = 0 := by
  have hparked : p.parked ≠ 0 := by
    unfold Pool.Settled at hp
    omega
  have hused : p.balance.1.used = (wakeUp p.spare p.used).1 := by
    unfold Pool.balance
    rw [if_neg hparked]
    exact take_append_drop_of_length (length_wakeUp _ _)
  obtain ⟨w, hw, hmem, hs⟩ := exists_parked h
  refine grow_snd lim spawns ?_
  rw [Pool.seen, hused]
  exact idle_foldl (.inr ⟨w, hw, hs ▸ rfl, hs ▸ rfl, hown w hmem hs⟩)

/-- In a settled pool whose parked workers have no tasks, if less is counted as spare than there are
parked workers, `balance` wakes just as many as that, and `grow` then starts nobody. -/
theorem woken_eq_spare (lim : Limits) (spawns : List Bool) (hp : p.Settled)
    (hown : ∀ w ∈ p.used, w.state = .parked → w.backlog = 0) (h : p.spare < p.parkedWorkers) :
    p.balance.2 = p.spare ∧ (p.balance.1.grow lim spawns).2 = 0 := by
  refine ⟨?_, grow_balance_snd lim spawns hp hown h⟩
  rw [balance_snd hp, Nat.min_eq_left h.le]

/-- **When enough workers are woken.** In a settled pool, one pass wakes or starts as many workers
as there are stranded tasks, or all that are parked, if the workers inside a run that have tasks are
no more than the slack, or the parked workers are outnumbered even so: by the stranded tasks less
one for each such worker that the slack does not make up for. Where parked workers have no tasks of
their own, it does so only then. -/
theorem enough_woken (lim : Limits) (spawns : List Bool) (hp : p.Settled) :
    (p.crowded ≤ p.slack ∨ p.parkedWorkers + p.crowded ≤ p.stranded + p.slack →
      min p.parkedWorkers p.stranded ≤ p.pass lim spawns) ∧
    ((∀ w ∈ p.used, w.state = .parked → w.backlog = 0) →
      min p.parkedWorkers p.stranded ≤ p.pass lim spawns →
      p.crowded ≤ p.slack ∨ p.parkedWorkers + p.crowded ≤ p.stranded + p.slack) := by
  have hwoken := balance_snd hp
  have hsum := stranded_add_slack p
  unfold Pool.pass
  constructor
  · intro h
    omega
  · intro hown hmin
    -- with as much spare as there are parked workers, the second case holds
    by_contra hc
    have hgrow := grow_balance_snd lim spawns hp hown (by omega)
    omega

/-! ### Two pools -/

/-- A worker with so many tasks in its ring, and nothing finished since the last look. -/
def worker (st : WorkerState) (ring : ℕ) : Worker := ⟨st, ring, false, 0, 0, 0, false, false⟩

/-- One worker inside a run with three tasks, an idle one, two parked, and two tasks in the shared
queue. -/
def mixed : Pool :=
  ⟨[worker .running 3, worker .idle 0, worker .parked 0, worker .parked 0], 4, 2, 2, 4, 0, false,
    false⟩

theorem enough_woken_mixed : mixed.crowded = 1 ∧ mixed.slack = 1 ∧ mixed.parkedWorkers = 2 ∧
    mixed.stranded = 4 ∧ 2 ≤ mixed.pass ⟨2, 4, 4096⟩ [] :=
  ⟨by decide, by decide, by decide, by decide,
    (enough_woken (p := mixed) ⟨2, 4, 4096⟩ [] (by unfold Pool.Settled; decide)).1
      (.inl (by decide))⟩

/-- One worker inside a run with two tasks, and two parked. -/
def spread : Pool :=
  ⟨[worker .running 2, worker .parked 0, worker .parked 0], 3, 0, 2, 3, 0, false, false⟩

theorem woken_eq_spare_spread : spread.parkedWorkers = 2 ∧ spread.spare = 1 ∧
    spread.balance.2 = 1 ∧ (spread.balance.1.grow ⟨2, 4, 4096⟩ [true]).2 = 0 :=
  ⟨by decide, by decide, woken_eq_spare (p := spread) ⟨2, 4, 4096⟩ [true]
    (by unfold Pool.Settled; decide) (by decide) (by decide)⟩

/-- One worker inside a run that will not end soon, with one task in its ring, and one parked. -/
def waiting : Pool := ⟨[worker .running 1, worker .parked 0], 2, 0, 1, 2, 0, false, false⟩

/-- Nobody is woken and nobody is started, whatever the kernel would answer. -/
theorem nobody_woken : waiting.Settled ∧ waiting.parkedWorkers = 1 ∧ waiting.stranded = 1 ∧
    waiting.pass ⟨2, 4, 4096⟩ [true, true] = 0 := by
  refine ⟨?_, ?_, ?_, ?_⟩
  · unfold Pool.Settled
    decide
  all_goals decide

end Atap.Manager
