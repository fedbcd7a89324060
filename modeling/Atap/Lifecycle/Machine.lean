import Atap.Interleave.Machine
import Mathlib.Data.List.Infix
import Mathlib.Tactic.Tauto

/-!
# Starting the runtime and shutting it down

One word, `LIFECYCLE`, says whether the runtime is stopped, starting, running or stopping, and any
number of threads call `init` and `shutdown` on it, again and again. Whoever exchanges the word out
of a state of rest is in charge until they store the other. What a start sets up is a queue for the
manager, published in `EXECUTOR_KQUEUE_ID`, and a thread that supervises the manager on it, whose
handle is kept in `SUPERVISOR`.

The steps, one atomic operation or system call each:

* `Executor::init` with `supervise`, a queue the kernel refuses included;
* `shutdown_now`, up to the join of the supervisor and from there to the last store. What it does to
  the pool's threads and tasks in between is not here;
* the supervisor of every queue: managers that return or come apart at any time, `restart`, and
  `shutdown` once it gives up. Its steps are taken by whichever idle thread the schedule names: they
  come at any time;
* `write_off_pool`, from any thread.

A thread that the kernel will not spawn, which would take its spawner down with it, is not here.

`closed` and `downs` are a history, and no step reads them but to note when a call began: how often
each queue was closed, and how often a shutdown came to its end.
-/

namespace Atap.Lifecycle

open Function

open Machine (unguarded)

/-- `LIFECYCLE`. -/
inductive Life
  | stopped
  | starting
  | running
  | stopping
  deriving DecidableEq

def Life.shuttingDown : Life → Bool
  | .stopping | .stopped => true
  | .starting | .running => false

/-- `RESTART_LIMIT`. -/
def restartLimit : ℕ := 5

/-- What a supervisor makes of a death: how many it counts now, or `none` to give up. `late` is
whether the thread it supervises had been up for `RESTART_WINDOW`. -/
def restart (failures : ℕ) (late : Bool) : Option ℕ :=
  let failures := (if late then 0 else failures) + 1
  if failures > restartLimit then none else some failures

/-- What a supervisor counts after a history of deaths; `none` once it has given up. -/
def restarts : ℕ → List Bool → Option ℕ
  | failures, [] => some failures
  | failures, late :: rest => (restart failures late).bind (restarts · rest)

theorem restarts_eq_none {failures : ℕ} (hf : failures ≤ restartLimit) (deaths : List Bool) :
    restarts failures deaths = none ↔
      List.replicate (restartLimit + 1 - failures) false <+: deaths ∨
        ∃ d, d :: List.replicate restartLimit false <:+: deaths := by
  induction deaths generalizing failures with
  | nil =>
    have hn : restartLimit + 1 - failures ≠ 0 := by omega
    simp [restarts, hn]
  | cons late rest ih =>
    obtain ⟨n, hn⟩ : ∃ n, restartLimit + 1 - failures = n + 1 := ⟨restartLimit - failures, by omega⟩
    simp only [hn, List.replicate_succ, List.cons_prefix_cons, List.infix_cons_iff, exists_or,
      exists_and_right]
    cases late with
    | true =>
      -- The death starts the count again, and may be the first of a row that ends it.
      have h1 : restarts failures (true :: rest) = restarts 1 rest := rfl
      rw [h1, ih (by decide)]
      simp [restartLimit]
    | false =>
      rcases Nat.lt_or_ge failures restartLimit with hlt | hge
      · have h1 : restarts failures (false :: rest) = restarts (failures + 1) rest := by
          simp [restarts, restart, Nat.not_lt.mpr hlt]
        have hrow : List.replicate n false <+: List.replicate restartLimit false :=
          List.prefix_replicate_iff.mpr ⟨by simp; omega, by simp⟩
        have himp : List.replicate restartLimit false <+: rest → List.replicate n false <+: rest :=
          hrow.trans
        rw [h1, ih hlt, show restartLimit + 1 - (failures + 1) = n by omega]
        simp only [Bool.exists_bool, true_and, ↓existsAndEq]
        tauto
      · obtain rfl : failures = restartLimit := Nat.le_antisymm hf hge
        obtain rfl : n = 0 := by omega
        simp [restarts, restart]

/-- **When a supervisor gives up**: exactly when more than `RESTART_LIMIT` deaths came in a row,
each but the first of them within `RESTART_WINDOW` of the restart before it. -/
theorem gives_up_iff (deaths : List Bool) :
    restarts 0 deaths = none ↔ ∃ d, d :: List.replicate restartLimit false <:+: deaths := by
  rw [restarts_eq_none (Nat.zero_le _)]
  refine or_iff_right_of_imp fun h => ⟨false, h.isInfix⟩

/-- Where the supervisor of a queue stands. -/
inductive Sup
  /-- It was not spawned. -/
  | absent
  /-- A manager runs; the deaths counted so far. -/
  | manager (failures : ℕ)
  /-- The manager was joined, and the look at `LIFECYCLE` comes next. -/
  | look (failures : ℕ)
  /-- Before the queue is closed, as the runtime stops. -/
  | close
  /-- Before the death is counted. -/
  | count (failures : ℕ)
  /-- `shutdown`, before the store of `DEAD_KQUEUE_ID`. -/
  | giveUp
  /-- `shutdown`, before the queue is closed. -/
  | giveClose
  /-- `shutdown`, before the rest is written off. -/
  | giveRest
  | over
  deriving DecidableEq

/-- The thread is there. -/
def Sup.alive : Sup → Bool
  | .absent | .over => false
  | _ => true

/-- How often the queue was closed by then. -/
def Sup.closed : Sup → ℕ
  | .giveRest | .over => 1
  | _ => 0

structure Mem where
  life : Life
  /-- `EXECUTOR_KQUEUE_ID`, which is `none` for `DEAD_KQUEUE_ID`. -/
  kqueue : Option ℕ
  /-- `SUPERVISOR`, by the queue it supervises. -/
  handle : Option ℕ
  /-- `WorkerPool::stopped`. -/
  poolStopped : Bool
  /-- How many queues were made. -/
  queues : ℕ
  sups : ℕ → Sup
  closed : ℕ → ℕ
  downs : ℕ

/-- Where a caller stands in the code. -/
inductive Pc
  | idle
  /-- `init`, before the exchange. -/
  | init
  /-- `init`, before `kqueue` and the store that follows: of the queue, or of `STOPPED`. -/
  | kqueue
  /-- `init`, before `POOL.open`. -/
  | openPool (k : ℕ)
  /-- `supervise`, before the spawn. -/
  | supervise (k : ℕ)
  /-- `supervise`, before the handle is kept. -/
  | keep (k : ℕ)
  /-- `init`, before the store of `RUNNING`. -/
  | run
  /-- `shutdown_now`, before the exchange, and how many had ended when it was called. -/
  | shutdown (downs : ℕ)
  /-- `shutdown_now`, while somebody else's is in progress. -/
  | wait (downs : ℕ)
  /-- `shutdown_now`, before `POOL.close`. -/
  | close
  /-- `shutdown_now`, before the queue is taken down. -/
  | swap
  /-- `shutdown_now`, before the handle is taken. -/
  | take
  /-- `shutdown_now`, before the supervisor is joined. -/
  | join (k : Option ℕ)
  /-- `shutdown_now`, from the join to the store of `STOPPED`. -/
  | stop
  deriving DecidableEq

inductive Act
  | go
  | init
  | shutdown
  /-- The kernel refuses a queue. -/
  | refuse
  /-- The supervisor of a queue takes a step, with what the code leaves open. -/
  | supervisor (k : ℕ) (c : Bool)
  | writeOff
  deriving DecidableEq

/-- Where the supervisor goes. The choice is whether a death was late. -/
def Sup.next (life : Life) (late : Bool) : Sup → Option Sup
  | .absent | .over => none
  | .manager f => some (.look f)
  | .look f => some (if life.shuttingDown then .close else .count f)
  | .count f => some ((restart f late).elim .giveUp .manager)
  | .giveUp => some .giveClose
  | .giveClose => some .giveRest
  | .close | .giveRest => some .over

/-- What the supervisor of the queue `k` does on its way to `p`. The choice is whether the pool is
left with a thread. -/
def Mem.moved (m : Mem) (k : ℕ) (c : Bool) (p : Sup) : Mem :=
  { m with
    sups := update m.sups k p
    kqueue := if m.sups k = .giveUp then none else m.kqueue
    closed := if m.sups k = .close ∨ m.sups k = .giveClose then
      update m.closed k (m.closed k + 1) else m.closed
    poolStopped := m.poolStopped || (m.sups k = .giveRest && !c) }

/-- One step of a caller. -/
def next (m : Mem) : Pc → Act → Option (Mem × Pc)
  | .idle, .init => some (m, .init)
  | .idle, .shutdown => some (m, .shutdown m.downs)
  | .idle, .supervisor k c => ((m.sups k).next m.life c).map (m.moved k c ·, .idle)
  | .idle, .writeOff => some ({ m with poolStopped := true }, .idle)
  | .init, .go =>
    match m.life with
    | .stopped => some ({ m with life := .starting }, .kqueue)
    | .running => some (m, .idle)
    | .starting | .stopping => some (m, .init)
  | .kqueue, .go =>
    some ({ m with queues := m.queues + 1, kqueue := some m.queues }, .openPool m.queues)
  | .kqueue, .refuse => some ({ m with life := .stopped }, .idle)
  | .openPool k, .go => some ({ m with poolStopped := false }, .supervise k)
  | .supervise k, .go => some ({ m with sups := update m.sups k (.manager 0) }, .keep k)
  | .keep k, .go => some ({ m with handle := some k }, .run)
  | .run, .go => some ({ m with life := .running }, .idle)
  | .shutdown d, .go =>
    match m.life with
    | .running => some ({ m with life := .stopping }, .close)
    | .stopped => some (m, .idle)
    | .stopping => some (m, .wait d)
    | .starting => some (m, .shutdown d)
  | .wait d, .go => if m.life = .stopping then some (m, .wait d) else some (m, .idle)
  | .close, .go => some ({ m with poolStopped := true }, .swap)
  -- The wake that follows finds the manager's queue, or one that its supervisor has closed.
  | .swap, .go => some ({ m with kqueue := none }, .take)
  | .take, .go => some ({ m with handle := none }, .join m.handle)
  | .join k, .go => if ∀ j ∈ k, m.sups j = .over then some (m, .stop) else none
  | .stop, .go => some ({ m with life := .stopped, downs := m.downs + 1 }, .idle)
  | _, _ => none

def machine : Machine Mem Pc Act where
  next := next

variable {T : Type*}

/-- Before the first `init`. -/
def Fresh (s : Config T Mem Pc) : Prop :=
  s = ⟨⟨.stopped, none, none, true, 0, fun _ => .absent, fun _ => 0, 0⟩, fun _ => .idle⟩

/-! ### Who is in charge -/

/-- The state of the word a thread in charge left behind. -/
def Pc.charge : Pc → Option Life
  | .kqueue | .openPool _ | .supervise _ | .keep _ | .run => some .starting
  | .close | .swap | .take | .join _ | .stop => some .stopping
  | .idle | .init | .shutdown _ | .wait _ => none

/-- Nothing of an earlier start is left. -/
def Down (m : Mem) : Prop :=
  m.kqueue = none ∧ m.handle = none ∧ m.poolStopped = true ∧ ∀ j < m.queues, m.sups j = .over

/-- The queue `k` is the last that was made, and has no supervisor yet. -/
def Made (m : Mem) (k : ℕ) : Prop :=
  k + 1 = m.queues ∧ m.sups k = .absent ∧ m.kqueue = some k ∧ m.handle = none

/-- The queue `k` is the last that was made, and its supervisor was spawned. -/
def Spawned (m : Mem) (k : ℕ) : Prop :=
  k + 1 = m.queues ∧ m.sups k ≠ .absent ∧ (m.kqueue = none ∨ m.kqueue = some k)

/-- A supervisor was spawned, and its handle is kept. -/
def Up (m : Mem) : Prop := ∃ k, m.handle = some k ∧ Spawned m k

/-- How far a thread in charge has brought the runtime. -/
def Stage (m : Mem) : Pc → Prop
  | .idle | .init | .shutdown _ | .wait _ => True
  | .kqueue | .stop => Down m
  | .openPool k | .supervise k => Made m k
  | .keep k => Spawned m k ∧ m.handle = none
  | .run | .close => Up m
  | .swap => Up m ∧ m.poolStopped = true
  | .take => Up m ∧ m.poolStopped = true ∧ m.kqueue = none
  | .join o => ∃ k, o = some k ∧ Spawned m k ∧ m.poolStopped = true ∧ m.kqueue = none ∧
    m.handle = none

/-- What the runtime is like while the word is at rest. -/
def Rest (m : Mem) : Life → Prop
  | .stopped => Down m
  | .running => Up m
  | .starting | .stopping => False

/-- The word is at rest, or one thread is in charge. -/
inductive Charge (m : Mem) (f : T → Pc) : Prop
  | rest (free : ∀ u, (f u).charge = none) (rest : Rest m m.life)
  | held (t : T) (free : ∀ u, u ≠ t → (f u).charge = none) (life : (f t).charge = some m.life)
      (stage : Stage m (f t))

/-- Of the supervisors there were, all but that of the last queue are over, and a queue is closed
once its supervisor has come to that. -/
def Ledger (m : Mem) : Prop :=
  (∀ k, m.queues ≤ k → m.sups k = .absent) ∧ (∀ k, k + 1 < m.queues → m.sups k = .over) ∧
    ∀ k, m.closed k = (m.sups k).closed

/-- A shutdown that waits for another's does so until that has come to its end. -/
def Since (m : Mem) : Pc → Prop
  | .shutdown d => d ≤ m.downs
  | .wait d => d ≤ m.downs ∧ (m.life = .stopping ∨ d < m.downs)
  | _ => True

structure Inv (s : Config T Mem Pc) : Prop where
  charge : Charge s.mem s.loc
  ledger : Ledger s.mem
  since : ∀ t, Since s.mem (s.loc t)

variable {s : Config T Mem Pc} {m m' : Mem} {k : ℕ} {f : T → Pc} {t : T} {p : Pc} {l : Life}

theorem Since.mono (h : Since m p) (hd : m.downs ≤ m'.downs)
    (hl : m.life = .stopping → m'.life = .stopping ∨ m.downs < m'.downs) : Since m' p := by
  cases p with
  | shutdown d => exact h.trans hd
  | wait d =>
    refine ⟨h.1.trans hd, ?_⟩
    rcases h.2 with hs | hlt
    · exact (hl hs).imp_right h.1.trans_lt
    · exact .inr (hlt.trans_le hd)
  | _ => trivial

theorem Pc.charge_eq (h : p.charge = some l) : l = .starting ∨ l = .stopping := by
  cases p <;> cases h <;> simp

theorem Charge.of_held (h : Charge m f) (ht : (f t).charge = some l) :
    (∀ u, u ≠ t → (f u).charge = none) ∧ m.life = l ∧ Stage m (f t) := by
  cases h with
  | rest hf _ => cases (hf t).symm.trans ht
  | held v hf hv hs =>
    obtain rfl : t = v := by
      by_contra hne
      cases (hf t hne).symm.trans ht
    exact ⟨hf, Option.some.inj (hv.symm.trans ht), hs⟩

/-- Nobody is in charge while the word is at rest. -/
theorem Charge.of_rest (h : Charge m f) (hl : m.life = l) (hr : l = .stopped ∨ l = .running) :
    (∀ u, (f u).charge = none) ∧ Rest m l := by
  cases h with
  | rest hf hrest => exact ⟨hf, hl ▸ hrest⟩
  | held v _ hv _ =>
    rcases hr with rfl | rfl <;> rcases Pc.charge_eq hv with h | h <;> cases hl.symm.trans h

/-! ### The supervisors

Only the supervisor of the last queue can be alive, so none finds a start but its own, and what it
does is the same at every stage of it. -/

section Supervisor

variable {p q : Sup} {c : Bool}

theorem Sup.next_spec (h : p.next l c = some q) : p.alive = true ∧ q ≠ .absent ∧
    q.closed = p.closed + (if p = .close ∨ p = .giveClose then 1 else 0) := by
  unfold Sup.next at h
  split at h <;> cases h
  case h_4 => cases hl : l.shuttingDown <;> simp [Sup.alive, Sup.closed]
  case h_5 f => cases restart f c <;> simp [Sup.alive, Sup.closed]
  all_goals simp [Sup.alive, Sup.closed]

theorem Ledger.alive (hg : Ledger m) (h : (m.sups k).alive = true) :
    k + 1 = m.queues ∧ m.sups k ≠ .absent ∧ m.sups k ≠ .over := by
  have ha : m.sups k ≠ .absent := fun hk => by simp [hk, Sup.alive] at h
  have ho : m.sups k ≠ .over := fun hk => by simp [hk, Sup.alive] at h
  refine ⟨?_, ha, ho⟩
  by_contra hne
  rcases Nat.lt_or_gt_of_ne hne with hlt | hgt
  · exact ho (hg.2.1 k hlt)
  · exact ha (hg.1 k (Nat.le_of_lt_succ hgt))

theorem Ledger.not_down (hg : Ledger m) (h : (m.sups k).alive = true) : ¬ Down m := fun hd =>
  (hg.alive h).2.2 (hd.2.2.2 k (Nat.lt_of_succ_le (hg.alive h).1.le))

/-- Whatever becomes of the supervisor of the last queue, the others are as they were. -/
theorem update_last {f : ℕ → Sup} {n : ℕ} (hk : k + 1 = n) (h : ∀ j, n ≤ j → f j = .absent)
    (ho : ∀ j, j + 1 < n → f j = .over) : (∀ j, n ≤ j → update f k q j = .absent) ∧
      ∀ j, j + 1 < n → update f k q j = .over := by
  refine ⟨fun j hj => ?_, fun j hj => ?_⟩ <;> rw [update_of_ne (by omega)]
  · exact h j hj
  · exact ho j hj

variable (hg : Ledger m) (h : (m.sups k).next m.life c = some q)

include hg h

theorem Spawned.moved {j : ℕ} (hs : Spawned m j) : Spawned (m.moved k c q) j := by
  obtain ⟨ha, hq, -⟩ := Sup.next_spec h
  obtain rfl : k = j := Nat.succ_inj.mp ((hg.alive ha).1.trans hs.1.symm)
  refine ⟨hs.1, ?_, ?_⟩
  · exact ne_of_eq_of_ne (update_self ..) hq
  · rcases hs.2.2 with hnone | hsome
    · simp [Mem.moved, hnone]
    · simp [Mem.moved, hsome, em]

theorem Stage.moved {r : Pc} (hs : Stage m r) : Stage (m.moved k c q) r := by
  have ha := (Sup.next_spec h).1
  have hup : Up m → Up (m.moved k c q) := Exists.imp fun _ hj => ⟨hj.1, hj.2.moved hg h⟩
  have hpool : m.poolStopped = true → (m.moved k c q).poolStopped = true := by
    simp +contextual [Mem.moved]
  have hnone : m.kqueue = none → (m.moved k c q).kqueue = none := by simp +contextual [Mem.moved]
  cases r with
  | idle | init | shutdown _ | wait _ => trivial
  | kqueue | stop => exact absurd hs (hg.not_down ha)
  | openPool j | supervise j =>
    obtain rfl : k = j := Nat.succ_inj.mp ((hg.alive ha).1.trans hs.1.symm)
    exact absurd hs.2.1 (hg.alive ha).2.1
  | keep j => exact ⟨hs.1.moved hg h, hs.2⟩
  | run | close => exact hup hs
  | swap => exact ⟨hup hs.1, hpool hs.2⟩
  | take => exact ⟨hup hs.1, hpool hs.2.1, hnone hs.2.2⟩
  | join o =>
    obtain ⟨j, rfl, hj, hp, hq, hh⟩ := hs
    exact ⟨j, rfl, hj.moved hg h, hpool hp, hnone hq, hh⟩

theorem Ledger.moved : Ledger (m.moved k c q) := by
  obtain ⟨ha, -, hcl⟩ := Sup.next_spec h
  obtain ⟨hnew, hold⟩ := update_last (q := q) (hg.alive ha).1 hg.1 hg.2.1
  refine ⟨hnew, hold, fun j => ?_⟩
  rcases eq_or_ne j k with rfl | hjk
  · simp only [Mem.moved, update_self, hcl, ← hg.2.2]
    split <;> simp
  · simp only [Mem.moved, update_of_ne hjk, ← hg.2.2]
    split <;> simp [hjk]

end Supervisor

theorem Stage.close (h : Stage m p) : Stage { m with poolStopped := true } p := by
  cases p with
  | kqueue | stop => exact ⟨h.1, h.2.1, rfl, h.2.2.2⟩
  | swap => exact ⟨h.1, rfl⟩
  | take => exact ⟨h.1, rfl, h.2.2⟩
  | join o => exact h.imp fun _ hj => ⟨hj.1, hj.2.1, rfl, hj.2.2.2⟩
  | _ => exact h

/-! ### One step -/

section Step

variable [DecidableEq T]

/-- A thread that is not in charge leaves the word alone. -/
theorem Charge.quiet (h : Charge m f) (ht : (f t).charge = none) (hp : p.charge = none)
    (hl : m'.life = m.life) (hst : ∀ q, Stage m q → Stage m' q) : Charge m' (update f t p) := by
  cases h with
  | rest hf hr =>
    refine .rest (forall_update (P := (Pc.charge · = none)) hp fun u _ => hf u) ?_
    rw [hl]
    cases hs : m.life <;> rw [hs] at hr
    case stopped => exact hst .kqueue hr
    case running => exact hst .run hr
    all_goals exact hr
  | held v hf hv hs =>
    have hvt : v ≠ t := by
      rintro rfl
      cases hv.symm.trans ht
    refine .held v (fun u hu => ?_) ?_ ?_
    · rcases eq_or_ne u t with rfl | hut
      · rwa [update_self]
      · rw [update_of_ne hut, hf u hu]
    · rw [update_of_ne hvt, hv, hl]
    · rw [update_of_ne hvt]
      exact hst _ hs

theorem Charge.keep (hf : ∀ u, u ≠ t → (f u).charge = none) (hl : p.charge = some m'.life)
    (hs : Stage m' p) : Charge m' (update f t p) := by
  refine .held t (fun u hu => ?_) ?_ ?_
  · rw [update_of_ne hu, hf u hu]
  · rw [update_self, hl]
  · rwa [update_self]

theorem Charge.release (hf : ∀ u, u ≠ t → (f u).charge = none) (hp : p.charge = none)
    (hr : Rest m' m'.life) : Charge m' (update f t p) :=
  .rest (forall_update (P := (Pc.charge · = none)) hp hf) hr

theorem Inv.of_charge (h : Inv s) (hc : Charge m' (update s.loc t p)) (hg : Ledger m')
    (hp : Since m' p) (hd : s.mem.downs ≤ m'.downs)
    (hl : s.mem.life = .stopping → m'.life = .stopping ∨ s.mem.downs < m'.downs) :
    Inv ⟨m', update s.loc t p⟩ :=
  ⟨hc, hg, forall_update hp fun u _ => (h.since u).mono hd hl⟩

/-- A step that is nobody's business. -/
theorem Inv.quiet (h : Inv s) (hq : (s.loc t).charge = none) (hp : p.charge = none)
    (hsi : Since s.mem p) : Inv ⟨s.mem, update s.loc t p⟩ :=
  h.of_charge (h.charge.quiet hq hp rfl fun _ => id) h.ledger hsi le_rfl .inl

/-- A step of the thread in charge that leaves it in charge. -/
theorem Inv.held (h : Inv s) (hf : ∀ u, u ≠ t → (s.loc u).charge = none)
    (hp : p.charge = some m'.life) (hl : m'.life = s.mem.life) (hs : Stage m' p) (hg : Ledger m')
    (hd : m'.downs = s.mem.downs) : Inv ⟨m', update s.loc t p⟩ := by
  refine h.of_charge (.keep hf hp hs) hg ?_ hd.ge fun hl' => .inl (hl.trans hl')
  cases p
  case shutdown | wait => cases hp
  all_goals trivial

/-- A step of the program of the thread in charge. -/
theorem Inv.step_held {q : Pc} (h : Inv s) (hloc : s.loc t = q) (hq : q.charge = some l)
    (hn : next s.mem q .go = some (m', p)) : Inv ⟨m', update s.loc t p⟩ := by
  obtain ⟨hc, hg, -⟩ := id h
  obtain ⟨hf, hl, hs⟩ := hc.of_held (hloc ▸ hq)
  rw [hloc] at hs
  have hq' : q.charge = some s.mem.life := hq.trans (congrArg some hl.symm)
  cases q with
  | idle | init | shutdown | wait => cases hq
  | kqueue =>
    cases hn
    have hnew := hg.1 _ le_rfl
    exact h.held hf hq' rfl ⟨rfl, hnew, rfl, hs.2.1⟩ ⟨fun k hk => hg.1 k (Nat.le_of_succ_le hk),
      fun k hk => hs.2.2.2 k (Nat.lt_of_succ_lt_succ hk), hg.2.2⟩ rfl
  | openPool k =>
    cases hn
    exact h.held hf hq' rfl hs hg rfl
  | supervise k =>
    cases hn
    obtain ⟨hk, hs, hq, hh⟩ := hs
    obtain ⟨hnew, hold⟩ := update_last (q := .manager 0) hk hg.1 hg.2.1
    refine h.held hf hq' rfl ⟨⟨hk, by simp, .inr hq⟩, hh⟩ ⟨hnew, hold, fun j => ?_⟩ rfl
    rcases eq_or_ne j k with rfl | hjk
    · simp [hg.2.2, hs, Sup.closed]
    · simp [hg.2.2, hjk]
  | keep k =>
    cases hn
    exact h.held hf hq' rfl ⟨k, rfl, hs.1⟩ hg rfl
  | run =>
    cases hn
    cases hq
    exact h.of_charge (.release hf rfl hs) hg trivial le_rfl (by simp [hl])
  | close =>
    cases hn
    exact h.held hf hq' rfl ⟨hs, rfl⟩ hg rfl
  | swap =>
    cases hn
    obtain ⟨⟨k, hk, hs, hne, -⟩, hp⟩ := hs
    exact h.held hf hq' rfl ⟨⟨k, hk, hs, hne, .inl rfl⟩, hp, rfl⟩ hg rfl
  | take =>
    cases hn
    obtain ⟨⟨k, hk, hs⟩, hp, hq⟩ := hs
    exact h.held hf hq' rfl ⟨k, hk, hs, hp, hq, rfl⟩ hg rfl
  | join o =>
    obtain ⟨ho, hn⟩ := Option.ite_none_right_eq_some.mp hn
    cases hn
    obtain ⟨k, rfl, hs, hp, hq, hh⟩ := hs
    refine h.held hf hq' rfl ⟨hq, hh, hp, fun j hj => ?_⟩ hg rfl
    rcases eq_or_ne j k with rfl | hjk
    · exact ho j rfl
    · exact hg.2.1 j (by have := hs.1; omega)
  | stop =>
    cases hn
    exact h.of_charge (.release hf rfl hs) hg trivial (Nat.le_succ _)
      fun _ => .inr (Nat.lt_succ_self _)

theorem Inv.step {c : Act} (h : Inv s) (hn : next s.mem (s.loc t) c = some (m', p)) :
    Inv ⟨m', update s.loc t p⟩ := by
  obtain ⟨hc, hg, hsi⟩ := id h
  have hst := hsi t
  have hheld := fun l (hl : (s.loc t).charge = some l) => hc.of_held hl
  generalize hloc : s.loc t = q at hn hst hheld
  unfold next at hn
  split at hn
  case h_1 | h_2 =>
    cases hn
    exact h.quiet (hloc ▸ rfl) rfl (by first | trivial | exact le_rfl)
  case h_3 k c =>
    obtain ⟨q, hq, heq⟩ := Option.map_eq_some_iff.mp hn
    cases heq
    exact h.of_charge (hc.quiet (hloc ▸ rfl) rfl rfl fun _ hs => hs.moved hg hq) (hg.moved hq)
      trivial le_rfl .inl
  case h_4 =>
    cases hn
    exact h.of_charge (hc.quiet (hloc ▸ rfl) rfl rfl fun _ => Stage.close) hg trivial le_rfl .inl
  case h_5 =>
    split at hn <;> cases hn
    case h_1 hl =>
      obtain ⟨hf, hr⟩ := hc.of_rest hl (.inl rfl)
      exact h.of_charge (.keep (fun u _ => hf u) rfl hr) hg trivial
        le_rfl (by simp [hl])
    all_goals exact h.quiet (hloc ▸ rfl) rfl trivial
  case h_7 =>
    cases hn
    obtain ⟨hf, hl, hs⟩ := hheld _ rfl
    exact h.of_charge (.release hf rfl hs) hg trivial le_rfl
      (by simp [hl])
  case h_12 d =>
    split at hn <;> cases hn
    case h_1 hl =>
      obtain ⟨hf, hr⟩ := hc.of_rest hl (.inr rfl)
      exact h.of_charge (.keep (fun u _ => hf u) rfl hr) hg trivial le_rfl (by simp [hl])
    case h_2 => exact h.quiet (hloc ▸ rfl) rfl trivial
    case h_3 hl => exact h.quiet (hloc ▸ rfl) rfl ⟨hst, .inl hl⟩
    case h_4 => exact h.quiet (hloc ▸ rfl) rfl hst
  case h_13 d =>
    split at hn <;> cases hn
    case isTrue => exact h.quiet (hloc ▸ rfl) rfl hst
    case isFalse => exact h.quiet (hloc ▸ rfl) rfl trivial
  case h_19 => cases hn
  all_goals exact h.step_held hloc rfl hn

theorem Reach.inv (hs : machine.Reach Fresh unguarded s) : Inv s := by
  refine Machine.Reach.invariant (I := Inv) (fun s h0 => ?_) (fun _ _ _ _ _ h _ => h.step) hs
  subst h0
  exact ⟨.rest (fun _ => rfl) ⟨rfl, rfl, rfl, by simp⟩,
    ⟨fun _ _ => rfl, by simp, fun _ => rfl⟩, fun _ => trivial⟩

end Step

/-! ### Whole runs -/

variable [DecidableEq T]

/-- One thread starts the runtime. -/
def starting : List (Fin 3 × Act) := (0, .init) :: List.replicate 6 (0, .go)

/-- It starts the runtime and shuts it down, while another waits for the same. -/
def startedStopped : List (Fin 3 × Act) :=
  starting ++ [(0, .shutdown), (0, .go), (1, .shutdown), (1, .go)] ++ List.replicate 3 (0, .go) ++
    List.replicate 3 (2, .supervisor 0 true) ++ List.replicate 2 (0, .go)

theorem fresh : Fresh (T := Fin 3)
    ⟨⟨.stopped, none, none, true, 0, fun _ => .absent, fun _ => 0, 0⟩, fun _ => .idle⟩ := rfl

/-- **One start or one shutdown at a time, and one manager.** No two threads are in charge, and the
word says `STARTING` or `STOPPING` exactly while one is. No two supervisors are alive, whatever was
started, stopped and given up before. A runtime that is stopped has no queue and no handle, its pool
is shut and every supervisor is over; one that runs keeps the handle of the supervisor of the last
queue, and publishes that queue or none. -/
theorem one_in_charge (hs : machine.Reach Fresh unguarded s) :
    (∀ t u, (s.loc t).charge.isSome → (s.loc u).charge.isSome → t = u) ∧
    (∀ t l, (s.loc t).charge = some l → s.mem.life = l) ∧
    (s.mem.life = .starting ∨ s.mem.life = .stopping → ∃ t, (s.loc t).charge = some s.mem.life) ∧
    (∀ j k, (s.mem.sups j).alive = true → (s.mem.sups k).alive = true → j = k) ∧
    (s.mem.life = .stopped → Down s.mem) ∧ (s.mem.life = .running → Up s.mem) := by
  obtain ⟨hc, hg, -⟩ := Reach.inv hs
  refine ⟨fun t u ht hu => ?_, fun t l ht => (hc.of_held ht).2.1, fun hl => ?_, fun j k hj hk => ?_,
    fun hl => (hc.of_rest hl (.inl rfl)).2, fun hl => (hc.of_rest hl (.inr rfl)).2⟩
  · obtain ⟨l, hl⟩ := Option.isSome_iff_exists.mp hu
    by_contra hne
    rw [(hc.of_held hl).1 t hne] at ht
    cases ht
  · cases hc with
    | rest _ hr => rcases hl with hl | hl <;> rw [hl] at hr <;> exact hr.elim
    | held t _ ht _ => exact ⟨t, ht⟩
  · exact Nat.succ_inj.mp ((hg.alive hj).1.trans (hg.alive hk).1.symm)

theorem one_in_charge_restarted : ∃ s : Config (Fin 3) Mem Pc,
    machine.Reach Fresh unguarded s ∧ s.mem.downs = 1 ∧ Up s.mem := by
  obtain ⟨s, hs, hl, hd⟩ : ∃ s : Config (Fin 3) Mem Pc, machine.Reach Fresh unguarded s ∧
      s.mem.life = .running ∧ s.mem.downs = 1 :=
    (Machine.Reach.init fresh).exists_of_run (startedStopped ++ starting) (by decide +kernel)
  exact ⟨s, hs, hd, (one_in_charge hs).2.2.2.2.2 hl⟩

/-- **Every queue is closed once**: never twice, never under a manager, and always by the time the
runtime is stopped. -/
theorem queues_closed_once (hs : machine.Reach Fresh unguarded s) :
    (∀ k, s.mem.closed k ≤ 1) ∧ (∀ k f, s.mem.sups k = .manager f → s.mem.closed k = 0) ∧
    (s.mem.life = .stopped → ∀ k < s.mem.queues, s.mem.closed k = 1) := by
  obtain ⟨hc, hg, -⟩ := Reach.inv hs
  refine ⟨fun k => ?_, fun k f hk => ?_, fun hl k hk => ?_⟩ <;> rw [hg.2.2]
  · cases s.mem.sups k <;> simp [Sup.closed]
  · rw [hk]
    rfl
  · have hd : Down s.mem := (hc.of_rest hl (.inl rfl)).2
    rw [hd.2.2.2 k hk]
    rfl

theorem queues_closed_once_stopped : ∃ s : Config (Fin 3) Mem Pc,
    machine.Reach Fresh unguarded s ∧ s.mem.queues = 1 ∧ s.mem.closed 0 = 1 := by
  obtain ⟨s, hs, hl, hq⟩ : ∃ s : Config (Fin 3) Mem Pc, machine.Reach Fresh unguarded s ∧
      s.mem.life = .stopped ∧ s.mem.queues = 1 :=
    (Machine.Reach.init fresh).exists_of_run startedStopped (by decide +kernel)
  exact ⟨s, hs, hq, (queues_closed_once hs).2.2 hl 0 (hq ▸ Nat.one_pos)⟩

/-- **A shutdown returns once the runtime was down.** A call that finds the runtime stopped, or
waits for somebody else's shutdown, returns with the word at `STOPPED` or after a shutdown that came
to its end since the call began, even if another `init` has moved the word on by then. -/
theorem down_when_shutdown_returns {d : ℕ} (hs : machine.Reach Fresh unguarded s)
    (ht : s.loc t = .shutdown d ∨ s.loc t = .wait d)
    (hn : machine.next s.mem (s.loc t) .go = some (m', .idle)) :
    m'.life = .stopped ∨ d < m'.downs := by
  have hsi := (Reach.inv hs).since t
  rcases ht with ht | ht <;> rw [ht] at hn hsi <;> simp only [machine, next] at hn
  · split at hn <;> cases hn
    rename_i hl
    exact .inl hl
  · split at hn <;> cases hn
    rename_i hl
    exact .inr (hsi.2.resolve_left hl)

theorem down_when_shutdown_returns_late : ∃ s : Config (Fin 3) Mem Pc,
    machine.Reach Fresh unguarded s ∧ s.mem.life = .starting ∧ s.loc 1 = .wait 0 ∧
      0 < s.mem.downs := by
  obtain ⟨s, hs, hl, ht⟩ : ∃ s : Config (Fin 3) Mem Pc, machine.Reach Fresh unguarded s ∧
      s.mem.life = .starting ∧ s.loc 1 = .wait 0 :=
    (Machine.Reach.init fresh).exists_of_run (startedStopped ++ [(0, .init), (0, .go)])
      (by decide +kernel)
  have hn : machine.next s.mem (s.loc 1) .go = some (s.mem, .idle) := by
    rw [ht]
    exact if_neg (by simp [hl])
  exact ⟨s, hs, hl, ht, (down_when_shutdown_returns hs (.inr ht) hn).resolve_left (by simp [hl])⟩

end Atap.Lifecycle
