import Atap.Process.Reaping

/-!
# No signal to a child that was reaped

Once a child was reaped, its pid may belong to anyone. A guard, the drop of the last handle and a
signal task therefore all look before they kill. What they look at is true of the kernel (`Inv`)
as long as no wait gives up a status; what is left are the moments in which it is **about to
change**: `send` lets go of the lock before it signals, and does not mind who holds it.

* `Spares`: no wait reaps the child while a signal task has looked and not yet signalled, and no
  signal task looks while a wait that has reaped the child has not yet set `ended`.
* `never_signalled_late`: then no signal is ever late.
* `signalled_late`: each of the three conditions is needed, and the guard of a task that runs a
  child signals late as well.
-/

namespace Atap.Reaping

open Function

/-- The thread has looked, and signals next. -/
def Pc.signals : Pc → Bool
  | .sendGroup | .sendKill => true
  | _ => false

/-- A wait asks the kernel next. -/
def Pc.asks : Pc → Bool
  | .exit .wait p => p.asks
  | _ => false

/-- A signal task looks at `ended` next. -/
def Pc.looks : Pc → Bool
  | .sendEnded _ => true
  | _ => false

variable {T : Type} [Fintype T]

/-- No wait reaps the child while a signal task has looked and not yet signalled. -/
def AsksClear (s : Config T Mem Local) (t : T) (a : Act) : Prop :=
  (s.loc t).pc.asks = true → a = .go → s.mem.child = .exited → ∀ u, (s.loc u).pc.signals = false

/-- No signal task looks while a wait that has reaped the child has not yet set `ended`. -/
def LooksClear (s : Config T Mem Local) (t : T) (a : Act) : Prop :=
  (s.loc t).pc.looks = true → a = .go → ∀ u, (s.loc u).pc.unended = false

instance (s : Config T Mem Local) (t : T) (a : Act) : Decidable (AsksClear s t a) :=
  inferInstanceAs (Decidable (_ → _))

instance (s : Config T Mem Local) (t : T) (a : Act) : Decidable (LooksClear s t a) :=
  inferInstanceAs (Decidable (_ → _))

/-- No status is given up, none is reaped between the look and the signal of another task, and no
task looks between the reap and the record. -/
def Spares (s : Config T Mem Local) (t : T) (a : Act) : Prop :=
  Heeds s t a ∧ AsksClear s t a ∧ LooksClear s t a

instance (s : Config T Mem Local) (t : T) (a : Act) : Decidable (Spares s t a) :=
  inferInstanceAs (Decidable (_ ∧ _))

/-- No signal was late, and none is about to be. -/
structure Safe (m : Mem) (loc : T → Local) : Prop where
  late : m.late = 0
  signals : ∀ t, (loc t).pc.signals = true → m.child ≠ .reaped

section Step

variable [DecidableEq T] {m m' : Mem} {loc : T → Local} {t : T} {pc' : Pc} {s : Bool}

omit [Fintype T] in
/-- A step that neither reaps nor signals. -/
theorem Safe.keep (hs : Safe m loc) (hlate : m'.late = m.late)
    (hchild : m'.child = .reaped → m.child = .reaped)
    (hpc : pc'.signals = true → m'.child ≠ .reaped) :
    Safe m' (update loc t ⟨pc', s⟩) where
  late := hlate.trans hs.late
  signals := forall_update (P := fun l : Local => l.pc.signals = true → m'.child ≠ .reaped) hpc
    fun u _ hu hr => hs.signals u hu (hchild hr)

omit [Fintype T] in
/-- A signal to a child that was not reaped. -/
theorem Safe.kill (hs : Safe m loc) (hne : m.child ≠ .reaped) :
    Safe m.kill (update loc t ⟨pc', s⟩) :=
  hs.keep (if_neg hne) id fun _ => hne

omit [Fintype T] in
/-- The child is reaped while no other thread is about to signal. -/
theorem Safe.reap (hs : Safe m loc) (hothers : ∀ u, u ≠ t → (loc u).pc.signals = false)
    (hpc : pc'.signals = false) :
    Safe { m with child := .reaped } (update loc t ⟨pc', s⟩) where
  late := hs.late
  signals := by
    refine forall_update (P := fun l : Local => l.pc.signals = true → Child.reaped ≠ .reaped)
      (fun h => ?_) fun u hut hu => ?_
    · rw [hpc] at h
      cases h
    · rw [hothers u hut] at hu
      cases hu

/-- A call of `wait_exit` goes on. -/
theorem Safe.exit {a : Act} {r : Role} {p p' : Exit} {c' : Child} (hs : Safe m loc)
    (hi : Inv m loc) (hok : Spares ⟨m, loc⟩ t a) (hp : (loc t).pc = .exit r p)
    (h : ExitStep m.code s a m.child p c' p') :
    Safe { m with child := c' } (update loc t ⟨.exit r p', s⟩) := by
  generalize hc : m.child = c at h
  cases h
  case reap ha hasks _ _ =>
    refine hs.reap (fun u hut => ?_) rfl
    cases r
    case wait => exact hok.2.1 (by rw [hp]; exact hasks) ha hc u
    case guard =>
      rw [(hi.alone t (by rw [hp]; rfl)).2 u hut]
      rfl
  all_goals exact hs.keep rfl (fun h => hc.trans h) nofun

omit [Fintype T] in
theorem Safe.letGo (hs : Safe m loc) : Safe m.letGo.1 (update loc t ⟨m.letGo.2, s⟩) := by
  refine hs.keep rfl id fun h => ?_
  unfold Mem.letGo at h
  split at h <;> cases h

omit [DecidableEq T] in
/-- Where `ended` is not set, and nobody is about to set it, the child was not reaped. -/
theorem Inv.not_reaped_of_ended (hi : Inv m loc) (ht : (loc t).pc.task = true)
    (he : m.ended = false) (hu : ∀ u, (loc u).pc.unended = false) : m.child ≠ .reaped := by
  intro hr
  rcases hi.ended hr with h | ⟨u, h⟩ | h
  · exact Bool.false_ne_true (he.symm.trans h)
  · exact Bool.false_ne_true ((hu u).symm.trans h)
  · exact hi.refs_pos ht h

theorem Safe.step {a : Act} (hs : Safe m loc) (hi : Inv m loc)
    (hok : Spares ⟨m, loc⟩ t a) (h : Step (loc t).stopped a m (loc t).pc m' pc') :
    Safe m' (update loc t ⟨pc', (loc t).stopped⟩) := by
  have hf : Fits m ⟨(loc t).pc, (loc t).stopped⟩ := hi.fits t
  generalize hp : (loc t).pc = pc at h hf
  cases h
  case exit h => exact hs.exit hi hok hp h
  case returned | sent => exact hs.letGo
  case sendOn ha he _ =>
    exact hs.keep rfl id fun _ =>
      hi.not_reaped_of_ended (t := t) (by rw [hp]; rfl) he (hok.2.2 (by rw [hp]; rfl) ha)
  case sendGroup | sendKill => exact hs.kill (hs.signals t (by rw [hp]; rfl))
  case killGroup | killChild => exact hs.kill hf
  case killReap =>
    refine hs.reap (fun u hut => ?_) rfl
    rw [(hi.alone t (by rw [hp]; rfl)).2 u hut]
    rfl
  all_goals exact hs.keep rfl id nofun

end Step

variable [DecidableEq T]

theorem Safe.next {s : Config T Mem Local} {t : T} {a : Act} {m' : Mem} {l' : Local}
    (hs : Safe s.mem s.loc) (hi : Inv s.mem s.loc) (hok : Spares s t a)
    (h : machine.next s.mem (s.loc t) a = some (m', l')) :
    Safe m' (update s.loc t l') := by
  obtain ⟨-, rfl, rfl⟩ | ⟨-, rfl, rfl⟩ | ⟨-, pc', hst, rfl⟩ | ⟨pc', hst, rfl⟩ :=
    next_cases h
  case inl => exact hs.keep rfl nofun fun _ => nofun
  case inr.inl => exact hs.keep rfl id (hs.signals t)
  case inr.inr.inr => exact hs.step hi hok hst
  case inr.inr.inl =>
    cases hst
    case drop => exact Safe.letGo (m := { s.mem with free := s.mem.free - 1 }) ⟨hs.late, hs.signals⟩
    all_goals exact hs.keep rfl id nofun

/-- **A child is never signalled after it was reaped**, by a signal task, the drop of the last
handle or the guard of a task that runs it. -/
theorem never_signalled_late {code : ℕ} {s : Config T Mem Local}
    (hs : machine.Reach (Fresh code) Spares s) : s.mem.late = 0 := by
  have hsafe := hs.invariant (I := fun s => Inv s.mem s.loc ∧ Safe s.mem s.loc) (fun s h => ?_)
    fun _ _ _ _ _ hi hok hn => ⟨hi.1.next hok.1 hn, hi.2.next hi.1 hok hn⟩
  · exact hsafe.2.late
  · refine ⟨h.inv, h.late, fun t ht => ?_⟩
    rw [h.child]
    nofun

/-- A task has a child that will exit with `7` to itself. -/
def guarded : Config (Fin 2) Mem Local where
  mem := ⟨.running, 7, false, none, false, 0, 0, 0⟩
  loc t := ⟨if t = 0 then .exchange else .idle, false⟩

theorem fresh_guarded : Fresh 7 guarded :=
  ⟨rfl, rfl, rfl, rfl, rfl, rfl, rfl, by decide⟩

/-- The child is signalled, and killed by the drop of the last handle. -/
theorem never_signalled_late_pair : ∃ s : Config (Fin 2) Mem Local,
    machine.Reach (Fresh 7) Spares s ∧ s.mem.child = .reaped ∧ s.mem.late = 0 := by
  obtain ⟨s, hs, h⟩ : ∃ s, machine.Reach (Fresh 7) Spares s ∧ s.mem.child = .reaped :=
    (Machine.Reach.init fresh_spawned).exists_of_run ([((1 : Fin 2), .signal true)] ++
      times 6 1 .go ++ [(0, .drop)] ++ times 3 0 .go ++ [(0, .exits), (0, .go)])
      (by decide +kernel)
  exact ⟨s, hs, h, never_signalled_late hs⟩

/-- A wait that has reaped the child is cancelled before it gets out of `wait_exit`, and the child
is killed after it; or the child is reaped after a signal task has looked, and before it signals; or
a signal task looks when the wait that reaped it still has the lock. The guard of a task that runs a
child kills it itself, after it was reaped. -/
theorem signalled_late :
    (∃ s : Config (Fin 2) Mem Local, machine.Reach (Fresh 7)
      (fun s t a => AsksClear s t a ∧ LooksClear s t a) s ∧ 0 < s.mem.late) ∧
    (∃ s : Config (Fin 2) Mem Local, machine.Reach (Fresh 7)
      (fun s t a => Heeds s t a ∧ LooksClear s t a) s ∧ 0 < s.mem.late) ∧
    (∃ s : Config (Fin 2) Mem Local, machine.Reach (Fresh 7)
      (fun s t a => Heeds s t a ∧ AsksClear s t a) s ∧ 0 < s.mem.late) ∧
    ∃ s : Config (Fin 2) Mem Local, machine.Reach (Fresh 7)
      (fun s t a => s.mem.refs = 0 ∧ Machine.unguarded s t a) s ∧ 0 < s.mem.late := by
  refine ⟨(Machine.Reach.init fresh_spawned).exists_of_run (waitForExit ++
      [(0, .go), (0, .cancel)] ++ times 5 0 .go ++ [(1, .signal false)] ++ times 4 1 .go) ?_,
    (Machine.Reach.init fresh_spawned).exists_of_run ([(1, .signal false)] ++ times 3 1 .go ++
      waitForExit ++ [(0, .go), (1, .go)]) ?_,
    (Machine.Reach.init fresh_spawned).exists_of_run (waitForExit ++
      [(0, .go), (1, .signal false)] ++ times 3 1 .go) ?_,
    (Machine.Reach.init fresh_guarded).exists_of_run (times 5 0 .go ++
      [(0, .exits), (0, .go), (0, .cancel)] ++ times 4 0 .go) ?_⟩
  all_goals decide +kernel

end Atap.Reaping
