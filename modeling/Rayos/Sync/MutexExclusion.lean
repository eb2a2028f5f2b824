import Rayos.Sync.Mutex

/-!
# Mutual exclusion

The lock word of a mutex is `MUTEX_LOCKED` exactly while one task is between a successful
`mutex_lock` or `mutex_trylock` and the store of its `mutex_unlock`.  This does not depend on the
scheduler: whatever the queues and the current tasks are, only the compare-exchange and the store touch
the word.

* `taskStep_word` — what a step can do to the lock words;
* `ExclusionInv`, `exclusionInv_step` — the invariant;
* `mutex_exclusive` — every run.
-/

namespace Rayos

open MutexSystem

variable {Cpu Task Mutex : Type} [DecidableEq Cpu] [DecidableEq Task] [DecidableEq Mutex]
variable {s s' : MutexSystem Cpu Task Mutex} {cpu : Cpu} {task : Task}

/-- The lock words and the history are as before, and whoever is about to unlock a mutex now was so
before, or holds it. -/
structure WordKept (s s' : MutexSystem Cpu Task Mutex) : Prop where
  locked : s'.locked = s.locked
  held : s'.held = s.held
  store : ∀ u mt, (s'.code u).base = .mutexUnlock mt .store →
    (s.code u).base = .mutexUnlock mt .store ∨ 0 < s.held u mt

omit [DecidableEq Cpu] [DecidableEq Mutex] in
theorem WordKept.goto (s : MutexSystem Cpu Task Mutex) (task : Task) {code : Code Cpu Task Mutex}
    (hStore : ∀ mt, code.base = .mutexUnlock mt .store →
      (s.code task).base = .mutexUnlock mt .store ∨ 0 < s.held task mt) :
    WordKept s (s.goto task code) := by
  refine ⟨rfl, rfl, fun u mt hBase => ?_⟩
  by_cases hu : u = task
  · subst hu
    simp only [MutexSystem.goto, Function.update_self] at hBase
    exact hStore mt hBase
  · simp only [MutexSystem.goto, Function.update_of_ne hu] at hBase
    exact Or.inl hBase

omit [DecidableEq Cpu] [DecidableEq Mutex] in
/-- Continuing elsewhere than before a store. -/
theorem WordKept.gotoBase (s : MutexSystem Cpu Task Mutex) (task : Task)
    {base : CallFrame Task Mutex} (hBase : ∀ mt, base ≠ .mutexUnlock mt .store) :
    WordKept s (s.gotoBase task base) :=
  WordKept.goto s task fun mt h => absurd h (hBase mt)

omit [DecidableEq Cpu] [DecidableEq Task] [DecidableEq Mutex] in
/-- A change of the queues, the statuses and the current tasks in front. -/
theorem WordKept.of_eq {t : MutexSystem Cpu Task Mutex} (h : WordKept t s')
    (hLocked : t.locked = s.locked) (hHeld : t.held = s.held) (hCode : t.code = s.code) :
    WordKept s s' := by
  refine ⟨by rw [h.locked, hLocked], by rw [h.held, hHeld], fun u mt hBase => ?_⟩
  rw [← hCode, ← hHeld]
  exact h.store u mt hBase

omit [DecidableEq Mutex] in
/-- `scheduler` touches neither the lock words nor where tasks are. -/
theorem schedStep_word {frame : SchedFrame Cpu Task}
    {r : MutexSystem Cpu Task Mutex × Option (SchedFrame Cpu Task)}
    (h : s.schedStep cpu frame = some r) :
    r.1.locked = s.locked ∧ r.1.held = s.held ∧ r.1.code = s.code := by
  obtain ⟨cpuid, pc⟩ := frame
  cases pc with
  | start => cases h; exact ⟨rfl, rfl, rfl⟩
  | exitTest => cases h; exact ⟨rfl, rfl, rfl⟩
  | reap =>
      simp only [MutexSystem.schedStep] at h
      split at h <;> cases h
      exact ⟨rfl, rfl, rfl⟩
  | readyTest => cases h; exact ⟨rfl, rfl, rfl⟩
  | dequeue =>
      simp only [MutexSystem.schedStep] at h
      split at h <;> cases h
      exact ⟨rfl, rfl, rfl⟩
  | setRunning oldTask newTask => cases h; exact ⟨rfl, rfl, rfl⟩
  | requeue oldTask newTask =>
      cases h
      dsimp only
      split <;> exact ⟨rfl, rfl, rfl⟩
  | switch oldTask newTask => cases h; exact ⟨rfl, rfl, rfl⟩

/-- What a step can do to the lock words: nothing, a compare-exchange that succeeds, or the store of
`mutex_unlock`. -/
inductive WordStep (task : Task) (s s' : MutexSystem Cpu Task Mutex) : Prop where
  | kept (h : WordKept s s')
  | won (mt : Mutex) (base : CallFrame Task Mutex) (hWord : s.locked mt = .unlock)
      (hBase : ∀ mt, base ≠ .mutexUnlock mt .store)
      (h : s' = ((s.setLocked mt .locked).setHeld task mt (s.held task mt + 1)).gotoBase task base)
  | released (mt : Mutex) (hBase : (s.code task).base = .mutexUnlock mt .store)
      (h : s' = ((s.setLocked mt .unlock).setHeld task mt (s.held task mt - 1)).gotoBase task
        (.mutexUnlock mt .testEmpty))

omit [DecidableEq Cpu] in
theorem trylock_word (mt : Mutex) {success failure : CallFrame Task Mutex}
    (hSuccess : ∀ mt, success ≠ .mutexUnlock mt .store)
    (hFailure : ∀ mt, failure ≠ .mutexUnlock mt .store) :
    WordStep task s (s.trylock task mt success failure) := by
  unfold MutexSystem.trylock
  split
  · rename_i hWord
    exact .won mt success hWord hSuccess rfl
  · exact .kept (WordKept.gotoBase s task hFailure)

omit [DecidableEq Cpu] in
theorem lockStep_word {mt : Mutex} {pc : LockPc Task} (h : s.lockStep cpu task mt pc = some s') :
    WordStep task s s' := by
  cases pc with
  | trylock =>
      cases h
      exact trylock_word mt (by simp) (by simp)
  | setBlocked =>
      simp only [lockStep] at h
      split at h <;> cases h
      exact .kept ((WordKept.gotoBase _ task (by simp)).of_eq rfl rfl rfl)
  | enqueue current =>
      cases h
      exact .kept ((WordKept.gotoBase _ task (by simp)).of_eq rfl rfl rfl)
  | callScheduler =>
      cases h
      exact .kept (WordKept.goto s task (by simp))

theorem unlockStep_word {mt : Mutex} {pc : UnlockPc Task}
    (hBase : (s.code task).base = .mutexUnlock mt pc)
    (h : s.unlockStep cpu task mt pc = some s') : WordStep task s s' := by
  cases pc with
  | store =>
      cases h
      exact .released mt hBase rfl
  | testEmpty =>
      cases h
      refine .kept (WordKept.gotoBase s task fun mt' => ?_)
      split <;> simp
  | dequeue =>
      simp only [unlockStep] at h
      split at h <;> cases h
      exact .kept ((WordKept.gotoBase _ task (by simp)).of_eq rfl rfl rfl)
  | setReady waiter =>
      cases h
      exact .kept ((WordKept.gotoBase _ task (by simp)).of_eq rfl rfl rfl)
  | enqueueReady waiter =>
      cases h
      exact .kept ((WordKept.gotoBase _ task (by simp)).of_eq rfl rfl rfl)

omit [DecidableEq Cpu] in
theorem exitStep_word {frame : ExitPc → CallFrame Task Mutex} {pc : ExitPc}
    (hFrame : ∀ pc mt, frame pc ≠ .mutexUnlock mt .store)
    (h : s.exitStep cpu task frame pc = some s') : WordStep task s s' := by
  cases pc with
  | setExit =>
      simp only [exitStep] at h
      split at h <;> cases h
      exact .kept ((WordKept.gotoBase _ task (hFrame _)).of_eq rfl rfl rfl)
  | irqDisable =>
      cases h
      exact .kept (WordKept.gotoBase s task (hFrame _))
  | callScheduler =>
      cases h
      exact .kept (WordKept.goto s task fun mt h => absurd h (hFrame _ mt))
  | called =>
      cases h
      exact .kept (WordKept.gotoBase s task (by simp))

theorem run_word (h : s.run cpu task = some s') : WordStep task s s' := by
  unfold MutexSystem.run at h
  split at h
  · -- the interrupt handler
    simp only [Option.map_eq_some_iff] at h
    obtain ⟨r, hSched, rfl⟩ := h
    obtain ⟨hLocked, hHeld, hCode⟩ := schedStep_word hSched
    refine .kept ((WordKept.goto r.1 task fun mt h => Or.inl ?_).of_eq hLocked hHeld hCode)
    rw [hCode]
    exact h
  · split at h
    · -- a call of `scheduler`
      simp only [Option.map_eq_some_iff] at h
      obtain ⟨r, hSched, rfl⟩ := h
      obtain ⟨hLocked, hHeld, hCode⟩ := schedStep_word hSched
      refine .kept ((WordKept.goto r.1 task fun mt h => Or.inl ?_).of_eq hLocked hHeld hCode)
      rw [hCode]
      exact h
    · cases hBase : (s.code task).base with
      | outside =>
          rw [hBase] at h
          cases h
      | mutexLock mt pc =>
          rw [hBase] at h
          exact lockStep_word h
      | mutexTrylock mt =>
          rw [hBase] at h
          cases h
          exact trylock_word mt (by simp) (by simp)
      | mutexUnlock mt pc =>
          rw [hBase] at h
          exact unlockStep_word hBase h
      | kerntaskExit pc =>
          rw [hBase] at h
          exact exitStep_word (by simp) h
      | usertaskExit pc =>
          rw [hBase] at h
          exact exitStep_word (by simp) h

theorem taskStep_word {step : CpuStep Mutex} (h : taskStep s cpu task step = some s') :
    WordStep task s s' := by
  cases step with
  | run => exact run_word h
  | tick =>
      simp only [taskStep] at h
      split at h <;> cases h
      exact .kept (WordKept.goto s task fun mt h => Or.inl h)
  | mutexUnlock mt =>
      simp only [taskStep] at h
      split at h
      · rename_i hHeld
        cases h
        refine .kept (WordKept.goto s task fun mt' h => Or.inr ?_)
        cases h
        exact hHeld.2
      · cases h
  | mutexLock mt =>
      simp only [taskStep] at h
      split at h <;> cases h
      exact .kept (WordKept.gotoBase s task (by simp))
  | mutexTrylock mt =>
      simp only [taskStep] at h
      split at h <;> cases h
      exact .kept (WordKept.gotoBase s task (by simp))
  | kerntaskExit =>
      simp only [taskStep] at h
      split at h <;> cases h
      exact .kept (WordKept.gotoBase s task (by simp))
  | usertaskExit =>
      simp only [taskStep] at h
      split at h <;> cases h
      exact .kept (WordKept.gotoBase s task (by simp))

/-! ## The invariant -/

/-- A mutex is unlocked and nobody holds it, or it is locked and one task holds it, once. -/
def WordInv (s : MutexSystem Cpu Task Mutex) (mt : Mutex) : Prop :=
  s.locked mt = .unlock ∧ (∀ t, s.held t mt = 0) ∨
    s.locked mt = .locked ∧ ∃ t, s.held t mt = 1 ∧ ∀ u, u ≠ t → s.held u mt = 0

/-- Every mutex is as it should be, and whoever is about to unlock one holds it. -/
structure ExclusionInv (s : MutexSystem Cpu Task Mutex) : Prop where
  word : ∀ mt, WordInv s mt
  store : ∀ t mt, (s.code t).base = .mutexUnlock mt .store → 0 < s.held t mt

omit [DecidableEq Cpu] [DecidableEq Task] [DecidableEq Mutex] in
theorem exclusionInv_start (h : MutexStart s) : ExclusionInv s :=
  ⟨fun mt => Or.inl ⟨h.locked mt, fun t => h.held t mt⟩, fun t mt hBase => by simp [h.code] at hBase⟩

omit [DecidableEq Cpu] in
theorem setHeld_same (s : MutexSystem Cpu Task Mutex) (task : Task) (mt : Mutex) (count : Nat) :
    (s.setHeld task mt count).held task mt = count := by
  simp [MutexSystem.setHeld]

omit [DecidableEq Cpu] in
theorem setHeld_other (s : MutexSystem Cpu Task Mutex) (task : Task) (mt : Mutex) (count : Nat)
    {u : Task} {mt' : Mutex} (h : u ≠ task ∨ mt' ≠ mt) : (s.setHeld task mt count).held u mt' = s.held u mt' := by
  by_cases hu : u = task
  · subst hu
    simp [MutexSystem.setHeld, h.resolve_left (by simp)]
  · simp [MutexSystem.setHeld, hu]

omit [DecidableEq Cpu] in
/-- A compare-exchange that succeeds makes its task the holder. -/
theorem WordInv.won {mt mt' : Mutex} (base : CallFrame Task Mutex) (h : WordInv s mt')
    (hWord : s.locked mt = .unlock) :
    WordInv (((s.setLocked mt .locked).setHeld task mt (s.held task mt + 1)).gotoBase task base)
      mt' := by
  by_cases hmt : mt' = mt
  · subst hmt
    obtain ⟨-, hNone⟩ | ⟨hLocked, -⟩ := h
    · refine Or.inr ⟨Function.update_self _ _ _, task, ?_, fun u hu => ?_⟩
      · refine (setHeld_same (s.setLocked mt' .locked) task mt' _).trans ?_
        rw [hNone task]
      · rw [← hNone u]
        exact setHeld_other (s.setLocked mt' .locked) task mt' _ (Or.inl hu)
    · rw [hWord] at hLocked
      cases hLocked
  · have hHeld : ∀ u, (((s.setLocked mt .locked).setHeld task mt
        (s.held task mt + 1)).gotoBase task base).held u mt' = s.held u mt' := fun u =>
      setHeld_other (s.setLocked mt .locked) task mt _ (Or.inr hmt)
    have hLock : (((s.setLocked mt .locked).setHeld task mt
        (s.held task mt + 1)).gotoBase task base).locked mt' = s.locked mt' :=
      Function.update_of_ne hmt _ _
    simp only [WordInv, hHeld, hLock]
    exact h

omit [DecidableEq Cpu] in
/-- The store of the holder leaves the mutex without one. -/
theorem WordInv.released {mt mt' : Mutex} (base : CallFrame Task Mutex) (h : WordInv s mt')
    (hHolds : 0 < s.held task mt) :
    WordInv (((s.setLocked mt .unlock).setHeld task mt (s.held task mt - 1)).gotoBase task base)
      mt' := by
  by_cases hmt : mt' = mt
  · subst hmt
    obtain ⟨-, hNone⟩ | ⟨-, t, hOne, hOther⟩ := h
    · rw [hNone task] at hHolds
      omega
    · have hEq : task = t := by
        by_contra hNe
        rw [hOther task hNe] at hHolds
        omega
      subst hEq
      refine Or.inl ⟨Function.update_self _ _ _, fun u => ?_⟩
      by_cases hu : u = task
      · rw [hu]
        refine (setHeld_same (s.setLocked mt' .unlock) task mt' _).trans ?_
        omega
      · rw [← hOther u hu]
        exact setHeld_other (s.setLocked mt' .unlock) task mt' _ (Or.inl hu)
  · have hHeld : ∀ u, (((s.setLocked mt .unlock).setHeld task mt
        (s.held task mt - 1)).gotoBase task base).held u mt' = s.held u mt' := fun u =>
      setHeld_other (s.setLocked mt .unlock) task mt _ (Or.inr hmt)
    have hLock : (((s.setLocked mt .unlock).setHeld task mt
        (s.held task mt - 1)).gotoBase task base).locked mt' = s.locked mt' :=
      Function.update_of_ne hmt _ _
    simp only [WordInv, hHeld, hLock]
    exact h

theorem exclusionInv_step {step : CpuStep Mutex} (h : ExclusionInv s)
    (hStep : taskStep s cpu task step = some s') : ExclusionInv s' := by
  rcases taskStep_word hStep with hKept | ⟨mt, base, hWord, hBase, rfl⟩ | ⟨mt, hBase, rfl⟩
  · refine ⟨fun mt => ?_, fun t mt hStore => ?_⟩
    · simp only [WordInv, hKept.locked, hKept.held]
      exact h.word mt
    · rw [hKept.held]
      exact (hKept.store t mt hStore).elim (h.store t mt) id
  · refine ⟨fun mt' => (h.word mt').won base hWord, fun t mt' hStore => ?_⟩
    by_cases ht : t = task
    · subst ht
      simp only [MutexSystem.gotoBase, MutexSystem.goto, Function.update_self] at hStore
      exact absurd hStore (hBase mt')
    · have hOld : (s.code t).base = .mutexUnlock mt' .store := by
        simpa [MutexSystem.gotoBase, MutexSystem.goto, ht, MutexSystem.setHeld,
          MutexSystem.setLocked] using hStore
      exact lt_of_lt_of_eq (h.store t mt' hOld)
        (setHeld_other (s.setLocked mt .locked) task mt _ (Or.inl ht)).symm
  · refine ⟨fun mt' => (h.word mt').released _ (h.store task mt hBase), fun t mt' hStore => ?_⟩
    by_cases ht : t = task
    · subst ht
      simp [MutexSystem.gotoBase, MutexSystem.goto] at hStore
    · have hOld : (s.code t).base = .mutexUnlock mt' .store := by
        simpa [MutexSystem.gotoBase, MutexSystem.goto, ht, MutexSystem.setHeld,
          MutexSystem.setLocked] using hStore
      exact lt_of_lt_of_eq (h.store t mt' hOld)
        (setHeld_other (s.setLocked mt .unlock) task mt _ (Or.inl ht)).symm

theorem exclusionInv_of_reachable {Allowed : MutexSystem Cpu Task Mutex → Cpu → CpuStep Mutex → Prop}
    {s0 : MutexSystem Cpu Task Mutex} (hStart : MutexStart s0) (hReach : CpuReachable Allowed s0 s) :
    ExclusionInv s := by
  induction hReach with
  | refl => exact exclusionInv_start hStart
  | tail _ hNext ih =>
      obtain ⟨cpu, step, -, hStep⟩ := hNext
      unfold cpuStep at hStep
      split at hStep
      · cases hStep
      · exact exclusionInv_step ih hStep

end Rayos
