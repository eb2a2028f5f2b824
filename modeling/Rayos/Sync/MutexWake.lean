import Rayos.Sync.MutexPlaces

/-!
# No waiter is left behind

A task that finds a mutex locked marks itself blocked and puts itself on the wait queue, in two steps
after the failed `mutex_trylock`; `mutex_unlock` unlocks the word and then looks at the queue.  An unlock
that finds the queue empty while a task is in between wakes nobody, and if it was the last one the task
sleeps for ever on an unlocked mutex.  The same happens to a task that the timer switches away from in
between: it is blocked, on no queue, and nobody will wake it.

The waiting does not depend on CPUs, ready queues and the scheduler, apart from what `PlaceInv` says.
`WaitView` is what is left without them, `WaitStep` are its steps, and `taskStep_wait` says that the
steps of the code are such steps.  `WaitInv` is the invariant: while somebody waits, or is about to, the
mutex is locked or a task that has been woken, or is about to wake one, is on its way.
-/

namespace Rayos

open MutexSystem

section Wake

variable {Cpu Task Mutex : Type}

/-- A task is between a failed `mutex_trylock` and the end of its `queue_enqueue`. -/
def CallFrame.InWindow (base : CallFrame Task Mutex) (mt : Mutex) : Prop :=
  base = .mutexLock mt .setBlocked ∨ ∃ current, base = .mutexLock mt (.enqueue current)

/-- A task has put itself on the wait queue, or is about to try. -/
def CallFrame.Parked (base : CallFrame Task Mutex) (mt : Mutex) : Prop :=
  base = .mutexLock mt .callScheduler ∨ base = .mutexLock mt .trylock

/-- A task in `mutex_unlock` after the store. -/
def CallFrame.Waking (base : CallFrame Task Mutex) (mt : Mutex) : Prop :=
  ∃ pc, base = .mutexUnlock mt pc ∧ pc ≠ .store

/-- What waiting is about: the lock words, the wait queues, the statuses and where tasks are. -/
structure WaitView (Task Mutex : Type) where
  locked : Mutex → MutexStatus
  waitQueue : Mutex → List Task
  status : Task → TaskStatus
  base : Task → CallFrame Task Mutex

/-- The part of the state that waiting is about. -/
def MutexSystem.view (s : MutexSystem Cpu Task Mutex) : WaitView Task Mutex where
  locked := s.locked
  waitQueue := s.waitQueue
  status := s.status
  base t := (s.code t).base

/-- The call of `mutex_unlock` has taken `t` from the wait queue and not passed it on yet. -/
def CallFrame.Wakes (base : CallFrame Task Mutex) (mt : Mutex) (t : Task) : Prop :=
  base = .mutexUnlock mt (.setReady t) ∨ base = .mutexUnlock mt (.enqueueReady t)

/-- A task is on the wait queue, or in the hands of a task that wakes it. -/
def WaitView.Awaited (v : WaitView Task Mutex) (t : Task) (mt : Mutex) : Prop :=
  t ∈ v.waitQueue mt ∨ ∃ u, (v.base u).Wakes mt t

/-- A task wakes a waiter, or has been woken and tries again. -/
def WaitView.Active (v : WaitView Task Mutex) (u : Task) (mt : Mutex) : Prop :=
  (v.base u).Waking mt ∨ (v.base u).Parked mt ∧ v.status u ≠ .blocked

/-- The mutex is locked, or a task is on the way to it. -/
def WaitView.OnTheWay (v : WaitView Task Mutex) (mt : Mutex) : Prop :=
  v.locked mt = .locked ∨ ∃ u, v.Active u mt

/-- While somebody waits for a mutex, or is about to, somebody is on the way. -/
structure WaitInv (v : WaitView Task Mutex) : Prop where
  parked : ∀ t mt, v.Awaited t mt → (v.base t).Parked mt
  woken : ∀ u mt t, v.base u = .mutexUnlock mt (.enqueueReady t) → v.status t ≠ .blocked
  blocked : ∀ t, v.status t = .blocked → (∃ mt, v.Awaited t mt) ∨
    ∃ mt current, v.base t = .mutexLock mt (.enqueue current)
  queued : ∀ t mt, t ∈ v.waitQueue mt → v.OnTheWay mt
  window : ∀ t mt, (v.base t).InWindow mt → v.OnTheWay mt

/-- The task is neither in `mutex_lock` nor in `mutex_unlock`. -/
def CallFrame.Plain (base : CallFrame Task Mutex) : Prop :=
  (∀ mt pc, base ≠ .mutexLock mt pc) ∧ ∀ mt pc, base ≠ .mutexUnlock mt pc

variable [DecidableEq Task] [DecidableEq Mutex]

/-- The steps of waiting, by `task`. -/
inductive WaitStep (task : Task) (v : WaitView Task Mutex) : WaitView Task Mutex → Prop where
  /-- Nothing that matters here. -/
  | stutter : WaitStep task v v
  /-- `scheduler` marks a task that is about to run. -/
  | dispatch (x : Task) :
      WaitStep task v { v with status := Function.update v.status x .running }
  /-- From a place outside the mutex to another. -/
  | plain (base : CallFrame Task Mutex) (hFrom : (v.base task).Plain) (hTo : base.Plain) :
      WaitStep task v { v with base := Function.update v.base task base }
  /-- An exit function marks the task. -/
  | exit (base : CallFrame Task Mutex) (hFrom : (v.base task).Plain) (hTo : base.Plain) :
      WaitStep task v { v with
        status := Function.update v.status task .exit
        base := Function.update v.base task base }
  | callLock (mt : Mutex) (hFrom : (v.base task).Plain) :
      WaitStep task v { v with base := Function.update v.base task (.mutexLock mt .trylock) }
  | callUnlock (mt : Mutex) (hFrom : (v.base task).Plain) :
      WaitStep task v { v with base := Function.update v.base task (.mutexUnlock mt .store) }
  /-- The compare-exchange succeeds. -/
  | won (mt : Mutex) (hFrom : (v.base task).Plain ∨ v.base task = .mutexLock mt .trylock)
      (hAwaited : ∀ mt, ¬ v.Awaited task mt) :
      WaitStep task v { v with
        locked := Function.update v.locked mt .locked
        base := Function.update v.base task .outside }
  /-- The compare-exchange of `mutex_lock` fails. -/
  | lost (mt : Mutex) (hFrom : v.base task = .mutexLock mt .trylock) (hWord : v.locked mt = .locked)
      (hAwaited : ∀ mt, ¬ v.Awaited task mt) :
      WaitStep task v { v with base := Function.update v.base task (.mutexLock mt .setBlocked) }
  | setBlocked (mt : Mutex) (hFrom : v.base task = .mutexLock mt .setBlocked) :
      WaitStep task v { v with
        status := Function.update v.status task .blocked
        base := Function.update v.base task (.mutexLock mt (.enqueue task)) }
  | enqueue (mt : Mutex) (hFrom : v.base task = .mutexLock mt (.enqueue task)) :
      WaitStep task v { v with
        waitQueue := Function.update v.waitQueue mt (v.waitQueue mt ++ [task])
        base := Function.update v.base task (.mutexLock mt .callScheduler) }
  | callScheduler (mt : Mutex) (hFrom : v.base task = .mutexLock mt .callScheduler) :
      WaitStep task v { v with base := Function.update v.base task (.mutexLock mt .trylock) }
  | store (mt : Mutex) (hFrom : v.base task = .mutexUnlock mt .store) :
      WaitStep task v { v with
        locked := Function.update v.locked mt .unlock
        base := Function.update v.base task (.mutexUnlock mt .testEmpty) }
  /-- Nobody waits, and nobody is about to. -/
  | foundEmpty (mt : Mutex) (hFrom : v.base task = .mutexUnlock mt .testEmpty)
      (hEmpty : v.waitQueue mt = []) (hWindow : ∀ t, ¬ (v.base t).InWindow mt) :
      WaitStep task v { v with base := Function.update v.base task .outside }
  | foundWaiter (mt : Mutex) (hFrom : v.base task = .mutexUnlock mt .testEmpty) :
      WaitStep task v { v with base := Function.update v.base task (.mutexUnlock mt .dequeue) }
  | dequeue (mt : Mutex) (waiter : Task) (rest : List Task)
      (hFrom : v.base task = .mutexUnlock mt .dequeue) (hQueue : v.waitQueue mt = waiter :: rest) :
      WaitStep task v { v with
        waitQueue := Function.update v.waitQueue mt rest
        base := Function.update v.base task (.mutexUnlock mt (.setReady waiter)) }
  | setReady (mt : Mutex) (waiter : Task) (hFrom : v.base task = .mutexUnlock mt (.setReady waiter)) :
      WaitStep task v { v with
        status := Function.update v.status waiter .ready
        base := Function.update v.base task (.mutexUnlock mt (.enqueueReady waiter)) }
  | passOn (mt : Mutex) (waiter : Task)
      (hFrom : v.base task = .mutexUnlock mt (.enqueueReady waiter)) :
      WaitStep task v { v with base := Function.update v.base task .outside }

/-! ## The invariant of waiting -/

variable {task : Task} {v v' : WaitView Task Mutex} {base : CallFrame Task Mutex} {m : Mutex}

omit [DecidableEq Mutex] in
/-- Somebody stays on the way when `task` goes on at `base`. -/
theorem WaitView.OnTheWay.move (h : v.OnTheWay m) (hBase : v'.base = Function.update v.base task base)
    (hLocked : v.locked m = .locked → v'.OnTheWay m)
    (hStatus : ∀ u, u ≠ task → v'.status u = .blocked → v.status u = .blocked)
    (hTask : v.Active task m → v'.OnTheWay m) : v'.OnTheWay m := by
  rcases h with hWord | ⟨u, hActive⟩
  · exact hLocked hWord
  · by_cases hu : u = task
    · subst hu
      exact hTask hActive
    · have hSame : v'.base u = v.base u := by rw [hBase, Function.update_of_ne hu]
      refine Or.inr ⟨u, ?_⟩
      rw [WaitView.Active, hSame]
      exact hActive.imp id fun hBoth => ⟨hBoth.1, fun hB => hBoth.2 (hStatus u hu hB)⟩

omit [DecidableEq Mutex] in
/-- Who is awaited when `task` is at `base`. -/
theorem WaitView.awaited_iff (hBase : v'.base = Function.update v.base task base) {t : Task} :
    v'.Awaited t m ↔
      t ∈ v'.waitQueue m ∨ base.Wakes m t ∨ ∃ u, u ≠ task ∧ (v.base u).Wakes m t := by
  refine or_congr_right ⟨?_, ?_⟩
  · rintro ⟨u, hu⟩
    rw [hBase] at hu
    by_cases hTask : u = task
    · subst hTask
      rw [Function.update_self] at hu
      exact Or.inl hu
    · rw [Function.update_of_ne hTask] at hu
      exact Or.inr ⟨u, hTask, hu⟩
  · rw [hBase]
    rintro (hSelf | ⟨u, hTask, hu⟩)
    · exact ⟨task, by rwa [Function.update_self]⟩
    · exact ⟨u, by rwa [Function.update_of_ne hTask]⟩

omit [DecidableEq Mutex] in
theorem WaitView.awaited_self_iff (task : Task) {t : Task} :
    v.Awaited t m ↔
      t ∈ v.waitQueue m ∨ (v.base task).Wakes m t ∨ ∃ u, u ≠ task ∧ (v.base u).Wakes m t :=
  WaitView.awaited_iff (Function.update_eq_self task v.base).symm

omit [DecidableEq Mutex] in
/-- What has to be shown of a step of `task` to `base`. -/
theorem WaitInv.step (h : WaitInv v) (hBase : v'.base = Function.update v.base task base)
    (hStatus : ∀ t, t ≠ task → v'.status t = .blocked → v.status t = .blocked)
    (hAwaited : ∀ t mt, t ≠ task → v'.Awaited t mt → v.Awaited t mt)
    (hKept : ∀ t mt, t ≠ task → v'.status t = .blocked → v.Awaited t mt → v'.Awaited t mt)
    (hParked : ∀ mt, v'.Awaited task mt → base.Parked mt)
    (hWoken : ∀ u mt t, v'.base u = .mutexUnlock mt (.enqueueReady t) → v'.status t ≠ .blocked)
    (hBlocked : v'.status task = .blocked → (∃ mt, v'.Awaited task mt) ∨
      ∃ mt current, base = .mutexLock mt (.enqueue current))
    (hQueued : ∀ t mt, t ∈ v'.waitQueue mt → v.OnTheWay mt)
    (hWindow : ∀ mt, base.InWindow mt → v'.OnTheWay mt)
    (hLocked : ∀ mt, v.locked mt = .locked → v'.OnTheWay mt)
    (hActive : ∀ mt t, v.Active task mt →
      t ∈ v'.waitQueue mt ∨ (v.base t).InWindow mt → v'.OnTheWay mt) : WaitInv v' := by
  have hSelf : v'.base task = base := by rw [hBase, Function.update_self]
  have hOther : ∀ u, u ≠ task → v'.base u = v.base u := fun u hu => by
    rw [hBase, Function.update_of_ne hu]
  refine ⟨?_, hWoken, ?_, ?_, ?_⟩
  · intro t mt ht
    by_cases hTask : t = task
    · subst hTask
      rw [hSelf]
      exact hParked mt ht
    · rw [hOther t hTask]
      exact h.parked t mt (hAwaited t mt hTask ht)
  · intro t hB
    by_cases hTask : t = task
    · subst hTask
      rw [hSelf]
      exact hBlocked hB
    · rw [hOther t hTask]
      exact (h.blocked t (hStatus t hTask hB)).imp_left
        fun ⟨mt, ht⟩ => ⟨mt, hKept t mt hTask hB ht⟩
  · intro t mt ht
    exact (hQueued t mt ht).move hBase (hLocked mt) hStatus
      fun hTask => hActive mt t hTask (Or.inl ht)
  · intro t mt ht
    by_cases hTask : t = task
    · subst hTask
      exact hWindow mt (hSelf ▸ ht)
    · rw [hOther t hTask] at ht
      exact (h.window t mt ht).move hBase (hLocked mt) hStatus
        fun hAct => hActive mt t hAct (Or.inr ht)

omit [DecidableEq Mutex] in
/-- A step of `task` to `base` in which no waiter is taken or passed on and no queue changes. -/
theorem WaitInv.move (h : WaitInv v) (hBase : v'.base = Function.update v.base task base)
    (hQueue : v'.waitQueue = v.waitQueue)
    (hStatus : ∀ t, t ≠ task → v'.status t = .blocked → v.status t = .blocked)
    (hBlocked : v'.status task = .blocked →
      v.status task = .blocked ∧ (∀ mt current, v.base task ≠ .mutexLock mt (.enqueue current)) ∨
        (∀ mt, ¬ v.Awaited task mt) ∧ ∃ mt current, base = .mutexLock mt (.enqueue current))
    (hFrom : ∀ mt t, ¬ (v.base task).Wakes mt t) (hTo : ∀ mt t, ¬ base.Wakes mt t)
    (hParked : ∀ mt, v.Awaited task mt → base.Parked mt)
    (hLocked : ∀ mt, v.locked mt = .locked → v'.OnTheWay mt)
    (hActive : ∀ mt t, v.Active task mt →
      t ∈ v.waitQueue mt ∨ (v.base t).InWindow mt → v'.OnTheWay mt)
    (hWindow : ∀ mt, base.InWindow mt → v'.OnTheWay mt) : WaitInv v' := by
  have hAwaited : ∀ t mt, v'.Awaited t mt ↔ v.Awaited t mt := by
    intro t mt
    rw [WaitView.awaited_iff hBase, WaitView.awaited_self_iff task, hQueue]
    simp only [hFrom, hTo]
  refine h.step hBase hStatus (fun t mt _ => (hAwaited t mt).mp) (fun t mt _ _ => (hAwaited t mt).mpr)
    (fun mt ht => hParked mt ((hAwaited task mt).mp ht)) ?_ ?_ ?_ hWindow hLocked ?_
  · intro u mt t hu hB
    have hu' : v.base u = .mutexUnlock mt (.enqueueReady t) := by
      by_cases hTask : u = task
      · subst hTask
        rw [hBase, Function.update_self] at hu
        exact absurd (Or.inr hu) (hTo mt t)
      · rwa [hBase, Function.update_of_ne hTask] at hu
    by_cases hTask : t = task
    · subst hTask
      rcases hBlocked hB with ⟨hOld, -⟩ | ⟨hNot, -⟩
      · exact h.woken u mt t hu' hOld
      · exact hNot mt (Or.inr ⟨u, Or.inr hu'⟩)
    · exact h.woken u mt t hu' (hStatus t hTask hB)
  · intro hB
    rcases hBlocked hB with ⟨hOld, hNot⟩ | ⟨-, hTo'⟩
    · rcases h.blocked task hOld with ⟨mt, ht⟩ | ⟨mt, current, ht⟩
      · exact Or.inl ⟨mt, (hAwaited task mt).mpr ht⟩
      · exact absurd ht (hNot mt current)
    · exact Or.inr hTo'
  · intro t mt ht
    rw [hQueue] at ht
    exact h.queued t mt ht
  · intro mt t hAct ht
    rw [hQueue] at ht
    exact hActive mt t hAct ht

omit [DecidableEq Task] [DecidableEq Mutex] in
theorem CallFrame.Plain.not_wakes (h : base.Plain) (mt : Mutex) (t : Task) : ¬ base.Wakes mt t :=
  fun hWakes => hWakes.elim (h.2 _ _) (h.2 _ _)

omit [DecidableEq Task] [DecidableEq Mutex] in
theorem CallFrame.Plain.not_parked (h : base.Plain) (mt : Mutex) : ¬ base.Parked mt :=
  fun hParked => hParked.elim (h.1 _ _) (h.1 _ _)

omit [DecidableEq Task] [DecidableEq Mutex] in
theorem CallFrame.Plain.not_inWindow (h : base.Plain) (mt : Mutex) : ¬ base.InWindow mt :=
  fun hWindow => hWindow.elim (h.1 _ _) fun ⟨_, hEq⟩ => h.1 _ _ hEq

omit [DecidableEq Task] [DecidableEq Mutex] in
theorem CallFrame.Plain.not_active (h : (v.base task).Plain) (mt : Mutex) : ¬ v.Active task mt := by
  rintro (⟨pc, hEq, -⟩ | ⟨hParked, -⟩)
  · exact h.2 _ _ hEq
  · exact h.not_parked mt hParked

omit [DecidableEq Mutex] in
/-- A step of a task that was not in the mutex functions, to a place where it waits for nothing. -/
theorem WaitInv.movePlain (h : WaitInv v) (hFrom : (v.base task).Plain)
    (hBase : v'.base = Function.update v.base task base) (hQueue : v'.waitQueue = v.waitQueue)
    (hStatus : ∀ t, v'.status t = .blocked → v.status t = .blocked)
    (hLocked : ∀ mt, v.locked mt = .locked → v'.locked mt = .locked)
    (hTo : ∀ mt t, ¬ base.Wakes mt t) (hWindow : ∀ mt, ¬ base.InWindow mt) : WaitInv v' :=
  h.move hBase hQueue (fun t _ => hStatus t) (fun hB => Or.inl ⟨hStatus task hB, fun _ _ => hFrom.1 _ _⟩)
    hFrom.not_wakes hTo
    (fun mt hAwaited => absurd (h.parked task mt hAwaited) (hFrom.not_parked mt))
    (fun mt hWord => Or.inl (hLocked mt hWord))
    (fun mt _ hActive => absurd hActive (hFrom.not_active mt))
    (fun mt hIn => absurd hIn (hWindow mt))

attribute [simp] CallFrame.Wakes CallFrame.InWindow CallFrame.Parked CallFrame.Waking

omit [DecidableEq Mutex] in
/-- A step of a task to a place where it wakes a waiter of `mt`, or has been woken. -/
theorem WaitInv.moveActive (h : WaitInv v) (hBase : v'.base = Function.update v.base task base)
    (hQueue : v'.waitQueue = v.waitQueue) (hStatus : v'.status = v.status)
    (hLocked : ∀ m', v.locked m' = .locked → v'.locked m' = .locked ∨ m' = m)
    (hFrom : ∃ pc, v.base task = .mutexUnlock m pc ∧ ∀ t, pc ≠ .setReady t ∧ pc ≠ .enqueueReady t)
    (hTo : ∃ pc, base = .mutexUnlock m pc ∧ pc ≠ .store ∧
      ∀ t, pc ≠ .setReady t ∧ pc ≠ .enqueueReady t) : WaitInv v' := by
  obtain ⟨pc, hPc, hNot⟩ := hFrom
  obtain ⟨pc', rfl, hStore, hNot'⟩ := hTo
  have hActive : v'.OnTheWay m := by
    refine Or.inr ⟨task, Or.inl ⟨pc', ?_, hStore⟩⟩
    rw [hBase, Function.update_self]
  refine h.move hBase hQueue (fun t _ => by rw [hStatus]; exact id) ?_ ?_ ?_ ?_ ?_ ?_ ?_
  · rw [hStatus]
    exact fun hB => Or.inl ⟨hB, by simp [hPc]⟩
  · simp [hPc, hNot]
  · simp [hNot']
  · intro m' hAwaited
    have hParked := h.parked task m' hAwaited
    simp [hPc] at hParked
  · intro m' hWord
    rcases hLocked m' hWord with hLock | rfl
    · exact Or.inl hLock
    · exact hActive
  · intro m' t hAct _
    obtain rfl : m' = m := by
      simp only [WaitView.Active, hPc] at hAct
      simp at hAct
      exact hAct.1.symm
    exact hActive
  · simp

omit [DecidableEq Mutex] in
theorem WaitInv.dispatch (h : WaitInv v) (x : Task) :
    WaitInv { v with status := Function.update v.status x .running } := by
  have hStatus : ∀ t, Function.update v.status x .running t = .blocked → v.status t = .blocked := by
    intro t ht
    by_cases hx : t = x
    · simp [hx] at ht
    · simpa [hx] using ht
  have hWay : ∀ mt, v.OnTheWay mt →
      ({ v with status := Function.update v.status x .running } : WaitView Task Mutex).OnTheWay mt := by
    rintro mt (hWord | ⟨u, hActive⟩)
    · exact Or.inl hWord
    · exact Or.inr ⟨u, hActive.imp id fun hBoth => ⟨hBoth.1, fun hB => hBoth.2 (hStatus u hB)⟩⟩
  exact ⟨h.parked, fun u mt t hu hB => h.woken u mt t hu (hStatus t hB),
    fun t hB => h.blocked t (hStatus t hB), fun t mt ht => hWay mt (h.queued t mt ht),
    fun t mt ht => hWay mt (h.window t mt ht)⟩

theorem WaitInv.won (h : WaitInv v)
    (hFrom : (v.base task).Plain ∨ v.base task = .mutexLock m .trylock)
    (hAwaited : ∀ mt, ¬ v.Awaited task mt) :
    WaitInv { v with
      locked := Function.update v.locked m .locked
      base := Function.update v.base task .outside } := by
  refine h.move rfl rfl (fun _ _ => id) (fun hB => Or.inl ⟨hB, ?_⟩) ?_ (by simp)
    (fun mt ht => absurd ht (hAwaited mt)) ?_ ?_ (by simp)
  · rcases hFrom with hFrom | hFrom
    · exact fun _ _ => hFrom.1 _ _
    · simp [hFrom]
  · rcases hFrom with hFrom | hFrom
    · exact hFrom.not_wakes
    · simp [hFrom]
  · intro mt hWord
    apply Or.inl
    by_cases hMt : mt = m
    · simp [hMt]
    · simpa [hMt] using hWord
  · intro mt t hActive _
    rcases hFrom with hFrom | hFrom
    · exact absurd hActive (hFrom.not_active mt)
    · obtain ⟨rfl, -⟩ : m = mt ∧ _ := by simpa [WaitView.Active, hFrom] using hActive
      exact Or.inl (Function.update_self ..)

omit [DecidableEq Mutex] in
theorem WaitInv.lost (h : WaitInv v) (hFrom : v.base task = .mutexLock m .trylock)
    (hWord : v.locked m = .locked) (hAwaited : ∀ mt, ¬ v.Awaited task mt) :
    WaitInv { v with base := Function.update v.base task (.mutexLock m .setBlocked) } := by
  refine h.move rfl rfl (fun _ _ => id) (fun hB => Or.inl ⟨hB, by simp [hFrom]⟩) (by simp [hFrom])
    (by simp) (fun mt ht => absurd ht (hAwaited mt)) (fun _ => Or.inl) ?_ ?_
  · intro mt t hActive _
    obtain ⟨rfl, -⟩ : m = mt ∧ _ := by simpa [WaitView.Active, hFrom] using hActive
    exact Or.inl hWord
  · intro mt hWindow
    obtain rfl : m = mt := by simpa using hWindow
    exact Or.inl hWord

omit [DecidableEq Mutex] in
theorem WaitInv.setBlocked (h : WaitInv v) (hFrom : v.base task = .mutexLock m .setBlocked) :
    WaitInv { v with
      status := Function.update v.status task .blocked
      base := Function.update v.base task (.mutexLock m (.enqueue task)) } := by
  have hAwaited : ∀ mt, ¬ v.Awaited task mt := by
    intro mt ht
    simpa [hFrom] using h.parked task mt ht
  have hNot : ∀ mt, ¬ v.Active task mt := by simp [WaitView.Active, hFrom]
  refine h.move rfl rfl (fun t ht hB => by simpa [ht] using hB)
    (fun _ => Or.inr ⟨hAwaited, m, task, rfl⟩) (by simp [hFrom]) (by simp)
    (fun mt ht => absurd ht (hAwaited mt)) (fun _ => Or.inl)
    (fun mt t hActive => absurd hActive (hNot mt)) ?_
  · intro mt hWindow
    obtain rfl : m = mt := by simpa using hWindow
    refine (h.window task m (by simp [hFrom])).move rfl Or.inl
      (fun t ht hB => by simpa [ht] using hB) fun hActive => absurd hActive (hNot m)

omit [DecidableEq Mutex] in
theorem WaitInv.callScheduler (h : WaitInv v) (hFrom : v.base task = .mutexLock m .callScheduler) :
    WaitInv { v with base := Function.update v.base task (.mutexLock m .trylock) } := by
  refine h.move rfl rfl (fun _ _ => id) (fun hB => Or.inl ⟨hB, by simp [hFrom]⟩) (by simp [hFrom])
    (by simp) ?_ (fun _ => Or.inl) ?_ (by simp)
  · intro mt ht
    simpa [hFrom] using h.parked task mt ht
  · intro mt t hActive _
    obtain ⟨rfl, hNot⟩ : m = mt ∧ _ := by simpa [WaitView.Active, hFrom] using hActive
    exact Or.inr ⟨task, Or.inr ⟨by simp, hNot⟩⟩

omit [DecidableEq Mutex] in
theorem WaitInv.foundEmpty (h : WaitInv v) (hFrom : v.base task = .mutexUnlock m .testEmpty)
    (hEmpty : v.waitQueue m = []) (hWindow : ∀ t, ¬ (v.base t).InWindow m) :
    WaitInv { v with base := Function.update v.base task .outside } := by
  refine h.move rfl rfl (fun _ _ => id) (fun hB => Or.inl ⟨hB, by simp [hFrom]⟩) (by simp [hFrom])
    (by simp) ?_ (fun _ => Or.inl) ?_ (by simp)
  · intro mt ht
    simpa [hFrom] using h.parked task mt ht
  · intro mt t hActive ht
    obtain rfl : m = mt := by simpa [WaitView.Active, hFrom] using hActive
    rcases ht with ht | ht
    · simp [hEmpty] at ht
    · exact absurd ht (hWindow t)

theorem WaitInv.enqueue (h : WaitInv v) (hFrom : v.base task = .mutexLock m (.enqueue task)) :
    WaitInv { v with
      waitQueue := Function.update v.waitQueue m (v.waitQueue m ++ [task])
      base := Function.update v.base task (.mutexLock m .callScheduler) } := by
  have hNot : ∀ mt, ¬ v.Active task mt := by simp [WaitView.Active, hFrom]
  have hMem : ∀ t mt, t ∈ Function.update v.waitQueue m (v.waitQueue m ++ [task]) mt ↔
      t ∈ v.waitQueue mt ∨ t = task ∧ mt = m := by
    intro t mt
    by_cases hMt : mt = m
    · simp [hMt]
    · simp [hMt]
  have hAwaited : ∀ mt, ¬ v.Awaited task mt := by
    intro mt ht
    simpa [hFrom] using h.parked task mt ht
  refine h.step rfl (fun _ _ => id) ?_ ?_ ?_ ?_ ?_ ?_ (by simp) (fun _ => Or.inl)
    (fun mt t hActive => absurd hActive (hNot mt))
  · intro t mt ht
    rw [WaitView.awaited_iff rfl, WaitView.awaited_self_iff task, hMem]
    simp [hFrom, ht]
  · intro t mt ht _
    rw [WaitView.awaited_self_iff (v := v) task, WaitView.awaited_iff rfl, hMem]
    simp [hFrom, ht]
  · intro mt
    have hOld := hAwaited mt
    rw [WaitView.awaited_self_iff task] at hOld
    rw [WaitView.awaited_iff rfl, hMem]
    grind [CallFrame.Parked, CallFrame.Wakes]
  · intro u mt t hu
    by_cases hTask : u = task
    · simp [hTask] at hu
    · exact h.woken u mt t (by simpa [hTask] using hu)
  · exact fun _ => Or.inl ⟨m, Or.inl ((hMem task m).mpr (Or.inr ⟨rfl, rfl⟩))⟩
  · intro t mt ht
    rcases (hMem t mt).mp ht with hOld | ⟨-, rfl⟩
    · exact h.queued t mt hOld
    · exact h.window task mt (by simp [hFrom])

theorem WaitInv.dequeue (h : WaitInv v) {waiter : Task} {rest : List Task}
    (hFrom : v.base task = .mutexUnlock m .dequeue) (hQueue : v.waitQueue m = waiter :: rest) :
    WaitInv { v with
      waitQueue := Function.update v.waitQueue m rest
      base := Function.update v.base task (.mutexUnlock m (.setReady waiter)) } := by
  have hMem : ∀ t mt, t ∈ v.waitQueue mt ↔
      t ∈ Function.update v.waitQueue m rest mt ∨ t = waiter ∧ mt = m := by
    intro t mt
    by_cases hMt : mt = m
    · simp [hMt, hQueue, or_comm]
    · simp [hMt]
  have hWakes : ∀ t mt, (CallFrame.mutexUnlock m (.setReady waiter)).Wakes mt t ↔
      t = waiter ∧ mt = m := by
    intro t mt
    simp [eq_comm, and_comm]
  have hAwaited : ∀ t mt, WaitView.Awaited { v with
      waitQueue := Function.update v.waitQueue m rest
      base := Function.update v.base task (.mutexUnlock m (.setReady waiter)) } t mt ↔
        v.Awaited t mt := by
    intro t mt
    rw [WaitView.awaited_iff rfl, WaitView.awaited_self_iff (v := v) task, hMem, hWakes]
    simp [hFrom, or_assoc]
  have hActive : WaitView.OnTheWay { v with
      waitQueue := Function.update v.waitQueue m rest
      base := Function.update v.base task (.mutexUnlock m (.setReady waiter)) } m :=
    Or.inr ⟨task, Or.inl ⟨.setReady waiter, Function.update_self .., by simp⟩⟩
  refine h.step rfl (fun _ _ => id) (fun t mt _ => (hAwaited t mt).mp)
    (fun t mt _ _ => (hAwaited t mt).mpr) ?_ ?_ ?_ ?_ (by simp) (fun _ => Or.inl) ?_
  · intro mt ht
    simpa [hFrom] using h.parked task mt ((hAwaited task mt).mp ht)
  · intro u mt t hu
    by_cases hTask : u = task
    · simp [hTask] at hu
    · exact h.woken u mt t (by simpa [hTask] using hu)
  · intro hB
    rcases h.blocked task hB with ⟨mt, ht⟩ | ⟨mt, current, ht⟩
    · exact Or.inl ⟨mt, (hAwaited task mt).mpr ht⟩
    · simp [hFrom] at ht
  · intro t mt ht
    exact h.queued t mt ((hMem t mt).mpr (Or.inl ht))
  · intro mt t hAct _
    obtain rfl : m = mt := by simpa [WaitView.Active, hFrom] using hAct
    exact hActive

omit [DecidableEq Mutex] in
theorem WaitInv.setReady (h : WaitInv v) {waiter : Task}
    (hFrom : v.base task = .mutexUnlock m (.setReady waiter)) :
    WaitInv { v with
      status := Function.update v.status waiter .ready
      base := Function.update v.base task (.mutexUnlock m (.enqueueReady waiter)) } := by
  have hStatus : ∀ t, Function.update v.status waiter .ready t = .blocked →
      v.status t = .blocked := by
    intro t ht
    by_cases hWaiter : t = waiter
    · simp [hWaiter] at ht
    · simpa [hWaiter] using ht
  have hAwaited : ∀ t mt, WaitView.Awaited { v with
      status := Function.update v.status waiter .ready
      base := Function.update v.base task (.mutexUnlock m (.enqueueReady waiter)) } t mt ↔
        v.Awaited t mt := by
    intro t mt
    rw [WaitView.awaited_iff rfl, WaitView.awaited_self_iff (v := v) task]
    simp [hFrom]
  refine h.step rfl (fun t _ => hStatus t) (fun t mt _ => (hAwaited t mt).mp)
    (fun t mt _ _ => (hAwaited t mt).mpr) ?_ ?_ ?_ h.queued (by simp) (fun _ => Or.inl) ?_
  · intro mt ht
    simpa [hFrom] using h.parked task mt ((hAwaited task mt).mp ht)
  · intro u mt t hu
    by_cases hTask : u = task
    · obtain ⟨-, rfl⟩ : m = mt ∧ waiter = t := by simpa [hTask] using hu
      simp
    · exact fun hB => h.woken u mt t (by simpa [hTask] using hu) (hStatus t hB)
  · intro hB
    rcases h.blocked task (hStatus task hB) with ⟨mt, ht⟩ | ⟨mt, current, ht⟩
    · exact Or.inl ⟨mt, (hAwaited task mt).mpr ht⟩
    · simp [hFrom] at ht
  · intro mt t hAct _
    obtain rfl : m = mt := by simpa [WaitView.Active, hFrom] using hAct
    exact Or.inr ⟨task, Or.inl ⟨.enqueueReady waiter, Function.update_self .., by simp⟩⟩

omit [DecidableEq Mutex] in
/-- The waiter is on its way when the task that has woken it is gone. -/
theorem WaitInv.passOn (h : WaitInv v) {waiter : Task}
    (hFrom : v.base task = .mutexUnlock m (.enqueueReady waiter)) :
    WaitInv { v with base := Function.update v.base task .outside } := by
  have hAwake : v.status waiter ≠ .blocked := h.woken task m waiter hFrom
  have hParked : (v.base waiter).Parked m := h.parked waiter m (Or.inr ⟨task, Or.inr hFrom⟩)
  have hOther : waiter ≠ task := by
    rintro rfl
    simp [hFrom] at hParked
  have hAwaited : ∀ t mt, v.Awaited t mt ↔ WaitView.Awaited { v with
      base := Function.update v.base task .outside } t mt ∨ t = waiter ∧ mt = m := by
    intro t mt
    rw [WaitView.awaited_self_iff (v := v) task, WaitView.awaited_iff rfl]
    simp only [hFrom, CallFrame.Wakes]
    grind
  refine h.step rfl (fun t _ => id) (fun t mt _ ht => (hAwaited t mt).mpr (Or.inl ht)) ?_ ?_ ?_ ?_
    h.queued (by simp) (fun _ => Or.inl) ?_
  · intro t mt _ hB ht
    refine ((hAwaited t mt).mp ht).resolve_right ?_
    rintro ⟨rfl, -⟩
    exact hAwake hB
  · intro mt ht
    simpa [hFrom] using h.parked task mt ((hAwaited task mt).mpr (Or.inl ht))
  · intro u mt t hu
    by_cases hTask : u = task
    · simp [hTask] at hu
    · exact h.woken u mt t (by simpa [hTask] using hu)
  · intro hB
    rcases h.blocked task hB with ⟨mt, ht⟩ | ⟨mt, current, ht⟩
    · exact Or.inl ⟨mt, ((hAwaited task mt).mp ht).resolve_right fun hBoth => hOther hBoth.1.symm⟩
    · simp [hFrom] at ht
  · intro mt t hAct _
    obtain rfl : m = mt := by simpa [WaitView.Active, hFrom] using hAct
    refine Or.inr ⟨waiter, Or.inr ⟨?_, hAwake⟩⟩
    simp only [Function.update_of_ne hOther]
    exact hParked

theorem waitInv_step (h : WaitInv v) (hStep : WaitStep task v v') : WaitInv v' := by
  cases hStep with
  | stutter => exact h
  | dispatch x => exact h.dispatch x
  | plain base hFrom hTo =>
      exact h.movePlain hFrom rfl rfl (fun _ => id) (fun _ => id) hTo.not_wakes hTo.not_inWindow
  | exit base hFrom hTo =>
      refine h.movePlain hFrom rfl rfl ?_ (fun _ => id) hTo.not_wakes hTo.not_inWindow
      intro t ht
      by_cases hTask : t = task
      · simp [hTask] at ht
      · simpa [hTask] using ht
  | callLock mt hFrom =>
      exact h.movePlain hFrom rfl rfl (fun _ => id) (fun _ => id) (by simp) (by simp)
  | callUnlock mt hFrom =>
      exact h.movePlain hFrom rfl rfl (fun _ => id) (fun _ => id) (by simp) (by simp)
  | won mt hFrom hAwaited => exact h.won hFrom hAwaited
  | lost mt hFrom hWord hAwaited => exact h.lost hFrom hWord hAwaited
  | setBlocked mt hFrom => exact h.setBlocked hFrom
  | enqueue mt hFrom => exact h.enqueue hFrom
  | callScheduler mt hFrom => exact h.callScheduler hFrom
  | store mt hFrom =>
      refine h.moveActive (m := mt) rfl rfl rfl ?_ ⟨_, hFrom, by simp⟩ ⟨_, rfl, by simp⟩
      intro mt' hWord
      by_cases hMt : mt' = mt
      · exact Or.inr hMt
      · exact Or.inl (by simpa [hMt] using hWord)
  | foundEmpty mt hFrom hEmpty hWindow => exact h.foundEmpty hFrom hEmpty hWindow
  | foundWaiter mt hFrom =>
      exact h.moveActive rfl rfl rfl (fun _ => Or.inl) ⟨_, hFrom, by simp⟩ ⟨_, rfl, by simp⟩
  | dequeue mt waiter rest hFrom hQueue => exact h.dequeue hFrom hQueue
  | setReady mt waiter hFrom => exact h.setReady hFrom
  | passOn mt waiter hFrom => exact h.passOn hFrom

/-! ## The steps of the code -/

variable [DecidableEq Cpu] {s s' : MutexSystem Cpu Task Mutex} {cpu : Cpu}
  {place : Task → Place Cpu Task Mutex}

omit [DecidableEq Cpu] [DecidableEq Mutex] in
theorem view_goto (s : MutexSystem Cpu Task Mutex) (task : Task) (code : Code Cpu Task Mutex) :
    (s.goto task code).view = { s.view with base := Function.update s.view.base task code.base } := by
  simp only [MutexSystem.view, MutexSystem.goto, WaitView.mk.injEq, true_and]
  funext t
  by_cases ht : t = task
  · subst ht
    simp
  · simp [ht]

omit [DecidableEq Cpu] [DecidableEq Mutex] in
/-- A step in a call of `scheduler` leaves the function that has been called where it is. -/
theorem view_goto_same (s : MutexSystem Cpu Task Mutex) {task : Task} {code : Code Cpu Task Mutex}
    (hBase : code.base = (s.code task).base) : (s.goto task code).view = s.view := by
  rw [view_goto, hBase]
  show { s.view with base := Function.update s.view.base task (s.view.base task) } = s.view
  rw [Function.update_eq_self]

omit [DecidableEq Cpu] [DecidableEq Task] [DecidableEq Mutex] in
/-- A running task on no queue is awaited nowhere. -/
theorem PlaceInv.not_awaited (h : PlaceInv place s) (hPlace : place task = .nowhere) (mt : Mutex) :
    ¬ s.view.Awaited task mt := by
  rintro (hQueue | ⟨u, hWakes⟩)
  · have hOn := (h.mem_queue (q := .wait mt)).mp hQueue
    rw [hPlace] at hOn
    cases hOn
  · have hHand : (s.code u).base.waiter? = some task := by
      rcases hWakes with hEq | hEq
      · simp [show (s.code u).base = _ from hEq, CallFrame.waiter?]
      · simp [show (s.code u).base = _ from hEq, CallFrame.waiter?]
    rw [h.waiter u task hHand] at hPlace
    cases hPlace

omit [DecidableEq Mutex] in
/-- A step of `scheduler` is nothing, or marks a task that is about to run. -/
theorem schedStep_wait {frame : SchedFrame Cpu Task} {r : MutexSystem Cpu Task Mutex × _}
    (hStep : s.schedStep cpu frame = some r) :
    (r.1.code = s.code) ∧ (r.1.view = s.view ∨
      ∃ x, r.1.view = { s.view with status := Function.update s.view.status x .running }) := by
  obtain ⟨cpuid, pc⟩ := frame
  cases pc with
  | start | exitTest | readyTest =>
      simp only [MutexSystem.schedStep, Option.some.injEq] at hStep
      subst hStep
      exact ⟨rfl, Or.inl rfl⟩
  | reap =>
      simp only [MutexSystem.schedStep] at hStep
      split at hStep
      · cases hStep
      · cases hStep
        exact ⟨rfl, Or.inl rfl⟩
  | dequeue =>
      simp only [MutexSystem.schedStep] at hStep
      split at hStep
      · cases hStep
        exact ⟨rfl, Or.inl rfl⟩
      · cases hStep
  | setRunning oldTask newTask =>
      cases hStep
      exact ⟨rfl, Or.inr ⟨newTask, rfl⟩⟩
  | requeue oldTask newTask =>
      cases hStep
      constructor
      · simp only
        split <;> rfl
      · left
        simp only
        split <;> rfl
  | switch oldTask newTask =>
      cases hStep
      exact ⟨rfl, Or.inl rfl⟩

omit [DecidableEq Cpu] [DecidableEq Task] [DecidableEq Mutex] in
/-- A task in a function of its own that is not waiting is awaited nowhere. -/
theorem RunsBase.not_awaited (hRuns : RunsBase s cpu task) (h : PlaceInv place s)
    (hBase : ∀ mt, (s.code task).base ≠ .mutexLock mt .callScheduler) (mt : Mutex) :
    ¬ s.view.Awaited task mt := by
  refine h.not_awaited (h.nowhere hRuns.current ?_ ?_) mt
  · simp [Code.sched, hRuns.tick, hRuns.call]
  · simp [Code.Waiting, hRuns.call, hBase]

omit [DecidableEq Cpu] in
theorem trylock_wait (mt : Mutex) (success failure : CallFrame Task Mutex)
    (hWon : s.locked mt = .unlock → WaitStep task s.view { s.view with
      locked := Function.update s.view.locked mt .locked
      base := Function.update s.view.base task success })
    (hLost : s.locked mt = .locked → WaitStep task s.view { s.view with
      base := Function.update s.view.base task failure }) :
    WaitStep task s.view (s.trylock task mt success failure).view := by
  unfold MutexSystem.trylock
  split
  · rename_i hWord
    rw [MutexSystem.gotoBase, view_goto]
    exact hWon hWord
  · rename_i hWord
    rw [MutexSystem.gotoBase, view_goto]
    apply hLost
    cases hEq : s.locked mt with
    | locked => rfl
    | unlock => exact absurd hEq hWord

omit [DecidableEq Cpu] in
theorem lockStep_wait (h : PlaceInv place s) (hRuns : RunsBase s cpu task) {mt : Mutex}
    {pc : LockPc Task} (hBase : (s.code task).base = .mutexLock mt pc)
    (hStep : s.lockStep cpu task mt pc = some s') : WaitStep task s.view s'.view := by
  cases pc with
  | trylock =>
      cases hStep
      have hAwaited := hRuns.not_awaited h (by simp [hBase])
      exact trylock_wait mt _ _ (fun _ => .won mt (Or.inr hBase) hAwaited)
        fun hWord => .lost mt hBase hWord hAwaited
  | setBlocked =>
      simp only [MutexSystem.lockStep, hRuns.current, Option.some.injEq] at hStep
      subst hStep
      rw [MutexSystem.gotoBase, view_goto]
      exact .setBlocked mt hBase
  | enqueue current =>
      cases hStep
      obtain ⟨rfl, -⟩ := h.enqueue task mt current hBase
      rw [MutexSystem.gotoBase, view_goto]
      exact .enqueue mt hBase
  | callScheduler =>
      cases hStep
      rw [view_goto]
      exact .callScheduler mt hBase

theorem unlockStep_wait {mt : Mutex} {pc : UnlockPc Task}
    (hBase : (s.code task).base = .mutexUnlock mt pc)
    (hWindow : pc = .testEmpty → s.waitQueue mt = [] → ∀ t, ¬ (s.code t).base.InWindow mt)
    (hStep : s.unlockStep cpu task mt pc = some s') : WaitStep task s.view s'.view := by
  cases pc with
  | store =>
      cases hStep
      rw [MutexSystem.gotoBase, view_goto]
      exact .store mt hBase
  | testEmpty =>
      cases hStep
      rw [MutexSystem.gotoBase, view_goto]
      split
      · rename_i hEmpty
        exact .foundEmpty mt hBase hEmpty (hWindow rfl hEmpty)
      · exact .foundWaiter mt hBase
  | dequeue =>
      simp only [MutexSystem.unlockStep] at hStep
      split at hStep
      · cases hStep
      · rename_i waiter rest hQueue
        cases hStep
        rw [MutexSystem.gotoBase, view_goto]
        exact .dequeue mt waiter rest hBase hQueue
  | setReady waiter =>
      cases hStep
      rw [MutexSystem.gotoBase, view_goto]
      exact .setReady mt waiter hBase
  | enqueueReady waiter =>
      cases hStep
      rw [MutexSystem.gotoBase, view_goto]
      exact .passOn mt waiter hBase

omit [DecidableEq Cpu] in
theorem exitStep_wait (hRuns : RunsBase s cpu task) {frame : ExitPc → CallFrame Task Mutex}
    (hFrame : ∀ pc, (frame pc).Plain) {pc : ExitPc} (hBase : (s.code task).base = frame pc)
    (hStep : s.exitStep cpu task frame pc = some s') : WaitStep task s.view s'.view := by
  have hFrom : (s.view.base task).Plain := by
    show (s.code task).base.Plain
    rw [hBase]
    exact hFrame pc
  cases pc with
  | setExit =>
      simp only [MutexSystem.exitStep, hRuns.current, Option.some.injEq] at hStep
      subst hStep
      rw [MutexSystem.gotoBase, view_goto]
      exact .exit _ hFrom (hFrame _)
  | irqDisable =>
      cases hStep
      rw [MutexSystem.gotoBase, view_goto]
      exact .plain _ hFrom (hFrame _)
  | callScheduler =>
      cases hStep
      rw [view_goto]
      exact .plain _ hFrom (hFrame _)
  | called =>
      cases hStep
      rw [MutexSystem.gotoBase, view_goto]
      exact .plain _ hFrom (by simp [CallFrame.Plain])

/-- The steps that stay out of the windows, and in which no unlock finds the queue empty while a task
is about to put itself there. -/
def Attentive (s : MutexSystem Cpu Task Mutex) (cpu : Cpu) (step : CpuStep Mutex) : Prop :=
  Orderly s cpu step ∧ (step = .run → ∀ t mt, s.onCpu cpu = some t → (s.code t).sched = none →
    (s.code t).base = .mutexUnlock mt .testEmpty → s.waitQueue mt = [] →
      ∀ u, ¬ (s.code u).base.InWindow mt)

theorem run_wait (h : PlaceInv place s) (hOnCpu : s.onCpu cpu = some task)
    (hAttentive : Attentive s cpu .run) (hStep : s.run cpu task = some s') :
    WaitStep task s.view s'.view := by
  have hSched : ∀ (frame : SchedFrame Cpu Task) (r : MutexSystem Cpu Task Mutex × _)
      (code : Code Cpu Task Mutex), s.schedStep cpu frame = some r →
        code.base = (s.code task).base → WaitStep task s.view (r.1.goto task code).view := by
    intro frame r code hr hBase
    obtain ⟨hCode, hView⟩ := schedStep_wait hr
    rw [view_goto_same _ (by rw [hCode]; exact hBase)]
    rcases hView with hView | ⟨x, hView⟩
    · rw [hView]
      exact .stutter
    · rw [hView]
      exact .dispatch x
  unfold MutexSystem.run at hStep
  split at hStep
  · simp only [Option.map_eq_some_iff] at hStep
    obtain ⟨r, hr, rfl⟩ := hStep
    exact hSched _ r _ hr rfl
  · rename_i hTick
    split at hStep
    · simp only [Option.map_eq_some_iff] at hStep
      obtain ⟨r, hr, rfl⟩ := hStep
      exact hSched _ r _ hr rfl
    · rename_i hCall
      have hRuns : RunsBase s cpu task := ⟨by rw [← h.onCpu]; exact hOnCpu, hCall, hTick⟩
      cases hBase : (s.code task).base with
      | outside =>
          rw [hBase] at hStep
          cases hStep
      | mutexLock mt pc =>
          rw [hBase] at hStep
          exact lockStep_wait h hRuns hBase hStep
      | mutexTrylock mt =>
          rw [hBase] at hStep
          cases hStep
          have hFrom : (s.view.base task).Plain := by
            show (s.code task).base.Plain
            simp [hBase, CallFrame.Plain]
          exact trylock_wait mt _ _
            (fun _ => .won mt (Or.inl hFrom) (hRuns.not_awaited h (by simp [hBase])))
            fun _ => .plain _ hFrom (by simp [CallFrame.Plain])
      | mutexUnlock mt pc =>
          rw [hBase] at hStep
          refine unlockStep_wait hBase (fun hPc hEmpty => ?_) hStep
          exact hAttentive.2 rfl task mt hOnCpu (by simp [Code.sched, hTick, hCall])
            (by rw [hBase, hPc]) hEmpty
      | kerntaskExit pc =>
          rw [hBase] at hStep
          exact exitStep_wait hRuns (fun _ => by simp [CallFrame.Plain]) hBase hStep
      | usertaskExit pc =>
          rw [hBase] at hStep
          exact exitStep_wait hRuns (fun _ => by simp [CallFrame.Plain]) hBase hStep

/-- The steps of the code are steps of waiting. -/
theorem taskStep_wait {step : CpuStep Mutex} (h : PlaceInv place s) (hOnCpu : s.onCpu cpu = some task)
    (hAttentive : Attentive s cpu step) (hStep : taskStep s cpu task step = some s') :
    WaitStep task s.view s'.view := by
  have hIdle : idle (s.code task) = true → (s.view.base task).Plain := by
    intro hIdle
    show (s.code task).base.Plain
    simp [idle_eq hIdle, CallFrame.Plain]
  cases step with
  | run => exact run_wait h hOnCpu hAttentive hStep
  | tick =>
      simp only [taskStep] at hStep
      split at hStep
      · cases hStep
      · cases hStep
        have hSame : (s.goto task { s.code task with tick := some ⟨cpu, .start⟩ }).view = s.view :=
          view_goto_same s rfl
        rw [hSame]
        exact .stutter
  | mutexLock mt =>
      simp only [taskStep] at hStep
      split at hStep
      · rename_i hCode
        cases hStep
        rw [MutexSystem.gotoBase, view_goto]
        exact .callLock mt (hIdle hCode)
      · cases hStep
  | mutexUnlock mt =>
      simp only [taskStep] at hStep
      split at hStep
      · rename_i hCode
        cases hStep
        rw [MutexSystem.gotoBase, view_goto]
        exact .callUnlock mt (hIdle hCode.1)
      · cases hStep
  | mutexTrylock | kerntaskExit | usertaskExit =>
      simp only [taskStep] at hStep
      split at hStep
      · rename_i hCode
        cases hStep
        rw [MutexSystem.gotoBase, view_goto]
        exact .plain _ (hIdle hCode) (by simp [CallFrame.Plain])
      · cases hStep

/-! ## Nobody is stranded -/

omit [DecidableEq Cpu] [DecidableEq Task] [DecidableEq Mutex] in
theorem waitInv_start (h : MutexStart s) : WaitInv s.view := by
  have hBase : ∀ t, s.view.base t = .outside := fun t => by simp [MutexSystem.view, h.code]
  have hQueue : ∀ mt, s.view.waitQueue mt = [] := h.waitQueue
  refine ⟨?_, ?_, fun t hB => absurd hB (h.status t), ?_, ?_⟩
  · simp [WaitView.Awaited, hBase, hQueue]
  · simp [hBase]
  · simp [hQueue]
  · simp [hBase]

theorem waitInv_of_reachable {s0 : MutexSystem Cpu Task Mutex} (hStart : MutexStart s0)
    (hReach : CpuReachable Attentive s0 s) : (∃ place, PlaceInv place s) ∧ WaitInv s.view := by
  induction hReach with
  | refl => exact ⟨placeInv_start hStart, waitInv_start hStart⟩
  | tail _ hNext ih =>
      obtain ⟨⟨place, hPlace⟩, hWait⟩ := ih
      obtain ⟨cpu, step, hAttentive, hStep⟩ := hNext
      unfold cpuStep at hStep
      split at hStep
      · cases hStep
      · rename_i task hOnCpu
        exact ⟨hPlace.taskStep hOnCpu hAttentive.1 hStep,
          waitInv_step hWait (taskStep_wait hPlace hOnCpu hAttentive hStep)⟩

/-- A task waits for `mt`: it is blocked, and on the wait queue or, in `mutex_lock`, on no queue. -/
def BlockedWaiter (s : MutexSystem Cpu Task Mutex) (mt : Mutex) (t : Task) : Prop :=
  s.status t = .blocked ∧
    (t ∈ s.waitQueue mt ∨ (∃ pc, (s.code t).base = .mutexLock mt pc) ∧ ∀ q, t ∉ s.queue q)

/-- The mutex is unlocked, tasks wait for it, and nobody else is in its functions. -/
def Stranded (s : MutexSystem Cpu Task Mutex) (mt : Mutex) : Prop :=
  s.locked mt = .unlock ∧
    (∀ t, (∃ pc, (s.code t).base = .mutexLock mt pc) ∨ (∃ pc, (s.code t).base = .mutexUnlock mt pc) →
      BlockedWaiter s mt t) ∧
    ∃ t, BlockedWaiter s mt t

omit [DecidableEq Task] [DecidableEq Mutex] in
theorem WaitInv.onTheWay_of_waiter (h : WaitInv v) {t : Task} {mt : Mutex}
    (hBlocked : v.status t = .blocked)
    (hWaits : t ∈ v.waitQueue mt ∨ ∃ pc, v.base t = .mutexLock mt pc) : v.OnTheWay mt := by
  rcases hWaits with hQueue | ⟨pc, hBase⟩
  · exact h.queued t mt hQueue
  · rcases h.blocked t hBlocked with ⟨mt', hAwaited⟩ | ⟨mt', current, hEq⟩
    · have hParked := h.parked t mt' hAwaited
      obtain rfl : mt = mt' := by
        rw [hBase] at hParked
        simp only [CallFrame.Parked, CallFrame.mutexLock.injEq] at hParked
        exact hParked.elim And.left And.left
      rcases hAwaited with hQueue | ⟨u, hWakes⟩
      · exact h.queued t mt hQueue
      · refine Or.inr ⟨u, Or.inl ?_⟩
        rcases hWakes with hEq | hEq
        · exact ⟨_, hEq, by simp⟩
        · exact ⟨_, hEq, by simp⟩
    · rw [hBase] at hEq
      obtain ⟨rfl, rfl⟩ : mt = mt' ∧ _ := by simpa using hEq
      exact h.window t mt (Or.inr ⟨current, hBase⟩)

end Wake

/-- Two CPUs with a task each, a third task that is ready on the first, and one mutex. -/
def busyCpus : MutexSystem Bool (Fin 3) Unit where
  locked _ := .unlock
  waitQueue _ := []
  status t := if t = 2 then .ready else .running
  current c := some (if c then 1 else 0)
  taskReadyqueue c := if c then [] else [2]
  taskExitqueue _ := []
  onCpu c := some (if c then 1 else 0)
  code _ := ⟨.outside, none, none⟩
  held _ _ := 0

theorem busyCpus_start : MutexStart busyCpus where
  locked _ := rfl
  waitQueue _ := rfl
  held _ _ := rfl
  code _ := rfl
  onCpu := rfl
  current := by decide
  exit _ := rfl
  nodup := by decide
  ready := by decide
  apart := by decide
  status := by decide

/-- Task 1 holds the mutex, and task 0 cannot lock it. -/
def lockedOut : List (Bool × CpuStep Unit) :=
  [(true, .mutexLock ()), (true, .run), (false, .mutexLock ()), (false, .run)]

/-- Task 1 unlocks the mutex and finds nobody. -/
def unlocked : List (Bool × CpuStep Unit) :=
  [(true, .mutexUnlock ()), (true, .run), (true, .run)]

/-- Task 0 waits in `mutex_lock` and the others are in code of their own. -/
theorem stranded_of_alone {s : MutexSystem Bool (Fin 3) Unit} (hWord : s.locked () = .unlock)
    (hWaiter : BlockedWaiter s () 0)
    (hOthers : (s.code 1).base = .outside ∧ (s.code 2).base = .outside) : Stranded s () := by
  refine ⟨hWord, fun t ht => ?_, 0, hWaiter⟩
  match t with
  | 0 => exact hWaiter
  | 1 => simp [hOthers.1] at ht
  | 2 => simp [hOthers.2] at ht

end Rayos
