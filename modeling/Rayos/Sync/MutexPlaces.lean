import Rayos.Lib.Placement
import Rayos.Sync.Mutex

/-!
# One CPU and one queue for every task

The list node of a task serves the ready queues, the exit queues and the wait queues of all mutexes, and
nothing in the queues keeps a node from being linked twice.  Two windows of `mutex_lock` lead there: the
task puts itself on the wait queue while it is still current, so that `mutex_unlock` on another CPU can
make it ready, and current there, before it has been switched away from; and `scheduler` returns to the
loop when no task is ready, so that the task puts itself on the queue a second time.  A third one is open
to the timer, because `mutex_lock` calls `scheduler` with interrupts on.

`Orderly` excludes the steps that go through these windows, and only these.  `PlaceInv` is the invariant
of the runs that are left: every list node has one place, on a queue or in the hands of a task that moves
it, and the place of a current task is none, the wait queue on which it has just put itself, or, right
before the switch, the queue of its own CPU.
-/

namespace Rayos

open MutexSystem Placement

section Places

variable {Cpu Task Mutex : Type} [DecidableEq Cpu] [DecidableEq Task] [DecidableEq Mutex]

/-- The task that a call of `scheduler` has taken from a ready queue and not switched to yet. -/
def SchedPc.newTask? : SchedPc Task → Option Task
  | .setRunning _ newTask | .requeue _ newTask | .switch _ newTask => some newTask
  | _ => none

/-- The task that a call of `scheduler` switches away from. -/
def SchedPc.oldTask? : SchedPc Task → Option Task
  | .setRunning oldTask _ | .requeue oldTask _ | .switch oldTask _ => some oldTask
  | _ => none

/-- The task that a call of `mutex_unlock` has taken from a wait queue and not passed on yet. -/
def CallFrame.waiter? : CallFrame Task Mutex → Option Task
  | .mutexUnlock _ (.setReady waiter) | .mutexUnlock _ (.enqueueReady waiter) => some waiter
  | _ => none

/-- The call of `scheduler` that a task is in, if it is in one only. -/
def Code.sched (code : Code Cpu Task Mutex) : Option (SchedFrame Cpu Task) :=
  match code.tick with
  | some frame => some frame
  | none => code.call

/-- The task has put itself on the wait queue of `mt` and has not been switched away from since. -/
def Code.Waiting (code : Code Cpu Task Mutex) (mt : Mutex) : Prop :=
  code.base = .mutexLock mt .callScheduler ∧ code.call = none ∨
    code.base = .mutexLock mt .trylock ∧ code.call ≠ none

/-- A queue of list nodes. -/
inductive QueueId (Cpu Mutex : Type) where
  | ready (cpu : Cpu)
  | exit (cpu : Cpu)
  | wait (mt : Mutex)
  deriving DecidableEq

/-- The nodes linked into a queue. -/
def MutexSystem.queue (s : MutexSystem Cpu Task Mutex) : QueueId Cpu Mutex → List Task
  | .ready cpu => s.taskReadyqueue cpu
  | .exit cpu => s.taskExitqueue cpu
  | .wait mt => s.waitQueue mt

/-- No task is current on two CPUs, and no node is linked into two queues or twice into one. -/
structure LinkedOnce (s : MutexSystem Cpu Task Mutex) : Prop where
  current : ∀ c d t, s.current c = some t → s.current d = some t → c = d
  once : ∀ q, (s.queue q).Nodup
  apart : ∀ q r t, t ∈ s.queue q → t ∈ s.queue r → q = r

/-- The steps that stay out of the windows: `mutex_unlock` takes a waiter that is current nowhere, a
call of `scheduler` by a task that is on a wait queue finds a ready task, and the timer does not
interrupt a call of `scheduler`. -/
def Orderly (s : MutexSystem Cpu Task Mutex) (cpu : Cpu) : CpuStep Mutex → Prop
  | .tick => ∀ t, s.onCpu cpu = some t → (s.code t).call = none
  | .run => ∀ t, s.onCpu cpu = some t →
      (∀ mt waiter rest, (s.code t).sched = none → (s.code t).base = .mutexUnlock mt .dequeue →
        s.waitQueue mt = waiter :: rest → ∀ d, s.current d ≠ some waiter) ∧
      ∀ frame mt, (s.code t).call = some frame → frame.pc = .readyTest → t ∈ s.waitQueue mt →
        s.taskReadyqueue frame.cpuid ≠ []
  | _ => True

/-- Where the list node of a task is: on no queue, on a queue, or in the hands of a task that has
taken it from one queue and not put it on another. -/
inductive Place (Cpu Task Mutex : Type) where
  | nowhere
  | on (queue : QueueId Cpu Mutex)
  | unlocker (task : Task)
  | switcher (task : Task)

/-- The queue that a node is on. -/
def Place.queue? : Place Cpu Task Mutex → Option (QueueId Cpu Mutex)
  | .on queue => some queue
  | _ => none

omit [DecidableEq Cpu] [DecidableEq Mutex] in
theorem queue?_update (place : Task → Place Cpu Task Mutex) (task : Task)
    (p : Place Cpu Task Mutex) :
    (fun t => (Function.update place task p t).queue?) =
      Function.update (fun t => (place t).queue?) task p.queue? := by
  funext t
  by_cases ht : t = task
  · subst ht
    simp
  · simp [ht]

omit [DecidableEq Task] in
theorem queue_setReadyqueue (s : MutexSystem Cpu Task Mutex) (cpu : Cpu) (queue : List Task) :
    (s.setReadyqueue cpu queue).queue = Function.update s.queue (.ready cpu) queue := by
  funext q
  cases q <;> simp [MutexSystem.queue, MutexSystem.setReadyqueue, Function.update_apply]

omit [DecidableEq Task] in
theorem queue_setExitqueue (s : MutexSystem Cpu Task Mutex) (cpu : Cpu) (queue : List Task) :
    (s.setExitqueue cpu queue).queue = Function.update s.queue (.exit cpu) queue := by
  funext q
  cases q <;> simp [MutexSystem.queue, MutexSystem.setExitqueue, Function.update_apply]

omit [DecidableEq Task] in
theorem queue_setWaitQueue (s : MutexSystem Cpu Task Mutex) (mt : Mutex) (queue : List Task) :
    (s.setWaitQueue mt queue).queue = Function.update s.queue (.wait mt) queue := by
  funext q
  cases q <;> simp [MutexSystem.queue, MutexSystem.setWaitQueue, Function.update_apply]

/-- Every node has its place, and what is known of a task at its place. -/
structure PlaceInv (place : Task → Place Cpu Task Mutex) (s : MutexSystem Cpu Task Mutex) :
    Prop where
  onCpu : s.onCpu = s.current
  current : ∀ c d t, s.current c = some t → s.current d = some t → c = d
  placed : Placed (fun t => (place t).queue?) s.queue
  waiter : ∀ u t, (s.code u).base.waiter? = some t → place t = .unlocker u
  newTask : ∀ u f t, (s.code u).sched = some f → f.pc.newTask? = some t → place t = .switcher u
  oldTask : ∀ u f t, (s.code u).sched = some f → f.pc.oldTask? = some t → t = u
  sched : ∀ u f, (s.code u).sched = some f → s.current f.cpuid = some u
  oneCall : ∀ u, (s.code u).tick ≠ none → (s.code u).call = none
  /-- A task about to put itself on a wait queue is blocked, and so is on no queue. -/
  enqueue : ∀ t mt current, (s.code t).base = .mutexLock mt (.enqueue current) →
    current = t ∧ s.status t = .blocked ∧ place t = .nowhere
  blocked : ∀ t mt, place t = .on (.wait mt) → s.status t = .blocked
  running : ∀ c t, s.current c = some t →
    place t = .nowhere ∨ (∃ mt, place t = .on (.wait mt) ∧ (s.code t).Waiting mt) ∨
      ∃ f new, (s.code t).sched = some f ∧ f.pc = .switch t new ∧
        (place t = .on (.ready c) ∨ place t = .on (.exit c))

variable {s s' : MutexSystem Cpu Task Mutex} {cpu : Cpu} {task : Task}
  {place : Task → Place Cpu Task Mutex}

omit [DecidableEq Cpu] [DecidableEq Task] [DecidableEq Mutex] in
theorem PlaceInv.linkedOnce (h : PlaceInv place s) : LinkedOnce s :=
  ⟨h.current, h.placed.nodup, fun _ _ _ hq hr => h.placed.apart hq hr⟩

omit [DecidableEq Cpu] [DecidableEq Task] [DecidableEq Mutex] in
theorem PlaceInv.mem_queue (h : PlaceInv place s) {q : QueueId Cpu Mutex} {t : Task} :
    t ∈ s.queue q ↔ place t = .on q := by
  rw [h.placed.mem q t]
  cases place t <;> simp [Place.queue?]

omit [DecidableEq Cpu] [DecidableEq Task] [DecidableEq Mutex] in
theorem placeInv_start (h : MutexStart s) : ∃ place, PlaceInv place s := by
  classical
  refine ⟨fun t => if hReady : ∃ c, t ∈ s.taskReadyqueue c then .on (.ready hReady.choose)
    else .nowhere, ?_⟩
  have hReady : ∀ c t, t ∈ s.taskReadyqueue c → ∀ h' : ∃ c, t ∈ s.taskReadyqueue c,
      h'.choose = c := fun c t ht h' => h.ready _ c t h'.choose_spec ht
  refine
    { onCpu := h.onCpu
      current := h.current
      placed := ⟨?_, ?_⟩
      waiter := by simp [h.code, CallFrame.waiter?]
      newTask := by simp [h.code, Code.sched]
      oldTask := by simp [h.code, Code.sched]
      sched := by simp [h.code, Code.sched]
      oneCall := by simp [h.code]
      enqueue := by simp [h.code]
      blocked := ?_
      running := ?_ }
  · intro q
    cases q with
    | ready c => exact h.nodup c
    | exit c => simp [MutexSystem.queue, h.exit]
    | wait mt => simp [MutexSystem.queue, h.waitQueue]
  · intro q t
    cases q with
    | ready c =>
        simp only [MutexSystem.queue]
        constructor
        · intro ht
          have hEx : ∃ c, t ∈ s.taskReadyqueue c := ⟨c, ht⟩
          simp [dif_pos hEx, hReady c t ht hEx, Place.queue?]
        · intro ht
          split at ht
          · rename_i hEx
            simp only [Place.queue?, Option.some.injEq, QueueId.ready.injEq] at ht
            rw [← ht]
            exact hEx.choose_spec
          · cases ht
    | exit c =>
        simp only [MutexSystem.queue, h.exit, List.not_mem_nil, false_iff]
        split <;> simp [Place.queue?]
    | wait mt =>
        simp only [MutexSystem.queue, h.waitQueue, List.not_mem_nil, false_iff]
        split <;> simp [Place.queue?]
  · intro t mt hPlace
    split at hPlace <;> simp at hPlace
  · intro c t hCur
    left
    rw [dif_neg]
    rintro ⟨d, hd⟩
    exact h.apart c d t hCur hd

/-! ## A step in general -/

omit [DecidableEq Cpu] [DecidableEq Task] [DecidableEq Mutex] in
/-- A current task that neither waits nor is being switched away from is on no queue. -/
theorem PlaceInv.nowhere (h : PlaceInv place s) (hCur : s.current cpu = some task)
    (hSched : (s.code task).sched = none) (hWaiting : ∀ mt, ¬ (s.code task).Waiting mt) :
    place task = .nowhere := by
  rcases h.running cpu task hCur with hPlace | ⟨mt, -, hWait⟩ | ⟨f, new, hFrame, -⟩
  · exact hPlace
  · exact absurd hWait (hWaiting mt)
  · rw [hSched] at hFrame
    cases hFrame

omit [DecidableEq Cpu] [DecidableEq Task] [DecidableEq Mutex] in
/-- A task in somebody's hands is current nowhere. -/
theorem PlaceInv.notCurrent (h : PlaceInv place s) {t u : Task}
    (hPlace : place t = .unlocker u ∨ place t = .switcher u) (d : Cpu) : s.current d ≠ some t := by
  intro hCur
  have hRunning := h.running d t hCur
  grind

omit [DecidableEq Cpu] [DecidableEq Mutex] in
/-- What has to be shown of a step of `task` on `cpu` that makes nothing else current: `task` goes on at
`code`, and the node of `x`, if it is not its own, was neither in the hands of another task nor that of a
current one. -/
theorem PlaceInv.step (h : PlaceInv place s) {code : Code Cpu Task Mutex} {x : Task}
    {p : Place Cpu Task Mutex} (hOnCpu : s'.onCpu = s.onCpu)
    (hCurrent : s'.current = s.current) (hCode : s'.code = Function.update s.code task code)
    (hPlaced : Placed (fun t => (Function.update place x p t).queue?) s'.queue)
    (hNode : x = task ∨ place x ≠ .nowhere ∧ ∀ d, s.current d ≠ some x)
    (hHands : ∀ u, u ≠ task → place x ≠ .unlocker u ∧ place x ≠ .switcher u)
    (hWaiter : ∀ t, code.base.waiter? = some t → Function.update place x p t = .unlocker task)
    (hNew : ∀ f t, code.sched = some f → f.pc.newTask? = some t →
      Function.update place x p t = .switcher task)
    (hOld : ∀ f t, code.sched = some f → f.pc.oldTask? = some t → t = task)
    (hSched : ∀ f, code.sched = some f → s.current f.cpuid = some task)
    (hOne : code.tick ≠ none → code.call = none)
    (hEnqueue : ∀ mt current, code.base = .mutexLock mt (.enqueue current) →
      current = task ∧ s'.status task = .blocked ∧ Function.update place x p task = .nowhere)
    (hStatus : ∀ t, t ≠ task → place t = .nowhere → s'.status t = s.status t)
    (hBlocked : ∀ t mt, Function.update place x p t = .on (.wait mt) → s'.status t = .blocked)
    (hRunning : ∀ c, s.current c = some task →
      Function.update place x p task = .nowhere ∨
        (∃ mt, Function.update place x p task = .on (.wait mt) ∧ code.Waiting mt) ∨
        ∃ f new, code.sched = some f ∧ f.pc = .switch task new ∧
          (Function.update place x p task = .on (.ready c) ∨
            Function.update place x p task = .on (.exit c))) :
    PlaceInv (Function.update place x p) s' := by
  -- another task is where it was, and its node too if it was in hands or the task current
  have hOther : ∀ u, u ≠ task → s'.code u = s.code u := fun u hu => by
    rw [hCode, Function.update_of_ne hu]
  have hSelf : s'.code task = code := by rw [hCode, Function.update_self]
  have hKept : ∀ t u, u ≠ task → place t = .unlocker u ∨ place t = .switcher u →
      Function.update place x p t = place t := by
    intro t u hu ht
    refine Function.update_of_ne ?_ _ _
    rintro rfl
    exact ht.elim (hHands u hu).1 (hHands u hu).2
  refine
    { onCpu := by rw [hOnCpu, hCurrent]; exact h.onCpu
      current := by rw [hCurrent]; exact h.current
      placed := hPlaced
      waiter := ?_
      newTask := ?_
      oldTask := ?_
      sched := ?_
      oneCall := ?_
      enqueue := ?_
      blocked := hBlocked
      running := ?_ }
  · intro u t ht
    by_cases hu : u = task
    · subst hu
      rw [hSelf] at ht
      exact hWaiter t ht
    · rw [hOther u hu] at ht
      have hPlace := h.waiter u t ht
      rw [hKept t u hu (Or.inl hPlace)]
      exact hPlace
  · intro u f t hf ht
    by_cases hu : u = task
    · subst hu
      rw [hSelf] at hf
      exact hNew f t hf ht
    · rw [hOther u hu] at hf
      have hPlace := h.newTask u f t hf ht
      rw [hKept t u hu (Or.inr hPlace)]
      exact hPlace
  · intro u f t hf ht
    by_cases hu : u = task
    · subst hu
      rw [hSelf] at hf
      exact hOld f t hf ht
    · rw [hOther u hu] at hf
      exact h.oldTask u f t hf ht
  · intro u f hf
    rw [hCurrent]
    by_cases hu : u = task
    · subst hu
      rw [hSelf] at hf
      exact hSched f hf
    · rw [hOther u hu] at hf
      exact h.sched u f hf
  · intro u hu
    by_cases hTask : u = task
    · subst hTask
      rw [hSelf] at hu ⊢
      exact hOne hu
    · rw [hOther u hTask] at hu ⊢
      exact h.oneCall u hu
  · intro t mt current ht
    by_cases hTask : t = task
    · subst hTask
      rw [hSelf] at ht
      exact hEnqueue mt current ht
    · rw [hOther t hTask] at ht
      obtain ⟨hEq, hStat, hPlace⟩ := h.enqueue t mt current ht
      have hx : t ≠ x := by
        rintro rfl
        exact hNode.elim hTask fun hBoth => hBoth.1 hPlace
      rw [Function.update_of_ne hx, hStatus t hTask hPlace]
      exact ⟨hEq, hStat, hPlace⟩
  · intro c t ht
    rw [hCurrent] at ht
    by_cases hTask : t = task
    · subst hTask
      rw [hSelf]
      exact hRunning c ht
    · have hx : t ≠ x := by
        rintro rfl
        exact hNode.elim hTask fun hBoth => hBoth.2 c ht
      rw [hOther t hTask, Function.update_of_ne hx]
      exact h.running c t ht

omit [DecidableEq Cpu] [DecidableEq Task] [DecidableEq Mutex] in
theorem PlaceInv.notInHands (h : PlaceInv place s) (hCur : s.current cpu = some task) (u : Task) :
    place task ≠ .unlocker u ∧ place task ≠ .switcher u :=
  ⟨fun hPlace => h.notCurrent (Or.inl hPlace) cpu hCur,
    fun hPlace => h.notCurrent (Or.inr hPlace) cpu hCur⟩

omit [DecidableEq Cpu] [DecidableEq Mutex] in
/-- A step that moves no node, and changes no status of a task that waits or of another task on no
queue. -/
theorem PlaceInv.stepInPlace (h : PlaceInv place s) (hCur : s.current cpu = some task)
    {code : Code Cpu Task Mutex} (hOnCpu : s'.onCpu = s.onCpu) (hCurrent : s'.current = s.current)
    (hCode : s'.code = Function.update s.code task code) (hQueue : s'.queue = s.queue)
    (hStatus : ∀ t, s'.status t = s.status t ∨
      (t = task ∨ place t ≠ .nowhere) ∧ ∀ mt, place t ≠ .on (.wait mt))
    (hWaiter : ∀ t, code.base.waiter? = some t → place t = .unlocker task)
    (hNew : ∀ f t, code.sched = some f → f.pc.newTask? = some t → place t = .switcher task)
    (hOld : ∀ f t, code.sched = some f → f.pc.oldTask? = some t → t = task)
    (hSched : ∀ f, code.sched = some f → f.cpuid = cpu)
    (hOne : code.tick ≠ none → code.call = none)
    (hEnqueue : ∀ mt current, code.base = .mutexLock mt (.enqueue current) →
      current = task ∧ s'.status task = .blocked ∧ place task = .nowhere)
    (hRunning : place task = .nowhere ∨
      (∃ mt, place task = .on (.wait mt) ∧ code.Waiting mt) ∨
      ∃ f new, code.sched = some f ∧ f.pc = .switch task new ∧
        (place task = .on (.ready cpu) ∨ place task = .on (.exit cpu))) :
    PlaceInv place s' := by
  have hSame : Function.update place task (place task) = place := Function.update_eq_self _ _
  rw [← hSame]
  refine h.step hOnCpu hCurrent hCode ?_ (Or.inl rfl) (fun u _ => h.notInHands hCur u) ?_ ?_ hOld
    (fun f hf => by rw [hSched f hf]; exact hCur) hOne ?_ ?_ ?_ ?_
  · rw [hSame, hQueue]
    exact h.placed
  · rw [hSame]
    exact hWaiter
  · rw [hSame]
    exact hNew
  · rw [hSame]
    exact hEnqueue
  · intro t ht hPlace
    exact (hStatus t).resolve_right fun hBoth => hBoth.1.elim ht fun hNot => hNot hPlace
  · intro t mt hPlace
    rw [hSame] at hPlace
    rw [(hStatus t).resolve_right fun hBoth => hBoth.2 mt hPlace]
    exact h.blocked t mt hPlace
  · intro c hc
    rw [hSame, h.current c cpu task hc hCur]
    exact hRunning

/-! ## `mutex_lock` -/

omit [DecidableEq Cpu] [DecidableEq Mutex] in
/-- The running task goes on in code where no node is in its hands. -/
theorem PlaceInv.goto (h : PlaceInv place s) (hCur : s.current cpu = some task)
    {code : Code Cpu Task Mutex} (hWaiter : code.base.waiter? = none)
    (hSched : ∀ f, code.sched = some f → f = ⟨cpu, .start⟩)
    (hOne : code.tick ≠ none → code.call = none)
    (hEnqueue : ∀ mt current, code.base = .mutexLock mt (.enqueue current) →
      (s.code task).base = .mutexLock mt (.enqueue current))
    (hOld : (s.code task).sched = none)
    (hWaiting : ∀ mt, (s.code task).Waiting mt → code.Waiting mt) :
    PlaceInv place (s.goto task code) := by
  refine h.stepInPlace hCur rfl rfl rfl rfl (fun t => Or.inl rfl) (by simp [hWaiter]) ?_ ?_ ?_ hOne
    (fun mt current hBase => h.enqueue task mt current (hEnqueue mt current hBase)) ?_
  · intro f t hf ht
    rw [hSched f hf] at ht
    cases ht
  · intro f t hf ht
    rw [hSched f hf] at ht
    cases ht
  · intro f hf
    rw [hSched f hf]
  · rcases h.running cpu task hCur with hPlace | ⟨mt, hPlace, hWait⟩ | ⟨f, new, hFrame, -⟩
    · exact Or.inl hPlace
    · exact Or.inr (Or.inl ⟨mt, hPlace, hWaiting mt hWait⟩)
    · rw [hOld] at hFrame
      cases hFrame

omit [DecidableEq Cpu] [DecidableEq Mutex] in
/-- A task that is outside `scheduler` changes its own status; it is not waiting. -/
theorem PlaceInv.setOwnStatus (h : PlaceInv place s) (hCur : s.current cpu = some task)
    {status : TaskStatus} {base : CallFrame Task Mutex}
    (hCall : (s.code task).call = none) (hTick : (s.code task).tick = none)
    (hWaiting : ∀ mt, ¬ (s.code task).Waiting mt) (hWaiter : base.waiter? = none)
    (hEnqueue : ∀ mt current, base = .mutexLock mt (.enqueue current) →
      current = task ∧ status = .blocked) :
    PlaceInv place ((s.setStatus task status).gotoBase task base) := by
  have hSched : (s.code task).sched = none := by simp [Code.sched, hCall, hTick]
  have hPlace := h.nowhere hCur hSched hWaiting
  refine h.stepInPlace hCur rfl rfl rfl rfl (fun t => ?_) (by simp [hWaiter]) ?_ ?_ ?_ ?_ ?_
    (Or.inl hPlace)
  · by_cases ht : t = task
    · exact Or.inr ⟨Or.inl ht, by simp [ht, hPlace]⟩
    · exact Or.inl (Function.update_of_ne ht _ _)
  · simp [Code.sched, MutexSystem.setStatus, hCall, hTick]
  · simp [Code.sched, MutexSystem.setStatus, hCall, hTick]
  · simp [Code.sched, MutexSystem.setStatus, hCall, hTick]
  · simp [MutexSystem.setStatus, hTick]
  · intro mt current hBase
    obtain ⟨hEq, hStatus⟩ := hEnqueue mt current hBase
    exact ⟨hEq, by simp [MutexSystem.gotoBase, MutexSystem.goto, MutexSystem.setStatus, hStatus],
      hPlace⟩

/-- The task puts itself on the wait queue. -/
theorem PlaceInv.enqueueWait (h : PlaceInv place s) (hCur : s.current cpu = some task) {mt : Mutex}
    {current : Task} (hCode : s.code task = ⟨.mutexLock mt (.enqueue current), none, none⟩) :
    PlaceInv (Function.update place task (.on (.wait mt)))
      ((s.setWaitQueue mt (s.waitQueue mt ++ [current])).gotoBase task
        (.mutexLock mt .callScheduler)) := by
  obtain ⟨hSelf, hStatus, hPlace⟩ := h.enqueue task mt current (by simp [hCode])
  subst hSelf
  refine h.step rfl rfl rfl ?_ (Or.inl rfl) (fun u _ => h.notInHands hCur u) ?_ ?_ ?_ ?_ ?_ ?_ ?_ ?_ ?_
  · rw [queue?_update]
    exact (queue_setWaitQueue s mt _).symm ▸ h.placed.push (by simp [hPlace, Place.queue?])
  · simp [CallFrame.waiter?]
  · simp [Code.sched, MutexSystem.setWaitQueue, hCode]
  · simp [Code.sched, MutexSystem.setWaitQueue, hCode]
  · simp [Code.sched, MutexSystem.setWaitQueue, hCode]
  · simp [MutexSystem.setWaitQueue, hCode]
  · simp
  · intro t _ _
    rfl
  · intro t mt' ht
    show s.status t = .blocked
    by_cases hTask : t = current
    · rw [hTask]
      exact hStatus
    · rw [Function.update_of_ne hTask] at ht
      exact h.blocked t mt' ht
  · intro c _
    refine Or.inr (Or.inl ⟨mt, Function.update_self _ _ _, Or.inl ⟨rfl, ?_⟩⟩)
    simp [MutexSystem.setWaitQueue, hCode]

/-! ## `mutex_unlock` -/

/-- A waiter that is current nowhere is taken from the wait queue. -/
theorem PlaceInv.dequeueWait (h : PlaceInv place s) (hCur : s.current cpu = some task) {mt : Mutex}
    (hCode : s.code task = ⟨.mutexUnlock mt .dequeue, none, none⟩) {waiter : Task}
    {rest : List Task} (hQueue : s.waitQueue mt = waiter :: rest)
    (hWaiter : ∀ d, s.current d ≠ some waiter) :
    PlaceInv (Function.update place waiter (.unlocker task))
      ((s.setWaitQueue mt rest).gotoBase task (.mutexUnlock mt (.setReady waiter))) := by
  have hPlace : place waiter = .on (.wait mt) :=
    h.mem_queue.mp (show waiter ∈ s.waitQueue mt by rw [hQueue]; exact List.mem_cons_self)
  have hNe : task ≠ waiter := by
    rintro rfl
    exact hWaiter cpu hCur
  have hTask := h.nowhere hCur (by simp [hCode, Code.sched]) (by simp [hCode, Code.Waiting])
  refine h.step rfl rfl rfl ?_ (Or.inr ⟨by simp [hPlace], hWaiter⟩) (fun u _ => by simp [hPlace])
    ?_ ?_ ?_ ?_ ?_ ?_ ?_ ?_ ?_
  · rw [queue?_update]
    exact (queue_setWaitQueue s mt _).symm ▸
      h.placed.pop (show s.queue (.wait mt) = waiter :: rest from hQueue)
  · intro t ht
    cases ht
    exact Function.update_self _ _ _
  · simp [Code.sched, MutexSystem.setWaitQueue, hCode]
  · simp [Code.sched, MutexSystem.setWaitQueue, hCode]
  · simp [Code.sched, MutexSystem.setWaitQueue, hCode]
  · simp [MutexSystem.setWaitQueue, hCode]
  · simp
  · intro t _ _
    rfl
  · intro t mt' ht
    by_cases hEq : t = waiter
    · rw [hEq, Function.update_self] at ht
      cases ht
    · rw [Function.update_of_ne hEq] at ht
      exact h.blocked t mt' ht
  · intro c _
    left
    rw [Function.update_of_ne hNe]
    exact hTask

omit [DecidableEq Cpu] [DecidableEq Mutex] in
/-- The waiter in hand is marked ready. -/
theorem PlaceInv.setReady (h : PlaceInv place s) (hCur : s.current cpu = some task) {mt : Mutex}
    {waiter : Task} (hCode : s.code task = ⟨.mutexUnlock mt (.setReady waiter), none, none⟩) :
    PlaceInv place
      ((s.setStatus waiter .ready).gotoBase task (.mutexUnlock mt (.enqueueReady waiter))) := by
  have hPlace : place waiter = .unlocker task := h.waiter task waiter (by simp [hCode, CallFrame.waiter?])
  refine h.stepInPlace hCur rfl rfl rfl rfl (fun t => ?_) ?_ ?_ ?_ ?_ ?_ (by simp)
    (Or.inl (h.nowhere hCur (by simp [hCode, Code.sched]) (by simp [hCode, Code.Waiting])))
  · by_cases ht : t = waiter
    · exact Or.inr (by simp [ht, hPlace])
    · exact Or.inl (Function.update_of_ne ht _ _)
  · intro t ht
    cases ht
    exact hPlace
  · simp [Code.sched, MutexSystem.setStatus, hCode]
  · simp [Code.sched, MutexSystem.setStatus, hCode]
  · simp [Code.sched, MutexSystem.setStatus, hCode]
  · simp [MutexSystem.setStatus, hCode]

/-- The waiter in hand is put on the ready queue. -/
theorem PlaceInv.enqueueReady (h : PlaceInv place s) (hCur : s.current cpu = some task) {mt : Mutex}
    {waiter : Task} (hCode : s.code task = ⟨.mutexUnlock mt (.enqueueReady waiter), none, none⟩) :
    PlaceInv (Function.update place waiter (.on (.ready cpu)))
      ((s.setReadyqueue cpu (s.taskReadyqueue cpu ++ [waiter])).gotoBase task .outside) := by
  have hPlace : place waiter = .unlocker task :=
    h.waiter task waiter (by simp [hCode, CallFrame.waiter?])
  have hNot := h.notCurrent (Or.inl hPlace)
  have hNe : task ≠ waiter := by
    rintro rfl
    exact hNot cpu hCur
  have hTask := h.nowhere hCur (by simp [hCode, Code.sched]) (by simp [hCode, Code.Waiting])
  refine h.step rfl rfl rfl ?_ (Or.inr ⟨by simp [hPlace], hNot⟩)
    (fun u hu => by simp [hPlace, Ne.symm hu]) ?_ ?_ ?_ ?_ ?_ ?_ ?_ ?_ ?_
  · rw [queue?_update]
    exact (queue_setReadyqueue s cpu _).symm ▸ h.placed.push (by simp [hPlace, Place.queue?])
  · simp [CallFrame.waiter?]
  · simp [Code.sched, MutexSystem.setReadyqueue, hCode]
  · simp [Code.sched, MutexSystem.setReadyqueue, hCode]
  · simp [Code.sched, MutexSystem.setReadyqueue, hCode]
  · simp [MutexSystem.setReadyqueue, hCode]
  · simp
  · intro t _ _
    rfl
  · intro t mt' ht
    by_cases hEq : t = waiter
    · rw [hEq, Function.update_self] at ht
      cases ht
    · rw [Function.update_of_ne hEq] at ht
      exact h.blocked t mt' ht
  · intro c _
    left
    rw [Function.update_of_ne hNe]
    exact hTask

/-! ## `scheduler` -/

/-- The function that the task has called is where it was, the call of `scheduler` goes on at `frame`,
and a task that waits still does, unless its own call of `scheduler` returns. -/
structure Resumes (code code' : Code Cpu Task Mutex) (frame : Option (SchedFrame Cpu Task)) : Prop where
  base : code'.base = code.base
  sched : code'.sched = frame
  oneCall : code'.tick ≠ none → code'.call = none
  waiting : ∀ mt, frame ≠ none ∨ code.call = none → code.Waiting mt → code'.Waiting mt

omit [DecidableEq Cpu] [DecidableEq Task] [DecidableEq Mutex] in
theorem resumes_tick {code : Code Cpu Task Mutex} (hCall : code.call = none)
    (frame : Option (SchedFrame Cpu Task)) :
    Resumes code { code with tick := frame } frame := by
  refine ⟨rfl, ?_, fun _ => hCall, fun mt _ hWait => ?_⟩
  · cases frame <;> simp [Code.sched, hCall]
  · simpa [Code.Waiting] using hWait

omit [DecidableEq Cpu] [DecidableEq Task] [DecidableEq Mutex] in
theorem resumes_call {code : Code Cpu Task Mutex} {f : SchedFrame Cpu Task}
    (hTick : code.tick = none) (hCall : code.call = some f) (frame : Option (SchedFrame Cpu Task)) :
    Resumes code { code with call := frame } frame := by
  refine ⟨rfl, by simp [Code.sched, hTick], fun h => absurd hTick h, fun mt hFrame hWait => ?_⟩
  have hSome : frame ≠ none := hFrame.resolve_right (by simp [hCall])
  simp only [Code.Waiting, hCall] at hWait ⊢
  simpa [hSome] using hWait

omit [DecidableEq Cpu] [DecidableEq Mutex] in
/-- `scheduler` goes on without moving a node; a status that it changes is that of a task in its hands. -/
theorem PlaceInv.schedInPlace (h : PlaceInv place s) (hCur : s.current cpu = some task)
    {f : SchedFrame Cpu Task} (hFrame : (s.code task).sched = some f)
    {code : Code Cpu Task Mutex} {frame : Option (SchedFrame Cpu Task)}
    (hResumes : Resumes (s.code task) code frame) (hOnCpu : s'.onCpu = s.onCpu)
    (hCurrent : s'.current = s.current) (hCode : s'.code = s.code) (hQueue : s'.queue = s.queue)
    (hStatus : ∀ t, s'.status t = s.status t ∨ place t = .switcher task)
    (hNew : ∀ g t, frame = some g → g.pc.newTask? = some t → f.pc.newTask? = some t)
    (hOld : ∀ g t, frame = some g → g.pc.oldTask? = some t → t = task)
    (hCpu : ∀ g, frame = some g → g.cpuid = cpu)
    (hSwitch : ∀ old new, f.pc ≠ .switch old new)
    (hWaiting : ∀ mt, place task = .on (.wait mt) → (s.code task).Waiting mt → code.Waiting mt) :
    PlaceInv place (s'.goto task code) := by
  refine h.stepInPlace hCur hOnCpu hCurrent (by simp [MutexSystem.goto, hCode]) hQueue ?_ ?_ ?_ ?_ ?_
    hResumes.oneCall ?_ ?_
  · intro t
    exact (hStatus t).imp_right fun hPlace => by simp [hPlace]
  · rw [hResumes.base]
    exact h.waiter task
  · intro g t hg ht
    rw [hResumes.sched] at hg
    exact h.newTask task f t hFrame (hNew g t hg ht)
  · intro g t hg ht
    rw [hResumes.sched] at hg
    exact hOld g t hg ht
  · intro g hg
    rw [hResumes.sched] at hg
    exact hCpu g hg
  · intro mt current hBase
    rw [hResumes.base] at hBase
    obtain ⟨hEq, hBlocked, hPlace⟩ := h.enqueue task mt current hBase
    refine ⟨hEq, ?_, hPlace⟩
    show s'.status task = .blocked
    rw [(hStatus task).resolve_right fun hHand => by rw [hPlace] at hHand; cases hHand]
    exact hBlocked
  · rcases h.running cpu task hCur with hPlace | ⟨mt, hPlace, hWait⟩ | ⟨g, new, hg, hPc, -⟩
    · exact Or.inl hPlace
    · exact Or.inr (Or.inl ⟨mt, hPlace, hWaiting mt hPlace hWait⟩)
    · rw [hFrame, Option.some.injEq] at hg
      subst hg
      exact absurd hPc (hSwitch task new)

omit [DecidableEq Cpu] [DecidableEq Task] [DecidableEq Mutex] in
/-- Until right before the switch, the tasks on the queues of the CPU are current nowhere. -/
theorem PlaceInv.queueNotCurrent (h : PlaceInv place s) (hCur : s.current cpu = some task)
    {f : SchedFrame Cpu Task} (hFrame : (s.code task).sched = some f)
    (hSwitch : ∀ old new, f.pc ≠ .switch old new) {t : Task}
    (hPlace : place t = .on (.ready cpu) ∨ place t = .on (.exit cpu)) (d : Cpu) :
    s.current d ≠ some t := by
  intro hd
  rcases h.running d t hd with hNone | ⟨mt, hWait, -⟩ | ⟨g, new, hg, hPc, hOn⟩
  · rw [hNone] at hPlace
    simp at hPlace
  · rw [hWait] at hPlace
    simp at hPlace
  · have hEq : d = cpu := by
      rcases hPlace with hPlace | hPlace <;> rcases hOn with hOn | hOn <;>
        · rw [hPlace] at hOn
          simp at hOn
          try exact hOn.symm
    subst hEq
    rw [hCur, Option.some.injEq] at hd
    subst hd
    rw [hFrame, Option.some.injEq] at hg
    subst hg
    exact hSwitch task new hPc

/-- `scheduler` takes the first node of a queue of its CPU. -/
theorem PlaceInv.schedPop (h : PlaceInv place s) (hCur : s.current cpu = some task)
    {f g : SchedFrame Cpu Task} (hFrame : (s.code task).sched = some f)
    {code : Code Cpu Task Mutex} (hResumes : Resumes (s.code task) code (some g))
    {q : QueueId Cpu Mutex} (hq : q = .ready cpu ∨ q = .exit cpu) {x : Task} {rest : List Task}
    (hPop : s.queue q = x :: rest) {p : Place Cpu Task Mutex} (hp : p.queue? = none)
    (hOnCpu : s'.onCpu = s.onCpu) (hCurrent : s'.current = s.current) (hCode : s'.code = s.code)
    (hQueue : s'.queue = Function.update s.queue q rest) (hStatus : s'.status = s.status)
    (hNew : ∀ t, g.pc.newTask? = some t → t = x ∧ p = .switcher task)
    (hOld : ∀ t, g.pc.oldTask? = some t → t = task) (hCpu : g.cpuid = cpu)
    (hSwitch : ∀ old new, f.pc ≠ .switch old new) :
    PlaceInv (Function.update place x p) (s'.goto task code) := by
  have hPlace : place x = .on q := h.mem_queue.mp (by rw [hPop]; exact List.mem_cons_self)
  have hNot : ∀ d, s.current d ≠ some x :=
    h.queueNotCurrent hCur hFrame hSwitch (by rcases hq with rfl | rfl <;> simp [hPlace])
  have hNe : task ≠ x := by
    rintro rfl
    exact hNot cpu hCur
  have hGoto : (s'.goto task code).code = Function.update s.code task code := by
    simp [MutexSystem.goto, hCode]
  refine h.step hOnCpu hCurrent hGoto ?_
    (Or.inr ⟨by simp [hPlace], hNot⟩) (fun u _ => by simp [hPlace]) ?_ ?_ ?_ ?_ hResumes.oneCall ?_ ?_
    ?_ ?_
  · rw [queue?_update, hp]
    exact hQueue.symm ▸ h.placed.pop hPop
  · intro t ht
    rw [hResumes.base] at ht
    have hHand := h.waiter task t ht
    rw [Function.update_of_ne (by rintro rfl; rw [hPlace] at hHand; cases hHand)]
    exact hHand
  · intro g' t hg ht
    rw [hResumes.sched, Option.some.injEq] at hg
    subst hg
    obtain ⟨rfl, rfl⟩ := hNew t ht
    exact Function.update_self _ _ _
  · intro g' t hg ht
    rw [hResumes.sched, Option.some.injEq] at hg
    subst hg
    exact hOld t ht
  · intro g' hg
    rw [hResumes.sched, Option.some.injEq] at hg
    subst hg
    rw [hCpu]
    exact hCur
  · intro mt current hBase
    rw [hResumes.base] at hBase
    obtain ⟨hEq, hBlocked, hNone⟩ := h.enqueue task mt current hBase
    refine ⟨hEq, ?_, by rw [Function.update_of_ne hNe]; exact hNone⟩
    show s'.status task = .blocked
    rw [hStatus]
    exact hBlocked
  · intro t _ _
    show s'.status t = s.status t
    rw [hStatus]
  · intro t mt ht
    show s'.status t = .blocked
    rw [hStatus]
    by_cases hEq : t = x
    · rw [hEq, Function.update_self] at ht
      rw [ht] at hp
      cases hp
    · rw [Function.update_of_ne hEq] at ht
      exact h.blocked t mt ht
  · intro c hc
    rw [Function.update_of_ne hNe]
    rcases h.running c task hc with hNone | ⟨mt, hWait, hWaiting⟩ | ⟨g', new, hg, hPc, -⟩
    · exact Or.inl hNone
    · exact Or.inr (Or.inl ⟨mt, hWait, hResumes.waiting mt (Or.inl (by simp)) hWaiting⟩)
    · rw [hFrame, Option.some.injEq] at hg
      subst hg
      exact absurd hPc (hSwitch task new)

/-- Right before the switch, `scheduler` puts the task itself on a queue of its CPU; it does not wait. -/
theorem PlaceInv.schedPush (h : PlaceInv place s) (hCur : s.current cpu = some task) {newTask : Task}
    (hFrame : (s.code task).sched = some ⟨cpu, .requeue task newTask⟩)
    {code : Code Cpu Task Mutex}
    (hResumes : Resumes (s.code task) code (some ⟨cpu, .switch task newTask⟩))
    {q : QueueId Cpu Mutex} (hq : q = .ready cpu ∨ q = .exit cpu)
    (hOnCpu : s'.onCpu = s.onCpu) (hCurrent : s'.current = s.current) (hCode : s'.code = s.code)
    (hQueue : s'.queue = Function.update s.queue q (s.queue q ++ [task]))
    (hStatus : s'.status = s.status) (hNotBlocked : s.status task ≠ .blocked) :
    PlaceInv (Function.update place task (.on q)) (s'.goto task code) := by
  have hPlace : place task = .nowhere := by
    rcases h.running cpu task hCur with hNone | ⟨mt, hWait, -⟩ | ⟨g, new, hg, hPc, -⟩
    · exact hNone
    · exact absurd (h.blocked task mt hWait) hNotBlocked
    · rw [hFrame, Option.some.injEq] at hg
      subst hg
      cases hPc
  have hKept : ∀ t, t ≠ task → Function.update place task (.on q) t = place t := fun t ht =>
    Function.update_of_ne ht _ _
  have hGoto : (s'.goto task code).code = Function.update s.code task code := by
    simp [MutexSystem.goto, hCode]
  refine h.step hOnCpu hCurrent hGoto ?_ (Or.inl rfl)
    (fun u _ => h.notInHands hCur u) ?_ ?_ ?_ ?_ hResumes.oneCall ?_ ?_ ?_ ?_
  · rw [queue?_update]
    exact hQueue.symm ▸ h.placed.push (by simp [hPlace, Place.queue?])
  · intro t ht
    rw [hResumes.base] at ht
    have hHand := h.waiter task t ht
    rw [hKept t (by rintro rfl; rw [hPlace] at hHand; cases hHand)]
    exact hHand
  · intro g t hg ht
    rw [hResumes.sched, Option.some.injEq] at hg
    subst hg
    have hHand := h.newTask task _ t hFrame ht
    rw [hKept t (by rintro rfl; rw [hPlace] at hHand; cases hHand)]
    exact hHand
  · intro g t hg ht
    rw [hResumes.sched, Option.some.injEq] at hg
    subst hg
    cases ht
    rfl
  · intro g hg
    rw [hResumes.sched, Option.some.injEq] at hg
    subst hg
    exact hCur
  · intro mt current hBase
    rw [hResumes.base] at hBase
    exact absurd (h.enqueue task mt current hBase).2.1 hNotBlocked
  · intro t _ _
    show s'.status t = s.status t
    rw [hStatus]
  · intro t mt ht
    show s'.status t = .blocked
    rw [hStatus]
    by_cases hEq : t = task
    · rw [hEq, Function.update_self] at ht
      rcases hq with rfl | rfl <;> cases ht
    · rw [hKept t hEq] at ht
      exact h.blocked t mt ht
  · intro c hc
    rw [h.current c cpu task hc hCur]
    refine Or.inr (Or.inr ⟨_, newTask, hResumes.sched, rfl, ?_⟩)
    rw [Function.update_self]
    rcases hq with rfl | rfl
    · exact Or.inl rfl
    · exact Or.inr rfl

omit [DecidableEq Mutex] in
/-- The switch: the task in hand becomes current, and the old task is current nowhere. -/
theorem PlaceInv.switchTo (h : PlaceInv place s) (hCur : s.current cpu = some task) {oldTask newTask : Task}
    (hFrame : (s.code task).sched = some ⟨cpu, .switch oldTask newTask⟩)
    {code : Code Cpu Task Mutex} (hResumes : Resumes (s.code task) code none) :
    PlaceInv (Function.update place newTask .nowhere)
      (MutexSystem.goto { s with
        current := Function.update s.current cpu (some newTask)
        onCpu := Function.update s.onCpu cpu (some newTask) } task code) := by
  have hHand : place newTask = .switcher task := h.newTask task _ newTask hFrame rfl
  have hNot := h.notCurrent (Or.inr hHand)
  have hKept : ∀ t, t ≠ newTask → Function.update place newTask .nowhere t = place t := fun t ht =>
    Function.update_of_ne ht _ _
  have hSelf : Function.update s.code task code task = code := Function.update_self _ _ _
  have hOther : ∀ u, u ≠ task → Function.update s.code task code u = s.code u := fun u hu =>
    Function.update_of_ne hu _ _
  -- the task goes on where `scheduler` was called, and its call is over
  have hBase : ∀ u, (Function.update s.code task code u).base = (s.code u).base := by
    intro u
    by_cases hu : u = task
    · rw [hu, hSelf, hResumes.base]
    · rw [hOther u hu]
  have hCalls : ∀ u f, (Function.update s.code task code u).sched = some f →
      u ≠ task ∧ (s.code u).sched = some f := by
    intro u f hf
    by_cases hu : u = task
    · rw [hu, hSelf, hResumes.sched] at hf
      cases hf
    · rw [hOther u hu] at hf
      exact ⟨hu, hf⟩
  have hElse : ∀ c t, t ≠ newTask → Function.update s.current cpu (some newTask) c = some t →
      s.current c = some t ∧ t ≠ task := by
    intro c t ht hc
    by_cases hEq : c = cpu
    · rw [hEq, Function.update_self, Option.some.injEq] at hc
      exact absurd hc.symm ht
    · rw [Function.update_of_ne hEq] at hc
      refine ⟨hc, ?_⟩
      rintro rfl
      exact hEq (h.current c cpu t hc hCur)
  refine
    { onCpu := by simp only [MutexSystem.goto, h.onCpu]
      current := ?_
      placed := ?_
      waiter := ?_
      newTask := ?_
      oldTask := ?_
      sched := ?_
      oneCall := ?_
      enqueue := ?_
      blocked := ?_
      running := ?_ }
  · -- the new task was current nowhere, so this CPU is the only one
    intro c d t hc hd
    by_cases ht : t = newTask
    · subst ht
      have hOnly : ∀ e, Function.update s.current cpu (some t) e = some t → e = cpu := by
        intro e he
        by_contra hNe
        rw [Function.update_of_ne hNe] at he
        exact hNot e he
      rw [hOnly c hc, hOnly d hd]
    · exact h.current c d t (hElse c t ht hc).1 (hElse d t ht hd).1
  · -- a task that is handed over is on no queue, before and after
    have hSame : (fun t => (Function.update place newTask .nowhere t).queue?) =
        fun t => (place t).queue? := by
      rw [queue?_update]
      exact (Function.update_eq_self_iff).mpr (by simp [hHand, Place.queue?])
    rw [hSame]
    exact h.placed
  · -- what `mutex_unlock` holds is not the new task
    intro u t ht
    have hWaiter : (s.code u).base.waiter? = some t := by
      rw [← hBase u]
      exact ht
    have hPlace := h.waiter u t hWaiter
    rw [hKept t (by rintro rfl; rw [hHand] at hPlace; cases hPlace)]
    exact hPlace
  · -- no other `scheduler` has the new task in its hands
    intro u f t hf ht
    obtain ⟨hu, hf⟩ := hCalls u f hf
    have hPlace := h.newTask u f t hf ht
    rw [hKept t (by rintro rfl; rw [hHand] at hPlace; cases hPlace; exact hu rfl)]
    exact hPlace
  · intro u f t hf ht
    exact h.oldTask u f t (hCalls u f hf).2 ht
  · -- another call of `scheduler` is on another CPU
    intro u f hf
    obtain ⟨hu, hf⟩ := hCalls u f hf
    have hc := h.sched u f hf
    have hNe : f.cpuid ≠ cpu := by
      intro hEq
      rw [hEq, hCur, Option.some.injEq] at hc
      exact hu hc.symm
    exact (Function.update_of_ne hNe _ _).trans hc
  · intro u hu
    by_cases hTask : u = task
    · subst hTask
      simp only [MutexSystem.goto, hSelf] at hu ⊢
      exact hResumes.oneCall hu
    · simp only [MutexSystem.goto, hOther u hTask] at hu ⊢
      exact h.oneCall u hu
  · intro t mt current ht
    have hLock : (s.code t).base = .mutexLock mt (.enqueue current) := by
      rw [← hBase t]
      exact ht
    obtain ⟨hEq, hStatus, hPlace⟩ := h.enqueue t mt current hLock
    rw [hKept t (by rintro rfl; rw [hHand] at hPlace; cases hPlace)]
    exact ⟨hEq, hStatus, hPlace⟩
  · intro t mt ht
    by_cases hEq : t = newTask
    · rw [hEq, Function.update_self] at ht
      cases ht
    · rw [hKept t hEq] at ht
      exact h.blocked t mt ht
  · -- the new task is off every queue from here on
    intro c t hc
    by_cases hEq : t = newTask
    · rw [hEq, Function.update_self]
      exact Or.inl rfl
    · obtain ⟨hc', hTask⟩ := hElse c t hEq hc
      rw [hKept t hEq]
      simp only [MutexSystem.goto, hOther t hTask]
      exact h.running c t hc'

/-- Every step of `scheduler`. -/
theorem PlaceInv.schedStep (h : PlaceInv place s) (hCur : s.current cpu = some task)
    {f : SchedFrame Cpu Task} (hFrame : (s.code task).sched = some f)
    {r : MutexSystem Cpu Task Mutex × Option (SchedFrame Cpu Task)}
    (hStep : s.schedStep cpu f = some r) {code : Code Cpu Task Mutex}
    (hResumes : Resumes (s.code task) code r.2)
    (hReturn : f.pc = .readyTest → r.2 = none → ∀ mt, place task = .on (.wait mt) →
      (s.code task).Waiting mt → code.Waiting mt) :
    ∃ place', PlaceInv place' (r.1.goto task code) := by
  have hCpu : f.cpuid = cpu := h.current _ _ task (h.sched task f hFrame) hCur
  obtain ⟨cpuid, pc⟩ := f
  simp only at hCpu
  subst hCpu
  cases pc with
  | start =>
      simp only [MutexSystem.schedStep, hCur, Option.isSome_some, if_true, Option.some.injEq] at hStep
      subst hStep
      refine ⟨place, h.schedInPlace hCur hFrame hResumes rfl rfl rfl rfl (fun t => Or.inl rfl)
        ?_ ?_ (by simp) (by simp) fun mt _ hWait => hResumes.waiting mt (Or.inl (by simp)) hWait⟩
      · intro g t hg ht
        cases hg
        cases ht
      · intro g t hg ht
        cases hg
        cases ht
  | exitTest =>
      simp only [MutexSystem.schedStep, Option.some.injEq] at hStep
      subst hStep
      refine ⟨place, h.schedInPlace hCur hFrame hResumes rfl rfl rfl rfl (fun t => Or.inl rfl)
        ?_ ?_ (by simp) (by simp) fun mt _ hWait => hResumes.waiting mt (Or.inl (by simp)) hWait⟩
      · intro g t hg ht
        cases hg
        split at ht <;> cases ht
      · intro g t hg ht
        cases hg
        split at ht <;> cases ht
  | reap =>
      simp only [MutexSystem.schedStep] at hStep
      split at hStep
      · cases hStep
      · rename_i x rest hQueue
        rw [Option.some.injEq] at hStep
        subst hStep
        exact ⟨_, h.schedPop hCur hFrame hResumes (Or.inr rfl) hQueue (p := .nowhere) rfl rfl rfl rfl
          (queue_setExitqueue s cpuid rest) rfl (by simp [SchedPc.newTask?])
          (by simp [SchedPc.oldTask?]) rfl (by simp)⟩
  | readyTest =>
      -- with nothing ready `scheduler` returns, and a waiter on its queue goes back to `mutex_lock`
      simp only [MutexSystem.schedStep, Option.some.injEq] at hStep
      subst hStep
      refine ⟨place, h.schedInPlace hCur hFrame hResumes rfl rfl rfl rfl (fun t => Or.inl rfl)
        ?_ ?_ ?_ (by simp) fun mt hPlace hWait => ?_⟩
      · intro g t hg ht
        split at hg <;> cases hg
        cases ht
      · intro g t hg ht
        split at hg <;> cases hg
        cases ht
      · intro g hg
        split at hg <;> cases hg
        rfl
      · by_cases hEmpty : s.taskReadyqueue cpuid = []
        · exact hReturn rfl (by simp [hEmpty]) mt hPlace hWait
        · exact hResumes.waiting mt (Or.inl (by simp [hEmpty])) hWait
  | dequeue =>
      simp only [MutexSystem.schedStep, hCur] at hStep
      split at hStep
      · rename_i oldTask newTask rest hOld hQueue
        rw [Option.some.injEq] at hOld
        subst hOld
        rw [Option.some.injEq] at hStep
        subst hStep
        -- off the ready queue and into the hands of this call
        refine ⟨_, h.schedPop hCur hFrame hResumes (Or.inl rfl) hQueue (p := .switcher task) rfl rfl rfl
          rfl (queue_setReadyqueue s cpuid rest) rfl ?_ ?_ rfl (by simp)⟩
        · intro t ht
          cases ht
          exact ⟨rfl, rfl⟩
        · intro t ht
          cases ht
          rfl
      · cases hStep
  | setRunning oldTask newTask =>
      simp only [MutexSystem.schedStep, Option.some.injEq] at hStep
      subst hStep
      have hOld : oldTask = task := h.oldTask task _ oldTask hFrame rfl
      have hHand : place newTask = .switcher task := h.newTask task _ newTask hFrame rfl
      refine ⟨place, h.schedInPlace hCur hFrame hResumes rfl rfl rfl rfl (fun t => ?_) ?_ ?_ (by simp)
        (by simp) fun mt _ hWait => hResumes.waiting mt (Or.inl (by simp)) hWait⟩
      · by_cases ht : t = newTask
        · exact Or.inr (by rw [ht]; exact hHand)
        · exact Or.inl (Function.update_of_ne ht _ _)
      · intro g t hg ht
        cases hg
        exact ht
      · intro g t hg ht
        cases hg
        cases ht
        exact hOld
  | requeue oldTask newTask =>
      -- which queue the old task goes to depends on its status; a blocked one is on a wait queue already
      simp only [MutexSystem.schedStep, Option.some.injEq] at hStep
      subst hStep
      obtain rfl : oldTask = task := h.oldTask task _ oldTask hFrame rfl
      have hStay : PlaceInv place (s.goto oldTask code) := by
        refine h.schedInPlace hCur hFrame hResumes rfl rfl rfl rfl (fun t => Or.inl rfl) ?_ ?_
          (by simp) (by simp) fun mt _ hWait => hResumes.waiting mt (Or.inl (by simp)) hWait
        · intro g t hg ht
          cases hg
          exact ht
        · intro g t hg ht
          cases hg
          cases ht
          rfl
      cases hStatus : s.status oldTask with
      | running =>
          exact ⟨_, h.schedPush hCur hFrame hResumes (Or.inl rfl) rfl rfl rfl
            (queue_setReadyqueue s cpuid _) rfl (by simp [hStatus])⟩
      | exit =>
          exact ⟨_, h.schedPush hCur hFrame hResumes (Or.inr rfl) rfl rfl rfl
            (queue_setExitqueue s cpuid _) rfl (by simp [hStatus])⟩
      | blocked => exact ⟨place, hStay⟩
      | dead => exact ⟨place, hStay⟩
      | ready => exact ⟨place, hStay⟩
  | switch oldTask newTask =>
      simp only [MutexSystem.schedStep, Option.some.injEq] at hStep
      subst hStep
      exact ⟨_, h.switchTo hCur hFrame hResumes⟩

/-! ## Every step -/

omit [DecidableEq Cpu] [DecidableEq Task] [DecidableEq Mutex] in
/-- The lock words and the history do not matter. -/
theorem PlaceInv.of_eq (h : PlaceInv place s) (hWait : s'.waitQueue = s.waitQueue)
    (hStatus : s'.status = s.status) (hCurrent : s'.current = s.current)
    (hReady : s'.taskReadyqueue = s.taskReadyqueue) (hExit : s'.taskExitqueue = s.taskExitqueue)
    (hOnCpu : s'.onCpu = s.onCpu) (hCode : s'.code = s.code) : PlaceInv place s' := by
  have hQueue : s'.queue = s.queue := by
    funext q
    cases q with
    | ready c => simp only [MutexSystem.queue, hReady]
    | exit c => simp only [MutexSystem.queue, hExit]
    | wait mt => simp only [MutexSystem.queue, hWait]
  refine ⟨by rw [hOnCpu, hCurrent]; exact h.onCpu, by rw [hCurrent]; exact h.current,
    by rw [hQueue]; exact h.placed, ?_, ?_, ?_, ?_, ?_, ?_, ?_, ?_⟩
  · rw [hCode]
    exact h.waiter
  · rw [hCode]
    exact h.newTask
  · rw [hCode]
    exact h.oldTask
  · rw [hCode, hCurrent]
    exact h.sched
  · rw [hCode]
    exact h.oneCall
  · rw [hCode, hStatus]
    exact h.enqueue
  · rw [hStatus]
    exact h.blocked
  · rw [hCode, hCurrent]
    exact h.running

/-- What is known of the task that runs a step of the function it has called. -/
structure RunsBase (s : MutexSystem Cpu Task Mutex) (cpu : Cpu) (task : Task) : Prop where
  current : s.current cpu = some task
  call : (s.code task).call = none
  tick : (s.code task).tick = none

omit [DecidableEq Cpu] [DecidableEq Task] [DecidableEq Mutex] in
theorem RunsBase.code_eq (h : RunsBase s cpu task) {base : CallFrame Task Mutex}
    (hBase : (s.code task).base = base) : s.code task = ⟨base, none, none⟩ := by
  have hCall := h.call
  have hTick := h.tick
  cases hCode : s.code task with
  | mk base' call tick =>
      rw [hCode] at hBase hCall hTick
      simp only at hBase hCall hTick
      rw [hBase, hCall, hTick]

omit [DecidableEq Cpu] [DecidableEq Mutex] in
/-- A task that does not wait goes on in another function, or elsewhere in the same. -/
theorem PlaceInv.gotoBase (h : PlaceInv place s) (hRuns : RunsBase s cpu task)
    {base : CallFrame Task Mutex} (hWaiter : base.waiter? = none)
    (hEnqueue : ∀ mt current, base ≠ .mutexLock mt (.enqueue current))
    (hWaiting : ∀ mt, (s.code task).base ≠ .mutexLock mt .callScheduler) :
    PlaceInv place (s.gotoBase task base) := by
  refine h.goto hRuns.current hWaiter ?_ (fun hTick => absurd hRuns.tick hTick)
    (fun mt current hBase => absurd hBase (hEnqueue mt current)) ?_ ?_
  · simp [Code.sched, hRuns.call, hRuns.tick]
  · simp [Code.sched, hRuns.call, hRuns.tick]
  · intro mt hWait
    rcases hWait with ⟨hBase, -⟩ | ⟨-, hCall⟩
    · exact absurd hBase (hWaiting mt)
    · exact absurd hRuns.call hCall

omit [DecidableEq Cpu] in
theorem PlaceInv.trylock (h : PlaceInv place s) (hRuns : RunsBase s cpu task) {mt : Mutex}
    {success failure : CallFrame Task Mutex} (hSuccess : success.waiter? = none)
    (hFailure : failure.waiter? = none)
    (hEnqueue : ∀ mt current, success ≠ .mutexLock mt (.enqueue current) ∧
      failure ≠ .mutexLock mt (.enqueue current))
    (hWaiting : ∀ mt, (s.code task).base ≠ .mutexLock mt .callScheduler) :
    PlaceInv place (s.trylock task mt success failure) := by
  unfold MutexSystem.trylock
  split
  · refine PlaceInv.gotoBase (s := (s.setLocked mt .locked).setHeld task mt (s.held task mt + 1))
      (h.of_eq rfl rfl rfl rfl rfl rfl rfl) ⟨hRuns.current, hRuns.call, hRuns.tick⟩ hSuccess
      (fun mt current => (hEnqueue mt current).1) hWaiting
  · exact h.gotoBase hRuns hFailure (fun mt current => (hEnqueue mt current).2) hWaiting

theorem PlaceInv.lockStep (h : PlaceInv place s) (hRuns : RunsBase s cpu task) {mt : Mutex}
    {pc : LockPc Task} (hBase : (s.code task).base = .mutexLock mt pc)
    (hStep : s.lockStep cpu task mt pc = some s') : ∃ place', PlaceInv place' s' := by
  have hCode := hRuns.code_eq hBase
  cases pc with
  | trylock =>
      cases hStep
      exact ⟨place, h.trylock hRuns rfl rfl (by simp) (by simp [hBase])⟩
  | setBlocked =>
      simp only [MutexSystem.lockStep, hRuns.current, Option.some.injEq] at hStep
      subst hStep
      refine ⟨place, h.setOwnStatus hRuns.current hRuns.call hRuns.tick ?_ rfl ?_⟩
      · simp [hCode, Code.Waiting]
      · intro mt' current hEq
        cases hEq
        exact ⟨rfl, rfl⟩
  | enqueue current =>
      cases hStep
      exact ⟨_, h.enqueueWait hRuns.current hCode⟩
  | callScheduler =>
      cases hStep
      refine ⟨place, h.goto hRuns.current rfl ?_ ?_ (by simp) ?_ ?_⟩
      · simp [Code.sched, hCode, eq_comm]
      · simp [hCode]
      · simp [Code.sched, hCode]
      · intro mt' hWait
        simp only [Code.Waiting, hCode] at hWait ⊢
        simpa using hWait

theorem PlaceInv.unlockStep (h : PlaceInv place s) (hRuns : RunsBase s cpu task) {mt : Mutex}
    {pc : UnlockPc Task} (hBase : (s.code task).base = .mutexUnlock mt pc)
    (hWaiter : ∀ waiter rest, pc = .dequeue → s.waitQueue mt = waiter :: rest →
      ∀ d, s.current d ≠ some waiter)
    (hStep : s.unlockStep cpu task mt pc = some s') : ∃ place', PlaceInv place' s' := by
  have hCode := hRuns.code_eq hBase
  cases pc with
  | store =>
      cases hStep
      exact ⟨place, PlaceInv.gotoBase
        (s := (s.setLocked mt .unlock).setHeld task mt (s.held task mt - 1))
        (h.of_eq rfl rfl rfl rfl rfl rfl rfl) ⟨hRuns.current, hRuns.call, hRuns.tick⟩ rfl (by simp)
        (by simp [MutexSystem.setHeld, MutexSystem.setLocked, hBase])⟩
  | testEmpty =>
      cases hStep
      refine ⟨place, h.gotoBase hRuns ?_ ?_ (by simp [hBase])⟩
      · split <;> rfl
      · intro mt' current
        split <;> simp
  | dequeue =>
      simp only [MutexSystem.unlockStep] at hStep
      split at hStep
      · cases hStep
      · rename_i waiter rest hQueue
        cases hStep
        exact ⟨_, h.dequeueWait hRuns.current hCode hQueue (hWaiter waiter rest rfl hQueue)⟩
  | setReady waiter =>
      cases hStep
      exact ⟨place, h.setReady hRuns.current hCode⟩
  | enqueueReady waiter =>
      cases hStep
      exact ⟨_, h.enqueueReady hRuns.current hCode⟩

omit [DecidableEq Cpu] [DecidableEq Mutex] in
theorem PlaceInv.exitStep (h : PlaceInv place s) (hRuns : RunsBase s cpu task)
    {frame : ExitPc → CallFrame Task Mutex} (hWaiter : ∀ pc, (frame pc).waiter? = none)
    (hLock : ∀ pc mt lock, frame pc ≠ .mutexLock mt lock) {pc : ExitPc}
    (hBase : (s.code task).base = frame pc)
    (hStep : s.exitStep cpu task frame pc = some s') : PlaceInv place s' := by
  have hCode := hRuns.code_eq hBase
  cases pc with
  | setExit =>
      simp only [MutexSystem.exitStep, hRuns.current, Option.some.injEq] at hStep
      subst hStep
      refine h.setOwnStatus hRuns.current hRuns.call hRuns.tick ?_ (hWaiter _)
        (fun mt current hEq => absurd hEq (hLock _ _ _))
      simp [hCode, Code.Waiting, hLock]
  | irqDisable =>
      cases hStep
      exact h.gotoBase hRuns (hWaiter _) (fun mt current => hLock _ _ _)
        (fun mt => by rw [hBase]; exact hLock _ _ _)
  | callScheduler =>
      cases hStep
      refine h.goto hRuns.current (hWaiter _) ?_ ?_ (fun mt current hEq => absurd hEq (hLock _ _ _))
        ?_ ?_
      · simp [Code.sched, hCode, eq_comm]
      · simp [hCode]
      · simp [Code.sched, hCode]
      · intro mt hWait
        simp [Code.Waiting, hCode, hLock] at hWait
  | called =>
      cases hStep
      exact h.gotoBase hRuns rfl (by simp) (fun mt => by rw [hBase]; exact hLock _ _ _)

/-- The next step of a task that does not go through one of the windows. -/
theorem PlaceInv.run (h : PlaceInv place s) (hOnCpu : s.onCpu cpu = some task)
    (hOrderly : Orderly s cpu .run) (hStep : s.run cpu task = some s') :
    ∃ place', PlaceInv place' s' := by
  have hCur : s.current cpu = some task := by rw [← h.onCpu]; exact hOnCpu
  obtain ⟨hDequeue, hReady⟩ := hOrderly task hOnCpu
  unfold MutexSystem.run at hStep
  split at hStep
  · -- the interrupt handler
    rename_i f hTick
    have hCall := h.oneCall task (by simp [hTick])
    simp only [Option.map_eq_some_iff] at hStep
    obtain ⟨r, hSched, rfl⟩ := hStep
    have hResumes := resumes_tick hCall r.2
    exact h.schedStep hCur (by simp [Code.sched, hTick]) hSched hResumes
      fun _ _ mt _ hWait => hResumes.waiting mt (Or.inr hCall) hWait
  · rename_i hTick
    split at hStep
    · -- the task's own call of `scheduler`
      rename_i f hCall
      simp only [Option.map_eq_some_iff] at hStep
      obtain ⟨r, hSched, rfl⟩ := hStep
      refine h.schedStep hCur (by simp [Code.sched, hTick, hCall]) hSched
        (resumes_call hTick hCall r.2) fun hPc hNone mt hPlace _ => ?_
      have hNonempty := hReady f mt hCall hPc (h.mem_queue.mpr hPlace)
      obtain ⟨cpuid, pc⟩ := f
      simp only at hPc
      subst hPc
      simp only [MutexSystem.schedStep, Option.some.injEq] at hSched
      subst hSched
      simp [hNonempty] at hNone
    · rename_i hCall
      have hRuns : RunsBase s cpu task := ⟨hCur, hCall, hTick⟩
      cases hBase : (s.code task).base with
      | outside =>
          rw [hBase] at hStep
          cases hStep
      | mutexLock mt pc =>
          rw [hBase] at hStep
          exact h.lockStep hRuns hBase hStep
      | mutexTrylock mt =>
          rw [hBase] at hStep
          cases hStep
          exact ⟨place, h.trylock hRuns rfl rfl (by simp) (by simp [hBase])⟩
      | mutexUnlock mt pc =>
          rw [hBase] at hStep
          refine h.unlockStep hRuns hBase (fun waiter rest hPc hQueue => ?_) hStep
          exact hDequeue mt waiter rest (by simp [Code.sched, hTick, hCall]) (by rw [hBase, hPc]) hQueue
      | kerntaskExit pc =>
          rw [hBase] at hStep
          exact ⟨place, h.exitStep hRuns (fun _ => rfl) (by simp) hBase hStep⟩
      | usertaskExit pc =>
          rw [hBase] at hStep
          exact ⟨place, h.exitStep hRuns (fun _ => rfl) (by simp) hBase hStep⟩

omit [DecidableEq Cpu] [DecidableEq Task] [DecidableEq Mutex] in
theorem idle_eq {code : Code Cpu Task Mutex} (h : idle code = true) :
    code = ⟨.outside, none, none⟩ := by
  obtain ⟨base, call, tick⟩ := code
  simp only [idle, Bool.and_eq_true, Option.isNone_iff_eq_none] at h
  obtain ⟨⟨rfl, rfl⟩, hBase⟩ := h
  split at hBase
  · simp_all
  · cases hBase

omit [DecidableEq Cpu] [DecidableEq Mutex] in
/-- A call that a task makes from code of its own. -/
theorem PlaceInv.callBase (h : PlaceInv place s) (hCur : s.current cpu = some task)
    (hIdle : idle (s.code task) = true) {base : CallFrame Task Mutex} (hWaiter : base.waiter? = none)
    (hEnqueue : ∀ mt current, base ≠ .mutexLock mt (.enqueue current)) :
    PlaceInv place (s.gotoBase task base) := by
  have hCode := idle_eq hIdle
  exact h.gotoBase ⟨hCur, by simp [hCode], by simp [hCode]⟩ hWaiter hEnqueue (by simp [hCode])

theorem PlaceInv.taskStep {step : CpuStep Mutex} (h : PlaceInv place s)
    (hOnCpu : s.onCpu cpu = some task) (hOrderly : Orderly s cpu step)
    (hStep : taskStep s cpu task step = some s') : ∃ place', PlaceInv place' s' := by
  have hCur : s.current cpu = some task := by rw [← h.onCpu]; exact hOnCpu
  cases step with
  | run => exact h.run hOnCpu hOrderly hStep
  | tick =>
      simp only [Rayos.taskStep] at hStep
      split at hStep
      · cases hStep
      · rename_i hIrq
        cases hStep
        have hCall := hOrderly task hOnCpu
        have hTick : (s.code task).tick = none := by
          by_contra hSome
          exact hIrq (by simp [irqOff, Option.isSome_iff_ne_none, hSome])
        refine ⟨place, h.stepInPlace hCur rfl rfl rfl rfl (fun t => Or.inl rfl) (h.waiter task) ?_ ?_
          ?_ (fun _ => hCall) (h.enqueue task) ?_⟩
        · intro f t hf ht
          cases hf
          cases ht
        · intro f t hf ht
          cases hf
          cases ht
        · intro f hf
          cases hf
          rfl
        · rcases h.running cpu task hCur with hPlace | ⟨mt, hPlace, hWait⟩ | ⟨f, new, hf, -⟩
          · exact Or.inl hPlace
          · exact Or.inr (Or.inl ⟨mt, hPlace, by simpa [Code.Waiting] using hWait⟩)
          · simp [Code.sched, hTick, hCall] at hf
  | mutexUnlock mt =>
      simp only [Rayos.taskStep] at hStep
      split at hStep
      · rename_i hBoth
        cases hStep
        exact ⟨place, h.callBase hCur hBoth.1 rfl (by simp)⟩
      · cases hStep
  | mutexLock mt =>
      simp only [Rayos.taskStep] at hStep
      split at hStep
      · rename_i hIdle
        cases hStep
        exact ⟨place, h.callBase hCur hIdle rfl (by simp)⟩
      · cases hStep
  | mutexTrylock mt =>
      simp only [Rayos.taskStep] at hStep
      split at hStep
      · rename_i hIdle
        cases hStep
        exact ⟨place, h.callBase hCur hIdle rfl (by simp)⟩
      · cases hStep
  | kerntaskExit =>
      simp only [Rayos.taskStep] at hStep
      split at hStep
      · rename_i hIdle
        cases hStep
        exact ⟨place, h.callBase hCur hIdle rfl (by simp)⟩
      · cases hStep
  | usertaskExit =>
      simp only [Rayos.taskStep] at hStep
      split at hStep
      · rename_i hIdle
        cases hStep
        exact ⟨place, h.callBase hCur hIdle rfl (by simp)⟩
      · cases hStep

theorem placeInv_of_reachable {s0 : MutexSystem Cpu Task Mutex} (hStart : MutexStart s0)
    (hReach : CpuReachable Orderly s0 s) : ∃ place, PlaceInv place s := by
  induction hReach with
  | refl => exact placeInv_start hStart
  | tail _ hNext ih =>
      obtain ⟨place, hInv⟩ := ih
      obtain ⟨cpu, step, hOrderly, hStep⟩ := hNext
      unfold cpuStep at hStep
      split at hStep
      · cases hStep
      · rename_i task hOnCpu
        exact hInv.taskStep hOnCpu hOrderly hStep

end Places

/-- Task `true` holds the mutex, and task `false` cannot lock it. -/
def contended : List (Bool × CpuStep Unit) :=
  [(true, .mutexLock ()), (true, .run), (false, .mutexLock ()), (false, .run)]

end Rayos
