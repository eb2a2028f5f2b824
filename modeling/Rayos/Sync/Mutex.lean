import Rayos.Lib.Program
import Rayos.Task.Sched

/-!
# Mutexes and the scheduler, step by step (`mutex.c`, `task.c`, `queue.c`, `timer.c`)

Any number of CPUs run tasks that call `mutex_lock`, `mutex_trylock`, `mutex_unlock` and the exit
functions, and timer interrupts run `scheduler` on top of them.  One step is one access to what tasks
share: a compare-exchange or a store on the lock word, an operation on a queue (which its spinlock makes
atomic), a test of a queue, a store to a status, or the switch to another task.

A task is a sequential program: where it is in the code belongs to it, whichever CPU runs it.  It is
described by three activations, of which the topmost runs: the function it has called, a call of
`scheduler` made by this function, and a call of `scheduler` made by the timer interrupt.

`atomic_compare_exchange` is an exact compare-and-swap here.  A step that goes on with a null pointer,
where `queue_dequeue` finds nothing, has no successor.  The switch to another task is one step, from the
store to `current[cpuid]` to the jump to the other stack.
-/

namespace Rayos

/-- `enum mutex_status`. -/
inductive MutexStatus where
  | locked
  | unlock
  deriving DecidableEq

section Types

variable (Cpu Task Mutex : Type)

/-- Where a task is in `mutex_lock`. -/
inductive LockPc where
  /-- Before `mutex_trylock` in the condition of the loop. -/
  | trylock
  /-- Before `current = get_current(); current->status = TASK_BLOCKED`. -/
  | setBlocked
  /-- Before `queue_enqueue(&mt->wait_queue, &current->list)`. -/
  | enqueue (current : Task)
  /-- Before `scheduler()`. -/
  | callScheduler
  deriving DecidableEq

/-- Where a task is in `mutex_unlock`. -/
inductive UnlockPc where
  /-- Before `atomic_store(&mt->locked, MUTEX_UNLOCK)`. -/
  | store
  /-- Before `queue_empty(&mt->wait_queue)`. -/
  | testEmpty
  /-- Before `queue_dequeue(&mt->wait_queue)`. -/
  | dequeue
  /-- Before `task->status = TASK_READY`. -/
  | setReady (task : Task)
  /-- Before `queue_enqueue(get_task_readyqueue(), &task->list)`. -/
  | enqueueReady (task : Task)
  deriving DecidableEq

/-- Where a task is in `kerntask_exit` or `usertask_exit`. -/
inductive ExitPc where
  | setExit
  | irqDisable
  | callScheduler
  /-- In the call of `scheduler`, or after it. -/
  | called
  deriving DecidableEq

/-- Where a task is in a call of `scheduler`. -/
inductive SchedPc where
  /-- Before `if (current[cpuid])`. -/
  | start
  /-- Before `queue_empty(&task_exitqueue[cpuid])`. -/
  | exitTest
  /-- Before `queue_dequeue(&task_exitqueue[cpuid])`. -/
  | reap
  /-- Before `queue_empty(&task_readyqueue[cpuid])`. -/
  | readyTest
  /-- Before `old_task = current[cpuid]; new_task = queue_dequeue(&task_readyqueue[cpuid])`. -/
  | dequeue
  /-- Before `new_task->status = TASK_RUNNING`. -/
  | setRunning (oldTask newTask : Task)
  /-- Before the `switch` on `old_task->status`. -/
  | requeue (oldTask newTask : Task)
  /-- Before `current[cpuid] = new_task`. -/
  | switch (oldTask newTask : Task)
  deriving DecidableEq

/-- A call of `scheduler`: its `cpuid` and where it is. -/
structure SchedFrame where
  cpuid : Cpu
  pc : SchedPc Task
  deriving DecidableEq

/-- The function that a task has called. -/
inductive CallFrame where
  | outside
  | mutexLock (mt : Mutex) (pc : LockPc Task)
  | mutexTrylock (mt : Mutex)
  | mutexUnlock (mt : Mutex) (pc : UnlockPc Task)
  | kerntaskExit (pc : ExitPc)
  | usertaskExit (pc : ExitPc)
  deriving DecidableEq

/-- Where a task is: the function called, its call of `scheduler`, the call of the timer interrupt. -/
structure Code where
  base : CallFrame Task Mutex
  call : Option (SchedFrame Cpu Task)
  tick : Option (SchedFrame Cpu Task)
  deriving DecidableEq

/-- The state that tasks share, and where each task is.  `onCpu` is the task whose stack a CPU is on.
`held` counts the calls of `mutex_lock` and `mutex_trylock` of a task that have succeeded and whose
`mutex_unlock` is still to come. -/
structure MutexSystem where
  locked : Mutex → MutexStatus
  waitQueue : Mutex → List Task
  status : Task → TaskStatus
  current : Cpu → Option Task
  taskReadyqueue : Cpu → List Task
  taskExitqueue : Cpu → List Task
  onCpu : Cpu → Option Task
  code : Task → Code Cpu Task Mutex
  held : Task → Mutex → Nat

end Types

namespace MutexSystem

variable {Cpu Task Mutex : Type} [DecidableEq Cpu] [DecidableEq Task] [DecidableEq Mutex]

/-- `task->status = status`. -/
def setStatus (s : MutexSystem Cpu Task Mutex) (task : Task) (status : TaskStatus) :
    MutexSystem Cpu Task Mutex :=
  { s with status := Function.update s.status task status }

/-- The task goes on at `code`. -/
def goto (s : MutexSystem Cpu Task Mutex) (task : Task) (code : Code Cpu Task Mutex) :
    MutexSystem Cpu Task Mutex :=
  { s with code := Function.update s.code task code }

/-- The function that the task has called goes on at `base`. -/
def gotoBase (s : MutexSystem Cpu Task Mutex) (task : Task) (base : CallFrame Task Mutex) :
    MutexSystem Cpu Task Mutex :=
  s.goto task { s.code task with base := base }

/-- `mt->locked = word`. -/
def setLocked (s : MutexSystem Cpu Task Mutex) (mt : Mutex) (word : MutexStatus) :
    MutexSystem Cpu Task Mutex :=
  { s with locked := Function.update s.locked mt word }

/-- `mt->wait_queue = queue`. -/
def setWaitQueue (s : MutexSystem Cpu Task Mutex) (mt : Mutex) (queue : List Task) :
    MutexSystem Cpu Task Mutex :=
  { s with waitQueue := Function.update s.waitQueue mt queue }

/-- `task_readyqueue[cpu] = queue`. -/
def setReadyqueue (s : MutexSystem Cpu Task Mutex) (cpu : Cpu) (queue : List Task) :
    MutexSystem Cpu Task Mutex :=
  { s with taskReadyqueue := Function.update s.taskReadyqueue cpu queue }

/-- `task_exitqueue[cpu] = queue`. -/
def setExitqueue (s : MutexSystem Cpu Task Mutex) (cpu : Cpu) (queue : List Task) :
    MutexSystem Cpu Task Mutex :=
  { s with taskExitqueue := Function.update s.taskExitqueue cpu queue }

/-- The history of the successful calls. -/
def setHeld (s : MutexSystem Cpu Task Mutex) (task : Task) (mt : Mutex) (count : Nat) :
    MutexSystem Cpu Task Mutex :=
  { s with held := Function.update s.held task (Function.update (s.held task) mt count) }

/-- The compare-exchange of `mutex_trylock`, by `task`: it expects `MUTEX_UNLOCK`. -/
def trylock (s : MutexSystem Cpu Task Mutex) (task : Task) (mt : Mutex)
    (success failure : CallFrame Task Mutex) : MutexSystem Cpu Task Mutex :=
  if s.locked mt = .unlock then
    ((s.setLocked mt .locked).setHeld task mt (s.held task mt + 1)).gotoBase task success
  else s.gotoBase task failure

/-- A step of `scheduler`, called with `frame` and run on `cpu`: the state, and where the call goes on;
`none` is a call that returns.  A task that is switched away from returns when it is switched to. -/
def schedStep (s : MutexSystem Cpu Task Mutex) (cpu : Cpu) (frame : SchedFrame Cpu Task) :
    Option (MutexSystem Cpu Task Mutex × Option (SchedFrame Cpu Task)) :=
  let cpuid := frame.cpuid
  match frame.pc with
  | .start => some (s, if (s.current cpuid).isSome then some ⟨cpuid, .exitTest⟩ else none)
  | .exitTest =>
      some (s, some ⟨cpuid, if s.taskExitqueue cpuid = [] then .readyTest else .reap⟩)
  | .reap =>
      match s.taskExitqueue cpuid with
      | [] => none
      | _ :: rest => some (s.setExitqueue cpuid rest, some ⟨cpuid, .exitTest⟩)
  | .readyTest =>
      some (s, if s.taskReadyqueue cpuid = [] then none else some ⟨cpuid, .dequeue⟩)
  | .dequeue =>
      match s.current cpuid, s.taskReadyqueue cpuid with
      | some oldTask, newTask :: rest =>
          some (s.setReadyqueue cpuid rest, some ⟨cpuid, .setRunning oldTask newTask⟩)
      | _, _ => none
  | .setRunning oldTask newTask =>
      some (s.setStatus newTask .running, some ⟨cpuid, .requeue oldTask newTask⟩)
  | .requeue oldTask newTask =>
      let s := match s.status oldTask with
        | .running => s.setReadyqueue cpuid (s.taskReadyqueue cpuid ++ [oldTask])
        | .exit => s.setExitqueue cpuid (s.taskExitqueue cpuid ++ [oldTask])
        | .blocked | .dead | .ready => s
      some (s, some ⟨cpuid, .switch oldTask newTask⟩)
  | .switch _ newTask =>
      some ({ s with
        current := Function.update s.current cpuid (some newTask)
        onCpu := Function.update s.onCpu cpu (some newTask) }, none)

/-- A step of `mutex_lock` by `task` on `cpu`. -/
def lockStep (s : MutexSystem Cpu Task Mutex) (cpu : Cpu) (task : Task) (mt : Mutex) :
    LockPc Task → Option (MutexSystem Cpu Task Mutex)
  | .trylock => some (s.trylock task mt .outside (.mutexLock mt .setBlocked))
  | .setBlocked =>
      match s.current cpu with
      | none => none
      | some current =>
          some ((s.setStatus current .blocked).gotoBase task (.mutexLock mt (.enqueue current)))
  | .enqueue current =>
      some ((s.setWaitQueue mt (s.waitQueue mt ++ [current])).gotoBase task
        (.mutexLock mt .callScheduler))
  | .callScheduler =>
      some (s.goto task
        { s.code task with base := .mutexLock mt .trylock, call := some ⟨cpu, .start⟩ })

/-- A step of `mutex_unlock` by `task` on `cpu`. -/
def unlockStep (s : MutexSystem Cpu Task Mutex) (cpu : Cpu) (task : Task) (mt : Mutex) :
    UnlockPc Task → Option (MutexSystem Cpu Task Mutex)
  | .store =>
      some (((s.setLocked mt .unlock).setHeld task mt (s.held task mt - 1)).gotoBase task
        (.mutexUnlock mt .testEmpty))
  | .testEmpty =>
      some (s.gotoBase task (if s.waitQueue mt = [] then .outside else .mutexUnlock mt .dequeue))
  | .dequeue =>
      match s.waitQueue mt with
      | [] => none
      | waiter :: rest =>
          some ((s.setWaitQueue mt rest).gotoBase task (.mutexUnlock mt (.setReady waiter)))
  | .setReady waiter =>
      some ((s.setStatus waiter .ready).gotoBase task (.mutexUnlock mt (.enqueueReady waiter)))
  | .enqueueReady waiter =>
      some ((s.setReadyqueue cpu (s.taskReadyqueue cpu ++ [waiter])).gotoBase task .outside)

/-- A step of an exit function by `task` on `cpu`; `frame` is the function.  Where `kerntask_exit`
disables interrupts, `usertask_exit`, which is called with interrupts off, does nothing. -/
def exitStep (s : MutexSystem Cpu Task Mutex) (cpu : Cpu) (task : Task)
    (frame : ExitPc → CallFrame Task Mutex) : ExitPc → Option (MutexSystem Cpu Task Mutex)
  | .setExit =>
      match s.current cpu with
      | none => none
      | some current => some ((s.setStatus current .exit).gotoBase task (frame .irqDisable))
  | .irqDisable => some (s.gotoBase task (frame .callScheduler))
  | .callScheduler =>
      some (s.goto task { s.code task with base := frame .called, call := some ⟨cpu, .start⟩ })
  | .called => some (s.gotoBase task .outside)

/-- A step of the function that `task` has called, on `cpu`. -/
def baseStep (s : MutexSystem Cpu Task Mutex) (cpu : Cpu) (task : Task) :
    CallFrame Task Mutex → Option (MutexSystem Cpu Task Mutex)
  | .outside => none
  | .mutexLock mt pc => s.lockStep cpu task mt pc
  | .mutexTrylock mt => some (s.trylock task mt .outside .outside)
  | .mutexUnlock mt pc => s.unlockStep cpu task mt pc
  | .kerntaskExit pc => s.exitStep cpu task .kerntaskExit pc
  | .usertaskExit pc => s.exitStep cpu task .usertaskExit pc

/-- The next step of `task` on `cpu`, in the topmost of its activations. -/
def run (s : MutexSystem Cpu Task Mutex) (cpu : Cpu) (task : Task) :
    Option (MutexSystem Cpu Task Mutex) :=
  match (s.code task).tick with
  | some frame =>
      (s.schedStep cpu frame).map fun r => r.1.goto task { s.code task with tick := r.2 }
  | none =>
      match (s.code task).call with
      | some frame =>
          (s.schedStep cpu frame).map fun r => r.1.goto task { s.code task with call := r.2 }
      | none => s.baseStep cpu task (s.code task).base

/-- Interrupts are off: in the interrupt handler, in `kerntask_exit` from `local_irq_disable` on, and in
`usertask_exit`, which runs in a system call. -/
def irqOff (code : Code Cpu Task Mutex) : Bool :=
  code.tick.isSome ||
    match code.base with
    | .kerntaskExit .callScheduler | .kerntaskExit .called | .usertaskExit _ => true
    | _ => false

/-- The task is in code of its own. -/
def idle (code : Code Cpu Task Mutex) : Bool :=
  code.tick.isNone && code.call.isNone && match code.base with
    | .outside => true
    | _ => false

end MutexSystem

/-- What happens on a CPU. -/
inductive CpuStep (Mutex : Type) where
  | mutexLock (mt : Mutex)
  | mutexTrylock (mt : Mutex)
  | mutexUnlock (mt : Mutex)
  | kerntaskExit
  | usertaskExit
  /-- The timer interrupt arrives. -/
  | tick
  /-- The task goes on with the code above. -/
  | run

section Steps

variable {Cpu Task Mutex : Type} [DecidableEq Cpu] [DecidableEq Task] [DecidableEq Mutex]

open MutexSystem

/-- One step of `task` on `cpu`; `mutex_unlock` is called by a holder only. -/
def taskStep (s : MutexSystem Cpu Task Mutex) (cpu : Cpu) (task : Task) :
    CpuStep Mutex → Option (MutexSystem Cpu Task Mutex)
  | .mutexLock mt =>
      if idle (s.code task) then some (s.gotoBase task (.mutexLock mt .trylock)) else none
  | .mutexTrylock mt =>
      if idle (s.code task) then some (s.gotoBase task (.mutexTrylock mt)) else none
  | .mutexUnlock mt =>
      if idle (s.code task) ∧ 0 < s.held task mt then some (s.gotoBase task (.mutexUnlock mt .store))
      else none
  | .kerntaskExit =>
      if idle (s.code task) then some (s.gotoBase task (.kerntaskExit .setExit)) else none
  | .usertaskExit =>
      if idle (s.code task) then some (s.gotoBase task (.usertaskExit .setExit)) else none
  | .tick =>
      if irqOff (s.code task) then none
      else some (s.goto task { s.code task with tick := some ⟨cpu, .start⟩ })
  | .run => s.run cpu task

/-- One step on `cpu`, of the task whose stack it is on. -/
def cpuStep (s : MutexSystem Cpu Task Mutex) (cpu : Cpu) (step : CpuStep Mutex) :
    Option (MutexSystem Cpu Task Mutex) :=
  match s.onCpu cpu with
  | none => none
  | some task => taskStep s cpu task step

/-- A step of some CPU that `Allowed` admits. -/
def CpuNext (Allowed : MutexSystem Cpu Task Mutex → Cpu → CpuStep Mutex → Prop)
    (s s' : MutexSystem Cpu Task Mutex) : Prop :=
  ∃ cpu step, Allowed s cpu step ∧ cpuStep s cpu step = some s'

/-- The states that runs of admitted steps reach. -/
abbrev CpuReachable (Allowed : MutexSystem Cpu Task Mutex → Cpu → CpuStep Mutex → Prop) :
    MutexSystem Cpu Task Mutex → MutexSystem Cpu Task Mutex → Prop :=
  Relation.ReflTransGen (CpuNext Allowed)

/-- A state to start from: every mutex is as `mutex_init` leaves it, every task is in code of its own,
and is current on one CPU or on one ready queue, or nowhere. -/
structure MutexStart (s : MutexSystem Cpu Task Mutex) : Prop where
  locked : ∀ mt, s.locked mt = .unlock
  waitQueue : ∀ mt, s.waitQueue mt = []
  held : ∀ task mt, s.held task mt = 0
  code : ∀ task, s.code task = ⟨.outside, none, none⟩
  onCpu : s.onCpu = s.current
  current : ∀ c d task, s.current c = some task → s.current d = some task → c = d
  exit : ∀ c, s.taskExitqueue c = []
  nodup : ∀ c, (s.taskReadyqueue c).Nodup
  ready : ∀ c d task, task ∈ s.taskReadyqueue c → task ∈ s.taskReadyqueue d → c = d
  apart : ∀ c d task, s.current c = some task → task ∉ s.taskReadyqueue d
  status : ∀ task, s.status task ≠ .blocked

/-- A given run. -/
def cpuRun (s : MutexSystem Cpu Task Mutex) :
    List (Cpu × CpuStep Mutex) → Option (MutexSystem Cpu Task Mutex)
  | [] => some s
  | (cpu, step) :: rest =>
      match cpuStep s cpu step with
      | none => none
      | some s' => cpuRun s' rest

theorem cpuReachable_of_run {Allowed : MutexSystem Cpu Task Mutex → Cpu → CpuStep Mutex → Prop}
    (hAllowed : ∀ s cpu step, Allowed s cpu step) {s s' : MutexSystem Cpu Task Mutex}
    {steps : List (Cpu × CpuStep Mutex)} (h : cpuRun s steps = some s') : CpuReachable Allowed s s' := by
  refine Program.reflTransGen_of_run (fun s a => cpuStep s a.1 a.2) (fun _ => rfl)
    (fun s a rest => ?_) (fun s a t hStep => ⟨a.1, a.2, hAllowed s a.1 a.2, hStep⟩) h
  rw [cpuRun]
  cases cpuStep s a.1 a.2 <;> rfl

end Steps

/-- Two CPUs, each running the task of its name, and one mutex. -/
def bareCpus : MutexSystem Bool Bool Unit where
  locked _ := .unlock
  waitQueue _ := []
  status _ := .running
  current c := some c
  taskReadyqueue _ := []
  taskExitqueue _ := []
  onCpu c := some c
  code _ := ⟨.outside, none, none⟩
  held _ _ := 0

theorem bareCpus_start : MutexStart bareCpus where
  locked _ := rfl
  waitQueue _ := rfl
  held _ _ := rfl
  code _ := rfl
  onCpu := rfl
  current := by simp [bareCpus]
  exit _ := rfl
  nodup _ := List.nodup_nil
  ready := by simp [bareCpus]
  apart := by simp [bareCpus]
  status := by simp [bareCpus]

end Rayos
