import Rayos.Lib.Program
import Rayos.Machine.Word
import Rayos.Task.Sched

/-!
# Timer interrupts and spinlocks on one CPU (`timer.c`, `task.c`, `mm.c`, `queue.c`)

Threads of one CPU call the heap, the queues and `scheduler`, with interrupts on unless they have called
`local_irq_disable`.  A timer interrupt arrives between any two steps, and `lapic_timer_handler` runs
`scheduler` before the thread goes on.  One step is one access to a lock word, or what is done between
`spinlock_lock` and `spinlock_unlock`.

The handler takes the locks of the CPU's exit queue and ready queue and, for each block of a task that it
reaps, `mm_spinlock`.  If one of them is held by what it has interrupted, it spins for ever.  Nothing
keeps a thread with interrupts on from taking them.  `Unhindered` says when a run stays clear of this:
no interrupt arrives between `spinlock_lock` and `spinlock_unlock` of such a lock, and no call of
`kmalloc` or `kfree` returns with the lock held.

`atomic_compare_exchange` is an exact compare-and-swap here, and no other CPU takes part.
-/

namespace Rayos

section Types

variable (Task Other : Type)

/-- A queue, as one CPU sees it: its own ready queue and exit queue, and the others. -/
inductive CpuQueue where
  | ready
  | exit
  | other (q : Other)
  deriving DecidableEq

/-- A spinlock: `mm_spinlock`, that of a queue, or another. -/
inductive SpinlockId where
  | mm
  | queue (q : CpuQueue Other)
  | other (l : Other)
  deriving DecidableEq

/-- Where code is in a section between `spinlock_lock` and `spinlock_unlock`, which yields a result. -/
inductive SectionPc (α : Type) where
  /-- Before `spinlock_lock`, or in its loop. -/
  | lock
  | body
  /-- Before `spinlock_unlock`. -/
  | unlock (result : α)
  deriving DecidableEq

/-- Where a call of `scheduler` is. -/
inductive SchedulerPc where
  /-- Before `if (current[cpuid])`. -/
  | start
  /-- In `queue_empty(&task_exitqueue[cpuid])`. -/
  | exitTest (pc : SectionPc Bool)
  /-- In `queue_dequeue(&task_exitqueue[cpuid])`. -/
  | reap (pc : SectionPc (Option Task))
  /-- In a `kfree` of a reaped task; `left` more follow. -/
  | free (left : Nat) (pc : SectionPc Unit)
  /-- In `queue_empty(&task_readyqueue[cpuid])`. -/
  | readyTest (pc : SectionPc Bool)
  /-- In `queue_dequeue(&task_readyqueue[cpuid])`. -/
  | dequeue (oldTask : Task) (pc : SectionPc (Option Task))
  /-- Before `new_task->status = TASK_RUNNING`. -/
  | setRunning (oldTask newTask : Task)
  /-- Before the `switch` on `old_task->status`. -/
  | requeue (oldTask newTask : Task)
  /-- In `queue_enqueue(&task_readyqueue[cpuid], &old_task->list)`. -/
  | enqueueReady (oldTask newTask : Task) (pc : SectionPc Unit)
  /-- In `queue_enqueue(&task_exitqueue[cpuid], &old_task->list)`. -/
  | enqueueExit (oldTask newTask : Task) (pc : SectionPc Unit)
  /-- Before `current[cpuid] = new_task`. -/
  | switch (newTask : Task)
  deriving DecidableEq

/-- The function that a thread has called. -/
inductive ThreadPc where
  | outside
  | kmalloc (size : U64) (pc : SectionPc Unit)
  | kfree (pc : SectionPc Unit)
  | queueEnqueue (q : CpuQueue Other) (node : Task) (pc : SectionPc Unit)
  | queueDequeue (q : CpuQueue Other) (pc : SectionPc (Option Task))
  | queueEmpty (q : CpuQueue Other) (pc : SectionPc Bool)
  deriving DecidableEq

/-- Where a thread is: the function called, its own call of `scheduler`, the call of the timer
interrupt; and whether it has executed `local_irq_disable`. -/
structure ThreadCode where
  base : ThreadPc Task Other
  call : Option (SchedulerPc Task)
  tick : Option (SchedulerPc Task)
  irqOff : Bool
  deriving DecidableEq

/-- One CPU.  `onCpu` is the thread whose stack it is on, and `segments` the length of the list
`ls_addr` of a user task. -/
structure IrqCpu where
  word : SpinlockId Other → Bool
  queue : CpuQueue Other → List Task
  current : Option Task
  status : Task → TaskStatus
  flags : Task → TaskFlags
  segments : Task → Nat
  onCpu : Task
  code : Task → ThreadCode Task Other

end Types

namespace IrqCpu

variable {Task Other : Type} [DecidableEq Task] [DecidableEq Other]

/-- A store to a lock word. -/
def setWord (s : IrqCpu Task Other) (l : SpinlockId Other) (taken : Bool) : IrqCpu Task Other :=
  { s with word := Function.update s.word l taken }

/-- The nodes of a queue change. -/
def setQueue (s : IrqCpu Task Other) (q : CpuQueue Other) (nodes : List Task) : IrqCpu Task Other :=
  { s with queue := Function.update s.queue q nodes }

/-- `task->status = status`. -/
def setStatus (s : IrqCpu Task Other) (task : Task) (status : TaskStatus) : IrqCpu Task Other :=
  { s with status := Function.update s.status task status }

/-- The thread goes on at `code`. -/
def goto (s : IrqCpu Task Other) (task : Task) (code : ThreadCode Task Other) : IrqCpu Task Other :=
  { s with code := Function.update s.code task code }

/-- `list_add_tail` in `queue_enqueue`. -/
def addTail (q : CpuQueue Other) (node : Task) (s : IrqCpu Task Other) : IrqCpu Task Other × Unit :=
  (s.setQueue q (s.queue q ++ [node]), ())

/-- `list_del` of the first node in `queue_dequeue`. -/
def delFirst (q : CpuQueue Other) (s : IrqCpu Task Other) : IrqCpu Task Other × Option Task :=
  match s.queue q with
  | [] => (s, none)
  | node :: rest => (s.setQueue q rest, some node)

/-- `list_empty` in `queue_empty`. -/
def listEmpty (q : CpuQueue Other) (s : IrqCpu Task Other) : IrqCpu Task Other × Bool :=
  (s, (s.queue q).isEmpty)

/-- A step of a section of `l`: `inside` says where it goes on, and `done` where after it. -/
def sectionStep {α β : Type} (s : IrqCpu Task Other) (l : SpinlockId Other)
    (effect : IrqCpu Task Other → IrqCpu Task Other × α) (inside : SectionPc α → β) (done : α → β) :
    SectionPc α → IrqCpu Task Other × β
  | .lock => if s.word l then (s, inside .lock) else (s.setWord l true, inside .body)
  | .body => ((effect s).1, inside (.unlock (effect s).2))
  | .unlock result => (s.setWord l false, done result)

/-- A step of a section of `mm_spinlock`, in `kmalloc` or `kfree`; `served` says whether they do not
take one of the early returns, which leave the lock held. -/
def heapStep {β : Type} (s : IrqCpu Task Other) (served : Bool) (inside : SectionPc Unit → β) (done : β)
    (pc : SectionPc Unit) : IrqCpu Task Other × β :=
  if pc = .body ∧ served = false then (s, done)
  else s.sectionStep .mm (fun s => (s, ())) inside (fun _ => done) pc

/-- The number of blocks that reaping frees, with `kfree`. -/
def reapedBlocks (s : IrqCpu Task Other) (task : Task) : Nat :=
  match s.flags task with
  | .kern => 3
  | .user => s.segments task + 2
  | .unset => 0

/-- On with the `kfree` of the next of `left` blocks, or with the test of the exit queue. -/
def freeNext : Nat → SchedulerPc Task
  | 0 => .exitTest .lock
  | left + 1 => .free left .lock

/-- A step of `scheduler`: the state, and where the call goes on; `none` is a call that returns.  A
null pointer of `queue_dequeue` has no successor. -/
def schedulerStep (s : IrqCpu Task Other) (served : Bool) :
    SchedulerPc Task → Option (IrqCpu Task Other × Option (SchedulerPc Task))
  | .start => some (s, if s.current.isSome then some (.exitTest .lock) else none)
  | .exitTest pc =>
      some (s.sectionStep (.queue .exit) (listEmpty .exit) (fun pc => some (.exitTest pc))
        (fun isEmpty => some (if isEmpty then .readyTest .lock else .reap .lock)) pc)
  | .reap (.unlock none) => none
  | .reap pc =>
      some (s.sectionStep (.queue .exit) (delFirst .exit) (fun pc => some (.reap pc))
        (fun node => node.map fun task => freeNext (s.reapedBlocks task)) pc)
  | .free left pc =>
      some (s.heapStep served (fun pc => some (.free left pc)) (some (freeNext left)) pc)
  | .readyTest pc =>
      some (s.sectionStep (.queue .ready) (listEmpty .ready) (fun pc => some (.readyTest pc))
        (fun isEmpty => if isEmpty then none else s.current.map fun oldTask => .dequeue oldTask .lock)
        pc)
  | .dequeue _ (.unlock none) => none
  | .dequeue oldTask pc =>
      some (s.sectionStep (.queue .ready) (delFirst .ready) (fun pc => some (.dequeue oldTask pc))
        (fun node => node.map fun newTask => .setRunning oldTask newTask) pc)
  | .setRunning oldTask newTask =>
      some (s.setStatus newTask .running, some (.requeue oldTask newTask))
  | .requeue oldTask newTask =>
      some (s, some (match s.status oldTask with
        | .running => .enqueueReady oldTask newTask .lock
        | .exit => .enqueueExit oldTask newTask .lock
        | .blocked | .dead | .ready => .switch newTask))
  | .enqueueReady oldTask newTask pc =>
      some (s.sectionStep (.queue .ready) (addTail .ready oldTask)
        (fun pc => some (.enqueueReady oldTask newTask pc)) (fun _ => some (.switch newTask)) pc)
  | .enqueueExit oldTask newTask pc =>
      some (s.sectionStep (.queue .exit) (addTail .exit oldTask)
        (fun pc => some (.enqueueExit oldTask newTask pc)) (fun _ => some (.switch newTask)) pc)
  | .switch newTask => some ({ s with current := some newTask, onCpu := newTask }, none)

/-- A step of the function that a thread has called. -/
def threadStep (s : IrqCpu Task Other) (served : Bool) :
    ThreadPc Task Other → Option (IrqCpu Task Other × ThreadPc Task Other)
  | .outside => none
  | .kmalloc size pc => some (s.heapStep (served && size != 0#64) (.kmalloc size) .outside pc)
  | .kfree pc => some (s.heapStep served .kfree .outside pc)
  | .queueEnqueue q node pc =>
      some (s.sectionStep (.queue q) (addTail q node) (.queueEnqueue q node) (fun _ => .outside) pc)
  | .queueDequeue q pc =>
      some (s.sectionStep (.queue q) (delFirst q) (.queueDequeue q) (fun _ => .outside) pc)
  | .queueEmpty q pc =>
      some (s.sectionStep (.queue q) (listEmpty q) (.queueEmpty q) (fun _ => .outside) pc)

/-- The next step of the thread on the CPU, in the topmost of its activations. -/
def run (s : IrqCpu Task Other) (served : Bool) : Option (IrqCpu Task Other) :=
  match (s.code s.onCpu).tick with
  | some pc =>
      (s.schedulerStep served pc).map fun r => r.1.goto s.onCpu { s.code s.onCpu with tick := r.2 }
  | none =>
      match (s.code s.onCpu).call with
      | some pc =>
          (s.schedulerStep served pc).map fun r => r.1.goto s.onCpu { s.code s.onCpu with call := r.2 }
      | none =>
          (s.threadStep served (s.code s.onCpu).base).map fun r =>
            r.1.goto s.onCpu { s.code s.onCpu with base := r.2 }

end IrqCpu

/-- What a thread does in code of its own. -/
inductive ThreadCall (Task Other : Type) where
  | kmalloc (size : U64)
  | kfree
  | queueEnqueue (q : CpuQueue Other) (node : Task)
  | queueDequeue (q : CpuQueue Other)
  | queueEmpty (q : CpuQueue Other)
  | scheduler
  | localIrqDisable
  | localIrqEnable
  /-- `spinlock_lock` of another lock than those of the heap and the queues. -/
  | spinlockLock (l : Other)
  | spinlockUnlock (l : Other)
  /-- `current->status = status`. -/
  | setStatus (status : TaskStatus)

/-- What happens on the CPU. -/
inductive IrqStep (Task Other : Type) where
  | call (c : ThreadCall Task Other)
  /-- The code goes on; `served` is the outcome of a call of the heap. -/
  | run (served : Bool)
  /-- The timer interrupt arrives. -/
  | tick

section Steps

variable {Task Other : Type} [DecidableEq Task] [DecidableEq Other]

/-- A call that the thread on the CPU makes from code of its own. -/
def threadCall (s : IrqCpu Task Other) : ThreadCall Task Other → IrqCpu Task Other
  | .kmalloc size => s.goto s.onCpu { s.code s.onCpu with base := .kmalloc size .lock }
  | .kfree => s.goto s.onCpu { s.code s.onCpu with base := .kfree .lock }
  | .queueEnqueue q node =>
      s.goto s.onCpu { s.code s.onCpu with base := .queueEnqueue q node .lock }
  | .queueDequeue q => s.goto s.onCpu { s.code s.onCpu with base := .queueDequeue q .lock }
  | .queueEmpty q => s.goto s.onCpu { s.code s.onCpu with base := .queueEmpty q .lock }
  | .scheduler => s.goto s.onCpu { s.code s.onCpu with call := some .start }
  | .localIrqDisable => s.goto s.onCpu { s.code s.onCpu with irqOff := true }
  | .localIrqEnable => s.goto s.onCpu { s.code s.onCpu with irqOff := false }
  | .spinlockLock l => if s.word (.other l) then s else s.setWord (.other l) true
  | .spinlockUnlock l => s.setWord (.other l) false
  | .setStatus status => s.setStatus s.onCpu status

/-- One step of the CPU. -/
def irqStep (s : IrqCpu Task Other) : IrqStep Task Other → Option (IrqCpu Task Other)
  | .call c =>
      if (s.code s.onCpu).tick = none ∧ (s.code s.onCpu).call = none ∧
          (s.code s.onCpu).base = .outside then
        some (threadCall s c)
      else none
  | .run served => s.run served
  | .tick =>
      if (s.code s.onCpu).tick = none ∧ (s.code s.onCpu).irqOff = false then
        some (s.goto s.onCpu { s.code s.onCpu with tick := some .start })
      else none

/-- A step that `Allowed` admits. -/
def IrqNext (Allowed : IrqCpu Task Other → IrqStep Task Other → Prop) (s s' : IrqCpu Task Other) :
    Prop :=
  ∃ step, Allowed s step ∧ irqStep s step = some s'

/-- The states that runs of admitted steps reach. -/
abbrev IrqReachable (Allowed : IrqCpu Task Other → IrqStep Task Other → Prop) :
    IrqCpu Task Other → IrqCpu Task Other → Prop :=
  Relation.ReflTransGen (IrqNext Allowed)

/-- A state to start from: no lock is held, and every thread is in code of its own. -/
structure IrqStart (s : IrqCpu Task Other) : Prop where
  word : ∀ l, s.word l = false
  code : ∀ t, (s.code t).base = .outside ∧ (s.code t).call = none ∧ (s.code t).tick = none

/-! ## Who holds what -/

/-- A lock is held from `spinlock_lock` to `spinlock_unlock`. -/
def SectionPc.Holds {α : Type} : SectionPc α → Prop
  | .lock => False
  | .body | .unlock _ => True

/-- The lock of the section that a call of `scheduler` is in, and where it is there. -/
def SchedulerPc.Holds (l : SpinlockId Other) : SchedulerPc Task → Prop
  | .exitTest pc => l = .queue .exit ∧ pc.Holds
  | .reap pc => l = .queue .exit ∧ pc.Holds
  | .free _ pc => l = .mm ∧ pc.Holds
  | .readyTest pc => l = .queue .ready ∧ pc.Holds
  | .dequeue _ pc => l = .queue .ready ∧ pc.Holds
  | .enqueueReady _ _ pc => l = .queue .ready ∧ pc.Holds
  | .enqueueExit _ _ pc => l = .queue .exit ∧ pc.Holds
  | .start | .setRunning _ _ | .requeue _ _ | .switch _ => False

/-- The same of the function that a thread has called. -/
def ThreadPc.Holds (l : SpinlockId Other) : ThreadPc Task Other → Prop
  | .outside => False
  | .kmalloc _ pc => l = .mm ∧ pc.Holds
  | .kfree pc => l = .mm ∧ pc.Holds
  | .queueEnqueue q _ pc => l = .queue q ∧ pc.Holds
  | .queueDequeue q pc => l = .queue q ∧ pc.Holds
  | .queueEmpty q pc => l = .queue q ∧ pc.Holds

/-- The lock that a call of `scheduler` is about to take. -/
def SchedulerPc.Wants (l : SpinlockId Other) : SchedulerPc Task → Prop
  | .exitTest .lock | .reap .lock | .enqueueExit _ _ .lock => l = .queue .exit
  | .free _ .lock => l = .mm
  | .readyTest .lock | .dequeue _ .lock | .enqueueReady _ _ .lock => l = .queue .ready
  | _ => False

/-- The locks that the handler of the timer interrupt takes. -/
def HandlerLock (l : SpinlockId Other) : Prop :=
  l = .mm ∨ l = .queue .ready ∨ l = .queue .exit

/-- The handler spins on a lock that code on the same CPU holds. -/
def SelfDeadlock (s : IrqCpu Task Other) : Prop :=
  ∃ pc l, (s.code s.onCpu).tick = some pc ∧ pc.Wants l ∧ s.word l = true

/-- A call of `kmalloc` or `kfree` is about to return without `spinlock_unlock`. -/
def SchedulerPc.Early (served : Bool) : SchedulerPc Task → Prop
  | .free _ .body => served = false
  | _ => False

/-- The same of the function that a thread has called. -/
def ThreadPc.Early (served : Bool) : ThreadPc Task Other → Prop
  | .kmalloc size .body => served = false ∨ size = 0#64
  | .kfree .body => served = false
  | _ => False

/-- The topmost activation takes an early return of the heap. -/
def ThreadCode.Early (served : Bool) (code : ThreadCode Task Other) : Prop :=
  match code.tick, code.call with
  | some pc, _ => pc.Early served
  | none, some pc => pc.Early served
  | none, none => code.base.Early served

/-- One of the activations holds the lock. -/
def ThreadCode.Holds (l : SpinlockId Other) (code : ThreadCode Task Other) : Prop :=
  code.base.Holds l ∨ (∃ pc, code.call = some pc ∧ pc.Holds l) ∨
    ∃ pc, code.tick = some pc ∧ pc.Holds l

/-- The steps that stay clear: no timer interrupt arrives while the thread is between `spinlock_lock` and
`spinlock_unlock` of a lock that the handler takes, and no call of the heap takes an early return. -/
def Unhindered (s : IrqCpu Task Other) : IrqStep Task Other → Prop
  | .call _ => True
  | .run served => ¬ (s.code s.onCpu).Early served
  | .tick => ∀ l, HandlerLock l → ¬ (s.code s.onCpu).Holds l

variable {s s' : IrqCpu Task Other} {l : SpinlockId Other} {served : Bool}

omit [DecidableEq Task] in
/-- The lock words after a step of a section: `H` says of where the code goes on that it holds `l`. -/
theorem sectionStep_word {α β : Type} {l' : SpinlockId Other}
    {effect : IrqCpu Task Other → IrqCpu Task Other × α} {inside : SectionPc α → β} {done : α → β}
    {H : β → Prop} (hInside : ∀ pc, l = l' ∧ pc.Holds → H (inside pc))
    (hEffect : (effect s).1.word = s.word) (pc : SectionPc α)
    (h : (s.sectionStep l' effect inside done pc).1.word l = true) :
    H (s.sectionStep l' effect inside done pc).2 ∨ s.word l = true ∧ ¬ (l = l' ∧ pc.Holds) := by
  by_cases hl : l = l'
  · cases pc with
    | lock =>
        simp only [IrqCpu.sectionStep] at h ⊢
        split at h
        · exact Or.inr ⟨h, fun hBoth => hBoth.2⟩
        · rename_i hFree
          rw [if_neg hFree]
          exact Or.inl (hInside .body ⟨hl, trivial⟩)
    | body => exact Or.inl (hInside _ ⟨hl, trivial⟩)
    | unlock result => simp [IrqCpu.sectionStep, IrqCpu.setWord, hl] at h
  · refine Or.inr ⟨?_, fun hBoth => hl hBoth.1⟩
    cases pc with
    | lock =>
        simp only [IrqCpu.sectionStep] at h
        split at h
        · exact h
        · simpa [IrqCpu.setWord, hl] using h
    | body => rwa [IrqCpu.sectionStep, hEffect] at h
    | unlock result => simpa [IrqCpu.sectionStep, IrqCpu.setWord, hl] using h

omit [DecidableEq Task] in
theorem heapStep_word {β : Type} {inside : SectionPc Unit → β} {done : β} {H : β → Prop}
    (hInside : ∀ pc, l = .mm ∧ pc.Holds → H (inside pc)) (pc : SectionPc Unit)
    (hServed : pc = .body → served = true)
    (h : (s.heapStep served inside done pc).1.word l = true) :
    H (s.heapStep served inside done pc).2 ∨ s.word l = true ∧ ¬ (l = .mm ∧ pc.Holds) := by
  have hNot : ¬ (pc = .body ∧ served = false) := by
    rintro ⟨hBody, hFalse⟩
    rw [hServed hBody] at hFalse
    cases hFalse
  simp only [IrqCpu.heapStep, if_neg hNot] at h ⊢
  exact sectionStep_word hInside rfl pc h

omit [DecidableEq Task] in
theorem delFirst_word (q : CpuQueue Other) : (IrqCpu.delFirst q s).1.word = s.word := by
  unfold IrqCpu.delFirst
  split <;> rfl

/-- The call of `scheduler`, if it has not returned, holds the lock. -/
def HoldsSome (l : SpinlockId Other) (pc : Option (SchedulerPc Task)) : Prop :=
  ∃ pc', pc = some pc' ∧ pc'.Holds l

/-- What a step of `scheduler` leaves of the locks: those of the section that it is in, and those that
it has not given back. -/
theorem schedulerStep_word {pc : SchedulerPc Task} {r : IrqCpu Task Other × Option (SchedulerPc Task)}
    (hStep : s.schedulerStep served pc = some r) (hEarly : ¬ pc.Early served)
    (h : r.1.word l = true) : HoldsSome l r.2 ∨ s.word l = true ∧ ¬ pc.Holds l := by
  cases pc with
  | start | setRunning | requeue | switch =>
      cases hStep
      exact Or.inr ⟨h, id⟩
  | exitTest pc | readyTest pc | enqueueReady _ _ pc | enqueueExit _ _ pc =>
      cases hStep
      exact sectionStep_word (fun pc hHolds => ⟨_, rfl, hHolds⟩) rfl pc h
  | reap pc =>
      have hEq : s.sectionStep (.queue .exit) (IrqCpu.delFirst .exit) (fun pc => some (.reap pc))
          (fun node => node.map fun task => IrqCpu.freeNext (s.reapedBlocks task)) pc = r := by
        unfold IrqCpu.schedulerStep at hStep
        split at hStep <;> simp_all
      subst hEq
      exact sectionStep_word (fun pc hHolds => ⟨_, rfl, hHolds⟩) (delFirst_word _) pc h
  | dequeue oldTask pc =>
      have hEq : s.sectionStep (.queue .ready) (IrqCpu.delFirst .ready)
          (fun pc => some (.dequeue oldTask pc))
          (fun node => node.map fun newTask => .setRunning oldTask newTask) pc = r := by
        unfold IrqCpu.schedulerStep at hStep
        split at hStep <;> simp_all
      subst hEq
      exact sectionStep_word (fun pc hHolds => ⟨_, rfl, hHolds⟩) (delFirst_word _) pc h
  | free left pc =>
      cases hStep
      refine heapStep_word (fun pc hHolds => ⟨_, rfl, hHolds⟩) pc ?_ h
      rintro rfl
      simpa [SchedulerPc.Early] using hEarly

omit [DecidableEq Task] in
theorem threadStep_word {pc : ThreadPc Task Other} {r : IrqCpu Task Other × ThreadPc Task Other}
    (hStep : s.threadStep served pc = some r) (hEarly : ¬ pc.Early served)
    (h : r.1.word l = true) : r.2.Holds l ∨ s.word l = true ∧ ¬ pc.Holds l := by
  cases pc with
  | outside => cases hStep
  | kmalloc size pc =>
      cases hStep
      refine heapStep_word (H := ThreadPc.Holds l) (fun _ => id) pc ?_ h
      rintro rfl
      simpa [ThreadPc.Early] using hEarly
  | kfree pc =>
      cases hStep
      refine heapStep_word (H := ThreadPc.Holds l) (fun _ => id) pc ?_ h
      rintro rfl
      simpa [ThreadPc.Early] using hEarly
  | queueEnqueue q node pc | queueEmpty q pc =>
      cases hStep
      exact sectionStep_word (H := ThreadPc.Holds l) (fun _ => id) rfl pc h
  | queueDequeue q pc =>
      cases hStep
      exact sectionStep_word (H := ThreadPc.Holds l) (fun _ => id) (delFirst_word q) pc h

/-! ## The invariant -/

/-- The locks that the activations below the topmost one hold. -/
def ThreadCode.Under (l : SpinlockId Other) (code : ThreadCode Task Other) : Prop :=
  (code.tick ≠ none ∨ code.call ≠ none) ∧ code.base.Holds l ∨
    code.tick ≠ none ∧ HoldsSome l code.call

/-- A lock of the handler that is taken is held by the topmost activation of the thread on the CPU,
and nothing else holds one. -/
structure LockInv (s : IrqCpu Task Other) : Prop where
  others : ∀ t l, HandlerLock l → t ≠ s.onCpu → ¬ (s.code t).Holds l
  under : ∀ l, HandlerLock l → ¬ (s.code s.onCpu).Under l
  word : ∀ l, HandlerLock l → s.word l = true → (s.code s.onCpu).Holds l

omit [DecidableEq Task] [DecidableEq Other] in
theorem lockInv_start (h : IrqStart s) : LockInv s := by
  have hNot : ∀ t l, ¬ (s.code t).Holds l := by
    intro t l
    obtain ⟨hBase, hCall, hTick⟩ := h.code t
    simp [ThreadCode.Holds, hBase, hCall, hTick, ThreadPc.Holds]
  refine ⟨fun t l _ _ => hNot t l, ?_, ?_⟩
  · intro l _
    obtain ⟨hBase, hCall, hTick⟩ := h.code s.onCpu
    simp [ThreadCode.Under, hCall, hTick]
  · intro l _ hWord
    rw [h.word l] at hWord
    cases hWord

omit [DecidableEq Other] in
/-- The thread on the CPU goes on at `code`, in a state with the same threads. -/
theorem LockInv.goOn (h : LockInv s) {code : ThreadCode Task Other}
    (hCode : s'.code = Function.update s.code s.onCpu code) (hOnCpu : s'.onCpu = s.onCpu)
    (hUnder : ∀ l, HandlerLock l → ¬ code.Under l)
    (hWord : ∀ l, HandlerLock l → s'.word l = true → code.Holds l) : LockInv s' := by
  refine ⟨?_, ?_, ?_⟩
  · intro t l hl ht
    rw [hOnCpu] at ht
    rw [hCode, Function.update_of_ne ht]
    exact h.others t l hl ht
  · intro l hl
    rw [hCode, hOnCpu, Function.update_self]
    exact hUnder l hl
  · intro l hl hTaken
    rw [hCode, hOnCpu, Function.update_self]
    exact hWord l hl hTaken

omit [DecidableEq Other] in
/-- Another thread is switched to, when the one that was on the CPU holds no lock any more. -/
theorem LockInv.switch (h : LockInv s) {code : ThreadCode Task Other}
    (hCode : s'.code = Function.update s.code s.onCpu code)
    (hQuiet : ∀ l, HandlerLock l → ¬ code.Holds l)
    (hWord : ∀ l, HandlerLock l → s'.word l = false) : LockInv s' := by
  have hNot : ∀ t l, HandlerLock l → ¬ (s'.code t).Holds l := by
    intro t l hl
    by_cases ht : t = s.onCpu
    · rw [ht, hCode, Function.update_self]
      exact hQuiet l hl
    · rw [hCode, Function.update_of_ne ht]
      exact h.others t l hl ht
  refine ⟨fun t l hl _ => hNot t l hl, ?_, ?_⟩
  · intro l hl hUnder
    refine hNot s'.onCpu l hl ?_
    rcases hUnder with ⟨-, hBase⟩ | ⟨-, hCall⟩
    · exact Or.inl hBase
    · exact Or.inr (Or.inl hCall)
  · intro l hl hTaken
    rw [hWord l hl] at hTaken
    cases hTaken

omit [DecidableEq Task] in
theorem sectionStep_frame {α β : Type} {effect : IrqCpu Task Other → IrqCpu Task Other × α}
    {inside : SectionPc α → β} {done : α → β} {pc : SectionPc α}
    (hEffect : (effect s).1.code = s.code ∧ (effect s).1.onCpu = s.onCpu) :
    (s.sectionStep l effect inside done pc).1.code = s.code ∧
      (s.sectionStep l effect inside done pc).1.onCpu = s.onCpu := by
  cases pc with
  | lock =>
      simp only [IrqCpu.sectionStep]
      split
      · exact ⟨rfl, rfl⟩
      · exact ⟨rfl, rfl⟩
  | body => exact hEffect
  | unlock result => exact ⟨rfl, rfl⟩

omit [DecidableEq Task] in
theorem heapStep_frame {β : Type} {inside : SectionPc Unit → β} {done : β} {pc : SectionPc Unit} :
    (s.heapStep served inside done pc).1.code = s.code ∧
      (s.heapStep served inside done pc).1.onCpu = s.onCpu := by
  unfold IrqCpu.heapStep
  split
  · exact ⟨rfl, rfl⟩
  · exact sectionStep_frame ⟨rfl, rfl⟩

omit [DecidableEq Task] in
theorem delFirst_frame (q : CpuQueue Other) :
    (IrqCpu.delFirst q s).1.code = s.code ∧ (IrqCpu.delFirst q s).1.onCpu = s.onCpu := by
  unfold IrqCpu.delFirst
  split <;> exact ⟨rfl, rfl⟩

/-- A step of `scheduler` moves no thread, and the CPU goes to another one at its end only. -/
theorem schedulerStep_frame {pc : SchedulerPc Task}
    {r : IrqCpu Task Other × Option (SchedulerPc Task)}
    (hStep : s.schedulerStep served pc = some r) :
    r.1.code = s.code ∧ (r.1.onCpu = s.onCpu ∨ r.2 = none) := by
  cases pc with
  | start | setRunning | requeue =>
      cases hStep
      exact ⟨rfl, Or.inl rfl⟩
  | switch =>
      cases hStep
      exact ⟨rfl, Or.inr rfl⟩
  | exitTest pc | readyTest pc | enqueueReady _ _ pc | enqueueExit _ _ pc =>
      cases hStep
      exact (sectionStep_frame ⟨rfl, rfl⟩).imp_right Or.inl
  | reap pc | dequeue oldTask pc =>
      unfold IrqCpu.schedulerStep at hStep
      split at hStep <;> simp_all
      subst hStep
      exact (sectionStep_frame (delFirst_frame _)).imp_right Or.inl
  | free left pc =>
      cases hStep
      exact heapStep_frame.imp_right Or.inl

omit [DecidableEq Task] in
theorem threadStep_frame {pc : ThreadPc Task Other} {r : IrqCpu Task Other × ThreadPc Task Other}
    (hStep : s.threadStep served pc = some r) : r.1.code = s.code ∧ r.1.onCpu = s.onCpu := by
  cases pc with
  | outside => cases hStep
  | kmalloc size pc | kfree pc =>
      cases hStep
      exact heapStep_frame
  | queueEnqueue q node pc | queueEmpty q pc =>
      cases hStep
      exact sectionStep_frame ⟨rfl, rfl⟩
  | queueDequeue q pc =>
      cases hStep
      exact sectionStep_frame (delFirst_frame q)

/-- A step of `scheduler` by the thread on the CPU, which is then at `code`: `code` holds what the call
holds, and what the activations below it held. -/
theorem LockInv.schedulerStep (h : LockInv s) {pc : SchedulerPc Task}
    {r : IrqCpu Task Other × Option (SchedulerPc Task)} {code : ThreadCode Task Other}
    (hStep : s.schedulerStep served pc = some r) (hEarly : ¬ pc.Early served)
    (hTop : ∀ l, (s.code s.onCpu).Holds l → pc.Holds l ∨ (s.code s.onCpu).Under l)
    (hHolds : ∀ l, code.Holds l ↔ HoldsSome l r.2 ∨ (s.code s.onCpu).Under l)
    (hUnder : ∀ l, code.Under l → (s.code s.onCpu).Under l) :
    LockInv (r.1.goto s.onCpu code) := by
  obtain ⟨hCode, hOnCpu⟩ := schedulerStep_frame hStep
  have hWord : ∀ l, HandlerLock l → r.1.word l = true → HoldsSome l r.2 := by
    intro l hl hTaken
    refine (schedulerStep_word hStep hEarly hTaken).resolve_right ?_
    rintro ⟨hOld, hNot⟩
    exact (hTop l (h.word l hl hOld)).elim hNot (h.under l hl)
  have hGoto : (r.1.goto s.onCpu code).code = Function.update s.code s.onCpu code := by
    rw [← hCode]
    rfl
  rcases hOnCpu with hSame | hNone
  · exact h.goOn hGoto hSame (fun l hl hIn => h.under l hl (hUnder l hIn))
      fun l hl hTaken => (hHolds l).mpr (Or.inl (hWord l hl hTaken))
  · have hNot : ∀ l : SpinlockId Other, ¬ HoldsSome l r.2 := by
      rintro l ⟨pc', hPc, -⟩
      rw [hNone] at hPc
      cases hPc
    refine h.switch hGoto (fun l hl hIn => ?_) fun l hl => ?_
    · exact ((hHolds l).mp hIn).elim (hNot l) (h.under l hl)
    · exact Bool.eq_false_iff.mpr fun hTaken => hNot l (hWord l hl hTaken)

theorem LockInv.run (h : LockInv s) (hEarly : ¬ (s.code s.onCpu).Early served)
    (hStep : s.run served = some s') : LockInv s' := by
  unfold IrqCpu.run at hStep
  split at hStep
  · -- the handler
    rename_i pc hTick
    simp only [Option.map_eq_some_iff] at hStep
    obtain ⟨r, hr, rfl⟩ := hStep
    refine h.schedulerStep hr (by simpa [ThreadCode.Early, hTick] using hEarly) ?_ ?_ ?_
    · intro l hIn
      simp only [ThreadCode.Holds, ThreadCode.Under, hTick, HoldsSome] at hIn ⊢
      grind
    · intro l
      simp only [ThreadCode.Holds, ThreadCode.Under, hTick, HoldsSome]
      grind
    · intro l
      simp only [ThreadCode.Under, hTick, HoldsSome]
      grind
  · rename_i hTick
    split at hStep
    · -- the thread's own call of `scheduler`
      rename_i pc hCall
      simp only [Option.map_eq_some_iff] at hStep
      obtain ⟨r, hr, rfl⟩ := hStep
      refine h.schedulerStep hr (by simpa [ThreadCode.Early, hTick, hCall] using hEarly) ?_ ?_ ?_
      · intro l hIn
        simp only [ThreadCode.Holds, ThreadCode.Under, hTick, hCall, HoldsSome] at hIn ⊢
        grind
      · intro l
        simp only [ThreadCode.Holds, ThreadCode.Under, hTick, hCall, HoldsSome]
        grind
      · intro l
        simp only [ThreadCode.Under, hTick, hCall, HoldsSome]
        grind
    · -- the function it has called
      rename_i hCall
      simp only [Option.map_eq_some_iff] at hStep
      obtain ⟨r, hr, rfl⟩ := hStep
      obtain ⟨hCode, hOnCpu⟩ := threadStep_frame hr
      have hGoto : (r.1.goto s.onCpu { s.code s.onCpu with base := r.2 }).code =
          Function.update s.code s.onCpu { s.code s.onCpu with base := r.2 } := by
        simp only [IrqCpu.goto, hCode]
      refine h.goOn hGoto hOnCpu ?_ ?_
      · simp [ThreadCode.Under, hTick, hCall]
      · intro l hl hTaken
        have hEarly' : ¬ (s.code s.onCpu).base.Early served := by
          simpa [ThreadCode.Early, hTick, hCall] using hEarly
        rcases threadStep_word hr hEarly' hTaken with hIn | ⟨hOld, hNot⟩
        · exact Or.inl hIn
        · have hHeld := h.word l hl hOld
          simp only [ThreadCode.Holds, hTick, hCall] at hHeld
          simp [hNot] at hHeld

/-- A call from code of the thread's own takes none of the handler's locks. -/
theorem LockInv.call (h : LockInv s) (hTick : (s.code s.onCpu).tick = none)
    (hCall : (s.code s.onCpu).call = none) (hBase : (s.code s.onCpu).base = .outside)
    (c : ThreadCall Task Other) : LockInv (threadCall s c) := by
  have hFree : ∀ l, HandlerLock l → s.word l = false := by
    intro l hl
    refine Bool.eq_false_iff.mpr fun hTaken => ?_
    simpa [ThreadCode.Holds, hTick, hCall, hBase, ThreadPc.Holds] using h.word l hl hTaken
  have hGoto : ∀ code, code.tick = none → (∀ l, ¬ code.base.Holds l) →
      LockInv (s.goto s.onCpu code) := by
    intro code hNone hNot
    refine h.goOn rfl rfl ?_ fun l hl hTaken => ?_
    · simp [ThreadCode.Under, hNone, hNot]
    · rw [show (s.goto s.onCpu code).word l = s.word l from rfl, hFree l hl] at hTaken
      cases hTaken
  have hKeep : ∀ t : IrqCpu Task Other, t.code = s.code → t.onCpu = s.onCpu →
      (∀ l, HandlerLock l → t.word l = s.word l) → LockInv t := by
    intro t hCode hOnCpu hWord
    refine h.goOn ?_ hOnCpu h.under fun l hl hTaken => ?_
    · rw [hCode, Function.update_eq_self]
    · rw [hWord l hl, hFree l hl] at hTaken
      cases hTaken
  have hOther : ∀ (l : Other) (taken : Bool) (l' : SpinlockId Other), HandlerLock l' →
      (s.setWord (.other l) taken).word l' = s.word l' := by
    intro l taken l' hl
    refine Function.update_of_ne ?_ _ _
    rintro rfl
    simp [HandlerLock] at hl
  cases c with
  | kmalloc | kfree | queueEnqueue | queueDequeue | queueEmpty =>
      exact hGoto _ hTick (by simp [ThreadPc.Holds, SectionPc.Holds])
  | scheduler | localIrqDisable | localIrqEnable =>
      exact hGoto _ hTick (by simp [hBase, ThreadPc.Holds])
  | spinlockLock l =>
      simp only [threadCall]
      split
      · exact h
      · exact hKeep _ rfl rfl (hOther l true)
  | spinlockUnlock l => exact hKeep _ rfl rfl (hOther l false)
  | setStatus status => exact hKeep _ rfl rfl fun _ _ => rfl

theorem lockInv_step {step : IrqStep Task Other} (h : LockInv s) (hClear : Unhindered s step)
    (hStep : irqStep s step = some s') : LockInv s' := by
  cases step with
  | run served => exact h.run hClear hStep
  | call c =>
      simp only [irqStep] at hStep
      split at hStep
      · rename_i hOwn
        cases hStep
        exact h.call hOwn.1 hOwn.2.1 hOwn.2.2 c
      · cases hStep
  | tick =>
      simp only [irqStep] at hStep
      split at hStep
      · rename_i hOn
        cases hStep
        refine h.goOn rfl rfl ?_ fun l hl hTaken => absurd (h.word l hl hTaken) (hClear l hl)
        intro l hl hUnder
        refine hClear l hl ?_
        rcases hUnder with ⟨-, hBase⟩ | ⟨-, hCall⟩
        · exact Or.inl hBase
        · exact Or.inr (Or.inl hCall)
      · cases hStep

theorem lockInv_of_reachable {s0 : IrqCpu Task Other} (hStart : IrqStart s0)
    (hReach : IrqReachable Unhindered s0 s) : LockInv s := by
  induction hReach with
  | refl => exact lockInv_start hStart
  | tail _ hNext ih =>
      obtain ⟨step, hClear, hStep⟩ := hNext
      exact lockInv_step ih hClear hStep

omit [DecidableEq Task] [DecidableEq Other] in
/-- Where `scheduler` is about to take a lock, it is one of the handler's, and none is held. -/
theorem SchedulerPc.Wants.spec {pc : SchedulerPc Task} (h : pc.Wants l) :
    HandlerLock l ∧ ∀ l' : SpinlockId Other, ¬ pc.Holds l' := by
  unfold SchedulerPc.Wants at h
  split at h <;> simp_all [HandlerLock, SchedulerPc.Holds, SectionPc.Holds]

/-- A given run. -/
def irqRun (s : IrqCpu Task Other) : List (IrqStep Task Other) → Option (IrqCpu Task Other)
  | [] => some s
  | step :: rest =>
      match irqStep s step with
      | none => none
      | some s' => irqRun s' rest

theorem irqReachable_of_run {Allowed : IrqCpu Task Other → IrqStep Task Other → Prop}
    (hAllowed : ∀ s step, Allowed s step) {steps : List (IrqStep Task Other)} (h : irqRun s steps = some s') :
    IrqReachable Allowed s s' := by
  refine Program.reflTransGen_of_run irqStep (fun _ => rfl) (fun s step rest => ?_)
    (fun s step t hStep => ⟨step, hAllowed s step, hStep⟩) h
  rw [irqRun]
  cases irqStep s step <;> rfl

end Steps

/-- Thread `false` runs, and the kernel task `true` has exited and is still to be reaped. -/
def exitedTask : IrqCpu Bool Unit where
  word _ := false
  queue q := if q = .exit then [true] else []
  current := some false
  status t := if t then .exit else .running
  flags _ := .kern
  segments _ := 0
  onCpu := false
  code _ := ⟨.outside, none, none, false⟩

theorem exitedTask_start : IrqStart exitedTask := ⟨fun _ => rfl, fun _ => ⟨rfl, rfl, rfl⟩⟩

/-- Thread `false` runs, and thread `true` waits for a mutex. -/
def waitedMutex : IrqCpu Bool Unit :=
  { exitedTask with
    queue := fun q => if q = .other () then [true] else []
    status := fun t => if t then .blocked else .running }

/-- The queue operations of `mutex_unlock` with a waiter. -/
def mutexUnlockCalls (waiter : Bool) : List (IrqStep Bool Unit) :=
  [.call (.queueEmpty (.other ())), .run true, .run true, .run true,
    .call (.queueDequeue (.other ())), .run true, .run true, .run true,
    .call (.queueEnqueue .ready waiter)]

end Rayos
