import Mathlib.Tactic

/-!
# Tasks and the scheduler (`task.c`, `queue.c`, `algo.c`)

Every CPU has a current task, a queue of ready tasks and a queue of tasks that have exited but still
own their memory.  A task is put on the ready queue of the least loaded CPU when it is created; from
then on the scheduler of that CPU moves it.

Tasks are numbered in the order of their creation, so a number is never used again, whereas the
memory of a reaped task may be.  Calls are taken as complete: the queue locks are released within
one call and do not appear, whereas the two creation locks, which some error returns leave held, do.
Queue counters are integers without a bound, because every task owns memory of its own and there are
less than `2 ^ 31` frames.
-/

namespace Rayos

/-- `enum task_status`. -/
inductive TaskStatus where
  | exit
  | dead
  | ready
  | running
  | blocked
  deriving DecidableEq

/-- The values of `flags`: 0, `TASK_FLAGS_USER` or `TASK_FLAGS_KERN`. -/
inductive TaskFlags where
  | unset
  | user
  | kern
  deriving DecidableEq

/-- The fields of `struct task_struct` that the scheduler looks at. -/
structure TaskStruct where
  flags : TaskFlags
  status : TaskStatus
  deriving DecidableEq

/-- A `task_struct` as `kzalloc` returns it: the status with the number 0 is `TASK_EXIT`. -/
def TaskStruct.zeroed : TaskStruct := ⟨.unset, .exit⟩

/-- `queue_t`: the tasks whose list nodes are linked, and the counter. -/
structure Queue where
  list : List Nat
  nrList : Int
  deriving DecidableEq

/-- `QUEUE_INIT`. -/
def queueInit : Queue := ⟨[], 0⟩

/-- `queue_enqueue`. -/
def queueEnqueue (q : Queue) (node : Nat) : Queue := ⟨q.list ++ [node], q.nrList + 1⟩

/-- `queue_dequeue`. -/
def queueDequeue (q : Queue) : Option Nat × Queue :=
  match q.list with
  | [] => (none, q)
  | node :: rest => (some node, ⟨rest, q.nrList - 1⟩)

/-- `queue_empty`. -/
def queueEmpty (q : Queue) : Bool := q.list.isEmpty

/-- What the scheduler gives back of a task that has exited. -/
inductive Resource where
  | rsp0
  | kernelStack
  | pageTables
  | userStack
  | loadSegments
  | taskStruct
  deriving DecidableEq

/-- The `switch` on the flags in the reaping loop. -/
def releasedBy : TaskFlags → List Resource
  | .kern => [.rsp0, .kernelStack, .taskStruct]
  | .user => [.pageTables, .userStack, .loadSegments, .rsp0, .taskStruct]
  | .unset => []

/-- One round of the reaping loop: the task, the task that was current on that CPU, and what was
given back. -/
structure Reaped where
  task : Nat
  current : Nat
  released : List Resource
  deriving DecidableEq

/-- The global variables of `task.c`, and a history that no code reads: how many tasks have been
created, which have been reaped, and the first task of each CPU. -/
structure Sched where
  tasks : Nat → TaskStruct
  current : Nat → Option Nat
  taskReadyqueue : Nat → Queue
  taskExitqueue : Nat → Queue
  runProcessSpinlock : Bool
  runThreadSpinlock : Bool
  created : Nat
  reaped : List Reaped
  first : Nat → Option Nat

/-- `task_init`. -/
def taskInit : Sched where
  tasks := fun _ => TaskStruct.zeroed
  current := fun _ => none
  taskReadyqueue := fun _ => queueInit
  taskExitqueue := fun _ => queueInit
  runProcessSpinlock := false
  runThreadSpinlock := false
  created := 0
  reaped := []
  first := fun _ => none

/-- `min_cmp`. -/
def minCmp (a b : Int) : Bool := a < b

/-- `find_extreme_index`. -/
def findExtremeIndex (arr : List Int) (cmp : Int → Int → Bool) : Int :=
  if arr.length = 0 then -1
  else
    ((List.range' 1 (arr.length - 1)).foldl
      (fun idx i => if cmp (arr.getD i 0) (arr.getD idx 0) then i else idx) 0 : Nat)

/-- The machine the scheduler runs on: `MAX_CPUS`, and the APIC ids that `ap_ids` holds, which are
all below `MAX_CPUS`. -/
structure Topology where
  maxCpus : Nat
  apIds : Nat → Nat
  apIds_lt : ∀ i, i < maxCpus → apIds i < maxCpus

namespace Sched

/-- `task_readyqueue[cpu] = q`. -/
def setReadyqueue (s : Sched) (cpu : Nat) (q : Queue) : Sched :=
  { s with taskReadyqueue := Function.update s.taskReadyqueue cpu q }

/-- `task_exitqueue[cpu] = q`. -/
def setExitqueue (s : Sched) (cpu : Nat) (q : Queue) : Sched :=
  { s with taskExitqueue := Function.update s.taskExitqueue cpu q }

/-- `current[cpu] = task`. -/
def setCurrent (s : Sched) (cpu task : Nat) : Sched :=
  { s with current := Function.update s.current cpu (some task) }

/-- `*task = t`. -/
def setTask (s : Sched) (task : Nat) (t : TaskStruct) : Sched :=
  { s with tasks := Function.update s.tasks task t }

/-- `task->status = status`. -/
def setStatus (s : Sched) (task : Nat) (status : TaskStatus) : Sched :=
  s.setTask task { s.tasks task with status := status }

/-- A new `task_struct`, with its contents. -/
def newTask (s : Sched) (t : TaskStruct) : Sched :=
  { s.setTask s.created t with created := s.created + 1 }

end Sched

section Calls

variable (top : Topology)

/-- `sched_enqueue_balanced`. -/
def schedEnqueueBalanced (s : Sched) (task : Nat) : Sched :=
  let loadlist := (List.range top.maxCpus).map fun i => (s.taskReadyqueue i).nrList
  let idx := findExtremeIndex loadlist minCmp
  let cpu := top.apIds idx.toNat
  s.setReadyqueue cpu (queueEnqueue (s.taskReadyqueue cpu) task)

/-- `run_thread` on a CPU; `kzallocOk` is whether `kzalloc` finds memory for the task.  `none` is a
call that waits for the lock forever; the error return leaves the lock held.  Where the CPU has no
current task yet, the new task starts at once and the call ends with the jump into it. -/
def runThread (cpu : Nat) (kzallocOk : Bool) (s : Sched) : Option Sched :=
  if s.runThreadSpinlock then none
  else if !kzallocOk then some { s with runThreadSpinlock := true }
  else
    let task := s.created
    let s := s.newTask ⟨.kern, .ready⟩
    match s.current cpu with
    | none =>
        let s := { s.setCurrent cpu task with first := Function.update s.first cpu (some task) }
        some (s.setStatus task .running)
    | some _ => some (schedEnqueueBalanced top s task)

/-- What `run_process` meets: whether `sys_stat`, the allocation for the file and `sys_open`
succeed, the class byte of the ELF header, and whether `make_elf64_task` succeeds. -/
structure ProcessFile where
  statOk : Bool
  kzallocOk : Bool
  openOk : Bool
  elfClass : BitVec 8
  elf64Ok : Bool
  deriving DecidableEq

/-- `ELFCLASS32`. -/
def elfclass32 : BitVec 8 := 1#8

/-- `ELFCLASS64`. -/
def elfclass64 : BitVec 8 := 2#8

/-- `run_process`: the returned value and the state.  `make_elf32_task` does nothing, so a 32-bit
task keeps the flags and the status of zeroed memory.  The first two error returns leave the lock
held. -/
def runProcess (file : ProcessFile) (s : Sched) : Option (Int × Sched) :=
  if s.runProcessSpinlock then none
  else if !file.statOk then some (-1, { s with runProcessSpinlock := true })
  else if !file.kzallocOk then some (-1, { s with runProcessSpinlock := true })
  else if !file.openOk then some (-1, s)
  else
    let task := s.created
    let s := s.newTask TaskStruct.zeroed
    if file.elfClass = elfclass32 then some (0, schedEnqueueBalanced top s task)
    else if file.elfClass = elfclass64 then
      if file.elf64Ok then
        some (0, schedEnqueueBalanced top (s.setTask task ⟨.user, .ready⟩) task)
      else some (-1, s)
    else some (-1, s)

/-- The loop of `scheduler` that empties the exit queue of the CPU, `old` being its current task;
the first argument bounds the number of rounds. -/
def reapExitqueue (cpu old : Nat) : Nat → Sched → Sched
  | 0, s => s
  | n + 1, s =>
      match queueDequeue (s.taskExitqueue cpu) with
      | (none, _) => s
      | (some task, q) =>
          reapExitqueue cpu old n { s.setExitqueue cpu q with
            reaped := s.reaped ++ [⟨task, old, releasedBy (s.tasks task).flags⟩] }

/-- The `switch` of `scheduler` on the status of the task that is switched away from. -/
def requeue (cpu old : Nat) (s : Sched) : Sched :=
  match (s.tasks old).status with
  | .running => s.setReadyqueue cpu (queueEnqueue (s.taskReadyqueue cpu) old)
  | .exit => s.setExitqueue cpu (queueEnqueue (s.taskExitqueue cpu) old)
  | .blocked | .dead | .ready => s

/-- `scheduler` on a CPU. -/
def scheduler (cpu : Nat) (s : Sched) : Sched :=
  match s.current cpu with
  | none => s
  | some old =>
      let s := reapExitqueue cpu old (s.taskExitqueue cpu).list.length s
      match queueDequeue (s.taskReadyqueue cpu) with
      | (none, _) => s
      | (some new, q) =>
          let s := s.setReadyqueue cpu q
          let s := s.setStatus new .running
          let s := requeue cpu old s
          s.setCurrent cpu new

/-- What `kerntask_exit` and `usertask_exit` share; `none` is a call without a current task. -/
def taskExit (cpu : Nat) (s : Sched) : Option Sched :=
  match s.current cpu with
  | none => none
  | some task => some (scheduler cpu (s.setStatus task .exit))

/-- `kerntask_exit`. -/
def kerntaskExit (cpu : Nat) (s : Sched) : Option Sched := taskExit cpu s

/-- `usertask_exit`; it differs in that interrupts are off already. -/
def usertaskExit (cpu : Nat) (s : Sched) : Option Sched := taskExit cpu s

/-- A complete call on a CPU. -/
inductive SchedCall where
  | runThread (cpu : Nat) (kzallocOk : Bool)
  | runProcess (cpu : Nat) (file : ProcessFile)
  | scheduler (cpu : Nat)
  | kerntaskExit (cpu : Nat)
  | usertaskExit (cpu : Nat)

/-- The CPU that makes the call. -/
def SchedCall.cpu : SchedCall → Nat
  | .runThread cpu _ | .runProcess cpu _ | .scheduler cpu | .kerntaskExit cpu
  | .usertaskExit cpu => cpu

/-- The state after a call that returns; for `run_process`, with success. -/
def schedStep (s : Sched) : SchedCall → Option Sched
  | .runThread cpu kzallocOk => runThread top cpu kzallocOk s
  | .runProcess _ file =>
      match runProcess top file s with
      | some (ret, s') => if ret = 0 then some s' else none
      | none => none
  | .scheduler cpu => some (scheduler cpu s)
  | .kerntaskExit cpu => kerntaskExit cpu s
  | .usertaskExit cpu => usertaskExit cpu s

/-- One call of a run. -/
def SchedNext (s s' : Sched) : Prop :=
  ∃ call : SchedCall, call.cpu < top.maxCpus ∧ schedStep top s call = some s'

/-- The states that runs reach. -/
abbrev SchedReachable : Sched → Prop := Relation.ReflTransGen (SchedNext top) taskInit

end Calls

end Rayos
