import Rayos.Fs.OpenClose
import Rayos.Task.AddressSpace
import Rayos.Task.Elf
import Rayos.Task.SchedRun

/-!
# Running a program (`task.c`)

`run_process` on the virtual file system, the page tables and the ready queues together.  The heap of the file
systems and `mm_spinlock` are those of the kernel; the frames that hold its blocks are not in the bitmap of the
machine, which has the frames that `make_elf64_task` takes.

The FAT library and the operations on open files are parameters.  Every error return of `run_process` leaves
something behind, but for one: a file has been opened, and its descriptor is a negative `int`.

* `runProcess_cases` — the ways out of `run_process`.
* `runProcess_leaves_nothing` — exactly when a call that returns `-1` leaves nothing.
-/

namespace Rayos

open Program CString Vfs Ledger OpenVfs

/-- The state that `run_process` works on. -/
structure Kernel (δ : Type) where
  vfs : OpenVfs δ
  machine : Machine
  sched : Sched

/-- How `run_process` can stop. -/
inductive ProcFault where
  | vfs (e : FsFault)
  | machine (e : Fault)
  deriving DecidableEq

/-- `run_process` and its parts. -/
abbrev ProcM (δ : Type) := EStateM ProcFault (Kernel δ)

/-- What is in memory that `run_process` and `make_elf64_task` have not stored: the field `st_size` of their
local variable, the bytes behind the buffer of the file, and two local variables of `make_elf64_task`. -/
structure Stale where
  stSize : Nat
  beyond : ElfImage
  lastVaddr : U64
  lastMemsz : U64

/-- `sizeof(struct task_struct)`. -/
def sizeofTaskStruct : Nat := 192

namespace Kernel

variable {φ δ α : Type}

/-! ## The code -/

/-- A call of the virtual file system or of the heap. -/
def onVfs (x : OpenM δ α) : ProcM δ α := fun k =>
  match x k.vfs with
  | .ok a vfs => .ok a { k with vfs := vfs }
  | .error e vfs => .error (.vfs e) { k with vfs := vfs }

/-- Kernel code that works on memory; `mm_spinlock` is the lock of the heap. -/
def onMachine (x : KernelM α) : ProcM δ α := fun k =>
  match x { k.machine with mmSpinlock := k.vfs.heap.mmSpinlock } with
  | .ok a m => .ok a { k with
      machine := m
      vfs := { k.vfs with heap := { k.vfs.heap with mmSpinlock := m.mmSpinlock } } }
  | .error e m => .error (.machine e) { k with machine := m }

/-- `spinlock_lock(&run_process_spinlock)`. -/
def lockProcess : ProcM δ Unit := fun k =>
  if k.sched.runProcessSpinlock then .error (.machine .hang) k
  else .ok () { k with sched := { k.sched with runProcessSpinlock := true } }

/-- `spinlock_unlock(&run_process_spinlock)`. -/
def unlockProcess : ProcM δ Unit := modify fun k =>
  { k with sched := { k.sched with runProcessSpinlock := false } }

variable (top : Topology) (lib : FatLib φ δ) (ops : FileOps δ) (kind : Nat → FsKind) (switchToUser : U64)
  (stale : Stale)

/-- The buffer of `size` bytes, zeroed and then filled with the bytes of the file. -/
def elfBuffer (size : Nat) (bytes : List (BitVec 8)) : ElfImage := fun i =>
  if i < size then bytes.getD i 0#8 else stale.beyond i

/-- `make_elf32_task`, which leaves the task as it is. -/
def makeElf32Task (task : UserTask) : Int × UserTask := (0, task)

/-- The branches on the class of the file: `none` for `goto err`. -/
def makeTask (elf : ElfImage) (task : Option Nat) (pathname : Str) : ProcM δ (Option UserTask) :=
  if elf 4 = elfclass32 then pure (some (makeElf32Task UserTask.zeroed).2)
  else if elf 4 = elfclass64 then
    match task with
    | none => throw (.vfs .nullPointer)
    | some _ => do
        let (ret, made) ← onMachine (makeElf64Task elf UserTask.zeroed pathname switchToUser
          stale.lastVaddr stale.lastMemsz)
        if ret < 0 then pure none else pure (some made)
  else pure none

/-- `sched_enqueue_balanced(task)` of the new task. -/
def enqueue (task : Option Nat) (made : UserTask) : ProcM δ Unit :=
  match task with
  | none => throw (.vfs .nullPointer)
  | some _ => modify fun k =>
      { k with sched := schedEnqueueBalanced top (k.sched.newTask made.toTaskStruct) k.sched.created }

/-- The end of `run_process`, after `err` and before it: the file is closed, and the buffer is given back. -/
def closeFile (fd : Int) (elf : Nat) : ProcM δ Unit := do
  let _ ← onVfs (sysClose ops kind (BitVec.ofInt 32 fd))
  onVfs (OpenVfs.kfree elf)

/-- `err`. -/
def runProcessErr (fd : Int) (elf : Nat) : ProcM δ Int := do
  closeFile ops kind fd elf
  unlockProcess
  pure (-1)

/-- `run_process` with an open file. -/
def runProcessOpened (pathname : Str) (size elf : Nat) (fd : Int) : ProcM δ Int := do
  let task ← onVfs (OpenVfs.kzalloc sizeofTaskStruct)
  let (_, bytes) ← onVfs (sysRead ops kind (BitVec.ofInt 32 fd) size)
  match ← makeTask switchToUser stale (elfBuffer stale size bytes) task pathname with
  | none => runProcessErr ops kind fd elf
  | some made => do
      closeFile ops kind fd elf
      enqueue top task made
      unlockProcess
      pure 0

/-- `run_process`. -/
def runProcess (pathname : Str) : ProcM δ Int := do
  lockProcess
  let (ret, stSize) ← onVfs (sysStat lib ops kind pathname)
  if ret < 0 then pure (-1)
  else do
    let size := stSize.getD stale.stSize
    match ← onVfs (OpenVfs.kzalloc size) with
    | none => pure (-1)
    | some elf => do
        let fd ← onVfs (sysOpen lib kind pathname faRead)
        if 0 ≤ fd then runProcessOpened top ops kind switchToUser stale pathname size elf fd
        else runProcessErr ops kind fd elf

/-! ## Runs of the parts -/

variable {top lib ops kind switchToUser stale} {k k' : Kernel δ}

theorem onVfs_eq_ok {x : OpenM δ α} {a : α} :
    onVfs x k = .ok a k' ↔ ∃ vfs, x k.vfs = .ok a vfs ∧ k' = { k with vfs := vfs } := by
  unfold onVfs
  cases hRun : x k.vfs with
  | ok b vfs =>
      constructor
      · intro hEq
        cases hEq
        exact ⟨vfs, rfl, rfl⟩
      · rintro ⟨vfs', hEq, rfl⟩
        cases hEq
        rfl
  | error e vfs =>
      constructor
      · intro hEq
        cases hEq
      · rintro ⟨vfs', hEq, -⟩
        cases hEq

/-- The virtual file system with the lock of the heap held or free. -/
def withLock (v : OpenVfs δ) (lock : Bool) : OpenVfs δ := { v with heap := { v.heap with mmSpinlock := lock } }

/-- Of the virtual file system, work on memory changes the lock of the heap only. -/
theorem onMachine_vfs {x : KernelM α} {a : α} (hRun : onMachine x k = .ok a k') :
    x { k.machine with mmSpinlock := k.vfs.heap.mmSpinlock } = .ok a k'.machine ∧ k'.sched = k.sched ∧
      k'.vfs = withLock k.vfs k'.machine.mmSpinlock := by
  unfold onMachine at hRun
  split at hRun
  · rename_i hMachine
    cases hRun
    exact ⟨hMachine, rfl, rfl⟩
  · cases hRun

theorem makeTask_vfs {elf : ElfImage} {task : Option Nat} {pathname : Str} {made : Option UserTask}
    (hRun : makeTask switchToUser stale elf task pathname k = .ok made k') :
    k'.sched = k.sched ∧ ∃ lock, k'.vfs = withLock k.vfs lock := by
  unfold makeTask at hRun
  by_cases h32 : elf 4 = elfclass32
  · rw [if_pos h32] at hRun
    cases hRun
    exact ⟨rfl, _, rfl⟩
  rw [if_neg h32] at hRun
  by_cases h64 : elf 4 = elfclass64
  · rw [if_pos h64] at hRun
    cases task with
    | none => cases hRun
    | some block =>
        simp only [bind_eq_ok] at hRun
        obtain ⟨⟨ret, made'⟩, k1, hMake, hRun⟩ := hRun
        obtain ⟨-, hSched, hVfs⟩ := onMachine_vfs hMake
        by_cases hErr : ret < 0
        · simp only [if_pos hErr] at hRun
          cases hRun
          exact ⟨hSched, _, hVfs⟩
        · simp only [if_neg hErr] at hRun
          cases hRun
          exact ⟨hSched, _, hVfs⟩
  · rw [if_neg h64] at hRun
    cases hRun
    exact ⟨rfl, _, rfl⟩

theorem closeFile_eq_ok {fd : Int} {elf : Nat} {u : Unit} (hRun : closeFile ops kind fd elf k = .ok u k') :
    ∃ rc t t', sysClose ops kind (BitVec.ofInt 32 fd) k.vfs = .ok rc t ∧ OpenVfs.kfree elf t = .ok () t' ∧
      k' = { k with vfs := t' } := by
  simp only [closeFile, bind_eq_ok] at hRun
  obtain ⟨rc, k1, hFirst, hSecond⟩ := hRun
  obtain ⟨t, hClose, rfl⟩ := onVfs_eq_ok.mp hFirst
  obtain ⟨t', hFree, rfl⟩ := onVfs_eq_ok.mp hSecond
  exact ⟨rc, t, t', hClose, hFree, rfl⟩

/-- The descriptor has been closed and the buffer given back, on the way from `t` to the end of the call. -/
def Closed (ops : FileOps δ) (kind : Nat → FsKind) (fd : Int) (elf : Nat) (t t' : OpenVfs δ) : Prop :=
  ∃ rc t1, sysClose ops kind (BitVec.ofInt 32 fd) t = .ok rc t1 ∧ OpenVfs.kfree elf t1 = .ok () t'

theorem runProcessErr_cases {fd : Int} {elf : Nat} {r : Int}
    (hRun : runProcessErr ops kind fd elf k = .ok r k') :
    r = -1 ∧ Closed ops kind fd elf k.vfs k'.vfs ∧ k'.machine = k.machine ∧
      k'.sched = { k.sched with runProcessSpinlock := false } := by
  simp only [runProcessErr, bind_eq_ok] at hRun
  obtain ⟨_, k1, hEnd, _, k2, hUnlock, hRun⟩ := hRun
  obtain ⟨rc, t, t', hClose, hFree, rfl⟩ := closeFile_eq_ok hEnd
  cases hUnlock
  cases hRun
  exact ⟨rfl, ⟨rc, t, hClose, hFree⟩, rfl, rfl⟩

/-- With a descriptor that a file has, `run_process` fails after the `task_struct` has been taken; what follows
does not give it back. -/
theorem runProcessOpened_failed {pathname : Str} {size elf : Nat} {fd : Int} {filp : File}
    (hFile : fileOf k.vfs.fileList (BitVec.ofInt 32 fd) = some filp)
    (hRun : runProcessOpened top ops kind switchToUser stale pathname size elf fd k = .ok (-1) k') :
    ∃ t, t.fileList = k.vfs.fileList ∧ t.dentryList = k.vfs.dentryList ∧
      t.blocks.live = k.vfs.blocks.next :: k.vfs.blocks.live ∧ Closed ops kind fd elf t k'.vfs := by
  simp only [runProcessOpened, bind_eq_ok] at hRun
  obtain ⟨task, k1, hFirst, ⟨n, bytes⟩, k2, hSecond, made, k3, hMake, hRun⟩ := hRun
  obtain ⟨t1, hTask, rfl⟩ := onVfs_eq_ok.mp hFirst
  obtain ⟨t2, hRead, rfl⟩ := onVfs_eq_ok.mp hSecond
  obtain ⟨-, ⟨-, -, rfl, rfl⟩ | ⟨-, rfl, rfl⟩⟩ := kzalloc_cases hTask
  · rcases sysRead_cases hRead with ⟨hNone, -⟩ | ⟨-, disk, rfl⟩
    · rw [show k.vfs.took.fileList = k.vfs.fileList from rfl, hFile] at hNone
      cases hNone
    obtain ⟨-, lock, hVfs⟩ := makeTask_vfs hMake
    have hFiles : k3.vfs.fileList = k.vfs.fileList := by rw [hVfs]; rfl
    have hDentries : k3.vfs.dentryList = k.vfs.dentryList := by rw [hVfs]; rfl
    have hLive : k3.vfs.blocks.live = k.vfs.blocks.next :: k.vfs.blocks.live := by
      rw [hVfs]
      exact looked_live k.vfs.took
    cases made with
    | none =>
        obtain ⟨-, hClosed, -, -⟩ := runProcessErr_cases hRun
        exact ⟨k3.vfs, hFiles, hDentries, hLive, hClosed⟩
    | some task =>
        simp only [bind_eq_ok] at hRun
        obtain ⟨_, k4, -, _, k5, -, _, k6, -, hRun⟩ := hRun
        cases hRun
  · -- the heap is locked, and `sys_read` does not return
    rcases sysRead_cases hRead with ⟨hNone, -⟩ | ⟨hLock, -⟩
    · have hNone' : fileOf k.vfs.fileList (BitVec.ofInt 32 fd) = none := hNone
      rw [hFile] at hNone'
      cases hNone'
    · cases hLock

/-- The file can be looked at, and there is memory for the buffer. -/
structure Buffers (lib : FatLib φ δ) (ops : FileOps δ) (kind : Nat → FsKind) (stale : Stale) (mount : Mount)
    (pathname : Str) (v : OpenVfs δ) : Prop where
  stat : 0 ≤ (fsStat lib ops kind mount pathname v.fs).1.1
  size : (fsStat lib ops kind mount pathname v.fs).1.2.getD stale.stSize ≠ 0
  memory : v.heap.memory (v.heap.kzallocs + 1) = true

/-- The state after `sys_stat`. -/
def statted (lib : FatLib φ δ) (ops : FileOps δ) (kind : Nat → FsKind) (mount : Mount) (pathname : Str)
    (v : OpenVfs δ) : OpenVfs δ :=
  v.looked.setFs (fsStat lib ops kind mount pathname v.fs).2

/-- The ways out of `run_process`: it stops before the file is opened and keeps its lock, the descriptor is
negative, or the file is open. -/
inductive ProcessExit (top : Topology) (lib : FatLib φ δ) (ops : FileOps δ) (kind : Nat → FsKind)
    (switchToUser : U64) (stale : Stale) (pathname : Str) (k k' : Kernel δ) (r : Int) : Prop where
  | stopped (hErr : r = -1) (hLock : k'.sched.runProcessSpinlock = true)
      (hNot : ∀ mount, Vfs.mountGet k.vfs.mountList pathname = some mount →
        ¬ Buffers lib ops kind stale mount pathname k.vfs)
  | rejected (mount : Mount) (fd : Int) (t : OpenVfs δ)
      (hMount : Vfs.mountGet k.vfs.mountList pathname = some mount)
      (hBuffers : Buffers lib ops kind stale mount pathname k.vfs)
      (hOpen : sysOpen lib kind pathname faRead (statted lib ops kind mount pathname k.vfs).took = .ok fd t)
      (hFd : fd < 0) (hErr : r = -1) (hClosed : Closed ops kind fd (k.vfs.blocks.next + 1) t k'.vfs)
      (hMachine : k'.machine = k.machine) (hSched : k'.sched = { k.sched with runProcessSpinlock := false })
  | opened (mount : Mount) (fd : Int) (t : OpenVfs δ)
      (hMount : Vfs.mountGet k.vfs.mountList pathname = some mount)
      (hBuffers : Buffers lib ops kind stale mount pathname k.vfs)
      (hOpen : sysOpen lib kind pathname faRead (statted lib ops kind mount pathname k.vfs).took = .ok fd t)
      (hFd : 0 ≤ fd)
      (hRun : runProcessOpened top ops kind switchToUser stale pathname
        ((fsStat lib ops kind mount pathname k.vfs.fs).1.2.getD stale.stSize) (k.vfs.blocks.next + 1) fd
        { k with vfs := t, sched := { k.sched with runProcessSpinlock := true } } = .ok r k')

theorem runProcess_cases {pathname : Str} {r : Int}
    (hRun : runProcess top lib ops kind switchToUser stale pathname k = .ok r k') :
    ProcessExit top lib ops kind switchToUser stale pathname k k' r := by
  simp only [runProcess, bind_eq_ok] at hRun
  obtain ⟨_, k1, hLock, ⟨ret, stSize⟩, k2, hFirst, hRun⟩ := hRun
  unfold lockProcess at hLock
  by_cases hHeld : k.sched.runProcessSpinlock = true
  · rw [if_pos hHeld] at hLock
    cases hLock
  rw [if_neg hHeld] at hLock
  cases hLock
  obtain ⟨v, hStat, rfl⟩ := onVfs_eq_ok.mp hFirst
  rcases sysStat_cases hStat with ⟨hNone, hRet, rfl⟩ | ⟨mount, hMount, hRet, rfl⟩
  · cases hRet
    simp only [Left.neg_neg_iff, zero_lt_one, if_true] at hRun
    cases hRun
    refine .stopped rfl rfl fun mount hMount => ?_
    rw [show Vfs.mountGet k.vfs.mountList pathname = none from hNone] at hMount
    cases hMount
  have hMount' : Vfs.mountGet k.vfs.mountList pathname = some mount := hMount
  have hStat1 : ret = (fsStat lib ops kind mount pathname k.vfs.fs).1.1 := congrArg Prod.fst hRet
  have hStat2 : stSize = (fsStat lib ops kind mount pathname k.vfs.fs).1.2 := congrArg Prod.snd hRet
  by_cases hNeg : ret < 0
  · simp only [if_pos hNeg] at hRun
    cases hRun
    refine .stopped rfl rfl fun mount' hMount'' hBuffers => ?_
    rw [hMount'] at hMount''
    cases hMount''
    have := hBuffers.stat
    omega
  simp only [if_neg hNeg, bind_eq_ok] at hRun
  obtain ⟨ptr, k3, hSecond, hRun⟩ := hRun
  obtain ⟨v', hAlloc, rfl⟩ := onVfs_eq_ok.mp hSecond
  obtain ⟨-, ⟨hSize, hMemory, rfl, rfl⟩ | ⟨hFull, rfl, rfl⟩⟩ := kzalloc_cases hAlloc
  · simp only [bind_eq_ok] at hRun
    obtain ⟨fd, k4, hThird, hRun⟩ := hRun
    obtain ⟨t, hOpen, rfl⟩ := onVfs_eq_ok.mp hThird
    have hBuffers : Buffers lib ops kind stale mount pathname k.vfs :=
      ⟨by omega, by rw [← hStat2]; exact hSize, hMemory⟩
    by_cases hFd : 0 ≤ fd
    · simp only [if_pos hFd] at hRun
      rw [hStat2] at hRun
      exact .opened mount fd t hMount' hBuffers hOpen hFd hRun
    · simp only [if_neg hFd] at hRun
      obtain ⟨rfl, hClosed, hMachine, hSched⟩ := runProcessErr_cases hRun
      exact .rejected mount fd t hMount' hBuffers hOpen (by omega) rfl hClosed hMachine hSched
  · cases hRun
    refine .stopped rfl rfl fun mount' hMount'' hBuffers => hFull ?_
    rw [hMount'] at hMount''
    cases hMount''
    exact ⟨by rw [hStat2]; exact hBuffers.size, hBuffers.memory⟩

/-! ## What a failed call leaves -/

/-- Nothing is left of a call of `run_process`: its lock is free, the frames, up to those that have become tables,
the translations and the areas of the heap are as before, no file, dentry or block has been left, and the ready
queues are the same. -/
structure NothingLeft (k k' : Kernel δ) : Prop where
  unlocked : k'.sched.runProcessSpinlock = false
  frames : ∀ f, k'.machine.pageAllocBitmap.bit f = k.machine.pageAllocBitmap.bit f ∨
    ∃ q, TablePath kernelHead q ∧ k'.machine.table q = some f
  translations : ∀ w, k'.machine.page w = k.machine.page w
  areas : k'.machine.vmapAreaList = k.machine.vmapAreaList
  vfs : OpenVfs.NothingLeft k.vfs k'.vfs
  queues : k'.sched.taskReadyqueue = k.sched.taskReadyqueue

/-- The file is opened, and its descriptor, which no other file has, is a negative `int`. -/
def OpensNegative (lib : FatLib φ δ) (ops : FileOps δ) (kind : Nat → FsKind) (stale : Stale) (pathname : Str)
    (v : OpenVfs δ) : Prop :=
  ∃ mount, Vfs.mountGet v.mountList pathname = some mount ∧ Buffers lib ops kind stale mount pathname v ∧
    Accepts lib kind mount pathname faRead (statted lib ops kind mount pathname v) ∧
    v.fdCount.toInt < 0 ∧ fileOf v.fileList v.fdCount = none

section Failed

variable {mount : Mount} {pathname : Str} {v s t t' : OpenVfs δ} {fd : Int} {elf : Nat}

/-- The state in which the file is opened. -/
theorem statted_sound (hSound : v.Sound) : (statted lib ops kind mount pathname v).took.Sound :=
  (hSound.looked _).took

theorem statted_since (lib : FatLib φ δ) (ops : FileOps δ) (kind : Nat → FsKind) (mount : Mount)
    (pathname : Str) (v : OpenVfs δ) : Since v.blocks (statted lib ops kind mount pathname v).took.blocks
    [v.blocks.next + 1] [v.blocks.next] :=
  Since.refl.lend.take

theorem statted_live (lib : FatLib φ δ) (ops : FileOps δ) (kind : Nat → FsKind) (mount : Mount)
    (pathname : Str) (v : OpenVfs δ) :
    (statted lib ops kind mount pathname v).took.blocks.live.length = v.blocks.live.length + 1 := by
  simp [statted, looked, Ledger.take, Ledger.giveBack]

theorem ofInt_fdCount {fd : Int} {c : BitVec 32} (hFd : fd = c.toInt) : BitVec.ofInt 32 fd = c := by
  rw [hFd, BitVec.ofInt_toInt]

/-- After a `sys_open` that has failed a block is left, or a file has been closed that the call has not
opened. -/
theorem not_nothingLeft_of_failed {block : Nat} {own gone : List Nat} (hOpening : Opening s t (block :: own) gone)
    (hFiles : s.fileList = v.fileList) (hLive : s.blocks.live.length = v.blocks.live.length + 1)
    (hClosed : Closed ops kind fd elf t t') : ¬ OpenVfs.NothingLeft v t' := by
  obtain ⟨rc, t1, hClose, hFree⟩ := hClosed
  have hEnd := kfree_holds hFree
  have hBlocks := t1.blocks.giveBack_length elf
  rw [← hEnd.blocks] at hBlocks
  have hOwn : t.blocks.live.length = own.length + 1 + s.blocks.live.length := by
    rw [hOpening.since.live, List.length_append, List.length_cons]
  intro hNothing
  have hLeft := congrArg List.length hNothing.live
  have hSame := congrArg List.length hNothing.files
  rw [hEnd.files] at hSame
  have hOld := congrArg List.length hOpening.files
  rw [hFiles] at hOld
  rcases sysClose_counts hClose with ⟨-, -, hKept⟩ | ⟨hShorter, -⟩
  · rw [hKept] at hBlocks
    omega
  · omega

/-- With one block more than those of the open file and the buffer, no `sys_close` leaves the lists of files and
dentries and the blocks as they were. -/
theorem not_nothingLeft_of_counts (hFiles : t.fileList.length = v.fileList.length + 1)
    (hCounts : (t.dentryList.length = v.dentryList.length ∧
        t.blocks.live.length = v.blocks.live.length + 3) ∨
      (t.dentryList.length = v.dentryList.length + 1 ∧ t.blocks.live.length = v.blocks.live.length + 7))
    (hClosed : Closed ops kind fd elf t t') : ¬ OpenVfs.NothingLeft v t' := by
  obtain ⟨rc, t1, hClose, hFree⟩ := hClosed
  have hEnd := kfree_holds hFree
  have hBlocks := t1.blocks.giveBack_length elf
  rw [← hEnd.blocks] at hBlocks
  intro hNothing
  have hLeft := congrArg List.length hNothing.live
  have hSameFiles := congrArg List.length hNothing.files
  have hSameDentries := congrArg List.length hNothing.dentries
  rw [hEnd.files] at hSameFiles
  rw [hEnd.dentries] at hSameDentries
  rcases sysClose_counts hClose with ⟨hKept, -, -⟩ | ⟨-, ⟨hSame, hFew⟩ | ⟨hFewer, hMany⟩⟩
  · rw [hKept] at hSameFiles
    omega
  · omega
  · omega

/-- A `sys_open` that has not failed, in numbers. -/
theorem sysOpen_counts {fd : Int} (hMount : Vfs.mountGet s.mountList pathname = some mount)
    (hOpen : sysOpen lib kind pathname faRead s = .ok fd t) (hFd : 0 ≤ fd) :
    fd = s.fdCount.toInt ∧ (∃ filp, t.fileList = s.fileList ++ [filp] ∧ filp.fd = s.fdCount) ∧
      ((t.dentryList.length = s.dentryList.length ∧ t.blocks.live.length = s.blocks.live.length + 1) ∨
        (t.dentryList.length = s.dentryList.length + 1 ∧
          t.blocks.live.length = s.blocks.live.length + 5)) := by
  cases sysOpen_cases hMount hOpen with
  | locked hErr => omega
  | failed _ _ hErr => omega
  | shared d hEq _ hState =>
      refine ⟨hEq, ⟨⟨s.blocks.next, s.fdCount, d.addr⟩, ?_, rfl⟩, Or.inl ⟨?_, ?_⟩⟩
      · simp [hState, OpenVfs.shared, looked]
      · simp [hState, OpenVfs.shared, refTaken]
      · simp [hState, OpenVfs.shared, looked, Ledger.take, Ledger.giveBack]
  | entered hEq _ _ _ hState =>
      refine ⟨hEq, ⟨⟨s.blocks.next, s.fdCount, s.blocks.next + 3⟩, ?_, rfl⟩, Or.inr ⟨?_, ?_⟩⟩
      · simp [hState, OpenVfs.entered, looked]
      · simp [hState, OpenVfs.entered]
      · simp [hState, OpenVfs.entered, looked, Ledger.take, Ledger.giveBack]

/-- A file that another call has opened is closed, and the new one stays. -/
theorem not_nothingLeft_of_other {filp new : File} (hOld : ∀ f ∈ v.fileList, f.addr < new.addr)
    (hFiles : t.fileList = v.fileList ++ [new]) (hFile : fileOf v.fileList (BitVec.ofInt 32 fd) = some filp)
    (hClosed : Closed ops kind fd elf t t') : ¬ OpenVfs.NothingLeft v t' := by
  obtain ⟨rc, t1, hClose, hFree⟩ := hClosed
  have hEnd := kfree_holds hFree
  have hFirst : fileOf t.fileList (BitVec.ofInt 32 fd) = some filp := by
    unfold fileOf at hFile ⊢
    rw [hFiles, List.find?_append, hFile]
    rfl
  have hNew : new ∈ t1.fileList := by
    have hMem : new ∈ t.fileList := by simp [hFiles]
    rcases sysClose_cases hClose with ⟨-, -, rfl⟩ | ⟨filp', hFilp, hCase⟩
    · exact hMem
    rw [hFirst] at hFilp
    cases hFilp
    rcases hCase with ⟨hErr, hCase⟩ | ⟨t2, -, -, hHolds⟩
    · cases hCase with
      | unmounted _ _ _ _ hSame =>
          rw [hSame.files]
          exact hMem
      | dropped _ _ hZero => omega
      | last _ _ _ hZero => omega
    · have hNe : new.addr ≠ filp.addr := (hOld filp (List.mem_of_find?_eq_some hFile)).ne'
      rw [hHolds.files, List.mem_eraseP_of_neg (by simpa using hNe)]
      exact hMem
  intro hNothing
  rw [← hEnd.files, hNothing.files] at hNew
  exact lt_irrefl _ (hOld new hNew)

/-- The buffer is the last block to be given back. -/
theorem nothingLeft_of_closed {t1 : OpenVfs δ} (hFiles : t1.fileList = v.fileList)
    (hDentries : t1.dentryList = v.dentryList) (hSince : ∃ gone, Since v.blocks t1.blocks [elf] gone)
    (hFree : OpenVfs.kfree elf t1 = .ok () t') : OpenVfs.NothingLeft v t' := by
  obtain ⟨gone, hSince⟩ := hSince
  have hEnd := kfree_holds hFree
  have hBlocks := hSince.giveBack [] []
  rw [← hEnd.blocks] at hBlocks
  refine ⟨hEnd.files.trans hFiles, hEnd.dentries.trans hDentries, hBlocks.live_eq_iff.mpr rfl, ?_⟩
  exact ⟨_, hBlocks.given, hBlocks.gone_nodup⟩

end Failed

/-- **A failed `run_process` leaves nothing behind** exactly when it has opened the file and the descriptor is a
negative `int` that no other file has. -/
theorem runProcess_leaves_nothing (top : Topology) (lib : FatLib φ δ) (ops : FileOps δ) (kind : Nat → FsKind)
    (switchToUser : U64) (stale : Stale) {k k' : Kernel δ} (hSound : k.vfs.Sound) {pathname : Str}
    (hCall : runProcess top lib ops kind switchToUser stale pathname k = .ok (-1) k') :
    NothingLeft k k' ↔ OpensNegative lib ops kind stale pathname k.vfs := by
  cases runProcess_cases hCall with
  | stopped _ hLock hNot =>
      constructor
      · intro hNothing
        have hFree := hNothing.unlocked
        rw [hLock] at hFree
        cases hFree
      · rintro ⟨mount, hMount, hBuffers, -⟩
        exact absurd hBuffers (hNot mount hMount)
  | opened mount fd t hMount hBuffers hOpen hFd hRun =>
      obtain ⟨hEq, ⟨new, hFiles, hNew⟩, hCounts⟩ :=
        sysOpen_counts (s := (statted lib ops kind mount pathname k.vfs).took) hMount hOpen hFd
      have hLive := statted_live lib ops kind mount pathname k.vfs
      constructor
      · intro hNothing
        obtain ⟨filp, hFile⟩ : ∃ filp, fileOf t.fileList (BitVec.ofInt 32 fd) = some filp := by
          rw [ofInt_fdCount hEq, ← Option.isSome_iff_exists, fileOf, List.find?_isSome]
          exact ⟨new, by simp [hFiles], by simp [hNew]⟩
        obtain ⟨t1, hFiles1, hDentries1, hLive1, hClosed⟩ := runProcessOpened_failed hFile hRun
        refine absurd hNothing.vfs (not_nothingLeft_of_counts ?_ ?_ hClosed)
        · rw [hFiles1, hFiles, List.length_append]
          rfl
        · rw [hDentries1, hLive1, List.length_cons]
          refine hCounts.imp (fun h => ⟨h.1, ?_⟩) fun h => ⟨h.1, ?_⟩
          · show t.blocks.live.length + 1 = k.vfs.blocks.live.length + 3
            omega
          · show t.blocks.live.length + 1 = k.vfs.blocks.live.length + 7
            omega
      · rintro ⟨_, _, _, _, hNeg, _⟩
        rw [hEq] at hFd
        exact absurd hNeg (not_lt.mpr hFd)
  | rejected mount fd t hMount hBuffers hOpen hFd _ hClosed hMachine hSched =>
      have hSoundS : (statted lib ops kind mount pathname k.vfs).took.Sound := statted_sound hSound
      have hSince := statted_since lib ops kind mount pathname k.vfs
      -- what holds of a file that has been opened, new or by its dentry
      have hOpened : ∀ dentry,
          t.fileList = k.vfs.fileList ++ [⟨(statted lib ops kind mount pathname k.vfs).took.blocks.next,
            k.vfs.fdCount, dentry⟩] →
          fd = k.vfs.fdCount.toInt →
          Accepts lib kind mount pathname faRead (statted lib ops kind mount pathname k.vfs) →
          (∀ rc t1, fileOf k.vfs.fileList k.vfs.fdCount = none →
            sysClose ops kind k.vfs.fdCount t = .ok rc t1 → t1.fileList = k.vfs.fileList ∧
              t1.dentryList = k.vfs.dentryList ∧
              ∃ gone, Since k.vfs.blocks t1.blocks [k.vfs.blocks.next + 1] gone) →
          (NothingLeft k k' ↔ OpensNegative lib ops kind stale pathname k.vfs) := by
        intro dentry hFiles hEq hAccepts hUndo
        constructor
        · intro hNothing
          refine ⟨mount, hMount, hBuffers, hAccepts, by omega, ?_⟩
          by_contra hTaken
          obtain ⟨filp, hFile⟩ := Option.ne_none_iff_exists'.mp hTaken
          rw [← ofInt_fdCount hEq] at hFile
          refine not_nothingLeft_of_other ?_ hFiles hFile hClosed hNothing.vfs
          intro f hf
          exact hSoundS.file_lt f hf
        · rintro ⟨_, _, _, _, _, hFresh⟩
          obtain ⟨rc, t1, hClose, hFree⟩ := hClosed
          rw [ofInt_fdCount hEq] at hClose
          obtain ⟨hFiles1, hDentries1, hSince1⟩ := hUndo rc t1 hFresh hClose
          have hVfs := nothingLeft_of_closed hFiles1 hDentries1 hSince1 hFree
          refine ⟨by rw [hSched], fun f => Or.inl (by rw [hMachine]), fun w => by rw [hMachine],
            by rw [hMachine], hVfs, by rw [hSched]⟩
      cases sysOpen_cases (s := (statted lib ops kind mount pathname k.vfs).took) hMount hOpen with
      | locked _ hLock =>
          obtain ⟨rc, t1, hClose, hFree⟩ := hClosed
          obtain rfl := sysClose_locked hClose hLock
          rw [unlocked_of_free hFree] at hLock
          cases hLock
      | failed block gone _ hNot hOpening =>
          constructor
          · intro hNothing
            exact absurd hNothing.vfs (not_nothingLeft_of_failed hOpening rfl
              (statted_live lib ops kind mount pathname k.vfs) hClosed)
          · rintro ⟨mount', hMount', -, hAccepts, -⟩
            rw [hMount] at hMount'
            cases hMount'
            exact absurd hAccepts hNot
      | shared d hEq hFind hState =>
          refine hOpened d.addr ?_ hEq (Or.inl ?_) ?_
          · simp [hState, OpenVfs.shared, looked, statted]
          · intro hNone
            rw [show (statted lib ops kind mount pathname k.vfs).took.dentryList =
              (statted lib ops kind mount pathname k.vfs).dentryList from rfl, hNone] at hFind
            cases hFind
          · intro rc t1 hFresh hClose
            exact shared_close (s := (statted lib ops kind mount pathname k.vfs).took) hSoundS hMount hFresh hFind hState hClose hSince
      | entered hEq hFind hKind hServed hState =>
          refine hOpened ((statted lib ops kind mount pathname k.vfs).took.blocks.next + 3) ?_ hEq
            (Or.inr ⟨hKind, hServed⟩) ?_
          · simp [hState, OpenVfs.entered, looked, statted]
          · intro rc t1 hFresh hClose
            exact entered_close (s := (statted lib ops kind mount pathname k.vfs).took) hSoundS hMount hFresh hKind hState hClose hSince

/-- A volume on which every path is the file `content`. -/
def textVolume (content : List (BitVec 8)) : FatLib Unit Unit :=
  { emptyVolume with
    fStat := fun _ _ => ((.frOk, ⟨0#8, content.length⟩), ())
    fOpen := fun _ _ _ => ((.frOk, ()), ()) }

/-- Reading it. -/
def textOps (content : List (BitVec 8)) : FileOps Unit where
  fRead _ len _ := ((.frOk, content.take len), ())
  fClose _ _ := ()
  tmpfsStat _ _ := ((-1, none), ())
  tmpfsRead _ _ _ := ((0, []), ())

/-- A kernel with the volume at the root; the next descriptor is `fdCount`. -/
def textKernel (fdCount : BitVec 32) : Kernel Unit :=
  ⟨{ emptyOpen with fdCount := fdCount }, userMachine, taskInit⟩

/-- Nothing of interest. -/
def noStale : Stale := ⟨0, fun _ => 0#8, 0#64, 0#64⟩

/-- The bytes `hello`. -/
def helloText : List (BitVec 8) := [0x68#8, 0x65#8, 0x6c#8, 0x6c#8, 0x6f#8]

/-- With the descriptor `-2147483648` the call fails and leaves nothing. -/
theorem runProcess_leaves_nothing_negative :
    ∃ k', runProcess twoCpus (textVolume helloText) (textOps helloText) (fun _ => .fatfs) 0#64 noStale pathX
        (textKernel 0x80000000#32) = .ok (-1) k' ∧ NothingLeft (textKernel 0x80000000#32) k' := by
  have hSound : (textKernel 0x80000000#32).vfs.Sound := by
    constructor <;> simp [textKernel, emptyOpen]
  have hCall : runProcess twoCpus (textVolume helloText) (textOps helloText) (fun _ => .fatfs) 0#64 noStale pathX
      (textKernel 0x80000000#32) = .ok (-1) _ := rfl
  refine ⟨_, hCall, ?_⟩
  refine (runProcess_leaves_nothing twoCpus (textVolume helloText) (textOps helloText) (fun _ => .fatfs) 0#64
    noStale hSound hCall).mpr ⟨⟨[], 0⟩, rfl, ⟨by decide, by decide, rfl⟩, Or.inr ⟨rfl, rfl, rfl⟩, by decide, rfl⟩

/-- A text file is no program: the call fails, and the `task_struct` stays in use. -/
theorem run_process_text_leaves :
    ∃ k', runProcess twoCpus (textVolume helloText) (textOps helloText) (fun _ => .fatfs) 0#64 noStale pathX
        (textKernel 0#32) = .ok (-1) k' ∧ k'.vfs.blocks.live = [8] ∧ ¬ NothingLeft (textKernel 0#32) k' := by
  refine ⟨_, rfl, rfl, fun hNothing => ?_⟩
  have hLive := hNothing.vfs.live
  cases hLive

end Kernel

end Rayos
