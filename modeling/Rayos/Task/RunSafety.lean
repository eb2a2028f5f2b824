import Rayos.Fs.OpenRun
import Rayos.Task.ElfReads
import Rayos.Task.RunProcess

/-!
# Program files of any content (`task.c`)

`run_process` on a file of a FAT volume that can be opened and read, whatever the file holds.  What the two
loaders look at decides about the call: the class byte, the program headers and the segments, of which nothing
is compared with the size of the file.

* `runProcess_run` — the call returns whenever the loader does, with the task that it has made or with `-1`.
* `handled_contentOk` — a file that is handled safely is empty, or all that is looked at lies in the file, its
  class is not the 32-bit one, and a 64-bit file has a `PT_LOAD` header.
* `runProcess_handles` — and such a file is handled safely, if the segments of a 64-bit file can be mapped.
-/

namespace Rayos

open Program CString Vfs Ledger OpenVfs

/-- What `run_process` and `make_elf64_task` read of the buffer of the file. -/
def elfReads (elf : ElfImage) : List (Nat × Nat) :=
  (4, 1) :: if elf 4 = elfclass64 then elf64Reads elf else []

/-- Every byte that is read is one of the first `size`. -/
def ReadsInside (size : Nat) (elf : ElfImage) : Prop := ∀ r ∈ elfReads elf, r.2 = 0 ∨ r.1 + r.2 ≤ size

instance (size : Nat) (elf : ElfImage) : Decidable (ReadsInside size elf) :=
  inferInstanceAs (Decidable (∀ r ∈ elfReads elf, _))

namespace Kernel

variable {φ δ : Type} {top : Topology} {lib : FatLib φ δ} {ops : FileOps δ} {kind : Nat → FsKind}
  {switchToUser : U64} {stale : Stale} {k k' k1 : Kernel δ} {pathname : Str}
  {content : List (BitVec 8)} {mount : Mount}

/-- The file is on a FAT volume that serves it, its descriptor is new, and there is memory for every request. -/
structure OpensFile (lib : FatLib φ δ) (ops : FileOps δ) (kind : Nat → FsKind) (mount : Mount) (pathname : Str)
    (content : List (BitVec 8)) (k : Kernel δ) : Prop where
  idle : k.sched.runProcessSpinlock = false
  plenty : k.vfs.Plenty
  sound : k.vfs.Sound
  fits : PathFits pathname
  mounted : Vfs.mountGet k.vfs.mountList pathname = some mount
  fatfs : kind mount.mntFstype = .fatfs
  stat : (fsStat lib ops kind mount pathname k.vfs.fs).1 = (0, some content.length)
  accepts : Accepts lib kind mount pathname faRead (statted lib ops kind mount pathname k.vfs)
  count : 0 ≤ k.vfs.fdCount.toInt
  fresh : fileOf k.vfs.fileList k.vfs.fdCount = none
  /-- Once it is open, reading it gives its content. -/
  read : ∀ fd t d, sysOpen lib kind pathname faRead (statted lib ops kind mount pathname k.vfs).took = .ok fd t →
    d ∈ t.dentryList → d.pathname = pathname →
      (ops.fRead d.privateData (uintOfSize content.length) t.fs).1.2 = content

/-! ## The call returns when the loader does -/

theorem onVfs_ok {α : Type} {x : OpenM δ α} {a : α} {v vfs : OpenVfs δ} (hRun : x v = .ok a vfs) (m : Machine)
    (s : Sched) : onVfs x ⟨v, m, s⟩ = .ok a ⟨vfs, m, s⟩ :=
  onVfs_eq_ok.mpr ⟨vfs, hRun, rfl⟩

/-- The state in which the loader runs: of the machine nothing has changed yet. -/
structure Loading (k k1 : Kernel δ) : Prop where
  machine : k1.machine = k.machine
  unlocked : k1.vfs.heap.mmSpinlock = false
  sched : k1.sched = { k.sched with runProcessSpinlock := true }

/-- The scheduler after the call, for the task that the loader has made. -/
def schedAfter (top : Topology) (s : Sched) : Option UserTask → Sched
  | none => { s with runProcessSpinlock := false }
  | some made => { schedEnqueueBalanced top ({ s with runProcessSpinlock := true }.newTask made.toTaskStruct)
      s.created with runProcessSpinlock := false }

/-- The returned value. -/
def returned : Option UserTask → Int
  | none => -1
  | some _ => 0

/-- Closing the file and giving the buffer back. -/
theorem closeFile_ok (ops : FileOps δ) (h : k.vfs.Plenty) {fd : Int} (elf : Nat) {filp : File} {d : Dentry}
    (hFile : OpenFile kind (BitVec.ofInt 32 fd) filp d k.vfs) :
    ∃ vfs, closeFile ops kind fd elf k = .ok () { k with vfs := vfs } := by
  obtain ⟨t, hClose, hT⟩ := h.sysClose_ok ops hFile
  obtain ⟨t', hFree⟩ : ∃ t', OpenVfs.kfree elf t = .ok () t' := by
    simp only [OpenVfs.kfree, KernelHeap.kfree, hT.unlocked, Bool.false_eq_true, if_false]
    exact ⟨_, rfl⟩
  refine ⟨t', ?_⟩
  unfold closeFile
  rw [bind_ok (onVfs_ok hClose k.machine k.sched)]
  exact onVfs_ok hFree k.machine k.sched

/-- The end of the call, after the loader has returned with the lock of the heap free. -/
theorem afterLoader_ok (top : Topology) (ops : FileOps δ) (elf block : Nat) (hPlenty : k1.vfs.Plenty)
    {fd : Int} {filp : File} {d : Dentry}
    (hFile : OpenFile kind (BitVec.ofInt 32 fd) filp d k1.vfs) {s : Sched}
    (hSched : k1.sched = { s with runProcessSpinlock := true }) (made : Option UserTask) :
    ∃ vfs, (match made with
        | none => runProcessErr ops kind fd elf
        | some made => do
            closeFile ops kind fd elf
            enqueue top (some block) made
            unlockProcess
            pure 0 : ProcM δ Int) k1 =
      .ok (returned made) { k1 with vfs := vfs, sched := schedAfter top s made } := by
  obtain ⟨vfs, hClose⟩ := closeFile_ok ops hPlenty elf hFile
  refine ⟨vfs, ?_⟩
  cases made with
  | none =>
      simp only
      unfold runProcessErr
      rw [bind_ok hClose, hSched]
      rfl
  | some task =>
      simp only
      rw [bind_ok hClose, hSched]
      rfl

/-- **The call returns when the loader does**, if the file is not empty: with `-1` if the loader has rejected it, and
otherwise with 0 and the task on a ready queue. -/
theorem runProcess_run (top : Topology) (switchToUser : U64) (stale : Stale)
    (h : OpensFile lib ops kind mount pathname content k) (hSize : content ≠ []) :
    ∃ block k1, Loading k k1 ∧ ∀ made k2,
      makeTask switchToUser stale (elfBuffer stale content.length content) (some block) pathname k1 = .ok made k2 →
      k2.vfs.heap.mmSpinlock = false →
      ∃ k', runProcess top lib ops kind switchToUser stale pathname k = .ok (returned made) k' ∧
        k'.machine = k2.machine ∧ k'.sched = schedAfter top k.sched made := by
  have hStatted : (statted lib ops kind mount pathname k.vfs).Plenty := h.plenty.looked.setFs _
  have hStat : sysStat lib ops kind pathname k.vfs =
      .ok (0, some content.length) (statted lib ops kind mount pathname k.vfs) := by
    rw [h.plenty.sysStat_ok h.fits h.mounted, h.stat]
    rfl
  have hBuffer := hStatted.kzalloc_ok (show content.length ≠ 0 by simpa using hSize)
  obtain ⟨filp, d, t, hOpen, hT, hMem, hPath, hFile⟩ :=
    hStatted.took.sysOpen_ok (statted_sound h.sound) h.fits h.mounted h.fatfs h.fresh h.accepts
  have hFd : BitVec.ofInt 32 k.vfs.fdCount.toInt = k.vfs.fdCount := ofInt_fdCount rfl
  -- the open file stays open until it is closed
  have hFileTook : OpenFile kind k.vfs.fdCount filp d t.took :=
    hFile.mono rfl rfl rfl fun b hb => List.mem_cons_of_mem _ hb
  have hTask := hT.kzalloc_ok (show sizeofTaskStruct ≠ 0 by decide)
  obtain ⟨n, disk, hRead⟩ := hT.took.sysRead_ok ops content.length hFileTook
  have hBytes : (ops.fRead d.privateData (uintOfSize content.length) t.took.fs).1.2 = content :=
    h.read _ t d hOpen hMem hPath
  rw [hBytes] at hRead
  have hReadFd : OpenVfs.sysRead ops kind
      (BitVec.ofInt 32 (statted lib ops kind mount pathname k.vfs).took.fdCount.toInt) content.length t.took =
        .ok (n, content) (t.took.looked.setFs disk) := by
    rw [ofInt_fdCount rfl]
    exact hRead
  let k1 : Kernel δ := ⟨t.took.looked.setFs disk, k.machine, { k.sched with runProcessSpinlock := true }⟩
  have hK1 : k1.vfs.Plenty := hT.took.looked.setFs disk
  refine ⟨t.blocks.next, k1, ⟨rfl, hK1.unlocked, rfl⟩, fun made k2 hMake hUnlocked => ?_⟩
  obtain ⟨hSched2, lock, hVfs2⟩ := makeTask_vfs hMake
  have hPlenty2 : k2.vfs.Plenty := ⟨hUnlocked, by rw [hVfs2]; exact hK1.memory⟩
  have hFile2 : OpenFile kind (BitVec.ofInt 32 k.vfs.fdCount.toInt) filp d k2.vfs := by
    rw [hFd, hVfs2]
    refine hFileTook.mono rfl rfl rfl fun b hb => ?_
    show b ∈ t.took.looked.blocks.live
    rw [looked_live]
    exact hb
  obtain ⟨vfs, hEnd⟩ := afterLoader_ok top ops (k.vfs.blocks.next + 1) t.blocks.next hPlenty2 hFile2
    hSched2 made
  refine ⟨{ k2 with vfs := vfs, sched := schedAfter top k.sched made }, ?_, rfl, rfl⟩
  have hLock : lockProcess k = .ok () ⟨k.vfs, k.machine, { k.sched with runProcessSpinlock := true }⟩ := by
    unfold lockProcess
    rw [h.idle]
    rfl
  unfold runProcess
  rw [bind_ok hLock, bind_ok (onVfs_ok hStat _ _)]
  simp only [lt_irrefl, if_false, Option.getD_some]
  rw [bind_ok (onVfs_ok hBuffer _ _)]
  simp only
  rw [bind_ok (onVfs_ok hOpen _ _)]
  have hCount : 0 ≤ (statted lib ops kind mount pathname k.vfs).took.fdCount.toInt := h.count
  rw [if_pos hCount]
  unfold runProcessOpened
  rw [bind_ok (onVfs_ok hTask _ _), bind_ok (onVfs_ok hReadFd _ _)]
  simp only
  rw [bind_ok hMake]
  exact hEnd

/-! ## What the loader does with a class -/

/-- A 32-bit file is taken, and its task is left as it is. -/
theorem makeTask_32 {elf : ElfImage} {task : Option Nat} (hClass : elf 4 = elfclass32) (k : Kernel δ) :
    makeTask switchToUser stale elf task pathname k = .ok (some UserTask.zeroed) k := by
  unfold makeTask
  rw [if_pos hClass]
  rfl

/-- A file of no class is rejected. -/
theorem makeTask_none {elf : ElfImage} {task : Option Nat} (h32 : elf 4 ≠ elfclass32) (h64 : elf 4 ≠ elfclass64)
    (k : Kernel δ) : makeTask switchToUser stale elf task pathname k = .ok none k := by
  unfold makeTask
  rw [if_neg h32, if_neg h64]
  rfl

/-- A 64-bit file is given to `make_elf64_task`. -/
theorem makeTask_64 {elf : ElfImage} {block : Nat} (hClass : elf 4 = elfclass64)
    (hUnlocked : k.machine.mmSpinlock = false)
    (hLoading : Loading k k1) {ret : Int} {made : UserTask} {m : Machine}
    (hRun : makeElf64Task elf UserTask.zeroed pathname switchToUser stale.lastVaddr stale.lastMemsz k.machine =
      .ok (ret, made) m) :
    makeTask switchToUser stale elf (some block) pathname k1 =
      .ok (if ret < 0 then none else some made)
        { k1 with machine := m, vfs := withLock k1.vfs m.mmSpinlock } := by
  have hState : { k1.machine with mmSpinlock := k1.vfs.heap.mmSpinlock } = k.machine := by
    rw [hLoading.machine, hLoading.unlocked, ← hUnlocked]
  have hMachine : onMachine (makeElf64Task elf UserTask.zeroed pathname switchToUser stale.lastVaddr
      stale.lastMemsz) k1 = .ok (ret, made) { k1 with machine := m, vfs := withLock k1.vfs m.mmSpinlock } := by
    unfold onMachine
    rw [hState, hRun]
    rfl
  have h32 : elf 4 ≠ elfclass32 := by
    rw [hClass]
    decide
  unfold makeTask
  rw [if_neg h32, if_pos hClass]
  simp only
  rw [bind_ok hMachine]
  simp only
  by_cases hErr : ret < 0
  · rw [if_pos hErr, if_pos hErr]
    rfl
  · rw [if_neg hErr, if_neg hErr]
    rfl

/-! ## Files that are handled safely -/

/-- The call has put a task on a ready queue that can be started: it is the one that the loader has made. -/
def Starts (top : Topology) (switchToUser : U64) (stale : Stale) (pathname : Str) (elf : ElfImage)
    (k k' : Kernel δ) : Prop :=
  ∃ made block k1 k2, Loading k k1 ∧
    makeTask switchToUser stale elf (some block) pathname k1 = .ok (some made) k2 ∧
    k'.machine = k2.machine ∧ k'.sched = schedAfter top k.sched (some made) ∧
    Startable made k'.machine.mem (stackTop elf) (eEntry elf) switchToUser

/-- The file is handled safely: only bytes of its buffer are read, no variable is used before it is set, and the
call returns 0 with a task that can be started, or `-1` with no task on a queue. -/
structure Handled (top : Topology) (lib : FatLib φ δ) (ops : FileOps δ) (kind : Nat → FsKind) (switchToUser : U64)
    (stale : Stale) (pathname : Str) (content : List (BitVec 8)) (k : Kernel δ) : Prop where
  inside : content ≠ [] → ReadsInside content.length (elfBuffer stale content.length content)
  initialised : content ≠ [] → elfBuffer stale content.length content 4 = elfclass64 →
    loadPhdrs (elfBuffer stale content.length content) ≠ []
  result : ∃ r k', runProcess top lib ops kind switchToUser stale pathname k = .ok r k' ∧
    ((r = -1 ∧ k'.sched.taskReadyqueue = k.sched.taskReadyqueue) ∨
      (r = 0 ∧ Starts top switchToUser stale pathname (elfBuffer stale content.length content) k k'))

/-- The file is empty, or what is looked at lies in the file, its class is not the 32-bit one, and a 64-bit file
has a `PT_LOAD` header. -/
def ContentOk (stale : Stale) (content : List (BitVec 8)) : Prop :=
  content = [] ∨
    (ReadsInside content.length (elfBuffer stale content.length content) ∧
      elfBuffer stale content.length content 4 ≠ elfclass32 ∧
      (elfBuffer stale content.length content 4 = elfclass64 →
        loadPhdrs (elfBuffer stale content.length content) ≠ []))

/-- The segments of the image can be mapped, up to the first one in the kernel's half if there is one, and
otherwise with the stack and the table of the task. -/
structure Loadable (n a : Nat) (elf : ElfImage) (s : Machine) : Prop where
  rejected : Rejects elf → RejectedPlaced elf s ∧ a + segmentsCost (beforeKernel elf) ≤ n
  loaded : ¬ Rejects elf → ElfSegments elf s ∧ ElfPlaced elf s ∧ (loadPhdrs elf).Pairwise SegmentsApart ∧
    (loadPhdrs elf).length < s.vmapAreaPool.freeList.length ∧
    a + (segmentsCost (elfPhdrs elf) + (512 + usertaskCost (elfPhdr elf 0).pVaddr (stackTop elf))) ≤ n

/-- A 32-bit file is not handled safely: its task is not one that can be started. -/
theorem handled_contentOk (h : OpensFile lib ops kind mount pathname content k)
    (hHandled : Handled top lib ops kind switchToUser stale pathname content k) : ContentOk stale content := by
  by_cases hSize : content = []
  · exact Or.inl hSize
  refine Or.inr ⟨hHandled.inside hSize, fun h32 => ?_, hHandled.initialised hSize⟩
  obtain ⟨block, k1, hLoading, hRun⟩ := runProcess_run top switchToUser stale h hSize
  obtain ⟨k', hCall, -, -⟩ := hRun _ _ (makeTask_32 h32 k1) hLoading.unlocked
  obtain ⟨r, k'', hCall', hResult⟩ := hHandled.result
  rw [hCall] at hCall'
  cases hCall'
  rcases hResult with ⟨hErr, -⟩ | ⟨-, made, block', k1', k2', -, hMake, -, -, hStart⟩
  · cases hErr
  · rw [makeTask_32 h32 k1'] at hMake
    cases hMake
    cases hStart.flags

/-- An empty file: there is no buffer of no bytes, and the call fails. -/
theorem runProcess_empty (top : Topology) (switchToUser : U64) (stale : Stale)
    (h : OpensFile lib ops kind mount pathname [] k) :
    ∃ k', runProcess top lib ops kind switchToUser stale pathname k = .ok (-1) k' ∧
      k'.sched = { k.sched with runProcessSpinlock := true } := by
  have hStatted : (statted lib ops kind mount pathname k.vfs).Plenty := h.plenty.looked.setFs _
  have hStat : sysStat lib ops kind pathname k.vfs =
      .ok (0, some 0) (statted lib ops kind mount pathname k.vfs) := by
    rw [h.plenty.sysStat_ok h.fits h.mounted, h.stat]
    rfl
  obtain ⟨t, hNone⟩ : ∃ t, OpenVfs.kzalloc 0 (statted lib ops kind mount pathname k.vfs) = .ok none t := by
    simp only [OpenVfs.kzalloc, KernelHeap.kzalloc, hStatted.unlocked, Bool.false_eq_true, if_false, ne_eq,
      not_true_eq_false, false_and]
    exact ⟨_, rfl⟩
  have hLock : lockProcess k = .ok () ⟨k.vfs, k.machine, { k.sched with runProcessSpinlock := true }⟩ := by
    unfold lockProcess
    rw [h.idle]
    rfl
  refine ⟨⟨t, k.machine, { k.sched with runProcessSpinlock := true }⟩, ?_, rfl⟩
  unfold runProcess
  rw [bind_ok hLock, bind_ok (onVfs_ok hStat _ _)]
  simp only [lt_irrefl, if_false, Option.getD_some]
  rw [bind_ok (onVfs_ok hNone _ _)]
  rfl

/-- The loader on a file whose segments can be mapped: it returns with the lock of the heap free, and the task can
be started unless it is rejected. -/
theorem makeTask_loadable (switchToUser : U64) (stale : Stale) (pathname : Str) (block : Nat) {n a : Nat}
    {mapped others : List Block} {elf : ElfImage}
    (hReady : KernelReady n mapped others k.machine) (hRam : 512 ≤ n) (hRoom : Room n a k.machine)
    (hLoading : Loading k k1) (hClass : elf 4 = elfclass64) (hNe : loadPhdrs elf ≠ [])
    (hLoadable : Loadable n a elf k.machine) :
    ∃ made k2, makeTask switchToUser stale elf (some block) pathname k1 = .ok made k2 ∧
      k2.vfs.heap.mmSpinlock = false ∧
      ∀ task, made = some task → Startable task k2.machine.mem (stackTop elf) (eEntry elf) switchToUser := by
  by_cases hReject : Rejects elf
  · obtain ⟨hPlaced, hCost⟩ := hLoadable.rejected hReject
    obtain ⟨task, m, hRun, hFree⟩ := makeElf64Task_rejected hReady hRam hReject hPlaced hRoom hCost pathname
      switchToUser stale.lastVaddr stale.lastMemsz
    refine ⟨none, _, makeTask_64 hClass hReady.unlocked hLoading hRun, hFree, fun _ hSome => ?_⟩
    cases hSome
  · obtain ⟨hSegs, hPlaced, hApart, hPool, hCost⟩ := hLoadable.loaded hReject
    obtain ⟨task, m, -, hRun, -, hStart, hFree⟩ := makeElf64Task_ok hReady hSegs hPlaced hApart hRam pathname
      switchToUser stale.lastVaddr stale.lastMemsz ((makeElf64Task_costs hNe _ _ _ _ _).noFail hRoom hCost)
    refine ⟨some task, _, makeTask_64 hClass hReady.unlocked hLoading hRun, hFree hPool, fun _ hSome => ?_⟩
    cases hSome
    exact hStart

/-- The bytes of `tinyElf` with both bytes of its segment. -/
def tinyContent : List (BitVec 8) := (List.range 120).map (tinyElf 2#8)

/-- A kernel with the volume at the root, and the page tables of `elfMachine`. -/
def tinyKernel : Kernel Unit := ⟨emptyOpen, elfMachine, taskInit⟩

/-- Every file of the volume `textVolume` can be opened. -/
theorem opensFile_text (content : List (BitVec 8)) (hSmall : content.length < 2 ^ 32) (m : Machine) :
    OpensFile (textVolume content) (textOps content) (fun _ => .fatfs) ⟨[], 0⟩ pathX content
      ⟨emptyOpen, m, taskInit⟩ where
  idle := rfl
  plenty := ⟨rfl, fun _ => rfl⟩
  sound := by constructor <;> simp [emptyOpen]
  fits := by
    unfold PathFits
    decide
  mounted := rfl
  fatfs := rfl
  stat := by
    simp [fsStat, textVolume, amDir]
    rfl
  accepts := Or.inr ⟨rfl, rfl, rfl⟩
  count := by
    show 0 ≤ (0#32).toInt
    decide
  fresh := rfl
  read := by
    intro fd t d _ _ _
    show content.take (uintOfSize content.length) = content
    rw [uintOfSize, Nat.mod_eq_of_lt hSmall, List.take_length]

theorem tinyContent_buffer : elfBuffer noStale tinyContent.length tinyContent = tinyElf 2#8 := by
  have hLength : tinyContent.length = 120 := by simp [tinyContent]
  funext i
  unfold elfBuffer
  by_cases hi : i < 120
  · rw [hLength, if_pos hi]
    simp [tinyContent, List.getD_eq_getElem?_getD, hi]
  · rw [hLength, if_neg hi]
    show 0#8 = tinyElf 2#8 i
    unfold tinyElf
    split <;> first | rfl | omega

theorem tinyElf_notRejects : ¬ Rejects (tinyElf 2#8) := by
  rintro ⟨p, hp, hKernel⟩
  rw [tinyElf_loads, List.mem_singleton] at hp
  subst hp
  exact absurd hKernel (by decide)

theorem tinyElf_inside : ReadsInside 120 (tinyElf 2#8) := by
  have hNum : ePhnum (tinyElf 2#8) = 1 := by simp [ePhnum, elfNat, tinyElf]
  have hOff : phdrOff (tinyElf 2#8) 0 = 64 := by simp [phdrOff, ePhoff, elfU64, elfNat, tinyElf]
  have hClass : tinyElf 2#8 4 = elfclass64 := rfl
  unfold ReadsInside elfReads elf64Reads
  rw [if_pos hClass, hNum, show List.range 1 = [0] by decide, if_neg tinyElf_notRejects]
  unfold loadReads
  rw [tinyElf_phdr, if_pos (by decide), if_neg (by decide), hOff]
  simp [loadReads, tinyPhdr]

/-- The first five bytes of a 32-bit file. -/
def elf32Text : List (BitVec 8) := [0x7f#8, 0x45#8, 0x4c#8, 0x46#8, 1#8]

end Kernel

end Rayos
