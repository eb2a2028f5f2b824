import Rayos.Fs.OpenClose
import Rayos.Fs.VfsSpec

/-!
# Calls on files that return

With memory for every request and the heap unlocked, `sys_stat`, `sys_open` of a file that the library serves,
`sys_read` of it and `sys_close` of it return, and the heap is unlocked again.

* `OpenFile` — what the last two need of the state; `Plenty.sysOpen_ok` says that the first one gives it.
-/

namespace Rayos

open Program CString Vfs Ledger

namespace OpenVfs

variable {φ δ : Type} {lib : FatLib φ δ} {ops : FileOps δ} {kind : Nat → FsKind} {s t t' : OpenVfs δ}

/-- The heap is unlocked and has memory for every request. -/
structure Plenty (s : OpenVfs δ) : Prop where
  unlocked : s.heap.mmSpinlock = false
  memory : ∀ i, s.heap.memory i = true

theorem Plenty.took (h : s.Plenty) : s.took.Plenty := ⟨h.unlocked, h.memory⟩

theorem Plenty.gave (h : s.Plenty) (block : Nat) : (s.gave block).Plenty := ⟨h.unlocked, h.memory⟩

theorem Plenty.looked (h : s.Plenty) : s.looked.Plenty := h.took.gave _

theorem Plenty.setFs (h : s.Plenty) (disk : δ) : (s.setFs disk).Plenty := ⟨h.unlocked, h.memory⟩

theorem Plenty.setDentries (h : s.Plenty) (dentries : List Dentry) : (s.setDentries dentries).Plenty :=
  ⟨h.unlocked, h.memory⟩

theorem Plenty.listed (h : s.Plenty) (filp dentry : Nat) : (s.listed filp dentry).Plenty :=
  ⟨h.unlocked, h.memory⟩

theorem Plenty.kzalloc_ok (h : s.Plenty) {size : Nat} (hSize : size ≠ 0) :
    kzalloc size s = .ok (some s.blocks.next) s.took := by
  have hMemory : size ≠ 0 ∧ s.heap.memory s.heap.kzallocs = true := ⟨hSize, h.memory _⟩
  have hFree : s.heap.mmSpinlock ≠ true := by
    rw [h.unlocked]
    exact Bool.false_ne_true
  simp only [kzalloc, KernelHeap.kzalloc, if_neg hFree, if_pos hMemory]
  rfl

theorem Plenty.kfree_ok (h : s.Plenty) {block : Nat} (hLive : block ∈ s.blocks.live) :
    kfree block s = .ok () (s.gave block) := by
  simp only [kfree, KernelHeap.kfree, h.unlocked, Bool.false_eq_true, if_false, if_pos hLive]
  rfl

theorem Plenty.mountGetByName_ok (h : s.Plenty) {path : Str} (hFits : PathFits path) :
    mountGetByName path s = .ok (Vfs.mountGet s.mountList path) s.looked := by
  have hStore : storeBlock (some s.blocks.next) path.length (path.length + 1) s.took =
      .ok s.blocks.next s.took := by
    simp only [storeBlock, if_pos hFits.2]
    rfl
  unfold mountGetByName
  rw [bind_ok (h.kzalloc_ok hFits.1), bind_ok hStore, bind_ok (get_apply _),
    bind_ok (h.took.kfree_ok List.mem_cons_self)]
  rfl

theorem Plenty.sysStat_ok (h : s.Plenty) {mount : Mount} {path : Str} (hFits : PathFits path)
    (hMount : Vfs.mountGet s.mountList path = some mount) :
    sysStat lib ops kind path s = .ok (fsStat lib ops kind mount path s.fs).1
      (s.looked.setFs (fsStat lib ops kind mount path s.fs).2) := by
  unfold sysStat vfsStat
  rw [bind_ok (h.mountGetByName_ok hFits), hMount]
  rfl

/-- A new dentry for a file that the library serves. -/
theorem Plenty.vfsOpenNew_ok (h : s.Plenty) {mount : Mount} {path : Str} {pathbuff : Nat} {mode : BitVec 32}
    (hKind : kind mount.mntFstype = .fatfs) (hServed : Served lib path mode s.fs) :
    vfsOpenNew lib kind mount path pathbuff mode s = .ok (0, s.blocks.next)
      ((s.took.took.took.setFs (servedFs lib path mode s.fs)).setDentries
        (s.dentryList ++ [⟨s.blocks.next, path, mount, 1, s.blocks.next + 1⟩])) := by
  obtain ⟨hStat, hOpen⟩ := hServed
  have hLookup : fatfsLookup lib path s.took = .ok (some (s.blocks.next + 1))
      (s.took.setFs (lib.fStat path s.fs).2).took := by
    have hSet : fatfsLookup lib path s.took =
        (if (lib.fStat path s.fs).1.1 = .frOk then kzalloc 32 else pure none : OpenM δ (Option Nat))
          (s.took.setFs (lib.fStat path s.fs).2) := rfl
    rw [hSet, if_pos hStat]
    exact (h.took.setFs _).kzalloc_ok (by decide)
  have hAlloc := (h.took.setFs (lib.fStat path s.fs).2).took.kzalloc_ok (show 568 ≠ 0 by decide)
  have hFatfs : fatfsOpen lib path mode (s.took.setFs (lib.fStat path s.fs).2).took =
      .ok 0 ((s.took.setFs (lib.fStat path s.fs).2).took.took.setFs (servedFs lib path mode s.fs)) := by
    unfold fatfsOpen
    rw [bind_ok hAlloc]
    simp only
    show (if (lib.fOpen path (mode.setWidth 8) (lib.fStat path s.fs).2).1.1 ≠ .frOk then
      kfree (s.blocks.next + 2) >>= fun _ => pure (-1) else pure 0 : OpenM δ Int) _ = _
    rw [if_neg (not_not.mpr hOpen)]
    rfl
  unfold vfsOpenNew
  rw [bind_ok (h.kzalloc_ok (by decide))]
  simp only [hKind]
  rw [bind_ok hLookup]
  simp only
  rw [bind_ok hFatfs]
  rfl

/-- The end of `sys_open`: the file gets the next descriptor and is put on the list. -/
theorem listed_ok {fdCount : BitVec 32} (hCount : s.fdCount = fdCount) (filp dentry : Nat) :
    (if (0 : Int) < 0 then do
        kfree filp
        pure 0
      else do
        let s ← get
        let fd := s.fdCount
        set { s with
          fdCount := s.fdCount + 1#32
          fileList := s.fileList ++ [(⟨filp, fd, dentry⟩ : File)] }
        pure fd.toInt : OpenM δ Int) s = .ok fdCount.toInt (s.listed filp dentry) := by
  rw [if_neg (lt_irrefl 0), bind_ok (get_apply s), ← hCount]
  rfl

/-- `sys_open` of a path that has a dentry, or that the library serves. -/
theorem Plenty.sysOpen_run (h : s.Plenty) {mount : Mount} {path : Str} {mode : BitVec 32} (hFits : PathFits path)
    (hMount : Vfs.mountGet s.mountList path = some mount) (hKind : kind mount.mntFstype = .fatfs)
    (hAccepts : Accepts lib kind mount path mode s) :
    (∃ d, s.dentryList.find? (fun d => d.pathname == path) = some d ∧
        sysOpen lib kind path mode s =
          .ok s.fdCount.toInt ((s.took.shared d).listed s.blocks.next d.addr)) ∨
      (s.dentryList.find? (fun d => d.pathname == path) = none ∧
        sysOpen lib kind path mode s = .ok s.fdCount.toInt
          ((s.took.entered (servedFs lib path mode s.fs) path mount).listed s.blocks.next
            (s.blocks.next + 3))) := by
  have hLook := h.took.mountGetByName_ok hFits
  have hMount' : Vfs.mountGet s.took.mountList path = some mount := hMount
  have hCopy := h.took.looked.kzalloc_ok (Nat.succ_ne_zero path.length)
  cases hFind : s.dentryList.find? fun d => d.pathname == path with
  | some d =>
      refine Or.inl ⟨d, rfl, ?_⟩
      have hSame : s.took.looked.took.dentryList.find? (fun d => d.pathname == path) = some d := hFind
      have hOpen : vfsOpen lib kind s.blocks.next path mode s.took = .ok (0, d.addr) (s.took.shared d) := by
        unfold vfsOpen
        rw [bind_ok hLook, hMount']
        simp only
        rw [bind_ok hCopy]
        simp only
        rw [bind_ok (get_apply _), hSame]
        simp only
        rw [bind_ok (h.took.looked.took.kfree_ok List.mem_cons_self)]
        rfl
      unfold sysOpen
      rw [bind_ok (h.kzalloc_ok (by decide))]
      simp only
      rw [bind_ok hOpen]
      exact listed_ok (shared_fdCount _ d) _ _
  | none =>
      refine Or.inr ⟨rfl, ?_⟩
      have hSame : s.took.looked.took.dentryList.find? (fun d => d.pathname == path) = none := hFind
      have hServed : Served lib path mode s.took.looked.took.fs :=
        (hAccepts.resolve_left (not_not.mpr hFind)).2
      have hOpen : vfsOpen lib kind s.blocks.next path mode s.took =
          .ok (0, s.blocks.next + 3) (s.took.entered (servedFs lib path mode s.fs) path mount) := by
        unfold vfsOpen
        rw [bind_ok hLook, hMount']
        simp only
        rw [bind_ok hCopy]
        simp only
        rw [bind_ok (get_apply _), hSame]
        exact h.took.looked.took.vfsOpenNew_ok hKind hServed
      unfold sysOpen
      rw [bind_ok (h.kzalloc_ok (by decide))]
      simp only
      rw [bind_ok hOpen]
      exact listed_ok (entered_fdCount _ _ path mount) _ _

theorem dentryAt_ok {addr : Nat} {d : Dentry} (hFind : s.dentryList.find? (fun d => d.addr == addr) = some d) :
    dentryAt addr s = .ok d s := by
  unfold dentryAt
  rw [bind_ok (get_apply s), hFind]
  rfl

/-- The descriptor `fd` is that of the file `filp` on a FAT volume, and what `sys_close` gives back is in use. -/
structure OpenFile (kind : Nat → FsKind) (fd : BitVec 32) (filp : File) (d : Dentry) (s : OpenVfs δ) : Prop where
  file : fileOf s.fileList fd = some filp
  dentry : s.dentryList.find? (fun d => d.addr == filp.dentry) = some d
  fits : PathFits d.pathname
  mounted : ∃ mount, Vfs.mountGet s.mountList d.pathname = some mount ∧ kind mount.mntFstype = .fatfs
  live : filp.addr ∈ s.blocks.live
  left : ∃ left, (refDropped s.dentryList d.addr).find? (fun d => d.addr == filp.dentry) = some left ∧
    (left.dRef = 0 → [d.privateData + 1, d.privateData, d.addr - 1, d.addr, filp.addr].Nodup ∧
      ∀ b ∈ [d.privateData + 1, d.privateData, d.addr - 1, d.addr], b ∈ s.blocks.live)

/-- More blocks may come into use. -/
theorem OpenFile.mono {fd : BitVec 32} {filp : File} {d : Dentry} (h : OpenFile kind fd filp d s)
    (hFiles : t.fileList = s.fileList) (hDentries : t.dentryList = s.dentryList)
    (hMounts : t.mountList = s.mountList) (hLive : ∀ b ∈ s.blocks.live, b ∈ t.blocks.live) :
    OpenFile kind fd filp d t := by
  obtain ⟨left, hLeft, hBlocks⟩ := h.left
  refine ⟨by rw [hFiles]; exact h.file, by rw [hDentries]; exact h.dentry, h.fits,
    by rw [hMounts]; exact h.mounted, hLive _ h.live, left, by rw [hDentries]; exact hLeft, fun hRef => ?_⟩
  obtain ⟨hNodup, hIn⟩ := hBlocks hRef
  exact ⟨hNodup, fun b hb => hLive b (hIn b hb)⟩

/-- A file that `sys_open` has opened by its dentry. -/
theorem shared_openFile {d : Dentry} {mount : Mount} {path : Str} (hSound : s.Sound) (hFits : PathFits path)
    (hMount : Vfs.mountGet s.mountList path = some mount) (hKind : kind mount.mntFstype = .fatfs)
    (hFresh : fileOf s.fileList s.fdCount = none)
    (hFind : s.dentryList.find? (fun d => d.pathname == path) = some d) :
    OpenFile kind s.fdCount ⟨s.blocks.next, s.fdCount, d.addr⟩ { d with dRef := d.dRef + 1 }
      ((s.took.shared d).listed s.blocks.next d.addr) := by
  have hMem := List.mem_of_find?_eq_some hFind
  have hPath : d.pathname = path := by simpa using List.find?_some hFind
  obtain ⟨hTaken, hDropped, hLeft⟩ := shared_dentry hSound hMem
  have hDentries : ((s.took.shared d).listed s.blocks.next d.addr).dentryList =
      refTaken s.dentryList d.addr := by simp [shared]
  have hMounts : ((s.took.shared d).listed s.blocks.next d.addr).mountList = s.mountList := by
    simp [shared, looked]
  refine ⟨?_, by rw [hDentries]; exact hTaken, by rw [← hPath] at hFits; exact hFits, ⟨mount, ?_, hKind⟩, ?_, d,
    ?_, fun hRef => absurd hRef (hSound.referenced d hMem).ne'⟩
  · have hFiles : ((s.took.shared d).listed s.blocks.next d.addr).fileList =
        s.fileList ++ [⟨s.blocks.next, s.fdCount, d.addr⟩] := by simp [shared, looked]
    rw [hFiles]
    exact fileOf_append hFresh
  · rw [hMounts]
    show Vfs.mountGet s.mountList d.pathname = some mount
    rw [hPath, hMount]
  · simp [shared, looked, Ledger.take, Ledger.giveBack]
  · rw [hDentries]
    show (refDropped (refTaken s.dentryList d.addr) d.addr).find? _ = _
    rw [hDropped]
    exact hLeft

/-- A file that `sys_open` has made a dentry for. -/
theorem entered_openFile (disk : δ) {mount : Mount} {path : Str} (hSound : s.Sound) (hFits : PathFits path)
    (hMount : Vfs.mountGet s.mountList path = some mount) (hKind : kind mount.mntFstype = .fatfs)
    (hFresh : fileOf s.fileList s.fdCount = none) :
    OpenFile kind s.fdCount ⟨s.blocks.next, s.fdCount, s.blocks.next + 3⟩
      ⟨s.blocks.next + 3, path, mount, 1, s.blocks.next + 4⟩
      ((s.took.entered disk path mount).listed s.blocks.next (s.blocks.next + 3)) := by
  obtain ⟨hFind, hDropped, hLeft⟩ :=
    entered_dentry hSound (Nat.le_add_right s.blocks.next 3) path mount (s.blocks.next + 4)
  have hDentries : ((s.took.entered disk path mount).listed s.blocks.next (s.blocks.next + 3)).dentryList =
      s.dentryList ++ [⟨s.blocks.next + 3, path, mount, 1, s.blocks.next + 4⟩] := by simp [entered]
  have hMounts : ((s.took.entered disk path mount).listed s.blocks.next (s.blocks.next + 3)).mountList =
      s.mountList := by simp [entered, looked]
  have hLive : ((s.took.entered disk path mount).listed s.blocks.next (s.blocks.next + 3)).blocks.live =
      [s.blocks.next + 5, s.blocks.next + 4, s.blocks.next + 3, s.blocks.next + 2, s.blocks.next] ++
        s.blocks.live := by
    simp [entered, looked, Ledger.take, Ledger.giveBack]
  refine ⟨?_, by rw [hDentries]; exact hFind, hFits, ⟨mount, by rw [hMounts]; exact hMount, hKind⟩, ?_,
    ⟨s.blocks.next + 3, path, mount, 0, s.blocks.next + 4⟩, ?_, fun _ => ⟨?_, ?_⟩⟩
  · have hFiles : ((s.took.entered disk path mount).listed s.blocks.next (s.blocks.next + 3)).fileList =
        s.fileList ++ [⟨s.blocks.next, s.fdCount, s.blocks.next + 3⟩] := by simp [entered, looked]
    rw [hFiles]
    exact fileOf_append hFresh
  · rw [hLive]
    simp
  · rw [hDentries]
    show (refDropped _ (s.blocks.next + 3)).find? _ = _
    rw [hDropped]
    exact hLeft
  · show [s.blocks.next + 5, s.blocks.next + 4, s.blocks.next + 2, s.blocks.next + 3, s.blocks.next].Nodup
    simp
  · rw [hLive]
    show ∀ b ∈ [s.blocks.next + 5, s.blocks.next + 4, s.blocks.next + 2, s.blocks.next + 3], _
    simp

/-- `sys_open` of a path that has a dentry, or that the library serves: the file is open. -/
theorem Plenty.sysOpen_ok (h : s.Plenty) (hSound : s.Sound) {mount : Mount} {path : Str} {mode : BitVec 32}
    (hFits : PathFits path) (hMount : Vfs.mountGet s.mountList path = some mount)
    (hKind : kind mount.mntFstype = .fatfs) (hFresh : fileOf s.fileList s.fdCount = none)
    (hAccepts : Accepts lib kind mount path mode s) :
    ∃ filp d t, sysOpen lib kind path mode s = .ok s.fdCount.toInt t ∧ t.Plenty ∧ d ∈ t.dentryList ∧
      d.pathname = path ∧ OpenFile kind s.fdCount filp d t := by
  rcases h.sysOpen_run hFits hMount hKind hAccepts with ⟨d, hFind, hRun⟩ | ⟨-, hRun⟩
  · have hFile := shared_openFile hSound hFits hMount hKind hFresh hFind
    exact ⟨_, _, _, hRun, ⟨h.unlocked, h.memory⟩, List.mem_of_find?_eq_some hFile.dentry,
      by simpa using List.find?_some hFind, hFile⟩
  · have hFile := entered_openFile (servedFs lib path mode s.fs) hSound hFits hMount hKind hFresh
    exact ⟨_, _, _, hRun, ⟨h.unlocked, h.memory⟩, List.mem_of_find?_eq_some hFile.dentry, rfl, hFile⟩

/-- `sys_read` of an open file. -/
theorem Plenty.sysRead_ok (h : s.Plenty) (ops : FileOps δ) {fd : BitVec 32} (size : Nat) {filp : File} {d : Dentry}
    (hFile : OpenFile kind fd filp d s) :
    ∃ n disk, sysRead ops kind fd size s =
      .ok (n, (ops.fRead d.privateData (uintOfSize size) s.fs).1.2) (s.looked.setFs disk) := by
  obtain ⟨mount, hMount, hKind⟩ := hFile.mounted
  refine ⟨intOfSsize (FatDisk.accessReturn (ops.fRead d.privateData (uintOfSize size) s.fs).1.1
    (ops.fRead d.privateData (uintOfSize size) s.fs).1.2.length),
    (ops.fRead d.privateData (uintOfSize size) s.fs).2, ?_⟩
  unfold sysRead
  rw [bind_ok (get_apply s), hFile.file]
  simp only
  unfold vfsRead
  rw [bind_ok (dentryAt_ok hFile.dentry), bind_ok (h.mountGetByName_ok hFile.fits), hMount]
  simp only
  rw [bind_ok (get_apply _), hKind]
  rfl

/-- A block stays in use when another one is given back. -/
theorem mem_gave {b c : Nat} (hLive : b ∈ s.blocks.live) (hNe : b ≠ c) : b ∈ (s.gave c).blocks.live :=
  (List.mem_erase_of_ne hNe).mpr hLive

/-- The end of `vfs_close`: the four blocks of the dentry are given back. -/
theorem Plenty.vfsCloseLast_ok (h : s.Plenty) {mount : Mount} {d : Dentry} {filp : Nat}
    (hKind : kind mount.mntFstype = .fatfs)
    (hNodup : [d.privateData + 1, d.privateData, d.addr - 1, d.addr, filp].Nodup)
    (hLive : ∀ b ∈ [d.privateData + 1, d.privateData, d.addr - 1, d.addr, filp], b ∈ s.blocks.live) :
    ∃ t, vfsCloseLast ops kind mount d s = .ok 0 t ∧ t.Plenty ∧ filp ∈ t.blocks.live := by
  simp only [List.nodup_cons, List.mem_cons, List.not_mem_nil, or_false, not_or] at hNodup
  obtain ⟨⟨hN1, hN2, hN3, hN4⟩, ⟨hN5, hN6, hN7⟩, ⟨hN8, hN9⟩, hN10, -⟩ := hNodup
  simp only [List.forall_mem_cons, List.not_mem_nil, false_imp_iff, implies_true, and_true] at hLive
  obtain ⟨hL1, hL2, hL3, hL4, hL5⟩ := hLive
  let u1 := s.setFs (ops.fClose d.privateData s.fs)
  let u2 := u1.gave (d.privateData + 1)
  let u3 := u2.gave d.privateData
  let u4 := u3.setDentries (u3.dentryList.eraseP fun pos => pos.addr == d.addr)
  let u5 := u4.gave (d.addr - 1)
  have hData : d.privateData ∈ u2.blocks.live := mem_gave (s := u1) hL2 (Ne.symm hN1)
  have hPath : d.addr - 1 ∈ u4.blocks.live :=
    mem_gave (s := u2) (mem_gave (s := u1) hL3 (Ne.symm hN2)) (Ne.symm hN5)
  have hAddr : d.addr ∈ u5.blocks.live :=
    mem_gave (s := u4) (mem_gave (s := u2) (mem_gave (s := u1) hL4 (Ne.symm hN3)) (Ne.symm hN6)) (Ne.symm hN8)
  have hFilp : filp ∈ u5.blocks.live :=
    mem_gave (s := u4) (mem_gave (s := u2) (mem_gave (s := u1) hL5 (Ne.symm hN4)) (Ne.symm hN7)) (Ne.symm hN9)
  have h1 := h.setFs (ops.fClose d.privateData s.fs)
  have h3 := (h1.gave (d.privateData + 1)).gave d.privateData
  have h4 := h3.setDentries (u3.dentryList.eraseP fun pos => pos.addr == d.addr)
  have hRelease : fatfsRelease ops d.privateData s = .ok () u3 := by
    have hClose : (modify fun s => { s with fs := ops.fClose d.privateData s.fs } : OpenM δ Unit) s = .ok () u1 := rfl
    unfold fatfsRelease
    rw [bind_ok hClose, bind_ok (h1.kfree_ok hL1)]
    exact (h1.gave _).kfree_ok hData
  have hErase : (modify fun s => { s with dentryList := s.dentryList.eraseP fun pos => pos.addr == d.addr } :
      OpenM δ Unit) u3 = .ok () u4 := rfl
  refine ⟨u5.gave d.addr, ?_, (h4.gave _).gave _, mem_gave hFilp (Ne.symm hN10)⟩
  unfold vfsCloseLast
  simp only [hKind]
  rw [bind_ok hRelease, bind_ok hErase, bind_ok (h4.kfree_ok hPath), bind_ok ((h4.gave _).kfree_ok hAddr)]
  rfl

/-- `sys_close` of an open file. -/
theorem Plenty.sysClose_ok (h : s.Plenty) (ops : FileOps δ) {fd : BitVec 32} {filp : File} {d : Dentry}
    (hFile : OpenFile kind fd filp d s) : ∃ s', sysClose ops kind fd s = .ok 0 s' ∧ s'.Plenty := by
  obtain ⟨mount, hMount, hKind⟩ := hFile.mounted
  obtain ⟨left, hLeft, hBlocks⟩ := hFile.left
  have hLookup := h.mountGetByName_ok hFile.fits
  have hPos : s.looked.dentryList.find? (fun pos => pos.pathname == d.pathname) ≠ none := by
    intro hNone
    have := List.find?_eq_none.mp hNone d (List.mem_of_find?_eq_some hFile.dentry)
    simp at this
  obtain ⟨pos, hPos⟩ := Option.ne_none_iff_exists'.mp hPos
  have hDropped : dropRef d.addr s.looked = .ok () (s.looked.setDentries (refDropped s.dentryList d.addr)) := rfl
  have hLeftRun := dentryAt_ok (s := s.looked.setDentries (refDropped s.dentryList d.addr)) hLeft
  have hPlenty := h.looked.setDentries (refDropped s.dentryList d.addr)
  have hLive : ∀ b ∈ s.blocks.live,
      b ∈ (s.looked.setDentries (refDropped s.dentryList d.addr)).blocks.live := by
    intro b hb
    rw [setDentries_blocks, looked_live]
    exact hb
  -- `vfs_close`
  obtain ⟨t, hClose, hT, hTFilp⟩ : ∃ t, vfsClose ops kind filp s = .ok 0 t ∧ t.Plenty ∧
      filp.addr ∈ t.blocks.live := by
    unfold vfsClose
    rw [bind_ok (dentryAt_ok hFile.dentry), bind_ok hLookup, hMount]
    simp only
    rw [bind_ok (get_apply _), hPos]
    simp only
    rw [bind_ok hDropped, bind_ok hLeftRun]
    by_cases hRef : left.dRef = 0
    · rw [if_pos hRef]
      obtain ⟨hNodup, hIn⟩ := hBlocks hRef
      refine hPlenty.vfsCloseLast_ok hKind hNodup fun b hb => hLive b ?_
      have hb' : b ∈ [d.privateData + 1, d.privateData, d.addr - 1, d.addr] ∨ b = filp.addr := by
        simpa [or_assoc] using hb
      rcases hb' with hb' | rfl
      · exact hIn b hb'
      · exact hFile.live
    · rw [if_neg hRef]
      exact ⟨_, rfl, hPlenty, hLive _ hFile.live⟩
  unfold sysClose
  rw [bind_ok (get_apply s), hFile.file]
  simp only
  rw [bind_ok hClose, if_neg (lt_irrefl 0)]
  have hErase : (modify fun s => { s with fileList := s.fileList.eraseP fun f => f.addr == filp.addr } :
      OpenM δ Unit) t = .ok () { t with fileList := t.fileList.eraseP fun f => f.addr == filp.addr } := rfl
  have hErased : Plenty { t with fileList := t.fileList.eraseP fun f => f.addr == filp.addr } :=
    ⟨hT.unlocked, hT.memory⟩
  refine ⟨_, ?_, hErased.gave filp.addr⟩
  rw [bind_ok hErase, bind_ok (hErased.kfree_ok hTFilp)]
  rfl

end OpenVfs

end Rayos
