import Rayos.Fs.OpenFailure

/-!
# The blocks of a close (`syscalls.c`, `vfs.c`, `fatfs.c`)

`sys_stat`, `sys_read` and `sys_close` on the same state as `sys_open`, with the heap blocks that they take and
give back.

Blocks are numbered in the order in which they are given out, and a call of `sys_open` that makes a dentry asks
for the copy of the path, the `struct dentry`, the `struct fatfs_dentry` and the file object one after the other:
the copy of the path is the block before the dentry, and the file object the one after the private data.

* `sysOpen_cases` — a `sys_open` that returns has failed and left a block, or opened the file.
* `sysClose_cases` — what `sys_close` does to the lists, and how many blocks it gives back.
* `shared_close`, `entered_close` — closing the file that has just been opened undoes the open.
* `sound_of_run` — the lists are sound in every state that calls reach.
-/

namespace Rayos

open Program CString Vfs Ledger

/-- The operations on open files: those of the FAT library, by the private data that own the file object, and
those of `tmpfs.c`. -/
structure FileOps (δ : Type) where
  fRead : Nat → Nat → δ → (FResult × List (BitVec 8)) × δ
  fClose : Nat → δ → δ
  tmpfsStat : Str → δ → (Int × Option Nat) × δ
  tmpfsRead : Nat → Nat → δ → (Int × List (BitVec 8)) × δ

namespace OpenVfs

variable {φ δ : Type} (lib : FatLib φ δ) (ops : FileOps δ) (kind : Nat → FsKind)

/-! ## The code -/

/-- The result of the `stat` of a file system, the `st_size` that it has stored, and its state. -/
def fsStat (mount : Mount) (path : Str) (disk : δ) : (Int × Option Nat) × δ :=
  match kind mount.mntFstype with
  | .tmpfs => ops.tmpfsStat path disk
  | .fatfs =>
      let ((res, fno), disk) := lib.fStat path disk
      if res = .frOk then
        if fno.fattrib &&& amDir ≠ 0#8 then ((res.code, none), disk) else ((res.code, some fno.fsize), disk)
      else ((res.code, none), disk)

/-- `vfs_stat`. -/
def vfsStat (path : Str) : OpenM δ (Int × Option Nat) := do
  match ← mountGetByName path with
  | none => pure (-1, none)
  | some mount => do
      let s ← get
      let (r, disk) := fsStat lib ops kind mount path s.fs
      set { s with fs := disk }
      pure r

/-- `sys_stat`. -/
def sysStat (path : Str) : OpenM δ (Int × Option Nat) := vfsStat lib ops kind path

/-- The dentry at an address. -/
def dentryAt (addr : Nat) : OpenM δ Dentry := do
  let s ← get
  match s.dentryList.find? fun d => d.addr == addr with
  | some d => pure d
  | none => throw .useAfterFree

/-- `vfs_read`: the result and the bytes stored. -/
def vfsRead (filp : File) (len : Nat) : OpenM δ (Int × List (BitVec 8)) := do
  let dentry ← dentryAt filp.dentry
  match ← mountGetByName dentry.pathname with
  | none => pure (-enodev, [])
  | some mount => do
      let s ← get
      match kind mount.mntFstype with
      | .tmpfs => do
          let (r, disk) := ops.tmpfsRead dentry.privateData len s.fs
          set { s with fs := disk }
          pure (intOfSsize r.1, r.2)
      | .fatfs => do
          let ((res, bytes), disk) := ops.fRead dentry.privateData (uintOfSize len) s.fs
          set { s with fs := disk }
          pure (intOfSsize (FatDisk.accessReturn res bytes.length), bytes)

/-- `sys_read`. -/
def sysRead (fd : BitVec 32) (size : Nat) : OpenM δ (Int × List (BitVec 8)) := do
  let s ← get
  match fileOf s.fileList fd with
  | none => pure (-enoent, [])
  | some filp => vfsRead ops kind filp size

/-- `atomic_fetch_sub(&dentry->d_ref, 1)`. -/
def dropRef (addr : Nat) : OpenM δ Unit := modify fun s =>
  { s with dentryList := s.dentryList.map fun d =>
      if d.addr = addr then { d with dRef := d.dRef - 1 } else d }

/-- `fatfs_release`. -/
def fatfsRelease (privateData : Nat) : OpenM δ Unit := do
  modify fun s => { s with fs := ops.fClose privateData s.fs }
  kfree (privateData + 1)
  kfree privateData

/-- The end of `vfs_close` for a dentry without references. -/
def vfsCloseLast (mount : Mount) (dentry : Dentry) : OpenM δ Int := do
  match kind mount.mntFstype with
  | .tmpfs => pure ()
  | .fatfs => fatfsRelease ops dentry.privateData
  modify fun s => { s with dentryList := s.dentryList.eraseP fun d => d.addr == dentry.addr }
  kfree (dentry.addr - 1)
  kfree dentry.addr
  pure 0

/-- `vfs_close`. -/
def vfsClose (filp : File) : OpenM δ Int := do
  let dentry ← dentryAt filp.dentry
  match ← mountGetByName dentry.pathname with
  | none => pure (-enodev)
  | some mount => do
      let s ← get
      match s.dentryList.find? fun pos => pos.pathname == dentry.pathname with
      | none => pure (-estale)
      | some _ => do
          dropRef dentry.addr
          let left ← dentryAt filp.dentry
          if left.dRef = 0 then vfsCloseLast ops kind mount dentry else pure 0

/-- `sys_close`. -/
def sysClose (fd : BitVec 32) : OpenM δ Int := do
  let s ← get
  match fileOf s.fileList fd with
  | none => pure (-ebadf)
  | some filp => do
      let ret ← vfsClose ops kind filp
      if ret < 0 then pure ret
      else do
        modify fun s => { s with fileList := s.fileList.eraseP fun f => f.addr == filp.addr }
        kfree filp.addr
        pure 0

/-! ## What `sys_open` does -/

variable {s t t' : OpenVfs δ} {own gone : List Nat} {lib ops kind}

/-- The library finds and opens the path. -/
def Served (lib : FatLib φ δ) (path : Str) (mode : BitVec 32) (disk : δ) : Prop :=
  (lib.fStat path disk).1.1 = .frOk ∧
    (lib.fOpen path (mode.setWidth 8) (lib.fStat path disk).2).1.1 = .frOk

/-- The state of the library after it has found and opened the path. -/
def servedFs (lib : FatLib φ δ) (path : Str) (mode : BitVec 32) (disk : δ) : δ :=
  (lib.fOpen path (mode.setWidth 8) (lib.fStat path disk).2).2

/-- The new dentry is made exactly when the type has `lookup` and the library serves the path. -/
theorem vfsOpenNew_cases {mount : Mount} {path : Str} {pathbuff dentry : Nat} {mode : BitVec 32} {ret : Int}
    (hRun : vfsOpenNew lib kind mount path pathbuff mode t = .ok (ret, dentry) t') :
    (ret < 0 ∧ (t'.heap.mmSpinlock = true ∨
        ¬ (kind mount.mntFstype = .fatfs ∧ Served lib path mode t.fs))) ∨
      (ret = 0 ∧ kind mount.mntFstype = .fatfs ∧ Served lib path mode t.fs ∧ dentry = t.blocks.next ∧
        t' = { t.took.took.took.setFs (servedFs lib path mode t.fs) with
          dentryList := t.dentryList ++ [⟨t.blocks.next, path, mount, 1, t.blocks.next + 1⟩] }) := by
  simp only [vfsOpenNew, bind_eq_ok] at hRun
  obtain ⟨ptr, t1, hAlloc, hRun⟩ := hRun
  obtain ⟨-, ⟨-, -, rfl, rfl⟩ | ⟨-, rfl, rfl⟩⟩ := kzalloc_cases hAlloc
  · cases hKind : kind mount.mntFstype with
    | tmpfs =>
        simp only [hKind, bind_eq_ok] at hRun
        obtain ⟨_, t2, hFree, hRun⟩ := hRun
        cases hRun
        exact Or.inl ⟨by decide, Or.inr fun h => FsKind.noConfusion h.1⟩
    | fatfs =>
        simp only [hKind, bind_eq_ok] at hRun
        obtain ⟨found, t2, hLookup, hRun⟩ := hRun
        rcases fatfsLookup_cases hLookup with ⟨hStat, rfl, rfl⟩ | ⟨hStat, hData⟩
        · simp only [bind_eq_ok] at hRun
          obtain ⟨_, t3, hFree, hRun⟩ := hRun
          cases hRun
          exact Or.inl ⟨by decide, Or.inr fun h => hStat h.2.1⟩
        obtain ⟨-, ⟨-, -, rfl, rfl⟩ | ⟨-, rfl, rfl⟩⟩ := kzalloc_cases hData
        · simp only [bind_eq_ok] at hRun
          obtain ⟨r, t3, hOpen, hRun⟩ := hRun
          rcases fatfsOpen_cases hOpen with ⟨rfl, hLock⟩ | ⟨hNot, rfl, rfl⟩ | ⟨hOk, rfl, rfl⟩
          · -- the lock is held, and the first `kfree` does not return
            rw [if_pos (by decide)] at hRun
            simp only [bind_eq_ok] at hRun
            obtain ⟨_, t4, hFree, -⟩ := hRun
            rw [unlocked_of_free hFree] at hLock
            cases hLock
          · rw [if_pos (by decide)] at hRun
            simp only [bind_eq_ok] at hRun
            obtain ⟨_, t4, -, _, t5, -, hRun⟩ := hRun
            cases hRun
            exact Or.inl ⟨by decide, Or.inr fun h => hNot h.2.2⟩
          · rw [if_neg (by decide)] at hRun
            simp only [bind_eq_ok] at hRun
            obtain ⟨_, t4, hModify, hRun⟩ := hRun
            cases hModify
            cases hRun
            exact Or.inr ⟨rfl, rfl, ⟨hStat, hOk⟩, rfl, rfl⟩
        · simp only [bind_eq_ok] at hRun
          obtain ⟨_, t3, hFree, -⟩ := hRun
          cases unlocked_of_free hFree
  · cases hRun
    exact Or.inl ⟨by decide, Or.inl rfl⟩

/-- The path has a dentry, or it can get one. -/
def Accepts (lib : FatLib φ δ) (kind : Nat → FsKind) (mount : Mount) (path : Str) (mode : BitVec 32)
    (s : OpenVfs δ) : Prop :=
  s.dentryList.find? (fun d => d.pathname == path) ≠ none ∨
    (kind mount.mntFstype = .fatfs ∧ Served lib path mode s.fs)

/-- The list with the reference of a dentry taken. -/
def refTaken (dentries : List Dentry) (addr : Nat) : List Dentry :=
  dentries.map fun d => if d.addr = addr then { d with dRef := d.dRef + 1 } else d

/-- The state with the list of dentries `dentries`. -/
def setDentries (s : OpenVfs δ) (dentries : List Dentry) : OpenVfs δ := { s with dentryList := dentries }

/-- The state after `vfs_open` of a path with a dentry: the copy of the path has been given back. -/
def shared (s : OpenVfs δ) (d : Dentry) : OpenVfs δ :=
  (s.looked.took.gave (s.blocks.next + 1)).setDentries (refTaken s.dentryList d.addr)

/-- The state after `vfs_open` of a path that gets a dentry. -/
def entered (s : OpenVfs δ) (disk : δ) (path : Str) (mount : Mount) : OpenVfs δ :=
  (s.looked.took.took.took.took.setFs disk).setDentries
    (s.dentryList ++ [⟨s.blocks.next + 2, path, mount, 1, s.blocks.next + 3⟩])

/-- The state after `sys_open` has put the file on the list. -/
def listed (s : OpenVfs δ) (filp dentry : Nat) : OpenVfs δ :=
  { s with fdCount := s.fdCount + 1#32, fileList := s.fileList ++ [⟨filp, s.fdCount, dentry⟩] }

section Fields

variable (s : OpenVfs δ) (b : Nat) (disk : δ) (dentries : List Dentry)

@[simp] theorem took_next : s.took.blocks.next = s.blocks.next + 1 := rfl
@[simp] theorem took_fdCount : s.took.fdCount = s.fdCount := rfl
@[simp] theorem took_mountList : s.took.mountList = s.mountList := rfl
@[simp] theorem took_dentryList : s.took.dentryList = s.dentryList := rfl
@[simp] theorem took_fileList : s.took.fileList = s.fileList := rfl
@[simp] theorem took_blocks : s.took.blocks = s.blocks.take := rfl

@[simp] theorem gave_fdCount : (s.gave b).fdCount = s.fdCount := rfl
@[simp] theorem gave_mountList : (s.gave b).mountList = s.mountList := rfl
@[simp] theorem gave_dentryList : (s.gave b).dentryList = s.dentryList := rfl
@[simp] theorem gave_fileList : (s.gave b).fileList = s.fileList := rfl
@[simp] theorem gave_blocks : (s.gave b).blocks = s.blocks.giveBack b := rfl

@[simp] theorem setFs_fdCount : (s.setFs disk).fdCount = s.fdCount := rfl
@[simp] theorem setFs_mountList : (s.setFs disk).mountList = s.mountList := rfl
@[simp] theorem setFs_dentryList : (s.setFs disk).dentryList = s.dentryList := rfl
@[simp] theorem setFs_fileList : (s.setFs disk).fileList = s.fileList := rfl
@[simp] theorem setFs_blocks : (s.setFs disk).blocks = s.blocks := rfl

@[simp] theorem setDentries_fdCount : (s.setDentries dentries).fdCount = s.fdCount := rfl
@[simp] theorem setDentries_mountList : (s.setDentries dentries).mountList = s.mountList := rfl
@[simp] theorem setDentries_dentryList : (s.setDentries dentries).dentryList = dentries := rfl
@[simp] theorem setDentries_fileList : (s.setDentries dentries).fileList = s.fileList := rfl
@[simp] theorem setDentries_blocks : (s.setDentries dentries).blocks = s.blocks := rfl

@[simp] theorem listed_mountList (dentry : Nat) : (s.listed b dentry).mountList = s.mountList := rfl
@[simp] theorem listed_dentryList (dentry : Nat) : (s.listed b dentry).dentryList = s.dentryList := rfl
@[simp] theorem listed_fileList (dentry : Nat) :
    (s.listed b dentry).fileList = s.fileList ++ [⟨b, s.fdCount, dentry⟩] := rfl
@[simp] theorem listed_blocks (dentry : Nat) : (s.listed b dentry).blocks = s.blocks := rfl

end Fields

@[simp] theorem shared_fdCount (s : OpenVfs δ) (d : Dentry) : (s.shared d).fdCount = s.fdCount := by
  simp [shared, looked]

@[simp] theorem entered_fdCount (s : OpenVfs δ) (disk : δ) (path : Str) (mount : Mount) :
    (s.entered disk path mount).fdCount = s.fdCount := by
  simp [entered, looked]

theorem vfsOpen_cases {mount : Mount} {path : Str} {filp dentry : Nat} {mode : BitVec 32} {ret : Int}
    (hMount : Vfs.mountGet t.mountList path = some mount)
    (hRun : vfsOpen lib kind filp path mode t = .ok (ret, dentry) t') :
    (ret < 0 ∧ (t'.heap.mmSpinlock = true ∨ ¬ Accepts lib kind mount path mode t)) ∨
      (ret = 0 ∧ Accepts lib kind mount path mode t ∧
        ((∃ d, t.dentryList.find? (fun d => d.pathname == path) = some d ∧ dentry = d.addr ∧ t' = t.shared d) ∨
          (t.dentryList.find? (fun d => d.pathname == path) = none ∧ kind mount.mntFstype = .fatfs ∧
            dentry = t.blocks.next + 2 ∧ t' = t.entered (servedFs lib path mode t.fs) path mount))) := by
  simp only [vfsOpen, bind_eq_ok] at hRun
  obtain ⟨r, t1, hGet, hRun⟩ := hRun
  obtain ⟨rfl, rfl⟩ := mountGetByName_cases hGet
  simp only [hMount, bind_eq_ok] at hRun
  obtain ⟨ptr, t2, hAlloc, hRun⟩ := hRun
  obtain ⟨-, ⟨-, -, rfl, rfl⟩ | ⟨-, rfl, rfl⟩⟩ := kzalloc_cases hAlloc
  · simp only [bind_eq_ok] at hRun
    obtain ⟨_, t3, hState, hRun⟩ := hRun
    cases hState
    have hSame : t.looked.took.dentryList = t.dentryList := rfl
    cases hFind : t.dentryList.find? fun d => d.pathname == path with
    | some d =>
        simp only [hSame, hFind, bind_eq_ok] at hRun
        obtain ⟨_, t4, hFree, _, t5, hRef, hRun⟩ := hRun
        obtain rfl := (kfree_cases hFree).2.2.2 List.mem_cons_self
        cases hRef
        cases hRun
        exact Or.inr ⟨rfl, Or.inl (by rw [hFind]; exact Option.some_ne_none d), Or.inl ⟨d, rfl, rfl, rfl⟩⟩
    | none =>
        simp only [hSame, hFind] at hRun
        rcases vfsOpenNew_cases hRun with ⟨hErr, hFailed⟩ | ⟨rfl, hKind, hServed, rfl, rfl⟩
        · exact Or.inl ⟨hErr, hFailed.imp_right fun hNot h => hNot (h.resolve_left (not_not.mpr hFind))⟩
        · exact Or.inr ⟨rfl, Or.inr ⟨hKind, hServed⟩, Or.inr ⟨rfl, hKind, rfl, rfl⟩⟩
  · simp only [bind_eq_ok] at hRun
    obtain ⟨_, t3, hFree, -⟩ := hRun
    cases unlocked_of_free hFree

/-- The ways out of `sys_open` on a path with a mount. -/
inductive OpenCase (lib : FatLib φ δ) (kind : Nat → FsKind) (mount : Mount) (path : Str) (mode : BitVec 32)
    (s t : OpenVfs δ) (r : Int) : Prop where
  /-- There was no memory for the `struct file`. -/
  | locked (hErr : r < 0) (hLock : t.heap.mmSpinlock = true) (hOpening : Opening s t [] [])
  /-- A block is left. -/
  | failed (block : Nat) (gone : List Nat) (hErr : r < 0) (hNot : ¬ Accepts lib kind mount path mode s)
      (hOpening : Opening s t [block] gone)
  /-- The path had a dentry. -/
  | shared (d : Dentry) (hFd : r = s.fdCount.toInt)
      (hFind : s.dentryList.find? (fun d => d.pathname == path) = some d)
      (hState : t = (s.took.shared d).listed s.blocks.next d.addr)
  /-- The path has got one. -/
  | entered (hFd : r = s.fdCount.toInt) (hFind : s.dentryList.find? (fun d => d.pathname == path) = none)
      (hKind : kind mount.mntFstype = .fatfs) (hServed : Served lib path mode s.fs)
      (hState : t = (s.took.entered (servedFs lib path mode s.fs) path mount).listed s.blocks.next
        (s.blocks.next + 3))

theorem sysOpen_cases {mount : Mount} {path : Str} {mode : BitVec 32} {r : Int}
    (hMount : Vfs.mountGet s.mountList path = some mount) (hRun : sysOpen lib kind path mode s = .ok r t) :
    OpenCase lib kind mount path mode s t r := by
  simp only [sysOpen, bind_eq_ok] at hRun
  obtain ⟨ptr, t1, hAlloc, hRun⟩ := hRun
  obtain ⟨-, ⟨-, -, rfl, rfl⟩ | ⟨-, rfl, rfl⟩⟩ := kzalloc_cases hAlloc
  · simp only [bind_eq_ok] at hRun
    obtain ⟨⟨ret, dentry⟩, t2, hOpen, hRun⟩ := hRun
    rcases vfsOpen_cases (t := s.took) hMount hOpen with ⟨hErr, hFailed⟩ | ⟨rfl, hAccepts, hOpened⟩
    · simp only [if_pos hErr, bind_eq_ok] at hRun
      obtain ⟨_, t3, hFree, hRun⟩ := hRun
      cases hRun
      have hNot := hFailed.resolve_left (by rw [unlocked_of_free hFree]; exact Bool.false_ne_true)
      rcases vfsOpen_exit (Opening.refl.took) hOpen with ⟨hNone, -⟩ | ⟨-, hExit⟩
      · rw [hMount] at hNone
        cases hNone
      cases hExit with
      | locked _ hLock =>
          rw [unlocked_of_free hFree] at hLock
          cases hLock
      | left block gone _ hLeft => exact .failed block _ hErr hNot (hLeft.free [block] [] hFree)
      | opened hZero _ =>
          rw [hZero] at hErr
          exact absurd hErr (lt_irrefl 0)
    · rw [if_neg (lt_irrefl 0)] at hRun
      simp only [bind_eq_ok] at hRun
      obtain ⟨_, t3, hState, _, t4, hSet, hRun⟩ := hRun
      cases hState
      cases hSet
      cases hRun
      rcases hOpened with ⟨d, hFind, rfl, rfl⟩ | ⟨hFind, hKind, rfl, rfl⟩
      · refine .shared d ?_ hFind rfl
        rw [shared_fdCount]
        rfl
      · refine .entered ?_ hFind hKind (hAccepts.resolve_left (not_not.mpr hFind)).2 ?_
        · rw [entered_fdCount]
          rfl
        · rw [took_next]
          rfl
  · cases hRun
    exact .locked (by decide) rfl ⟨rfl, rfl, rfl, .refl⟩

/-- Without a mount for the path `sys_open` fails, and the lists are as they were. -/
theorem sysOpen_unmounted {path : Str} {mode : BitVec 32} {r : Int}
    (hNone : Vfs.mountGet s.mountList path = none) (hRun : sysOpen lib kind path mode s = .ok r t) :
    r < 0 ∧ ∃ own gone, Opening s t own gone := by
  simp only [sysOpen, bind_eq_ok] at hRun
  obtain ⟨ptr, t1, hAlloc, hRun⟩ := hRun
  rcases Opening.refl.alloc hAlloc with ⟨rfl, -, hOpening, -⟩ | ⟨rfl, hOpening, -⟩
  · cases hRun
    exact ⟨by decide, _, _, hOpening⟩
  simp only [bind_eq_ok] at hRun
  obtain ⟨⟨ret, dentry⟩, t2, hOpen, hRun⟩ := hRun
  rcases vfsOpen_exit hOpening hOpen with ⟨-, hRet, gone, hLeft⟩ | ⟨hMount, -⟩
  · simp only [if_pos hRet, bind_eq_ok] at hRun
    obtain ⟨_, t3, hFree, hRun⟩ := hRun
    cases hRun
    exact ⟨hRet, _, _, hLeft.free [] [] hFree⟩
  · exact absurd hNone hMount

/-! ## What the other calls do -/

theorem mountGetByName_unlocked {path : Str} {r : Option Mount} (hRun : mountGetByName path t = .ok r t') :
    t.heap.mmSpinlock = false := by
  simp only [mountGetByName, bind_eq_ok] at hRun
  obtain ⟨ptr, t1, hAlloc, -⟩ := hRun
  exact (kzalloc_cases hAlloc).1

theorem sysStat_cases {path : Str} {r : Int × Option Nat} (hRun : sysStat lib ops kind path s = .ok r t) :
    (Vfs.mountGet s.mountList path = none ∧ r = (-1, none) ∧ t = s.looked) ∨
      ∃ mount, Vfs.mountGet s.mountList path = some mount ∧
        r = (fsStat lib ops kind mount path s.fs).1 ∧
        t = s.looked.setFs (fsStat lib ops kind mount path s.fs).2 := by
  simp only [sysStat, vfsStat, bind_eq_ok] at hRun
  obtain ⟨found, t1, hGet, hRun⟩ := hRun
  obtain ⟨rfl, rfl⟩ := mountGetByName_cases hGet
  cases hMount : Vfs.mountGet s.mountList path with
  | none =>
      simp only [hMount] at hRun
      cases hRun
      exact Or.inl ⟨rfl, rfl, rfl⟩
  | some mount =>
      simp only [hMount, bind_eq_ok] at hRun
      obtain ⟨_, t2, hState, _, t3, hSet, hRun⟩ := hRun
      cases hState
      cases hSet
      cases hRun
      exact Or.inr ⟨mount, rfl, rfl, rfl⟩

theorem dentryAt_cases {addr : Nat} {d : Dentry} (hRun : dentryAt addr t = .ok d t') :
    t' = t ∧ t.dentryList.find? (fun d => d.addr == addr) = some d := by
  simp only [dentryAt, bind_eq_ok] at hRun
  obtain ⟨_, t1, hState, hRun⟩ := hRun
  cases hState
  cases hFind : t.dentryList.find? fun d => d.addr == addr with
  | none =>
      simp only [hFind] at hRun
      cases hRun
  | some d' =>
      simp only [hFind] at hRun
      cases hRun
      exact ⟨rfl, rfl⟩

/-- `sys_read` changes the state of the file system only. -/
theorem sysRead_cases {fd : BitVec 32} {size : Nat} {r : Int × List (BitVec 8)}
    (hRun : sysRead ops kind fd size t = .ok r t') :
    (fileOf t.fileList fd = none ∧ t' = t) ∨
      (t.heap.mmSpinlock = false ∧ ∃ disk, t' = t.looked.setFs disk) := by
  simp only [sysRead, bind_eq_ok] at hRun
  obtain ⟨_, t1, hState, hRun⟩ := hRun
  cases hState
  cases hFile : fileOf t.fileList fd with
  | none =>
      simp only [hFile] at hRun
      cases hRun
      exact Or.inl ⟨rfl, rfl⟩
  | some filp =>
      simp only [hFile, vfsRead, bind_eq_ok] at hRun
      obtain ⟨dentry, t2, hDentry, found, t3, hGet, hRun⟩ := hRun
      obtain ⟨rfl, -⟩ := dentryAt_cases hDentry
      refine Or.inr ⟨mountGetByName_unlocked hGet, ?_⟩
      obtain ⟨rfl, rfl⟩ := mountGetByName_cases hGet
      cases hMount : Vfs.mountGet t2.mountList dentry.pathname with
      | none =>
          simp only [hMount] at hRun
          cases hRun
          exact ⟨t2.fs, rfl⟩
      | some mount =>
          simp only [hMount, bind_eq_ok] at hRun
          obtain ⟨_, t4, hState, hRun⟩ := hRun
          cases hState
          cases hKind : kind mount.mntFstype with
          | tmpfs =>
              simp only [hKind, bind_eq_ok] at hRun
              obtain ⟨_, t5, hSet, hRun⟩ := hRun
              cases hSet
              cases hRun
              exact ⟨_, rfl⟩
          | fatfs =>
              simp only [hKind, bind_eq_ok] at hRun
              obtain ⟨_, t5, hSet, hRun⟩ := hRun
              cases hSet
              cases hRun
              exact ⟨_, rfl⟩

/-! ## What `sys_close` does -/

/-- The list with a reference of a dentry dropped. -/
def refDropped (dentries : List Dentry) (addr : Nat) : List Dentry :=
  dentries.map fun d => if d.addr = addr then { d with dRef := d.dRef - 1 } else d

/-- The blocks that `vfs_close` gives back with the last reference. -/
def closing (kind : Nat → FsKind) (mount : Mount) (d : Dentry) : List Nat :=
  match kind mount.mntFstype with
  | .tmpfs => [d.addr - 1, d.addr]
  | .fatfs => [d.privateData + 1, d.privateData, d.addr - 1, d.addr]

/-- Between two states the mounts and the counter of descriptors are as they were; the three lists are these
now. -/
structure Holds (s t : OpenVfs δ) (dentries : List Dentry) (files : List File) (blocks : Ledger) : Prop where
  mounts : t.mountList = s.mountList
  fdCount : t.fdCount = s.fdCount
  dentries : t.dentryList = dentries
  files : t.fileList = files
  blocks : t.blocks = blocks

/-- The ways out of `vfs_close`. -/
inductive CloseCase (kind : Nat → FsKind) (s t : OpenVfs δ) (dentry : Nat) (r : Int) : Prop where
  /-- No mount for the path. -/
  | unmounted (d : Dentry) (hErr : r < 0) (hFind : s.dentryList.find? (fun d => d.addr == dentry) = some d)
      (hMount : Vfs.mountGet s.mountList d.pathname = none)
      (hHolds : Holds s t s.dentryList s.fileList s.looked.blocks)
  /-- There are other references. -/
  | dropped (d left : Dentry) (hZero : r = 0)
      (hFind : s.dentryList.find? (fun d => d.addr == dentry) = some d)
      (hLeft : (refDropped s.dentryList d.addr).find? (fun d => d.addr == dentry) = some left)
      (hRef : left.dRef ≠ 0)
      (hHolds : Holds s t (refDropped s.dentryList d.addr) s.fileList s.looked.blocks)
  /-- It was the last reference. -/
  | last (d left : Dentry) (mount : Mount) (hZero : r = 0)
      (hFind : s.dentryList.find? (fun d => d.addr == dentry) = some d)
      (hMount : Vfs.mountGet s.mountList d.pathname = some mount)
      (hLeft : (refDropped s.dentryList d.addr).find? (fun d => d.addr == dentry) = some left)
      (hRef : left.dRef = 0)
      (hHolds : Holds s t ((refDropped s.dentryList d.addr).eraseP fun pos => pos.addr == d.addr) s.fileList
        (s.looked.blocks.giveBackAll (closing kind mount d)))

/-- A `vfs_close` that has not failed leaves the files alone. -/
theorem CloseCase.closed {dentry : Nat} {r : Int} (h : CloseCase kind s t dentry r) (hErr : ¬ r < 0) :
    r = 0 ∧ Holds s t t.dentryList s.fileList t.blocks := by
  have hKeeps : ∀ {dentries : List Dentry} {blocks : Ledger}, Holds s t dentries s.fileList blocks →
      Holds s t t.dentryList s.fileList t.blocks :=
    fun hHolds => ⟨hHolds.mounts, hHolds.fdCount, rfl, hHolds.files, rfl⟩
  cases h with
  | unmounted _ hNeg => exact absurd hNeg hErr
  | dropped _ _ hZero _ _ _ hHolds => exact ⟨hZero, hKeeps hHolds⟩
  | last _ _ _ hZero _ _ _ _ hHolds => exact ⟨hZero, hKeeps hHolds⟩

theorem kfree_holds {block : Nat} {u : Unit} (hRun : kfree block t = .ok u t') :
    Holds t t' t.dentryList t.fileList (t.blocks.giveBack block) := by
  obtain ⟨-, hBlocks, hVfs, -⟩ := kfree_cases hRun
  constructor
  · rw [hVfs]
  · rw [hVfs]
  · rw [hVfs]
  · rw [hVfs]
  · exact hBlocks

theorem Holds.trans {u : OpenVfs δ} {dentries dentries' : List Dentry} {files files' : List File}
    {blocks blocks' : Ledger} (h : Holds s t dentries files blocks) (h' : Holds t u dentries' files' blocks') :
    Holds s u dentries' files' blocks' :=
  ⟨h'.mounts.trans h.mounts, h'.fdCount.trans h.fdCount, h'.dentries, h'.files, h'.blocks⟩

/-- One block more is given back. -/
theorem Holds.free {dentries : List Dentry} {files : List File} {blocks : Ledger} {block : Nat} {u : Unit}
    (h : Holds s t dentries files blocks) (hRun : kfree block t = .ok u t') :
    Holds s t' dentries files (blocks.giveBack block) := by
  have hFree := h.trans (kfree_holds hRun)
  rwa [h.dentries, h.files, h.blocks] at hFree

theorem looked_holds (s : OpenVfs δ) : Holds s s.looked s.dentryList s.fileList s.looked.blocks := by
  constructor <;> simp [looked]

theorem vfsCloseLast_holds {mount : Mount} {d : Dentry} {r : Int}
    (hRun : vfsCloseLast ops kind mount d t = .ok r t') :
    r = 0 ∧ Holds t t' (t.dentryList.eraseP fun pos => pos.addr == d.addr) t.fileList
      (t.blocks.giveBackAll (closing kind mount d)) := by
  simp only [vfsCloseLast] at hRun
  cases hKind : kind mount.mntFstype with
  | tmpfs =>
      simp only [hKind, bind_eq_ok] at hRun
      obtain ⟨_, t1, hErase, _, t2, hPath, _, t3, hFree, hRun⟩ := hRun
      cases hErase
      cases hRun
      have hErased : Holds t (t.setDentries (t.dentryList.eraseP fun pos => pos.addr == d.addr))
          (t.dentryList.eraseP fun pos => pos.addr == d.addr) t.fileList t.blocks :=
        ⟨rfl, rfl, rfl, rfl, rfl⟩
      rw [closing, hKind]
      exact ⟨rfl, (hErased.free hPath).free hFree⟩
  | fatfs =>
      simp only [hKind, fatfsRelease, bind_eq_ok] at hRun
      obtain ⟨_, t1, ⟨_, t2, hClose, _, t3, hObject, hData⟩, _, t4, hErase, _, t5, hPath, _, t6, hFree, hRun⟩ :=
        hRun
      cases hClose
      cases hRun
      have hReleased := (kfree_holds hObject).free hData
      have hErased : Holds t t4 (t.dentryList.eraseP fun pos => pos.addr == d.addr) t.fileList
          ((t.blocks.giveBack (d.privateData + 1)).giveBack d.privateData) := by
        cases hErase
        refine ⟨hReleased.mounts, hReleased.fdCount, ?_, hReleased.files, hReleased.blocks⟩
        exact congrArg (List.eraseP fun pos => pos.addr == d.addr) hReleased.dentries
      rw [closing, hKind]
      exact ⟨rfl, (hErased.free hPath).free hFree⟩

theorem vfsClose_cases {filp : File} {r : Int} (hRun : vfsClose ops kind filp t = .ok r t') :
    CloseCase kind t t' filp.dentry r := by
  simp only [vfsClose, bind_eq_ok] at hRun
  obtain ⟨d, t1, hDentry, found, t2, hGet, hRun⟩ := hRun
  obtain ⟨rfl, hFind⟩ := dentryAt_cases hDentry
  obtain ⟨rfl, rfl⟩ := mountGetByName_cases hGet
  cases hMount : Vfs.mountGet t1.mountList d.pathname with
  | none =>
      simp only [hMount] at hRun
      cases hRun
      exact .unmounted d (by decide) hFind hMount (looked_holds t1)
  | some mount =>
      simp only [hMount, bind_eq_ok] at hRun
      obtain ⟨_, t2, hState, hRun⟩ := hRun
      cases hState
      have hSome : t1.looked.dentryList.find? (fun pos => pos.pathname == d.pathname) ≠ none := by
        simp only [looked, gave_dentryList, took_dentryList, ne_eq, List.find?_eq_none, not_forall]
        exact ⟨d, List.mem_of_find?_eq_some hFind, by simp⟩
      obtain ⟨pos, hPos⟩ := Option.ne_none_iff_exists'.mp hSome
      simp only [hPos, bind_eq_ok] at hRun
      obtain ⟨_, t3, hDrop, left, t4, hLookup, hRun⟩ := hRun
      have hDropped : Holds t1 t3 (refDropped t1.dentryList d.addr) t1.fileList t1.looked.blocks := by
        cases hDrop
        exact ⟨rfl, rfl, rfl, rfl, rfl⟩
      obtain ⟨rfl, hLeft⟩ := dentryAt_cases hLookup
      rw [hDropped.dentries] at hLeft
      by_cases hRef : left.dRef = 0
      · rw [if_pos hRef] at hRun
        obtain ⟨rfl, hLast⟩ := vfsCloseLast_holds hRun
        have hHolds := hDropped.trans hLast
        rw [hDropped.dentries, hDropped.files, hDropped.blocks] at hHolds
        exact .last d left mount rfl hFind hMount hLeft hRef hHolds
      · rw [if_neg hRef] at hRun
        cases hRun
        exact .dropped d left rfl hFind hLeft hRef hDropped

/-- `sys_close` of a descriptor that no file has, or one that runs `vfs_close` and takes the file off the
list. -/
theorem sysClose_cases {fd : BitVec 32} {r : Int} (hRun : sysClose ops kind fd t = .ok r t') :
    (fileOf t.fileList fd = none ∧ r < 0 ∧ t' = t) ∨
      ∃ filp, fileOf t.fileList fd = some filp ∧
        ((r < 0 ∧ CloseCase kind t t' filp.dentry r) ∨
          ∃ t1, CloseCase kind t t1 filp.dentry 0 ∧ r = 0 ∧
            Holds t t' t1.dentryList (t.fileList.eraseP fun f => f.addr == filp.addr)
              (t1.blocks.giveBack filp.addr)) := by
  simp only [sysClose, bind_eq_ok] at hRun
  obtain ⟨_, t0, hState, hRun⟩ := hRun
  cases hState
  cases hFile : fileOf t.fileList fd with
  | none =>
      simp only [hFile] at hRun
      cases hRun
      exact Or.inl ⟨rfl, by decide, rfl⟩
  | some filp =>
      simp only [hFile, bind_eq_ok] at hRun
      obtain ⟨ret, t1, hClose, hRun⟩ := hRun
      have hCase := vfsClose_cases hClose
      refine Or.inr ⟨filp, rfl, ?_⟩
      by_cases hErr : ret < 0
      · rw [if_pos hErr] at hRun
        cases hRun
        exact Or.inl ⟨hErr, hCase⟩
      · rw [if_neg hErr] at hRun
        simp only [bind_eq_ok] at hRun
        obtain ⟨_, t2, hErase, _, t3, hFree, hRun⟩ := hRun
        cases hRun
        obtain ⟨rfl, hHolds⟩ := hCase.closed hErr
        refine Or.inr ⟨t1, hCase, rfl, ?_⟩
        have hErased : Holds t t2 t1.dentryList (t.fileList.eraseP fun f => f.addr == filp.addr) t1.blocks := by
          cases hErase
          refine ⟨hHolds.mounts, hHolds.fdCount, rfl, ?_, rfl⟩
          exact congrArg (List.eraseP fun f => f.addr == filp.addr) hHolds.files
        exact hErased.free hFree

/-- With the heap locked, `sys_close` returns only if no file has the descriptor. -/
theorem sysClose_locked {fd : BitVec 32} {r : Int} (hRun : sysClose ops kind fd t = .ok r t')
    (hLock : t.heap.mmSpinlock = true) : t' = t := by
  simp only [sysClose, bind_eq_ok] at hRun
  obtain ⟨_, t0, hState, hRun⟩ := hRun
  cases hState
  cases hFile : fileOf t.fileList fd with
  | none =>
      simp only [hFile] at hRun
      cases hRun
      rfl
  | some filp =>
      simp only [hFile, vfsClose, bind_eq_ok] at hRun
      obtain ⟨ret, t1, ⟨d, t2, hDentry, found, t3, hGet, -⟩, -⟩ := hRun
      obtain ⟨rfl, -⟩ := dentryAt_cases hDentry
      rw [mountGetByName_unlocked hGet] at hLock
      cases hLock

theorem looked_live (s : OpenVfs δ) : s.looked.blocks.live = s.blocks.live :=
  List.erase_cons_head _ _

theorem closing_length (kind : Nat → FsKind) (mount : Mount) (d : Dentry) :
    (closing kind mount d).length ≤ 4 := by
  unfold closing
  cases kind mount.mntFstype with
  | tmpfs =>
      show 2 ≤ 4
      omega
  | fatfs => exact le_refl 4

/-- How much `sys_close` takes off the lists, and how many blocks it gives back for it at most. -/
theorem sysClose_counts {fd : BitVec 32} {r : Int} (hRun : sysClose ops kind fd t = .ok r t') :
    (t'.fileList = t.fileList ∧ t'.dentryList = t.dentryList ∧ t'.blocks.live = t.blocks.live) ∨
      (t'.fileList.length + 1 = t.fileList.length ∧
        ((t'.dentryList.length = t.dentryList.length ∧ t.blocks.live.length ≤ t'.blocks.live.length + 1) ∨
          (t'.dentryList.length + 1 = t.dentryList.length ∧
            t.blocks.live.length ≤ t'.blocks.live.length + 5))) := by
  rcases sysClose_cases hRun with ⟨-, -, rfl⟩ | ⟨filp, hFile, hClosed⟩
  · exact Or.inl ⟨rfl, rfl, rfl⟩
  rcases hClosed with ⟨hErr, hCase⟩ | ⟨t1, hCase, -, hHolds⟩
  · cases hCase with
    | unmounted _ _ _ _ hSame =>
        exact Or.inl ⟨hSame.files, hSame.dentries, by rw [hSame.blocks, looked_live]⟩
    | dropped _ _ hZero => omega
    | last _ _ _ hZero => omega
  right
  have hFiles : t'.fileList.length + 1 = t.fileList.length := by
    have hPos := List.length_pos_of_mem (List.mem_of_find?_eq_some hFile)
    rw [hHolds.files, List.length_eraseP_of_mem (List.mem_of_find?_eq_some hFile) (by simp)]
    omega
  have hFree := t1.blocks.giveBack_length filp.addr
  rw [← hHolds.blocks] at hFree
  refine ⟨hFiles, ?_⟩
  rw [hHolds.dentries]
  cases hCase with
  | unmounted _ hErr => omega
  | dropped d left _ _ _ _ hDropped =>
      rw [hDropped.blocks, looked_live] at hFree
      rw [hDropped.dentries]
      exact Or.inl ⟨List.length_map _, hFree⟩
  | last d left mount _ hFind _ _ _ hLast =>
      have hMem : d ∈ t.dentryList := List.mem_of_find?_eq_some hFind
      have hErased : ∃ x ∈ refDropped t.dentryList d.addr, x.addr = d.addr :=
        ⟨_, List.mem_map.mpr ⟨d, hMem, rfl⟩, by simp⟩
      obtain ⟨x, hx, hAddr⟩ := hErased
      have hPos := List.length_pos_of_mem hx
      have hSame : (refDropped t.dentryList d.addr).length = t.dentryList.length := List.length_map _
      have hClosing := closing_length kind mount d
      have hAll := t.looked.blocks.giveBackAll_length (closing kind mount d)
      rw [looked_live] at hAll
      rw [hLast.blocks] at hFree
      rw [hLast.dentries, List.length_eraseP_of_mem hx (by simp [hAddr])]
      refine Or.inr ⟨?_, ?_⟩ <;> omega

/-! ## Opening and closing a file -/

/-- The lists of files and dentries are sound: the dentries have their own blocks, given out before, and every
dentry is referenced. -/
structure Sound (s : OpenVfs δ) : Prop where
  addrs : (s.dentryList.map Dentry.addr).Nodup
  dentry_lt : ∀ d ∈ s.dentryList, d.addr < s.blocks.next
  referenced : ∀ d ∈ s.dentryList, 0 < d.dRef
  file_lt : ∀ f ∈ s.fileList, f.addr < s.blocks.next

theorem refTaken_addrs (dentries : List Dentry) (addr : Nat) :
    (refTaken dentries addr).map Dentry.addr = dentries.map Dentry.addr := by
  rw [refTaken, List.map_map]
  refine List.map_congr_left fun d _ => ?_
  show (if d.addr = addr then { d with dRef := d.dRef + 1 } else d).addr = d.addr
  split <;> rfl

theorem refDropped_addrs (dentries : List Dentry) (addr : Nat) :
    (refDropped dentries addr).map Dentry.addr = dentries.map Dentry.addr := by
  rw [refDropped, List.map_map]
  refine List.map_congr_left fun d _ => ?_
  show (if d.addr = addr then { d with dRef := d.dRef - 1 } else d).addr = d.addr
  split <;> rfl

/-- Dropping the reference that has been taken. -/
theorem refDropped_refTaken (dentries : List Dentry) (addr : Nat) :
    refDropped (refTaken dentries addr) addr = dentries := by
  rw [refDropped, refTaken, List.map_map]
  conv_rhs => rw [← List.map_id dentries]
  refine List.map_congr_left fun d _ => ?_
  by_cases hAddr : d.addr = addr
  · subst hAddr
    simp
  · simp [hAddr]

theorem refDropped_of_ne {dentries : List Dentry} {addr : Nat} (h : ∀ d ∈ dentries, d.addr ≠ addr) :
    refDropped dentries addr = dentries := by
  rw [refDropped]
  conv_rhs => rw [← List.map_id dentries]
  refine List.map_congr_left fun d hd => ?_
  rw [if_neg (h d hd)]
  rfl

/-- The new file, put at the end, is the one with its number and the one at its address. -/
theorem fileOf_append {files : List File} {filp : File} (hNew : fileOf files filp.fd = none) :
    fileOf (files ++ [filp]) filp.fd = some filp := by
  unfold fileOf at hNew ⊢
  rw [List.find?_append, hNew]
  simp

theorem eraseP_new {α : Type} {l : List α} {x : α} {p : α → Bool} (hOld : ∀ y ∈ l, p y = false)
    (hNew : p x = true) : (l ++ [x]).eraseP p = l := by
  rw [List.eraseP_append_right _ fun y hy => by simp [hOld y hy]]
  simp [hNew]

/-- The way out of `vfs_close` when there is a mount: by the references that are left. -/
theorem CloseCase.mounted {dentry : Nat} {r : Int} {d left : Dentry} {mount : Mount}
    (h : CloseCase kind s t dentry r)
    (hFind : s.dentryList.find? (fun d => d.addr == dentry) = some d)
    (hMount : Vfs.mountGet s.mountList d.pathname = some mount)
    (hLeft : (refDropped s.dentryList d.addr).find? (fun d => d.addr == dentry) = some left) :
    r = 0 ∧
      ((left.dRef ≠ 0 ∧ Holds s t (refDropped s.dentryList d.addr) s.fileList s.looked.blocks) ∨
        (left.dRef = 0 ∧ Holds s t ((refDropped s.dentryList d.addr).eraseP fun pos => pos.addr == d.addr)
          s.fileList (s.looked.blocks.giveBackAll (closing kind mount d)))) := by
  cases h with
  | unmounted d' _ hFind' hNone =>
      rw [hFind] at hFind'
      cases hFind'
      rw [hMount] at hNone
      cases hNone
  | dropped d' left' hZero hFind' hLeft' hRef hHolds =>
      rw [hFind] at hFind'
      cases hFind'
      rw [hLeft] at hLeft'
      cases hLeft'
      exact ⟨hZero, Or.inl ⟨hRef, hHolds⟩⟩
  | last d' left' mount' hZero hFind' hMount' hLeft' hRef hHolds =>
      rw [hFind] at hFind'
      cases hFind'
      rw [hMount] at hMount'
      cases hMount'
      rw [hLeft] at hLeft'
      cases hLeft'
      exact ⟨hZero, Or.inr ⟨hRef, hHolds⟩⟩

/-- `sys_close` of a file that has been put at the end of the list. -/
theorem sysClose_listed {files : List File} (filp : File) (d left : Dentry) (mount : Mount) {r : Int}
    (hFiles : t.fileList = files ++ [filp]) (hOld : ∀ f ∈ files, f.addr ≠ filp.addr)
    (hFresh : fileOf files filp.fd = none)
    (hFind : t.dentryList.find? (fun d => d.addr == filp.dentry) = some d)
    (hMount : Vfs.mountGet t.mountList d.pathname = some mount)
    (hLeft : (refDropped t.dentryList d.addr).find? (fun d => d.addr == filp.dentry) = some left)
    (hRun : sysClose ops kind filp.fd t = .ok r t') :
    t'.fileList = files ∧
      ((left.dRef ≠ 0 ∧ t'.dentryList = refDropped t.dentryList d.addr ∧
          t'.blocks = t.looked.blocks.giveBack filp.addr) ∨
        (left.dRef = 0 ∧ t'.dentryList = (refDropped t.dentryList d.addr).eraseP (fun pos => pos.addr == d.addr) ∧
          t'.blocks = (t.looked.blocks.giveBackAll (closing kind mount d)).giveBack filp.addr)) := by
  have hFile : fileOf t.fileList filp.fd = some filp := by rw [hFiles, fileOf_append hFresh]
  have hErase : t.fileList.eraseP (fun f => f.addr == filp.addr) = files := by
    rw [hFiles]
    apply eraseP_new
    · intro f hf
      simpa using hOld f hf
    · simp
  rcases sysClose_cases hRun with ⟨hNone, -⟩ | ⟨filp', hFilp, hClosed⟩
  · rw [hFile] at hNone
    cases hNone
  rw [hFile] at hFilp
  cases hFilp
  rcases hClosed with ⟨hErr, hCase⟩ | ⟨t1, hCase, -, hHolds⟩
  · obtain ⟨hZero, -⟩ := hCase.mounted hFind hMount hLeft
    omega
  rw [hErase] at hHolds
  refine ⟨hHolds.files, ?_⟩
  rcases (hCase.mounted hFind hMount hLeft).2 with ⟨hRef, hDropped⟩ | ⟨hRef, hLast⟩
  · exact Or.inl ⟨hRef, hHolds.dentries.trans hDropped.dentries, by rw [hHolds.blocks, hDropped.blocks]⟩
  · exact Or.inr ⟨hRef, hHolds.dentries.trans hLast.dentries, by rw [hHolds.blocks, hLast.blocks]⟩

/-- A dentry whose reference is taken, and dropped again. -/
theorem shared_dentry {d : Dentry} (hSound : s.Sound) (hMem : d ∈ s.dentryList) :
    (refTaken s.dentryList d.addr).find? (fun y => y.addr == d.addr) = some { d with dRef := d.dRef + 1 } ∧
      refDropped (refTaken s.dentryList d.addr) d.addr = s.dentryList ∧
      s.dentryList.find? (fun y => y.addr == d.addr) = some d := by
  refine ⟨?_, refDropped_refTaken _ _, ?_⟩
  · rw [KeyedList.find_key_eq_some (by rw [refTaken_addrs]; exact hSound.addrs)]
    exact ⟨List.mem_map.mpr ⟨d, hMem, if_pos rfl⟩, rfl⟩
  · rw [KeyedList.find_key_eq_some hSound.addrs]
    exact ⟨hMem, rfl⟩

/-- A new dentry, and the reference to it dropped. -/
theorem entered_dentry (hSound : s.Sound) {addr : Nat} (hAddr : s.blocks.next ≤ addr) (path : Str) (mount : Mount)
    (privateData : Nat) :
    (s.dentryList ++ ([⟨addr, path, mount, 1, privateData⟩] : List Dentry)).find? (fun y => y.addr == addr) =
        some ⟨addr, path, mount, 1, privateData⟩ ∧
      refDropped (s.dentryList ++ [⟨addr, path, mount, 1, privateData⟩]) addr =
        s.dentryList ++ [⟨addr, path, mount, 0, privateData⟩] ∧
      (s.dentryList ++ ([⟨addr, path, mount, 0, privateData⟩] : List Dentry)).find? (fun y => y.addr == addr) =
        some ⟨addr, path, mount, 0, privateData⟩ := by
  have hOld : ∀ d ∈ s.dentryList, d.addr ≠ addr := by
    intro d hd
    have := hSound.dentry_lt d hd
    omega
  have hOldFind : s.dentryList.find? (fun y => y.addr == addr) = none := by
    simpa using hOld
  refine ⟨?_, ?_, ?_⟩
  · rw [List.find?_append, hOldFind]
    simp
  · have hSame := refDropped_of_ne hOld
    unfold refDropped at hSame
    rw [refDropped, List.map_append, hSame]
    simp
  · rw [List.find?_append, hOldFind]
    simp

/-- `sys_close` after a `sys_open` that has found a dentry. -/
theorem shared_close {l : Ledger} {d : Dentry} {mount : Mount} {path : Str} {r : Int} (hSound : s.Sound)
    (hMount : Vfs.mountGet s.mountList path = some mount) (hFresh : fileOf s.fileList s.fdCount = none)
    (hFind : s.dentryList.find? (fun d => d.pathname == path) = some d)
    (hState : t = (s.took.shared d).listed s.blocks.next d.addr)
    (hRun : sysClose ops kind s.fdCount t = .ok r t') (hSince : Since l s.blocks own gone) :
    t'.fileList = s.fileList ∧ t'.dentryList = s.dentryList ∧ ∃ gone', Since l t'.blocks own gone' := by
  have hMem := List.mem_of_find?_eq_some hFind
  have hPath : d.pathname = path := by simpa using List.find?_some hFind
  obtain ⟨hTaken, hDropped, hLeft⟩ := shared_dentry hSound hMem
  have hFiles : t.fileList = s.fileList ++ [⟨s.blocks.next, s.fdCount, d.addr⟩] := by
    simp [hState, shared, looked]
  have hDentries : t.dentryList = refTaken s.dentryList d.addr := by simp [hState, shared]
  have hMounts : t.mountList = s.mountList := by simp [hState, shared, looked]
  have hMountD : Vfs.mountGet t.mountList d.pathname = some mount := by rw [hMounts, hPath, hMount]
  obtain ⟨hClosed, ⟨-, hList, hBlocks⟩ | ⟨hRef, -⟩⟩ :=
    sysClose_listed ⟨s.blocks.next, s.fdCount, d.addr⟩ { d with dRef := d.dRef + 1 } d mount hFiles
      (fun f hf => (hSound.file_lt f hf).ne) hFresh (by rw [hDentries]; exact hTaken) hMountD
      (by rw [hDentries, hDropped]; exact hLeft) hRun
  · refine ⟨hClosed, by rw [hList, hDentries, hDropped], ?_⟩
    have hTBlocks : t.blocks =
        (s.blocks.take.take.giveBack (s.blocks.next + 1)).take.giveBack (s.blocks.next + 2) := by
      simp [hState, shared, looked]
    have hOpen : Since l t.blocks (s.blocks.next :: own)
        (gone ++ [s.blocks.next + 1] ++ [s.blocks.next + 2]) := by
      rw [hTBlocks]
      exact hSince.take.lend.lend
    rw [hBlocks]
    exact ⟨_, hOpen.lend.giveBack [] own⟩
  · exact absurd hRef (hSound.referenced d hMem).ne'

/-- `sys_close` after a `sys_open` that has made a dentry. -/
theorem entered_close {l : Ledger} {disk : δ} {mount : Mount} {path : Str} {r : Int} (hSound : s.Sound)
    (hMount : Vfs.mountGet s.mountList path = some mount) (hFresh : fileOf s.fileList s.fdCount = none)
    (hKind : kind mount.mntFstype = .fatfs)
    (hState : t = (s.took.entered disk path mount).listed s.blocks.next (s.blocks.next + 3))
    (hRun : sysClose ops kind s.fdCount t = .ok r t') (hSince : Since l s.blocks own gone) :
    t'.fileList = s.fileList ∧ t'.dentryList = s.dentryList ∧ ∃ gone', Since l t'.blocks own gone' := by
  obtain ⟨hFind, hDropped, hLeft⟩ :=
    entered_dentry hSound (Nat.le_add_right s.blocks.next 3) path mount (s.blocks.next + 4)
  have hFiles : t.fileList = s.fileList ++ [⟨s.blocks.next, s.fdCount, s.blocks.next + 3⟩] := by
    simp [hState, entered, looked]
  have hDentries : t.dentryList =
      s.dentryList ++ [⟨s.blocks.next + 3, path, mount, 1, s.blocks.next + 4⟩] := by
    simp [hState, entered]
  have hMounts : t.mountList = s.mountList := by simp [hState, entered, looked]
  have hMountD : Vfs.mountGet t.mountList path = some mount := by rw [hMounts, hMount]
  obtain ⟨hClosed, ⟨hRef, -⟩ | ⟨-, hList, hBlocks⟩⟩ :=
    sysClose_listed ⟨s.blocks.next, s.fdCount, s.blocks.next + 3⟩
      ⟨s.blocks.next + 3, path, mount, 1, s.blocks.next + 4⟩ ⟨s.blocks.next + 3, path, mount, 0, s.blocks.next + 4⟩
      mount hFiles (fun f hf => (hSound.file_lt f hf).ne) hFresh (by rw [hDentries]; exact hFind) hMountD
      (by rw [hDentries, hDropped]; exact hLeft) hRun
  · exact absurd rfl hRef
  · refine ⟨hClosed, ?_, ?_⟩
    · rw [hList, hDentries, hDropped]
      apply eraseP_new
      · intro d hd
        have := hSound.dentry_lt d hd
        simp only [beq_eq_false_iff_ne]
        omega
      · simp
    · -- the private data and the file object, then the copy of the path and the dentry
      have hTBlocks : t.blocks =
          (s.blocks.take.take.giveBack (s.blocks.next + 1)).take.take.take.take := by
        simp [hState, entered, looked]
      have hOpen : Since l t.blocks ((s.blocks.next + 5) :: (s.blocks.next + 4) :: (s.blocks.next + 3) ::
          (s.blocks.next + 2) :: s.blocks.next :: own) (gone ++ [s.blocks.next + 1]) := by
        rw [hTBlocks]
        exact hSince.take.lend.take.take.take.take
      have hData := (hOpen.lend.giveBack [] _).giveBack [] _
      have hPathCopy := hData.giveBack [s.blocks.next + 3] _
      rw [hBlocks, closing, hKind]
      exact ⟨_, (hPathCopy.giveBack [] _).giveBack [] own⟩

/-! ## The lists are sound in every state that calls reach -/

/-- No number of a block is given out twice. -/
def NextLe (s t : OpenVfs δ) : Prop := s.blocks.next ≤ t.blocks.next

theorem NextLe.refl (s : OpenVfs δ) : NextLe s s := le_refl _

theorem NextLe.trans (s t u : OpenVfs δ) (h : NextLe s t) (h' : NextLe t u) : NextLe s u := le_trans h h'

theorem respects_kzalloc (size : Nat) : Respects NextLe (kzalloc size : OpenM δ (Option Nat)) := by
  intro s
  unfold kzalloc
  split
  · exact Nat.le_succ _
  · exact le_refl _
  · exact le_refl _

theorem respects_kfree (block : Nat) : Respects NextLe (kfree block : OpenM δ Unit) := by
  intro s
  unfold kfree
  split
  · exact le_refl _
  · exact le_refl _

theorem respects_pure {α : Type} (a : α) : Respects NextLe (pure a : OpenM δ α) :=
  Respects.pure NextLe.refl a

theorem respects_bind {α β : Type} {x : OpenM δ α} {f : α → OpenM δ β} (hx : Respects NextLe x)
    (hf : ∀ a, Respects NextLe (f a)) : Respects NextLe (x >>= f) :=
  Respects.bind NextLe.trans hx hf

theorem respects_get : Respects NextLe (get : OpenM δ (OpenVfs δ)) := fun _ => le_refl _

theorem respects_mountGetByName (path : Str) :
    Respects NextLe (mountGetByName path : OpenM δ (Option Mount)) := by
  unfold mountGetByName
  refine respects_bind (respects_kzalloc _) fun ptr => respects_bind ?_ fun _ =>
    respects_bind respects_get fun _ => respects_bind (respects_kfree _) fun _ => respects_pure _
  unfold storeBlock
  cases ptr with
  | none => exact fun _ => le_refl _
  | some block => exact Respects.ite (respects_pure _) fun _ => le_refl _

theorem respects_fatfsLookup (path : Str) : Respects NextLe (fatfsLookup lib path) := by
  intro s
  have hRest : Respects NextLe (if (lib.fStat path s.fs).1.1 = .frOk then kzalloc 32 else pure none :
      OpenM δ (Option Nat)) :=
    Respects.ite (respects_kzalloc _) (respects_pure _)
  exact hRest (s.setFs (lib.fStat path s.fs).2)

theorem respects_fatfsOpen (name : Str) (mode : BitVec 32) : Respects NextLe (fatfsOpen lib name mode) := by
  unfold fatfsOpen
  refine respects_bind (respects_kzalloc _) fun ptr => ?_
  cases ptr with
  | none => exact respects_pure _
  | some fp =>
      intro s
      have hRest : Respects NextLe (if (lib.fOpen name (mode.setWidth 8) s.fs).1.1 ≠ .frOk then
          kfree fp >>= fun _ => pure (-1) else pure 0 : OpenM δ Int) :=
        Respects.ite (respects_bind (respects_kfree _) fun _ => respects_pure _) (respects_pure _)
      exact hRest (s.setFs (lib.fOpen name (mode.setWidth 8) s.fs).2)

theorem respects_vfsOpenNew (mount : Mount) (path : Str) (pathbuff : Nat) (mode : BitVec 32) :
    Respects NextLe (vfsOpenNew lib kind mount path pathbuff mode) := by
  unfold vfsOpenNew
  refine respects_bind (respects_kzalloc _) fun ptr => ?_
  cases ptr with
  | none => exact respects_pure _
  | some dentry =>
      cases hKind : kind mount.mntFstype with
      | tmpfs => exact respects_bind (respects_kfree _) fun _ => respects_pure _
      | fatfs =>
          refine respects_bind (respects_fatfsLookup _) fun found => ?_
          cases found with
          | none => exact respects_bind (respects_kfree _) fun _ => respects_pure _
          | some fd =>
              refine respects_bind (respects_fatfsOpen _ _) fun ret => Respects.ite ?_ ?_
              · exact respects_bind (respects_kfree _) fun _ =>
                  respects_bind (respects_kfree _) fun _ => respects_pure _
              · exact respects_bind (fun _ => le_refl _) fun _ => respects_pure _

theorem respects_vfsOpen (filp : Nat) (path : Str) (mode : BitVec 32) :
    Respects NextLe (vfsOpen lib kind filp path mode) := by
  unfold vfsOpen
  refine respects_bind (respects_mountGetByName _) fun found => ?_
  cases found with
  | none => exact respects_pure _
  | some mount =>
      refine respects_bind (respects_kzalloc _) fun ptr => ?_
      cases ptr with
      | none => exact respects_bind (respects_kfree _) fun _ => respects_pure _
      | some pathbuff =>
          refine respects_bind respects_get fun s => ?_
          cases s.dentryList.find? fun d => d.pathname == path with
          | none => exact respects_vfsOpenNew _ _ _ _
          | some d =>
              exact respects_bind (respects_kfree _) fun _ =>
                respects_bind (fun _ => le_refl _) fun _ => respects_pure _

theorem respects_sysOpen (path : Str) (mode : BitVec 32) : Respects NextLe (sysOpen lib kind path mode) := by
  unfold sysOpen
  refine respects_bind (respects_kzalloc _) fun ptr => ?_
  cases ptr with
  | none => exact respects_pure _
  | some filp =>
      refine respects_bind (respects_vfsOpen _ _ _) fun opened => Respects.ite ?_ ?_
      · exact respects_bind (respects_kfree _) fun _ => respects_pure _
      · exact fun s => le_refl s.blocks.next

/-- The same lists, and no fewer numbers given out. -/
theorem Sound.same (hSound : s.Sound) (hDentries : t.dentryList = s.dentryList)
    (hFiles : t.fileList = s.fileList) (hNext : NextLe s t) : t.Sound := by
  constructor
  · rw [hDentries]
    exact hSound.addrs
  · intro d hd
    rw [hDentries] at hd
    exact lt_of_lt_of_le (hSound.dentry_lt d hd) hNext
  · intro d hd
    rw [hDentries] at hd
    exact hSound.referenced d hd
  · intro f hf
    rw [hFiles] at hf
    exact lt_of_lt_of_le (hSound.file_lt f hf) hNext

/-- A file of a new block. -/
theorem Sound.file_append (hSound : s.Sound) {fd : BitVec 32} {dentry : Nat}
    (hFiles : t.fileList = s.fileList ++ [⟨s.blocks.next, fd, dentry⟩])
    (hNext : s.blocks.next < t.blocks.next) : ∀ f ∈ t.fileList, f.addr < t.blocks.next := by
  intro f hf
  rw [hFiles, List.mem_append, List.mem_singleton] at hf
  rcases hf with hf | rfl
  · exact lt_trans (hSound.file_lt f hf) hNext
  · exact hNext

theorem sound_sysOpen {path : Str} {mode : BitVec 32} {r : Int} (hSound : s.Sound)
    (hRun : sysOpen lib kind path mode s = .ok r t) : t.Sound := by
  have hNext : NextLe s t := by
    have hRespects : Respects NextLe (sysOpen lib kind path mode) := respects_sysOpen path mode
    have := hRespects s
    rwa [hRun] at this
  cases hMount : Vfs.mountGet s.mountList path with
  | none =>
      obtain ⟨-, own, gone, hOpening⟩ := sysOpen_unmounted hMount hRun
      exact hSound.same hOpening.dentries hOpening.files hNext
  | some mount =>
      cases sysOpen_cases hMount hRun with
      | locked _ _ hOpening => exact hSound.same hOpening.dentries hOpening.files hNext
      | failed _ _ _ _ hOpening => exact hSound.same hOpening.dentries hOpening.files hNext
      | shared d _ hFind hState =>
          have hFiles : t.fileList = s.fileList ++ [⟨s.blocks.next, s.fdCount, d.addr⟩] := by
            simp [hState, OpenVfs.shared, looked]
          have hDentries : t.dentryList = refTaken s.dentryList d.addr := by simp [hState, OpenVfs.shared]
          have hBlocks : t.blocks.next = s.blocks.next + 3 := by simp [hState, OpenVfs.shared, looked]
          refine ⟨?_, ?_, ?_, ?_⟩
          · rw [hDentries, refTaken_addrs]
            exact hSound.addrs
          · intro x hx
            rw [hDentries] at hx
            have hMem : x.addr ∈ (refTaken s.dentryList d.addr).map Dentry.addr := List.mem_map_of_mem hx
            rw [refTaken_addrs] at hMem
            obtain ⟨y, hy, hAddr⟩ := List.mem_map.mp hMem
            have := hSound.dentry_lt y hy
            omega
          · intro x hx
            rw [hDentries] at hx
            obtain ⟨y, hy, rfl⟩ := List.mem_map.mp hx
            have := hSound.referenced y hy
            split
            · show 0 < y.dRef + 1
              omega
            · exact this
          · exact hSound.file_append hFiles (by omega)
      | entered _ _ _ _ hState =>
          have hFiles : t.fileList = s.fileList ++ [⟨s.blocks.next, s.fdCount, s.blocks.next + 3⟩] := by
            simp [hState, OpenVfs.entered, looked]
          have hDentries : t.dentryList =
              s.dentryList ++ [⟨s.blocks.next + 3, path, mount, 1, s.blocks.next + 4⟩] := by
            simp [hState, OpenVfs.entered]
          have hBlocks : t.blocks.next = s.blocks.next + 6 := by simp [hState, OpenVfs.entered, looked]
          refine ⟨?_, ?_, ?_, ?_⟩
          · rw [hDentries]
            refine KeyedList.nodup_append hSound.addrs fun y hy => ?_
            have := hSound.dentry_lt y hy
            show y.addr ≠ s.blocks.next + 3
            omega
          · intro x hx
            rw [hDentries, List.mem_append, List.mem_singleton] at hx
            rcases hx with hx | rfl
            · have := hSound.dentry_lt x hx
              omega
            · show s.blocks.next + 3 < t.blocks.next
              omega
          · intro x hx
            rw [hDentries, List.mem_append, List.mem_singleton] at hx
            rcases hx with hx | rfl
            · exact hSound.referenced x hx
            · show (0 : Int) < 1
              decide
          · exact hSound.file_append hFiles (by omega)

/-- Dropping a reference leaves none negative, and only that dentry can be without one. -/
theorem Sound.refDropped (hSound : s.Sound) {addr : Nat} {x : Dentry}
    (hx : x ∈ OpenVfs.refDropped s.dentryList addr) :
    0 ≤ x.dRef ∧ (x.addr ≠ addr → 0 < x.dRef) ∧ x.addr < s.blocks.next := by
  obtain ⟨y, hy, rfl⟩ := List.mem_map.mp hx
  have hRef := hSound.referenced y hy
  have hLt := hSound.dentry_lt y hy
  by_cases hAddr : y.addr = addr
  · rw [if_pos hAddr]
    refine ⟨?_, fun hNe => absurd hAddr hNe, hLt⟩
    show 0 ≤ y.dRef - 1
    omega
  · rw [if_neg hAddr]
    exact ⟨hRef.le, fun _ => hRef, hLt⟩

/-- A reference is dropped, and a dentry without one is taken off the list. -/
theorem CloseCase.sound {dentry : Nat} {r : Int} (hSound : s.Sound) (h : CloseCase kind s t dentry r) :
    t.Sound := by
  have hLooked : s.looked.blocks.next = s.blocks.next + 1 := by simp [looked]
  cases h with
  | unmounted d _ _ _ hHolds =>
      refine hSound.same hHolds.dentries hHolds.files ?_
      rw [NextLe, hHolds.blocks, hLooked]
      exact Nat.le_succ _
  | dropped d left _ hFind hLeft hRef hHolds =>
      have hNext : t.blocks.next = s.blocks.next + 1 := by rw [hHolds.blocks, hLooked]
      have hNodup : ((OpenVfs.refDropped s.dentryList d.addr).map Dentry.addr).Nodup := by
        rw [refDropped_addrs]
        exact hSound.addrs
      have hAddr : d.addr = dentry := by simpa using List.find?_some hFind
      have hLeftAddr : left.addr = dentry := by simpa using List.find?_some hLeft
      have hLeftMem := List.mem_of_find?_eq_some hLeft
      refine ⟨by rw [hHolds.dentries]; exact hNodup, ?_, ?_, ?_⟩
      · intro x hx
        rw [hHolds.dentries] at hx
        have := (hSound.refDropped hx).2.2
        omega
      · intro x hx
        rw [hHolds.dentries] at hx
        by_cases hEq : x.addr = d.addr
        · -- it is the dentry that still has references
          have hx' : x = left :=
            KeyedList.eq_of_key hNodup hx hLeftMem (by rw [hEq, hAddr, hLeftAddr])
          have := (hSound.refDropped hLeftMem).1
          rw [hx']
          omega
        · exact (hSound.refDropped hx).2.1 hEq
      · intro f hf
        rw [hHolds.files] at hf
        have := hSound.file_lt f hf
        omega
  | last d left mount _ hFind hMount hLeft hRef hHolds =>
      have hNext : t.blocks.next = s.blocks.next + 1 := by rw [hHolds.blocks, giveBackAll_next, hLooked]
      have hNodup : ((OpenVfs.refDropped s.dentryList d.addr).map Dentry.addr).Nodup := by
        rw [refDropped_addrs]
        exact hSound.addrs
      have hAddr : d.addr = dentry := by simpa using List.find?_some hFind
      have hLeftAddr : left.addr = d.addr := by
        rw [hAddr]
        simpa using List.find?_some hLeft
      have hRest : ∀ x ∈ t.dentryList, x ∈ OpenVfs.refDropped s.dentryList d.addr ∧ x.addr ≠ d.addr := by
        intro x hx
        have hErased : x ∈ (OpenVfs.refDropped s.dentryList d.addr).eraseP (fun y => y.addr == left.addr) ↔
            x ∈ OpenVfs.refDropped s.dentryList d.addr ∧ x.addr ≠ left.addr :=
          KeyedList.mem_eraseP_key hNodup (List.mem_of_find?_eq_some hLeft)
        rw [hHolds.dentries, ← hLeftAddr] at hx
        rw [hLeftAddr] at hx hErased
        exact hErased.mp hx
      refine ⟨?_, ?_, ?_, ?_⟩
      · rw [hHolds.dentries]
        exact KeyedList.nodup_eraseP hNodup
      · intro x hx
        have := (hSound.refDropped (hRest x hx).1).2.2
        omega
      · intro x hx
        exact (hSound.refDropped (hRest x hx).1).2.1 (hRest x hx).2
      · intro f hf
        rw [hHolds.files] at hf
        have := hSound.file_lt f hf
        omega

theorem sound_sysClose {fd : BitVec 32} {r : Int} (hSound : s.Sound)
    (hRun : sysClose ops kind fd s = .ok r t) : t.Sound := by
  rcases sysClose_cases hRun with ⟨-, -, rfl⟩ | ⟨filp, -, ⟨-, hCase⟩ | ⟨t1, hCase, -, hHolds⟩⟩
  · exact hSound
  · exact hCase.sound hSound
  · have hClosed := hCase.sound hSound
    have hFiles : t1.fileList = s.fileList := (hCase.closed (by decide)).2.files
    have hNext : t.blocks.next = t1.blocks.next := by rw [hHolds.blocks, giveBack_next]
    refine ⟨?_, ?_, ?_, ?_⟩
    · rw [hHolds.dentries]
      exact hClosed.addrs
    · intro d hd
      rw [hHolds.dentries] at hd
      rw [hNext]
      exact hClosed.dentry_lt d hd
    · intro d hd
      rw [hHolds.dentries] at hd
      exact hClosed.referenced d hd
    · intro f hf
      rw [hHolds.files] at hf
      rw [hNext]
      exact hClosed.file_lt f (hFiles ▸ List.mem_of_mem_eraseP hf)

/-- The calls on paths and descriptors. -/
inductive FileCall where
  | stat (path : Str)
  | open (path : Str) (mode : BitVec 32)
  | read (fd : BitVec 32) (size : Nat)
  | close (fd : BitVec 32)

/-- A call that returns leads from a state to a state. -/
inductive Calls (lib : FatLib φ δ) (ops : FileOps δ) (kind : Nat → FsKind) (s t : OpenVfs δ) : FileCall → Prop where
  | stat {path : Str} {r : Int × Option Nat} (hRun : sysStat lib ops kind path s = .ok r t) :
      Calls lib ops kind s t (.stat path)
  | open {path : Str} {mode : BitVec 32} {r : Int} (hRun : sysOpen lib kind path mode s = .ok r t) :
      Calls lib ops kind s t (.open path mode)
  | read {fd : BitVec 32} {size : Nat} {r : Int × List (BitVec 8)}
      (hRun : sysRead ops kind fd size s = .ok r t) : Calls lib ops kind s t (.read fd size)
  | close {fd : BitVec 32} {r : Int} (hRun : sysClose ops kind fd s = .ok r t) :
      Calls lib ops kind s t (.close fd)

theorem Sound.looked (hSound : s.Sound) (disk : δ) : (s.looked.setFs disk).Sound := by
  refine hSound.same ?_ ?_ ?_
  · simp [OpenVfs.looked]
  · simp [OpenVfs.looked]
  · show s.blocks.next ≤ (s.looked.setFs disk).blocks.next
    simp [OpenVfs.looked]

theorem Sound.took (hSound : s.Sound) : s.took.Sound := hSound.same rfl rfl (Nat.le_succ _)

theorem sound_calls {call : FileCall} (hSound : s.Sound) (hCall : Calls lib ops kind s t call) : t.Sound := by
  cases hCall with
  | stat hRun =>
      rcases sysStat_cases hRun with ⟨-, -, rfl⟩ | ⟨mount, -, -, rfl⟩
      · exact hSound.looked s.fs
      · exact hSound.looked _
  | «open» hRun => exact sound_sysOpen hSound hRun
  | read hRun =>
      rcases sysRead_cases hRun with ⟨-, rfl⟩ | ⟨-, disk, rfl⟩
      · exact hSound
      · exact hSound.looked disk
  | close hRun => exact sound_sysClose hSound hRun

/-- From lists without files and dentries, every sequence of calls leads to a state with sound lists. -/
theorem sound_of_run (hFiles : s.fileList = []) (hDentries : s.dentryList = [])
    (hRun : Relation.ReflTransGen (fun s t => ∃ call, Calls lib ops kind s t call) s t) : t.Sound := by
  induction hRun with
  | refl =>
      constructor
      · simp [hDentries]
      · simp [hDentries]
      · simp [hDentries]
      · simp [hFiles]
  | tail _ hStep ih =>
      obtain ⟨call, hCall⟩ := hStep
      exact sound_calls ih hCall

end OpenVfs

end Rayos
