import Rayos.Fs.Fatfs

/-!
# Error numbers from the FAT library to the system calls (`fatfs.c`, `vfs.c`, `syscalls.c`)

The virtual file system reports an error by a negative number.  The FAT library reports one by a
positive `FRESULT`.  Of the operations of `fatfs.c` only `fatfs_lookup` and `fatfs_open` translate;
`fatfs_read`, `fatfs_write`, `fatfs_stat` and `fatfs_creat` hand the `FRESULT` on, and the callers
take it for a success.

The library is a parameter: any functions that return an `FRESULT` and change the state of the library,
disk included.  `Failed` says, for a system call in a state, that a lookup or a call of the library
that it gets to fails; `Conforms` is the condition under which the sign of its result tells.
-/

namespace Rayos

open Program CString Vfs

/-- `FRESULT`. -/
inductive FResult where
  | frOk
  | frDiskErr
  | frIntErr
  | frNotReady
  | frNoFile
  | frNoPath
  | frInvalidName
  | frDenied
  | frExist
  | frInvalidObject
  | frWriteProtected
  | frInvalidDrive
  | frNotEnabled
  | frNoFilesystem
  | frMkfsAborted
  | frTimeout
  | frLocked
  | frNotEnoughCore
  | frTooManyOpenFiles
  | frInvalidParameter
  deriving DecidableEq

namespace FResult

/-- The number of a result: 0 for success, positive otherwise. -/
def code (res : FResult) : Nat := res.ctorIdx

theorem code_lt (res : FResult) : res.code < 20 := by
  cases res <;> decide

end FResult

/-- `FILINFO`, without the fields that are not looked at. -/
structure Filinfo where
  fattrib : BitVec 8
  fsize : Nat

/-- `AM_DIR`. -/
def amDir : BitVec 8 := 0x10#8

/-- `FA_CREATE_NEW`. -/
def faCreateNew : BitVec 8 := 0x04#8

/-- The FAT library: what its calls return and what they make of the file object and of the state of
the library.  `f_read` returns the bytes it has stored, `f_write` how many it has taken. -/
structure FatLib (φ δ : Type) where
  fStat : Str → δ → (FResult × Filinfo) × δ
  fOpen : Str → BitVec 8 → δ → (FResult × φ) × δ
  fRead : φ → Nat → δ → (FResult × List (BitVec 8) × φ) × δ
  fWrite : φ → List (BitVec 8) → δ → (FResult × Nat × φ) × δ
  fSync : φ → δ → (FResult × φ) × δ
  fClose : φ → δ → FResult × δ

/-- `struct fatfs_dentry` with a file object of the library. -/
structure FatDentry (φ : Type) where
  name : Str
  data : Option φ

/-- The state of the file system: the library's, and the private data of the dentries. -/
structure FatDisk (φ δ : Type) where
  lib : δ
  dentries : List (FatDentry φ)
  /-- Which of its calls of `kzalloc` find memory. -/
  memory : Nat → Bool
  kzallocs : Nat

/-- The operations of `struct file_system_operations` that take a path.  `stat` returns the `st_size`
it has stored, if it has.  `creat` is given the rounds it may take; `none` is a call that is still
running then. -/
structure PathOperations (σ : Type) where
  fsStat : Option (Str → σ → (Int × Option Nat) × σ)
  fsCreat : Nat → Str → BitVec 32 → σ → Option (Int × σ)

namespace FatDisk

variable {φ δ : Type} (lib : FatLib φ δ)

/-- `kzalloc`: whether there was memory. -/
def kzalloc (fs : FatDisk φ δ) : Bool × FatDisk φ δ :=
  (fs.memory fs.kzallocs, { fs with kzallocs := fs.kzallocs + 1 })

/-- The private data at `fd` gets the file object `fil`. -/
def setData (fs : FatDisk φ δ) (fd : Nat) (fil : Option φ) : FatDisk φ δ :=
  { fs with dentries := fs.dentries.modify fd fun d => { d with data := fil } }

/-- The file object of the private data at `fd`. -/
def fileObject (fs : FatDisk φ δ) (fd : Nat) : Option φ := fs.dentries[fd]?.bind FatDentry.data

/-- `fatfs_lookup`. -/
def fatfsLookup (path : Str) (fs : FatDisk φ δ) : Option Nat × FatDisk φ δ :=
  let ((res, _), disk) := lib.fStat path fs.lib
  let fs := { fs with lib := disk }
  if res = .frOk then
    let (ok, fs) := fs.kzalloc
    if ok then (some fs.dentries.length, { fs with dentries := fs.dentries ++ [⟨path, none⟩] })
    else (none, fs)
  else (none, fs)

/-- `fatfs_open`; the mode is converted to a byte. -/
def fatfsOpen (fd : Nat) (mode : BitVec 32) (fs : FatDisk φ δ) : Int × FatDisk φ δ :=
  let (ok, fs) := fs.kzalloc
  if ok then
    match fs.dentries[fd]? with
    | none => (-1, fs)
    | some d =>
        let ((res, fp), disk) := lib.fOpen d.name (mode.setWidth 8) fs.lib
        let fs := { fs with lib := disk }
        if res ≠ .frOk then (-1, fs) else (0, fs.setData fd (some fp))
  else (-1, fs)

/-- `fatfs_release`. -/
def fatfsRelease (fd : Nat) (fs : FatDisk φ δ) : FatDisk φ δ :=
  match fs.fileObject fd with
  | none => fs
  | some fp => { fs.setData fd none with lib := (lib.fClose fp fs.lib).2 }

/-- `f_read` on the file object of the private data at `fd`; the library refuses a null pointer. -/
def fRead (fs : FatDisk φ δ) (fd len : Nat) : (FResult × List (BitVec 8)) × FatDisk φ δ :=
  match fs.fileObject fd with
  | none => ((.frInvalidObject, []), fs)
  | some fp =>
      let ((res, bytes, fp), disk) := lib.fRead fp (uintOfSize len) fs.lib
      ((res, bytes), { fs.setData fd (some fp) with lib := disk })

/-- `f_write` on the file object of the private data at `fd`. -/
def fWrite (fs : FatDisk φ δ) (fd : Nat) (buf : List (BitVec 8)) :
    (FResult × Nat) × FatDisk φ δ :=
  match fs.fileObject fd with
  | none => ((.frInvalidObject, 0), fs)
  | some fp =>
      let ((res, ret, fp), disk) := lib.fWrite fp (buf.take (uintOfSize buf.length)) fs.lib
      ((res, ret), { fs.setData fd (some fp) with lib := disk })

/-- What `fatfs_read` and `fatfs_write` return for the result `res` and the count `ret`, a `UINT`. -/
def accessReturn (res : FResult) (ret : Nat) : Int :=
  if res ≠ .frOk then res.code else uintOfSize ret

/-- `fatfs_read`. -/
def fatfsRead (fd len : Nat) (fs : FatDisk φ δ) : (Int × List (BitVec 8)) × FatDisk φ δ :=
  let ((res, bytes), fs) := fRead lib fs fd len
  ((accessReturn res bytes.length, bytes), fs)

/-- `fatfs_write`. -/
def fatfsWrite (fd : Nat) (buf : List (BitVec 8)) (fs : FatDisk φ δ) : Int × FatDisk φ δ :=
  let ((res, ret), fs) := fWrite lib fs fd buf
  (accessReturn res ret, fs)

/-- `fatfs_stat`; the size of a directory is not stored. -/
def fatfsStat (pathname : Str) (fs : FatDisk φ δ) : (Int × Option Nat) × FatDisk φ δ :=
  let ((res, fno), disk) := lib.fStat pathname fs.lib
  let fs := { fs with lib := disk }
  if res = .frOk then
    if fno.fattrib &&& amDir ≠ 0#8 then ((res.code, none), fs) else ((res.code, some fno.fsize), fs)
  else ((res.code, none), fs)

/-- `do { res = f_sync(&fp); } while (res != FR_OK);` -/
def fSyncUntilOk : Nat → φ → δ → Option (φ × δ)
  | 0, _, _ => none
  | rounds + 1, fp, disk =>
      let ((res, fp), disk) := lib.fSync fp disk
      if res = .frOk then some (fp, disk) else fSyncUntilOk rounds fp disk

/-- `fatfs_creat`; `oSync` is `O_SYNC` of the C library. -/
def fatfsCreat (oSync : BitVec 32) (rounds : Nat) (path : Str) (mode : BitVec 32)
    (fs : FatDisk φ δ) : Option (Int × FatDisk φ δ) :=
  let ((res, fp), disk) := lib.fOpen path faCreateNew fs.lib
  if res ≠ .frOk then some (res.code, { fs with lib := disk })
  else
    match if mode &&& oSync ≠ 0#32 then fSyncUntilOk lib rounds fp disk else some (fp, disk) with
    | none => none
    | some (fp, disk) =>
        let (res, disk) := lib.fClose fp disk
        if res ≠ .frOk then some (res.code, { fs with lib := disk })
        else some (0, { fs with lib := disk })

/-- `fs_ops` of `fatfs.c`, the operations on files. -/
def fsOps : FileSystemOperations (FatDisk φ δ) where
  fsLookup := some (fatfsLookup lib)
  fsOpen := fatfsOpen lib
  fsRelease := fatfsRelease lib
  fsRead := some (fatfsRead lib)
  fsWrite := some (fatfsWrite lib)

/-- `fs_ops` of `fatfs.c`, the operations on paths. -/
def pathOps (oSync : BitVec 32) : PathOperations (FatDisk φ δ) where
  fsStat := some (fatfsStat lib)
  fsCreat := fatfsCreat lib oSync

end FatDisk

namespace Vfs

variable {σ : Type} (paths : Nat → PathOperations σ)

/-- `vfs_stat`: the result, and the `st_size` that has been stored. -/
def vfsStat (pathname : Str) : VfsM σ (Int × Option Nat) := do
  match ← mountGetByName pathname with
  | none => pure (-1, none)
  | some mnt =>
      match (paths mnt.mntFstype).fsStat with
      | none => pure (-enodev, none)
      | some stat => do
          let s ← get
          set { s with fs := (stat pathname s.fs).2 }
          pure (stat pathname s.fs).1

/-- `sys_stat`. -/
def sysStat (pathname : Str) : VfsM σ (Int × Option Nat) := vfsStat paths pathname

/-- `vfs_creat`. -/
def vfsCreat (rounds : Nat) (pathname : Str) (mode : BitVec 32) : VfsM σ Int := do
  match ← mountGetByName pathname with
  | none => pure (-enodev)
  | some mount => do
      let s ← get
      match (paths mount.mntFstype).fsCreat rounds pathname mode s.fs with
      | none => throw .hang
      | some (ret, fs) => do
          set { s with fs := fs }
          pure ret

/-- `sys_creat`. -/
def sysCreat (rounds : Nat) (pathname : Str) (mode : BitVec 32) : VfsM σ Int := do
  match ← kzalloc (pathname.length + 1) with
  | none => pure (-enomem)
  | some _ => do
      let ret ← vfsCreat paths rounds pathname mode
      kfree
      pure ret

/-- How `run_process` goes on from its call of `sys_stat`. -/
inductive StatUse where
  /-- It returns `-1`. -/
  | stopped
  /-- It asks for `sb.st_size` bytes; `none` is a `sb` that was never written. -/
  | used (stSize : Option Nat)
  deriving DecidableEq

/-- The beginning of `run_process`, up to the first use of `sb`. -/
def runProcessStat (pathname : Str) : VfsM σ StatUse := do
  let (ret, stSize) ← sysStat paths pathname
  if ret < 0 then pure .stopped else pure (.used stSize)

end Vfs

/-! ## When a call fails, and when its result says so -/

section Errors

variable {φ δ : Type} (lib : FatLib φ δ) (oSync : BitVec 32) (rounds : Nat)

/-- The system calls that reach the FAT library. -/
inductive FatSyscall where
  | sysOpen (path : Str) (mode : BitVec 32)
  | sysRead (fd : BitVec 32) (size : Nat)
  | sysWrite (fd : BitVec 32) (buf : List (BitVec 8))
  | sysStat (path : Str)
  | sysCreat (path : Str) (mode : BitVec 32)

/-- The number that a call returns, with FAT file systems mounted. -/
def fatSyscall : FatSyscall → VfsM (FatDisk φ δ) Int
  | .sysOpen path mode => Vfs.sysOpen (fun _ => FatDisk.fsOps lib) path mode
  | .sysRead fd size => do return (← Vfs.sysRead (fun _ => FatDisk.fsOps lib) fd size).1
  | .sysWrite fd buf => Vfs.sysWrite (fun _ => FatDisk.fsOps lib) fd buf
  | .sysStat path => do return (← Vfs.sysStat (fun _ => FatDisk.pathOps lib oSync) path).1
  | .sysCreat path mode => Vfs.sysCreat (fun _ => FatDisk.pathOps lib oSync) rounds path mode

/-- The dentry that a descriptor reaches: the one of its file, if the path still has a mount. -/
def reachedDentry {σ : Type} (s : Vfs σ) (fd : BitVec 32) : Option Dentry :=
  match fileOf s.fileList fd with
  | none => none
  | some filp =>
      match s.dentryList.find? fun d => d.addr == filp.dentry with
      | none => none
      | some d => if mountGet s.mountList d.pathname = none then none else some d

/-- `f_stat` of a path fails. -/
def StatFails (path : Str) (s : Vfs (FatDisk φ δ)) : Prop := (lib.fStat path s.fs.lib).1.1 ≠ .frOk

/-- `f_open`, called after `f_stat` of the same path, fails. -/
def OpenFails (path : Str) (mode : BitVec 32) (s : Vfs (FatDisk φ δ)) : Prop :=
  (lib.fOpen path (mode.setWidth 8) (lib.fStat path s.fs.lib).2).1.1 ≠ .frOk

/-- `f_open` of a new file, or the `f_close` after it, fails; `f_sync` is repeated until it does not. -/
def CreatFails (path : Str) (mode : BitVec 32) (s : Vfs (FatDisk φ δ)) : Prop :=
  let ((res, fp), disk) := lib.fOpen path faCreateNew s.fs.lib
  res ≠ .frOk ∨ ∀ fp' disk',
    (if mode &&& oSync ≠ 0#32 then FatDisk.fSyncUntilOk lib rounds fp disk else some (fp, disk)) =
      some (fp', disk') → (lib.fClose fp' disk').1 ≠ .frOk

/-- The first `kzalloc` of a call finds memory. -/
def FirstBlock {σ : Type} (s : Vfs σ) : Prop := s.heap.memory s.heap.kzallocs = true

/-- The path has no dentry yet. -/
def NewPath {σ : Type} (path : Str) (s : Vfs σ) : Prop :=
  s.dentryList.find? (fun d => d.pathname == path) = none

/-- `fatfs_lookup` and `fatfs_open` find memory for what they allocate. -/
def FatBlocks (s : Vfs (FatDisk φ δ)) : Prop :=
  s.fs.memory s.fs.kzallocs = true ∧ s.fs.memory (s.fs.kzallocs + 1) = true

/-- A lookup of the descriptor or of the mount, or a call of the library, that the system call gets to
fails. -/
def Failed (s : Vfs (FatDisk φ δ)) : FatSyscall → Prop
  | .sysOpen path mode =>
      FirstBlock s ∧ (mountGet s.mountList path = none ∨
        NewPath path s ∧ (StatFails lib path s ∨ FatBlocks s ∧ OpenFails lib path mode s))
  | .sysRead fd size =>
      ∀ d, reachedDentry s fd = some d →
        (FatDisk.fRead lib s.fs d.privateData size).1.1 ≠ .frOk
  | .sysWrite fd buf =>
      ∀ d, reachedDentry s fd = some d →
        (FatDisk.fWrite lib s.fs d.privateData buf).1.1 ≠ .frOk
  | .sysStat path => mountGet s.mountList path = none ∨ StatFails lib path s
  | .sysCreat path mode =>
      FirstBlock s ∧ (mountGet s.mountList path = none ∨ CreatFails lib oSync rounds path mode s)

/-- The condition under which the sign of the result tells whether the call has failed: it has memory,
`f_read`, `f_write`, `f_stat` and the calls of `fatfs_creat` succeed, and the descriptor or the count
that is returned is below `2 ^ 31`. -/
def Conforms (s : Vfs (FatDisk φ δ)) : FatSyscall → Prop
  | .sysOpen path mode =>
      FirstBlock s ∧ (mountGet s.mountList path = none ∨
        NewPath path s ∧ (StatFails lib path s ∨ FatBlocks s ∧ OpenFails lib path mode s) ∨
        (NewPath path s → FatBlocks s) ∧ s.fdCount.toNat < 2 ^ 31)
  | .sysRead fd size =>
      ∀ d, reachedDentry s fd = some d →
        (FatDisk.fRead lib s.fs d.privateData size).1.1 = .frOk ∧
          uintOfSize (FatDisk.fRead lib s.fs d.privateData size).1.2.length < 2 ^ 31
  | .sysWrite fd buf =>
      ∀ d, reachedDentry s fd = some d →
        (FatDisk.fWrite lib s.fs d.privateData buf).1.1 = .frOk ∧
          uintOfSize (FatDisk.fWrite lib s.fs d.privateData buf).1.2 < 2 ^ 31
  | .sysStat path => mountGet s.mountList path = none ∨ ¬ StatFails lib path s
  | .sysCreat path mode =>
      FirstBlock s ∧ (mountGet s.mountList path = none ∨ ¬ CreatFails lib oSync rounds path mode s)

variable {lib oSync rounds} {s s' : Vfs (FatDisk φ δ)}

/-! ### `sys_read` and `sys_write` -/

theorem intOfSsize_neg_iff {n : Nat} (h : n < 2 ^ 32) : intOfSsize n < 0 ↔ ¬ n < 2 ^ 31 := by
  unfold intOfSsize
  rw [BitVec.ofInt_natCast, BitVec.toInt_eq_toNat_cond, BitVec.toNat_ofNat, Nat.mod_eq_of_lt h]
  split <;> omega

/-- A count is negative as an `int` from `2 ^ 31` on, an `FRESULT` never is. -/
theorem accessReturn_neg_iff (res : FResult) (ret : Nat) :
    intOfSsize (FatDisk.accessReturn res ret) < 0 ↔ res = .frOk ∧ ¬ uintOfSize ret < 2 ^ 31 := by
  unfold FatDisk.accessReturn
  by_cases hOk : res = .frOk
  · have hLt : uintOfSize ret < 2 ^ 32 := Nat.mod_lt _ (by decide)
    rw [if_neg (by simp [hOk]), intOfSsize_neg_iff hLt]
    simp [hOk]
  · have hLt := res.code_lt
    rw [if_pos hOk, intOfSsize_neg_iff (by omega)]
    simp only [hOk, false_and, iff_false, not_not]
    omega

/-- The part that `vfs_read` and `vfs_write` share: if the result is `ret` on the dentry that the
descriptor reaches, and negative if it reaches none, its sign tells in the stated cases. -/
theorem access_conforms {r : Int} {reached : Option Dentry} {res : Dentry → FResult}
    {ret : Dentry → Nat} (hNone : reached = none → r < 0)
    (hSome : ∀ d, reached = some d → r = intOfSsize (FatDisk.accessReturn (res d) (ret d))) :
    (r < 0 ↔ ∀ d, reached = some d → res d ≠ .frOk) ↔
      ∀ d, reached = some d → res d = .frOk ∧ uintOfSize (ret d) < 2 ^ 31 := by
  cases reached with
  | none => simp [hNone rfl]
  | some d =>
      simp only [hSome d rfl, accessReturn_neg_iff, Option.some.injEq, forall_eq']
      by_cases hOk : res d = .frOk <;> simp [hOk]

theorem sysRead_result {fd : BitVec 32} {size : Nat} {r : Int × List (BitVec 8)}
    (hRun : Vfs.sysRead (fun _ => FatDisk.fsOps lib) fd size s = .ok r s') :
    (reachedDentry s fd = none → r.1 < 0) ∧
      ∀ d, reachedDentry s fd = some d →
        r.1 = intOfSsize (FatDisk.accessReturn (FatDisk.fRead lib s.fs d.privateData size).1.1
          (FatDisk.fRead lib s.fs d.privateData size).1.2.length) := by
  simp only [Vfs.sysRead, bind_eq_ok] at hRun
  obtain ⟨_, s2, hState, hRun⟩ := hRun
  cases hState
  unfold reachedDentry
  cases hFile : fileOf s.fileList fd with
  | none =>
      simp only [hFile] at hRun
      cases hRun
      simp [enoent]
  | some filp =>
      simp only [hFile, vfsRead, bind_eq_ok] at hRun
      obtain ⟨d, s3, hAt, m, s4, hGet, hRun⟩ := hRun
      obtain ⟨rfl, hFind⟩ := dentryAt_eq_ok hAt
      obtain ⟨-, -, hFs, rfl⟩ := mountGetByName_eq_ok hGet
      cases hMount : mountGet s3.mountList d.pathname with
      | none =>
          simp only [hMount] at hRun
          cases hRun
          simp [hFind, hMount, enodev]
      | some m =>
          simp only [hMount, FatDisk.fsOps, bind_eq_ok] at hRun
          obtain ⟨_, s5, hCall, hRun⟩ := hRun
          cases hCall
          cases hRun
          simp [hFind, hMount, FatDisk.fatfsRead, hFs]

theorem sysWrite_result {fd : BitVec 32} {buf : List (BitVec 8)} {r : Int}
    (hRun : Vfs.sysWrite (fun _ => FatDisk.fsOps lib) fd buf s = .ok r s') :
    (reachedDentry s fd = none → r < 0) ∧
      ∀ d, reachedDentry s fd = some d →
        r = intOfSsize (FatDisk.accessReturn (FatDisk.fWrite lib s.fs d.privateData buf).1.1
          (FatDisk.fWrite lib s.fs d.privateData buf).1.2) := by
  simp only [Vfs.sysWrite, bind_eq_ok] at hRun
  obtain ⟨_, s2, hState, hRun⟩ := hRun
  cases hState
  unfold reachedDentry
  cases hFile : fileOf s.fileList fd with
  | none =>
      simp only [hFile] at hRun
      cases hRun
      simp [enoent]
  | some filp =>
      simp only [hFile, vfsWrite, bind_eq_ok] at hRun
      obtain ⟨d, s3, hAt, m, s4, hGet, hRun⟩ := hRun
      obtain ⟨rfl, hFind⟩ := dentryAt_eq_ok hAt
      obtain ⟨-, -, hFs, rfl⟩ := mountGetByName_eq_ok hGet
      cases hMount : mountGet s3.mountList d.pathname with
      | none =>
          simp only [hMount] at hRun
          cases hRun
          simp [hFind, hMount, enodev]
      | some m =>
          simp only [hMount, FatDisk.fsOps, bind_eq_ok] at hRun
          obtain ⟨_, s5, hCall, hRun⟩ := hRun
          cases hCall
          cases hRun
          simp [hFind, hMount, FatDisk.fatfsWrite, hFs]

/-! ### `sys_stat` and `sys_creat` -/

/-- `sys_stat` returns a negative number only for a path without a mount; where `f_stat` fails, no size
has been stored. -/
theorem sysStat_result {path : Str} {r : Int × Option Nat}
    (hRun : Vfs.sysStat (fun _ => FatDisk.pathOps lib oSync) path s = .ok r s') :
    (r.1 < 0 ↔ mountGet s.mountList path = none) ∧ (StatFails lib path s → r.2 = none) := by
  simp only [Vfs.sysStat, vfsStat, bind_eq_ok] at hRun
  obtain ⟨m, s1, hGet, hRun⟩ := hRun
  obtain ⟨-, -, hFs, rfl⟩ := mountGetByName_eq_ok hGet
  cases hMount : mountGet s.mountList path with
  | none =>
      simp only [hMount] at hRun
      cases hRun
      simp
  | some m =>
      simp only [hMount, FatDisk.pathOps, bind_eq_ok] at hRun
      obtain ⟨_, s2, hState, _, s3, hSet, hRun⟩ := hRun
      cases hState
      cases hSet
      cases hRun
      unfold FatDisk.fatfsStat
      rw [hFs]
      by_cases hOk : (lib.fStat path s.fs.lib).1.1 = .frOk
      · simp only [hOk, if_true, StatFails, ne_eq, not_true_eq_false, false_imp_iff, and_true]
        split <;> simp
      · simp [hOk]

/-- A request of some bytes fails exactly when there is no memory for it. -/
theorem kzalloc_none_iff {σ : Type} {s s' : Vfs σ} {size : Nat} {ptr : Option Nat}
    (hSize : size ≠ 0) (hRun : kzalloc size s = .ok ptr s') : ptr = none ↔ ¬ FirstBlock s := by
  unfold kzalloc KernelHeap.kzalloc at hRun
  unfold FirstBlock
  by_cases hLock : s.heap.mmSpinlock = true
  · simp only [hLock, if_true] at hRun
    cases hRun
  · by_cases hMemory : s.heap.memory s.heap.kzallocs = true
    · simp only [hLock, hSize, hMemory, ne_eq, not_false_eq_true, and_self, if_true] at hRun
      cases hRun
      simp [hMemory]
    · rw [if_neg hLock, if_neg (fun h => hMemory h.2)] at hRun
      cases hRun
      simp [hMemory]

theorem fatfsCreat_nonneg {path : Str} {mode : BitVec 32} {fs fs' : FatDisk φ δ} {ret : Int}
    (hRun : FatDisk.fatfsCreat lib oSync rounds path mode fs = some (ret, fs')) : 0 ≤ ret := by
  simp only [FatDisk.fatfsCreat] at hRun
  split at hRun
  · cases hRun
    omega
  · split at hRun
    · cases hRun
    · split at hRun
      · cases hRun
        omega
      · cases hRun
        omega

/-- `sys_creat` returns a negative number only without memory and for a path without a mount. -/
theorem sysCreat_result {path : Str} {mode : BitVec 32} {r : Int}
    (hRun : Vfs.sysCreat (fun _ => FatDisk.pathOps lib oSync) rounds path mode s = .ok r s') :
    r < 0 ↔ ¬ FirstBlock s ∨ mountGet s.mountList path = none := by
  simp only [Vfs.sysCreat, bind_eq_ok] at hRun
  obtain ⟨ptr, s1, hAlloc, hRun⟩ := hRun
  have hFirst := kzalloc_none_iff (Nat.succ_ne_zero _) hAlloc
  obtain ⟨hQuiet, -, -, -⟩ := kzalloc_eq_ok hAlloc
  cases ptr with
  | none =>
      cases hRun
      simp [hFirst.mp rfl, enomem]
  | some a =>
      have hMemory : FirstBlock s := by
        by_contra hNot
        exact absurd (hFirst.mpr hNot) (by simp)
      simp only [vfsCreat, bind_eq_ok] at hRun
      obtain ⟨ret, s2, ⟨m, s3, hGet, hCreat⟩, _, s4, hFree, hRun⟩ := hRun
      cases hRun
      obtain ⟨-, -, -, rfl⟩ := mountGetByName_eq_ok hGet
      rw [hQuiet.mounts] at hCreat
      cases hMount : mountGet s.mountList path with
      | none =>
          simp only [hMount] at hCreat
          cases hCreat
          simp [enodev]
      | some m =>
          simp only [hMount, FatDisk.pathOps, bind_eq_ok] at hCreat
          obtain ⟨_, s5, hState, hCreat⟩ := hCreat
          cases hState
          cases hRes : FatDisk.fatfsCreat lib oSync rounds path mode s3.fs with
          | none =>
              simp only [hRes] at hCreat
              cases hCreat
          | some p =>
              simp only [hRes, bind_eq_ok] at hCreat
              obtain ⟨_, s6, hSet, hCreat⟩ := hCreat
              cases hCreat
              have hNonneg := fatfsCreat_nonneg hRes
              simp only [hMemory, not_true_eq_false, reduceCtorEq, or_self, iff_false]
              omega

/-! ### `sys_open` -/

/-- `fatfs_lookup` followed by `fatfs_open`: a negative result, or none, exactly when the library or
the memory fails. -/
theorem fatfsLookup_none_iff (path : Str) (s : Vfs (FatDisk φ δ)) :
    (FatDisk.fatfsLookup lib path s.fs).1 = none ↔
      StatFails lib path s ∨ s.fs.memory s.fs.kzallocs = false := by
  unfold FatDisk.fatfsLookup StatFails FatDisk.kzalloc
  by_cases hOk : (lib.fStat path s.fs.lib).1.1 = .frOk
  · cases hMemory : s.fs.memory s.fs.kzallocs <;> simp [hOk, hMemory]
  · simp [hOk]

theorem fatfsOpen_neg_iff {path : Str} {mode : BitVec 32} {privateData : Nat}
    (hFound : (FatDisk.fatfsLookup lib path s.fs).1 = some privateData) :
    (FatDisk.fatfsOpen lib privateData mode (FatDisk.fatfsLookup lib path s.fs).2).1 < 0 ↔
      s.fs.memory (s.fs.kzallocs + 1) = false ∨ OpenFails lib path mode s := by
  have hSome : ¬ (StatFails lib path s ∨ s.fs.memory s.fs.kzallocs = false) := by
    rw [← fatfsLookup_none_iff, hFound]
    simp
  rw [not_or, StatFails, not_not, Bool.not_eq_false] at hSome
  obtain ⟨hOk, hMemory⟩ := hSome
  simp only [FatDisk.fatfsLookup, FatDisk.kzalloc, hOk, hMemory, if_true, Option.some.injEq]
    at hFound ⊢
  subst hFound
  unfold FatDisk.fatfsOpen OpenFails FatDisk.kzalloc
  cases hMemory' : s.fs.memory (s.fs.kzallocs + 1) with
  | false => simp
  | true =>
      by_cases hOpen : (lib.fOpen path (mode.setWidth 8) (lib.fStat path s.fs.lib).2).1.1 = .frOk
      · simp [hOpen]
      · simp [hOpen]

/-- The part of `vfs_open` that makes a new dentry, when its result is not lost to a held lock. -/
theorem vfsOpenNew_neg_iff {m : Mount} {path : Str} {mode : BitVec 32} {p : Int × Nat}
    (hRun : vfsOpenNew (fun _ => FatDisk.fsOps lib) m path mode s = .ok p s')
    (hLock : p.1 < 0 → s'.heap.mmSpinlock = false) :
    p.1 < 0 ↔ StatFails lib path s ∨ ¬ FatBlocks s ∨ OpenFails lib path mode s := by
  simp only [vfsOpenNew, bind_eq_ok] at hRun
  obtain ⟨ptr, s1, hAlloc, hRun⟩ := hRun
  obtain ⟨-, -, hFs, hPtr⟩ := kzalloc_eq_ok hAlloc
  rcases hPtr with ⟨rfl, hHeld⟩ | ⟨rfl, -⟩
  · cases hRun
    exact absurd (hLock (by decide)) (by simp [hHeld])
  simp only [FatDisk.fsOps, bind_eq_ok] at hRun
  obtain ⟨found, s2, hCall, hRun⟩ := hRun
  cases hCall
  rw [hFs] at hRun
  have hLookup : (FatDisk.fatfsLookup lib path s.fs).1 = none ↔ _ := fatfsLookup_none_iff path s
  cases hFound : (FatDisk.fatfsLookup lib path s.fs).1 with
  | none =>
      simp only [hFound, bind_eq_ok] at hRun
      obtain ⟨_, s3, hFree, hRun⟩ := hRun
      cases hRun
      have hWhy := hLookup.mp hFound
      simp only [enoent, FatBlocks]
      rcases hWhy with hStat | hMemory
      · simp [hStat]
      · simp [hMemory]
  | some privateData =>
      have hFine : ¬ (StatFails lib path s ∨ s.fs.memory s.fs.kzallocs = false) := by
        rw [← hLookup, hFound]
        simp
      rw [not_or, Bool.not_eq_false] at hFine
      have hWhy : (FatDisk.fatfsOpen lib privateData mode
          (FatDisk.fatfsLookup lib path s.fs).2).1 < 0 ↔
            StatFails lib path s ∨ ¬ FatBlocks s ∨ OpenFails lib path mode s := by
        rw [fatfsOpen_neg_iff hFound]
        simp [hFine.1, hFine.2, FatBlocks]
      simp only [hFound, bind_eq_ok] at hRun
      obtain ⟨ret, s3, hCall, hRun⟩ := hRun
      cases hCall
      split at hRun
      · rename_i hNeg
        simp only [bind_eq_ok] at hRun
        obtain ⟨_, s4, -, _, s5, -, hRun⟩ := hRun
        cases hRun
        exact hWhy
      · rename_i hNonneg
        simp only [bind_eq_ok] at hRun
        obtain ⟨_, s4, -, hRun⟩ := hRun
        cases hRun
        rw [← hWhy]
        exact ⟨fun h => absurd h (lt_irrefl 0), fun h => absurd h hNonneg⟩

/-- `vfs_open`, when its result is not lost to a held lock. -/
theorem vfsOpen_neg_iff {path : Str} {mode : BitVec 32} {p : Int × Nat}
    (hRun : vfsOpen (fun _ => FatDisk.fsOps lib) path mode s = .ok p s')
    (hLock : p.1 < 0 → s'.heap.mmSpinlock = false) :
    p.1 < 0 ↔ mountGet s.mountList path = none ∨
      NewPath path s ∧ (StatFails lib path s ∨ ¬ FatBlocks s ∨ OpenFails lib path mode s) := by
  simp only [vfsOpen, bind_eq_ok] at hRun
  obtain ⟨m, s1, hGet, hRun⟩ := hRun
  obtain ⟨hQuiet, -, hFs, rfl⟩ := mountGetByName_eq_ok hGet
  cases hMount : mountGet s.mountList path with
  | none =>
      simp only [hMount] at hRun
      cases hRun
      simp [enodev]
  | some m =>
      simp only [hMount, bind_eq_ok] at hRun
      obtain ⟨ptr, s2, hAlloc, hRun⟩ := hRun
      obtain ⟨hQuiet2, -, hFs2, hPtr⟩ := kzalloc_eq_ok hAlloc
      rcases hPtr with ⟨rfl, hHeld⟩ | ⟨rfl, -⟩
      · simp only [bind_eq_ok] at hRun
        obtain ⟨_, s3, hFree, -⟩ := hRun
        exact absurd (kfree_eq_ok hFree).2 (by simp [hHeld])
      simp only [bind_eq_ok] at hRun
      obtain ⟨_, s3, hState, hRun⟩ := hRun
      cases hState
      have hDentries := (hQuiet.trans hQuiet2).dentries
      rw [hDentries] at hRun
      cases hFind : s.dentryList.find? (fun d => d.pathname == path) with
      | some d =>
          simp only [hFind, bind_eq_ok] at hRun
          obtain ⟨_, s3, -, _, s4, -, hRun⟩ := hRun
          cases hRun
          simp [NewPath, hFind]
      | none =>
          simp only [hFind] at hRun
          rw [vfsOpenNew_neg_iff hRun hLock]
          simp [NewPath, hFind, StatFails, FatBlocks, OpenFails, hFs2, hFs]

theorem toInt_neg_iff (x : BitVec 32) : x.toInt < 0 ↔ ¬ x.toNat < 2 ^ 31 := by
  have := x.isLt
  rw [BitVec.toInt_eq_toNat_cond]
  split <;> omega

theorem sysOpen_result {path : Str} {mode : BitVec 32} {r : Int}
    (hRun : Vfs.sysOpen (fun _ => FatDisk.fsOps lib) path mode s = .ok r s') :
    r < 0 ↔ ¬ FirstBlock s ∨ mountGet s.mountList path = none ∨
      NewPath path s ∧ (StatFails lib path s ∨ ¬ FatBlocks s ∨ OpenFails lib path mode s) ∨
      ¬ s.fdCount.toNat < 2 ^ 31 := by
  simp only [Vfs.sysOpen, bind_eq_ok] at hRun
  obtain ⟨ptr, s1, hAlloc, hRun⟩ := hRun
  have hFirst := kzalloc_none_iff (by decide) hAlloc
  obtain ⟨hQuiet, -, hFs, -⟩ := kzalloc_eq_ok hAlloc
  cases ptr with
  | none =>
      cases hRun
      simp [hFirst.mp rfl, enomem]
  | some a =>
      have hMemory : FirstBlock s := by
        by_contra hNot
        exact absurd (hFirst.mpr hNot) (by simp)
      simp only [bind_eq_ok] at hRun
      obtain ⟨⟨ret, dentry⟩, s2, hOpen, hRun⟩ := hRun
      have hFds : s2.fdCount = s.fdCount := by
        cases vfsOpen_outcome hOpen with
        | failed _ _ hQuiet2 => rw [hQuiet2.fds, hQuiet.fds]
        | shared _ _ _ _ _ hSteady => rw [hSteady.fds, hQuiet.fds]
        | created _ _ _ _ _ _ _ _ hSteady => rw [hSteady.fds, hQuiet.fds]
      have hWhy (hLock : ret < 0 → s2.heap.mmSpinlock = false) :
          ret < 0 ↔ mountGet s.mountList path = none ∨
            NewPath path s ∧ (StatFails lib path s ∨ ¬ FatBlocks s ∨ OpenFails lib path mode s) := by
        refine (vfsOpen_neg_iff hOpen hLock).trans ?_
        simp only [NewPath, StatFails, FatBlocks, OpenFails, hFs, hQuiet.mounts, hQuiet.dentries]
      split at hRun
      · rename_i hNeg
        simp only [bind_eq_ok] at hRun
        obtain ⟨_, s3, hFree, hRun⟩ := hRun
        cases hRun
        have hCause := (hWhy fun _ => (kfree_eq_ok hFree).2).mp hNeg
        rcases hCause with hMount | hNew
        · simp [hNeg, hMount]
        · simp [hNeg, hNew]
      · rename_i hNonneg
        have hCause := (hWhy fun h => absurd h hNonneg).not.mp hNonneg
        rw [not_or] at hCause
        simp only [bind_eq_ok] at hRun
        obtain ⟨_, s3, hState, _, s4, -, hRun⟩ := hRun
        cases hState
        cases hRun
        rw [toInt_neg_iff, hFds]
        simp only [hMemory, hCause.1, hCause.2, not_true_eq_false, false_or]

/-! ### The error convention -/

/-- **Error numbers.**  For every library, state and system call that returns: the sign of the result
tells whether the call has failed exactly under `Conforms`, so not when `f_read`, `f_write`, `f_stat`
or a call of `fatfs_creat` fails.  In the same way `run_process` is stopped by a path that does not exist exactly
when the path has no mount; otherwise it goes on with an `sb` that was never written. -/
theorem fatSyscall_conforms_iff (lib : FatLib φ δ) (oSync : BitVec 32) (rounds : Nat)
    (s : Vfs (FatDisk φ δ)) :
    (∀ (call : FatSyscall) (r : Int) (s' : Vfs (FatDisk φ δ)),
      fatSyscall lib oSync rounds call s = .ok r s' →
        ((r < 0 ↔ Failed lib oSync rounds s call) ↔ Conforms lib oSync rounds s call)) ∧
    ∀ (path : Str) (use : StatUse) (s' : Vfs (FatDisk φ δ)),
      runProcessStat (fun _ => FatDisk.pathOps lib oSync) path s = .ok use s' →
        ((Failed lib oSync rounds s (.sysStat path) → use = .stopped) ↔
          Conforms lib oSync rounds s (.sysStat path)) ∧
        (¬ Conforms lib oSync rounds s (.sysStat path) → use = .used none) := by
  constructor
  · intro call r s' hRun
    cases call with
    | sysOpen path mode =>
        rw [sysOpen_result hRun]
        simp only [Failed, Conforms]
        grind
    | sysRead fd size =>
        simp only [fatSyscall, bind_eq_ok] at hRun
        obtain ⟨p, s1, hRead, hEq⟩ := hRun
        cases hEq
        exact access_conforms (sysRead_result hRead).1 (sysRead_result hRead).2
    | sysWrite fd buf => exact access_conforms (sysWrite_result hRun).1 (sysWrite_result hRun).2
    | sysStat path =>
        simp only [fatSyscall, bind_eq_ok] at hRun
        obtain ⟨p, s1, hStat, hEq⟩ := hRun
        cases hEq
        rw [(sysStat_result hStat).1]
        simp only [Failed, Conforms]
        grind
    | sysCreat path mode =>
        rw [sysCreat_result hRun]
        simp only [Failed, Conforms]
        grind
  · intro path use s' hRun
    simp only [runProcessStat, bind_eq_ok] at hRun
    obtain ⟨p, s1, hStat, hRun⟩ := hRun
    obtain ⟨hNeg, hSize⟩ := sysStat_result hStat
    simp only [Failed, Conforms]
    split at hRun
    · rename_i hStop
      cases hRun
      simp [hNeg.mp hStop]
    · rename_i hGo
      cases hRun
      have hMount := hNeg.not.mp hGo
      simp only [hMount, false_or, reduceCtorEq, StatUse.used.injEq, not_not]
      exact ⟨trivial, hSize⟩

end Errors

/-! ### An empty volume -/

/-- A library with an empty volume: no path is found, and a file that is created is empty. -/
def emptyVolume : FatLib Unit Unit where
  fStat _ _ := ((.frNoFile, ⟨0#8, 0⟩), ())
  fOpen _ mode disk := ((if mode = faCreateNew then .frOk else .frNoFile, ()), disk)
  fRead fp _ disk := ((.frOk, [], fp), disk)
  fWrite fp _ disk := ((.frDenied, 0, fp), disk)
  fSync fp disk := ((.frOk, fp), disk)
  fClose _ disk := (.frOk, disk)

/-- The empty volume, mounted at the root. -/
def emptyRoot : Vfs (FatDisk Unit Unit) :=
  ⟨[⟨[], 0⟩], [], [], 0#32, ⟨(), [], fun _ => true, 0⟩, ⟨fun _ => true, 0, false⟩, []⟩

/-- The path `/x`. -/
def pathX : Str := [slash, 0x78#8]

/-- Creating `/x` on the empty volume succeeds, and 0 says so. -/
theorem fatSyscall_conforms_creat :
    ∃ s', fatSyscall emptyVolume 0x2000#32 1 (.sysCreat pathX 0#32) emptyRoot = .ok 0 s' ∧
      ((0 : Int) < 0 ↔ Failed emptyVolume 0x2000#32 1 emptyRoot (.sysCreat pathX 0#32)) := by
  refine ⟨_, rfl, ?_⟩
  refine ((fatSyscall_conforms_iff emptyVolume 0x2000#32 1 emptyRoot).1
    (.sysCreat pathX 0#32) 0 _ rfl).mpr ⟨rfl, Or.inr ?_⟩
  rintro (hOpen | hClose)
  · exact hOpen rfl
  · exact hClose () () rfl rfl

/-- `/x` does not exist on the empty volume: `f_stat` fails, `sys_stat` returns 4, and `run_process`
goes on with an `sb` that was never written. -/
theorem fatSyscall_stat_missing :
    ∃ s', fatSyscall emptyVolume 0x2000#32 1 (.sysStat pathX) emptyRoot = .ok 4 s' ∧
      Failed emptyVolume 0x2000#32 1 emptyRoot (.sysStat pathX) ∧ ¬ (4 : Int) < 0 ∧
      runProcessStat (fun _ => FatDisk.pathOps emptyVolume 0x2000#32) pathX emptyRoot =
        .ok (.used none) s' :=
  ⟨_, rfl, Or.inr (by simp [StatFails, emptyVolume]), by decide, rfl⟩

end Rayos
