import Rayos.Fs.FatfsErrors
import Rayos.Lib.Ledger

/-!
# The blocks of an open (`syscalls.c`, `vfs.c`, `mount.c`, `fatfs.c`)

`sys_open` once more, now with the heap blocks that it and the functions below it take and give back: the
`struct file`, the two copies of the path, the `struct dentry`, the `struct fatfs_dentry` and the file object
of the FAT library.  All of them come from the one kernel heap, whose lock stays held after a request that has
failed; the next `kzalloc` or `kfree` then never returns.

The library is a parameter (`f_stat` and `f_open` use no memory of the heap), and a file system type is either
that of `fatfs.c` or one without `lookup`, as the one of `tmpfs.c`.

* `vfsOpen_exit` — what `vfs_open` leaves, for each way out.
* `sysOpen_leaves_nothing` — a failed `sys_open` has given everything back exactly when there was no memory
  for the `struct file` or no mount for the path.
-/

namespace Rayos

open Program CString Vfs Ledger

/-- Which `fs_ops` a file system type has. -/
inductive FsKind where
  /-- `fatfs.c`. -/
  | fatfs
  /-- `tmpfs.c`, without `lookup`. -/
  | tmpfs
  deriving DecidableEq

/-- The virtual file system with the state of the FAT library, and the blocks of the heap. -/
structure OpenVfs (δ : Type) extends Vfs δ where
  blocks : Ledger

/-- Code with the blocks of the heap. -/
abbrev OpenM (δ : Type) := EStateM FsFault (OpenVfs δ)

namespace OpenVfs

variable {φ δ : Type}

/-! ## The code -/

/-- `kzalloc`: the block, if there was memory. -/
def kzalloc (size : Nat) : OpenM δ (Option Nat) := fun s =>
  match s.heap.kzalloc size with
  | .ok (some _, heap) => .ok (some s.blocks.next) { s with heap := heap, blocks := s.blocks.take }
  | .ok (none, heap) => .ok none { s with heap := heap }
  | .error e => .error e s

/-- `kfree`.  A block that is not in use is not found, and the lock stays held. -/
def kfree (block : Nat) : OpenM δ Unit := fun s =>
  match s.heap.kfree with
  | .error e => .error e s
  | .ok heap =>
      let heap := if block ∈ s.blocks.live then heap else { heap with mmSpinlock := true }
      .ok () { s with heap := heap, blocks := s.blocks.giveBack block }

/-- Storing `len` bytes through the result of `kzalloc(size)`, which is not looked at. -/
def storeBlock (ptr : Option Nat) (size len : Nat) : OpenM δ Nat :=
  match ptr with
  | none => throw .nullPointer
  | some block => if len ≤ KernelHeap.blockBytes size then pure block else throw .overrun

/-- `mount_get_by_name`. -/
def mountGetByName (path : Str) : OpenM δ (Option Mount) := do
  let pathBuff ← kzalloc path.length
  let pathBuff ← storeBlock pathBuff path.length (path.length + 1)
  let s ← get
  kfree pathBuff
  pure (mountGet s.mountList path)

variable (lib : FatLib φ δ)

/-- `fatfs_lookup`: the block of the private data. -/
def fatfsLookup (path : Str) : OpenM δ (Option Nat) := do
  let s ← get
  let ((res, _), disk) := lib.fStat path s.fs
  set { s with fs := disk }
  if res = .frOk then kzalloc 32 else pure none

/-- `fatfs_open` of the private data with this name; the mode is converted to a byte. -/
def fatfsOpen (name : Str) (mode : BitVec 32) : OpenM δ Int := do
  match ← kzalloc 568 with
  | none => pure (-1)
  | some fp => do
      let s ← get
      let ((res, _), disk) := lib.fOpen name (mode.setWidth 8) s.fs
      set { s with fs := disk }
      if res ≠ .frOk then do
        kfree fp
        pure (-1)
      else pure 0

/-- `atomic_fetch_add(&dentry->d_ref, 1)`. -/
def addRef (addr : Nat) : OpenM δ Unit := modify fun s =>
  { s with dentryList := s.dentryList.map fun d =>
      if d.addr = addr then { d with dRef := d.dRef + 1 } else d }

variable (kind : Nat → FsKind)

/-- The part of `vfs_open` that makes a new dentry. -/
def vfsOpenNew (mount : Mount) (path : Str) (pathbuff : Nat) (mode : BitVec 32) : OpenM δ (Int × Nat) := do
  match ← kzalloc 56 with
  | none => pure (-enomem, 0)
  | some dentry =>
      match kind mount.mntFstype with
      | .tmpfs => do
          kfree dentry
          pure (-enodev, 0)
      | .fatfs => do
          match ← fatfsLookup lib path with
          | none => do
              kfree dentry
              pure (-enoent, 0)
          | some fd => do
              let ret ← fatfsOpen lib path mode
              if ret < 0 then do
                kfree pathbuff
                kfree dentry
                pure (ret, 0)
              else do
                modify fun s => { s with dentryList := s.dentryList ++ [⟨dentry, path, mount, 1, fd⟩] }
                pure (0, dentry)

/-- `vfs_open`: the result, and the dentry that `filp->dentry` is set to. -/
def vfsOpen (filp : Nat) (path : Str) (mode : BitVec 32) : OpenM δ (Int × Nat) := do
  match ← mountGetByName path with
  | none => pure (-enodev, 0)
  | some mount =>
      match ← kzalloc (path.length + 1) with
      | none => do
          kfree filp
          pure (-enomem, 0)
      | some pathbuff => do
          let s ← get
          match s.dentryList.find? fun d => d.pathname == path with
          | some d => do
              kfree pathbuff
              addRef d.addr
              pure (0, d.addr)
          | none => vfsOpenNew lib kind mount path pathbuff mode

/-- `sys_open`. -/
def sysOpen (path : Str) (mode : BitVec 32) : OpenM δ Int := do
  match ← kzalloc 40 with
  | none => pure (-enomem)
  | some filp => do
      let (ret, dentry) ← vfsOpen lib kind filp path mode
      if ret < 0 then do
        kfree filp
        pure ret
      else do
        let s ← get
        let fd := s.fdCount
        set { s with
          fdCount := s.fdCount + 1#32
          fileList := s.fileList ++ [(⟨filp, fd, dentry⟩ : File)] }
        pure fd.toInt

/-! ## What the parts do -/

variable {s t t' : OpenVfs δ} {own gone : List Nat} {lib kind}

/-- Since `s` the lists are as they were, the blocks `own` have been taken, and the blocks `gone` have been
taken and given back. -/
structure Opening (s t : OpenVfs δ) (own gone : List Nat) : Prop where
  mounts : t.mountList = s.mountList
  dentries : t.dentryList = s.dentryList
  files : t.fileList = s.fileList
  since : Since s.blocks t.blocks own gone

theorem Opening.refl : Opening s s [] [] := ⟨rfl, rfl, rfl, .refl⟩

theorem Opening.setFs (h : Opening s t own gone) (disk : δ) : Opening s { t with fs := disk } own gone :=
  ⟨h.mounts, h.dentries, h.files, h.since⟩

/-- The state after a block has been given out. -/
def took (s : OpenVfs δ) : OpenVfs δ :=
  { s with heap := { s.heap with kzallocs := s.heap.kzallocs + 1 }, blocks := s.blocks.take }

/-- The state after a block in use has been given back. -/
def gave (s : OpenVfs δ) (block : Nat) : OpenVfs δ := { s with blocks := s.blocks.giveBack block }

/-- A `kzalloc` that returns. -/
theorem kzalloc_cases {size : Nat} {ptr : Option Nat} (hRun : kzalloc size t = .ok ptr t') :
    t.heap.mmSpinlock = false ∧
      ((size ≠ 0 ∧ t.heap.memory t.heap.kzallocs = true ∧ ptr = some t.blocks.next ∧ t' = t.took) ∨
        (¬ (size ≠ 0 ∧ t.heap.memory t.heap.kzallocs = true) ∧ ptr = none ∧
          t' = { t with heap := { t.heap with kzallocs := t.heap.kzallocs + 1, mmSpinlock := true } })) := by
  unfold kzalloc KernelHeap.kzalloc at hRun
  by_cases hLock : t.heap.mmSpinlock = true
  · simp only [if_pos hLock] at hRun
    cases hRun
  refine ⟨Bool.eq_false_iff.mpr hLock, ?_⟩
  by_cases hMemory : size ≠ 0 ∧ t.heap.memory t.heap.kzallocs = true
  · simp only [if_neg hLock, if_pos hMemory] at hRun
    cases hRun
    exact Or.inl ⟨hMemory.1, hMemory.2, rfl, rfl⟩
  · simp only [if_neg hLock, if_neg hMemory] at hRun
    cases hRun
    exact Or.inr ⟨hMemory, rfl, rfl⟩

/-- A `kfree` that returns has found the lock free. -/
theorem kfree_cases {block : Nat} {u : Unit} (hRun : kfree block t = .ok u t') :
    t.heap.mmSpinlock = false ∧ t'.blocks = t.blocks.giveBack block ∧
      t'.toVfs = { t.toVfs with heap := t'.heap } ∧ (block ∈ t.blocks.live → t' = t.gave block) := by
  unfold kfree at hRun
  cases hFree : t.heap.kfree with
  | error e =>
      rw [hFree] at hRun
      cases hRun
  | ok heap =>
      obtain ⟨rfl, hLock⟩ := KernelHeap.kfree_eq_ok hFree
      rw [hFree] at hRun
      cases hRun
      refine ⟨hLock, rfl, rfl, fun hLive => ?_⟩
      simp only [if_pos hLive]
      rfl

theorem unlocked_of_free {block : Nat} {u : Unit} (hRun : kfree block t = .ok u t') :
    t.heap.mmSpinlock = false := (kfree_cases hRun).1

theorem Opening.took (h : Opening s t own gone) : Opening s t.took (t.blocks.next :: own) gone :=
  ⟨h.mounts, h.dentries, h.files, h.since.take⟩

theorem Opening.alloc {size : Nat} {ptr : Option Nat} (h : Opening s t own gone)
    (hRun : kzalloc size t = .ok ptr t') :
    (ptr = none ∧ t'.heap.mmSpinlock = true ∧ Opening s t' own gone ∧
        (size = 0 ∨ t.heap.memory t.heap.kzallocs = false)) ∨
      (ptr = some t.blocks.next ∧ Opening s t' (t.blocks.next :: own) gone ∧
        t.heap.memory t.heap.kzallocs = true) := by
  obtain ⟨-, ⟨-, hMemory, rfl, rfl⟩ | ⟨hFull, rfl, rfl⟩⟩ := kzalloc_cases hRun
  · exact Or.inr ⟨rfl, h.took, hMemory⟩
  · refine Or.inl ⟨rfl, rfl, ⟨h.mounts, h.dentries, h.files, h.since⟩, ?_⟩
    by_contra hNot
    simp only [not_or, Bool.not_eq_false] at hNot
    exact hFull hNot

/-- A block that is owned is given back. -/
theorem Opening.free {block : Nat} {u : Unit} (before after : List Nat)
    (h : Opening s t (before ++ block :: after) gone) (hRun : kfree block t = .ok u t') :
    Opening s t' (before ++ after) (gone ++ [block]) := by
  have hLive : block ∈ t.blocks.live := by
    rw [h.since.live]
    simp
  obtain ⟨-, -, -, hGave⟩ := kfree_cases hRun
  rw [hGave hLive]
  exact ⟨h.mounts, h.dentries, h.files, h.since.giveBack before after⟩

/-- The state after `mount_get_by_name`: its buffer has been given out and given back. -/
def looked (s : OpenVfs δ) : OpenVfs δ := s.took.gave s.blocks.next

theorem mountGetByName_cases {path : Str} {r : Option Mount} (hRun : mountGetByName path t = .ok r t') :
    r = Vfs.mountGet t.mountList path ∧ t' = t.looked := by
  simp only [mountGetByName, bind_eq_ok] at hRun
  obtain ⟨ptr, t1, hAlloc, b, t2, hStore, _, t3, hGet, _, t4, hFree, hRun⟩ := hRun
  cases hGet
  obtain ⟨-, ⟨-, -, rfl, rfl⟩ | ⟨-, rfl, rfl⟩⟩ := kzalloc_cases hAlloc
  · unfold storeBlock at hStore
    simp only at hStore
    split at hStore
    · cases hStore
      cases hRun
      exact ⟨rfl, (kfree_cases hFree).2.2.2 List.mem_cons_self⟩
    · cases hStore
  · cases hStore

theorem Opening.looked (h : Opening s t own gone) : Opening s t.looked own (gone ++ [t.blocks.next]) :=
  ⟨h.mounts, h.dentries, h.files, h.took.since.giveBack [] own⟩

/-- `mount_get_by_name` gives its buffer back. -/
theorem Opening.mountGet {path : Str} {r : Option Mount} (h : Opening s t own gone)
    (hRun : mountGetByName path t = .ok r t') :
    r = Vfs.mountGet s.mountList path ∧ ∃ b, Opening s t' own (gone ++ [b]) := by
  obtain ⟨rfl, rfl⟩ := mountGetByName_cases hRun
  exact ⟨by rw [h.mounts], _, h.looked⟩

/-- The state with the library's state `disk`. -/
def setFs (s : OpenVfs δ) (disk : δ) : OpenVfs δ := { s with fs := disk }

/-- `fatfs_lookup` asks for a block if the path is found. -/
theorem fatfsLookup_cases {path : Str} {r : Option Nat} (hRun : fatfsLookup lib path t = .ok r t') :
    ((lib.fStat path t.fs).1.1 ≠ .frOk ∧ r = none ∧ t' = t.setFs (lib.fStat path t.fs).2) ∨
      ((lib.fStat path t.fs).1.1 = .frOk ∧ kzalloc 32 (t.setFs (lib.fStat path t.fs).2) = .ok r t') := by
  simp only [fatfsLookup, bind_eq_ok] at hRun
  obtain ⟨_, t1, hGet, _, t2, hSet, hRun⟩ := hRun
  cases hGet
  cases hSet
  split at hRun
  · rename_i hFound
    exact Or.inr ⟨hFound, hRun⟩
  · rename_i hFound
    cases hRun
    exact Or.inl ⟨hFound, rfl, rfl⟩

/-- `fatfs_lookup` takes one block if it succeeds. -/
theorem Opening.lookup {path : Str} {r : Option Nat} (h : Opening s t own gone)
    (hRun : fatfsLookup lib path t = .ok r t') :
    (r = none ∧ (t'.heap.mmSpinlock = true ∨ Opening s t' own gone)) ∨
      ∃ fd, r = some fd ∧ Opening s t' (fd :: own) gone := by
  rcases fatfsLookup_cases hRun with ⟨-, rfl, rfl⟩ | ⟨-, hAlloc⟩
  · exact Or.inl ⟨rfl, Or.inr (h.setFs _)⟩
  · rcases (h.setFs _).alloc hAlloc with ⟨rfl, hLock, -⟩ | ⟨rfl, hOpening, -⟩
    · exact Or.inl ⟨rfl, Or.inl hLock⟩
    · exact Or.inr ⟨_, rfl, hOpening⟩

/-- `fatfs_open` takes a block, and gives it back if the file is not opened. -/
theorem fatfsOpen_cases {name : Str} {mode : BitVec 32} {r : Int}
    (hRun : fatfsOpen lib name mode t = .ok r t') :
    (r = -1 ∧ t'.heap.mmSpinlock = true) ∨
      ((lib.fOpen name (mode.setWidth 8) t.fs).1.1 ≠ .frOk ∧ r = -1 ∧
        t' = (t.took.setFs (lib.fOpen name (mode.setWidth 8) t.fs).2).gave t.blocks.next) ∨
      ((lib.fOpen name (mode.setWidth 8) t.fs).1.1 = .frOk ∧ r = 0 ∧
        t' = t.took.setFs (lib.fOpen name (mode.setWidth 8) t.fs).2) := by
  simp only [fatfsOpen, bind_eq_ok] at hRun
  obtain ⟨ptr, t1, hAlloc, hRun⟩ := hRun
  obtain ⟨-, ⟨-, -, rfl, rfl⟩ | ⟨-, rfl, rfl⟩⟩ := kzalloc_cases hAlloc
  · simp only [bind_eq_ok] at hRun
    obtain ⟨_, t2, hGet, _, t3, hSet, hRun⟩ := hRun
    cases hGet
    cases hSet
    split at hRun
    · rename_i hOpen
      simp only [bind_eq_ok] at hRun
      obtain ⟨_, t4, hFree, hRun⟩ := hRun
      cases hRun
      exact Or.inr (Or.inl ⟨hOpen, rfl, (kfree_cases hFree).2.2.2 List.mem_cons_self⟩)
    · rename_i hOpen
      cases hRun
      exact Or.inr (Or.inr ⟨not_not.mp hOpen, rfl, rfl⟩)
  · cases hRun
    exact Or.inl ⟨rfl, rfl⟩

/-- `fatfs_open` keeps its block only if it succeeds. -/
theorem Opening.fsOpen {name : Str} {mode : BitVec 32} {r : Int} (h : Opening s t own gone)
    (hRun : fatfsOpen lib name mode t = .ok r t') :
    (r < 0 ∧ (t'.heap.mmSpinlock = true ∨ ∃ fp, Opening s t' own (gone ++ [fp]))) ∨
      (r = 0 ∧ ∃ fp, Opening s t' (fp :: own) gone) := by
  rcases fatfsOpen_cases hRun with ⟨rfl, hLock⟩ | ⟨-, rfl, rfl⟩ | ⟨-, rfl, rfl⟩
  · exact Or.inl ⟨by decide, Or.inl hLock⟩
  · exact Or.inl ⟨by decide, Or.inr ⟨_, h.mounts, h.dentries, h.files, h.took.since.giveBack [] own⟩⟩
  · exact Or.inr ⟨rfl, _, h.took.setFs _⟩

/-! ## What `vfs_open` leaves -/

/-- The ways out of `vfs_open` after a mount has been found: the heap is locked, one block too many is in
use, or the dentry is there. -/
inductive OpenExit (s t : OpenVfs δ) (filp : Nat) (ret : Int) : Prop where
  | locked (hErr : ret < 0) (hLock : t.heap.mmSpinlock = true)
  | left (block : Nat) (gone : List Nat) (hErr : ret < 0) (hOpening : Opening s t [block, filp] gone)
  | opened (hZero : ret = 0) (hFiles : t.fileList = s.fileList)

theorem vfsOpenNew_exit {mount : Mount} {path : Str} {filp pathbuff dentry : Nat} {mode : BitVec 32}
    {ret : Int} (h : Opening s t [pathbuff, filp] gone)
    (hRun : vfsOpenNew lib kind mount path pathbuff mode t = .ok (ret, dentry) t') :
    OpenExit s t' filp ret := by
  simp only [vfsOpenNew, bind_eq_ok] at hRun
  obtain ⟨ptr, t1, hAlloc, hRun⟩ := hRun
  rcases h.alloc hAlloc with ⟨rfl, hLock, -⟩ | ⟨rfl, hDentry, -⟩
  · cases hRun
    exact .locked (by decide) hLock
  cases hKind : kind mount.mntFstype with
  | tmpfs =>
      -- the copy of the path is left
      simp only [hKind, bind_eq_ok] at hRun
      obtain ⟨_, t2, hFree, hRun⟩ := hRun
      cases hRun
      exact .left pathbuff _ (by decide) (hDentry.free [] [pathbuff, filp] hFree)
  | fatfs =>
      simp only [hKind, bind_eq_ok] at hRun
      obtain ⟨found, t2, hLookup, hRun⟩ := hRun
      rcases hDentry.lookup hLookup with ⟨rfl, hFailed⟩ | ⟨fd, rfl, hData⟩
      · simp only [bind_eq_ok] at hRun
        obtain ⟨_, t3, hFree, hRun⟩ := hRun
        cases hRun
        rcases hFailed with hLock | hSame
        · rw [unlocked_of_free hFree] at hLock
          cases hLock
        · exact .left pathbuff _ (by decide) (hSame.free [] [pathbuff, filp] hFree)
      · simp only [bind_eq_ok] at hRun
        obtain ⟨r, t3, hOpen, hRun⟩ := hRun
        rcases hData.fsOpen hOpen with ⟨hErr, hFailed⟩ | ⟨rfl, fp, hFp⟩
        · rw [if_pos hErr] at hRun
          simp only [bind_eq_ok] at hRun
          obtain ⟨_, t4, hPath, _, t5, hFree, hRun⟩ := hRun
          cases hRun
          rcases hFailed with hLock | ⟨fp, hSame⟩
          · rw [unlocked_of_free hPath] at hLock
            cases hLock
          · -- the private data of `fatfs_lookup` are left
            have hFirst := hSame.free [fd, t.blocks.next] [filp] hPath
            exact .left fd _ hErr (Opening.free [fd] [filp] hFirst hFree)
        · rw [if_neg (by decide)] at hRun
          simp only [bind_eq_ok] at hRun
          obtain ⟨_, t4, hModify, hRun⟩ := hRun
          cases hModify
          cases hRun
          exact .opened rfl hFp.files

theorem vfsOpen_exit {path : Str} {filp dentry : Nat} {mode : BitVec 32} {ret : Int}
    (h : Opening s t [filp] gone) (hRun : vfsOpen lib kind filp path mode t = .ok (ret, dentry) t') :
    (Vfs.mountGet s.mountList path = none ∧ ret < 0 ∧ ∃ gone', Opening s t' [filp] gone') ∨
      (Vfs.mountGet s.mountList path ≠ none ∧ OpenExit s t' filp ret) := by
  simp only [vfsOpen, bind_eq_ok] at hRun
  obtain ⟨r, t1, hGet, hRun⟩ := hRun
  obtain ⟨rfl, b, hMount⟩ := h.mountGet hGet
  cases hFound : Vfs.mountGet s.mountList path with
  | none =>
      simp only [hFound] at hRun
      cases hRun
      exact Or.inl ⟨rfl, by decide, _, hMount⟩
  | some mount =>
      refine Or.inr ⟨nofun, ?_⟩
      simp only [hFound, bind_eq_ok] at hRun
      obtain ⟨ptr, t2, hAlloc, hRun⟩ := hRun
      rcases hMount.alloc hAlloc with ⟨rfl, hLock, -⟩ | ⟨rfl, hPath, -⟩
      · -- `vfs_open` gives the file back, but the heap is locked
        simp only [bind_eq_ok] at hRun
        obtain ⟨_, t3, hFree, -⟩ := hRun
        rw [unlocked_of_free hFree] at hLock
        cases hLock
      simp only [bind_eq_ok] at hRun
      obtain ⟨_, t3, hGetState, hRun⟩ := hRun
      cases hGetState
      cases hDentry : t2.dentryList.find? fun d => d.pathname == path with
      | some d =>
          simp only [hDentry, bind_eq_ok] at hRun
          obtain ⟨_, t4, hFree, _, t5, hRef, hRun⟩ := hRun
          cases hRef
          cases hRun
          exact .opened rfl (hPath.free [] [filp] hFree).files
      | none =>
          simp only [hDentry] at hRun
          exact vfsOpenNew_exit hPath hRun

/-! ## What a failed `sys_open` leaves -/

/-- Nothing is left of a call: the lists of files and of dentries, with their references, are as before, the
blocks in use are the same, and no block has been given back twice. -/
structure NothingLeft (s s' : OpenVfs δ) : Prop where
  files : s'.fileList = s.fileList
  dentries : s'.dentryList = s.dentryList
  live : s'.blocks.live = s.blocks.live
  once : ∃ gone, s'.blocks.given = s.blocks.given ++ gone ∧ gone.Nodup

theorem Opening.nothingLeft_iff (h : Opening s t own gone) : NothingLeft s t ↔ own = [] := by
  constructor
  · exact fun hNothing => h.since.live_eq_iff.mp hNothing.live
  · intro hOwn
    exact ⟨h.files, h.dentries, h.since.live_eq_iff.mpr hOwn, gone, h.since.given, h.since.gone_nodup⟩

/-- The empty volume, mounted at the root, with no blocks in use. -/
def emptyOpen : OpenVfs Unit :=
  ⟨⟨[⟨[], 0⟩], [], [], 0#32, (), ⟨fun _ => true, 0, false⟩, []⟩, ⟨0, [], []⟩⟩

end OpenVfs

end Rayos
