import Rayos.Fs.KernelHeap

/-!
# The virtual file system (`vfs.c`, `mount.c`, `syscalls.c`)

`sys_open` makes a `struct file` and lets `vfs_open` find or make the `struct dentry` of the path;
`sys_close` finds the file of a descriptor and lets `vfs_close` give its reference to the dentry back.
The mount of a path is looked up anew by every operation, from the path.

Dentries and files are kept in the lists that the source links them into, each with the address that
`kzalloc` has returned for it.  File systems are parameters: a `file_system_type` is a number, and
`types` gives its operations on a state of the file systems.
-/

namespace Rayos

open Program CString

/-- `ENOENT`. -/
def enoent : Int := 2

/-- `ENOMEM`. -/
def enomem : Int := 12

/-- `EBADF`. -/
def ebadf : Int := 9

/-- `ENODEV`. -/
def enodev : Int := 19

/-- `ESTALE`. -/
def estale : Int := 116

/-- `struct mount`, without the fields that are not looked at. -/
structure Mount where
  mntPath : Str
  mntFstype : Nat
  deriving DecidableEq

/-- `struct dentry`, with its address. -/
structure Dentry where
  addr : Nat
  pathname : Str
  mnt : Mount
  dRef : Int
  privateData : Nat
  deriving DecidableEq

/-- `struct file`, with its address; `dentry` is the address of its dentry. -/
structure File where
  addr : Nat
  fd : BitVec 32
  dentry : Nat
  deriving DecidableEq

/-- The operations of `struct file_system_operations` that files are used with.  They are given the
`private_data` of the dentry; `lookup` returns it, and `read` returns the bytes it has stored. -/
structure FileSystemOperations (σ : Type) where
  fsLookup : Option (Str → σ → Option Nat × σ)
  fsOpen : Nat → BitVec 32 → σ → Int × σ
  fsRelease : Nat → σ → σ
  fsRead : Option (Nat → Nat → σ → (Int × List (BitVec 8)) × σ)
  fsWrite : Option (Nat → List (BitVec 8) → σ → Int × σ)

/-- Which operation of a file system has been called. -/
inductive FsOp where
  | fsLookup
  | fsOpen
  | fsRelease
  | fsRead
  | fsWrite
  deriving DecidableEq

/-- A call of an operation: the type it belongs to and the dentry it was called for. -/
structure FsCall where
  op : FsOp
  fstype : Nat
  dentry : Nat
  deriving DecidableEq

/-- The state of the virtual file system. -/
structure Vfs (σ : Type) where
  /-- `mount_list`. -/
  mountList : List Mount
  /-- `dentry_list`. -/
  dentryList : List Dentry
  /-- `file_list`. -/
  fileList : List File
  /-- `fd_count`. -/
  fdCount : BitVec 32
  /-- The state of the file systems. -/
  fs : σ
  heap : KernelHeap
  /-- History of the calls into file systems.  No code reads it. -/
  calls : List FsCall

/-- Code of the virtual file system. -/
abbrev VfsM (σ : Type) := EStateM FsFault (Vfs σ)

namespace Vfs

variable {σ : Type}

/-! ## The heap -/

/-- `kzalloc`. -/
def kzalloc (size : Nat) : VfsM σ (Option Nat) := fun s =>
  match s.heap.kzalloc size with
  | .ok (ptr, heap) => .ok ptr { s with heap := heap }
  | .error e => .error e s

/-- `kfree` of a block in use. -/
def kfree : VfsM σ Unit := fun s =>
  match s.heap.kfree with
  | .ok heap => .ok () { s with heap := heap }
  | .error e => .error e s

/-- Storing `len` bytes through the result of `kzalloc(size)`, which is not looked at. -/
def storeBlock (ptr : Option Nat) (size len : Nat) : VfsM σ Unit := fun s =>
  match KernelHeap.storeBlock ptr size len with
  | .ok _ => .ok () s
  | .error e => .error e s

/-! ## Mounts -/

/-- The loop of `mount_get_by_name`: `buf` is cut at its last slash, and the first mount whose path
begins with what is left is taken. -/
def mountGetLoop (mounts : List Mount) : Nat → Str → Option Mount
  | 0, _ => none
  | fuel + 1, buf =>
      match strrchr buf slash with
      | none => none
      | some i =>
          let matchPath := buf.take i
          match mounts.find? fun pos => strncmpEq pos.mntPath matchPath matchPath.length with
          | some pos => some pos
          | none => mountGetLoop mounts fuel matchPath

/-- The mount that `mount_get_by_name` finds; every round makes the buffer shorter. -/
def mountGet (mounts : List Mount) (path : Str) : Option Mount :=
  mountGetLoop mounts path.length path

/-- `mount_get_by_name`, with its buffer: `strcpy` stores one byte more than was asked for. -/
def mountGetByName (path : Str) : VfsM σ (Option Mount) := do
  let pathBuff ← kzalloc path.length
  storeBlock pathBuff path.length (path.length + 1)
  let s ← get
  kfree
  pure (mountGet s.mountList path)

/-- The slashes at the end of a mount path are removed. -/
def trimSlashes (path : Str) : Str := (path.reverse.dropWhile (· == slash)).reverse

/-- `mount_nodev`. -/
def mountNodev (fstype : Nat) (path : Str) : VfsM σ Int := do
  match ← kzalloc 48 with
  | none => pure (-1)
  | some _ => do
      let mntPath ← kzalloc (path.length + 1)
      storeBlock mntPath (path.length + 1) (path.length + 1)
      modify fun s => { s with mountList := s.mountList ++ [⟨trimSlashes path, fstype⟩] }
      pure 0

/-! ## Files and dentries -/

variable (types : Nat → FileSystemOperations σ)

/-- A call into a file system, which is entered in the history. -/
def callFs {α : Type} (call : FsCall) (f : σ → α × σ) : VfsM σ α := fun s =>
  .ok (f s.fs).1 { s with fs := (f s.fs).2, calls := s.calls ++ [call] }

/-- The dentry at an address. -/
def dentryAt (addr : Nat) : VfsM σ Dentry := do
  let s ← get
  match s.dentryList.find? fun d => d.addr == addr with
  | some d => pure d
  | none => throw .useAfterFree

/-- `atomic_fetch_add(&dentry->d_ref, val)`. -/
def addRef (addr : Nat) (val : Int) : VfsM σ Unit := modify fun s =>
  { s with dentryList := s.dentryList.map fun d =>
      if d.addr = addr then { d with dRef := d.dRef + val } else d }

/-- The part of `vfs_open` that makes a new dentry: the result, and the address of the dentry. -/
def vfsOpenNew (mount : Mount) (path : Str) (mode : BitVec 32) : VfsM σ (Int × Nat) := do
  match ← kzalloc 56 with
  | none => pure (-enomem, 0)
  | some dentry =>
      let type := mount.mntFstype
      match (types type).fsLookup with
      | none => do
          kfree
          pure (-enodev, 0)
      | some lookup => do
          match ← callFs ⟨.fsLookup, type, dentry⟩ (lookup path) with
          | none => do
              kfree
              pure (-enoent, 0)
          | some privateData => do
              let ret ← callFs ⟨.fsOpen, type, dentry⟩ ((types type).fsOpen privateData mode)
              if ret < 0 then do
                kfree
                kfree
                pure (ret, 0)
              else do
                modify fun s => { s with
                  dentryList := s.dentryList ++ [⟨dentry, path, mount, 1, privateData⟩] }
                pure (0, dentry)

/-- `vfs_open`: the result, and the address of the dentry that `filp->dentry` is set to. -/
def vfsOpen (path : Str) (mode : BitVec 32) : VfsM σ (Int × Nat) := do
  match ← mountGetByName path with
  | none => pure (-enodev, 0)
  | some mount =>
      match ← kzalloc (path.length + 1) with
      | none => do
          kfree
          pure (-enomem, 0)
      | some _ => do
          let s ← get
          match s.dentryList.find? fun d => d.pathname == path with
          | some d => do
              kfree
              addRef d.addr 1
              pure (0, d.addr)
          | none => vfsOpenNew types mount path mode

/-- `sys_open`; the descriptor is returned as an `int`. -/
def sysOpen (path : Str) (mode : BitVec 32) : VfsM σ Int := do
  match ← kzalloc 40 with
  | none => pure (-enomem)
  | some filp => do
      let (ret, dentry) ← vfsOpen types path mode
      if ret < 0 then do
        kfree
        pure ret
      else do
        let s ← get
        let fd := s.fdCount
        set { s with
          fdCount := s.fdCount + 1#32
          fileList := s.fileList ++ [(⟨filp, fd, dentry⟩ : File)] }
        pure fd.toInt

/-- `vfs_close`. -/
def vfsClose (filp : File) : VfsM σ Int := do
  let dentry ← dentryAt filp.dentry
  match ← mountGetByName dentry.pathname with
  | none => pure (-enodev)
  | some mount => do
      let type := mount.mntFstype
      let s ← get
      match s.dentryList.find? fun pos => pos.pathname == dentry.pathname with
      | none => pure (-estale)
      | some _ => do
          addRef dentry.addr (-1)
          let left ← dentryAt filp.dentry
          if left.dRef = 0 then do
            callFs ⟨.fsRelease, type, dentry.addr⟩ fun fs =>
              ((), (types type).fsRelease dentry.privateData fs)
            modify fun s => { s with
              dentryList := s.dentryList.eraseP fun d => d.addr == dentry.addr }
            kfree
            kfree
            pure 0
          else pure 0

/-- The file of a descriptor: the first one on `file_list` with its number. -/
def fileOf (files : List File) (fd : BitVec 32) : Option File := files.find? fun f => f.fd == fd

/-- `sys_close`. -/
def sysClose (fd : BitVec 32) : VfsM σ Int := do
  let s ← get
  match fileOf s.fileList fd with
  | none => pure (-ebadf)
  | some filp => do
      let ret ← vfsClose types filp
      if ret < 0 then pure ret
      else do
        modify fun s => { s with fileList := s.fileList.eraseP fun f => f.addr == filp.addr }
        kfree
        pure 0

/-- A `ssize_t` that is returned as an `int`. -/
def intOfSsize (r : Int) : Int := (BitVec.ofInt 32 r).toInt

/-- `vfs_read`: the result and the bytes stored. -/
def vfsRead (filp : File) (len : Nat) : VfsM σ (Int × List (BitVec 8)) := do
  let dentry ← dentryAt filp.dentry
  match ← mountGetByName dentry.pathname with
  | none => pure (-enodev, [])
  | some mount =>
      match (types mount.mntFstype).fsRead with
      | none => pure (-enodev, [])
      | some read => do
          let r ← callFs ⟨.fsRead, mount.mntFstype, dentry.addr⟩ (read dentry.privateData len)
          pure (intOfSsize r.1, r.2)

/-- `vfs_write`. -/
def vfsWrite (filp : File) (buf : List (BitVec 8)) : VfsM σ Int := do
  let dentry ← dentryAt filp.dentry
  match ← mountGetByName dentry.pathname with
  | none => pure (-enodev)
  | some mount =>
      match (types mount.mntFstype).fsWrite with
      | none => pure (-enodev)
      | some write => do
          let r ← callFs ⟨.fsWrite, mount.mntFstype, dentry.addr⟩ (write dentry.privateData buf)
          pure (intOfSsize r)

/-- `sys_read`. -/
def sysRead (fd : BitVec 32) (size : Nat) : VfsM σ (Int × List (BitVec 8)) := do
  let s ← get
  match fileOf s.fileList fd with
  | none => pure (-enoent, [])
  | some filp => vfsRead types filp size

/-- `sys_write`. -/
def sysWrite (fd : BitVec 32) (buf : List (BitVec 8)) : VfsM σ Int := do
  let s ← get
  match fileOf s.fileList fd with
  | none => pure (-enoent)
  | some filp => vfsWrite types filp buf

end Vfs

end Rayos
