import Rayos.Fs.KernelHeap

/-!
# The memory file system (`tmpfs.c`)

A node of the file system is a `struct tmpfs_dentry`; nodes are named by the number of their heap block,
and the root, which is not on the heap, by 0.  The children of a node are kept in the order of their
list.  A node is on at most one list, so that `list_del` takes it out of every list.

Lengths are converted to `int` where the source does so.  A component whose length is a multiple of
`2 ^ 32` gets the length 0, with which a path is never used up; the loops over paths therefore have fuel,
and a call returns when it returns with some fuel.
-/

namespace Rayos

open Program CString

/-- `enum dentry_type`. -/
inductive DentryType where
  | file
  | dir
  deriving DecidableEq

/-- `struct tmpfs_dentry`. -/
structure TmpfsDentry where
  name : Str
  nmlen : Int
  type : DentryType
  size : Nat
  parent : Option Nat
  children : List Nat
  data : Option (List (BitVec 8))
  deriving DecidableEq

/-- The nodes in use, and the heap. -/
structure Tmpfs where
  node : Nat → Option TmpfsDentry
  heap : KernelHeap

/-- Code of the memory file system. -/
abbrev TmpfsM := EStateM FsFault Tmpfs

namespace Tmpfs

/-- `FS_NAME_MAX`. -/
def fsNameMax : Int := 255

/-- `TMPFS_ERR_INVAL`. -/
def errInval : Int := -1

/-- `TMPFS_ERR_NOMEM`. -/
def errNomem : Int := -2

/-- `TMPFS_ERR_TOOLONG`. -/
def errToolong : Int := -3

/-- `TMPFS_ERR_ISDIR`. -/
def errIsdir : Int := -4

/-- `TMPFS_ERR_NOTDIR`. -/
def errNotdir : Int := -5

/-- `TMPFS_ERR_NOENT`. -/
def errNoent : Int := -6

/-- `TMPFS_ERR_NOTEMPTY`. -/
def errNotempty : Int := -7

/-- The root. -/
def tmpfsRoot : Nat := 0

/-- A `size_t` converted to `int`. -/
def intOfLength (n : Nat) : Int := (BitVec.ofNat 32 n).toInt

/-- An `int` converted to `size_t`. -/
def sizeOfLength (n : Int) : Nat := (BitVec.ofInt 64 n).toNat

/-! ## The heap -/

/-- `kzalloc`. -/
def kzalloc (size : Nat) : TmpfsM (Option Nat) := fun s =>
  match s.heap.kzalloc size with
  | .ok (ptr, heap) => .ok ptr { s with heap := heap }
  | .error e => .error e s

/-- `kfree` of a block in use. -/
def kfree : TmpfsM Unit := fun s =>
  match s.heap.kfree with
  | .ok heap => .ok () { s with heap := heap }
  | .error e => .error e s

/-- `kfree` of the name of a node.  The name of the root is not on the heap: the lock stays held. -/
def kfreeName (td : Nat) : TmpfsM Unit := do
  kfree
  if td = tmpfsRoot then modify fun s => { s with heap := { s.heap with mmSpinlock := true } }

/-- `memcpy` of the first `len` bytes of a string.  A negative length is a `size_t` that no string
has. -/
def memcpyStr (src : Str) (len : Int) : TmpfsM Str :=
  if 0 ≤ len ∧ len.toNat ≤ src.length then pure (src.take len.toNat) else throw .overrun

/-! ## Nodes -/

/-- The node at an address. -/
def nodeAt (td : Nat) : TmpfsM TmpfsDentry := do
  let s ← get
  match s.node td with
  | some d => pure d
  | none => throw .useAfterFree

/-- A node is changed. -/
def setNode (s : Tmpfs) (td : Nat) (f : TmpfsDentry → TmpfsDentry) : Tmpfs :=
  { s with node := fun i => if i = td then (s.node i).map f else s.node i }

/-- `list_add_tail(&td->sibling, &dir->children)`. -/
def listAddTail (s : Tmpfs) (td dir : Nat) : Tmpfs :=
  s.setNode dir fun d => { d with children := d.children ++ [td] }

/-- `list_del(&td->sibling)`. -/
def listDel (s : Tmpfs) (td : Nat) : Tmpfs :=
  { s with node := fun i => (s.node i).map fun d =>
      { d with children := d.children.filter (· ≠ td) } }

/-- A new node `td`, on no list yet. -/
def newNode (s : Tmpfs) (td : Nat) (d : TmpfsDentry) : Tmpfs :=
  { s with node := fun i => if i = td then some d else s.node i }

/-- The node `td` is given back. -/
def dropNode (s : Tmpfs) (td : Nat) : Tmpfs :=
  { s with node := fun i => if i = td then none else s.node i }

/-- `tmpfs_alloc_dentry`. -/
def tmpfsAllocDentry (parent : Nat) (name : Str) (len : Int) (type : DentryType) :
    TmpfsM (Option Nat) := do
  match ← kzalloc 72 with
  | none => pure none
  | some td =>
      match ← kzalloc (sizeOfLength (len + 1)) with
      | none => do
          kfree
          pure none
      | some _ => do
          let name ← memcpyStr name len
          modify fun s => (s.newNode td ⟨name, len, type, 0, some parent, [], none⟩).listAddTail td parent
          pure (some td)

/-! ## Paths -/

/-- The slashes at the front are skipped. -/
def skipSlashes (p : Str) : Str := p.dropWhile (· == slash)

/-- The length of the first component, as an `int`. -/
def componentLen (p : Str) : Int :=
  match strchr p slash with
  | some i => intOfLength i
  | none => intOfLength p.length

/-- A node has the first `len` bytes of `p` as its name. -/
def hasName (s : Tmpfs) (p : Str) (len : Int) (td : Nat) : Bool :=
  match s.node td with
  | some d => d.nmlen = len ∧ d.name.take len.toNat = p.take len.toNat
  | none => false

/-- The child of `cur` that has the first `len` bytes of `p` as its name. -/
def findChild (s : Tmpfs) (cur : Nat) (p : Str) (len : Int) : Option Nat :=
  match s.node cur with
  | some d => d.children.find? (s.hasName p len)
  | none => none

/-- The loop of `tmpfs_lookup`; `none` when the fuel is used up. -/
def lookupFrom (s : Tmpfs) : Nat → Nat → Str → Option (Option Nat)
  | 0, _, _ => none
  | fuel + 1, cur, p =>
      let p := skipSlashes p
      if p = [] then some (some cur)
      else
        let len := componentLen p
        if len > fsNameMax then some none
        else
          match s.findChild cur p len with
          | none => some none
          | some child => lookupFrom s fuel child (p.drop len.toNat)

/-- `tmpfs_lookup`. -/
def lookup (s : Tmpfs) (fuel : Nat) (path : Str) : Option (Option Nat) :=
  if path.head? ≠ some slash then some none
  else if path.length = 1 then some (some tmpfsRoot)
  else s.lookupFrom fuel tmpfsRoot (path.drop 1)

/-- `tmpfs_lookup`, as a call. -/
def tmpfsLookup (fuel : Nat) (path : Str) : TmpfsM (Option Nat) := do
  let s ← get
  match s.lookup fuel path with
  | none => throw .hang
  | some r => pure r

/-- The first checks of `tmpfs_creat`, `tmpfs_unlink` and `tmpfs_mkdir`. -/
def badPath (path : Str) : Bool := path.head? ≠ some slash || path.length = 1

/-- The loop of `tmpfs_creat`. -/
def creatFrom : Nat → Nat → Str → TmpfsM Int
  | 0, _, _ => throw .hang
  | fuel + 1, cur, p => do
      let p := skipSlashes p
      if p = [] then pure 0
      else
        let last := strchr p slash = none
        let len := componentLen p
        if len > fsNameMax then pure errToolong
        else do
          let s ← get
          match s.findChild cur p len with
          | none => do
              let type := if last then DentryType.file else DentryType.dir
              match ← tmpfsAllocDentry cur p len type with
              | none => pure errNomem
              | some child => creatFrom fuel child (p.drop len.toNat)
          | some child => do
              let d ← nodeAt child
              if last ∧ d.type = .dir then pure errIsdir
              else creatFrom fuel child (p.drop len.toNat)

/-- `tmpfs_creat`; the mode is not used. -/
def tmpfsCreat (fuel : Nat) (path : Str) : TmpfsM Int :=
  if badPath path then pure errInval else creatFrom fuel tmpfsRoot (path.drop 1)

/-- The loop of `tmpfs_mkdir`. -/
def mkdirFrom : Nat → Nat → Str → TmpfsM Int
  | 0, _, _ => throw .hang
  | fuel + 1, cur, p => do
      let p := skipSlashes p
      if p = [] then pure 0
      else
        let len := componentLen p
        if len > fsNameMax then pure errToolong
        else do
          let s ← get
          match s.findChild cur p len with
          | none => do
              match ← tmpfsAllocDentry cur p len .dir with
              | none => pure errNomem
              | some child => mkdirFrom fuel child (p.drop len.toNat)
          | some child => do
              let d ← nodeAt child
              if d.type ≠ .dir then pure errNotdir
              else mkdirFrom fuel child (p.drop len.toNat)

/-- `tmpfs_mkdir`. -/
def tmpfsMkdir (fuel : Nat) (path : Str) : TmpfsM Int :=
  if badPath path then pure errInval else mkdirFrom fuel tmpfsRoot (path.drop 1)

/-! ## Removing and moving -/

/-- `tmpfs_free_dentry`. -/
def tmpfsFreeDentry (td : Nat) : TmpfsM Unit := do
  let d ← nodeAt td
  modify fun s => s.listDel td
  kfreeName td
  if d.data ≠ none ∧ d.type = .file then kfree
  kfree
  modify fun s => s.dropNode td

/-- `tmpfs_unlink`. -/
def tmpfsUnlink (fuel : Nat) (path : Str) : TmpfsM Int := do
  if badPath path then pure errInval
  else
    match ← tmpfsLookup fuel path with
    | none => pure errNoent
    | some target =>
        if target = tmpfsRoot then pure errInval
        else do
          let d ← nodeAt target
          if d.type = .dir ∧ d.children ≠ [] then pure errNotempty
          else do
            tmpfsFreeDentry target
            pure 0

/-- The parent directory of the new path in `tmpfs_rename`: the path is copied up to its last slash,
which is at the position `i`. -/
def newParentOf (fuel : Nat) (newpath : Str) (i : Nat) : TmpfsM (Int × Option Nat) := do
  if i = 0 then pure (0, some tmpfsRoot)
  else do
    let parentLen := intOfLength i
    match ← kzalloc (sizeOfLength (parentLen + 1)) with
    | none => pure (errNomem, none)
    | some _ => do
        let parentPath ← memcpyStr newpath parentLen
        let parent ← tmpfsLookup fuel parentPath
        kfree
        match parent with
        | none => pure (errNoent, none)
        | some dir => pure (0, some dir)

/-- The last part of `tmpfs_rename`: `src` gets its new name and its new parent. -/
def moveNode (src newParent : Nat) (newName : Str) (newNmlen : Int) : TmpfsM Int := do
  match ← kzalloc (sizeOfLength (newNmlen + 1)) with
  | none => pure errNomem
  | some _ => do
      let nameBuf ← memcpyStr newName newNmlen
      let _ ← nodeAt src
      modify fun s => s.listDel src
      kfreeName src
      modify fun s => s.setNode src fun d =>
        { d with name := nameBuf, nmlen := newNmlen, parent := some newParent }
      let _ ← nodeAt newParent
      modify fun s => s.listAddTail src newParent
      pure 0

/-- The part of `tmpfs_rename` after both paths have been looked up. -/
def renameTo (src newParent : Nat) (newName : Str) (newNmlen : Int) : TmpfsM Int := do
  let dir ← nodeAt newParent
  if dir.type ≠ .dir then pure errNotdir
  else do
    let s ← get
    match s.findChild newParent newName newNmlen with
    | none => moveNode src newParent newName newNmlen
    | some exist => do
        let d ← nodeAt exist
        if d.type = .dir ∧ d.children ≠ [] then pure errNotempty
        else do
          tmpfsFreeDentry exist
          moveNode src newParent newName newNmlen

/-- `tmpfs_rename`. -/
def tmpfsRename (fuel : Nat) (oldpath newpath : Str) : TmpfsM Int := do
  if oldpath.head? ≠ some slash ∨ newpath.head? ≠ some slash then pure errInval
  else if oldpath.length = 1 then pure errInval
  else
    match ← tmpfsLookup fuel oldpath with
    | none => pure errNoent
    | some src =>
        match strrchr newpath slash with
        | none => throw .nullPointer
        | some i => do
            let newName := newpath.drop (i + 1)
            let newNmlen := intOfLength newName.length
            if newNmlen = 0 ∨ newNmlen > fsNameMax then pure errInval
            else do
              match ← newParentOf fuel newpath i with
              | (err, none) => pure err
              | (_, some newParent) => renameTo src newParent newName newNmlen

/-! ## Data -/

/-- `tmpfs_read` of the node in `private_data`: the result and the bytes stored. -/
def tmpfsRead (td : Option Nat) (len : Nat) : TmpfsM (Int × List (BitVec 8)) := do
  match td with
  | none => pure (errInval, [])
  | some td => do
      let d ← nodeAt td
      match d.data with
      | none => pure (errInval, [])
      | some data =>
          if d.type ≠ .file then pure (errInval, [])
          else
            let len := if len > d.size then d.size else len
            pure (len, data.take len)

/-- `tmpfs_write`: an allocation, or `krealloc` when there are data. -/
def tmpfsWrite (td : Option Nat) (buf : List (BitVec 8)) : TmpfsM Int := do
  match td with
  | none => pure errInval
  | some td => do
      let d ← nodeAt td
      if d.type ≠ .file then pure errInval
      else do
        match ← kzalloc buf.length with
        | none =>
            if buf.length > 0 then pure errNomem
            else do
              modify fun s => s.setNode td fun d => { d with data := none, size := 0 }
              pure 0
        | some _ => do
            if d.data ≠ none then kfree
            modify fun s => s.setNode td fun d => { d with data := some buf, size := buf.length }
            pure buf.length

/-- `tmpfs_stat`: the result, and what `st->st_size` is then. -/
def tmpfsStat (fuel : Nat) (pathname : Str) (st : Option Nat) : TmpfsM (Int × Option Nat) := do
  match st with
  | none => pure (errInval, none)
  | some size => do
      match ← tmpfsLookup fuel pathname with
      | none => pure (errNoent, some size)
      | some de => do
          let d ← nodeAt de
          pure (0, some d.size)

end Tmpfs

end Rayos
