import Rayos.Fs.VfsRun
import Rayos.Lib.SharedCursor

/-!
# FAT files under the virtual file system (`fatfs.c`)

`fatfs_lookup` makes the private data of a dentry and `fatfs_open` puts a file object into it.  Of the FAT
library the following is taken for granted: `f_open` sets the position of the file object to 0, and
`f_read` reads from the position and advances it, if the file object was opened for reading.

The position belongs to the dentry.  A second open of a path shares the dentry, so the two descriptors
read through one position.
-/

namespace Rayos

open Program CString Vfs SharedCursor

/-- `FIL`: the path that was opened, the mode and the position. -/
structure Fil where
  path : Str
  flag : BitVec 32
  fptr : Nat

/-- `struct fatfs_dentry`, without `nmlen` and the unused `fp`. -/
structure FatfsDentry where
  name : Str
  data : Option Fil

/-- The volume: which paths `f_stat` finds, which opens `f_open` accepts, and what the files hold. -/
structure FatVolume where
  fStat : Str → Bool
  fOpen : Str → BitVec 32 → Bool
  content : Str → List (BitVec 8)

/-- The state of the FAT file system.  Private data are kept in the order in which they were made. -/
structure Fatfs where
  volume : FatVolume
  dentries : List FatfsDentry
  /-- Which of its calls of `kzalloc` find memory. -/
  memory : Nat → Bool
  kzallocs : Nat

/-- `FA_READ`. -/
def faRead : BitVec 32 := 1#32

/-- `FA_WRITE`. -/
def faWrite : BitVec 32 := 2#32

/-- `FR_DENIED`. -/
def frDenied : Int := 7

/-- `FR_INVALID_OBJECT`. -/
def frInvalidObject : Int := 9

/-- A `size_t` converted to `UINT`. -/
def uintOfSize (len : Nat) : Nat := len % 2 ^ 32

namespace Fatfs

/-- `kzalloc`: whether there was memory. -/
def kzalloc (fs : Fatfs) : Bool × Fatfs :=
  (fs.memory fs.kzallocs, { fs with kzallocs := fs.kzallocs + 1 })

/-- `fatfs_lookup`. -/
def fatfsLookup (path : Str) (fs : Fatfs) : Option Nat × Fatfs :=
  if fs.volume.fStat path then
    let (ok, fs) := fs.kzalloc
    if ok then (some fs.dentries.length, { fs with dentries := fs.dentries ++ [⟨path, none⟩] })
    else (none, fs)
  else (none, fs)

/-- The private data at `fd` gets the file object `fil`. -/
def setData (fs : Fatfs) (fd : Nat) (fil : Fil) : Fatfs :=
  { fs with dentries := fs.dentries.modify fd fun d => { d with data := some fil } }

/-- `fatfs_open`. -/
def fatfsOpen (fd : Nat) (mode : BitVec 32) (fs : Fatfs) : Int × Fatfs :=
  let (ok, fs) := fs.kzalloc
  if ok then
    match fs.dentries[fd]? with
    | none => (-1, fs)
    | some d =>
        if fs.volume.fOpen d.name mode then (0, fs.setData fd ⟨d.name, mode, 0⟩) else (-1, fs)
  else (-1, fs)

/-- `fatfs_release`: the file object is closed and freed. -/
def fatfsRelease (fd : Nat) (fs : Fatfs) : Fatfs :=
  { fs with dentries := fs.dentries.modify fd fun d => { d with data := none } }

/-- `fatfs_read`, with `f_read`. -/
def fatfsRead (fd : Nat) (len : Nat) (fs : Fatfs) : (Int × List (BitVec 8)) × Fatfs :=
  match fs.dentries[fd]?.bind FatfsDentry.data with
  | none => ((frInvalidObject, []), fs)
  | some fil =>
      if fil.flag &&& faRead = 0#32 then ((frDenied, []), fs)
      else
        let got := ((fs.volume.content fil.path).drop fil.fptr).take (uintOfSize len)
        ((got.length, got), fs.setData fd { fil with fptr := fil.fptr + got.length })

/-- `fatfs_write`, with `f_write`. -/
def fatfsWrite (fd : Nat) (buf : List (BitVec 8)) (fs : Fatfs) : Int × Fatfs :=
  match fs.dentries[fd]?.bind FatfsDentry.data with
  | none => (frInvalidObject, fs)
  | some fil =>
      if fil.flag &&& faWrite = 0#32 then (frDenied, fs)
      else
        let put := buf.take (uintOfSize buf.length)
        let old := fs.volume.content fil.path
        let new := old.take fil.fptr ++ put ++ old.drop (fil.fptr + put.length)
        let fs := { fs with volume := { fs.volume with
          content := fun path => if path = fil.path then new else fs.volume.content path } }
        (put.length, fs.setData fd { fil with fptr := fil.fptr + put.length })

/-- `fs_ops` of `fatfs.c`. -/
def fsOps : FileSystemOperations Fatfs where
  fsLookup := some fatfsLookup
  fsOpen := fatfsOpen
  fsRelease := fatfsRelease
  fsRead := some fatfsRead
  fsWrite := some fatfsWrite

end Fatfs

end Rayos
