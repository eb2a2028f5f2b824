import Rayos.Fs.Fat32Volume
import Rayos.Machine.Word

/-!
# Files on a FAT32 volume (`fat32_read`, `fat32_write`)

The first write of a file takes a cluster and copies the entry of the open file over the entry of the
directory with the same short name.  The pieces of the buffer then go along the chain, and the chain is
extended as soon as its last cluster has been written, whether a piece is left or not.

* An open file holds copies of the parameter block, of its entry and of the entry of its directory.
* A buffer is the memory from its address on: the last piece is a whole cluster too.
* The bound `fuel` is as in the driver's other loops.
-/

namespace Rayos

open LittleEndian ByteStore CString

/-- The fields of `struct fat32_file` that are read again. -/
structure Fat32File where
  fd : Int
  /-- The block that holds the path, by its number among the blocks that `kzalloc` has returned. -/
  path : Nat
  bpb : Fat32Bpb
  entry : DirEntry
  parentEntry : DirEntry
  deriving DecidableEq

/-- `bpb->bytes_per_sector * bpb->sectors_per_cluster`. -/
def bytesPerCluster (bpb : Fat32Bpb) : Nat := bpb.bytesPerSector * bpb.sectorsPerCluster

namespace DirEntry

/-- Set `first_cluster_hi` and `first_cluster_lo`. -/
def setFirstCluster (entry : DirEntry) (cluster : Nat) : DirEntry :=
  ofBytes (putLe (putLe entry.bytes 20 2 (cluster / 2 ^ 16)) 26 2 (cluster % 2 ^ 16))

/-- Set `file_size`, which has 32 bits. -/
def setFileSize (entry : DirEntry) (size : Nat) : DirEntry :=
  ofBytes (putLe entry.bytes 28 4 size)

end DirEntry

/-! ## Reading -/

/-- The loop of `fat32_read_cluster`: what is left of `size`, and the buffer. -/
def readFrom (disk : Disk) (bpb : Fat32Bpb) : Nat → Nat → Nat → Nat → Bytes → Option (Nat × Bytes)
  | 0, _, _, _, _ => none
  | fuel + 1, cluster, size, off, buf =>
      if fat32Eoc cluster then some (size, buf)
      else
        let clusterBuf := readCluster disk bpb cluster zeroed
        if bytesPerCluster bpb < size then
          if fatDefined bpb then
            readFrom disk bpb fuel
              (fatWord (readFat disk bpb cluster zeroed) (fatIndex bpb cluster))
              (size - bytesPerCluster bpb) (off + bytesPerCluster bpb)
              (store buf off (bytesPerCluster bpb) clusterBuf)
          else none
        else some (size, store buf off size clusterBuf)

/-- `fat32_read_cluster`. -/
def fat32ReadCluster (fuel : Nat) (disk : Disk) (fp : Fat32File) (buf : Bytes) (size : Nat) :
    Option (Nat × Bytes) :=
  readFrom disk fp.bpb fuel fp.entry.firstCluster size 0 buf

/-! ## Writing -/

/-- `strncmp` of two short names, over 11 bytes. -/
def sameShortName (entry entry' : DirEntry) : Bool :=
  strncmpEq (cutAtNul entry.name) (cutAtNul entry'.name) 11

/-- The loop over the entries of a cluster: the first one with the short name. -/
def matchSlot (buf : Bytes) (entry : DirEntry) (n : Nat) : Option Nat :=
  (List.range n).find? fun i => sameShortName (dirSlot buf i) entry

/-- The loop over the directory that writes the entry back: the entry of the open file, and the drive. -/
def updateFrom (bpb : Fat32Bpb) (entry : DirEntry) (size : Nat) (disk : Disk) :
    Nat → Nat → Option (DirEntry × Disk)
  | 0, _ => none
  | fuel + 1, cluster =>
      if fat32Eoc cluster then some (entry, disk)
      else
        let buf := readCluster disk bpb cluster zeroed
        match matchSlot buf entry (entriesPerCluster bpb) with
        | some i =>
            let entry := entry.setFileSize size
            some (entry, writeCluster disk bpb cluster (putSlot buf i entry))
        | none =>
            if fatDefined bpb then
              updateFrom bpb entry size disk fuel
                (fatWord (readFat disk bpb cluster zeroed) (fatIndex bpb cluster))
            else none

/-- The loop over the buffer, a cluster at a time; `off` is how far it is. -/
def writePieces (bpb : Fat32Bpb) (buf : Bytes) (size : Nat) : Nat → Disk → Nat → Nat → Option Disk
  | 0, _, _, _ => none
  | fuel + 1, disk, off, cluster =>
      if off < size then
        let disk := writeCluster disk bpb cluster fun k => buf (off + k)
        if fatDefined bpb then
          let table := readFat disk bpb cluster zeroed
          let next := fatWord table (fatIndex bpb cluster)
          if fat32Eoc next then
            let r := extendChain disk bpb cluster table
            writePieces bpb buf size fuel r.2 (off + bytesPerCluster bpb) r.1
          else writePieces bpb buf size fuel disk (off + bytesPerCluster bpb) next
        else none
      else some disk

/-- The first write takes a cluster and updates the directory: the entry, and the drive. -/
def firstWrite (fuel : Nat) (disk : Disk) (fp : Fat32File) (size : Nat) : Option (DirEntry × Disk) :=
  let r := fat32AllocCluster disk
  updateFrom fp.bpb (fp.entry.setFirstCluster r.1) size r.2 fuel fp.parentEntry.firstCluster

/-- `fat32_write_cluster`: the open file, and the drive. -/
def fat32WriteCluster (fuel : Nat) (disk : Disk) (fp : Fat32File) (buf : Bytes) (size : Nat) :
    Option (Fat32File × Disk) :=
  let start := if fp.entry.firstCluster = 0 then firstWrite fuel disk fp size else some (fp.entry, disk)
  match start with
  | none => none
  | some (entry, disk) =>
      (writePieces fp.bpb buf size fuel disk 0 entry.firstCluster).map fun disk =>
        ({ fp with entry := entry }, disk)

/-! ## Descriptors -/

/-- `fat32_find_file`. -/
def fat32FindFile (files : List Fat32File) (fd : Int) : Option Fat32File :=
  files.find? fun fp => fp.fd = fd

/-- The list with the file of a descriptor replaced. -/
def putFile (files : List Fat32File) (fd : Int) (fp : Fat32File) : List Fat32File :=
  match files with
  | [] => []
  | f :: files => if f.fd = fd then fp :: files else f :: putFile files fd fp

/-- `fat32_read`: the result, and the buffer. -/
def fat32Read (fuel : Nat) (files : List Fat32File) (disk : Disk) (fd : Int) (buf : Bytes)
    (size : Nat) : Option (Int × Bytes) :=
  match fat32FindFile files fd with
  | none => some (-1, buf)
  | some fp => (fat32ReadCluster fuel disk fp buf size).map fun r => (intOfSize (BitVec.ofNat 64 r.1), r.2)

/-- `fat32_write`: the result, the open files and the drive. -/
def fat32Write (fuel : Nat) (files : List Fat32File) (disk : Disk) (fd : Int) (buf : Bytes)
    (size : Nat) : Option (Int × List Fat32File × Disk) :=
  match fat32FindFile files fd with
  | none => some (-1, files, disk)
  | some fp => (fat32WriteCluster fuel disk fp buf size).map fun r => (0, putFile files fd r.1, r.2)

end Rayos
