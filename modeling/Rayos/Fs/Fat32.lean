import Rayos.Lib.ByteStore
import Rayos.Lib.CString

/-!
# The FAT32 driver (`fat32.c`): the volume and its directories

The drive is a store of bytes in sectors of 512 bytes, which `ahci_read` and `ahci_write` transfer.  The
functions follow `fat32.c`: the BIOS parameter block is read again by every call, a FAT entry is a word of
the sector that holds it, and a directory entry is 32 bytes of a cluster.

* Numbers of the source that are 32 bits wide are natural numbers, reduced modulo `2 ^ 32` where the
  source can overflow.
* A loop over a cluster chain need not end; it has a bound `fuel` here, and `none` is a call that has not
  returned after that many clusters.  A division by zero is `none` as well.
* `Junk` is what the stack holds where the code reads variables that it has not set.
* `kzalloc` succeeds, and a transfer of the drive too.
-/

namespace Rayos

open LittleEndian ByteStore CString

/-- The bytes of the drive. -/
abbrev Disk := Nat → BitVec 8

/-- A buffer in memory. -/
abbrev Bytes := Nat → BitVec 8

/-- What `kzalloc` returns. -/
def zeroed : Bytes := fun _ => 0#8

/-- `ahci_read`: `count` sectors from `lba` on. -/
def ahciRead (disk : Disk) (lba count : Nat) (buf : Bytes) : Bytes :=
  load disk (lba * 512) (count * 512) buf

/-- `ahci_write`. -/
def ahciWrite (disk : Disk) (lba count : Nat) (buf : Bytes) : Disk :=
  store disk (lba * 512) (count * 512) buf

/-- What uninitialised variables hold. -/
structure Junk where
  /-- `ret` of `fat32_foreach_dirent`. -/
  ret : Int
  /-- `entry` of `fat32_lookup`. -/
  entry : List (BitVec 8)
  /-- `name` of `fat32_make_lfn_entry`. -/
  name : Nat → BitVec 16

/-! ## The parameter block and the FAT -/

/-- The fields of `struct fat32_bpb` that are used. -/
structure Fat32Bpb where
  bytesPerSector : Nat
  sectorsPerCluster : Nat
  reservedSectorCount : Nat
  numFats : Nat
  fatSize32 : Nat
  rootCluster : Nat
  deriving DecidableEq

/-- The fields, in the first sector. -/
def bpbOf (buf : Bytes) : Fat32Bpb where
  bytesPerSector := leNat buf 0x0b 2
  sectorsPerCluster := leNat buf 0x0d 1
  reservedSectorCount := leNat buf 0x0e 2
  numFats := leNat buf 0x10 1
  fatSize32 := leNat buf 0x24 4
  rootCluster := leNat buf 0x2c 4

/-- `ahci_read(port, 0, 1, bpb)`. -/
def readBpb (disk : Disk) : Fat32Bpb := bpbOf (ahciRead disk 0 1 zeroed)

/-- The macro `FAT32_EOC(x)`. -/
def fat32Eoc (x : Nat) : Bool := 0x0ffffff8 ≤ x

/-- `data_start_lba`. -/
def dataStartLba (bpb : Fat32Bpb) : Nat :=
  (bpb.reservedSectorCount + bpb.fatSize32 * bpb.numFats) % 2 ^ 32

/-- `cluster_to_lba`; clusters 0 and 1 have the sector 0. -/
def clusterToLba (bpb : Fat32Bpb) (cluster : Nat) : Nat :=
  if cluster < 2 then 0
  else (dataStartLba bpb + (cluster - 2) * bpb.sectorsPerCluster) % 2 ^ 32

/-- The sectors of a cluster. -/
def readCluster (disk : Disk) (bpb : Fat32Bpb) (cluster : Nat) (buf : Bytes) : Bytes :=
  ahciRead disk (clusterToLba bpb cluster) bpb.sectorsPerCluster buf

/-- Write a cluster. -/
def writeCluster (disk : Disk) (bpb : Fat32Bpb) (cluster : Nat) (buf : Bytes) : Disk :=
  ahciWrite disk (clusterToLba bpb cluster) bpb.sectorsPerCluster buf

/-- `cluster * sizeof(uint32_t) / bpb->bytes_per_sector`: the sector of the FAT. -/
def fatSector (bpb : Fat32Bpb) (cluster : Nat) : Nat := cluster * 4 / bpb.bytesPerSector

/-- `cluster % bpb->bytes_per_sector % (bpb->bytes_per_sector / sizeof(uint32_t))`: the index in it. -/
def fatIndex (bpb : Fat32Bpb) (cluster : Nat) : Nat :=
  cluster % bpb.bytesPerSector % (bpb.bytesPerSector / 4)

/-- `fat_table[i]`. -/
def fatWord (table : Bytes) (i : Nat) : Nat := leNat table (4 * i) 4

/-- `fat_table[i] = value`. -/
def setFatWord (table : Bytes) (i value : Nat) : Bytes := putLe table (4 * i) 4 value

/-- The sector of the FAT that holds the entry of `cluster`. -/
def readFat (disk : Disk) (bpb : Fat32Bpb) (cluster : Nat) (table : Bytes) : Bytes :=
  ahciRead disk (bpb.reservedSectorCount + fatSector bpb cluster) 1 table

/-- The divisions of `fatSector` and `fatIndex` are defined. -/
def fatDefined (bpb : Fat32Bpb) : Bool := 4 ≤ bpb.bytesPerSector

/-- The loop that writes a sector back to the first `n` copies of the FAT; `lba j` is its place in
copy `j`. -/
def writeFats (disk : Disk) (lba : Nat → Nat) (table : Bytes) : Nat → Disk
  | 0 => disk
  | n + 1 => ahciWrite (writeFats disk lba table n) (lba n) 1 table

/-- The loop of `__fat32_alloc_cluster` over the sectors of the FAT; `table` is the buffer. -/
def allocScan (disk : Disk) (bpb : Fat32Bpb) (table : Bytes) : Nat → Nat → Nat × Disk
  | 0, _ => (0xffffffff, disk)
  | n + 1, nrFat =>
      let entriesPerSector := bpb.bytesPerSector / 32
      let table := ahciRead disk (bpb.reservedSectorCount + nrFat) 1 table
      match (List.range entriesPerSector).find? fun i => fatWord table i == 0 with
      | some i =>
          ((nrFat * entriesPerSector + i) % 2 ^ 32,
            writeFats disk
              (fun j => (bpb.reservedSectorCount + bpb.fatSize32 * j + nrFat) % 2 ^ 32)
              (setFatWord table i 0x0fffffff) bpb.numFats)
      | none => allocScan disk bpb table n (nrFat + 1)

/-- `__fat32_alloc_cluster`: the number that is returned, and the drive. -/
def fat32AllocCluster (disk : Disk) : Nat × Disk :=
  allocScan disk (readBpb disk) zeroed (readBpb disk).fatSize32 0

/-- Where the chain ends, a new cluster is taken and linked: the cluster that the chain goes on with, and
the drive with the cluster cleared.  The place of the FAT sector is a 64-bit sum. -/
def extendChain (disk : Disk) (bpb : Fat32Bpb) (cluster : Nat) (table : Bytes) : Nat × Disk :=
  let r := fat32AllocCluster disk
  let table := setFatWord (readFat r.2 bpb cluster table) (fatIndex bpb cluster) r.1
  let disk := writeFats r.2
    (fun j => (bpb.reservedSectorCount + bpb.fatSize32 * j) % 2 ^ 32 + fatSector bpb cluster)
    table bpb.numFats
  (r.1, writeCluster disk bpb r.1 zeroed)

/-! ## Directory entries -/

/-- The 32 bytes of a `struct fat32_dir_entry`. -/
abbrev DirEntry := List (BitVec 8)

/-- Entry `i` of a cluster. -/
def dirSlot (buf : Bytes) (i : Nat) : DirEntry := (List.range 32).map fun k => buf (32 * i + k)

/-- Store entry `i` of a cluster. -/
def putSlot (buf : Bytes) (i : Nat) (entry : DirEntry) : Bytes :=
  fun a => if 32 * i ≤ a ∧ a < 32 * i + 32 then entry.getD (a - 32 * i) 0#8 else buf a

namespace DirEntry

/-- The bytes of an entry as a buffer. -/
def bytes (entry : DirEntry) : Bytes := fun k => entry.getD k 0#8

/-- `sfn_entry.name[0]`, which is also `lfn_entry.order`. -/
def name0 (entry : DirEntry) : BitVec 8 := entry.bytes 0

/-- `sfn_entry.name`. -/
def name (entry : DirEntry) : List (BitVec 8) := entry.take 11

/-- `attr`. -/
def attr (entry : DirEntry) : BitVec 8 := entry.bytes 11

/-- `(first_cluster_hi << 16) + first_cluster_lo`. -/
def firstCluster (entry : DirEntry) : Nat :=
  leNat entry.bytes 20 2 * 2 ^ 16 + leNat entry.bytes 26 2

/-- `file_size`. -/
def fileSize (entry : DirEntry) : Nat := leNat entry.bytes 28 4

/-- The UTF-16 units from `off` on. -/
def units (entry : DirEntry) (off count : Nat) : List (BitVec 16) :=
  (List.range count).map fun k => BitVec.ofNat 16 (leNat entry.bytes (off + 2 * k) 2)

/-- The 32 bytes of a buffer. -/
def ofBytes (buf : Bytes) : DirEntry := (List.range 32).map buf

end DirEntry

/-- `SFN_NAME0_FREE`. -/
def sfnName0Free : BitVec 8 := 0x00#8

/-- `SFN_NAME0_DELETED`. -/
def sfnName0Deleted : BitVec 8 := 0xe5#8

/-- `ATTR_LONG_NAME`. -/
def attrLongName : BitVec 8 := 0x0f#8

/-- `ATTR_ARCHIVE`. -/
def attrArchive : BitVec 8 := 0x20#8

/-- `ATTR_DIRECTORY`. -/
def attrDirectory : BitVec 8 := 0x10#8

/-- The byte `'.'`. -/
def dotByte : BitVec 8 := 0x2e#8

/-- The byte `' '`. -/
def spaceByte : BitVec 8 := 0x20#8

/-! ## Names -/

/-- `utf16_to_ascii`: what it stores. -/
def utf16ToAscii (units : List (BitVec 16)) : List (BitVec 8) :=
  (units.takeWhile (· ≠ 0#16)).map fun ch => if ch ≤ 0x7f#16 then ch.setWidth 8 else 0x3f#8

/-- Store a list of bytes in a buffer. -/
def putBytes (buf : Bytes) (off : Nat) (bytes : List (BitVec 8)) : Bytes :=
  fun a => if off ≤ a ∧ a < off + bytes.length then bytes.getD (a - off) 0#8 else buf a

/-- `fat32_lfn_concat`.  The fragment with the number 0 is stored before the buffer. -/
def fat32LfnConcat (entry : DirEntry) (buf : Bytes) : Bytes :=
  let order := (entry.name0 &&& 0x1f#8).toNat
  if order = 0 then buf
  else
    let offset := (order - 1) * 13
    let buf := putBytes buf offset (utf16ToAscii (entry.units 1 5))
    let buf := putBytes buf (offset + 5) (utf16ToAscii (entry.units 14 6))
    putBytes buf (offset + 11) (utf16ToAscii (entry.units 28 2))

/-- `sfn_to_ascii`: what it stores before the terminator. -/
def sfnToAscii (sfn : List (BitVec 8)) : List (BitVec 8) :=
  let base := (sfn.take 8).takeWhile (· ≠ spaceByte)
  if sfn.getD 8 0#8 = spaceByte then base
  else base ++ dotByte :: ((sfn.drop 8).take 3).takeWhile (· ≠ spaceByte)

/-- The string in a list of bytes. -/
def cutAtNul (bytes : List (BitVec 8)) : Str := bytes.takeWhile (· ≠ 0#8)

/-- `FAT32_LFN_MAX_LEN`. -/
def fat32LfnMaxLen : Nat := 512

/-- The name under which an entry is looked up: the fragments in `lfn`, or else its short name. -/
def lookupName (entry : DirEntry) (lfn : Bytes) : Str :=
  if lfn 0 = 0#8 then cutAtNul (sfnToAscii entry.name)
  else cutAtNul ((List.range fat32LfnMaxLen).map lfn)

/-- `fat32_compare_callback` returns 0. -/
def fat32Compare (entry : DirEntry) (lfn : Bytes) (target : Str) : Bool :=
  let name := lookupName entry lfn
  strncmpEq target name (name.length + 1)

/-- `toupper`. -/
def toupper (c : BitVec 8) : BitVec 8 := if 0x61#8 ≤ c ∧ c ≤ 0x7a#8 then c - 32#8 else c

/-- Overwrite the list from position `off` on. -/
def overwrite (l : List (BitVec 8)) (off : Nat) (bytes : List (BitVec 8)) : List (BitVec 8) :=
  l.take off ++ bytes ++ l.drop (off + bytes.length)

/-- `ascii_to_sfn`: the 11 bytes. -/
def asciiToSfn (name : Str) : List (BitVec 8) :=
  let sfn := List.replicate 11 spaceByte
  let dot := strrchr name dotByte
  let base := match dot with
    | some i => name.take i
    | none => name
  let ext := match dot with
    | some i => name.drop (i + 1)
    | none => []
  if ¬ (base.length > 8 ∨ ext.length > 3) then
    overwrite (overwrite sfn 0 (base.map toupper)) 8 (ext.map toupper)
  else
    let short := (base.take 6).map fun c => if toupper c = spaceByte then 0x5f#8 else toupper c
    overwrite (overwrite (overwrite sfn 0 short) 6 [0x7e#8, 0x31#8]) 8 ((ext.take 3).map toupper)

/-- `fat32_is_sfn_char`. -/
def fat32IsSfnChar (ch : BitVec 8) : Bool :=
  (0x41#8 ≤ ch ∧ ch ≤ 0x5a#8) || (0x30#8 ≤ ch ∧ ch ≤ 0x39#8) ||
    ch ∈ [0x24#8, 0x25#8, 0x27#8, 0x2d#8, 0x5f#8, 0x40#8, 0x7e#8, 0x60#8, 0x21#8, 0x28#8, 0x29#8,
      0x7b#8, 0x7d#8, 0x5e#8, 0x23#8, 0x26#8]

/-- `fat32_need_lfn`. -/
def fat32NeedLfn (name : Str) : Bool :=
  name.isEmpty ||
    (match strrchr name dotByte with
      | some i => i == 0 || 8 < i || 3 < (name.drop (i + 1)).length
      | none => 8 < name.length) ||
    name.any fun ch => ch ≠ dotByte ∧
      ((0x61#8 ≤ ch ∧ ch ≤ 0x7a#8) ∨ 0x7f#8 < ch ∨ fat32IsSfnChar ch = false)

/-- `ascii_to_utf16` into the array `utf16`: the characters, a zero, and what the array held. -/
def asciiToUtf16 (ascii : Bytes) (maxChars : Nat) (utf16 : Nat → BitVec 16) : Nat → BitVec 16 :=
  let len := (((List.range maxChars).map ascii).takeWhile (· ≠ 0#8)).length
  fun k => if k < len then (ascii k).setWidth 16 else if k = len then 0#16 else utf16 k

/-- Store UTF-16 units in an entry. -/
def putUnits (buf : Bytes) (off count : Nat) (units : Nat → BitVec 16) : Bytes :=
  fun a =>
    if off ≤ a ∧ a < off + 2 * count then
      BitVec.ofNat 8 ((units ((a - off) / 2)).toNat / 256 ^ ((a - off) % 2))
    else buf a

/-- `fat32_make_lfn_entry`, on the bytes that the entry has; `fn` is where the fragment starts. -/
def fat32MakeLfnEntry (junk : Junk) (entry : DirEntry) (fn : Bytes) (order : Nat) : DirEntry :=
  let name := asciiToUtf16 fn 5 junk.name
  let buf := putUnits entry.bytes 1 5 name
  let name := asciiToUtf16 (fun k => fn (5 + k)) 6 name
  let buf := putUnits buf 14 6 name
  let name := asciiToUtf16 (fun k => fn (11 + k)) 2 name
  let buf := putUnits buf 28 2 name
  let buf := putLe buf 0 1 order
  DirEntry.ofBytes (putBytes buf 11 [attrLongName, 0#8, 0#8])

/-- `fat32_make_sfn_entry`, on the bytes that the entry has. -/
def fat32MakeSfnEntry (entry : DirEntry) (fn : Str) : DirEntry :=
  let buf := putBytes entry.bytes 0 (asciiToSfn fn)
  let buf := putBytes buf 11 [attrArchive]
  let buf := putLe buf 28 4 0
  let buf := putLe buf 20 2 0
  let buf := putLe buf 26 2 0
  let buf := putLe buf 24 2 2026
  let buf := putLe buf 22 2 19923
  DirEntry.ofBytes (putLe buf 18 2 0)

/-! ## Looking up -/

/-- What the loop over the entries of a cluster has found. -/
inductive SlotScan where
  | found (entry : DirEntry)
  /-- A free entry: the end of the directory. -/
  | ended
  /-- On with the next cluster: `lfn` and `ret`. -/
  | more (lfn : Bytes) (ret : Int)

/-- The loop of `fat32_foreach_dirent` over the entries `i, i + 1, …` of a cluster, with
`fat32_compare_callback`. -/
def scanSlots (buf : Bytes) (target : Str) : Nat → Nat → Bytes → Int → SlotScan
  | 0, _, lfn, ret => .more lfn ret
  | n + 1, i, lfn, ret =>
      let entry := dirSlot buf i
      if entry.name0 = sfnName0Free then .ended
      else if entry.name0 = sfnName0Deleted then scanSlots buf target n (i + 1) lfn ret
      else if entry.attr = attrLongName then
        scanSlots buf target n (i + 1) (fat32LfnConcat entry lfn) ret
      else if fat32Compare entry lfn target then .found entry
      else scanSlots buf target n (i + 1) zeroed (-1)

/-- `bpb->bytes_per_sector * bpb->sectors_per_cluster / sizeof(struct fat32_dir_entry)`. -/
def entriesPerCluster (bpb : Fat32Bpb) : Nat := bpb.bytesPerSector * bpb.sectorsPerCluster / 32

/-- The loop of `fat32_foreach_dirent` over the clusters of a directory. -/
def foreachFrom (disk : Disk) (bpb : Fat32Bpb) (target : Str) :
    Nat → Nat → Bytes → Int → Option (Int × Option DirEntry)
  | 0, _, _, _ => none
  | fuel + 1, dirCluster, lfn, ret =>
      if fat32Eoc dirCluster then some (ret, none)
      else
        match scanSlots (readCluster disk bpb dirCluster zeroed) target (entriesPerCluster bpb) 0
          lfn ret with
        | .found entry => some (0, some entry)
        | .ended => some (-1, none)
        | .more lfn ret =>
            if fatDefined bpb then
              foreachFrom disk bpb target fuel
                (fatWord (readFat disk bpb dirCluster zeroed) (fatIndex bpb dirCluster)) lfn ret
            else none

/-- `fat32_foreach_dirent` with `fat32_compare_callback`: the result, and the entry that it has copied. -/
def fat32ForeachDirent (fuel : Nat) (junk : Junk) (disk : Disk) (dirCluster : Nat) (target : Str) :
    Option (Int × Option DirEntry) :=
  foreachFrom disk (readBpb disk) target fuel dirCluster zeroed junk.ret

/-- `path_next`: the next component and what follows it. -/
def pathNext (path : Str) : Option (Str × Str) :=
  match path.dropWhile (· = slash) with
  | [] => none
  | rest => some (rest.takeWhile (· ≠ slash), rest.dropWhile (· ≠ slash))

/-- The components that a loop over `path_next` sees. -/
def pathComponents : Nat → Str → List Str
  | 0, _ => []
  | n + 1, path =>
      match pathNext path with
      | none => []
      | some (name, rest) => name :: pathComponents n rest

/-- The components of a path. -/
def components (path : Str) : List Str := pathComponents path.length path

/-- The loop of `fat32_lookup` over the components; `entry` is the last that has been found. -/
def lookupEntryFrom (fuel : Nat) (junk : Junk) (disk : Disk) :
    List Str → Nat → DirEntry → Option (Int × Option DirEntry)
  | [], _, entry => some (0, some entry)
  | name :: rest, cluster, entry =>
      match fat32ForeachDirent fuel junk disk cluster name with
      | none => none
      | some (ret, found) =>
          if ret < 0 then some (ret, none)
          else
            let entry := found.getD entry
            lookupEntryFrom fuel junk disk rest entry.firstCluster entry

/-- `fat32_lookup`: the result, and what `entry_result` is set to. -/
def fat32Lookup (fuel : Nat) (junk : Junk) (disk : Disk) (path : Str) :
    Option (Int × Option DirEntry) :=
  lookupEntryFrom fuel junk disk (components path) (readBpb disk).rootCluster junk.entry

/-! ## Creating -/

/-- `LFN_ORDER_LAST_ENTRY`. -/
def lfnOrderLastEntry : Nat := 0x40

/-- A slot is free for `fat32_create`. -/
def slotFree (entry : DirEntry) : Bool :=
  entry.name0 = sfnName0Free || entry.name0 = sfnName0Deleted

/-- What the loop over the entries of a cluster has done. -/
inductive SlotFill where
  /-- The short entry has been written. -/
  | done (disk : Disk)
  /-- On with the next cluster: `nr_lfn`. -/
  | more (disk : Disk) (nrLfn : Nat)

/-- The loop of `fat32_create` over the entries `i, i + 1, …` of the cluster.  The last fragment is
written first; `fn_step` is `fn + (nr_lfn - 1) * 13`. -/
def fillSlots (junk : Junk) (bpb : Fat32Bpb) (fn : Str) (cluster nrTotalEntries : Nat) :
    Nat → Nat → Disk → Bytes → Nat → SlotFill
  | 0, _, disk, _, nrLfn => .more disk nrLfn
  | n + 1, i, disk, buf, nrLfn =>
      let entry := dirSlot buf i
      if slotFree entry then
        if fat32NeedLfn fn && 1 ≤ nrLfn then
          let order := if nrTotalEntries - nrLfn = 1 then lfnOrderLastEntry ||| nrLfn else nrLfn
          let buf := putSlot buf i
            (fat32MakeLfnEntry junk entry (fun k => fn.getD ((nrLfn - 1) * 13 + k) 0#8) order)
          fillSlots junk bpb fn cluster nrTotalEntries n (i + 1) (writeCluster disk bpb cluster buf) buf
            (nrLfn - 1)
        else .done (writeCluster disk bpb cluster (putSlot buf i (fat32MakeSfnEntry entry fn)))
      else fillSlots junk bpb fn cluster nrTotalEntries n (i + 1) disk buf nrLfn

/-- The loop of `fat32_create` over the clusters of the directory. -/
def createFrom (junk : Junk) (bpb : Fat32Bpb) (fn : Str) (nrTotalEntries : Nat) :
    Nat → Disk → Nat → Nat → Option Disk
  | 0, _, _, _ => none
  | fuel + 1, disk, dirCluster, nrLfn =>
      if fat32Eoc dirCluster then some disk
      else
        match fillSlots junk bpb fn dirCluster nrTotalEntries (entriesPerCluster bpb) 0 disk
          (readCluster disk bpb dirCluster zeroed) nrLfn with
        | .done disk => some disk
        | .more disk nrLfn =>
            if fatDefined bpb then
              let table := readFat disk bpb dirCluster zeroed
              let next := fatWord table (fatIndex bpb dirCluster)
              if fat32Eoc next then
                let r := extendChain disk bpb dirCluster table
                createFrom junk bpb fn nrTotalEntries fuel r.2 r.1 nrLfn
              else createFrom junk bpb fn nrTotalEntries fuel disk next nrLfn
            else none

/-- The loop of `fat32_create` that cuts the last component off: it stops at a `/` and at the first
character. -/
def cutLast (path : Str) : Str :=
  match path.reverse.dropWhile (· ≠ slash) with
  | [] => path.take 1
  | kept => kept.reverse

/-- `fat32_create`: the result and the drive.  The name is what the first call of `path_next` yields; a
path without one is looped over for ever. -/
def fat32Create (fuel : Nat) (junk : Junk) (disk : Disk) (path : Str) : Option (Int × Disk) :=
  match fat32Lookup fuel junk disk path with
  | none => none
  | some (ret, _) =>
      if ret = 0 then some (-1, disk)
      else
        let bpb := readBpb disk
        match pathNext path with
        | none => none
        | some (fn, _) =>
            let dir := cutLast path
            let nrLfn := fn.length / 13 + 1
            if dir = [slash] then
              (createFrom junk bpb fn (nrLfn + 1) fuel disk 2 nrLfn).map fun disk => (0, disk)
            else
              match fat32Lookup fuel junk disk dir with
              | none => none
              | some (ret, entry) =>
                  if ret < 0 then some (-1, disk)
                  else
                    (createFrom junk bpb fn (nrLfn + 1) fuel disk (entry.getD []).firstCluster
                      nrLfn).map fun disk => (0, disk)

end Rayos
