import Mathlib.Data.List.GetD
import Rayos.Fs.Fat32Write

/-!
# Reading a file (`fat32_read`)

The loop of `fat32_read_cluster` follows the chain and does not look at `file_size`: it stores clusters until
`size` or the chain is used up, and what it returns is what is left of `size` then.  A file without a cluster
is read from sector 0.
-/

namespace Rayos

open LittleEndian ByteStore

/-- Byte `a` of a chain. -/
def fileByte (disk : Disk) (bpb : Fat32Bpb) (chain : List Nat) (a : Nat) : BitVec 8 :=
  disk (clusterStart bpb (chain.getD (a / clusterBytes bpb) 0) + a % clusterBytes bpb)

/-- A file that is open on the volume: its chain holds at least its size, and a file without a chain is empty. -/
structure FileOn (disk : Disk) (fp : Fat32File) (chain : List Nat) : Prop where
  bpb : fp.bpb = readBpb disk
  unlinked : fp.entry.firstCluster = 0 → chain = []
  linked : fp.entry.firstCluster ≠ 0 → ChainFrom disk fp.bpb fp.entry.firstCluster chain ∧ chain ≠ []
  fits : fp.entry.fileSize ≤ chain.length * clusterBytes fp.bpb

/-- The call returns the number of bytes that there are of the first `size`, and stores them and nothing else. -/
def ReadsFile (files : List Fat32File) (disk : Disk) (fd : Int) (fp : Fat32File) (chain : List Nat) (size : Nat) :
    Prop :=
  ∀ buf : Bytes, ∃ fuel, fat32Read fuel files disk fd buf size = some (((min size fp.entry.fileSize : Nat) : Int),
    fun a => if a < min size fp.entry.fileSize then fileByte disk fp.bpb chain a else buf a)

/-- When it does: nothing is asked for; or what is asked for is in the file and no more than a cluster; or the
file fills its clusters, more is asked for, and the rest is the size of the file again. -/
def ReadMeets (fp : Fat32File) (chain : List Nat) (size : Nat) : Prop :=
  size = 0 ∨ size ≤ fp.entry.fileSize ∧ size ≤ clusterBytes fp.bpb ∨
    fp.entry.fileSize < size ∧ 0 < fp.entry.fileSize ∧ fp.entry.fileSize = chain.length * clusterBytes fp.bpb ∧
      fp.entry.fileSize < 2 ^ 31 ∧ size % 2 ^ 32 = 2 * fp.entry.fileSize % 2 ^ 32

/-! ## The loop -/

/-- What is left of `size` after `n` clusters, or at the cluster that has the last byte. -/
def leftAfter (bytes : Nat) : Nat → Nat → Nat
  | 0, size => size
  | n + 1, size => if bytes < size then leftAfter bytes n (size - bytes) else size

theorem leftAfter_long {bytes : Nat} : ∀ {n size : Nat}, n * bytes < size →
    leftAfter bytes n size = size - n * bytes
  | 0, size, _ => by rw [Nat.zero_mul, leftAfter, Nat.sub_zero]
  | n + 1, size, h => by
      rw [Nat.succ_mul] at h
      rw [leftAfter, if_pos (by omega), leftAfter_long (by omega), Nat.succ_mul]
      omega

theorem leftAfter_short {bytes n size : Nat} (h : size ≤ bytes) : leftAfter bytes n size = size := by
  cases n with
  | zero => rfl
  | succ n => rw [leftAfter, if_neg (by omega)]

/-- Something is left, in the cluster that has the last byte. -/
theorem leftAfter_le {bytes : Nat} : ∀ {n size : Nat}, 0 < size → size ≤ n * bytes →
    0 < leftAfter bytes n size ∧ leftAfter bytes n size ≤ bytes
  | 0, size, hPos, h => by omega
  | n + 1, size, hPos, h => by
      rw [Nat.succ_mul] at h
      rw [leftAfter]
      split
      · exact leftAfter_le (by omega) (by omega)
      · omega

section Chain

variable {disk : Disk} {bpb : Fat32Bpb}

theorem fileByte_head {c a : Nat} {chain : List Nat} (h : a < clusterBytes bpb) :
    fileByte disk bpb (c :: chain) a = disk (clusterStart bpb c + a) := by
  rw [fileByte, Nat.div_eq_of_lt h, Nat.mod_eq_of_lt h, List.getD_cons_zero]

theorem fileByte_tail (hGeo : Geometry bpb) {c a : Nat} {chain : List Nat} (h : clusterBytes bpb ≤ a) :
    fileByte disk bpb (c :: chain) a = fileByte disk bpb chain (a - clusterBytes bpb) := by
  have hPos := clusterBytes_pos hGeo
  have hDiv : a / clusterBytes bpb = (a - clusterBytes bpb) / clusterBytes bpb + 1 := Nat.div_eq_sub_div hPos h
  rw [fileByte, fileByte, hDiv, List.getD_cons_succ, Nat.mod_eq_sub_mod h]

/-- The loop, along a chain: it has not ended yet, or this is its result. -/
theorem readFrom_chain (hGeo : Geometry bpb) : ∀ (chain : List Nat) (fuel : Nat) {cluster : Nat} (size off : Nat)
    (buf : Bytes), ChainFrom disk bpb cluster chain →
    readFrom disk bpb fuel cluster size off buf = none ∧ fuel ≤ chain.length ∨
      readFrom disk bpb fuel cluster size off buf = some (leftAfter (clusterBytes bpb) chain.length size,
        fun a => if off ≤ a ∧ a < off + min size (chain.length * clusterBytes bpb) then
          fileByte disk bpb chain (a - off) else buf a)
  | chain, 0, _, _, _, _, _ => Or.inl ⟨rfl, Nat.zero_le _⟩
  | [], fuel + 1, cluster, size, off, buf, hChain => by
      have hEnd : fat32Eoc cluster = true := hChain
      right
      rw [readFrom, if_pos hEnd]
      congr 2
      funext a
      rw [if_neg (by rw [List.length_nil, Nat.zero_mul]; omega)]
  | _ :: chain, fuel + 1, cluster, size, off, buf, ⟨rfl, hCluster, hRest⟩ => by
      have hLength : (cluster :: chain).length * clusterBytes bpb =
          chain.length * clusterBytes bpb + clusterBytes bpb := by
        rw [List.length_cons, Nat.succ_mul]
      rw [readFrom, hCluster.not_eoc, if_neg (by decide), hLength]
      simp only [bytesPerCluster_eq hGeo, fatDefined_eq hGeo, if_true]
      by_cases hMore : clusterBytes bpb < size
      · rw [if_pos hMore, fatWord_readFat hGeo]
        rcases readFrom_chain hGeo chain fuel (size - clusterBytes bpb) (off + clusterBytes bpb)
            (store buf off (clusterBytes bpb) (readCluster disk bpb cluster zeroed)) hRest with
          ⟨hNone, hFuel⟩ | hSome
        · exact Or.inl ⟨hNone, Nat.succ_le_succ hFuel⟩
        · right
          rw [hSome, List.length_cons, leftAfter, if_pos hMore]
          congr 2
          funext a
          -- behind this cluster, in it, or outside of both
          by_cases hAfter : off + clusterBytes bpb ≤ a
          · rw [store_of_outside (Or.inr hAfter), fileByte_tail hGeo (show clusterBytes bpb ≤ a - off by omega),
              Nat.sub_sub]
            split_ifs <;> first | rfl | omega
          · rw [if_neg (by omega)]
            by_cases hBefore : a < off
            · rw [store_of_outside (Or.inl hBefore), if_neg (by omega)]
            · rw [store, if_pos (by omega), if_pos (by omega), fileByte_head (by omega),
                readCluster_of_lt (by omega)]
      · right
        rw [if_neg hMore, List.length_cons, leftAfter, if_neg hMore]
        congr 2
        funext a
        by_cases hIn : off ≤ a ∧ a < off + size
        · rw [store, if_pos hIn, if_pos (by omega), fileByte_head (by omega), readCluster_of_lt (by omega)]
        · rw [store, if_neg hIn, if_neg (by omega)]

/-- What is below `off` stays. -/
theorem readFrom_below {r : Nat × Bytes} : ∀ (fuel : Nat) {cluster size off : Nat} {buf : Bytes},
    readFrom disk bpb fuel cluster size off buf = some r → ∀ a, a < off → r.2 a = buf a
  | 0, _, _, _, _, h => by cases h
  | fuel + 1, cluster, size, off, buf, h => by
      intro a ha
      rw [readFrom] at h
      split at h
      · cases h
        rfl
      · simp only at h
        split at h
        · split at h
          · rw [readFrom_below fuel h a (by omega), store_of_outside (Or.inl ha)]
          · cases h
        · cases h
          exact store_of_outside (Or.inl ha)

/-- A file without a cluster: the first byte that is stored is the first of the drive. -/
theorem readFrom_zero (hGeo : Geometry bpb) {fuel size : Nat} {buf : Bytes} {r : Nat × Bytes} (hSize : 0 < size)
    (h : readFrom disk bpb fuel 0 size 0 buf = some r) : r.2 0 = disk 0 := by
  have hPos := clusterBytes_pos hGeo
  have hStart : clusterStart bpb 0 = 0 := by
    rw [clusterStart, clusterToLba, if_pos (by decide)]
  have hByte : readCluster disk bpb 0 zeroed 0 = disk 0 := by
    rw [readCluster_of_lt hPos, hStart]
  cases fuel with
  | zero => cases h
  | succ fuel =>
      rw [readFrom, if_neg (by decide)] at h
      simp only [bytesPerCluster_eq hGeo, fatDefined_eq hGeo, if_true] at h
      split at h
      · rw [readFrom_below fuel h 0 (by omega), store, if_pos (by omega), hByte]
      · cases h
        show store buf 0 size (readCluster disk bpb 0 zeroed) 0 = disk 0
        rw [store, if_pos (by omega), hByte]

end Chain

/-! ## The call -/

section Read

variable {files : List Fat32File} {disk : Disk} {fd : Int} {fp : Fat32File} {chain : List Nat} {size : Nat}

/-- A file with a chain: what the call returns and stores. -/
theorem fat32Read_linked (hGeo : Geometry (readBpb disk)) (hFind : fat32FindFile files fd = some fp)
    (hFile : FileOn disk fp chain) (hLinked : fp.entry.firstCluster ≠ 0) (buf : Bytes) (fuel : Nat) :
    fat32Read fuel files disk fd buf size = none ∧ fuel ≤ chain.length ∨
      fat32Read fuel files disk fd buf size =
        some (intOfSize (BitVec.ofNat 64 (leftAfter (clusterBytes fp.bpb) chain.length size)),
          fun a => if a < min size (chain.length * clusterBytes fp.bpb) then fileByte disk fp.bpb chain a
            else buf a) := by
  rw [← hFile.bpb] at hGeo
  rw [fat32Read, hFind]
  simp only [fat32ReadCluster]
  rcases readFrom_chain hGeo chain fuel size 0 buf (hFile.linked hLinked).1 with ⟨hNone, hFuel⟩ | hSome
  · rw [hNone]
    exact Or.inl ⟨rfl, hFuel⟩
  · rw [hSome]
    right
    simp only [Option.map_some, Nat.zero_le, true_and, Nat.zero_add, Nat.sub_zero]

/-- Nothing is stored when nothing is asked for. -/
theorem readsFile_zero (hFind : fat32FindFile files fd = some fp) : ReadsFile files disk fd fp chain 0 := by
  intro buf
  have hKept : ∀ m : Bytes, store buf 0 0 m = buf := fun m => funext fun a => store_of_outside (by omega)
  refine ⟨1, ?_⟩
  rw [fat32Read, hFind]
  simp only [fat32ReadCluster, readFrom, Nat.not_lt_zero, if_false, hKept, ite_self, Nat.zero_min]
  rfl

/-- A file without a cluster is not read right when anything is asked for. -/
theorem not_readsFile_unlinked (hGeo : Geometry (readBpb disk)) (hFind : fat32FindFile files fd = some fp)
    (hFile : FileOn disk fp chain) (hFirst : fp.entry.firstCluster = 0) (hSize : 0 < size) :
    ¬ ReadsFile files disk fd fp chain size := by
  intro hReads
  rw [← hFile.bpb] at hGeo
  have hEmpty : fp.entry.fileSize = 0 := by
    have hFits := hFile.fits
    rw [hFile.unlinked hFirst, List.length_nil, Nat.zero_mul] at hFits
    exact Nat.le_zero.mp hFits
  -- a buffer whose first byte is not the first byte of the drive
  obtain ⟨fuel, hRun⟩ := hReads fun _ => ~~~ disk 0
  rw [fat32Read, hFind] at hRun
  obtain ⟨r, hRead, hEq⟩ := Option.map_eq_some_iff.mp hRun
  rw [fat32ReadCluster, hFirst] at hRead
  have hByte := readFrom_zero hGeo hSize hRead
  have hOut := congrFun (congrArg Prod.snd hEq) 0
  simp only [hByte, hEmpty, Nat.min_zero, Nat.lt_irrefl, if_false] at hOut
  bv_omega

/-- The result as a number: what is left is at most a cluster, or the rest of `size`. -/
theorem intOfSize_eq_iff {n m : Nat} (hm : m < 2 ^ 32) :
    intOfSize (BitVec.ofNat 64 n) = (m : Int) ↔ m < 2 ^ 31 ∧ n % 2 ^ 32 = m := by
  rw [intOfSize, BitVec.toInt_eq_toNat_cond, BitVec.toNat_setWidth, BitVec.toNat_ofNat]
  split <;> omega

/-- A call for a file with a chain returns the right number and stores the right bytes exactly when both numbers
that `fat32_read` computes are right. -/
theorem readsFile_linked_parts (hGeo : Geometry (readBpb disk)) (hFind : fat32FindFile files fd = some fp)
    (hFile : FileOn disk fp chain) (hLinked : fp.entry.firstCluster ≠ 0) :
    ReadsFile files disk fd fp chain size ↔
      intOfSize (BitVec.ofNat 64 (leftAfter (clusterBytes fp.bpb) chain.length size)) =
          ((min size fp.entry.fileSize : Nat) : Int) ∧
        min size (chain.length * clusterBytes fp.bpb) = min size fp.entry.fileSize := by
  have hFits := hFile.fits
  constructor
  · intro hReads
    -- the buffer holds what the byte after the file is not
    obtain ⟨fuel, hRun⟩ := hReads fun _ => ~~~ fileByte disk fp.bpb chain fp.entry.fileSize
    rcases fat32Read_linked hGeo hFind hFile hLinked
        (fun _ => ~~~ fileByte disk fp.bpb chain fp.entry.fileSize) fuel with ⟨hNone, -⟩ | hSome
    · rw [hNone] at hRun
      cases hRun
    · rw [hSome] at hRun
      have hPair := Option.some.inj hRun
      refine ⟨congrArg Prod.fst hPair, ?_⟩
      -- otherwise the byte after the file is stored
      by_contra hNe
      have hByte := congrFun (congrArg Prod.snd hPair) fp.entry.fileSize
      simp only at hByte
      rw [if_pos (by omega), if_neg (by omega)] at hByte
      bv_omega
  · rintro ⟨hRet, hCount⟩ buf
    rcases fat32Read_linked hGeo hFind hFile hLinked buf (chain.length + 1) with ⟨-, hFuel⟩ | hSome
    · omega
    · refine ⟨chain.length + 1, ?_⟩
      rw [hSome, hRet, hCount]

/-- A file with a chain. -/
theorem readsFile_linked_iff (hGeo : Geometry (readBpb disk)) (hFind : fat32FindFile files fd = some fp)
    (hFile : FileOn disk fp chain) (hLinked : fp.entry.firstCluster ≠ 0) (hSize : 0 < size) :
    ReadsFile files disk fd fp chain size ↔ ReadMeets fp chain size := by
  have hFits := hFile.fits
  have hLt : fp.entry.fileSize < 2 ^ 32 := leNat_lt _ 4 _
  have hMin : min size fp.entry.fileSize < 2 ^ 32 := by omega
  have hNonempty : clusterBytes fp.bpb ≤ chain.length * clusterBytes fp.bpb := by
    have hLength := List.length_pos_of_ne_nil (hFile.linked hLinked).2
    exact Nat.le_mul_of_pos_left _ hLength
  have hCluster : clusterBytes fp.bpb < 2 ^ 31 := by
    have hSectors : fp.bpb.sectorsPerCluster < 256 := by
      rw [hFile.bpb]
      exact leNat_lt _ 1 _
    rw [clusterBytes]
    omega
  rw [readsFile_linked_parts hGeo hFind hFile hLinked, intOfSize_eq_iff hMin]
  unfold ReadMeets
  have hPos := clusterBytes_pos hGeo
  rw [← hFile.bpb] at hPos
  by_cases hShort : size ≤ clusterBytes fp.bpb
  · -- all of it comes from the first cluster
    rw [leftAfter_short hShort]
    omega
  · by_cases hInside : size ≤ chain.length * clusterBytes fp.bpb
    · -- what is returned lies within the last cluster
      obtain ⟨hLeft, hLe⟩ := leftAfter_le hSize hInside
      generalize leftAfter (clusterBytes fp.bpb) chain.length size = left at hLeft hLe
      omega
    · -- the chain is used up
      rw [leftAfter_long (Nat.lt_of_not_le hInside)]
      omega

/-- **Reading a file.**  The bytes are stored and their number returned exactly when nothing is asked for, when
what is asked for is in the file and no more than a cluster, or when the file fills its clusters and what is
asked for beyond it is its size again. -/
theorem readsFile_iff (hGeo : Geometry (readBpb disk)) (hFind : fat32FindFile files fd = some fp)
    (hFile : FileOn disk fp chain) (size : Nat) :
    ReadsFile files disk fd fp chain size ↔ ReadMeets fp chain size := by
  by_cases hZero : size = 0
  · subst hZero
    exact ⟨fun _ => Or.inl rfl, fun _ => readsFile_zero hFind⟩
  · have hSize := Nat.pos_of_ne_zero hZero
    by_cases hFirst : fp.entry.firstCluster = 0
    · have hNot := not_readsFile_unlinked hGeo hFind hFile hFirst hSize
      have hFits := hFile.fits
      rw [hFile.unlinked hFirst, List.length_nil, Nat.zero_mul] at hFits
      refine ⟨fun hReads => absurd hReads hNot, ?_⟩
      rintro (h | ⟨h, -⟩ | ⟨-, h, -⟩) <;> omega
    · exact readsFile_linked_iff hGeo hFind hFile hFirst hSize

end Read

/-! ## A file of five bytes -/

/-- The volume with cluster 4 taken by a file of five bytes. -/
def fiveVolume : Disk := putBytes fileVolume 528 [0xff#8, 0xff#8, 0xff#8, 0x0f#8]

/-- The record of the file. -/
def fiveRecord : Fat32File := { fileRecord with entry := (fileRecord.entry.setFirstCluster 4).setFileSize 5 }

theorem fiveVolume_geometry : Geometry (readBpb fiveVolume) := by
  have hBpb : readBpb fiveVolume = ⟨512, 1, 1, 1, 1, 2⟩ := by decide
  rw [hBpb]
  constructor <;> decide

theorem fiveRecord_on : FileOn fiveVolume fiveRecord [4] where
  bpb := by decide
  unlinked := fun h => absurd h (by decide)
  linked := fun _ => ⟨.singleton ⟨by decide, by decide, by decide⟩ (by decide), List.cons_ne_nil _ _⟩
  fits := by decide

/-- Three bytes are read. -/
theorem readsFile_iff_three : ReadsFile [fiveRecord] fiveVolume 0 fiveRecord [4] 3 :=
  (readsFile_iff fiveVolume_geometry rfl fiveRecord_on 3).mpr (Or.inr (Or.inl ⟨by decide, by decide⟩))

theorem fileRecord_on : FileOn fileVolume fileRecord [] where
  bpb := fileVolume_bpb.symm
  unlinked := fun _ => rfl
  linked := fun h => absurd (by decide) h
  fits := by decide

/-- Of the five bytes six are read, and from the empty file the first byte of the drive. -/
theorem read_beyond_end :
    (fat32Read 2 [fiveRecord] fiveVolume 0 zeroed 6).map Prod.fst = some 6 ∧ fiveRecord.entry.fileSize = 5 ∧
      ¬ ReadsFile [fiveRecord] fiveVolume 0 fiveRecord [4] 6 ∧
      (fat32Read 2 [fileRecord] fileVolume 0 zeroed 1).map (fun r => (r.1, r.2 0)) = some (1, 0xeb#8) ∧
      fileRecord.entry.fileSize = 0 ∧ ¬ ReadsFile [fileRecord] fileVolume 0 fileRecord [] 1 := by
  refine ⟨by decide, by decide, ?_, by decide, by decide, ?_⟩
  · rw [readsFile_linked_iff fiveVolume_geometry rfl fiveRecord_on (by decide) (by decide)]
    rintro (h | ⟨h, -⟩ | ⟨-, -, h, -⟩)
    · cases h
    · exact absurd h (by decide)
    · exact absurd h (by decide)
  · exact not_readsFile_unlinked fileVolume_geometry rfl fileRecord_on (by decide) (by decide)

end Rayos
