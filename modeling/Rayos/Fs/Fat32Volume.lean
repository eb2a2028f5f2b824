import Rayos.Fs.Fat32

/-!
# The regions of a FAT32 volume

A volume has the boot sector, the copies of the FAT and the clusters, one after the other.  Here the first
copy of the FAT is a function from clusters to words, and the lemmas say what the driver's writes do to
it and what they leave alone.

* `Geometry` is what the parameter block of a consistent volume satisfies.
* `FatSet` is the effect of writing one word to every copy of the FAT.
* `allocCluster_cases` and `extendChain_cases` are the only facts about `__fat32_alloc_cluster` and the
  growth of a chain that other modules use.  The allocator looks at 16 of the 128 words of each sector
  and counts 16 clusters a sector: the cluster it returns is the one whose word it has set only when it
  is found in the first sector.
-/

namespace Rayos

open LittleEndian ByteStore CString

/-- The parameter block of a consistent volume with sectors of 512 bytes. -/
structure Geometry (bpb : Fat32Bpb) : Prop where
  bytes : bpb.bytesPerSector = 512
  sectors : 1 ≤ bpb.sectorsPerCluster
  reserved : 1 ≤ bpb.reservedSectorCount
  fats : 1 ≤ bpb.numFats
  size : 1 ≤ bpb.fatSize32
  /-- Cluster numbers have 28 bits. -/
  count : 128 * bpb.fatSize32 ≤ 2 ^ 28
  /-- Sector numbers have 32 bits. -/
  fits : bpb.reservedSectorCount + bpb.fatSize32 * bpb.numFats +
    128 * bpb.fatSize32 * bpb.sectorsPerCluster ≤ 2 ^ 32

/-- The number of words in the FAT. -/
def fatCount (bpb : Fat32Bpb) : Nat := 128 * bpb.fatSize32

/-- The word of a cluster in the first copy of the FAT. -/
def fatEntry (disk : Disk) (bpb : Fat32Bpb) (cluster : Nat) : Nat :=
  leNat disk (bpb.reservedSectorCount * 512 + 4 * cluster) 4

/-- The first byte of the clusters. -/
def dataStart (bpb : Fat32Bpb) : Nat :=
  (bpb.reservedSectorCount + bpb.fatSize32 * bpb.numFats) * 512

/-- The first byte of a cluster. -/
def clusterStart (bpb : Fat32Bpb) (cluster : Nat) : Nat := clusterToLba bpb cluster * 512

/-- The bytes in a cluster. -/
def clusterBytes (bpb : Fat32Bpb) : Nat := bpb.sectorsPerCluster * 512

/-- The number of a cluster: the FAT has a word for it, and it is not an end mark. -/
structure IsCluster (bpb : Fat32Bpb) (cluster : Nat) : Prop where
  two_le : 2 ≤ cluster
  lt_count : cluster < fatCount bpb
  not_eoc : fat32Eoc cluster = false

/-! ## Places -/

section Places

variable {bpb : Fat32Bpb} (hGeo : Geometry bpb)
include hGeo

theorem dataStartLba_eq :
    dataStartLba bpb = bpb.reservedSectorCount + bpb.fatSize32 * bpb.numFats := by
  have hFits := hGeo.fits
  have hSize := hGeo.size
  have hSectors := hGeo.sectors
  have hArea : 0 < 128 * bpb.fatSize32 * bpb.sectorsPerCluster := by positivity
  exact Nat.mod_eq_of_lt (by omega)

/-- The sectors of a cluster. -/
theorem clusterToLba_eq {c : Nat} (hc : IsCluster bpb c) :
    clusterToLba bpb c = bpb.reservedSectorCount + bpb.fatSize32 * bpb.numFats +
      (c - 2) * bpb.sectorsPerCluster := by
  have hFits := hGeo.fits
  have hSectors := hGeo.sectors
  have hBelow : (c - 2) * bpb.sectorsPerCluster < 128 * bpb.fatSize32 * bpb.sectorsPerCluster := by
    refine Nat.mul_lt_mul_of_pos_right ?_ hSectors
    have hCount := hc.lt_count
    have hTwo := hc.two_le
    rw [fatCount] at hCount
    omega
  rw [clusterToLba, if_neg (by have := hc.two_le; omega), dataStartLba_eq hGeo]
  exact Nat.mod_eq_of_lt (by omega)

theorem clusterStart_eq {c : Nat} (hc : IsCluster bpb c) :
    clusterStart bpb c = dataStart bpb + (c - 2) * clusterBytes bpb := by
  rw [clusterStart, clusterToLba_eq hGeo hc, dataStart, clusterBytes]
  ring

theorem dataStart_le_clusterStart {c : Nat} (hc : IsCluster bpb c) :
    dataStart bpb ≤ clusterStart bpb c := by
  rw [clusterStart_eq hGeo hc]
  exact Nat.le_add_right _ _

/-- Clusters do not overlap. -/
theorem clusterStart_disjoint {c d : Nat} (hc : IsCluster bpb c) (hd : IsCluster bpb d) (hNe : c ≠ d) :
    clusterStart bpb c + clusterBytes bpb ≤ clusterStart bpb d ∨
      clusterStart bpb d + clusterBytes bpb ≤ clusterStart bpb c := by
  have hNext : ∀ {i j : Nat}, i < j → i * clusterBytes bpb + clusterBytes bpb ≤ j * clusterBytes bpb := by
    intro i j hLt
    calc i * clusterBytes bpb + clusterBytes bpb = (i + 1) * clusterBytes bpb := by ring
      _ ≤ j * clusterBytes bpb := Nat.mul_le_mul_right _ hLt
  rw [clusterStart_eq hGeo hc, clusterStart_eq hGeo hd]
  have hTwo := hc.two_le
  have hTwo' := hd.two_le
  rcases Nat.lt_or_gt_of_ne hNe with hLt | hLt
  · have := hNext (show c - 2 < d - 2 by omega)
    omega
  · have := hNext (show d - 2 < c - 2 by omega)
    omega

/-- The boot sector and the FAT lie before the clusters. -/
theorem fatEnd_le_dataStart :
    bpb.reservedSectorCount * 512 + 4 * fatCount bpb ≤ dataStart bpb := by
  have hFats := hGeo.fats
  have : bpb.fatSize32 * 1 ≤ bpb.fatSize32 * bpb.numFats := Nat.mul_le_mul_left _ hFats
  rw [fatCount, dataStart]
  omega

theorem fatSector_eq (c : Nat) : fatSector bpb c = c / 128 := by
  rw [fatSector, hGeo.bytes]
  omega

theorem fatIndex_eq (c : Nat) : fatIndex bpb c = c % 128 := by
  rw [fatIndex, hGeo.bytes]
  omega

theorem fatDefined_eq : fatDefined bpb = true := by
  rw [fatDefined, hGeo.bytes]
  rfl

theorem entriesPerCluster_eq : entriesPerCluster bpb = 16 * bpb.sectorsPerCluster := by
  rw [entriesPerCluster, hGeo.bytes]
  omega

/-- The word that is looked up in the sector of the FAT. -/
theorem fatWord_readFat (disk : Disk) (table : Bytes) (c : Nat) :
    fatWord (readFat disk bpb c table) (fatIndex bpb c) = fatEntry disk bpb c := by
  have hIndex : c % 128 < 128 := Nat.mod_lt _ (by decide)
  rw [fatWord, readFat, ahciRead, fatSector_eq hGeo, fatIndex_eq hGeo, leNat_load (by omega), fatEntry]
  refine leNat_congr fun k _ => congrArg disk ?_
  omega

end Places

/-- A word of the FAT is as before where its bytes are. -/
theorem fatEntry_congr {disk disk' : Disk} {bpb : Fat32Bpb} {c : Nat}
    (h : ∀ a, bpb.reservedSectorCount * 512 + 4 * c ≤ a →
      a < bpb.reservedSectorCount * 512 + 4 * c + 4 → disk' a = disk a) :
    fatEntry disk' bpb c = fatEntry disk bpb c := by
  refine leNat_congr fun k hk => h _ (by omega) (by omega)

/-- The parameter block is read from the boot sector. -/
theorem readBpb_congr {disk disk' : Disk} (h : ∀ a, a < 512 → disk' a = disk a) :
    readBpb disk' = readBpb disk := by
  have hField : ∀ off n, off + n ≤ 512 → leNat (ahciRead disk' 0 1 zeroed) off n =
      leNat (ahciRead disk 0 1 zeroed) off n := by
    intro off n hOff
    rw [ahciRead, ahciRead, leNat_load (by omega), leNat_load (by omega)]
    exact leNat_congr fun k hk => h _ (by omega)
  simp only [readBpb, bpbOf]
  rw [hField 0x0b 2 (by omega), hField 0x0d 1 (by omega), hField 0x0e 2 (by omega),
    hField 0x10 1 (by omega), hField 0x24 4 (by omega), hField 0x2c 4 (by omega)]

/-! ## Writing to the FAT -/

theorem ahciWrite_sector_of_eq {disk : Disk} {buf : Bytes} {s k : Nat} (hk : k < 512) :
    ahciWrite disk s 1 buf (s * 512 + k) = buf k := store_of_inside (by omega)

theorem ahciWrite_sector_of_ne {disk : Disk} {buf : Bytes} {lba s k : Nat} (hk : k < 512)
    (hNe : lba ≠ s) : ahciWrite disk lba 1 buf (s * 512 + k) = disk (s * 512 + k) :=
  store_of_outside (by omega)

theorem writeFats_of_ne {disk : Disk} {lba : Nat → Nat} {table : Bytes} {s k : Nat} (hk : k < 512) :
    ∀ {n : Nat}, (∀ j, j < n → lba j ≠ s) →
      writeFats disk lba table n (s * 512 + k) = disk (s * 512 + k) := by
  intro n
  induction n with
  | zero => intro _; rfl
  | succ n ih =>
      intro hNe
      rw [writeFats, ahciWrite_sector_of_ne hk (hNe n (by omega))]
      exact ih fun j hj => hNe j (by omega)

theorem writeFats_of_eq {disk : Disk} {lba : Nat → Nat} {table : Bytes} {s k : Nat} (hk : k < 512) :
    ∀ {n : Nat}, (∃ j, j < n ∧ lba j = s) → writeFats disk lba table n (s * 512 + k) = table k := by
  intro n
  induction n with
  | zero =>
      rintro ⟨j, hj, _⟩
      omega
  | succ n ih =>
      rintro ⟨j, hj, hEq⟩
      rw [writeFats]
      by_cases hLast : lba n = s
      · rw [hLast]
        exact ahciWrite_sector_of_eq hk
      · rw [ahciWrite_sector_of_ne hk hLast]
        refine ih ⟨j, ?_, hEq⟩
        have : j ≠ n := fun hSame => hLast (hSame ▸ hEq)
        omega

/-- A copy of the FAT ends before the clusters. -/
theorem copy_le {bpb : Fat32Bpb} {j : Nat} (hj : j < bpb.numFats) :
    bpb.fatSize32 * j + bpb.fatSize32 ≤ bpb.fatSize32 * bpb.numFats := by
  calc bpb.fatSize32 * j + bpb.fatSize32 = bpb.fatSize32 * (j + 1) := by ring
    _ ≤ bpb.fatSize32 * bpb.numFats := Nat.mul_le_mul_left _ hj

/-- All copies of the FAT are equal. -/
def CopiesEqual (bpb : Fat32Bpb) (disk : Disk) : Prop :=
  ∀ j, j < bpb.numFats → ∀ s, s < bpb.fatSize32 → ∀ k, k < 512 →
    disk ((bpb.reservedSectorCount + bpb.fatSize32 * j + s) * 512 + k) =
      disk ((bpb.reservedSectorCount + s) * 512 + k)

/-- One word of the FAT has been set, in every copy, and nothing else. -/
structure FatSet (bpb : Fat32Bpb) (disk disk' : Disk) (cluster value : Nat) : Prop where
  set : fatEntry disk' bpb cluster = value
  kept : ∀ c, c < fatCount bpb → c ≠ cluster → fatEntry disk' bpb c = fatEntry disk bpb c
  frame : ∀ a, a < bpb.reservedSectorCount * 512 ∨ dataStart bpb ≤ a → disk' a = disk a
  copies : CopiesEqual bpb disk → CopiesEqual bpb disk'

/-- Different sectors of the copies lie at different places. -/
theorem copySector_ne {bpb : Fat32Bpb} {s s' : Nat} (hs : s < bpb.fatSize32) (hs' : s' < bpb.fatSize32)
    (hNe : s' ≠ s) (i j : Nat) :
    bpb.reservedSectorCount + bpb.fatSize32 * i + s ≠ bpb.reservedSectorCount + bpb.fatSize32 * j + s' := by
  intro hEq
  rw [Nat.add_assoc, Nat.add_assoc, Nat.add_left_cancel_iff] at hEq
  have hMod := congrArg (· % bpb.fatSize32) hEq
  simp only [Nat.mul_add_mod, Nat.mod_eq_of_lt hs, Nat.mod_eq_of_lt hs'] at hMod
  exact hNe hMod.symm

/-- A sector that is written to every copy leaves the copies equal. -/
theorem copiesEqual_writeFats {bpb : Fat32Bpb} {disk : Disk} {lba : Nat → Nat} {table : Bytes} {s : Nat}
    (hs : s < bpb.fatSize32)
    (hLba : ∀ j, j < bpb.numFats → lba j = bpb.reservedSectorCount + bpb.fatSize32 * j + s)
    (h : CopiesEqual bpb disk) : CopiesEqual bpb (writeFats disk lba table bpb.numFats) := by
  intro j hj s' hs' k hk
  have hZero : bpb.reservedSectorCount + s' = bpb.reservedSectorCount + bpb.fatSize32 * 0 + s' := by
    omega
  by_cases hSector : s' = s
  · rw [writeFats_of_eq hk ⟨j, hj, by rw [hLba j hj, hSector]⟩, hZero,
      writeFats_of_eq hk ⟨0, by omega, by rw [hLba 0 (by omega), hSector]⟩]
  · -- another sector of a copy is at no place that is written
    have hNe : ∀ j', ∀ i, i < bpb.numFats → lba i ≠ bpb.reservedSectorCount + bpb.fatSize32 * j' + s' := by
      intro j' i hi
      rw [hLba i hi]
      exact copySector_ne hs hs' hSector i j'
    rw [writeFats_of_ne hk (hNe j), hZero, writeFats_of_ne hk (hNe 0), ← hZero]
    exact h j hj s' hs' k hk

/-- Sector `s` of the FAT is written back with one word changed. -/
theorem fatSet_writeFats {bpb : Fat32Bpb} (hGeo : Geometry bpb) {disk : Disk} {lba : Nat → Nat}
    {table : Bytes} {s i value : Nat} (hs : s < bpb.fatSize32) (hi : i < 128) (hValue : value < 2 ^ 32)
    (hLba : ∀ j, j < bpb.numFats → lba j = bpb.reservedSectorCount + bpb.fatSize32 * j + s)
    (hTable : ∀ k, k < 512 → table k = disk ((bpb.reservedSectorCount + s) * 512 + k)) :
    FatSet bpb disk (writeFats disk lba (setFatWord table i value) bpb.numFats) (s * 128 + i)
      value := by
  have hFats := hGeo.fats
  have hFirst : ∃ j, j < bpb.numFats ∧ lba j = bpb.reservedSectorCount + s :=
    ⟨0, hFats, by rw [hLba 0 hFats, Nat.mul_zero, Nat.add_zero]⟩
  -- the words of the first copy that lie in the sector
  have hWord : ∀ k, k < 128 →
      fatEntry (writeFats disk lba (setFatWord table i value) bpb.numFats) bpb (s * 128 + k) =
        leNat (setFatWord table i value) (4 * k) 4 := by
    intro k hk
    refine leNat_congr fun b hb => ?_
    have hPlace : bpb.reservedSectorCount * 512 + 4 * (s * 128 + k) + b =
        (bpb.reservedSectorCount + s) * 512 + (4 * k + b) := by omega
    rw [hPlace]
    exact writeFats_of_eq (by omega) hFirst
  refine ⟨?_, ?_, ?_, copiesEqual_writeFats hs hLba⟩
  · rw [hWord i hi, setFatWord]
    exact leNat_putLe _ (by omega)
  · intro c hCount hNe
    rw [fatCount] at hCount
    by_cases hSector : c / 128 = s
    · have hPlace : c = s * 128 + c % 128 := by omega
      rw [hPlace, hWord _ (by omega), setFatWord, leNat_putLe_of_disjoint _ (by omega)]
      refine leNat_congr fun k hk => ?_
      rw [hTable _ (by omega)]
      exact congrArg _ (by omega)
    · -- no copy is written where the word lies: the sectors of a copy are fewer than its size
      refine leNat_congr fun k hk => ?_
      have hPlace : bpb.reservedSectorCount * 512 + 4 * c + k =
          (bpb.reservedSectorCount + c / 128) * 512 + (4 * (c % 128) + k) := by omega
      rw [hPlace]
      refine writeFats_of_ne (by omega) fun j hj hEq => ?_
      rw [hLba j hj] at hEq
      rcases Nat.eq_zero_or_pos j with hZero | hPos
      · rw [hZero] at hEq
        omega
      · have : bpb.fatSize32 * 1 ≤ bpb.fatSize32 * j := Nat.mul_le_mul_left _ hPos
        omega
  · intro a ha
    have hPlace : a = a / 512 * 512 + a % 512 := by omega
    rw [hPlace]
    refine writeFats_of_ne (by omega) fun j hj hEq => ?_
    rw [hLba j hj] at hEq
    have hCopy := copy_le hj
    rw [dataStart] at ha
    omega

/-! ## Taking a cluster -/

theorem fatWord_sector {bpb : Fat32Bpb} (disk : Disk) (table : Bytes) {s i : Nat} (hi : i < 128) :
    fatWord (ahciRead disk (bpb.reservedSectorCount + s) 1 table) i =
      fatEntry disk bpb (s * 128 + i) := by
  rw [fatWord, ahciRead, leNat_load (by omega), fatEntry]
  exact leNat_congr fun k _ => congrArg disk (by omega)

/-- The allocator has found the word of cluster `128 * s + i` free, and returned `16 * s + i`. -/
structure Taken (bpb : Fat32Bpb) (disk disk' : Disk) (cluster s i : Nat) : Prop where
  sector : s < bpb.fatSize32
  index : i < 16
  free : fatEntry disk bpb (s * 128 + i) = 0
  /-- It is the first of those that are looked at. -/
  first : ∀ c, c < 16 → c < s * 128 + i → fatEntry disk bpb c ≠ 0
  number : cluster = s * 16 + i
  fat : FatSet bpb disk disk' (s * 128 + i) 0x0fffffff

/-- Of the words that the allocator looks at, 16 in each sector, this one is the first that is free. -/
structure ScanFound (bpb : Fat32Bpb) (disk : Disk) (s i : Nat) : Prop where
  sector : s < bpb.fatSize32
  index : i < 16
  free : fatEntry disk bpb (s * 128 + i) = 0
  first : ∀ s' i', i' < 16 → s' < s ∨ s' = s ∧ i' < i → fatEntry disk bpb (s' * 128 + i') ≠ 0

/-- The loop over the sectors. -/
theorem allocScan_cases {bpb : Fat32Bpb} (hBytes : bpb.bytesPerSector = 512) (disk : Disk) :
    ∀ (n s : Nat) (table : Bytes), s + n = bpb.fatSize32 →
      (∀ s' i, s' < s → i < 16 → fatEntry disk bpb (s' * 128 + i) ≠ 0) →
      (allocScan disk bpb table n s = (0xffffffff, disk) ∧
        ∀ s' i, s' < bpb.fatSize32 → i < 16 → fatEntry disk bpb (s' * 128 + i) ≠ 0) ∨
      ∃ s' i table', ScanFound bpb disk s' i ∧
        (∀ k, k < 512 → table' k = disk ((bpb.reservedSectorCount + s') * 512 + k)) ∧
        allocScan disk bpb table n s =
          ((s' * 16 + i) % 2 ^ 32,
            writeFats disk (fun j => (bpb.reservedSectorCount + bpb.fatSize32 * j + s') % 2 ^ 32)
              (setFatWord table' i 0x0fffffff) bpb.numFats) := by
  have hSixteen : 512 / 32 = 16 := rfl
  intro n
  induction n with
  | zero =>
      intro s table hEnd hBefore
      exact Or.inl ⟨rfl, hEnd ▸ hBefore⟩
  | succ n ih =>
      intro s table hEnd hBefore
      rw [allocScan]
      simp only [hBytes, hSixteen]
      have hWord : ∀ i, i < 16 → fatWord (ahciRead disk (bpb.reservedSectorCount + s) 1 table) i =
          fatEntry disk bpb (s * 128 + i) := fun i hi => fatWord_sector disk table (by omega)
      cases hFind : (List.range 16).find? fun i =>
          fatWord (ahciRead disk (bpb.reservedSectorCount + s) 1 table) i == 0 with
      | none =>
          refine ih (s + 1) _ (by omega) fun s' i hs' hi => ?_
          rcases Nat.lt_succ_iff_lt_or_eq.mp hs' with hLt | rfl
          · exact hBefore s' i hLt hi
          · have hNone := List.find?_eq_none.mp hFind i (List.mem_range.mpr hi)
            rw [hWord i hi] at hNone
            simpa using hNone
      | some i =>
          obtain ⟨hZero, hMem, hFirst⟩ := List.find?_range_eq_some.mp hFind
          have hi : i < 16 := List.mem_range.mp hMem
          rw [hWord i hi] at hZero
          refine Or.inr ⟨s, i, _, ⟨by omega, hi, by simpa using hZero, ?_⟩, fun k hk => load_of_lt (by omega), rfl⟩
          rintro s' i' hi' (hLt | ⟨rfl, hLt⟩)
          · exact hBefore s' i' hLt hi'
          · have hNone := hFirst i' hLt
            rw [hWord i' hi'] at hNone
            simpa using hNone

/-- `__fat32_alloc_cluster`: none of the words that it looks at is free, or the first such is taken. -/
theorem allocCluster_cases {disk : Disk} {bpb : Fat32Bpb} (hGeo : Geometry bpb)
    (hBpb : readBpb disk = bpb) :
    (fat32AllocCluster disk = (0xffffffff, disk) ∧
      ∀ c, c < 16 → fatEntry disk bpb c ≠ 0) ∨
    ∃ s i, Taken bpb disk (fat32AllocCluster disk).2 (fat32AllocCluster disk).1 s i := by
  have hSize := hGeo.size
  have hCount := hGeo.count
  have hFits := hGeo.fits
  rw [fat32AllocCluster, hBpb]
  rcases allocScan_cases hGeo.bytes disk bpb.fatSize32 0 zeroed (by omega)
      (fun s _ hs => absurd hs (Nat.not_lt_zero s)) with ⟨hFull, hNone⟩ | ⟨s, i, table, hFound, hTable, hRun⟩
  · refine Or.inl ⟨hFull, fun c hc => ?_⟩
    have hFirst := hNone 0 c (by omega) hc
    rwa [Nat.zero_mul, Nat.zero_add] at hFirst
  · have hSector := hFound.sector
    have hIndex := hFound.index
    rw [hRun]
    refine Or.inr ⟨s, i, hSector, hIndex, hFound.free, fun c hc hLt => ?_, Nat.mod_eq_of_lt (by omega), ?_⟩
    · -- only the first sector has words below 16
      have hFirst := hFound.first 0 c hc (by omega)
      rwa [Nat.zero_mul, Nat.zero_add] at hFirst
    · refine fatSet_writeFats hGeo hSector (by omega) (by decide) (fun j hj => ?_) hTable
      have hCopy := copy_le hj
      exact Nat.mod_eq_of_lt (by omega)

/-- The bytes outside a cluster are as before. -/
def KeptOutside (bpb : Fat32Bpb) (cluster : Nat) (disk disk' : Disk) : Prop :=
  ∀ a, a < clusterStart bpb cluster ∨ clusterStart bpb cluster + clusterBytes bpb ≤ a →
    disk' a = disk a

theorem keptOutside_writeCluster (disk : Disk) (bpb : Fat32Bpb) (cluster : Nat) (buf : Bytes) :
    KeptOutside bpb cluster disk (writeCluster disk bpb cluster buf) :=
  fun _ ha => store_of_outside ha

theorem writeCluster_inside {disk : Disk} {bpb : Fat32Bpb} {cluster : Nat} {buf : Bytes} {k : Nat}
    (hk : k < clusterBytes bpb) :
    writeCluster disk bpb cluster buf (clusterStart bpb cluster + k) = buf k := store_of_inside hk

theorem readCluster_of_lt {disk : Disk} {bpb : Fat32Bpb} {cluster : Nat} {buf : Bytes} {k : Nat}
    (hk : k < clusterBytes bpb) :
    readCluster disk bpb cluster buf k = disk (clusterStart bpb cluster + k) := load_of_lt hk

theorem readCluster_congr {disk disk' : Disk} {bpb : Fat32Bpb} {cluster : Nat} {buf : Bytes}
    (h : ∀ k, k < clusterBytes bpb → disk' (clusterStart bpb cluster + k) = disk (clusterStart bpb cluster + k)) :
    readCluster disk' bpb cluster buf = readCluster disk bpb cluster buf := load_congr h

/-- A chain is linked to the cluster that the allocator returns. -/
theorem fatSet_link {bpb : Fat32Bpb} (hGeo : Geometry bpb) (disk : Disk) {cluster value : Nat}
    (table : Bytes) (hc : cluster < fatCount bpb) (hValue : value < 2 ^ 32) :
    FatSet bpb disk
      (writeFats disk
        (fun j => (bpb.reservedSectorCount + bpb.fatSize32 * j) % 2 ^ 32 + fatSector bpb cluster)
        (setFatWord (readFat disk bpb cluster table) (fatIndex bpb cluster) value) bpb.numFats)
      cluster value := by
  have hFits := hGeo.fits
  rw [fatCount] at hc
  obtain ⟨s, i, hi, rfl⟩ : ∃ s i, i < 128 ∧ cluster = s * 128 + i :=
    ⟨cluster / 128, cluster % 128, by omega, by omega⟩
  have hSector : fatSector bpb (s * 128 + i) = s := by
    rw [fatSector_eq hGeo]
    omega
  have hIndex : fatIndex bpb (s * 128 + i) = i := by
    rw [fatIndex_eq hGeo]
    omega
  rw [hIndex, hSector]
  refine fatSet_writeFats hGeo (by omega) hi hValue ?_ ?_
  · intro j hj
    have hCopy := copy_le hj
    rw [Nat.mod_eq_of_lt (by omega)]
  · intro k hk
    rw [readFat, hSector]
    exact load_of_lt (by omega)

/-- What the growth of a chain at its last cluster does: the drive is full, or a cluster is taken, linked
and cleared. -/
inductive Extended (bpb : Fat32Bpb) (disk : Disk) (cluster : Nat) : Nat × Disk → Prop
  | full (disk' : Disk) (hFull : ∀ c, c < 16 → fatEntry disk bpb c ≠ 0)
      (hLink : FatSet bpb disk disk' cluster 0xffffffff) :
      Extended bpb disk cluster (0xffffffff, writeCluster disk' bpb 0xffffffff zeroed)
  | taken (disk' disk'' : Disk) (new s i : Nat) (hTaken : Taken bpb disk disk' new s i)
      (hLink : FatSet bpb disk' disk'' cluster new) :
      Extended bpb disk cluster (new, writeCluster disk'' bpb new zeroed)

theorem extendChain_cases {disk : Disk} {bpb : Fat32Bpb} (hGeo : Geometry bpb)
    (hBpb : readBpb disk = bpb) {cluster : Nat} (hc : cluster < fatCount bpb) (table : Bytes) :
    Extended bpb disk cluster (extendChain disk bpb cluster table) := by
  rw [extendChain]
  rcases allocCluster_cases hGeo hBpb with ⟨hAlloc, hNone⟩ | ⟨s, i, hTaken⟩
  · rw [hAlloc]
    exact .full _ hNone (fatSet_link hGeo disk table hc (by norm_num))
  · refine .taken _ _ _ s i hTaken (fatSet_link hGeo _ table hc ?_)
    have hSector := hTaken.sector
    have hCount := hGeo.count
    have hIndex := hTaken.index
    rw [hTaken.number]
    omega

/-! ## What is left alone -/

/-- The boot sector is as before. -/
def BootKept (disk disk' : Disk) : Prop := ∀ a, a < 512 → disk' a = disk a

theorem bootKept_of_fatSet {bpb : Fat32Bpb} (hGeo : Geometry bpb) {disk disk' : Disk} {c v : Nat}
    (h : FatSet bpb disk disk' c v) : BootKept disk disk' := by
  intro a ha
  have hReserved := hGeo.reserved
  exact h.frame a (Or.inl (by omega))

theorem bootKept_of_keptOutside {bpb : Fat32Bpb} (hGeo : Geometry bpb) {disk disk' : Disk} {c : Nat}
    (hc : IsCluster bpb c) (h : KeptOutside bpb c disk disk') : BootKept disk disk' := by
  intro a ha
  have hReserved := hGeo.reserved
  have hStart := dataStart_le_clusterStart hGeo hc
  have hFat := fatEnd_le_dataStart hGeo
  exact h a (Or.inl (by omega))

/-- The FAT does not change when a cluster is written. -/
theorem fatEntry_of_keptOutside {bpb : Fat32Bpb} (hGeo : Geometry bpb) {disk disk' : Disk} {c d : Nat}
    (hc : IsCluster bpb c) (hd : d < fatCount bpb) (h : KeptOutside bpb c disk disk') :
    fatEntry disk' bpb d = fatEntry disk bpb d := by
  have hStart := dataStart_le_clusterStart hGeo hc
  have hFat := fatEnd_le_dataStart hGeo
  exact fatEntry_congr fun a _ hLt => h a (Or.inl (by omega))

theorem BootKept.trans {disk disk' disk'' : Disk} (h : BootKept disk disk') (h' : BootKept disk' disk'') :
    BootKept disk disk'' := fun a ha => (h' a ha).trans (h a ha)

/-- The allocator returns the number of a cluster. -/
theorem isCluster_of_taken {bpb : Fat32Bpb} (hGeo : Geometry bpb) {disk disk' : Disk} {new s i : Nat}
    (hMedia : fatEntry disk bpb 0 ≠ 0 ∧ fatEntry disk bpb 1 ≠ 0)
    (h : Taken bpb disk disk' new s i) : IsCluster bpb new := by
  have hSector := h.sector
  have hIndex := h.index
  have hCount := hGeo.count
  have hNumber := h.number
  refine ⟨?_, by rw [fatCount]; omega, ?_⟩
  · -- the first two words are not free
    rcases Nat.eq_zero_or_pos s with hZero | hPos
    · have hFree := h.free
      rw [hZero, Nat.zero_mul, Nat.zero_add] at hFree
      have h0 : i ≠ 0 := fun hEq => hMedia.1 (hEq ▸ hFree)
      have h1 : i ≠ 1 := fun hEq => hMedia.2 (hEq ▸ hFree)
      omega
    · omega
  · rw [fat32Eoc, decide_eq_false_iff_not]
    omega

end Rayos
