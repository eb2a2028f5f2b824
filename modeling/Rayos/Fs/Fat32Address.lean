import Rayos.Fs.Fat32

/-!
# Addresses on a FAT32 volume

A cluster has a word in the FAT and sectors in the data area.  Both places are computed from the fields of the
parameter block, which have their own widths; here the computations of `fat32.c` are those of C, and the ones of the
model, on natural numbers, are their values.

* `fatPlace_iff` — sector and index are the quotient and the remainder of the cluster, whatever the size of a sector;
* `fatWord_at`, `store_setFatWord` — what is read and written there is the word of the cluster and no other;
* `clusterToLba_exact` — on a volume that ends before sector `2 ^ 32` nothing overflows.
-/

namespace Rayos

open LittleEndian ByteStore

/-- The fields of `struct fat32_bpb` that are used, in their widths. -/
structure BpbWords where
  bytesPerSector : BitVec 16
  sectorsPerCluster : BitVec 8
  reservedSectorCount : BitVec 16
  numFats : BitVec 8
  fatSize32 : BitVec 32
  rootCluster : BitVec 32
  /-- No code reads it. -/
  totalSectors32 : BitVec 32

namespace BpbWords

/-- The fields as they are in the boot sector. -/
def ofBytes (buf : Bytes) : BpbWords where
  bytesPerSector := BitVec.ofNat 16 (leNat buf 0x0b 2)
  sectorsPerCluster := BitVec.ofNat 8 (leNat buf 0x0d 1)
  reservedSectorCount := BitVec.ofNat 16 (leNat buf 0x0e 2)
  numFats := BitVec.ofNat 8 (leNat buf 0x10 1)
  fatSize32 := BitVec.ofNat 32 (leNat buf 0x24 4)
  rootCluster := BitVec.ofNat 32 (leNat buf 0x2c 4)
  totalSectors32 := BitVec.ofNat 32 (leNat buf 0x20 4)

/-- The block of the model. -/
def toBpb (bpb : BpbWords) : Fat32Bpb where
  bytesPerSector := bpb.bytesPerSector.toNat
  sectorsPerCluster := bpb.sectorsPerCluster.toNat
  reservedSectorCount := bpb.reservedSectorCount.toNat
  numFats := bpb.numFats.toNat
  fatSize32 := bpb.fatSize32.toNat
  rootCluster := bpb.rootCluster.toNat

theorem toBpb_ofBytes (buf : Bytes) : (ofBytes buf).toBpb = bpbOf buf := by
  have hField : ∀ off len, leNat buf off len % 256 ^ len = leNat buf off len := fun off len =>
    Nat.mod_eq_of_lt (leNat_lt buf len off)
  simp only [toBpb, ofBytes, bpbOf, BitVec.toNat_ofNat]
  congr 1
  · exact hField 0x0b 2
  · exact hField 0x0d 1
  · exact hField 0x0e 2
  · exact hField 0x10 1
  · exact hField 0x24 4
  · exact hField 0x2c 4

/-- `cluster * sizeof(uint32_t) / bpb->bytes_per_sector`; `sizeof` makes it 64 bits wide. -/
def fatSector (bpb : BpbWords) (cluster : BitVec 32) : BitVec 64 :=
  cluster.setWidth 64 * 4#64 / bpb.bytesPerSector.setWidth 64

/-- `cluster % bpb->bytes_per_sector % (bpb->bytes_per_sector / sizeof(uint32_t))`. -/
def fatIndex (bpb : BpbWords) (cluster : BitVec 32) : BitVec 64 :=
  (cluster % bpb.bytesPerSector.setWidth 32).setWidth 64 % (bpb.bytesPerSector.setWidth 64 / 4#64)

/-- `data_start_lba`. -/
def dataStartLba (bpb : BpbWords) : BitVec 32 :=
  bpb.reservedSectorCount.setWidth 32 + bpb.fatSize32 * bpb.numFats.setWidth 32

/-- `cluster_to_lba`. -/
def clusterToLba (bpb : BpbWords) (cluster : BitVec 32) : BitVec 32 :=
  if cluster < 2#32 then 0#32
  else bpb.dataStartLba + (cluster - 2#32) * bpb.sectorsPerCluster.setWidth 32

/-! ## The model computes the same -/

variable (bpb : BpbWords) (cluster : BitVec 32)

theorem fatSector_toNat : (bpb.fatSector cluster).toNat = Rayos.fatSector bpb.toBpb cluster.toNat := by
  have hCluster := cluster.isLt
  have hBytes := bpb.bytesPerSector.isLt
  have hWide : cluster.toNat % 2 ^ 64 * 4 % 2 ^ 64 = cluster.toNat * 4 := by omega
  have hSame : bpb.bytesPerSector.toNat % 2 ^ 64 = bpb.bytesPerSector.toNat := by omega
  rw [fatSector, BitVec.toNat_udiv, BitVec.toNat_mul, BitVec.toNat_setWidth, BitVec.toNat_setWidth,
    BitVec.toNat_ofNat, Rayos.fatSector, toBpb, hSame]
  exact congrArg (· / _) hWide

theorem fatIndex_toNat : (bpb.fatIndex cluster).toNat = Rayos.fatIndex bpb.toBpb cluster.toNat := by
  have hBytes := bpb.bytesPerSector.isLt
  have hMod : cluster.toNat % bpb.bytesPerSector.toNat < 2 ^ 32 :=
    (Nat.mod_le _ _).trans_lt cluster.isLt
  have hNarrow : bpb.bytesPerSector.toNat % 2 ^ 32 = bpb.bytesPerSector.toNat := by omega
  have hWide : bpb.bytesPerSector.toNat % 2 ^ 64 = bpb.bytesPerSector.toNat := by omega
  have hFirst : cluster.toNat % bpb.bytesPerSector.toNat % 2 ^ 64 = cluster.toNat % bpb.bytesPerSector.toNat := by
    omega
  rw [fatIndex, BitVec.toNat_umod, BitVec.toNat_setWidth, BitVec.toNat_umod, BitVec.toNat_setWidth,
    BitVec.toNat_udiv, BitVec.toNat_setWidth, BitVec.toNat_ofNat, hNarrow, hWide, hFirst]
  rfl

theorem dataStartLba_toNat : bpb.dataStartLba.toNat = Rayos.dataStartLba bpb.toBpb := by
  rw [dataStartLba, Rayos.dataStartLba, toBpb, BitVec.toNat_add, BitVec.toNat_mul, BitVec.toNat_setWidth,
    BitVec.toNat_setWidth]
  have hReserved := bpb.reservedSectorCount.isLt
  have hFats := bpb.numFats.isLt
  have hNarrow : bpb.numFats.toNat % 2 ^ 32 = bpb.numFats.toNat := by omega
  rw [hNarrow, Nat.add_mod_mod, Nat.mod_add_mod]

theorem clusterToLba_toNat : (bpb.clusterToLba cluster).toNat = Rayos.clusterToLba bpb.toBpb cluster.toNat := by
  have hSectors := bpb.sectorsPerCluster.isLt
  have hCluster := cluster.isLt
  rw [clusterToLba, Rayos.clusterToLba]
  by_cases hLow : cluster < 2#32
  · have hSmall : cluster.toNat < 2 := by
      rw [BitVec.lt_def, BitVec.toNat_ofNat] at hLow
      omega
    rw [if_pos hLow, if_pos hSmall]
    rfl
  · have hTwo : 2 ≤ cluster.toNat := by
      rw [BitVec.lt_def, BitVec.toNat_ofNat] at hLow
      omega
    have hSub : (cluster - 2#32).toNat = cluster.toNat - 2 := by
      rw [BitVec.toNat_sub, BitVec.toNat_ofNat]
      omega
    have hNarrow : bpb.sectorsPerCluster.toNat % 2 ^ 32 = bpb.sectorsPerCluster.toNat := by omega
    rw [if_neg hLow, if_neg (by omega), BitVec.toNat_add, BitVec.toNat_mul, BitVec.toNat_setWidth, hSub, hNarrow,
      dataStartLba_toNat, Nat.add_mod_mod]
    rfl

end BpbWords

/-! ## The word of a cluster in the FAT -/

section Word

variable {bpb : Fat32Bpb}

/-- The sector and the index of a cluster are its quotient and its remainder by the number of words in a sector. -/
theorem fatPlace_eq (hPos : 0 < bpb.bytesPerSector) (hFour : 4 ∣ bpb.bytesPerSector) (c : Nat) :
    fatSector bpb c = c / (bpb.bytesPerSector / 4) ∧ fatIndex bpb c = c % (bpb.bytesPerSector / 4) ∧
      0 < bpb.bytesPerSector / 4 := by
  obtain ⟨words, hWords⟩ := hFour
  have hQuarter : bpb.bytesPerSector / 4 = words := by omega
  refine ⟨?_, ?_, by omega⟩
  · rw [fatSector, hQuarter, hWords, Nat.mul_comm c 4]
    exact Nat.mul_div_mul_left c words (by decide)
  · rw [fatIndex, hQuarter, hWords]
    exact Nat.mod_mod_of_dvd c (Nat.dvd_mul_left words 4)

/-- One sector and one index belong to each cluster. -/
theorem fatPlace_iff (hPos : 0 < bpb.bytesPerSector) (hFour : 4 ∣ bpb.bytesPerSector) (c sector index : Nat) :
    sector = fatSector bpb c ∧ index = fatIndex bpb c ↔
      sector * (bpb.bytesPerSector / 4) + index = c ∧ index < bpb.bytesPerSector / 4 := by
  obtain ⟨hSector, hIndex, hWords⟩ := fatPlace_eq hPos hFour c
  rw [hSector, hIndex, eq_comm (a := sector), eq_comm (a := index), Nat.div_mod_unique hWords, Nat.add_comm index,
    Nat.mul_comm sector]

/-- In bytes: where the word lies in the FAT. -/
theorem fatPlace_bytes (hPos : 0 < bpb.bytesPerSector) (hFour : 4 ∣ bpb.bytesPerSector) (c : Nat) :
    fatSector bpb c * bpb.bytesPerSector + 4 * fatIndex bpb c = 4 * c ∧
      4 * fatIndex bpb c + 4 ≤ bpb.bytesPerSector := by
  obtain ⟨hSum, hLt⟩ := (fatPlace_iff hPos hFour c _ _).mp ⟨rfl, rfl⟩
  obtain ⟨words, hWords⟩ := hFour
  have hQuarter : bpb.bytesPerSector / 4 = words := by omega
  rw [hQuarter] at hSum hLt
  refine ⟨?_, by omega⟩
  calc fatSector bpb c * bpb.bytesPerSector + 4 * fatIndex bpb c
      = 4 * (fatSector bpb c * words + fatIndex bpb c) := by rw [hWords]; ring
    _ = 4 * c := by rw [hSum]

variable (disk : Disk) (table : Bytes) (c : Nat)

/-- The first byte of a sector of the FAT, on a drive with sectors of that size. -/
def fatSectorStart (bpb : Fat32Bpb) (c : Nat) : Nat :=
  (bpb.reservedSectorCount + fatSector bpb c) * bpb.bytesPerSector

/-- The first byte of the word of a cluster. -/
def fatWordStart (bpb : Fat32Bpb) (c : Nat) : Nat := bpb.reservedSectorCount * bpb.bytesPerSector + 4 * c

theorem fatWordStart_eq (hPos : 0 < bpb.bytesPerSector) (hFour : 4 ∣ bpb.bytesPerSector) :
    fatWordStart bpb c = fatSectorStart bpb c + 4 * fatIndex bpb c := by
  have hBytes := (fatPlace_bytes hPos hFour c).1
  rw [fatWordStart, fatSectorStart, Nat.add_mul, Nat.add_assoc, hBytes]

/-- The sector that the loops over a chain read, on a drive with sectors of 512 bytes. -/
theorem readFat_eq (hBytes : bpb.bytesPerSector = 512) :
    readFat disk bpb c table = load disk (fatSectorStart bpb c) bpb.bytesPerSector table := by
  rw [readFat, ahciRead, fatSectorStart, hBytes, Nat.one_mul]

/-- What is read at the index of the sector is the word of the cluster. -/
theorem fatWord_at (hPos : 0 < bpb.bytesPerSector) (hFour : 4 ∣ bpb.bytesPerSector) :
    fatWord (load disk (fatSectorStart bpb c) bpb.bytesPerSector table) (fatIndex bpb c) =
      leNat disk (fatWordStart bpb c) 4 := by
  rw [fatWord, leNat_load (fatPlace_bytes hPos hFour c).2, fatWordStart_eq c hPos hFour]

/-- Setting it there and writing the sector back changes the word of the cluster and nothing else. -/
theorem store_setFatWord (hPos : 0 < bpb.bytesPerSector) (hFour : 4 ∣ bpb.bytesPerSector) (value : Nat) :
    store disk (fatSectorStart bpb c) bpb.bytesPerSector
        (setFatWord (load disk (fatSectorStart bpb c) bpb.bytesPerSector table) (fatIndex bpb c) value) =
      putLe disk (fatWordStart bpb c) 4 value := by
  have hInside := (fatPlace_bytes hPos hFour c).2
  rw [fatWordStart_eq c hPos hFour]
  funext a
  by_cases hIn : fatSectorStart bpb c ≤ a ∧ a < fatSectorStart bpb c + bpb.bytesPerSector
  · -- a byte of the sector: of the word, or as it was read
    obtain ⟨k, rfl⟩ := Nat.exists_eq_add_of_le hIn.1
    rw [store_of_inside (by omega), setFatWord, putLe, putLe, load_of_lt (by omega)]
    have hRange : 4 * fatIndex bpb c ≤ k ∧ k < 4 * fatIndex bpb c + 4 ↔
        fatSectorStart bpb c + 4 * fatIndex bpb c ≤ fatSectorStart bpb c + k ∧
          fatSectorStart bpb c + k < fatSectorStart bpb c + 4 * fatIndex bpb c + 4 := by omega
    rw [Nat.add_sub_add_left]
    exact if_congr hRange rfl rfl
  · rw [store_of_outside (by omega), putLe, if_neg (by omega)]

end Word

/-! ## The sectors of a cluster -/

/-- The data area has `n` clusters, and the volume ends before its `total_sectors_32`. -/
def HasClusters (bpb : BpbWords) (n : Nat) : Prop :=
  bpb.reservedSectorCount.toNat + bpb.numFats.toNat * bpb.fatSize32.toNat + n * bpb.sectorsPerCluster.toNat ≤
    bpb.totalSectors32.toNat

instance (bpb : BpbWords) (n : Nat) : Decidable (HasClusters bpb n) := inferInstanceAs (Decidable (_ ≤ _))

namespace HasClusters

variable {bpb : BpbWords} {n : Nat} {c d : BitVec 32}

/-- Nothing overflows: the start of the data area, the offset of the cluster in it, and the sum. -/
theorem clusterToLba_exact (h : HasClusters bpb n) (hTwo : 2 ≤ c.toNat) (hc : c.toNat < n + 2) :
    bpb.dataStartLba.toNat = bpb.reservedSectorCount.toNat + bpb.fatSize32.toNat * bpb.numFats.toNat ∧
      ((c - 2#32) * bpb.sectorsPerCluster.setWidth 32).toNat = (c.toNat - 2) * bpb.sectorsPerCluster.toNat ∧
      (bpb.clusterToLba c).toNat =
        bpb.dataStartLba.toNat + (c.toNat - 2) * bpb.sectorsPerCluster.toNat ∧
      bpb.dataStartLba.toNat + (c.toNat - 2) * bpb.sectorsPerCluster.toNat + bpb.sectorsPerCluster.toNat ≤
        bpb.dataStartLba.toNat + n * bpb.sectorsPerCluster.toNat := by
  have hTotal := bpb.totalSectors32.isLt
  have hSectors := bpb.sectorsPerCluster.isLt
  have hLimit := h
  have hComm := Nat.mul_comm bpb.numFats.toNat bpb.fatSize32.toNat
  have hLast : (c.toNat - 2) * bpb.sectorsPerCluster.toNat + bpb.sectorsPerCluster.toNat ≤
      n * bpb.sectorsPerCluster.toNat := by
    rw [← Nat.succ_mul]
    exact Nat.mul_le_mul_right _ (by omega)
  unfold HasClusters at hLimit
  have hStart : bpb.dataStartLba.toNat =
      bpb.reservedSectorCount.toNat + bpb.fatSize32.toNat * bpb.numFats.toNat := by
    rw [BpbWords.dataStartLba_toNat]
    exact Nat.mod_eq_of_lt (by simp only [BpbWords.toBpb]; omega)
  have hOffset : ((c - 2#32) * bpb.sectorsPerCluster.setWidth 32).toNat =
      (c.toNat - 2) * bpb.sectorsPerCluster.toNat := by
    have hNarrow : bpb.sectorsPerCluster.toNat % 2 ^ 32 = bpb.sectorsPerCluster.toNat := by omega
    have hSub : (c - 2#32).toNat = c.toNat - 2 := by
      have hLt := c.isLt
      rw [BitVec.toNat_sub, BitVec.toNat_ofNat]
      omega
    rw [BitVec.toNat_mul, BitVec.toNat_setWidth, hSub, hNarrow]
    exact Nat.mod_eq_of_lt (by omega)
  refine ⟨hStart, hOffset, ?_, by omega⟩
  have hHigh : ¬ c < 2#32 := by
    rw [BitVec.lt_def, BitVec.toNat_ofNat]
    omega
  rw [BpbWords.clusterToLba, if_neg hHigh, BitVec.toNat_add, hOffset]
  exact Nat.mod_eq_of_lt (by omega)

/-- The sectors of a cluster lie in the data area. -/
theorem inside (h : HasClusters bpb n) (hTwo : 2 ≤ c.toNat) (hc : c.toNat < n + 2) :
    bpb.dataStartLba.toNat ≤ (bpb.clusterToLba c).toNat ∧
      (bpb.clusterToLba c).toNat + bpb.sectorsPerCluster.toNat ≤
        bpb.dataStartLba.toNat + n * bpb.sectorsPerCluster.toNat := by
  obtain ⟨-, -, hLba, hEnd⟩ := h.clusterToLba_exact hTwo hc
  rw [hLba]
  exact ⟨Nat.le_add_right _ _, hEnd⟩

/-- The sectors of a cluster come before those of the next ones. -/
theorem before (h : HasClusters bpb n) (hTwo : 2 ≤ c.toNat) (hLt : c.toNat < d.toNat) (hd : d.toNat < n + 2) :
    (bpb.clusterToLba c).toNat + bpb.sectorsPerCluster.toNat ≤ (bpb.clusterToLba d).toNat := by
  obtain ⟨-, -, hLba, -⟩ := h.clusterToLba_exact hTwo (by omega)
  obtain ⟨-, -, hLba', -⟩ := h.clusterToLba_exact (show 2 ≤ d.toNat by omega) hd
  have hStep : (c.toNat - 2) * bpb.sectorsPerCluster.toNat + bpb.sectorsPerCluster.toNat ≤
      (d.toNat - 2) * bpb.sectorsPerCluster.toNat := by
    rw [← Nat.succ_mul]
    exact Nat.mul_le_mul_right _ (by omega)
  rw [hLba, hLba']
  omega

end HasClusters

/-- **FAT addressing.**  For every parameter block and every cluster:

1. the sector and the index that are computed with the widths of C are those of the model;
2. when the bytes of a sector are a positive multiple of 4, they are the one place of the cluster among the words of
   the FAT, and reading and writing there is reading and writing the word of the cluster, as the loops over a chain do
   on a drive with sectors of 512 bytes;
3. when the clusters fit in `total_sectors_32`, the first sector of a cluster is computed without overflow, its
   sectors lie in the data area, and those of different clusters are disjoint. -/
theorem fatAddress_exact (bpb : BpbWords) (c : BitVec 32) :
    ((bpb.fatSector c).toNat = fatSector bpb.toBpb c.toNat ∧ (bpb.fatIndex c).toNat = fatIndex bpb.toBpb c.toNat ∧
      (bpb.clusterToLba c).toNat = clusterToLba bpb.toBpb c.toNat) ∧
    (0 < bpb.bytesPerSector.toNat → 4 ∣ bpb.bytesPerSector.toNat →
      (∀ sector index, sector = (bpb.fatSector c).toNat ∧ index = (bpb.fatIndex c).toNat ↔
        sector * (bpb.bytesPerSector.toNat / 4) + index = c.toNat ∧ index < bpb.bytesPerSector.toNat / 4) ∧
      (bpb.bytesPerSector.toNat = 512 → ∀ (disk : Disk) (table : Bytes),
        readFat disk bpb.toBpb c.toNat table =
          load disk (fatSectorStart bpb.toBpb c.toNat) bpb.bytesPerSector.toNat table) ∧
      ∀ (disk : Disk) (table : Bytes) (value : Nat),
        fatWord (load disk (fatSectorStart bpb.toBpb c.toNat) bpb.bytesPerSector.toNat table)
            (bpb.fatIndex c).toNat = leNat disk (fatWordStart bpb.toBpb c.toNat) 4 ∧
          store disk (fatSectorStart bpb.toBpb c.toNat) bpb.bytesPerSector.toNat
              (setFatWord (load disk (fatSectorStart bpb.toBpb c.toNat) bpb.bytesPerSector.toNat table)
                (bpb.fatIndex c).toNat value) = putLe disk (fatWordStart bpb.toBpb c.toNat) 4 value) ∧
    ∀ n, HasClusters bpb n → 2 ≤ c.toNat → c.toNat < n + 2 →
      (bpb.dataStartLba.toNat = bpb.reservedSectorCount.toNat + bpb.fatSize32.toNat * bpb.numFats.toNat ∧
        ((c - 2#32) * bpb.sectorsPerCluster.setWidth 32).toNat = (c.toNat - 2) * bpb.sectorsPerCluster.toNat ∧
        (bpb.clusterToLba c).toNat = bpb.dataStartLba.toNat + (c.toNat - 2) * bpb.sectorsPerCluster.toNat) ∧
      (bpb.dataStartLba.toNat ≤ (bpb.clusterToLba c).toNat ∧
        (bpb.clusterToLba c).toNat + bpb.sectorsPerCluster.toNat ≤
          bpb.dataStartLba.toNat + n * bpb.sectorsPerCluster.toNat) ∧
      ∀ d : BitVec 32, 2 ≤ d.toNat → d.toNat < n + 2 → c ≠ d →
        (bpb.clusterToLba c).toNat + bpb.sectorsPerCluster.toNat ≤ (bpb.clusterToLba d).toNat ∨
          (bpb.clusterToLba d).toNat + bpb.sectorsPerCluster.toNat ≤ (bpb.clusterToLba c).toNat := by
  have hSector := bpb.fatSector_toNat c
  have hIndex := bpb.fatIndex_toNat c
  refine ⟨⟨hSector, hIndex, bpb.clusterToLba_toNat c⟩, ?_, ?_⟩
  · intro hPos hFour
    rw [hSector, hIndex]
    refine ⟨fatPlace_iff hPos hFour c.toNat, fun hBytes disk table => readFat_eq disk table c.toNat hBytes,
      fun disk table value => ?_⟩
    exact ⟨fatWord_at disk table c.toNat hPos hFour, store_setFatWord disk table c.toNat hPos hFour value⟩
  · intro n hFits hTwo hc
    obtain ⟨hStart, hOffset, hLba, -⟩ := hFits.clusterToLba_exact hTwo hc
    refine ⟨⟨hStart, hOffset, hLba⟩, hFits.inside hTwo hc, fun d hTwo' hd hNe => ?_⟩
    have hNe' : c.toNat ≠ d.toNat := fun hEq => hNe (BitVec.eq_of_toNat_eq hEq)
    rcases Nat.lt_or_gt_of_ne hNe' with hLt | hLt
    · exact Or.inl (hFits.before hTwo hLt hd)
    · exact Or.inr (hFits.before hTwo' hLt hc)

/-- A volume with sectors of 512 bytes and 1000 clusters of 8 sectors. -/
def smallBpb : BpbWords := ⟨512#16, 8#8, 32#16, 2#8, 8#32, 2#32, 8048#32⟩

/-- The last cluster has the word 105 of the eighth sector of the FAT, and its sectors end the volume. -/
theorem fatAddress_exact_small :
    (7 * (512 / 4) + 105 = (1001#32).toNat ∧ 105 < 512 / 4) ∧
      (smallBpb.clusterToLba 1001#32).toNat + 8 ≤ smallBpb.dataStartLba.toNat + 1000 * 8 ∧
      (smallBpb.clusterToLba 1001#32).toNat = smallBpb.dataStartLba.toNat + 999 * 8 := by
  obtain ⟨-, hWord, hLba⟩ := fatAddress_exact smallBpb 1001#32
  obtain ⟨hPlace, -⟩ := hWord (by decide) ⟨128, by decide⟩
  obtain ⟨⟨-, -, hFirst⟩, ⟨-, hEnd⟩, -⟩ := hLba 1000 (by decide) (by decide) (by decide)
  exact ⟨(hPlace 7 105).mp (by decide), hEnd, hFirst⟩

end Rayos
