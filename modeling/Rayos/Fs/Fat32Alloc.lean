import Rayos.Fs.Fat32Mirror

/-!
# The cluster that is handed out (`__fat32_alloc_cluster`)

A sector of 512 bytes has 128 words of the FAT; the allocator divides by 32 instead of 4, looks at the first 16
of them, and counts 16 clusters a sector.  `fat32AllocCluster_marks` says for which volumes the cluster that it
returns is the one that it has marked, in every copy of the FAT.
-/

namespace Rayos

open LittleEndian

/-- The word of a cluster in copy `j` of the FAT. -/
def fatCopyEntry (disk : Disk) (bpb : Fat32Bpb) (j cluster : Nat) : Nat :=
  leNat disk ((bpb.reservedSectorCount + bpb.fatSize32 * j) * 512 + 4 * cluster) 4

/-- Sectors of 512 bytes, at least one FAT, and sector numbers of 32 bits. -/
structure FatRegion (bpb : Fat32Bpb) : Prop where
  bytes : bpb.bytesPerSector = 512
  fats : 1 ≤ bpb.numFats
  fits : bpb.reservedSectorCount + bpb.fatSize32 * bpb.numFats ≤ 2 ^ 32

/-- A call that returns a cluster has found its word 0, and has marked it and no other in every copy; one that
returns -1 has found no word 0, and has written nothing. -/
structure AllocatesCluster (bpb : Fat32Bpb) (disk : Disk) (r : Nat × Disk) : Prop where
  free : r.1 ≠ 0xffffffff → r.1 < fatCount bpb ∧ ∀ j, j < bpb.numFats → fatCopyEntry disk bpb j r.1 = 0
  marked : r.1 ≠ 0xffffffff → ∀ j, j < bpb.numFats → fatCopyEntry r.2 bpb j r.1 = 0x0fffffff
  kept : r.1 ≠ 0xffffffff → ∀ j, j < bpb.numFats → ∀ c, c < fatCount bpb → c ≠ r.1 →
    fatCopyEntry r.2 bpb j c = fatCopyEntry disk bpb j c
  full : r.1 = 0xffffffff → (∀ c, c < fatCount bpb → fatCopyEntry disk bpb 0 c ≠ 0) ∧ r.2 = disk

section Copies

variable {bpb : Fat32Bpb} {disk : Disk}

theorem fatCopyEntry_zero (c : Nat) : fatCopyEntry disk bpb 0 c = fatEntry disk bpb c := by
  rw [fatCopyEntry, Nat.mul_zero, Nat.add_zero]
  rfl

/-- The bytes of a word, in its sector. -/
theorem copyWord_place (bpb : Fat32Bpb) (j c k : Nat) :
    (bpb.reservedSectorCount + bpb.fatSize32 * j) * 512 + 4 * c + k =
      (bpb.reservedSectorCount + bpb.fatSize32 * j + c / 128) * 512 + (4 * (c % 128) + k) := by
  omega

theorem fatCopyEntry_of_copies (hCopies : CopiesEqual bpb disk) {j c : Nat} (hj : j < bpb.numFats)
    (hc : c < fatCount bpb) : fatCopyEntry disk bpb j c = fatEntry disk bpb c := by
  rw [fatCount] at hc
  refine leNat_congr fun k hk => ?_
  rw [copyWord_place, hCopies j hj (c / 128) (by omega) _ (by omega)]
  exact congrArg disk (by omega)

/-- A sector of equal copies is written back with one word changed. -/
theorem fatCopyEntry_writeFats {lba : Nat → Nat} {table : Bytes} {s i value : Nat} (hs : s < bpb.fatSize32)
    (hi : i < 128) (hValue : value < 2 ^ 32) (hCopies : CopiesEqual bpb disk)
    (hLba : ∀ j, j < bpb.numFats → lba j = bpb.reservedSectorCount + bpb.fatSize32 * j + s)
    (hTable : ∀ k, k < 512 → table k = disk ((bpb.reservedSectorCount + s) * 512 + k)) {j c : Nat}
    (hj : j < bpb.numFats) (hc : c < fatCount bpb) :
    fatCopyEntry (writeFats disk lba (setFatWord table i value) bpb.numFats) bpb j c =
      if c = s * 128 + i then value else fatCopyEntry disk bpb j c := by
  rw [fatCount] at hc
  by_cases hSector : c / 128 = s
  · -- the word lies in the sector that is written
    have hWord : fatCopyEntry (writeFats disk lba (setFatWord table i value) bpb.numFats) bpb j c =
        leNat (setFatWord table i value) (4 * (c % 128)) 4 := by
      refine leNat_congr fun k hk => ?_
      rw [copyWord_place, hSector]
      exact writeFats_of_eq (by omega) ⟨j, hj, hLba j hj⟩
    rw [hWord, setFatWord]
    by_cases hSame : c = s * 128 + i
    · have hIndex : c % 128 = i := by omega
      rw [if_pos hSame, hIndex]
      exact leNat_putLe _ (by omega)
    · rw [if_neg hSame, leNat_putLe_of_disjoint _ (by omega)]
      refine leNat_congr fun k hk => ?_
      rw [hTable _ (by omega), copyWord_place, hSector, hCopies j hj s hs _ (by omega)]
  · rw [if_neg (by omega)]
    refine leNat_congr fun k hk => ?_
    rw [copyWord_place]
    refine writeFats_of_ne (by omega) fun j' hj' => ?_
    rw [hLba j' hj']
    exact copySector_ne hs (by omega) hSector j' j

/-- The call has set the word of cluster `128 * s + i` and returned `16 * s + i`, which is right in the first
sector only. -/
theorem allocatesCluster_iff_first {s i : Nat} {r : Nat × Disk} (hFats : 1 ≤ bpb.numFats)
    (hCopies : CopiesEqual bpb disk) (hFound : ScanFound bpb disk s i) (hNumber : r.1 = (s * 16 + i) % 2 ^ 32)
    (hAfter : ∀ j, j < bpb.numFats → ∀ c, c < fatCount bpb →
      fatCopyEntry r.2 bpb j c = if c = s * 128 + i then 0x0fffffff else fatCopyEntry disk bpb j c) :
    AllocatesCluster bpb disk r ↔ s = 0 := by
  have hSector := hFound.sector
  have hIndex := hFound.index
  have hPlace : s * 128 + i < fatCount bpb := by
    rw [fatCount]
    omega
  -- the number is smaller than the one of the word that is set
  have hLe : r.1 ≤ s * 16 + i := by
    rw [hNumber]
    exact Nat.mod_le _ _
  have hOther : s ≠ 0 → s * 128 + i ≠ r.1 := by
    intro hNe hEq
    rw [← hEq] at hLe
    clear hNumber hAfter hFound hEq
    omega
  have hMarked := hAfter 0 hFats _ hPlace
  rw [if_pos rfl] at hMarked
  constructor
  · intro hAllocates
    by_contra hNe
    have hSame : fatCopyEntry r.2 bpb 0 (s * 128 + i) = fatCopyEntry disk bpb 0 (s * 128 + i) := by
      by_cases hFull : r.1 = 0xffffffff
      · rw [(hAllocates.full hFull).2]
      · exact hAllocates.kept hFull 0 hFats _ hPlace (hOther hNe)
    rw [hMarked, fatCopyEntry_zero, hFound.free] at hSame
    exact absurd hSame (by decide)
  · rintro rfl
    have hSame : r.1 = 0 * 128 + i := by
      rw [hNumber, Nat.mod_eq_of_lt (by omega)]
    rw [← hSame] at hAfter hPlace
    refine ⟨fun _ => ⟨hPlace, fun j hj => ?_⟩, fun _ j hj => ?_, fun _ j hj c hc hNe => ?_, fun hFull => ?_⟩
    · rw [fatCopyEntry_of_copies hCopies hj hPlace, hSame]
      exact hFound.free
    · rw [hAfter j hj _ hPlace, if_pos rfl]
    · rw [hAfter j hj c hc, if_neg hNe]
    · omega

/-- The first word that is found free is in the first sector exactly when one of the first 16 words is free. -/
theorem ScanFound.first_iff {s i : Nat} (h : ScanFound bpb disk s i) :
    s = 0 ↔ ∃ c, c < 16 ∧ fatEntry disk bpb c = 0 := by
  constructor
  · rintro rfl
    have hFree := h.free
    rw [Nat.zero_mul, Nat.zero_add] at hFree
    exact ⟨i, h.index, hFree⟩
  · rintro ⟨c, hc, hZero⟩
    by_contra hNe
    have hUsed := h.first 0 c hc (Or.inl (Nat.pos_of_ne_zero hNe))
    rw [Nat.zero_mul, Nat.zero_add] at hUsed
    exact hUsed hZero

/-- A call that finds nothing is right when the words that it does not look at are in use too. -/
theorem allocatesCluster_full_iff :
    AllocatesCluster bpb disk (0xffffffff, disk) ↔ ∀ c, c < fatCount bpb → fatEntry disk bpb c ≠ 0 := by
  constructor
  · intro hAllocates c hc
    rw [← fatCopyEntry_zero]
    exact (hAllocates.full rfl).1 c hc
  · intro hAll
    refine ⟨fun h => absurd rfl h, fun h => absurd rfl h, fun h => absurd rfl h, fun _ => ⟨fun c hc => ?_, rfl⟩⟩
    rw [fatCopyEntry_zero]
    exact hAll c hc

end Copies

/-- **Cluster allocation.**  For every volume with sectors of 512 bytes and equal copies of the FAT, the
allocator does what it is for exactly when one of the first 16 words is 0 or no word is. -/
theorem fat32AllocCluster_marks (disk : Disk) (hVolume : FatRegion (readBpb disk))
    (hCopies : CopiesEqual (readBpb disk) disk) :
    AllocatesCluster (readBpb disk) disk (fat32AllocCluster disk) ↔
      (∃ c, c < 16 ∧ fatEntry disk (readBpb disk) c = 0) ∨
        ∀ c, c < fatCount (readBpb disk) → fatEntry disk (readBpb disk) c ≠ 0 := by
  generalize hBpb : readBpb disk = bpb at hVolume hCopies ⊢
  have hFits := hVolume.fits
  rw [fat32AllocCluster, hBpb]
  rcases allocScan_cases hVolume.bytes disk bpb.fatSize32 0 zeroed (Nat.zero_add _)
      (fun s _ hs => absurd hs (Nat.not_lt_zero s)) with ⟨hRun, hNone⟩ | ⟨s, i, table, hFound, hTable, hRun⟩
  · rw [hRun, allocatesCluster_full_iff]
    constructor
    · exact Or.inr
    · rintro (⟨c', hLt, hZero⟩ | hAll)
      · intro c hc
        have hSize : 0 < bpb.fatSize32 := by
          rw [fatCount] at hc
          omega
        have hUsed := hNone 0 c' hSize hLt
        rw [Nat.zero_mul, Nat.zero_add] at hUsed
        exact absurd hZero hUsed
      · exact hAll
  · have hSector := hFound.sector
    have hIndex := hFound.index
    rw [allocatesCluster_iff_first hVolume.fats hCopies hFound (by rw [hRun]), hFound.first_iff]
    · constructor
      · exact Or.inl
      · rintro (hLow | hAll)
        · exact hLow
        · exact absurd hFound.free (hAll _ (by rw [fatCount]; omega))
    · intro j hj c hc
      rw [hRun]
      refine fatCopyEntry_writeFats hSector (by omega) (by decide) hCopies (fun j' hj' => ?_) hTable hj hc
      have hCopy := copy_le hj'
      exact Nat.mod_eq_of_lt (by omega)

/-- With two free words among the first 16. -/
theorem fat32AllocCluster_marks_low :
    AllocatesCluster (readBpb (mirrorVolume 14)) (mirrorVolume 14) (fat32AllocCluster (mirrorVolume 14)) := by
  have hVolume : FatRegion (readBpb (mirrorVolume 14)) := by
    rw [mirrorVolume_bpb]
    constructor <;> decide
  exact (fat32AllocCluster_marks (mirrorVolume 14) hVolume (mirrorVolume_copies 14)).mpr
    (Or.inl ⟨14, by decide, by decide⟩)

/-- The first sector of the FAT is in use: cluster 16, which is in use, is returned, and the word of cluster 128
is marked. -/
theorem fat32_alloc_second_sector :
    FatRegion (readBpb (mirrorVolume 128)) ∧ CopiesEqual (readBpb (mirrorVolume 128)) (mirrorVolume 128) ∧
      (fat32AllocCluster (mirrorVolume 128)).1 = 16 ∧
      fatEntry (mirrorVolume 128) (readBpb (mirrorVolume 128)) 16 = 0x0fffffff ∧
      ¬ AllocatesCluster (readBpb (mirrorVolume 128)) (mirrorVolume 128)
        (fat32AllocCluster (mirrorVolume 128)) := by
  have hVolume : FatRegion (readBpb (mirrorVolume 128)) := by
    rw [mirrorVolume_bpb]
    constructor <;> decide
  have hCluster : (fat32AllocCluster (mirrorVolume 128)).1 = 16 := by decide
  have hUsed : fatEntry (mirrorVolume 128) (readBpb (mirrorVolume 128)) 16 = 0x0fffffff := by decide
  refine ⟨hVolume, mirrorVolume_copies 128, hCluster, hUsed, fun hAllocates => ?_⟩
  have hFree := (hAllocates.free (by rw [hCluster]; decide)).2 0 hVolume.fats
  rw [hCluster, fatCopyEntry_zero, hUsed] at hFree
  exact absurd hFree (by decide)

end Rayos
