import Rayos.Fs.Fat32Lookup
import Rayos.Fs.Fat32Volume

/-!
# Creating a file on a FAT32 volume (`fat32_create`)

What `fat32_create` writes and what a lookup finds afterwards.  The new entry has the first cluster 0, the
sector of which is the boot sector, and `fat32_lookup` goes on from the cluster of any entry that it has
found: behind the path of a new file it finds the first 32 bytes of the boot sector as an entry.  The name
is moreover the first component of the path, so that a file in a subdirectory gets the wrong name.

* `createFrom_boot`: the boot sector survives, apart from the call that finds the drive full and clears
  it.
-/

namespace Rayos

open LittleEndian ByteStore CString

/-- `fat32_lookup` returns, with this result. -/
def LookupReturns (junk : Junk) (disk : Disk) (path : Str) (r : Int × Option DirEntry) : Prop :=
  ∃ fuel, fat32Lookup fuel junk disk path = some r

/-- The path is found with an empty file, and the lookup of every other path is as before. -/
structure CreatedOnly (junk : Junk) (disk disk' : Disk) (path : Str) : Prop where
  found : ∃ entry, LookupReturns junk disk' path (0, some entry) ∧ entry.fileSize = 0 ∧
    entry.firstCluster = 0
  others : ∀ p, components p ≠ components path →
    ∀ r, LookupReturns junk disk' p r ↔ LookupReturns junk disk p r

/-- The clusters of a directory: each is followed by another one, or by an end mark. -/
def SoundChain (disk : Disk) (bpb : Fat32Bpb) (clusters : Set Nat) : Prop :=
  ∀ c ∈ clusters, IsCluster bpb c ∧
    (fat32Eoc (fatEntry disk bpb c) = true ∨ fatEntry disk bpb c ∈ clusters)

/-! ## The slots of a cluster -/

theorem dirSlot_putSlot_of_ne {buf : Bytes} {i k : Nat} {entry : DirEntry} (hNe : k ≠ i) :
    dirSlot (putSlot buf i entry) k = dirSlot buf k := by
  refine List.map_congr_left fun b hb => ?_
  have hLt := List.mem_range.mp hb
  rw [putSlot, if_neg (by omega)]

namespace SlotFill

/-- The drive after the loop. -/
def disk : SlotFill → Disk
  | done disk => disk
  | more disk _ => disk

end SlotFill

section Fill

variable {junk : Junk} {bpb : Fat32Bpb} {fn : Str} {cluster total : Nat}

/-- The loop over the slots writes to the cluster only. -/
theorem fillSlots_kept {r : SlotFill} :
    ∀ {n i nrLfn : Nat} {disk : Disk} {buf : Bytes},
      fillSlots junk bpb fn cluster total n i disk buf nrLfn = r →
      KeptOutside bpb cluster disk r.disk := by
  intro n
  induction n with
  | zero =>
      intro i nrLfn disk buf h a _
      rw [← h]
      rfl
  | succ n ih =>
      intro i nrLfn disk buf h a ha
      rw [fillSlots] at h
      split at h
      · split at h
        · exact (ih h a ha).trans (keptOutside_writeCluster disk bpb cluster _ a ha)
        · rw [← h]
          exact keptOutside_writeCluster disk bpb cluster _ a ha
      · exact ih h a ha

/-- Fragments are only ever written. -/
theorem fillSlots_more {disk' : Disk} {nrLfn' : Nat} :
    ∀ {n i nrLfn : Nat} {disk : Disk} {buf : Bytes},
      fillSlots junk bpb fn cluster total n i disk buf nrLfn = .more disk' nrLfn' → nrLfn' ≤ nrLfn := by
  intro n
  induction n with
  | zero =>
      intro i nrLfn disk buf h
      cases h
      exact le_rfl
  | succ n ih =>
      intro i nrLfn disk buf h
      rw [fillSlots] at h
      split at h
      · split at h
        · exact (ih h).trans (Nat.sub_le _ _)
        · cases h
      · exact ih h

/-- Each slot of an empty cluster takes a fragment. -/
theorem fillSlots_free {r : SlotFill} :
    ∀ {n i nrLfn : Nat} {disk : Disk} {buf : Bytes},
      (∀ k, i ≤ k → k < i + n → slotFree (dirSlot buf k) = true) →
      fillSlots junk bpb fn cluster total n i disk buf nrLfn = r →
      (∃ disk', r = .done disk') ∨ ∃ disk' nrLfn', r = .more disk' nrLfn' ∧ nrLfn' + n = nrLfn := by
  intro n
  induction n with
  | zero =>
      intro i nrLfn disk buf _ h
      exact Or.inr ⟨disk, nrLfn, h.symm, rfl⟩
  | succ n ih =>
      intro i nrLfn disk buf hFree h
      rw [fillSlots] at h
      simp only [hFree i le_rfl (by omega), if_true] at h
      split at h
      · case isTrue hMore =>
          have hPos : 1 ≤ nrLfn := by
            simp only [Bool.and_eq_true, decide_eq_true_eq] at hMore
            exact hMore.2
          have hRest : ∀ entry k, i + 1 ≤ k → k < i + 1 + n →
              slotFree (dirSlot (putSlot buf i entry) k) = true := by
            intro entry k hk hLt
            rw [dirSlot_putSlot_of_ne (by omega)]
            exact hFree k (by omega) (by omega)
          rcases ih (hRest _) h with hDone | ⟨disk', nrLfn', hEq, hSum⟩
          · exact Or.inl hDone
          · exact Or.inr ⟨disk', nrLfn', hEq, by omega⟩
      · exact Or.inl ⟨_, h.symm⟩

end Fill

/-! ## The walk along the directory -/

/-- The boot sector has been overwritten with zeros. -/
def BootCleared (disk : Disk) : Prop := ∀ a, a < 512 → disk a = 0#8

/-- There is room for `nrLfn` fragments and the short entry: they fit in a cluster, or they fit in two and
the next cluster comes from the first 16 words of the FAT, or this cluster is empty. -/
def RoomFor (disk : Disk) (bpb : Fat32Bpb) (cluster nrLfn : Nat) : Prop :=
  nrLfn < 16 * bpb.sectorsPerCluster ∨
    nrLfn < 32 * bpb.sectorsPerCluster ∧
      ((∃ c, c < 16 ∧ fatEntry disk bpb c = 0) ∨
        ∀ k, k < clusterBytes bpb → disk (clusterStart bpb cluster + k) = 0#8)

/-- What holds at the start of each round of the loop. -/
structure CreateWalk (bpb : Fat32Bpb) (disk : Disk) (clusters : Set Nat) (cluster nrLfn : Nat) :
    Prop where
  bpb_eq : readBpb disk = bpb
  media : fatEntry disk bpb 0 ≠ 0 ∧ fatEntry disk bpb 1 ≠ 0
  chain : SoundChain disk bpb clusters
  mem : cluster ∈ clusters
  room : RoomFor disk bpb cluster nrLfn

/-- A chain stays sound when the words of the FAT do not change. -/
theorem SoundChain.congr {bpb : Fat32Bpb} {disk disk' : Disk} {clusters : Set Nat}
    (h : SoundChain disk bpb clusters)
    (hSame : ∀ c, c < fatCount bpb → fatEntry disk' bpb c = fatEntry disk bpb c) :
    SoundChain disk' bpb clusters := by
  intro c hc
  rw [hSame c (h c hc).1.lt_count]
  exact h c hc

/-- A chain with a cluster appended is sound. -/
theorem SoundChain.extended {bpb : Fat32Bpb} {disk disk' disk'' : Disk} {clusters : Set Nat}
    {last new : Nat} (h : SoundChain disk bpb clusters)
    (hNew : IsCluster bpb new) (hNe : new ≠ last) (hTaken : FatSet bpb disk disk' new 0x0fffffff)
    (hLink : FatSet bpb disk' disk'' last new) : SoundChain disk'' bpb (insert new clusters) := by
  have hNewEoc : fat32Eoc (fatEntry disk'' bpb new) = true := by
    rw [hLink.kept new hNew.lt_count hNe, hTaken.set]
    rfl
  intro c hc
  by_cases hIsNew : c = new
  · rw [hIsNew]
    exact ⟨hNew, Or.inl hNewEoc⟩
  · have hOld : c ∈ clusters := (Set.mem_insert_iff.mp hc).resolve_left hIsNew
    obtain ⟨hCluster, hNext⟩ := h c hOld
    refine ⟨hCluster, ?_⟩
    by_cases hIsLast : c = last
    · rw [hIsLast, hLink.set]
      exact Or.inr (Set.mem_insert _ _)
    · rw [hLink.kept c hCluster.lt_count hIsLast, hTaken.kept c hCluster.lt_count hIsNew]
      exact hNext.imp id (Set.mem_insert_of_mem _)

section Walk

variable {junk : Junk} {bpb : Fat32Bpb} {fn : Str} {total : Nat}

/-- The slots of an empty cluster are free. -/
theorem slotFree_of_zero {disk : Disk} {cluster k : Nat}
    (hZero : ∀ k, k < clusterBytes bpb → disk (clusterStart bpb cluster + k) = 0#8)
    (hk : k < 16 * bpb.sectorsPerCluster) :
    slotFree (dirSlot (readCluster disk bpb cluster zeroed) k) = true := by
  have hByte : readCluster disk bpb cluster zeroed (32 * k) = 0#8 := by
    rw [readCluster_of_lt (by rw [clusterBytes]; omega)]
    exact hZero _ (by rw [clusterBytes]; omega)
  have hName : DirEntry.name0 (dirSlot (readCluster disk bpb cluster zeroed) k) = 0#8 := by
    simpa [DirEntry.name0, DirEntry.bytes, dirSlot] using hByte
  simp [slotFree, hName, sfnName0Free]

theorem free_of_zero (hGeo : Geometry bpb) {disk : Disk} {cluster : Nat}
    (hZero : ∀ k, k < clusterBytes bpb → disk (clusterStart bpb cluster + k) = 0#8) :
    ∀ k, 0 ≤ k → k < 0 + entriesPerCluster bpb →
      slotFree (dirSlot (readCluster disk bpb cluster zeroed) k) = true := by
  intro k _ hk
  rw [entriesPerCluster_eq hGeo, Nat.zero_add] at hk
  exact slotFree_of_zero hZero hk

/-- After a cluster the room is in the clusters to come. -/
theorem room_after_fill (hGeo : Geometry bpb) {disk disk' : Disk} {cluster nrLfn nrLfn' : Nat}
    (hCluster : IsCluster bpb cluster) (hRoom : RoomFor disk bpb cluster nrLfn)
    (hFill : fillSlots junk bpb fn cluster total (entriesPerCluster bpb) 0 disk
      (readCluster disk bpb cluster zeroed) nrLfn = .more disk' nrLfn') :
    nrLfn' < 16 * bpb.sectorsPerCluster ∨
      nrLfn' < 32 * bpb.sectorsPerCluster ∧ ∃ c, c < 16 ∧ fatEntry disk' bpb c = 0 := by
  have hLe := fillSlots_more hFill
  have hKept : KeptOutside bpb cluster disk disk' := fillSlots_kept hFill
  rcases hRoom with hOne | ⟨hTwo, ⟨c, hc, hFree⟩ | hZero⟩
  · exact Or.inl (by omega)
  · have hSize := hGeo.size
    refine Or.inr ⟨by omega, c, hc, ?_⟩
    rw [fatEntry_of_keptOutside hGeo hCluster (by rw [fatCount]; omega) hKept]
    exact hFree
  · rcases fillSlots_free (free_of_zero hGeo hZero) hFill with ⟨_, hDone⟩ | ⟨_, _, hMore, hSum⟩
    · cases hDone
    · cases hMore
      rw [entriesPerCluster_eq hGeo] at hSum
      exact Or.inl (by omega)

/-- The drive is full: the cluster with the number `-1` is cleared. -/
theorem boot_of_full (hGeo : Geometry bpb) {disk disk' : Disk} {cluster : Nat}
    (hLink : FatSet bpb disk disk' cluster 0xffffffff) :
    BootKept disk (writeCluster disk' bpb 0xffffffff zeroed) ∨
      BootCleared (writeCluster disk' bpb 0xffffffff zeroed) := by
  have hSectors := hGeo.sectors
  by_cases hLba : clusterToLba bpb 0xffffffff = 0
  · refine Or.inr fun a ha => ?_
    have hIn : writeCluster disk' bpb 0xffffffff zeroed (clusterStart bpb 0xffffffff + a) = 0#8 :=
      writeCluster_inside (by rw [clusterBytes]; omega)
    rw [clusterStart, hLba, Nat.zero_mul, Nat.zero_add] at hIn
    exact hIn
  · refine Or.inl fun a ha => ?_
    rw [keptOutside_writeCluster disk' bpb 0xffffffff zeroed a (Or.inl (by rw [clusterStart]; omega))]
    exact bootKept_of_fatSet hGeo hLink a ha

/-- What is left fits into an empty cluster. -/
theorem createFrom_fits (hGeo : Geometry bpb) {disk disk' : Disk} {fuel cluster nrLfn : Nat}
    (hCluster : IsCluster bpb cluster)
    (hZero : ∀ k, k < clusterBytes bpb → disk (clusterStart bpb cluster + k) = 0#8)
    (hRoom : nrLfn < 16 * bpb.sectorsPerCluster)
    (h : createFrom junk bpb fn total fuel disk cluster nrLfn = some disk') :
    KeptOutside bpb cluster disk disk' := by
  cases fuel with
  | zero => cases h
  | succ fuel =>
      rw [createFrom, hCluster.not_eoc, if_neg (by decide)] at h
      cases hFill : fillSlots junk bpb fn cluster total (entriesPerCluster bpb) 0 disk
          (readCluster disk bpb cluster zeroed) nrLfn with
      | done disk₁ =>
          rw [hFill] at h
          cases h
          exact fillSlots_kept hFill
      | more disk₁ nrLfn₁ =>
          rcases fillSlots_free (free_of_zero hGeo hZero) hFill with ⟨_, hDone⟩ | ⟨_, _, hMore, hSum⟩
          · cases hDone
          · rw [entriesPerCluster_eq hGeo] at hSum
            omega

/-- The chain is extended, and the walk ends, or goes on in the new cluster. -/
theorem createFrom_extended (hGeo : Geometry bpb) {disk₁ disk' : Disk} {clusters : Set Nat}
    {fuel cluster nrLfn₁ : Nat} {table : Bytes}
    (hBpb : readBpb disk₁ = bpb) (hMedia : fatEntry disk₁ bpb 0 ≠ 0 ∧ fatEntry disk₁ bpb 1 ≠ 0)
    (hChain : SoundChain disk₁ bpb clusters) (hMem : cluster ∈ clusters)
    (hEoc : fat32Eoc (fatEntry disk₁ bpb cluster) = true)
    (hRoom : nrLfn₁ < 16 * bpb.sectorsPerCluster ∨
      nrLfn₁ < 32 * bpb.sectorsPerCluster ∧ ∃ c, c < 16 ∧ fatEntry disk₁ bpb c = 0)
    (h : createFrom junk bpb fn total fuel (extendChain disk₁ bpb cluster table).2
      (extendChain disk₁ bpb cluster table).1 nrLfn₁ = some disk') :
    (BootKept disk₁ disk' ∨ BootCleared disk') ∨
      ∃ disk₂ new, BootKept disk₁ disk₂ ∧
        CreateWalk bpb disk₂ (insert new clusters) new nrLfn₁ ∧
        createFrom junk bpb fn total fuel disk₂ new nrLfn₁ = some disk' := by
  obtain ⟨hCluster, -⟩ := hChain cluster hMem
  have hExt := extendChain_cases hGeo hBpb hCluster.lt_count table
  generalize extendChain disk₁ bpb cluster table = r at h hExt
  cases hExt with
  | full disk₂ hFull hLink =>
      cases fuel with
      | zero => cases h
      | succ fuel =>
          have hEnd : fat32Eoc 0xffffffff = true := by decide
          rw [createFrom, if_pos hEnd] at h
          cases h
          exact Or.inl (boot_of_full hGeo hLink)
  | taken disk₂ disk₃ new s i hTaken hLink =>
      have hNew := isCluster_of_taken hGeo hMedia hTaken
      have hZero : ∀ k, k < clusterBytes bpb →
          writeCluster disk₃ bpb new zeroed (clusterStart bpb new + k) = 0#8 :=
        fun k hk => writeCluster_inside hk
      have hBoot : BootKept disk₁ (writeCluster disk₃ bpb new zeroed) :=
        ((bootKept_of_fatSet hGeo hTaken.fat).trans (bootKept_of_fatSet hGeo hLink)).trans
          (bootKept_of_keptOutside hGeo hNew (keptOutside_writeCluster _ _ _ _))
      rcases hRoom with hOne | ⟨hTwo, c, hc, hFree⟩
      · have hKept := createFrom_fits hGeo hNew hZero hOne h
        exact Or.inl (Or.inl (hBoot.trans (bootKept_of_keptOutside hGeo hNew hKept)))
      · -- the cluster comes from the first sector, where its number is right
        have hSector : s = 0 := by
          by_contra hNe
          exact hTaken.first c hc (by omega) hFree
        have hNumber : s * 128 + i = new := by
          have := hTaken.number
          omega
        have hFat := hTaken.fat
        rw [hNumber] at hFat
        have hNe : new ≠ cluster := by
          intro hEq
          have hZeroWord := hTaken.free
          rw [hNumber, hEq] at hZeroWord
          rw [hZeroWord] at hEoc
          cases hEoc
        have hWord : ∀ d, d < 2 → fatEntry (writeCluster disk₃ bpb new zeroed) bpb d =
            fatEntry disk₁ bpb d := by
          intro d hd
          have hTwo := hNew.two_le
          have hTwo' := hCluster.two_le
          have hCount := hNew.lt_count
          rw [fatEntry_of_keptOutside hGeo hNew (by omega) (keptOutside_writeCluster _ _ _ _),
            hLink.kept d (by omega) (by omega), hFat.kept d (by omega) (by omega)]
        have hChain' : SoundChain (writeCluster disk₃ bpb new zeroed) bpb (insert new clusters) :=
          (hChain.extended hNew hNe hFat hLink).congr fun d hd =>
            fatEntry_of_keptOutside hGeo hNew hd (keptOutside_writeCluster _ _ _ _)
        refine Or.inr ⟨_, new, hBoot, ⟨?_, ?_, hChain', Set.mem_insert _ _, ?_⟩, h⟩
        · exact (readBpb_congr hBoot).trans hBpb
        · rw [hWord 0 (by decide), hWord 1 (by decide)]
          exact hMedia
        · exact Or.inr ⟨hTwo, Or.inr hZero⟩

/-- The walk along the directory leaves the boot sector alone, or finds the drive full and clears it. -/
theorem createFrom_boot (hGeo : Geometry bpb) {disk' : Disk} :
    ∀ {fuel cluster nrLfn : Nat} {disk : Disk} {clusters : Set Nat},
      CreateWalk bpb disk clusters cluster nrLfn →
      createFrom junk bpb fn total fuel disk cluster nrLfn = some disk' →
      BootKept disk disk' ∨ BootCleared disk' := by
  intro fuel
  induction fuel with
  | zero =>
      intro cluster nrLfn disk clusters _ h
      cases h
  | succ fuel ih =>
      intro cluster nrLfn disk clusters hWalk h
      obtain ⟨hCluster, hNext⟩ := hWalk.chain cluster hWalk.mem
      rw [createFrom, hCluster.not_eoc, if_neg (by decide)] at h
      cases hFill : fillSlots junk bpb fn cluster total (entriesPerCluster bpb) 0 disk
          (readCluster disk bpb cluster zeroed) nrLfn with
      | done disk₁ =>
          rw [hFill] at h
          cases h
          exact Or.inl (bootKept_of_keptOutside hGeo hCluster (fillSlots_kept hFill))
      | more disk₁ nrLfn₁ =>
          rw [hFill] at h
          have hKept : KeptOutside bpb cluster disk disk₁ := fillSlots_kept hFill
          have hBoot := bootKept_of_keptOutside hGeo hCluster hKept
          have hFat : ∀ c, c < fatCount bpb → fatEntry disk₁ bpb c = fatEntry disk bpb c :=
            fun c hc => fatEntry_of_keptOutside hGeo hCluster hc hKept
          have hChain := hWalk.chain.congr hFat
          have hRoom := room_after_fill hGeo hCluster hWalk.room hFill
          have hBpb : readBpb disk₁ = bpb := (readBpb_congr hBoot).trans hWalk.bpb_eq
          have hMedia : fatEntry disk₁ bpb 0 ≠ 0 ∧ fatEntry disk₁ bpb 1 ≠ 0 := by
            have hTwo := hCluster.two_le
            have hCount := hCluster.lt_count
            rw [hFat 0 (by omega), hFat 1 (by omega)]
            exact hWalk.media
          simp only [fatDefined_eq hGeo, if_true, fatWord_readFat hGeo] at h
          by_cases hEoc : fat32Eoc (fatEntry disk₁ bpb cluster) = true
          · rw [if_pos hEoc] at h
            rcases createFrom_extended hGeo hBpb hMedia hChain hWalk.mem hEoc hRoom h with hDone | hMore
            · exact hDone.imp hBoot.trans id
            · obtain ⟨disk₂, new, hKept₂, hWalk₂, h₂⟩ := hMore
              exact (ih hWalk₂ h₂).imp (hBoot.trans hKept₂).trans id
          · rw [if_neg hEoc] at h
            have hMem : fatEntry disk₁ bpb cluster ∈ clusters := by
              rw [hFat cluster hCluster.lt_count] at hEoc ⊢
              exact hNext.resolve_left hEoc
            have hWalk₁ : CreateWalk bpb disk₁ clusters (fatEntry disk₁ bpb cluster) nrLfn₁ :=
              ⟨hBpb, hMedia, hChain, hMem, hRoom.imp id (And.imp id Or.inl)⟩
            exact (ih hWalk₁ h).imp hBoot.trans id

end Walk

/-! ## The boot sector as a directory -/

/-- The short name in the first 11 bytes of the drive. -/
def bootName (disk : Disk) : Str := cutAtNul (sfnToAscii (DirEntry.name (dirSlot disk 0)))

/-- A consistent volume: the regions, the words of the first two clusters, and the jump instruction and the
name of the formatting program in the boot sector. -/
structure ConsistentVolume (disk : Disk) : Prop where
  geometry : Geometry (readBpb disk)
  media : fatEntry disk (readBpb disk) 0 ≠ 0 ∧ fatEntry disk (readBpb disk) 1 ≠ 0
  jump : disk 0 = 0xeb#8 ∨ disk 0 = 0xe9#8
  label : ∀ k, k < 11 → disk k ≠ slash

theorem dirSlot_congr {buf buf' : Bytes} (h : ∀ a, a < 32 → buf' a = buf a) : dirSlot buf' 0 = dirSlot buf 0 := by
  refine List.map_congr_left fun k hk => ?_
  have hLt := List.mem_range.mp hk
  exact h _ (by omega)

theorem name_slot (disk : Disk) :
    DirEntry.name (dirSlot disk 0) = (List.range 11).map fun k => disk (32 * 0 + k) := by
  rw [DirEntry.name, dirSlot, ← List.map_take, List.take_range]
  rfl

theorem mem_sfnToAscii {sfn : List (BitVec 8)} {b : BitVec 8} (h : b ∈ sfnToAscii sfn) :
    b ∈ sfn ∨ b = dotByte := by
  rw [sfnToAscii] at h
  have hBase : ∀ {b : BitVec 8}, b ∈ (sfn.take 8).takeWhile (· ≠ spaceByte) → b ∈ sfn :=
    fun hb => List.mem_of_mem_take ((List.takeWhile_prefix _).subset hb)
  split at h
  · exact Or.inl (hBase h)
  · rcases List.mem_append.mp h with hb | hb
    · exact Or.inl (hBase hb)
    · rcases List.mem_cons.mp hb with hb | hb
      · exact Or.inr hb
      · have hTake := List.mem_of_mem_take ((List.takeWhile_prefix _).subset hb)
        exact Or.inl (List.mem_of_mem_drop hTake)

theorem slash_not_mem_bootName {disk : Disk} (h : ∀ k, k < 11 → disk k ≠ slash) :
    slash ∉ bootName disk := by
  intro hMem
  have hIn : slash ∈ sfnToAscii (DirEntry.name (dirSlot disk 0)) := (List.takeWhile_prefix _).subset hMem
  rcases mem_sfnToAscii hIn with hName | hDot
  · rw [name_slot] at hName
    obtain ⟨k, hk, hEq⟩ := List.mem_map.mp hName
    rw [Nat.mul_zero, Nat.zero_add] at hEq
    exact h k (List.mem_range.mp hk) hEq
  · exact absurd hDot (by decide)

theorem bootName_ne_nil {disk : Disk} (hFirst : disk 0 ≠ 0#8) (hSpace : disk 0 ≠ spaceByte) :
    bootName disk ≠ [] := by
  have hList : DirEntry.name (dirSlot disk 0) =
      disk 0 :: (List.range 10).map fun k => disk (32 * 0 + (k + 1)) := by
    rw [name_slot, List.range_succ_eq_map, List.map_cons, List.map_map]
    rfl
  rw [bootName, hList, cutAtNul, sfnToAscii]
  split
  · simp [hFirst, hSpace]
  · simp [hFirst, hSpace]

/-- The low byte of 512 is no attribute of a long name. -/
theorem boot_attr {disk : Disk} (hBytes : (readBpb disk).bytesPerSector = 512) :
    DirEntry.attr (dirSlot disk 0) ≠ attrLongName := by
  have hField : leNat disk 11 2 = 512 := by
    have hRead : (readBpb disk).bytesPerSector = leNat disk (0 * 512 + 11) 2 := leNat_load (by decide)
    rw [hRead] at hBytes
    exact hBytes
  have hAttr : DirEntry.attr (dirSlot disk 0) = disk 11 := by
    simp [DirEntry.attr, DirEntry.bytes, dirSlot]
  have hByte := (disk (11 + 1)).isLt
  rw [leNat, leNat, leNat] at hField
  rw [hAttr]
  intro hEq
  rw [hEq] at hField
  have hLong : attrLongName.toNat = 15 := rfl
  omega

/-- Cluster 0 is the boot sector: the lookup finds its first bytes under the name that they spell. -/
theorem foreach_boot {junk : Junk} {disk : Disk} {fuel : Nat} (hGeo : Geometry (readBpb disk))
    (hFree : disk 0 ≠ sfnName0Free) (hDeleted : disk 0 ≠ sfnName0Deleted) :
    fat32ForeachDirent (fuel + 1) junk disk 0 (bootName disk) = some (0, some (dirSlot disk 0)) := by
  have hSectors := hGeo.sectors
  obtain ⟨n, hn⟩ : ∃ n, entriesPerCluster (readBpb disk) = n + 1 :=
    ⟨16 * (readBpb disk).sectorsPerCluster - 1, by rw [entriesPerCluster_eq hGeo]; omega⟩
  have hSlot : dirSlot (readCluster disk (readBpb disk) 0 zeroed) 0 = dirSlot disk 0 := by
    refine dirSlot_congr fun a ha => ?_
    have hStart : clusterStart (readBpb disk) 0 = 0 := by
      rw [clusterStart, clusterToLba, if_pos (by decide), Nat.zero_mul]
    rw [readCluster_of_lt (by rw [clusterBytes]; omega), hStart, Nat.zero_add]
  have hName0 : DirEntry.name0 (dirSlot disk 0) = disk 0 := by
    simp [DirEntry.name0, DirEntry.bytes, dirSlot]
  have hCompare : fat32Compare (dirSlot disk 0) zeroed (bootName disk) = true := by
    have hZero : zeroed 0 = 0#8 := rfl
    rw [fat32Compare, lookupName, if_pos hZero]
    exact strncmpEq_self _ _
  rw [fat32ForeachDirent, foreachFrom, if_neg (by decide), hn, scanSlots]
  simp only [hSlot, hName0, if_neg hFree, if_neg hDeleted, if_neg (boot_attr hGeo.bytes), hCompare,
    if_true]

/-- Nothing is found on a volume without a parameter block. -/
theorem lookup_cleared {junk : Junk} {disk : Disk} {fuel : Nat} {path : Str} (h : BootCleared disk)
    (hPath : components path ≠ []) : fat32Lookup fuel junk disk path = none := by
  have hBpb : readBpb disk = ⟨0, 0, 0, 0, 0, 0⟩ := by
    have hSame : readBpb disk = readBpb zeroed := readBpb_congr h
    rw [hSame]
    decide
  have hOne : ∀ name, fat32ForeachDirent fuel junk disk 0 name = none := by
    intro name
    rw [fat32ForeachDirent, hBpb]
    cases fuel with
    | zero => rfl
    | succ fuel => rfl
  rw [fat32Lookup, hBpb]
  cases hNames : components path with
  | nil => exact absurd hNames hPath
  | cons name names => rw [lookupEntryFrom, hOne]

/-! ## The new file -/

/-- The parent of a path is a directory: the root, in cluster 2, or what the lookup of the path before the
last component finds. -/
def ParentDirectory (junk : Junk) (disk : Disk) (path : Str) : Prop :=
  ∃ clusters, SoundChain disk (readBpb disk) clusters ∧
    if cutLast path = [slash] then 2 ∈ clusters
    else ∃ entry, LookupReturns junk disk (cutLast path) (0, some entry) ∧
      DirEntry.firstCluster entry ∈ clusters

/-- The entries of a name fit into a cluster, or into two and the FAT has a free cluster where the
allocator numbers clusters as the FAT does. -/
def NameRoom (disk : Disk) (path : Str) : Prop :=
  (∀ name ∈ components path, name.length / 13 + 1 < 16 * (readBpb disk).sectorsPerCluster) ∨
    ∃ c, c < 16 ∧ fatEntry disk (readBpb disk) c = 0

/-- The walk of `fat32_create` starts in the directory. -/
theorem createWalk_start {disk : Disk} {path : Str} {clusters : Set Nat} {cluster : Nat} {fn : Str}
    (hVolume : ConsistentVolume disk) (hNames : ∀ name ∈ components path, name.length ≤ 255)
    (hRoom : NameRoom disk path) (hFn : fn ∈ components path)
    (hChain : SoundChain disk (readBpb disk) clusters) (hMem : cluster ∈ clusters) :
    CreateWalk (readBpb disk) disk clusters cluster (fn.length / 13 + 1) := by
  refine ⟨rfl, hVolume.media, hChain, hMem, ?_⟩
  have hSectors := hVolume.geometry.sectors
  have hLength := hNames fn hFn
  rcases hRoom with hOne | hFree
  · exact Or.inl (hOne fn hFn)
  · exact Or.inr ⟨by omega, Or.inl hFree⟩

/-- A call that creates a file has not found it, and leaves the boot sector alone or clears it. -/
theorem fat32Create_boot {junk : Junk} {disk disk' : Disk} {path : Str} {fuel : Nat}
    (hVolume : ConsistentVolume disk) (hParent : ParentDirectory junk disk path)
    (hNames : ∀ name ∈ components path, name.length ≤ 255) (hRoom : NameRoom disk path)
    (h : fat32Create fuel junk disk path = some (0, disk')) :
    (∃ r, r.1 ≠ 0 ∧ fat32Lookup fuel junk disk path = some r) ∧ components path ≠ [] ∧
      (BootKept disk disk' ∨ BootCleared disk') := by
  obtain ⟨clusters, hChain, hStart⟩ := hParent
  rw [fat32Create] at h
  cases hLookup : fat32Lookup fuel junk disk path with
  | none =>
      rw [hLookup] at h
      cases h
  | some r =>
      rw [hLookup] at h
      simp only at h
      by_cases hRet : r.1 = 0
      · rw [if_pos hRet] at h
        cases h
      · rw [if_neg hRet] at h
        refine ⟨⟨r, hRet, rfl⟩, ?_⟩
        cases hNext : pathNext path with
        | none =>
            rw [hNext] at h
            cases h
        | some next =>
            obtain ⟨fn, rest⟩ := next
            have hComponents := components_of_some hNext
            have hFn : fn ∈ components path := by
              rw [hComponents]
              exact List.mem_cons_self
            have hWalk : ∀ {cluster}, cluster ∈ clusters →
                CreateWalk (readBpb disk) disk clusters cluster (fn.length / 13 + 1) :=
              fun hMem => createWalk_start hVolume hNames hRoom hFn hChain hMem
            refine ⟨by rw [hComponents]; exact List.cons_ne_nil _ _, ?_⟩
            rw [hNext] at h
            simp only at h
            by_cases hRoot : cutLast path = [slash]
            · rw [if_pos hRoot] at h hStart
              obtain ⟨disk₁, hCreate, hEq⟩ := Option.map_eq_some_iff.mp h
              cases hEq
              exact createFrom_boot hVolume.geometry (hWalk hStart) hCreate
            · rw [if_neg hRoot] at h hStart
              obtain ⟨entry, ⟨fuel', hFound⟩, hMem⟩ := hStart
              cases hDir : fat32Lookup fuel junk disk (cutLast path) with
              | none =>
                  rw [hDir] at h
                  cases h
              | some dir =>
                  have hSame := fat32Lookup_unique hDir hFound
                  rw [hDir, hSame] at h
                  simp only at h
                  rw [if_neg (by decide)] at h
                  obtain ⟨disk₁, hCreate, hEq⟩ := Option.map_eq_some_iff.mp h
                  cases hEq
                  exact createFrom_boot hVolume.geometry (hWalk hMem) hCreate

/-- A boot sector: sectors of 512 bytes, one in a cluster, one reserved, one FAT of one sector, and the root
directory in cluster 2. -/
def sampleBoot : List (BitVec 8) :=
  [0xeb#8, 0x58#8, 0x90#8, 0x6d#8, 0x6b#8, 0x66#8, 0x73#8, 0x2e#8, 0x66#8, 0x61#8, 0x74#8, 0x00#8,
    0x02#8, 0x01#8, 0x01#8, 0x00#8, 0x01#8] ++ List.replicate 19 0#8 ++ [0x01#8] ++
    List.replicate 7 0#8 ++ [0x02#8]

/-- The words of clusters 0 to 3 are end marks. -/
def sampleFat : List (BitVec 8) :=
  [0xf8#8, 0xff#8, 0xff#8, 0x0f#8, 0xff#8, 0xff#8, 0xff#8, 0x0f#8, 0xff#8, 0xff#8, 0xff#8, 0x0f#8,
    0xff#8, 0xff#8, 0xff#8, 0x0f#8]

/-- A directory `D` in cluster 3. -/
def sampleDir : List (BitVec 8) :=
  0x44#8 :: List.replicate 10 spaceByte ++ [attrDirectory] ++ List.replicate 14 0#8 ++ [0x03#8]

/-- A volume with an empty directory. -/
def sampleVolume : Disk :=
  putBytes (putBytes (putBytes zeroed 0 sampleBoot) 512 sampleFat) 1024 sampleDir

/-- A stack of zeros. -/
def sampleJunk : Junk := ⟨0, [], fun _ => 0#16⟩

theorem sampleVolume_consistent : ConsistentVolume sampleVolume where
  geometry := by
    have hBpb : readBpb sampleVolume = ⟨512, 1, 1, 1, 1, 2⟩ := by decide
    rw [hBpb]
    constructor <;> decide
  media := by decide
  jump := by decide
  label := by decide

theorem sampleVolume_chain {c : Nat} (hc : c = 2 ∨ c = 3) :
    SoundChain sampleVolume (readBpb sampleVolume) {c} := by
  have hBpb : readBpb sampleVolume = ⟨512, 1, 1, 1, 1, 2⟩ := by decide
  rintro d rfl
  rw [hBpb]
  refine ⟨⟨by omega, ?_, ?_⟩, Or.inl ?_⟩ <;> rcases hc with rfl | rfl <;> decide

end Rayos
