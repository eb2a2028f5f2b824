import Rayos.Fs.Fat32Descriptors
import Rayos.Fs.Fat32Walk

/-!
# The copies of the FAT

`fat32_create` and `fat32_write` update the FAT copy by copy and write data through `cluster_to_lba`.  An
allocation that fails returns `-1`, which is linked like a cluster and cleared: its sectors lie three
clusters before the first one, in the last copy of the FAT.

* A run is a list of calls; each event has the clusters that the call has written data to.
* `VolumeWrote` is what a call does to the volume where every allocation is served from the first 16 words of
  the FAT, and `FatIntact` what is expected after every call.
-/

namespace Rayos

open LittleEndian ByteStore CString

/-! ## The data that calls write -/

/-- The clusters that `fat32_create` writes directory data to. -/
def fat32CreateData (fuel : Nat) (junk : Junk) (disk : Disk) (path : Str) : List Nat :=
  match fat32Lookup fuel junk disk path with
  | none => []
  | some (ret, _) =>
      if ret = 0 then []
      else
        match pathNext path, parentCluster fuel junk disk path with
        | some (fn, _), some cluster =>
            createData junk (readBpb disk) fn (fn.length / 13 + 1 + 1) fuel disk cluster
              (fn.length / 13 + 1)
        | _, _ => []

/-- The cluster that the loop over the directory writes back. -/
def updateData (bpb : Fat32Bpb) (entry : DirEntry) (disk : Disk) : Nat → Nat → List Nat
  | 0, _ => []
  | fuel + 1, cluster =>
      if fat32Eoc cluster then []
      else
        match matchSlot (readCluster disk bpb cluster zeroed) entry (entriesPerCluster bpb) with
        | some _ => [cluster]
        | none =>
            if fatDefined bpb then
              updateData bpb entry disk fuel
                (fatWord (readFat disk bpb cluster zeroed) (fatIndex bpb cluster))
            else []

/-- The clusters that the loop over the buffer writes. -/
def piecesData (bpb : Fat32Bpb) (buf : Bytes) (size : Nat) : Nat → Disk → Nat → Nat → List Nat
  | 0, _, _, _ => []
  | fuel + 1, disk, off, cluster =>
      if off < size then
        let disk := writeCluster disk bpb cluster fun k => buf (off + k)
        cluster ::
          if fatDefined bpb then
            let table := readFat disk bpb cluster zeroed
            let next := fatWord table (fatIndex bpb cluster)
            if fat32Eoc next then
              let r := extendChain disk bpb cluster table
              r.1 :: piecesData bpb buf size fuel r.2 (off + bytesPerCluster bpb) r.1
            else piecesData bpb buf size fuel disk (off + bytesPerCluster bpb) next
          else []
      else []

/-- The cluster that the first write of a file updates its entry in. -/
def firstData (fuel : Nat) (disk : Disk) (fp : Fat32File) : List Nat :=
  let r := fat32AllocCluster disk
  updateData fp.bpb (fp.entry.setFirstCluster r.1) r.2 fuel fp.parentEntry.firstCluster

/-- The clusters that `fat32_write_cluster` writes. -/
def writeClusterData (fuel : Nat) (disk : Disk) (fp : Fat32File) (buf : Bytes) (size : Nat) :
    List Nat :=
  if fp.entry.firstCluster = 0 then
    firstData fuel disk fp ++
      match firstWrite fuel disk fp size with
      | none => []
      | some (entry, disk) => piecesData fp.bpb buf size fuel disk 0 entry.firstCluster
  else piecesData fp.bpb buf size fuel disk 0 fp.entry.firstCluster

/-- The calls on the volume. -/
inductive VolumeCall where
  | create (path : Str)
  | file (call : FileCall)

namespace VolumeCall

/-- A call: its result and the state after it. -/
def run (fuel : Nat) (junk : Junk) (s : OpenFiles) : VolumeCall → Option (Int × OpenFiles)
  | .create path =>
      (fat32Create fuel junk s.disk path).map fun r => (r.1, { s with disk := r.2 })
  | .file call => call.run fuel junk s

/-- The clusters that a call writes file or directory data to. -/
def data (fuel : Nat) (junk : Junk) (s : OpenFiles) : VolumeCall → List Nat
  | .create path => fat32CreateData fuel junk s.disk path
  | .file (.write fd buf size) =>
      match fat32FindFile s.files fd with
      | none => []
      | some fp => writeClusterData fuel s.disk fp buf size
  | .file _ => []

end VolumeCall

/-- The calls of a run, each in a state that meets `Cond`, with the clusters that it writes. -/
inductive VolumeRun (Cond : OpenFiles → VolumeCall → Prop) (s₀ : OpenFiles) :
    List (VolumeCall × List Nat) → OpenFiles → Prop
  | nil : VolumeRun Cond s₀ [] s₀
  | snoc {events : List (VolumeCall × List Nat)} {s s' : OpenFiles} {call : VolumeCall} {ret : Int}
      (fuel : Nat) (junk : Junk) (hRun : VolumeRun Cond s₀ events s) (hCond : Cond s call)
      (hCall : call.run fuel junk s = some (ret, s')) :
      VolumeRun Cond s₀ (events ++ [(call, call.data fuel junk s)]) s'

/-- The copies of the FAT are equal, the reserved sectors are as before the run, and all data has been
written behind the FAT. -/
structure FatIntact (disk : Disk) (events : List (VolumeCall × List Nat)) (s : OpenFiles) : Prop where
  copies : CopiesEqual (readBpb disk) s.disk
  reserved : ∀ a, a < (readBpb disk).reservedSectorCount * 512 → s.disk a = disk a
  data : ∀ e ∈ events, ∀ c ∈ e.2, (readBpb disk).reservedSectorCount +
    (readBpb disk).fatSize32 * (readBpb disk).numFats ≤ clusterToLba (readBpb disk) c

/-! ## The condition -/

/-- The number of pieces of a buffer. -/
def pieces (bpb : Fat32Bpb) (size : Nat) : Nat := (size + bytesPerCluster bpb - 1) / bytesPerCluster bpb

/-- If the path is created, the parent directory has room, with clusters from the first 16 words of the
FAT. -/
def CreateServed (disk : Disk) (path : Str) : Prop :=
  ∀ fuel junk found fn rest cluster, fat32Lookup fuel junk disk path = some found → found.1 ≠ 0 →
    pathNext path = some (fn, rest) → parentCluster fuel junk disk path = some cluster →
    ∃ chain, DirectoryRoom disk (readBpb disk) cluster chain (entriesLeft fn (fn.length / 13 + 1))

/-- The clusters that the write takes are among the first 16 words of the FAT: one for each piece that
the chain of the file is too short for, and one more. -/
def WriteServed (disk : Disk) (fp : Fat32File) (size : Nat) : Prop :=
  if fp.entry.firstCluster = 0 then
    pieces fp.bpb size + 1 ≤ (lowFree disk fp.bpb).card ∧
      ∃ chain, ChainFrom disk fp.bpb fp.parentEntry.firstCluster chain
  else
    size = 0 ∨ ∃ chain, chain ≠ [] ∧ ChainFrom disk fp.bpb fp.entry.firstCluster chain ∧
      pieces fp.bpb size + 1 ≤ chain.length + (lowFree disk fp.bpb).card

/-- The call takes no cluster beyond the free ones among the first 16 words of the FAT, and goes along
chains of clusters. -/
def CallServed (s : OpenFiles) : VolumeCall → Prop
  | .create path => CreateServed s.disk path
  | .file (.write fd _ size) => ∀ fp, fat32FindFile s.files fd = some fp → WriteServed s.disk fp size
  | .file _ => True

/-! ## What a call writes -/

/-- The volume after a call that has written data to these clusters. -/
structure VolumeWrote (bpb : Fat32Bpb) (disk : Disk) (data : List Nat) (disk' : Disk) : Prop where
  reserved : ∀ a, a < bpb.reservedSectorCount * 512 → disk' a = disk a
  media : ∀ d, d < 2 → fatEntry disk' bpb d = fatEntry disk bpb d
  copies : CopiesEqual bpb disk → CopiesEqual bpb disk'
  clusters : ∀ c ∈ data, IsCluster bpb c
  /-- The list is complete. -/
  frame : ∀ a, dataStart bpb ≤ a →
    (∀ c ∈ data, a < clusterStart bpb c ∨ clusterStart bpb c + clusterBytes bpb ≤ a) → disk' a = disk a

namespace VolumeWrote

variable {bpb : Fat32Bpb} {disk disk' disk'' : Disk} {data data' : List Nat}

theorem refl (bpb : Fat32Bpb) (disk : Disk) : VolumeWrote bpb disk [] disk :=
  ⟨fun _ _ => rfl, fun _ _ => rfl, id, fun _ hc => absurd hc List.not_mem_nil, fun _ _ _ => rfl⟩

theorem trans (h : VolumeWrote bpb disk data disk') (h' : VolumeWrote bpb disk' data' disk'') :
    VolumeWrote bpb disk (data ++ data') disk'' := by
  refine ⟨?_, ?_, fun hCopies => h'.copies (h.copies hCopies), ?_, ?_⟩
  · exact fun a ha => (h'.reserved a ha).trans (h.reserved a ha)
  · exact fun d hd => (h'.media d hd).trans (h.media d hd)
  · intro c hc
    exact (List.mem_append.mp hc).elim (h.clusters c) (h'.clusters c)
  · intro a ha hOut
    rw [h'.frame a ha fun c hc => hOut c (List.mem_append_right _ hc)]
    exact h.frame a ha fun c hc => hOut c (List.mem_append_left _ hc)

theorem head (hGeo : Geometry bpb) (h : VolumeWrote bpb disk data disk') (hHead : HeadOk bpb disk) :
    HeadOk bpb disk' := by
  have hReserved := hGeo.reserved
  exact hHead.congr (fun a ha => h.reserved a (by omega)) h.media

theorem of_keptOutside (hGeo : Geometry bpb) {c : Nat} (hc : IsCluster bpb c)
    (h : KeptOutside bpb c disk disk') : VolumeWrote bpb disk [c] disk' := by
  have hTwo := hc.two_le
  have hCount := hc.lt_count
  have hStart := dataStart_le_clusterStart hGeo hc
  have hFat := fatEnd_le_dataStart hGeo
  refine ⟨fun a ha => h a (Or.inl (by omega)), ?_, copiesEqual_of_keptOutside hGeo hc h, ?_, ?_⟩
  · exact fun d hd => fatEntry_of_keptOutside hGeo hc (by omega) h
  · intro d hd
    exact List.mem_singleton.mp hd ▸ hc
  · exact fun a _ hOut => h a (hOut c (List.mem_singleton_self c))

theorem of_appended (hGeo : Geometry bpb) {last new : Nat} (hLast : IsCluster bpb last)
    (h : Appended bpb disk disk' last new) : VolumeWrote bpb disk [new] disk' := by
  have hTwo := hLast.two_le
  have hTwo' := h.cluster.two_le
  have hCount := hLast.lt_count
  have hStart := dataStart_le_clusterStart hGeo h.cluster
  have hFat := fatEnd_le_dataStart hGeo
  refine ⟨fun a ha => h.frame a (Or.inl ha) (Or.inl (by omega)), ?_, h.copies, ?_, ?_⟩
  · exact fun d hd => h.kept d (by omega) (by omega) (by omega)
  · intro d hd
    exact List.mem_singleton.mp hd ▸ h.cluster
  · exact fun a ha hOut => h.frame a (Or.inr ha) (hOut new (List.mem_singleton_self new))

theorem of_takenLow {new : Nat} (h : TakenLow bpb disk disk' new) : VolumeWrote bpb disk [] disk' := by
  have hTwo := h.cluster.two_le
  have hCount := h.cluster.lt_count
  refine ⟨fun a ha => h.fat.frame a (Or.inl ha), ?_, h.fat.copies, ?_, ?_⟩
  · exact fun d hd => h.fat.kept d (by omega) (by omega)
  · exact fun c hc => absurd hc List.not_mem_nil
  · exact fun a ha _ => h.fat.frame a (Or.inr ha)

end VolumeWrote

/-- The loop over the slots of a cluster. -/
theorem fillSlots_wrote {junk : Junk} {bpb : Fat32Bpb} {fn : Str} {total : Nat} (hGeo : Geometry bpb)
    {disk : Disk} {cluster nrLfn : Nat} {r : SlotFill} (hCluster : IsCluster bpb cluster)
    (hFill : fillSlots junk bpb fn cluster total (entriesPerCluster bpb) 0 disk
      (readCluster disk bpb cluster zeroed) nrLfn = r) :
    VolumeWrote bpb disk (fillData disk bpb cluster) r.disk := by
  rw [fillData]
  split
  · case isTrue hNone =>
      rw [fillSlots_full hNone] at hFill
      rw [← hFill]
      exact VolumeWrote.refl bpb disk
  · exact .of_keptOutside hGeo hCluster (fillSlots_kept hFill)

/-- A walk through a directory. -/
theorem Walked.wrote {junk : Junk} {bpb : Fat32Bpb} {fn : Str} {total : Nat} (hGeo : Geometry bpb)
    {disk disk' : Disk} {cluster nrLfn : Nat} {data : List Nat}
    (h : Walked junk bpb fn total disk cluster nrLfn data disk') : VolumeWrote bpb disk data disk' := by
  induction h with
  | done hCluster hFill => exact (fillSlots_wrote hGeo hCluster hFill).trans (VolumeWrote.refl bpb _)
  | next hCluster hFill _ ih => exact (fillSlots_wrote hGeo hCluster hFill).trans ih
  | grown hCluster hFill _ hAppended _ ih =>
      exact (fillSlots_wrote hGeo hCluster hFill).trans
        ((VolumeWrote.of_appended hGeo hCluster hAppended).trans ih)

theorem fat32Create_wrote {fuel : Nat} {junk : Junk} {disk disk' : Disk} {path : Str} {ret : Int}
    (hGeo : Geometry (readBpb disk)) (hHead : HeadOk (readBpb disk) disk)
    (hServed : CreateServed disk path) (h : fat32Create fuel junk disk path = some (ret, disk')) :
    VolumeWrote (readBpb disk) disk (fat32CreateData fuel junk disk path) disk' := by
  rcases fat32Create_cases h with ⟨-, rfl, found, hLookup, hStop⟩ |
    ⟨-, found, fn, rest, cluster, hLookup, hNe, hNext, hParent, hWalk⟩
  · have hData : fat32CreateData fuel junk disk' path = [] := by
      rw [fat32CreateData, hLookup]
      rcases hStop with hFound | hNone
      · exact if_pos hFound
      · simp [hNone]
    rw [hData]
    exact VolumeWrote.refl _ _
  · obtain ⟨chain, hRoom⟩ := hServed fuel junk found fn rest cluster hLookup hNe hNext hParent
    have hWalked := createFrom_walked hGeo hHead hRoom hWalk
    rw [fat32CreateData, hLookup]
    simp only [if_neg hNe, hNext, hParent]
    exact hWalked.wrote hGeo

/-! ## Writing a file -/

namespace DirEntry

theorem bytes_ofBytes {buf : Bytes} {k : Nat} (hk : k < 32) : (ofBytes buf).bytes k = buf k := by
  simp [bytes, ofBytes, hk]

theorem leNat_ofBytes {buf : Bytes} {off n : Nat} (h : off + n ≤ 32) :
    leNat (ofBytes buf).bytes off n = leNat buf off n :=
  leNat_congr fun _ _ => bytes_ofBytes (by omega)

theorem firstCluster_setFirstCluster (entry : DirEntry) {cluster : Nat} (h : cluster < 2 ^ 32) :
    (entry.setFirstCluster cluster).firstCluster = cluster := by
  rw [firstCluster, setFirstCluster, leNat_ofBytes (by decide), leNat_ofBytes (by decide),
    leNat_putLe_of_disjoint _ (by decide), leNat_putLe _ (by omega), leNat_putLe _ (by omega)]
  omega

theorem firstCluster_setFileSize (entry : DirEntry) (size : Nat) :
    (entry.setFileSize size).firstCluster = entry.firstCluster := by
  rw [firstCluster, setFileSize, leNat_ofBytes (by decide), leNat_ofBytes (by decide),
    leNat_putLe_of_disjoint _ (by decide), leNat_putLe_of_disjoint _ (by decide)]
  rfl

end DirEntry

section Write

variable {bpb : Fat32Bpb} (hGeo : Geometry bpb)
include hGeo

/-- The loop that writes the entry back goes along the chain of the directory. -/
theorem updateFrom_wrote {entry : DirEntry} {size : Nat} {disk : Disk} {r : DirEntry × Disk} :
    ∀ {fuel cluster : Nat} {chain : List Nat}, ChainFrom disk bpb cluster chain →
      updateFrom bpb entry size disk fuel cluster = some r →
      r.1.firstCluster = entry.firstCluster ∧
        VolumeWrote bpb disk (updateData bpb entry disk fuel cluster) r.2 ∧
        ∀ c, c < fatCount bpb → fatEntry r.2 bpb c = fatEntry disk bpb c := by
  intro fuel
  induction fuel with
  | zero =>
      intro cluster chain _ h
      cases h
  | succ fuel ih =>
      intro cluster chain hChain h
      rw [updateFrom] at h
      rw [updateData]
      cases chain with
      | nil =>
          have hEnd : fat32Eoc cluster = true := hChain
          rw [if_pos hEnd] at h ⊢
          cases h
          exact ⟨rfl, VolumeWrote.refl bpb disk, fun _ _ => rfl⟩
      | cons c chain =>
          obtain ⟨rfl, hCluster, hRest⟩ := hChain
          rw [hCluster.not_eoc, if_neg (by decide)] at h ⊢
          cases hMatch : matchSlot (readCluster disk bpb c zeroed) entry (entriesPerCluster bpb) with
          | some i =>
              simp only [hMatch] at h ⊢
              cases h
              have hKept := keptOutside_writeCluster disk bpb c
                (putSlot (readCluster disk bpb c zeroed) i (entry.setFileSize size))
              exact ⟨DirEntry.firstCluster_setFileSize entry size, .of_keptOutside hGeo hCluster hKept,
                fun d hd => fatEntry_of_keptOutside hGeo hCluster hd hKept⟩
          | none =>
              simp only [hMatch, fatDefined_eq hGeo, if_true, fatWord_readFat hGeo] at h ⊢
              exact ih hRest h

theorem bytesPerCluster_eq : bytesPerCluster bpb = clusterBytes bpb := by
  rw [bytesPerCluster, clusterBytes, hGeo.bytes, Nat.mul_comm]

theorem clusterBytes_pos : 0 < clusterBytes bpb := by
  have := hGeo.sectors
  rw [clusterBytes]
  omega

theorem pieces_step {n : Nat} (hn : 0 < n) : pieces bpb n = pieces bpb (n - bytesPerCluster bpb) + 1 := by
  have hPos := clusterBytes_pos hGeo
  rw [pieces, pieces, bytesPerCluster_eq hGeo]
  generalize clusterBytes bpb = b at hPos
  have hFirst : (n + b - 1) / b = (n - 1) / b + 1 := by
    rw [← Nat.add_div_right _ hPos]
    congr 1
    omega
  rw [hFirst]
  by_cases hLe : n ≤ b
  · rw [Nat.sub_eq_zero_of_le hLe, Nat.div_eq_of_lt (by omega), Nat.div_eq_of_lt (by omega)]
  · congr 2
    omega

/-- The loop over the buffer goes along the chain of the file and appends to it. -/
theorem writePieces_wrote {buf : Bytes} {size : Nat} {disk' : Disk} :
    ∀ {fuel off cluster : Nat} {disk : Disk} {chain : List Nat}, HeadOk bpb disk →
      ChainFrom disk bpb cluster (cluster :: chain) →
      pieces bpb (size - off) ≤ chain.length + (lowFree disk bpb).card →
      writePieces bpb buf size fuel disk off cluster = some disk' →
      VolumeWrote bpb disk (piecesData bpb buf size fuel disk off cluster) disk' := by
  have hSize := hGeo.size
  intro fuel
  induction fuel with
  | zero =>
      intro off cluster disk chain _ _ _ h
      cases h
  | succ fuel ih =>
      intro off cluster disk chain hHead hChain hPieces h
      rw [writePieces] at h
      rw [piecesData]
      by_cases hMore : off < size
      · rw [if_pos hMore] at h ⊢
        obtain ⟨-, hCluster, hRest⟩ := hChain
        have hKept := keptOutside_writeCluster disk bpb cluster fun k => buf (off + k)
        simp only at h ⊢
        generalize writeCluster disk bpb cluster _ = disk₁ at hKept h
        have hWrote := VolumeWrote.of_keptOutside hGeo hCluster hKept
        have hHead₁ := hWrote.head hGeo hHead
        have hFat : ∀ c, c < fatCount bpb → fatEntry disk₁ bpb c = fatEntry disk bpb c :=
          fun c hc => fatEntry_of_keptOutside hGeo hCluster hc hKept
        have hLow : lowFree disk₁ bpb = lowFree disk bpb :=
          lowFree_congr fun c hc => by rw [hFat c (by rw [fatCount]; omega)]
        have hWord := hFat cluster hCluster.lt_count
        have hStep := pieces_step hGeo (n := size - off) (by omega)
        rw [← Nat.sub_add_eq] at hStep
        simp only [fatDefined_eq hGeo, if_true, fatWord_readFat hGeo, hWord] at h ⊢
        cases chain with
        | nil =>
            have hEnd : fat32Eoc (fatEntry disk bpb cluster) = true := hRest
            have hNotZero : fatEntry disk₁ bpb cluster ≠ 0 := by
              rw [hWord]
              intro hZero
              rw [hZero] at hEnd
              cases hEnd
            rw [if_pos hEnd] at h ⊢
            rw [List.length_nil, Nat.zero_add, ← hLow] at hPieces
            have hFree : (lowFree disk₁ bpb).Nonempty := by
              rw [← Finset.card_pos]
              omega
            have hApp := extendChain_low hGeo hHead₁.bpb_eq hHead₁.media hFree hCluster hNotZero
              (readFat disk₁ bpb cluster zeroed)
            have hCard := hApp.card hGeo hNotZero
            have hGrown := VolumeWrote.of_appended hGeo hCluster hApp
            have hChain₂ := ChainFrom.singleton hApp.cluster (by rw [hApp.mark]; rfl)
            exact hWrote.trans (hGrown.trans (ih (hGrown.head hGeo hHead₁) hChain₂
              (by rw [List.length_nil]; omega) h))
        | cons d chain =>
            obtain ⟨rfl, hNext, hTail⟩ := hRest
            have hNotEnd : ¬ fat32Eoc (fatEntry disk bpb cluster) = true := by
              rw [hNext.not_eoc]
              decide
            rw [if_neg hNotEnd] at h ⊢
            have hChain₁ : ChainFrom disk₁ bpb (fatEntry disk bpb cluster)
                (fatEntry disk bpb cluster :: chain) := by
              have hOld : ChainFrom disk bpb (fatEntry disk bpb cluster)
                (fatEntry disk bpb cluster :: chain) := ⟨rfl, hNext, hTail⟩
              exact hOld.congr fun c hc => hFat c (hOld.isCluster hc).lt_count
            rw [List.length_cons] at hPieces
            exact hWrote.trans (ih hHead₁ hChain₁ (by rw [hLow]; omega) h)
      · rw [if_neg hMore] at h ⊢
        cases h
        exact VolumeWrote.refl bpb _

/-- The first write has given the file a cluster: its number is in the entry, and the FAT is as the allocator
has left it. -/
structure FirstWritten (bpb : Fat32Bpb) (disk : Disk) (r : DirEntry × Disk) (new : Nat) : Prop where
  taken : TakenLow bpb disk (fat32AllocCluster disk).2 new
  first : r.1.firstCluster = new
  words : ∀ d, d < fatCount bpb → d ≠ new → fatEntry r.2 bpb d = fatEntry disk bpb d
  chain : ChainFrom r.2 bpb new [new]
  card : (lowFree r.2 bpb).card + 1 = (lowFree disk bpb).card

theorem firstWrite_taken {fuel size : Nat} {disk : Disk} {fp : Fat32File} {chain : List Nat}
    {r : DirEntry × Disk} (hHead : HeadOk bpb disk) (hBpb : fp.bpb = bpb)
    (hParent : ChainFrom disk bpb fp.parentEntry.firstCluster chain)
    (hFree : (lowFree disk bpb).Nonempty) (h : firstWrite fuel disk fp size = some r) :
    FirstWritten bpb disk r (fat32AllocCluster disk).1 ∧
      VolumeWrote bpb disk (firstData fuel disk fp) r.2 := by
  have hSize := hGeo.size
  have hTaken := allocCluster_low hGeo hHead.bpb_eq hHead.media hFree
  have hNew := (mem_lowFree.mp hTaken.mem).1
  rw [firstWrite, hBpb] at h
  rw [firstData, hBpb]
  obtain ⟨hEntry, hUpdated, hFat⟩ := updateFrom_wrote hGeo (hParent.taken hTaken) h
  rw [DirEntry.firstCluster_setFirstCluster _ (by omega)] at hEntry
  have hLow : lowFree r.2 bpb = (lowFree disk bpb).erase (fat32AllocCluster disk).1 := by
    rw [← hTaken.lowFree_eq hGeo]
    exact lowFree_congr fun c hc => by rw [hFat c (by rw [fatCount]; omega)]
  refine ⟨⟨hTaken, hEntry, ?_, .singleton hTaken.cluster ?_, ?_⟩,
    (VolumeWrote.of_takenLow hTaken).trans hUpdated⟩
  · intro d hd hNe
    rw [hFat d hd, hTaken.fat.kept d hd hNe]
  · rw [hFat _ hTaken.cluster.lt_count, hTaken.fat.set]
    rfl
  · rw [hLow]
    exact Finset.card_erase_add_one hTaken.mem

/-- `fat32_write_cluster`, where its allocations are served. -/
theorem fat32WriteCluster_wrote {fuel size : Nat} {disk disk' : Disk} {fp fp' : Fat32File} {buf : Bytes}
    (hHead : HeadOk bpb disk) (hBpb : fp.bpb = bpb) (hServed : WriteServed disk fp size)
    (h : fat32WriteCluster fuel disk fp buf size = some (fp', disk')) :
    fp'.bpb = bpb ∧ VolumeWrote bpb disk (writeClusterData fuel disk fp buf size) disk' := by
  subst hBpb
  rw [fat32WriteCluster] at h
  rw [writeClusterData]
  rw [WriteServed] at hServed
  by_cases hFirst : fp.entry.firstCluster = 0
  · rw [if_pos hFirst] at h hServed ⊢
    obtain ⟨hPieces, chain, hParent⟩ := hServed
    have hFree : (lowFree disk fp.bpb).Nonempty := by
      rw [← Finset.card_pos]
      omega
    cases hUpdate : firstWrite fuel disk fp size with
    | none =>
        rw [hUpdate] at h
        cases h
    | some r =>
        rw [hUpdate] at h
        obtain ⟨disk₃, hWrite, hEq⟩ := Option.map_eq_some_iff.mp h
        cases hEq
        obtain ⟨hWritten, hBefore⟩ := firstWrite_taken hGeo hHead rfl hParent hFree hUpdate
        have hCard := hWritten.card
        simp only [hWritten.first] at hWrite ⊢
        refine ⟨trivial, hBefore.trans (writePieces_wrote hGeo (hBefore.head hGeo hHead) hWritten.chain ?_
          hWrite)⟩
        rw [List.length_nil, Nat.sub_zero]
        omega
  · rw [if_neg hFirst] at h hServed ⊢
    obtain ⟨disk₁, hWrite, hEq⟩ := Option.map_eq_some_iff.mp h
    cases hEq
    refine ⟨rfl, ?_⟩
    rcases hServed with hEmpty | ⟨chain, hNe, hChain, hPieces⟩
    · rw [hEmpty] at hWrite ⊢
      cases fuel with
      | zero => cases hWrite
      | succ fuel =>
          cases hWrite
          exact VolumeWrote.refl fp.bpb _
    · obtain ⟨c, chain, rfl⟩ := List.exists_cons_of_ne_nil hNe
      have hc := hChain.1
      rw [hc] at hChain
      rw [List.length_cons] at hPieces
      exact writePieces_wrote hGeo hHead hChain (by rw [Nat.sub_zero]; omega) hWrite

end Write

/-! ## Runs -/

/-- What holds after every run of which all calls are served. -/
structure MirrorInv (disk : Disk) (events : List (VolumeCall × List Nat)) (s : OpenFiles) : Prop where
  head : HeadOk (readBpb disk) s.disk
  files : ∀ fp ∈ s.files, fp.bpb = readBpb disk
  intact : FatIntact disk events s

theorem FatIntact.snoc {disk : Disk} (hGeo : Geometry (readBpb disk)) {s s' : OpenFiles}
    {events : List (VolumeCall × List Nat)} {call : VolumeCall} {data : List Nat}
    (h : FatIntact disk events s) (hWrote : VolumeWrote (readBpb disk) s.disk data s'.disk) :
    FatIntact disk (events ++ [(call, data)]) s' := by
  refine ⟨hWrote.copies h.copies, fun a ha => (hWrote.reserved a ha).trans (h.reserved a ha), ?_⟩
  intro e he c hc
  rcases List.mem_append.mp he with hOld | hNew
  · exact h.data e hOld c hc
  · cases List.mem_singleton.mp hNew
    rw [clusterToLba_eq hGeo (hWrote.clusters c hc)]
    exact Nat.le_add_right _ _

theorem putFile_mem {files : List Fat32File} {fd : Int} {fp f : Fat32File}
    (h : f ∈ putFile files fd fp) : f = fp ∨ f ∈ files := by
  induction files with
  | nil => cases h
  | cons g files ih =>
      rw [putFile] at h
      split at h
      · exact (List.mem_cons.mp h).imp id (List.mem_cons_of_mem _)
      · rcases List.mem_cons.mp h with hHead | hTail
        · exact Or.inr (hHead ▸ List.mem_cons_self)
        · exact (ih hTail).imp id (List.mem_cons_of_mem _)

/-- `fat32_open` reads the parameter block, and writes nothing. -/
theorem fat32Open_bpb {fuel : Nat} {junk : Junk} {s s' : OpenFiles} {path : Str} {ret : Int}
    (h : fat32Open fuel junk s path = some (ret, s')) :
    s'.disk = s.disk ∧ ∀ fp ∈ s'.files, fp ∈ s.files ∨ fp.bpb = readBpb s.disk := by
  rw [fat32Open] at h
  split at h
  · cases h
  · simp only at h
    split at h
    · cases h
      exact ⟨rfl, fun fp hMem => Or.inl hMem⟩
    · split at h
      · cases h
        exact ⟨rfl, fun fp hMem => Or.inl hMem⟩
      · obtain ⟨parentEntry, -, hEq⟩ := Option.map_eq_some_iff.mp h
        cases hEq
        refine ⟨rfl, fun fp hMem => (List.mem_append.mp hMem).imp id fun hNew => ?_⟩
        rw [List.mem_singleton.mp hNew]

/-- What a served call does to the volume and to the list of files. -/
theorem VolumeCall.run_wrote {disk : Disk} (hGeo : Geometry (readBpb disk)) {fuel : Nat} {junk : Junk}
    {events : List (VolumeCall × List Nat)} {s s' : OpenFiles} {call : VolumeCall} {ret : Int}
    (hs : MirrorInv disk events s) (hServed : CallServed s call)
    (h : call.run fuel junk s = some (ret, s')) :
    VolumeWrote (readBpb disk) s.disk (call.data fuel junk s) s'.disk ∧
      ∀ fp ∈ s'.files, fp.bpb = readBpb disk := by
  have hBpb := hs.head.bpb_eq
  cases call with
  | create path =>
      obtain ⟨⟨ret', disk'⟩, hCreate, hEq⟩ := Option.map_eq_some_iff.mp h
      cases hEq
      have hWrote := fat32Create_wrote (by rw [hBpb]; exact hGeo) (by rw [hBpb]; exact hs.head) hServed
        hCreate
      rw [hBpb] at hWrote
      exact ⟨hWrote, hs.files⟩
  | file call =>
      cases call with
      | «open» path =>
          obtain ⟨hDisk, hFiles⟩ := fat32Open_bpb h
          refine ⟨?_, fun fp hMem => (hFiles fp hMem).elim (hs.files fp) fun hNew => hNew.trans hBpb⟩
          rw [hDisk]
          exact VolumeWrote.refl _ _
      | read fd buf size =>
          obtain ⟨r, -, hEq⟩ := Option.map_eq_some_iff.mp h
          cases hEq
          exact ⟨VolumeWrote.refl _ _, hs.files⟩
      | write fd buf size =>
          obtain ⟨⟨ret', files, disk'⟩, hWrite, hEq⟩ := Option.map_eq_some_iff.mp h
          cases hEq
          rw [fat32Write] at hWrite
          rw [VolumeCall.data]
          cases hFind : fat32FindFile s.files fd with
          | none =>
              rw [hFind] at hWrite
              cases hWrite
              exact ⟨VolumeWrote.refl _ _, hs.files⟩
          | some fp =>
              rw [hFind] at hWrite
              obtain ⟨⟨fp', disk₁⟩, hCluster, hEq⟩ := Option.map_eq_some_iff.mp hWrite
              cases hEq
              obtain ⟨hBpb', hWrote⟩ := fat32WriteCluster_wrote hGeo hs.head
                (hs.files fp (fat32FindFile_mem hFind).1) (hServed fp hFind) hCluster
              refine ⟨hWrote, fun f hMem => ?_⟩
              rcases putFile_mem hMem with rfl | hOld
              · exact hBpb'
              · exact hs.files f hOld
      | close fd =>
          rw [VolumeCall.run, FileCall.run, Option.some.injEq, fat32Close] at h
          split at h
          · cases h
            exact ⟨VolumeWrote.refl _ _, hs.files⟩
          · cases h
            exact ⟨VolumeWrote.refl _ _, hs.files⟩

/-- A boot sector: one sector in a cluster, one reserved, two FATs of two sectors, and the root directory in
cluster 2. -/
def mirrorBoot : List (BitVec 8) :=
  [0xeb#8, 0x58#8, 0x90#8, 0x6d#8, 0x6b#8, 0x66#8, 0x73#8, 0x2e#8, 0x66#8, 0x61#8, 0x74#8, 0x00#8,
    0x02#8, 0x01#8, 0x01#8, 0x00#8, 0x02#8] ++ List.replicate 19 0#8 ++ [0x02#8] ++
    List.replicate 7 0#8 ++ [0x02#8]

/-- A file `A` in cluster 3. -/
def mirrorFile : List (BitVec 8) :=
  0x41#8 :: List.replicate 10 spaceByte ++ [attrArchive] ++ List.replicate 14 0#8 ++ [0x03#8]

/-- A copy of the FAT: the words of the clusters below `used` are end marks. -/
def mirrorFat (used k : Nat) : BitVec 8 :=
  if k / 4 < used then if k % 4 = 3 then 0x0f#8 else 0xff#8 else 0#8

/-- A volume with the file in its root directory. -/
def mirrorVolume (used : Nat) : Disk := fun a =>
  if a < 512 then mirrorBoot.getD a 0#8
  else if a < 2560 then mirrorFat used ((a - 512) % 1024)
  else mirrorFile.getD (a - 2560) 0#8

theorem mirrorVolume_fat {used a : Nat} (hLow : 512 ≤ a) (hHigh : a < 2560) :
    mirrorVolume used a = mirrorFat used ((a - 512) % 1024) := by
  rw [mirrorVolume, if_neg (by omega), if_pos hHigh]

theorem mirrorVolume_bpb (used : Nat) : readBpb (mirrorVolume used) = ⟨512, 1, 1, 2, 2, 2⟩ := by
  have hSame : readBpb (mirrorVolume used) = readBpb (mirrorVolume 0) :=
    readBpb_congr fun a ha => by rw [mirrorVolume, mirrorVolume, if_pos ha, if_pos ha]
  rw [hSame]
  decide

theorem mirrorVolume_geometry (used : Nat) : Geometry (readBpb (mirrorVolume used)) := by
  rw [mirrorVolume_bpb]
  constructor <;> decide

theorem mirrorVolume_copies (used : Nat) :
    CopiesEqual (readBpb (mirrorVolume used)) (mirrorVolume used) := by
  rw [mirrorVolume_bpb]
  intro j hj s hs k hk
  simp only at hj hs ⊢
  obtain rfl | rfl : j = 0 ∨ j = 1 := by omega
  · rfl
  · rw [mirrorVolume_fat (by omega) (by omega), mirrorVolume_fat (by omega) (by omega)]
    exact congrArg (mirrorFat used) (by omega)

/-- `/B` is created, `/A` is opened and a byte is written to it: the states after the calls. -/
def mirrorRun (used : Nat) : Option (OpenFiles × OpenFiles × OpenFiles) :=
  ((VolumeCall.create [slash, 0x42#8]).run 3 sampleJunk (OpenFiles.boot (mirrorVolume used))).bind
    fun r₁ => ((VolumeCall.file (.open [slash, 0x41#8])).run 3 sampleJunk r₁.2).bind
      fun r₂ => ((VolumeCall.file (.write 0 zeroed 1)).run 3 sampleJunk r₂.2).map
        fun r₃ => (r₁.2, r₂.2, r₃.2)

/-- The calls of the run. -/
theorem mirrorRun_run {used : Nat} (Cond : OpenFiles → VolumeCall → Prop) {s₁ s₂ s₃ : OpenFiles}
    (h : mirrorRun used = some (s₁, s₂, s₃))
    (hCreate : Cond (OpenFiles.boot (mirrorVolume used)) (.create [slash, 0x42#8]))
    (hOpen : Cond s₁ (.file (.open [slash, 0x41#8])))
    (hWrite : Cond s₂ (.file (.write 0 zeroed 1))) :
    ∃ events, VolumeRun Cond (OpenFiles.boot (mirrorVolume used)) events s₃ ∧
      events.map Prod.fst = [.create [slash, 0x42#8], .file (.open [slash, 0x41#8]),
        .file (.write 0 zeroed 1)] := by
  obtain ⟨⟨ret₁, s₁'⟩, h₁, h⟩ := Option.bind_eq_some_iff.mp h
  obtain ⟨⟨ret₂, s₂'⟩, h₂, h⟩ := Option.bind_eq_some_iff.mp h
  obtain ⟨⟨ret₃, s₃'⟩, h₃, hEq⟩ := Option.map_eq_some_iff.mp h
  cases hEq
  exact ⟨_, ((VolumeRun.nil.snoc 3 sampleJunk hCreate h₁).snoc 3 sampleJunk hOpen h₂).snoc 3 sampleJunk
    hWrite h₃, rfl⟩

/-- There is room for `/B` in the root directory. -/
theorem mirrorVolume_served : CreateServed (mirrorVolume 4) [slash, 0x42#8] := by
  intro fuel junk found fn rest cluster _ _ hNext hParent
  have hName : pathNext [slash, 0x42#8] = some ([0x42#8], []) := by decide
  have hRoot : parentCluster fuel junk (mirrorVolume 4) [slash, 0x42#8] = some 2 := if_pos (by decide)
  rw [hName] at hNext
  rw [hRoot] at hParent
  cases hNext
  cases hParent
  rw [mirrorVolume_bpb]
  refine ⟨[2], .singleton ⟨by decide, by decide, by decide⟩ (by decide), List.cons_ne_nil _ _, ?_⟩
  rw [List.map_singleton, List.sum_singleton]
  refine Nat.le_trans ?_ (Nat.le_add_right _ _)
  decide

end Rayos
