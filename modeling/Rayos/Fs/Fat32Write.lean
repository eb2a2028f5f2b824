import Rayos.Fs.Fat32Names

/-!
# Writing a file and reading it back

`fat32_write` stores the size of a file on its first write only, and after each piece whose cluster is the
last of the chain it appends one more cluster, whether a piece is left or not.  The chain of a file that
has been written to is therefore longer than its size says.

* `OpenAt` is an open file on a consistent volume, with its slot in the directory and its chain.
* `Written` is what is expected of `fat32_write`, and `WriteMeets` the condition under which it holds:
  nothing is to be written.
-/

namespace Rayos

open LittleEndian ByteStore CString

/-- An open file: the record holds the entry in slot `i` of cluster `c`, the names of the directory are
apart, and the file has no cluster, or a chain that is apart from the directory. -/
structure OpenAt (disk : Disk) (fp : Fat32File) (dirChain chain : List Nat) (c i : Nat) : Prop where
  bpb : fp.bpb = readBpb disk
  dir : ChainFrom disk fp.bpb fp.parentEntry.firstCluster dirChain
  names : DirNames disk fp.bpb dirChain
  mem : c ∈ dirChain
  index : i < entriesPerCluster fp.bpb
  live : LiveEntry (entryAt disk fp.bpb c i)
  entry : fp.entry = entryAt disk fp.bpb c i
  unlinked : fp.entry.firstCluster = 0 → chain = []
  linked : fp.entry.firstCluster ≠ 0 → ChainFrom disk fp.bpb fp.entry.firstCluster chain ∧ chain ≠ []
  apart : ∀ d ∈ chain, d ∉ dirChain

/-- The file has the size and a chain of the right length, what has been written is read back, and the
clusters of other files and the other slots are as before. -/
structure WrittenState (bpb : Fat32Bpb) (disk : Disk) (files' : List Fat32File) (disk' : Disk) (fd : Int)
    (buf : Bytes) (size : Nat) (chain : List Nat) (c i : Nat) : Prop where
  sized : (entryAt disk' bpb c i).fileSize = size
  chained : ∃ chain', ChainFrom disk' bpb (entryAt disk' bpb c i).firstCluster chain' ∧
    chain'.length = max 1 (pieces bpb size)
  read : ∀ out, ∃ fuel r out', fat32Read fuel files' disk' fd out size = some (r, out') ∧
    ∀ k, k < size → out' k = buf k
  fat : ∀ d, d < fatCount bpb → fatEntry disk bpb d ≠ 0 → d ∉ chain →
    fatEntry disk' bpb d = fatEntry disk bpb d
  data : ∀ d, IsCluster bpb d → fatEntry disk bpb d ≠ 0 → d ∉ chain → ∀ k, k < clusterBytes bpb →
    ¬ (d = c ∧ 32 * i ≤ k ∧ k < 32 * i + 32) →
    disk' (clusterStart bpb d + k) = disk (clusterStart bpb d + k)

/-- `fat32_write` returns 0, and the file is written. -/
def Written (files : List Fat32File) (disk : Disk) (fd : Int) (buf : Bytes) (size : Nat) (chain : List Nat)
    (c i : Nat) : Prop :=
  ∃ fuel files' disk', fat32Write fuel files disk fd buf size = some (0, files', disk') ∧
    WrittenState (readBpb disk) disk files' disk' fd buf size chain c i

/-- Nothing is to be written, and the file has no cluster yet and can get one from the first 16 words of the
FAT, or is an empty file with one cluster. -/
def WriteMeets (disk : Disk) (fp : Fat32File) (size : Nat) (chain : List Nat) : Prop :=
  size = 0 ∧ if fp.entry.firstCluster = 0 then (lowFree disk fp.bpb).Nonempty
    else fp.entry.fileSize = 0 ∧ chain.length = 1

/-! ## The chain of a file that is written to -/

theorem pieces_zero {bpb : Fat32Bpb} (hGeo : Geometry bpb) : pieces bpb 0 = 0 := by
  have hPos := clusterBytes_pos hGeo
  rw [pieces, bytesPerCluster_eq hGeo]
  exact Nat.div_eq_of_lt (by omega)

section Chain

variable {bpb : Fat32Bpb} (hGeo : Geometry bpb)
include hGeo

/-- The loop over the buffer leaves a chain with one cluster more than there are pieces, or more. -/
theorem writePieces_grew {buf : Bytes} {size : Nat} {disk' : Disk} :
    ∀ {fuel off cluster : Nat} {disk : Disk} {chain : List Nat}, HeadOk bpb disk →
      ChainFrom disk bpb cluster (cluster :: chain) →
      pieces bpb (size - off) ≤ chain.length + (lowFree disk bpb).card →
      writePieces bpb buf size fuel disk off cluster = some disk' →
      ∃ chain', ChainGrew bpb disk cluster (cluster :: chain) disk' chain' ∧
        (∀ d ∈ piecesData bpb buf size fuel disk off cluster, d ∈ chain') ∧
        pieces bpb (size - off) + 1 ≤ chain'.length := by
  have hSize := hGeo.size
  intro fuel
  induction fuel with
  | zero =>
      intro off cluster disk chain _ _ _ h
      cases h
  | succ fuel ih =>
      intro off cluster disk chain hHead hChain hPieces h
      rw [writePieces] at h
      rw [piecesData]
      by_cases hMore : off < size
      · rw [if_pos hMore] at h ⊢
        have hCluster := hChain.2.1
        have hKept := keptOutside_writeCluster disk bpb cluster fun k => buf (off + k)
        simp only at h ⊢
        generalize writeCluster disk bpb cluster _ = disk₁ at hKept h ⊢
        have hHead₁ := hHead.of_keptOutside hGeo hCluster hKept
        have hFat : ∀ d, d < fatCount bpb → fatEntry disk₁ bpb d = fatEntry disk bpb d :=
          fun d hd => fatEntry_of_keptOutside hGeo hCluster hd hKept
        have hLow : lowFree disk₁ bpb = lowFree disk bpb :=
          lowFree_congr fun d hd => by rw [hFat d (by rw [fatCount]; omega)]
        have hWord := hFat cluster hCluster.lt_count
        have hStep := pieces_step hGeo (n := size - off) (by omega)
        rw [← Nat.sub_add_eq] at hStep
        simp only [fatDefined_eq hGeo, if_true, fatWord_readFat hGeo, hWord] at h ⊢
        cases chain with
        | nil =>
            have hEnd : fat32Eoc (fatEntry disk bpb cluster) = true := hChain.2.2
            have hNotZero : fatEntry disk₁ bpb cluster ≠ 0 :=
              hWord.symm ▸ hChain.word_ne_zero List.mem_cons_self
            rw [if_pos hEnd] at h ⊢
            rw [List.length_nil, Nat.zero_add, ← hLow] at hPieces
            have hFree : (lowFree disk₁ bpb).Nonempty := by
              rw [← Finset.card_pos]
              omega
            have hApp := extendChain_low hGeo hHead₁.bpb_eq hHead₁.media hFree hCluster hNotZero
              (readFat disk₁ bpb cluster zeroed)
            have hCard := hApp.card hGeo hNotZero
            have hChain₂ := ChainFrom.singleton hApp.cluster (by rw [hApp.mark]; rfl)
            obtain ⟨chain', hGrew, hData, hLength⟩ := ih (hHead₁.of_appended hGeo hCluster hApp) hChain₂
              (by rw [List.length_nil]; omega) h
            obtain ⟨-, hNew, hGrew'⟩ := ChainGrew.appended hCluster hEnd hFat hApp hGrew
            refine ⟨cluster :: chain', hGrew', ?_, by rw [List.length_cons]; omega⟩
            intro d hd
            rcases List.mem_cons.mp hd with rfl | hd
            · exact List.mem_cons_self
            · refine List.mem_cons_of_mem _ ?_
              rcases List.mem_cons.mp hd with rfl | hd
              · exact hNew
              · exact hData d hd
        | cons e chain =>
            obtain ⟨rfl, hNext, hTail⟩ := hChain.2.2
            have hNotEnd : ¬ fat32Eoc (fatEntry disk bpb cluster) = true := by
              rw [hNext.not_eoc]
              decide
            rw [if_neg hNotEnd] at h ⊢
            have hChain₁ := hChain.2.2.congr fun d hd => hFat d (hChain.2.2.isCluster hd).lt_count
            rw [List.length_cons] at hPieces
            obtain ⟨chain', hGrew, hData, hLength⟩ := ih hHead₁ hChain₁ (by rw [hLow]; omega) h
            obtain ⟨-, hGrew'⟩ := ChainGrew.cons hChain hFat hGrew
            refine ⟨cluster :: chain', hGrew', ?_, by rw [List.length_cons]; omega⟩
            intro d hd
            rcases List.mem_cons.mp hd with rfl | hd
            · exact List.mem_cons_self
            · exact List.mem_cons_of_mem _ (hData d hd)
      · rw [if_neg hMore] at h ⊢
        cases h
        refine ⟨cluster :: chain, .of_eq hChain fun _ _ => rfl, fun d hd => absurd hd List.not_mem_nil, ?_⟩
        have hZero : size - off = 0 := by omega
        rw [hZero, pieces_zero hGeo, List.length_cons]
        omega

/-- The loop over the directory ends. -/
theorem updateFrom_isSome {entry : DirEntry} {size : Nat} {disk : Disk} :
    ∀ {fuel cluster : Nat} {chain : List Nat}, ChainFrom disk bpb cluster chain → chain.length < fuel →
      ∃ r, updateFrom bpb entry size disk fuel cluster = some r := by
  intro fuel
  induction fuel with
  | zero =>
      intro cluster chain _ hLt
      omega
  | succ fuel ih =>
      intro cluster chain hChain hLt
      rw [updateFrom]
      cases chain with
      | nil =>
          have hEnd : fat32Eoc cluster = true := hChain
          exact ⟨_, if_pos hEnd⟩
      | cons c chain =>
          obtain ⟨rfl, hCluster, hRest⟩ := hChain
          rw [List.length_cons] at hLt
          rw [hCluster.not_eoc, if_neg (by decide)]
          cases hMatch : matchSlot (readCluster disk bpb c zeroed) entry (entriesPerCluster bpb) with
          | some i =>
              simp only [hMatch]
              exact ⟨_, rfl⟩
          | none =>
              simp only [hMatch, fatDefined_eq hGeo, if_true, fatWord_readFat hGeo]
              exact ih hRest (by omega)

end Chain

/-! ## Nothing to write -/

theorem fat32FindFile_putFile {files : List Fat32File} {fd : Int} {fp fp' : Fat32File}
    (h : fat32FindFile files fd = some fp) (hFd : fp'.fd = fd) :
    fat32FindFile (putFile files fd fp') fd = some fp' := by
  induction files with
  | nil => cases h
  | cons f files ih =>
      rw [fat32FindFile, List.find?_cons] at h
      rw [putFile]
      by_cases hHere : f.fd = fd
      · rw [if_pos hHere, fat32FindFile, List.find?_cons]
        simp [hFd]
      · simp only [hHere, decide_false] at h
        rw [if_neg hHere, fat32FindFile, List.find?_cons]
        simp only [hHere, decide_false]
        exact ih h

/-- An empty buffer leaves the drive alone. -/
theorem writePieces_zero (bpb : Fat32Bpb) (buf : Bytes) (fuel : Nat) (disk : Disk) (cluster : Nat) :
    writePieces bpb buf 0 (fuel + 1) disk 0 cluster = some disk := by
  rw [writePieces, if_neg (Nat.lt_irrefl 0)]

/-- The call on a descriptor that is found. -/
theorem fat32Write_of_find {files : List Fat32File} {disk : Disk} {fd : Int} {buf : Bytes} {fp : Fat32File}
    {fuel size : Nat} {r : Fat32File × Disk} (hFind : fat32FindFile files fd = some fp)
    (h : fat32WriteCluster fuel disk fp buf size = some r) :
    fat32Write fuel files disk fd buf size = some (0, putFile files fd r.1, r.2) := by
  rw [fat32Write, hFind]
  simp only
  rw [h]
  rfl

/-- An empty buffer and a file with a cluster. -/
theorem fat32WriteCluster_zero {fp : Fat32File} (hFirst : fp.entry.firstCluster ≠ 0) (disk : Disk)
    (buf : Bytes) : fat32WriteCluster 1 disk fp buf 0 = some (fp, disk) := by
  rw [fat32WriteCluster, if_neg hFirst]
  simp only
  rw [writePieces_zero]
  rfl

/-- An empty buffer and a file without a cluster. -/
theorem fat32WriteCluster_first {fp : Fat32File} (hFirst : fp.entry.firstCluster = 0) {disk : Disk}
    {fuel : Nat} {r : DirEntry × Disk} (hUpdate : firstWrite (fuel + 1) disk fp 0 = some r) (buf : Bytes) :
    fat32WriteCluster (fuel + 1) disk fp buf 0 = some ({ fp with entry := r.1 }, r.2) := by
  rw [fat32WriteCluster, if_pos hFirst, hUpdate]
  simp only
  rw [writePieces_zero]
  rfl

/-- Reading nothing from a file with a cluster. -/
theorem fat32Read_zero {files : List Fat32File} {disk : Disk} {fd : Int} {fp : Fat32File} {out : Bytes}
    (hFind : fat32FindFile files fd = some fp) (hCluster : IsCluster fp.bpb fp.entry.firstCluster) :
    ∃ r out', fat32Read 1 files disk fd out 0 = some (r, out') := by
  rw [fat32Read, hFind]
  simp only [fat32ReadCluster, readFrom, hCluster.not_eoc, Nat.not_lt_zero, if_false]
  exact ⟨_, _, rfl⟩

theorem fileSize_setFileSize (entry : DirEntry) {size : Nat} (h : size < 2 ^ 32) :
    (entry.setFileSize size).fileSize = size := by
  rw [DirEntry.fileSize, DirEntry.setFileSize, DirEntry.leNat_ofBytes (by decide), leNat_putLe _ (by omega)]

section Meets

variable {files : List Fat32File} {disk : Disk} {fd : Int} {buf : Bytes} {fp : Fat32File}
  {dirChain chain : List Nat} {c i : Nat}

/-- An empty file with one cluster stays as it is. -/
theorem written_of_empty (hGeo : Geometry fp.bpb) (hFind : fat32FindFile files fd = some fp)
    (hOpen : OpenAt disk fp dirChain chain c i) (hFirst : fp.entry.firstCluster ≠ 0)
    (hEmpty : fp.entry.fileSize = 0) (hOne : chain.length = 1) :
    Written files disk fd buf 0 chain c i := by
  have hFd := (fat32FindFile_mem hFind).2
  obtain ⟨hChain, hNe⟩ := hOpen.linked hFirst
  have hCluster : IsCluster fp.bpb fp.entry.firstCluster := by
    obtain ⟨d, rest, rfl⟩ := List.exists_cons_of_ne_nil hNe
    exact hChain.2.1
  refine ⟨1, putFile files fd fp, disk,
    fat32Write_of_find hFind (fat32WriteCluster_zero hFirst disk buf), ?_⟩
  · rw [← hOpen.bpb]
    refine ⟨?_, ⟨chain, ?_, ?_⟩, fun out => ?_, fun _ _ _ _ => rfl, fun _ _ _ _ _ _ _ => rfl⟩
    · rw [← hOpen.entry]
      exact hEmpty
    · rw [← hOpen.entry]
      exact hChain
    · rw [hOne, pieces_zero hGeo]
      rfl
    · obtain ⟨r, out', hRead⟩ := fat32Read_zero (fat32FindFile_putFile hFind hFd) hCluster
      exact ⟨1, r, out', hRead, fun k hk => absurd hk (Nat.not_lt_zero k)⟩

/-- The first write of an empty buffer gives the file a cluster. -/
theorem written_of_first (hGeo : Geometry fp.bpb) (hHead : HeadOk fp.bpb disk)
    (hFind : fat32FindFile files fd = some fp) (hOpen : OpenAt disk fp dirChain chain c i)
    (hFirst : fp.entry.firstCluster = 0) (hFree : (lowFree disk fp.bpb).Nonempty) :
    Written files disk fd buf 0 chain c i := by
  have hFd := (fat32FindFile_mem hFind).2
  have hName := congrArg DirEntry.name hOpen.entry
  obtain ⟨hDir, -⟩ := allocCluster_kept hGeo hHead.bpb_eq hOpen.dir
  obtain ⟨r, hUpdate⟩ : ∃ r, firstWrite (dirChain.length + 1) disk fp 0 = some r :=
    updateFrom_isSome hGeo hDir (Nat.lt_succ_self _)
  obtain ⟨hWritten, -⟩ := firstWrite_taken hGeo hHead rfl hOpen.dir hFree hUpdate
  obtain ⟨hEntry, hDisk⟩ := firstWrite_own hGeo hHead.bpb_eq rfl hOpen.dir hOpen.names hOpen.mem hOpen.index
    hOpen.live hName hUpdate
  have hOwn := ((hOpen.names.shortNames hGeo hHead.bpb_eq hOpen.dir).search c hOpen.mem i hOpen.index
    hOpen.live _ fp 0 r rfl rfl hName hUpdate).1
  have hc := hOpen.dir.isCluster hOpen.mem
  refine ⟨dirChain.length + 1, putFile files fd { fp with entry := r.1 }, r.2,
    fat32Write_of_find hFind (fat32WriteCluster_first hFirst hUpdate buf), ?_⟩
  rw [← hOpen.bpb]
  refine ⟨?_, ⟨[(fat32AllocCluster disk).1], ?_, ?_⟩, fun out => ?_, ?_, ?_⟩
  · rw [hOwn, hEntry]
    exact fileSize_setFileSize _ (by decide)
  · rw [hOwn, hWritten.first]
    exact hWritten.chain
  · rw [pieces_zero hGeo]
    rfl
  · have hFound : fat32FindFile (putFile files fd { fp with entry := r.1 }) fd =
        some { fp with entry := r.1 } := fat32FindFile_putFile hFind hFd
    obtain ⟨ret, out', hRead⟩ := fat32Read_zero hFound (by
      simp only
      rw [hWritten.first]
      exact hWritten.taken.cluster)
    exact ⟨1, ret, out', hRead, fun k hk => absurd hk (Nat.not_lt_zero k)⟩
  · intro d hd hWord _
    refine hWritten.words d hd ?_
    rintro rfl
    exact hWord (mem_lowFree.mp hWritten.taken.mem).2
  · intro d hd _ _ k hk hOut
    have hStart := dataStart_le_clusterStart hGeo hd
    rw [hDisk]
    by_cases hdc : d = c
    · rw [hdc] at hOut ⊢
      rw [writeCluster_inside hk, putSlot, if_neg (by omega), readCluster_of_lt hk]
    · have hApart := clusterStart_disjoint hGeo hd hc hdc
      rw [keptOutside_writeCluster _ _ _ _ _ (by omega)]
      exact hWritten.taken.fat.frame _ (Or.inr (by omega))

end Meets

/-! ## Something to write -/

/-- After the loop over a buffer the chain of the entry is too long. -/
theorem chain_too_long {bpb : Fat32Bpb} (hGeo : Geometry bpb) {disk disk' : Disk} {buf : Bytes}
    {size fuel first c i : Nat} {rest chain : List Nat} (hHead : HeadOk bpb disk)
    (hChain : ChainFrom disk bpb first (first :: rest))
    (hPieces : pieces bpb size ≤ rest.length + (lowFree disk bpb).card) (hc : IsCluster bpb c)
    (hNot : c ∉ first :: rest) (hWord : fatEntry disk bpb c ≠ 0)
    (hSlot : (entryAt disk bpb c i).firstCluster = first) (hSize : 0 < size)
    (hRun : writePieces bpb buf size fuel disk 0 first = some disk')
    (hAfter : ChainFrom disk' bpb (entryAt disk' bpb c i).firstCluster chain) :
    chain.length ≠ max 1 (pieces bpb size) := by
  obtain ⟨chain', hGrew, hData, hLength⟩ := writePieces_grew hGeo hHead hChain
    (by rw [Nat.sub_zero]; exact hPieces) hRun
  have hWrote := writePieces_wrote hGeo hHead hChain (by rw [Nat.sub_zero]; exact hPieces) hRun
  -- the slot lies in a cluster that is in use, and not in the chain
  have hOut : c ∉ piecesData bpb buf size fuel disk 0 first := fun hMem =>
    (hGrew.new c (hData c hMem)).elim hNot hWord
  have hSame : (entryAt disk' bpb c i).firstCluster = first := by
    rw [entryAt, hWrote.readCluster_eq hGeo hc hOut]
    exact hSlot
  rw [hSame] at hAfter
  rw [Nat.sub_zero] at hLength
  have hPos := pieces_step hGeo hSize
  rw [hAfter.unique hGrew.linked]
  omega

/-- A write of something does not leave a chain of the right length. -/
theorem not_written_of_pos {files : List Fat32File} {disk : Disk} {fd : Int} {buf : Bytes} {fp : Fat32File}
    {dirChain chain : List Nat} {c i size : Nat} (hGeo : Geometry fp.bpb) (hHead : HeadOk fp.bpb disk)
    (hFind : fat32FindFile files fd = some fp) (hOpen : OpenAt disk fp dirChain chain c i)
    (hServed : WriteServed disk fp size) (hSize : 0 < size) : ¬ Written files disk fd buf size chain c i := by
  rintro ⟨fuel, files', disk', hRun, hState⟩
  obtain ⟨chain', hAfter, hLength⟩ := hState.chained
  rw [← hOpen.bpb] at hAfter hLength
  have hc := hOpen.dir.isCluster hOpen.mem
  have hWord := hOpen.dir.word_ne_zero hOpen.mem
  rw [fat32Write, hFind] at hRun
  obtain ⟨⟨fp', disk₃⟩, hWrite, hEq⟩ := Option.map_eq_some_iff.mp hRun
  cases hEq
  rw [fat32WriteCluster] at hWrite
  rw [WriteServed] at hServed
  by_cases hFirst : fp.entry.firstCluster = 0
  · rw [if_pos hFirst] at hWrite hServed
    have hFree : (lowFree disk fp.bpb).Nonempty := by
      rw [← Finset.card_pos]
      omega
    cases hUpdate : firstWrite fuel disk fp size with
    | none =>
        rw [hUpdate] at hWrite
        cases hWrite
    | some r =>
        rw [hUpdate] at hWrite
        obtain ⟨disk₂, hPieces, hEq⟩ := Option.map_eq_some_iff.mp hWrite
        cases hEq
        obtain ⟨hWritten, hBefore⟩ := firstWrite_taken hGeo hHead rfl hOpen.dir hFree hUpdate
        have hOwn := ((hOpen.names.shortNames hGeo hHead.bpb_eq hOpen.dir).search c hOpen.mem i hOpen.index
          hOpen.live _ fp size r rfl rfl (congrArg DirEntry.name hOpen.entry) hUpdate).1
        have hCard := hWritten.card
        have hNe : c ≠ (fat32AllocCluster disk).1 := by
          rintro rfl
          exact hWord (mem_lowFree.mp hWritten.taken.mem).2
        rw [hWritten.first] at hPieces
        refine chain_too_long hGeo (hBefore.head hGeo hHead) hWritten.chain ?_ hc ?_ ?_ ?_ hSize hPieces
          hAfter hLength
        · rw [List.length_nil]
          omega
        · exact fun hMem => hNe (List.mem_singleton.mp hMem)
        · rw [hWritten.words c hc.lt_count hNe]
          exact hWord
        · rw [hOwn, hWritten.first]
  · rw [if_neg hFirst] at hWrite hServed
    obtain ⟨disk₂, hPieces, hEq⟩ := Option.map_eq_some_iff.mp hWrite
    cases hEq
    obtain ⟨hChain, hNe⟩ := hOpen.linked hFirst
    obtain ⟨chain₁, -, hChain₁, hEnough⟩ := hServed.resolve_left (by omega)
    rw [hChain₁.unique hChain] at hEnough
    obtain ⟨d, rest, rfl⟩ := List.exists_cons_of_ne_nil hNe
    have hd : d = fp.entry.firstCluster := hChain.1
    rw [hd] at hChain
    rw [List.length_cons] at hEnough
    refine chain_too_long hGeo hHead hChain (by omega) hc ?_ hWord ?_ hSize hPieces hAfter hLength
    · exact fun hMem => hOpen.apart c (hd ▸ hMem) hOpen.mem
    · rw [← hOpen.entry]

/-- `fat32_write` does what is expected where nothing is to be written to a file that is empty; and, as long
as its clusters come from the first 16 words of the FAT, nowhere else. -/
theorem fat32Write_written_iff {files : List Fat32File} {disk : Disk} {fd : Int} {buf : Bytes}
    {fp : Fat32File} {dirChain chain : List Nat} {c i size : Nat} (hGeo : Geometry (readBpb disk))
    (hMedia : fatEntry disk (readBpb disk) 0 ≠ 0 ∧ fatEntry disk (readBpb disk) 1 ≠ 0)
    (hFind : fat32FindFile files fd = some fp) (hOpen : OpenAt disk fp dirChain chain c i) :
    (WriteMeets disk fp size chain → Written files disk fd buf size chain c i) ∧
      (WriteServed disk fp size → Written files disk fd buf size chain c i →
        WriteMeets disk fp size chain) := by
  rw [← hOpen.bpb] at hGeo hMedia
  have hHead : HeadOk fp.bpb disk := ⟨hOpen.bpb.symm, hMedia⟩
  constructor
  · rintro ⟨rfl, hCond⟩
    by_cases hFirst : fp.entry.firstCluster = 0
    · rw [if_pos hFirst] at hCond
      exact written_of_first hGeo hHead hFind hOpen hFirst hCond
    · rw [if_neg hFirst] at hCond
      exact written_of_empty hGeo hFind hOpen hFirst hCond.1 hCond.2
  · intro hServed hWritten
    have hZero : size = 0 := by
      by_contra hNe
      exact not_written_of_pos hGeo hHead hFind hOpen hServed (Nat.pos_of_ne_zero hNe) hWritten
    refine ⟨hZero, ?_⟩
    rw [hZero] at hWritten hServed
    by_cases hFirst : fp.entry.firstCluster = 0
    · rw [WriteServed, if_pos hFirst] at hServed
      rw [if_pos hFirst, ← Finset.card_pos]
      omega
    · -- the drive is as before: so are the size and the chain
      rw [if_neg hFirst]
      obtain ⟨fuel, files', disk', hRun, hState⟩ := hWritten
      have hSame : disk' = disk := by
        rw [fat32Write, hFind] at hRun
        obtain ⟨⟨fp', disk₃⟩, hWrite, hEq⟩ := Option.map_eq_some_iff.mp hRun
        cases hEq
        rw [fat32WriteCluster, if_neg hFirst] at hWrite
        obtain ⟨disk₂, hPieces, hEq⟩ := Option.map_eq_some_iff.mp hWrite
        cases hEq
        cases fuel with
        | zero => cases hPieces
        | succ fuel =>
            cases hPieces
            rfl
      obtain ⟨chain', hAfter, hLength⟩ := hState.chained
      have hSized := hState.sized
      rw [hSame, ← hOpen.bpb, ← hOpen.entry] at hAfter hSized
      rw [← hOpen.bpb, pieces_zero hGeo] at hLength
      rw [hAfter.unique (hOpen.linked hFirst).1] at hLength
      exact ⟨hSized, hLength⟩

/-! ## An empty file -/

/-- The record of `/A` on the volume with an empty file. -/
def fileRecord : Fat32File where
  fd := 0
  path := 0
  bpb := ⟨512, 1, 1, 1, 1, 2⟩
  entry := sampleFile ++ List.replicate 20 0#8
  parentEntry := rootEntry

/-- It is the record that `fat32_open` makes. -/
theorem fileRecord_opened :
    (fat32Open 3 sampleJunk (OpenFiles.boot fileVolume) [slash, 0x41#8]).map (fun r => (r.1, r.2.files)) =
      some (0, [fileRecord]) := by
  decide +kernel

theorem fileVolume_bpb : readBpb fileVolume = ⟨512, 1, 1, 1, 1, 2⟩ := by decide

theorem fileVolume_geometry : Geometry (readBpb fileVolume) := by
  rw [fileVolume_bpb]
  constructor <;> decide

theorem fileVolume_names : DirNames fileVolume ⟨512, 1, 1, 1, 1, 2⟩ [2] := by
  have hUsed : ∀ i, i < 16 → slotFree (entryAt fileVolume ⟨512, 1, 1, 1, 1, 2⟩ 2 i) = false → i < 2 := by
    decide
  have hPlain : ∀ i, i < 2 → 0#8 ∉ (entryAt fileVolume ⟨512, 1, 1, 1, 1, 2⟩ 2 i).name := by
    decide
  have hNames : ∀ i, i < 2 → ∀ j, j < 2 → (entryAt fileVolume ⟨512, 1, 1, 1, 1, 2⟩ 2 j).name =
      (entryAt fileVolume ⟨512, 1, 1, 1, 1, 2⟩ 2 i).name → j = i := by
    decide
  constructor
  · intro c hc i hi hLive d hd j hj hUsed' hSame
    cases List.mem_singleton.mp hc
    cases List.mem_singleton.mp hd
    exact ⟨rfl, hNames i (hUsed i hi hLive.1) j (hUsed j hj hUsed') hSame⟩
  · intro c hc i hi hLive
    cases List.mem_singleton.mp hc
    exact hPlain i (hUsed i hi hLive.1)

theorem fileRecord_openAt : OpenAt fileVolume fileRecord [2] [] 2 1 where
  bpb := fileVolume_bpb.symm
  dir := .singleton ⟨by decide, by decide, by decide⟩ (by decide)
  names := fileVolume_names
  mem := List.mem_singleton_self 2
  index := by decide
  live := by decide
  entry := by decide
  unlinked := fun _ => rfl
  linked := fun hNe => absurd (by decide) hNe
  apart := fun d hd => absurd hd List.not_mem_nil

theorem fileVolume_lowFree : 12 ≤ (lowFree fileVolume ⟨512, 1, 1, 1, 1, 2⟩).card := by decide

/-- Nothing is written to the empty file. -/
theorem fat32Write_written_iff_empty : Written [fileRecord] fileVolume 0 zeroed 0 [] 2 1 := by
  have hFree : (lowFree fileVolume fileRecord.bpb).Nonempty := by
    rw [← Finset.card_pos]
    exact Nat.lt_of_lt_of_le (by decide) fileVolume_lowFree
  refine (fat32Write_written_iff fileVolume_geometry (by decide) rfl fileRecord_openAt).1
    ⟨rfl, ?_⟩
  rw [if_pos (by decide)]
  exact hFree

/-- One byte is written to the empty file: its chain gets two clusters. -/
theorem written_byte : OpenAt fileVolume fileRecord [2] [] 2 1 ∧
    (fat32Open 3 sampleJunk (OpenFiles.boot fileVolume) [slash, 0x41#8]).map (fun r => (r.1, r.2.files)) =
      some (0, [fileRecord]) ∧
    12 ≤ (lowFree fileVolume ⟨512, 1, 1, 1, 1, 2⟩).card ∧
    (fat32Write 3 [fileRecord] fileVolume 0 zeroed 1).map (fun r =>
      (r.1, (entryAt r.2.2 ⟨512, 1, 1, 1, 1, 2⟩ 2 1).firstCluster, fatEntry r.2.2 ⟨512, 1, 1, 1, 1, 2⟩ 4,
        fatEntry r.2.2 ⟨512, 1, 1, 1, 1, 2⟩ 5)) = some (0, 4, 5, 0x0fffffff) ∧
    ¬ Written [fileRecord] fileVolume 0 zeroed 1 [] 2 1 := by
  refine ⟨fileRecord_openAt, fileRecord_opened, fileVolume_lowFree, by decide, ?_⟩
  have hGeo := fileVolume_geometry
  rw [fileVolume_bpb] at hGeo
  refine not_written_of_pos hGeo ⟨fileVolume_bpb, by decide⟩ rfl fileRecord_openAt ?_ (by decide)
  rw [WriteServed, if_pos (by decide)]
  refine ⟨Nat.le_trans ?_ fileVolume_lowFree, [2], fileRecord_openAt.dir⟩
  decide

end Rayos
