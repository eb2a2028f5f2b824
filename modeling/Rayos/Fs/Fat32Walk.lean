import Rayos.Fs.Fat32Chain
import Rayos.Fs.Fat32Create

/-!
# The walk of `fat32_create` through a sound directory

Where the directory is a chain of clusters and what is missing in it can be taken from the first 16 words
of the FAT, the loop of `fat32_create` fills free slots, goes along the chain and appends cleared clusters
until the short entry is written.

* `DirectoryRoom` is the condition, on the volume before the call.
* `Walked` says once what the rounds of the loop do; facts about the call are proved by induction on it.
* `createData` lists the clusters that the loop writes directory data to.
-/

namespace Rayos

open LittleEndian ByteStore CString

/-! ## Free slots -/

/-- The free slots among `n` from `i` on. -/
def freeSlots (buf : Bytes) : Nat → Nat → Nat
  | 0, _ => 0
  | n + 1, i => (if slotFree (dirSlot buf i) then 1 else 0) + freeSlots buf n (i + 1)

/-- The entries that are still to be written. -/
def entriesLeft (fn : Str) (nrLfn : Nat) : Nat := if fat32NeedLfn fn then nrLfn + 1 else 1

theorem entriesLeft_pos (fn : Str) (nrLfn : Nat) : 1 ≤ entriesLeft fn nrLfn := by
  rw [entriesLeft]
  split <;> omega

theorem freeSlots_putSlot {buf : Bytes} {entry : DirEntry} {k : Nat} :
    ∀ {n i : Nat}, k < i → freeSlots (putSlot buf k entry) n i = freeSlots buf n i := by
  intro n
  induction n with
  | zero =>
      intro i _
      rfl
  | succ n ih =>
      intro i hLt
      rw [freeSlots, freeSlots, dirSlot_putSlot_of_ne (by omega), ih (by omega)]

theorem freeSlots_of_free {buf : Bytes} :
    ∀ {n i : Nat}, (∀ k, i ≤ k → k < i + n → slotFree (dirSlot buf k) = true) → freeSlots buf n i = n := by
  intro n
  induction n with
  | zero =>
      intro i _
      rfl
  | succ n ih =>
      intro i hFree
      rw [freeSlots, hFree i le_rfl (by omega), ih fun k hk hLt => hFree k (by omega) (by omega)]
      exact Nat.add_comm 1 n

section Fill

variable {junk : Junk} {bpb : Fat32Bpb} {fn : Str} {cluster total : Nat}

/-- Each free slot takes one of the entries. -/
theorem fillSlots_left {disk' : Disk} {nrLfn' : Nat} :
    ∀ {n i nrLfn : Nat} {disk : Disk} {buf : Bytes},
      fillSlots junk bpb fn cluster total n i disk buf nrLfn = .more disk' nrLfn' →
      entriesLeft fn nrLfn' + freeSlots buf n i = entriesLeft fn nrLfn := by
  intro n
  induction n with
  | zero =>
      intro i nrLfn disk buf h
      cases h
      rfl
  | succ n ih =>
      intro i nrLfn disk buf h
      rw [fillSlots] at h
      rw [freeSlots]
      split at h
      · case isTrue hFree =>
          split at h
          · case isTrue hMore =>
              simp only [Bool.and_eq_true, decide_eq_true_eq] at hMore
              have hRest := ih h
              rw [freeSlots_putSlot (by omega), entriesLeft, entriesLeft, if_pos hMore.1,
                if_pos hMore.1] at hRest
              rw [if_pos hFree, entriesLeft, entriesLeft, if_pos hMore.1, if_pos hMore.1]
              omega
          · cases h
      · case isFalse hUsed =>
          rw [if_neg hUsed, Nat.zero_add]
          exact ih h

/-- A cluster without a free slot is left alone. -/
theorem fillSlots_full :
    ∀ {n i nrLfn : Nat} {disk : Disk} {buf : Bytes}, freeSlots buf n i = 0 →
      fillSlots junk bpb fn cluster total n i disk buf nrLfn = .more disk nrLfn := by
  intro n
  induction n with
  | zero =>
      intro i nrLfn disk buf _
      rfl
  | succ n ih =>
      intro i nrLfn disk buf hNone
      rw [freeSlots] at hNone
      have hUsed : ¬ slotFree (dirSlot buf i) = true := by
        intro hFree
        rw [if_pos hFree] at hNone
        omega
      simp only [fillSlots, if_neg hUsed]
      exact ih (by omega)

end Fill

/-! ## The walk -/

/-- The slots of a cluster on the drive that are free. -/
def freeIn (disk : Disk) (bpb : Fat32Bpb) (cluster : Nat) : Nat :=
  freeSlots (readCluster disk bpb cluster zeroed) (entriesPerCluster bpb) 0

/-- The directory has room for `left` entries, with the clusters that can be taken for it. -/
structure DirectoryRoom (disk : Disk) (bpb : Fat32Bpb) (cluster : Nat) (chain : List Nat) (left : Nat) :
    Prop where
  linked : ChainFrom disk bpb cluster chain
  ne_nil : chain ≠ []
  room : left ≤ (chain.map (freeIn disk bpb)).sum + entriesPerCluster bpb * (lowFree disk bpb).card

/-- The cluster if the loop over its slots writes it. -/
def fillData (disk : Disk) (bpb : Fat32Bpb) (cluster : Nat) : List Nat :=
  if freeIn disk bpb cluster = 0 then [] else [cluster]

/-- The clusters that the loop of `fat32_create` writes, in order. -/
def createData (junk : Junk) (bpb : Fat32Bpb) (fn : Str) (nrTotalEntries : Nat) :
    Nat → Disk → Nat → Nat → List Nat
  | 0, _, _, _ => []
  | fuel + 1, disk, dirCluster, nrLfn =>
      if fat32Eoc dirCluster then []
      else
        fillData disk bpb dirCluster ++
          match fillSlots junk bpb fn dirCluster nrTotalEntries (entriesPerCluster bpb) 0 disk
            (readCluster disk bpb dirCluster zeroed) nrLfn with
          | .done _ => []
          | .more disk nrLfn =>
              if fatDefined bpb then
                let table := readFat disk bpb dirCluster zeroed
                let next := fatWord table (fatIndex bpb dirCluster)
                if fat32Eoc next then
                  let r := extendChain disk bpb dirCluster table
                  r.1 :: createData junk bpb fn nrTotalEntries fuel r.2 r.1 nrLfn
                else createData junk bpb fn nrTotalEntries fuel disk next nrLfn
              else []

/-- What the rounds of the loop do, from a cluster on: the clusters that are written, and the drive. -/
inductive Walked (junk : Junk) (bpb : Fat32Bpb) (fn : Str) (total : Nat) :
    Disk → Nat → Nat → List Nat → Disk → Prop
  | done {disk disk' : Disk} {cluster nrLfn : Nat} (hCluster : IsCluster bpb cluster)
      (hFill : fillSlots junk bpb fn cluster total (entriesPerCluster bpb) 0 disk
        (readCluster disk bpb cluster zeroed) nrLfn = .done disk') :
      Walked junk bpb fn total disk cluster nrLfn (fillData disk bpb cluster ++ []) disk'
  | next {disk disk₁ disk' : Disk} {cluster nrLfn nrLfn₁ : Nat} {data : List Nat}
      (hCluster : IsCluster bpb cluster)
      (hFill : fillSlots junk bpb fn cluster total (entriesPerCluster bpb) 0 disk
        (readCluster disk bpb cluster zeroed) nrLfn = .more disk₁ nrLfn₁)
      (hRest : Walked junk bpb fn total disk₁ (fatEntry disk bpb cluster) nrLfn₁ data disk') :
      Walked junk bpb fn total disk cluster nrLfn (fillData disk bpb cluster ++ data) disk'
  | grown {disk disk₁ disk₂ disk' : Disk} {cluster nrLfn nrLfn₁ new : Nat} {data : List Nat}
      (hCluster : IsCluster bpb cluster)
      (hFill : fillSlots junk bpb fn cluster total (entriesPerCluster bpb) 0 disk
        (readCluster disk bpb cluster zeroed) nrLfn = .more disk₁ nrLfn₁)
      (hEnd : fat32Eoc (fatEntry disk bpb cluster) = true)
      (hAppended : Appended bpb disk₁ disk₂ cluster new)
      (hRest : Walked junk bpb fn total disk₂ new nrLfn₁ data disk') :
      Walked junk bpb fn total disk cluster nrLfn (fillData disk bpb cluster ++ new :: data) disk'

section Walk

variable {junk : Junk} {bpb : Fat32Bpb} {fn : Str} {total : Nat} (hGeo : Geometry bpb)
include hGeo

/-- Another cluster is read as before. -/
theorem readCluster_of_keptOutside {disk disk' : Disk} {c d : Nat} (hc : IsCluster bpb c)
    (hd : IsCluster bpb d) (hNe : c ≠ d) (hKept : KeptOutside bpb c disk disk') :
    readCluster disk' bpb d zeroed = readCluster disk bpb d zeroed := by
  have hApart := clusterStart_disjoint hGeo hc hd hNe
  exact readCluster_congr fun k hk => hKept _ (by omega)

theorem freeIn_of_zero {disk : Disk} {cluster : Nat}
    (hZero : ∀ k, k < clusterBytes bpb → disk (clusterStart bpb cluster + k) = 0#8) :
    freeIn disk bpb cluster = entriesPerCluster bpb :=
  freeSlots_of_free (free_of_zero hGeo hZero)

/-- The parameter block, the first words of the FAT and the chain behind a cluster survive writing it. -/
theorem directoryRoom_tail {disk disk₁ : Disk} {cluster : Nat} {chain : List Nat} {nrLfn nrLfn₁ : Nat}
    (hRoom : DirectoryRoom disk bpb cluster (cluster :: chain) (entriesLeft fn nrLfn))
    (hFill : fillSlots junk bpb fn cluster total (entriesPerCluster bpb) 0 disk
      (readCluster disk bpb cluster zeroed) nrLfn = .more disk₁ nrLfn₁) :
    ChainFrom disk₁ bpb (fatEntry disk bpb cluster) chain ∧
      entriesLeft fn nrLfn₁ ≤ (chain.map (freeIn disk₁ bpb)).sum +
        entriesPerCluster bpb * (lowFree disk₁ bpb).card := by
  obtain ⟨-, hCluster, hRest⟩ := hRoom.linked
  have hNotMem := hRoom.linked.head_not_mem
  have hKept : KeptOutside bpb cluster disk disk₁ := fillSlots_kept hFill
  have hSize := hGeo.size
  have hFat : ∀ c, c < fatCount bpb → fatEntry disk₁ bpb c = fatEntry disk bpb c :=
    fun c hc => fatEntry_of_keptOutside hGeo hCluster hc hKept
  have hLow : lowFree disk₁ bpb = lowFree disk bpb :=
    lowFree_congr fun c hc => by rw [hFat c (by rw [fatCount]; omega)]
  have hFree : chain.map (freeIn disk₁ bpb) = chain.map (freeIn disk bpb) := by
    refine List.map_congr_left fun d hd => ?_
    have hNe : cluster ≠ d := fun hEq => hNotMem (hEq ▸ hd)
    rw [freeIn, freeIn, readCluster_of_keptOutside hGeo hCluster (hRest.isCluster hd) hNe hKept]
  refine ⟨hRest.congr fun c hc => hFat c (hRest.isCluster hc).lt_count, ?_⟩
  have hLeft := fillSlots_left hFill
  have hSum := hRoom.room
  rw [List.map_cons, List.sum_cons] at hSum
  rw [hLow, hFree]
  have hSlots : freeIn disk bpb cluster =
    freeSlots (readCluster disk bpb cluster zeroed) (entriesPerCluster bpb) 0 := rfl
  omega

/-- A cluster is taken for what is left, and there is room in it. -/
theorem directoryRoom_grown {disk₁ : Disk} {cluster nrLfn₁ : Nat} (hBpb : readBpb disk₁ = bpb)
    (hMedia : fatEntry disk₁ bpb 0 ≠ 0 ∧ fatEntry disk₁ bpb 1 ≠ 0) (hCluster : IsCluster bpb cluster)
    (hEnd : fat32Eoc (fatEntry disk₁ bpb cluster) = true)
    (hRoom : entriesLeft fn nrLfn₁ ≤ entriesPerCluster bpb * (lowFree disk₁ bpb).card) (table : Bytes) :
    Appended bpb disk₁ (extendChain disk₁ bpb cluster table).2 cluster
        (extendChain disk₁ bpb cluster table).1 ∧
      DirectoryRoom (extendChain disk₁ bpb cluster table).2 bpb (extendChain disk₁ bpb cluster table).1
        [(extendChain disk₁ bpb cluster table).1] (entriesLeft fn nrLfn₁) := by
  have hPos := entriesLeft_pos fn nrLfn₁
  have hNonempty : (lowFree disk₁ bpb).Nonempty := by
    rw [← Finset.card_pos]
    exact Nat.pos_of_ne_zero fun hZero => by rw [hZero, Nat.mul_zero] at hRoom; omega
  have hWord : fatEntry disk₁ bpb cluster ≠ 0 := by
    intro hZero
    rw [hZero] at hEnd
    cases hEnd
  have hApp := extendChain_low hGeo hBpb hMedia hNonempty hCluster hWord table
  have hCard := hApp.card hGeo hWord
  refine ⟨hApp, ⟨.singleton hApp.cluster ?_, List.cons_ne_nil _ _, ?_⟩⟩
  · rw [hApp.mark]
    rfl
  · rw [List.map_singleton, List.sum_singleton, freeIn_of_zero hGeo hApp.cleared]
    rw [← hCard, Nat.mul_add, Nat.mul_one] at hRoom
    omega

/-- What the driver relies on in every round. -/
structure HeadOk (bpb : Fat32Bpb) (disk : Disk) : Prop where
  bpb_eq : readBpb disk = bpb
  media : fatEntry disk bpb 0 ≠ 0 ∧ fatEntry disk bpb 1 ≠ 0

omit hGeo in
theorem HeadOk.congr {disk disk' : Disk} (h : HeadOk bpb disk) (hBoot : BootKept disk disk')
    (hWords : ∀ d, d < 2 → fatEntry disk' bpb d = fatEntry disk bpb d) : HeadOk bpb disk' := by
  refine ⟨(readBpb_congr hBoot).trans h.bpb_eq, ?_⟩
  rw [hWords 0 (by decide), hWords 1 (by decide)]
  exact h.media

theorem HeadOk.of_keptOutside {disk disk' : Disk} {c : Nat} (h : HeadOk bpb disk)
    (hc : IsCluster bpb c) (hKept : KeptOutside bpb c disk disk') : HeadOk bpb disk' := by
  have hTwo := hc.two_le
  have hCount := hc.lt_count
  exact h.congr (bootKept_of_keptOutside hGeo hc hKept)
    fun d hd => fatEntry_of_keptOutside hGeo hc (by omega) hKept

theorem HeadOk.of_appended {disk disk' : Disk} {last new : Nat} (h : HeadOk bpb disk)
    (hLast : IsCluster bpb last) (hApp : Appended bpb disk disk' last new) : HeadOk bpb disk' := by
  have hTwo := hLast.two_le
  have hTwo' := hApp.cluster.two_le
  have hCount := hLast.lt_count
  have hStart := dataStart_le_clusterStart hGeo hApp.cluster
  have hFat := fatEnd_le_dataStart hGeo
  have hReserved := hGeo.reserved
  refine h.congr (fun a ha => ?_) fun d hd => hApp.kept d (by omega) (by omega) (by omega)
  exact hApp.frame a (Or.inl (by omega)) (Or.inl (by omega))

/-- The loop walks as `Walked` says. -/
theorem createFrom_walked {disk' : Disk} :
    ∀ {fuel cluster nrLfn : Nat} {disk : Disk} {chain : List Nat}, HeadOk bpb disk →
      DirectoryRoom disk bpb cluster chain (entriesLeft fn nrLfn) →
      createFrom junk bpb fn total fuel disk cluster nrLfn = some disk' →
      Walked junk bpb fn total disk cluster nrLfn
        (createData junk bpb fn total fuel disk cluster nrLfn) disk' := by
  intro fuel
  induction fuel with
  | zero =>
      intro cluster nrLfn disk chain _ _ h
      cases h
  | succ fuel ih =>
      intro cluster nrLfn disk chain hHead hRoom h
      obtain ⟨c, chain, rfl⟩ := List.exists_cons_of_ne_nil hRoom.ne_nil
      obtain ⟨rfl, hCluster, -⟩ := hRoom.linked
      rw [createFrom, hCluster.not_eoc, if_neg (by decide)] at h
      rw [createData, hCluster.not_eoc, if_neg (by decide)]
      cases hFill : fillSlots junk bpb fn c total (entriesPerCluster bpb) 0 disk
          (readCluster disk bpb c zeroed) nrLfn with
      | done disk₁ =>
          rw [hFill] at h
          cases h
          exact .done hCluster hFill
      | more disk₁ nrLfn₁ =>
          rw [hFill] at h
          have hKept : KeptOutside bpb c disk disk₁ := fillSlots_kept hFill
          have hWord := fatEntry_of_keptOutside hGeo hCluster hCluster.lt_count hKept
          have hHead₁ := hHead.of_keptOutside hGeo hCluster hKept
          obtain ⟨hTail, hLeft⟩ := directoryRoom_tail hGeo hRoom hFill
          simp only [fatDefined_eq hGeo, if_true, fatWord_readFat hGeo, hWord] at h ⊢
          cases chain with
          | nil =>
              rw [List.map_nil, List.sum_nil, Nat.zero_add] at hLeft
              have hEnd : fat32Eoc (fatEntry disk bpb c) = true := hTail
              rw [if_pos hEnd] at h ⊢
              obtain ⟨hApp, hRoom₂⟩ := directoryRoom_grown hGeo hHead₁.bpb_eq hHead₁.media hCluster
                (hWord.symm ▸ hEnd) hLeft (readFat disk₁ bpb c zeroed)
              exact .grown hCluster hFill hEnd hApp
                (ih (hHead₁.of_appended hGeo hCluster hApp) hRoom₂ h)
          | cons d chain =>
              have hNotEnd : ¬ fat32Eoc (fatEntry disk bpb c) = true := by
                rw [hTail.2.1.not_eoc]
                decide
              rw [if_neg hNotEnd] at h ⊢
              exact .next hCluster hFill (ih hHead₁ ⟨hTail, List.cons_ne_nil _ _, hLeft⟩ h)

end Walk

/-! ## The call -/

/-- The cluster in which `fat32_create` starts, if it goes so far. -/
def parentCluster (fuel : Nat) (junk : Junk) (disk : Disk) (path : Str) : Option Nat :=
  if cutLast path = [slash] then some 2
  else
    match fat32Lookup fuel junk disk (cutLast path) with
    | none => none
    | some (ret, entry) => if ret < 0 then none else some (entry.getD []).firstCluster

/-- `fat32_create` leaves the drive alone, or walks through the parent directory. -/
theorem fat32Create_cases {fuel : Nat} {junk : Junk} {disk disk' : Disk} {path : Str} {ret : Int}
    (h : fat32Create fuel junk disk path = some (ret, disk')) :
    (ret = -1 ∧ disk' = disk ∧ ∃ found, fat32Lookup fuel junk disk path = some found ∧
        (found.1 = 0 ∨ parentCluster fuel junk disk path = none)) ∨
      ret = 0 ∧ ∃ found fn rest cluster, fat32Lookup fuel junk disk path = some found ∧ found.1 ≠ 0 ∧
        pathNext path = some (fn, rest) ∧ parentCluster fuel junk disk path = some cluster ∧
        createFrom junk (readBpb disk) fn (fn.length / 13 + 1 + 1) fuel disk cluster
          (fn.length / 13 + 1) = some disk' := by
  rw [fat32Create] at h
  cases hLookup : fat32Lookup fuel junk disk path with
  | none =>
      rw [hLookup] at h
      cases h
  | some found =>
      rw [hLookup] at h
      simp only at h
      by_cases hRet : found.1 = 0
      · rw [if_pos hRet] at h
        cases h
        exact Or.inl ⟨rfl, rfl, found, rfl, Or.inl hRet⟩
      · rw [if_neg hRet] at h
        cases hNext : pathNext path with
        | none =>
            rw [hNext] at h
            cases h
        | some next =>
            obtain ⟨fn, rest⟩ := next
            rw [hNext] at h
            simp only at h
            by_cases hRoot : cutLast path = [slash]
            · rw [if_pos hRoot] at h
              obtain ⟨disk₁, hCreate, hEq⟩ := Option.map_eq_some_iff.mp h
              cases hEq
              refine Or.inr ⟨rfl, found, fn, rest, 2, rfl, hRet, rfl, ?_, hCreate⟩
              rw [parentCluster, if_pos hRoot]
            · rw [if_neg hRoot] at h
              cases hDir : fat32Lookup fuel junk disk (cutLast path) with
              | none =>
                  rw [hDir] at h
                  cases h
              | some dir =>
                  obtain ⟨dirRet, entry⟩ := dir
                  rw [hDir] at h
                  simp only at h
                  by_cases hNeg : dirRet < 0
                  · rw [if_pos hNeg] at h
                    cases h
                    refine Or.inl ⟨rfl, rfl, found, rfl, Or.inr ?_⟩
                    rw [parentCluster, if_neg hRoot, hDir]
                    exact if_pos hNeg
                  · rw [if_neg hNeg] at h
                    obtain ⟨disk₁, hCreate, hEq⟩ := Option.map_eq_some_iff.mp h
                    cases hEq
                    refine Or.inr ⟨rfl, found, fn, rest, (entry.getD []).firstCluster, rfl, hRet, rfl, ?_,
                      hCreate⟩
                    rw [parentCluster, if_neg hRoot, hDir]
                    exact if_neg hNeg

end Rayos
