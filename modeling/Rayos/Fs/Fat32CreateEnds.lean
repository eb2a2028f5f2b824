import Rayos.Fs.Fat32Ends

/-!
# Which calls of `fat32_create` end

After its lookups the call goes through the directory and writes an entry to every free slot that it meets, until
all entries of the name are written.  Going round in a circle it finds the slots that it has written in use: it
returns when the clusters of the circle have enough free slots, and otherwise never.  At an end mark the chain is
extended by a cleared cluster, whatever the allocator returns.

* `FillEnds` is a condition under which the walk ends, `FillHangs` one under which it does not.
* Both are about clusters that lie apart: no cluster of the directory holds the words that link them.  Chains
  that run through the FAT itself are left out, and so is a second extension where a free word is found behind
  the first 16 of a sector of the FAT.
-/

namespace Rayos

open CString LittleEndian ByteStore

/-! ## One cluster -/

theorem freeSlots_of_used {buf : Bytes} {n i : Nat}
    (h : ∀ k, i ≤ k → k < i + n → slotFree (dirSlot buf k) = false) : freeSlots buf n i = 0 := by
  induction n generalizing i with
  | zero => rfl
  | succ n ih =>
      have hUsed : ¬ slotFree (dirSlot buf i) = true := by
        rw [h i le_rfl (by omega)]
        decide
      rw [freeSlots, if_neg hUsed, ih fun k hk hLt => h k (by omega) (by omega)]

theorem slotFree_zeroed (k : Nat) : slotFree (dirSlot zeroed k) = true := by
  have hName0 : DirEntry.name0 (dirSlot zeroed k) = sfnName0Free := by
    simp [DirEntry.name0, DirEntry.bytes, dirSlot, zeroed, sfnName0Free]
  unfold slotFree
  rw [hName0]
  rfl

section Fill

variable {junk : Junk} {bpb : Fat32Bpb} {fn : Str} {cluster total : Nat}

/-- The short entry is written when the free slots suffice. -/
theorem fillSlots_done {disk' : Disk} :
    ∀ {n i nrLfn : Nat} {disk : Disk} {buf : Bytes},
      fillSlots junk bpb fn cluster total n i disk buf nrLfn = .done disk' →
      entriesLeft fn nrLfn ≤ freeSlots buf n i := by
  intro n
  induction n with
  | zero =>
      intro i nrLfn disk buf h
      cases h
  | succ n ih =>
      intro i nrLfn disk buf h
      rw [fillSlots] at h
      rw [freeSlots]
      split at h
      · case isTrue hFree =>
          rw [if_pos hFree]
          split at h
          · case isTrue hMore =>
              have hRest := ih h
              rw [freeSlots_putSlot (by omega)] at hRest
              simp only [Bool.and_eq_true, decide_eq_true_eq] at hMore
              rw [entriesLeft, if_pos hMore.1] at hRest ⊢
              omega
          · case isFalse hLast =>
              have hOne : entriesLeft fn nrLfn = 1 := by
                rw [entriesLeft]
                split
                · case isTrue hNeed =>
                    rw [hNeed, Bool.true_and, decide_eq_true_eq] at hLast
                    omega
                · rfl
              omega
      · case isFalse hUsed =>
          rw [if_neg hUsed, Nat.zero_add]
          exact ih h

/-- The entries fit into the cluster, or all its free slots are taken. -/
theorem fillSlots_cases (junk : Junk) (fn : Str) (total : Nat) (disk : Disk) (bpb : Fat32Bpb) (cluster nrLfn : Nat) :
    (entriesLeft fn nrLfn ≤ freeIn disk bpb cluster ∧
      ∃ disk', fillSlots junk bpb fn cluster total (entriesPerCluster bpb) 0 disk
        (readCluster disk bpb cluster zeroed) nrLfn = .done disk') ∨
    ∃ disk' nrLfn', fillSlots junk bpb fn cluster total (entriesPerCluster bpb) 0 disk
        (readCluster disk bpb cluster zeroed) nrLfn = .more disk' nrLfn' ∧
      entriesLeft fn nrLfn' + freeIn disk bpb cluster = entriesLeft fn nrLfn := by
  cases hFill : fillSlots junk bpb fn cluster total (entriesPerCluster bpb) 0 disk
      (readCluster disk bpb cluster zeroed) nrLfn with
  | done disk' => exact Or.inl ⟨fillSlots_done hFill, disk', rfl⟩
  | more disk' nrLfn' => exact Or.inr ⟨disk', nrLfn', rfl, fillSlots_left hFill⟩

/-- A fragment of a name that fits its buffer takes the slot: its number is no mark of a free one. -/
theorem slotFree_longName (entry : DirEntry) (f : Bytes) {order : Nat} (hPos : 1 ≤ order) (hLt : order < 128) :
    slotFree (fat32MakeLfnEntry junk entry f order) = false := by
  have hOrder : (BitVec.ofNat 8 order).toNat = order := by
    rw [BitVec.toNat_ofNat]
    omega
  have hName0 : (fat32MakeLfnEntry junk entry f order).name0 = BitVec.ofNat 8 order :=
    name0_longName junk entry f order
  have hFree : BitVec.ofNat 8 order ≠ sfnName0Free := by
    intro hEq
    rw [hEq] at hOrder
    have hZero : sfnName0Free.toNat = 0 := rfl
    omega
  have hDeleted : BitVec.ofNat 8 order ≠ sfnName0Deleted := by
    intro hEq
    rw [hEq] at hOrder
    have hMark : sfnName0Deleted.toNat = 229 := rfl
    omega
  unfold slotFree
  rw [hName0, decide_eq_false hFree, decide_eq_false hDeleted]
  rfl

/-- No free slot is left behind. -/
theorem fillSlots_used {disk' : Disk} {nrLfn' : Nat} :
    ∀ {n i nrLfn : Nat} {disk : Disk} {buf : Bytes}, Synced bpb disk cluster buf → nrLfn < 64 →
      (∀ k, k < i → slotFree (dirSlot buf k) = false) →
      fillSlots junk bpb fn cluster total n i disk buf nrLfn = .more disk' nrLfn' →
      ∃ buf', Synced bpb disk' cluster buf' ∧ ∀ k, k < i + n → slotFree (dirSlot buf' k) = false := by
  intro n
  induction n with
  | zero =>
      intro i nrLfn disk buf hSync _ hUsed h
      cases h
      exact ⟨buf, hSync, hUsed⟩
  | succ n ih =>
      intro i nrLfn disk buf hSync hNr hUsed h
      rw [fillSlots] at h
      have hNext : i + (n + 1) = i + 1 + n := by omega
      rw [hNext]
      -- a free slot takes the next entry, a taken one is passed over
      split at h
      · split at h
        · case isTrue hMore =>
            simp only [Bool.and_eq_true, decide_eq_true_eq] at hMore
            refine ih (fun k hk => writeCluster_inside hk) (by omega) (fun k hk => ?_) h
            by_cases hk' : k = i
            · -- the order is never 0 or 0xe5, so the slot written counts as taken
              have hBit : nrLfn < 128 ∧ lfnOrderLastEntry ||| nrLfn < 128 ∧ 1 ≤ lfnOrderLastEntry ||| nrLfn := by
                refine ⟨by omega, Nat.or_lt_two_pow (n := 7) (by decide) (by omega), ?_⟩
                exact (by decide : 1 ≤ lfnOrderLastEntry).trans Nat.left_le_or
              rw [hk', dirSlot_putSlot_self (length_longName _ _ _ _)]
              split
              · exact slotFree_longName _ _ hBit.2.2 hBit.2.1
              · exact slotFree_longName _ _ hMore.2 hBit.1
            · rw [dirSlot_putSlot_of_ne hk']
              exact hUsed k (by omega)
        · cases h
      · case isFalse hTaken =>
          refine ih hSync hNr (fun k hk => ?_) h
          by_cases hk' : k = i
          · rw [hk']
            exact Bool.eq_false_iff.mpr hTaken
          · exact hUsed k (by omega)

/-- A cluster that the walk has gone through is full. -/
theorem freeIn_of_more (hGeo : Geometry bpb) {disk disk' : Disk} {nrLfn nrLfn' : Nat} (hNr : nrLfn < 64)
    (hFill : fillSlots junk bpb fn cluster total (entriesPerCluster bpb) 0 disk
      (readCluster disk bpb cluster zeroed) nrLfn = .more disk' nrLfn') : freeIn disk' bpb cluster = 0 := by
  obtain ⟨buf', hSync, hUsed⟩ := fillSlots_used (fun _ hk => (readCluster_of_lt hk).symm) hNr
    (fun k hk => absurd hk (Nat.not_lt_zero k)) hFill
  apply freeSlots_of_used
  intro k _ hk
  have hEntry := hSync.entryAt_eq hGeo (i := k) (by omega)
  rw [entryAt] at hEntry
  rw [hEntry]
  exact hUsed k hk

end Fill

/-! ## One round -/

section Round

variable {junk : Junk} {bpb : Fat32Bpb} {fn : Str} {total : Nat} {disk disk₁ : Disk} {cluster nrLfn nrLfn₁ : Nat}

theorem createFrom_eoc {fuel : Nat} (hEoc : fat32Eoc cluster = true) :
    createFrom junk bpb fn total (fuel + 1) disk cluster nrLfn = some disk := by
  rw [createFrom, if_pos hEoc]

/-- The entries fit. -/
theorem createFrom_done {fuel : Nat} (hEoc : fat32Eoc cluster = false)
    (hFill : fillSlots junk bpb fn cluster total (entriesPerCluster bpb) 0 disk
      (readCluster disk bpb cluster zeroed) nrLfn = .done disk₁) :
    createFrom junk bpb fn total (fuel + 1) disk cluster nrLfn = some disk₁ := by
  rw [createFrom, hEoc, if_neg (by decide), hFill]

/-- On with the next cluster. -/
theorem createFrom_next {fuel : Nat} (hEoc : fat32Eoc cluster = false) (hDefined : fatDefined bpb = true)
    (hFill : fillSlots junk bpb fn cluster total (entriesPerCluster bpb) 0 disk
      (readCluster disk bpb cluster zeroed) nrLfn = .more disk₁ nrLfn₁)
    (hNext : fat32Eoc (fatLink disk₁ bpb cluster) = false) :
    createFrom junk bpb fn total (fuel + 1) disk cluster nrLfn =
      createFrom junk bpb fn total fuel disk₁ (fatLink disk₁ bpb cluster) nrLfn₁ := by
  rw [fatLink] at hNext
  rw [createFrom, hEoc, if_neg (by decide), hFill]
  simp only [hDefined, if_true, hNext]
  rfl

/-- The chain is extended. -/
theorem createFrom_extend {fuel : Nat} (hEoc : fat32Eoc cluster = false) (hDefined : fatDefined bpb = true)
    (hFill : fillSlots junk bpb fn cluster total (entriesPerCluster bpb) 0 disk
      (readCluster disk bpb cluster zeroed) nrLfn = .more disk₁ nrLfn₁)
    (hNext : fat32Eoc (fatLink disk₁ bpb cluster) = true) :
    createFrom junk bpb fn total (fuel + 1) disk cluster nrLfn =
      createFrom junk bpb fn total fuel (extendChain disk₁ bpb cluster (readFat disk₁ bpb cluster zeroed)).2
        (extendChain disk₁ bpb cluster (readFat disk₁ bpb cluster zeroed)).1 nrLfn₁ := by
  rw [fatLink] at hNext
  rw [createFrom, hEoc, if_neg (by decide), hFill]
  simp only [hDefined, if_true, hNext]

/-- More fuel gives the same result. -/
theorem createFrom_mono {disk' : Disk} :
    ∀ {fuel fuel' cluster nrLfn : Nat} {disk : Disk}, fuel ≤ fuel' →
      createFrom junk bpb fn total fuel disk cluster nrLfn = some disk' →
      createFrom junk bpb fn total fuel' disk cluster nrLfn = some disk' := by
  intro fuel
  induction fuel with
  | zero =>
      intro fuel' cluster nrLfn disk _ h
      cases h
  | succ fuel ih =>
      intro fuel' cluster nrLfn disk hLe h
      obtain ⟨fuel', rfl⟩ : ∃ k, fuel' = k + 1 := ⟨fuel' - 1, by omega⟩
      cases hEoc : fat32Eoc cluster with
      | true =>
          rw [createFrom_eoc hEoc] at h ⊢
          exact h
      | false =>
          cases hFill : fillSlots junk bpb fn cluster total (entriesPerCluster bpb) 0 disk
              (readCluster disk bpb cluster zeroed) nrLfn with
          | done disk₁ =>
              rw [createFrom_done hEoc hFill] at h ⊢
              exact h
          | more disk₁ nrLfn₁ =>
              cases hDefined : fatDefined bpb with
              | false =>
                  rw [createFrom, hEoc, if_neg (by decide), hFill] at h
                  simp only [hDefined] at h
                  cases h
              | true =>
                  cases hNext : fat32Eoc (fatLink disk₁ bpb cluster) with
                  | true =>
                      rw [createFrom_extend hEoc hDefined hFill hNext] at h ⊢
                      exact ih (by omega) h
                  | false =>
                      rw [createFrom_next hEoc hDefined hFill hNext] at h ⊢
                      exact ih (by omega) h

end Round

/-! ## Clusters apart -/

/-- The sectors of two clusters do not overlap. -/
def DataApart (bpb : Fat32Bpb) (c d : Nat) : Prop :=
  clusterStart bpb c + clusterBytes bpb ≤ clusterStart bpb d ∨
    clusterStart bpb d + clusterBytes bpb ≤ clusterStart bpb c

/-- The sector of the FAT with the word of `d` is none of those of `c`. -/
def FatApart (bpb : Fat32Bpb) (c d : Nat) : Prop :=
  (bpb.reservedSectorCount + fatSector bpb d) * 512 + 512 ≤ clusterStart bpb c ∨
    clusterStart bpb c + clusterBytes bpb ≤ (bpb.reservedSectorCount + fatSector bpb d) * 512

/-- What is written to one of the clusters changes neither another one nor a link. -/
structure Apart (bpb : Fat32Bpb) (path : List Nat) : Prop where
  data : path.Pairwise (DataApart bpb)
  fat : ∀ c ∈ path, ∀ d ∈ path, FatApart bpb c d

/-- The free slots in a list of clusters. -/
def freeSum (disk : Disk) (bpb : Fat32Bpb) (path : List Nat) : Nat := (path.map (freeIn disk bpb)).sum

section Kept

variable {bpb : Fat32Bpb} {disk disk₁ : Disk}

theorem freeIn_of_apart {c d : Nat} (hKept : KeptOutside bpb c disk disk₁) (hApart : DataApart bpb c d) :
    freeIn disk₁ bpb d = freeIn disk bpb d := by
  rw [DataApart] at hApart
  unfold freeIn
  rw [readCluster_congr fun k hk => hKept _ (by omega)]

theorem fatLink_of_apart {c d : Nat} (hKept : KeptOutside bpb c disk disk₁) (hApart : FatApart bpb c d) :
    fatLink disk₁ bpb d = fatLink disk bpb d := by
  rw [FatApart] at hApart
  have hTable : readFat disk₁ bpb d zeroed = readFat disk bpb d zeroed :=
    load_congr fun k hk => hKept _ (by omega)
  rw [fatLink, fatLink, hTable]

theorem freeSum_of_apart {c : Nat} {path : List Nat} (hKept : KeptOutside bpb c disk disk₁)
    (hApart : ∀ d ∈ path, DataApart bpb c d) : freeSum disk₁ bpb path = freeSum disk bpb path := by
  unfold freeSum
  rw [List.map_congr_left fun d hd => freeIn_of_apart hKept (hApart d hd)]

/-- The path is as before when the links are. -/
theorem Leads.congr : ∀ {path : List Nat} {cluster next : Nat}, Leads disk bpb cluster path next →
    (∀ c ∈ path, fatLink disk₁ bpb c = fatLink disk bpb c) → Leads disk₁ bpb cluster path next
  | [], _, _, h, _ => h
  | _ :: path, _, _, ⟨rfl, hEoc, hDefined, hRest⟩, hSame => by
      refine .cons hEoc hDefined ?_
      rw [hSame _ List.mem_cons_self]
      exact hRest.congr fun c hc => hSame c (List.mem_cons_of_mem _ hc)

theorem Apart.tail {c : Nat} {path : List Nat} (h : Apart bpb (c :: path)) : Apart bpb path :=
  ⟨h.data.of_cons, fun d hd e he => h.fat d (List.mem_cons_of_mem _ hd) e (List.mem_cons_of_mem _ he)⟩

/-- Where the walk is after a cluster: the path behind it and its free slots are as before. -/
theorem Apart.step {c next : Nat} {path : List Nat} (h : Apart bpb (c :: path))
    (hKept : KeptOutside bpb c disk disk₁) (hLeads : Leads disk bpb c (c :: path) next) :
    fatLink disk₁ bpb c = fatLink disk bpb c ∧ Leads disk₁ bpb (fatLink disk bpb c) path next ∧
      freeSum disk₁ bpb path = freeSum disk bpb path := by
  obtain ⟨-, -, -, hRest⟩ := hLeads
  refine ⟨fatLink_of_apart hKept (h.fat c List.mem_cons_self c List.mem_cons_self), ?_, ?_⟩
  · exact hRest.congr fun d hd =>
      fatLink_of_apart hKept (h.fat c List.mem_cons_self d (List.mem_cons_of_mem _ hd))
  · exact freeSum_of_apart hKept (List.pairwise_cons.mp h.data).1

theorem freeSum_cons (disk : Disk) (bpb : Fat32Bpb) (c : Nat) (path : List Nat) :
    freeSum disk bpb (c :: path) = freeIn disk bpb c + freeSum disk bpb path := by
  rw [freeSum, List.map_cons, List.sum_cons]
  rfl

end Kept

/-! ## The walk along a path -/

section Walk

variable {junk : Junk} {bpb : Fat32Bpb} {fn : Str} {total : Nat}

/-- The clusters of a path are no end marks. -/
theorem Leads.head_not_eoc {disk : Disk} {cluster c next : Nat} {path : List Nat}
    (h : Leads disk bpb cluster (c :: path) next) : fat32Eoc cluster = false := h.2.1

/-- There are enough free slots along the path. -/
theorem createFrom_room : ∀ (path : List Nat) {fuel cluster next nrLfn : Nat} {disk : Disk},
    Leads disk bpb cluster path next → Apart bpb path → entriesLeft fn nrLfn ≤ freeSum disk bpb path →
    path.length ≤ fuel → ∃ disk', createFrom junk bpb fn total fuel disk cluster nrLfn = some disk'
  | [], _, _, _, nrLfn, _, _, _, hRoom, _ =>
      absurd (Nat.lt_of_lt_of_le (entriesLeft_pos fn nrLfn) hRoom) (Nat.lt_irrefl 0)
  | c :: path, 0, _, _, _, _, _, _, _, hFuel => absurd hFuel (Nat.not_succ_le_zero _)
  | c :: path, fuel + 1, _, next, nrLfn, disk, hLeads, hApart, hRoom, hFuel => by
      obtain ⟨rfl, hEoc, hDefined, -⟩ := id hLeads
      rcases fillSlots_cases junk fn total disk bpb c nrLfn with ⟨-, disk', hFill⟩ | ⟨disk₁, nrLfn₁, hFill, hLeft⟩
      · exact ⟨disk', createFrom_done hEoc hFill⟩
      · have hKept : KeptOutside bpb c disk disk₁ := fillSlots_kept hFill
        obtain ⟨hLink, hRest, hSame⟩ := hApart.step hKept hLeads
        rw [freeSum_cons] at hRoom
        have hRoom₁ : entriesLeft fn nrLfn₁ ≤ freeSum disk₁ bpb path := by omega
        cases path with
        | nil => exact absurd (Nat.lt_of_lt_of_le (entriesLeft_pos fn nrLfn₁) hRoom₁) (Nat.lt_irrefl 0)
        | cons d path =>
            rw [createFrom_next hEoc hDefined hFill (hLink ▸ hRest.head_not_eoc), hLink]
            exact createFrom_room (d :: path) hRest hApart.tail hRoom₁ (Nat.le_of_succ_le_succ hFuel)

/-- Only the clusters of the path have been written. -/
def KeptOff (bpb : Fat32Bpb) (path : List Nat) (disk disk' : Disk) : Prop :=
  ∀ a, (∀ c ∈ path, a < clusterStart bpb c ∨ clusterStart bpb c + clusterBytes bpb ≤ a) → disk' a = disk a

variable (junk total) in
/-- There are not enough, and the path comes to an end mark: its last cluster is extended. -/
theorem createFrom_last : ∀ (path : List Nat) {cluster next nrLfn : Nat} {disk : Disk},
    Leads disk bpb cluster path next → fat32Eoc next = true → Apart bpb path → path ≠ [] →
    freeSum disk bpb path < entriesLeft fn nrLfn →
    ∃ disk₁ last nrLfn₁, last ∈ path ∧ fat32Eoc (fatLink disk₁ bpb last) = true ∧ KeptOff bpb path disk disk₁ ∧
      entriesLeft fn nrLfn₁ + freeSum disk bpb path = entriesLeft fn nrLfn ∧
      ∀ fuel, createFrom junk bpb fn total (path.length + fuel) disk cluster nrLfn =
        createFrom junk bpb fn total fuel (extendChain disk₁ bpb last (readFat disk₁ bpb last zeroed)).2
          (extendChain disk₁ bpb last (readFat disk₁ bpb last zeroed)).1 nrLfn₁
  | [], _, _, _, _, _, _, _, hNe, _ => absurd rfl hNe
  | c :: path, _, next, nrLfn, disk, hLeads, hEnd, hApart, _, hRoom => by
      obtain ⟨rfl, hEoc, hDefined, -⟩ := id hLeads
      rcases fillSlots_cases junk fn total disk bpb c nrLfn with ⟨hFits, -⟩ | ⟨disk₁, nrLfn₁, hFill, hLeft⟩
      · rw [freeSum_cons] at hRoom
        omega
      · have hKept : KeptOutside bpb c disk disk₁ := fillSlots_kept hFill
        obtain ⟨hLink, hRest, hSame⟩ := hApart.step hKept hLeads
        cases path with
        | nil =>
            -- the link behind the last cluster is the end mark, which the entries written have not touched
            have hNext : next = fatLink disk bpb c := hRest
            rw [hNext] at hEnd
            refine ⟨disk₁, c, nrLfn₁, List.mem_singleton_self c, hLink ▸ hEnd, ?_, ?_, fun fuel => ?_⟩
            · exact fun a ha => hKept a (ha c (List.mem_singleton_self c))
            · rw [freeSum_cons]
              exact hLeft
            · rw [List.length_singleton, Nat.add_comm]
              exact createFrom_extend hEoc hDefined hFill (hLink ▸ hEnd)
        | cons d path =>
            rw [freeSum_cons] at hRoom ⊢
            have hRoom₁ : freeSum disk₁ bpb (d :: path) < entriesLeft fn nrLfn₁ := by omega
            obtain ⟨disk₂, last, nrLfn₂, hMem, hLast, hOff, hSum, hRun⟩ :=
              createFrom_last (d :: path) hRest hEnd hApart.tail (List.cons_ne_nil _ _) hRoom₁
            refine ⟨disk₂, last, nrLfn₂, List.mem_cons_of_mem _ hMem, hLast, ?_, by omega, fun fuel => ?_⟩
            · intro a ha
              rw [hOff a fun e he => ha e (List.mem_cons_of_mem _ he)]
              exact hKept a (ha c List.mem_cons_self)
            · have hLength : (c :: d :: path).length + fuel = (d :: path).length + fuel + 1 := by
                rw [List.length_cons]
                omega
              rw [hLength, createFrom_next hEoc hDefined hFill (hLink ▸ hRest.head_not_eoc), hLink]
              exact hRun fuel

/-- The new cluster is written last. -/
theorem extendChain_cleared (disk : Disk) (bpb : Fat32Bpb) (last : Nat) (table : Bytes) :
    ∃ disk₁, extendChain disk bpb last table =
      ((fat32AllocCluster disk).1, writeCluster disk₁ bpb (fat32AllocCluster disk).1 zeroed) := by
  rw [extendChain]
  exact ⟨_, rfl⟩

/-- What is left fits into the cluster with which the chain is extended, wherever that is. -/
theorem createFrom_extended_fits {disk : Disk} {last nrLfn fuel : Nat} {table : Bytes}
    (hRoom : entriesLeft fn nrLfn ≤ entriesPerCluster bpb) :
    ∃ disk', createFrom junk bpb fn total (fuel + 1) (extendChain disk bpb last table).2
      (extendChain disk bpb last table).1 nrLfn = some disk' := by
  obtain ⟨disk₁, hExtend⟩ := extendChain_cleared disk bpb last table
  rw [hExtend]
  generalize (fat32AllocCluster disk).1 = new
  cases hEoc : fat32Eoc new with
  | true => exact ⟨_, createFrom_eoc hEoc⟩
  | false =>
      -- the cluster is read back as it has been cleared
      have hRead : readCluster (writeCluster disk₁ bpb new zeroed) bpb new zeroed = zeroed := by
        funext k
        rw [readCluster, ahciRead, load]
        split
        · case isTrue hk => exact writeCluster_inside hk
        · rfl
      have hFree : freeIn (writeCluster disk₁ bpb new zeroed) bpb new = entriesPerCluster bpb := by
        rw [freeIn, hRead]
        exact freeSlots_of_free fun k _ _ => slotFree_zeroed k
      rcases fillSlots_cases junk fn total (writeCluster disk₁ bpb new zeroed) bpb new nrLfn with
        ⟨-, disk', hFill⟩ | ⟨disk', nrLfn', -, hLeft⟩
      · exact ⟨disk', createFrom_done hEoc hFill⟩
      · have hPos := entriesLeft_pos fn nrLfn'
        omega

/-! ## More than one extension -/

/-- Behind the first sector the allocator, which numbers 16 clusters to a sector, finds nothing. -/
def NoStray (bpb : Fat32Bpb) (disk : Disk) : Prop :=
  ∀ s i, 0 < s → s < bpb.fatSize32 → i < 16 → fatEntry disk bpb (s * 128 + i) ≠ 0

theorem fatLink_eq (hGeo : Geometry bpb) (disk : Disk) (cluster : Nat) :
    fatLink disk bpb cluster = fatEntry disk bpb cluster := fatWord_readFat hGeo disk zeroed cluster

/-- A word that is not zero stays so when a chain grows. -/
theorem NoStray.appended {disk disk' : Disk} {last new : Nat} (h : NoStray bpb disk)
    (hApp : Appended bpb disk disk' last new) : NoStray bpb disk' := by
  intro s i hs hLt hi
  have hTwo := hApp.cluster.two_le
  by_cases hLast : s * 128 + i = last
  · rw [hLast, hApp.link]
    omega
  · by_cases hNew : s * 128 + i = new
    · rw [hNew, hApp.mark]
      decide
    · rw [hApp.kept _ (by rw [fatCount]; omega) hLast hNew]
      exact h s i hs hLt hi

/-- The chain is extended until the entries are written or nothing is free. -/
theorem createFrom_grows (hGeo : Geometry bpb) : ∀ (n : Nat) {disk : Disk} {last nrLfn : Nat} (table : Bytes),
    (lowFree disk bpb).card = n → HeadOk bpb disk → IsCluster bpb last →
    fat32Eoc (fatEntry disk bpb last) = true →
    (entriesLeft fn nrLfn ≤ entriesPerCluster bpb * n ∨ NoStray bpb disk) →
    ∃ fuel disk', createFrom junk bpb fn total fuel (extendChain disk bpb last table).2
      (extendChain disk bpb last table).1 nrLfn = some disk' := by
  intro n
  induction n with
  | zero =>
      intro disk last nrLfn table hCard hHead hLast hEnd hRoom
      have hPos := entriesLeft_pos fn nrLfn
      have hStray : NoStray bpb disk := hRoom.resolve_left (by omega)
      have hExt := extendChain_cases hGeo hHead.bpb_eq hLast.lt_count table
      generalize extendChain disk bpb last table = r at hExt
      cases hExt with
      | full disk₁ hFull hLink =>
          have hEoc : fat32Eoc 0xffffffff = true := by decide
          exact ⟨1, _, createFrom_eoc hEoc⟩
      | taken disk₁ disk₂ new s i hTaken hLink =>
          -- nothing is free that could have been taken
          exfalso
          by_cases hSector : s = 0
          · have hMem : i ∈ lowFree disk bpb := by
              have hFree := hTaken.free
              rw [hSector, Nat.zero_mul, Nat.zero_add] at hFree
              exact mem_lowFree.mpr ⟨hTaken.index, hFree⟩
            rw [Finset.card_eq_zero.mp hCard] at hMem
            exact absurd hMem (Finset.notMem_empty i)
          · exact hStray s i (Nat.pos_of_ne_zero hSector) hTaken.sector hTaken.index hTaken.free
  | succ n ih =>
      intro disk last nrLfn table hCard hHead hLast hEnd hRoom
      have hNonempty : (lowFree disk bpb).Nonempty := by
        rw [← Finset.card_pos]
        omega
      have hWord : fatEntry disk bpb last ≠ 0 := by
        intro hZero
        rw [hZero] at hEnd
        cases hEnd
      have hApp := extendChain_low hGeo hHead.bpb_eq hHead.media hNonempty hLast hWord table
      generalize extendChain disk bpb last table = r at hApp ⊢
      obtain ⟨new, disk₁⟩ := r
      simp only at hApp ⊢
      have hCluster := hApp.cluster
      have hHead₁ := hHead.of_appended hGeo hLast hApp
      -- one free word less: the measure of the walk
      have hLess := hApp.card hGeo hWord
      have hFree : freeIn disk₁ bpb new = entriesPerCluster bpb := freeIn_of_zero hGeo hApp.cleared
      rcases fillSlots_cases junk fn total disk₁ bpb new nrLfn with ⟨-, disk', hFill⟩ | ⟨disk₂, nrLfn₂, hFill, hLeft⟩
      · exact ⟨1, disk', createFrom_done hCluster.not_eoc hFill⟩
      · -- the entries that have been written leave the FAT as it is
        have hKept : KeptOutside bpb new disk₁ disk₂ := fillSlots_kept hFill
        have hFat : ∀ c, c < fatCount bpb → fatEntry disk₂ bpb c = fatEntry disk₁ bpb c :=
          fun c hc => fatEntry_of_keptOutside hGeo hCluster hc hKept
        have hEnd₂ : fat32Eoc (fatEntry disk₂ bpb new) = true := by
          rw [hFat new hCluster.lt_count, hApp.mark]
          rfl
        have hSize := hGeo.size
        have hLow : lowFree disk₂ bpb = lowFree disk₁ bpb :=
          lowFree_congr fun c hc => by rw [hFat c (by rw [fatCount]; omega)]
        have hRoom₂ : entriesLeft fn nrLfn₂ ≤ entriesPerCluster bpb * n ∨ NoStray bpb disk₂ := by
          refine hRoom.imp (fun hLe => ?_) fun hStray s i hs hLt hi => ?_
          · rw [Nat.mul_succ] at hLe
            omega
          · rw [hFat _ (by rw [fatCount]; omega)]
            exact hStray.appended hApp s i hs hLt hi
        obtain ⟨fuel, disk', hRun⟩ := ih (readFat disk₂ bpb new zeroed) (by rw [hLow]; omega)
          (hHead₁.of_keptOutside hGeo hCluster hKept) hCluster hEnd₂ hRoom₂
        refine ⟨fuel + 1, disk', ?_⟩
        rw [createFrom_extend hCluster.not_eoc (fatDefined_eq hGeo) hFill (by rw [fatLink_eq hGeo]; exact hEnd₂)]
        exact hRun

end Walk

/-! ## The directory -/

/-- The entries of the name find room along the way, or the chain comes to an end mark and can be extended far
enough: by one cluster in any case, by more where the allocator returns the cluster that it has taken, or finds
nothing. -/
def FillEnds (disk : Disk) (bpb : Fat32Bpb) (fn : Str) (cluster : Nat) : Prop :=
  ∃ path next, Leads disk bpb cluster path next ∧ Apart bpb path ∧
    (entriesLeft fn (nrLfnOf fn) ≤ freeSum disk bpb path ∨
      fat32Eoc next = true ∧
        (path = [] ∨ entriesLeft fn (nrLfnOf fn) ≤ freeSum disk bpb path + entriesPerCluster bpb ∨
          Geometry bpb ∧ HeadOk bpb disk ∧ (∀ c ∈ path, IsCluster bpb c) ∧
            (entriesLeft fn (nrLfnOf fn) ≤ freeSum disk bpb path + entriesPerCluster bpb * (lowFree disk bpb).card ∨
              NoStray bpb disk)))

/-- The way goes round in a circle, and its clusters have too few free slots for the entries of the name. -/
def FillHangs (disk : Disk) (bpb : Fat32Bpb) (fn : Str) (cluster : Nat) : Prop :=
  Geometry bpb ∧ fn.length < 512 ∧ ∃ path next, Leads disk bpb cluster path next ∧ Apart bpb path ∧ next ∈ path ∧
    freeSum disk bpb path < entriesLeft fn (nrLfnOf fn)

section Directory

variable {junk : Junk} {bpb : Fat32Bpb} {fn : Str} {total : Nat} {disk : Disk}

/-- The volume is as before where the driver looks, apart from the clusters of the directory. -/
theorem KeptOff.volume (hGeo : Geometry bpb) {disk' : Disk} {path : List Nat} (h : KeptOff bpb path disk disk')
    (hPath : ∀ c ∈ path, IsCluster bpb c) (hHead : HeadOk bpb disk) :
    HeadOk bpb disk' ∧ ∀ c, c < fatCount bpb → fatEntry disk' bpb c = fatEntry disk bpb c := by
  have hBefore : ∀ a, a < dataStart bpb → disk' a = disk a := by
    intro a ha
    apply h
    intro c hc
    have hStart := dataStart_le_clusterStart hGeo (hPath c hc)
    exact Or.inl (by omega)
  have hEnd := fatEnd_le_dataStart hGeo
  have hReserved := hGeo.reserved
  have hSize := hGeo.size
  have hFat : ∀ c, c < fatCount bpb → fatEntry disk' bpb c = fatEntry disk bpb c :=
    fun c hc => fatEntry_congr fun a _ ha => hBefore a (by omega)
  refine ⟨hHead.congr (fun a ha => hBefore a (by omega)) fun d hd => hFat d ?_, hFat⟩
  rw [fatCount]
  omega

/-- A walk with room ends. -/
theorem createFrom_ends (junk : Junk) {cluster : Nat}
    (h : FillEnds disk bpb fn cluster) :
    ∃ fuel disk', createFrom junk bpb fn (nrLfnOf fn + 1) fuel disk cluster (nrLfnOf fn) = some disk' := by
  obtain ⟨path, next, hLeads, hApart, hEnds⟩ := h
  by_cases hRoom : entriesLeft fn (nrLfnOf fn) ≤ freeSum disk bpb path
  · exact ⟨path.length, createFrom_room path hLeads hApart hRoom le_rfl⟩
  · obtain ⟨hEoc, hGrow⟩ := hEnds.resolve_left hRoom
    by_cases hNil : path = []
    · rw [hNil] at hLeads
      have hNext : next = cluster := hLeads
      exact ⟨1, disk, createFrom_eoc (hNext ▸ hEoc)⟩
    · -- the path is filled up to its last cluster, and what is left goes behind it
      obtain ⟨disk₁, last, nrLfn₁, hMem, hLast, hOff, hSum, hRun⟩ :=
        createFrom_last junk (nrLfnOf fn + 1) path hLeads hEoc hApart hNil (not_le.mp hRoom)
      rcases hGrow.resolve_left hNil with hOne | ⟨hGeo, hHead, hPath, hMore⟩
      · have hFits : entriesLeft fn nrLfn₁ ≤ entriesPerCluster bpb := by omega
        refine ⟨path.length + 1, ?_⟩
        rw [hRun 1]
        exact createFrom_extended_fits hFits
      · obtain ⟨hHead₁, hFat⟩ := hOff.volume hGeo hPath hHead
        have hSize := hGeo.size
        have hLow : lowFree disk₁ bpb = lowFree disk bpb :=
          lowFree_congr fun c hc => by rw [hFat c (by rw [fatCount]; omega)]
        have hRoom₁ : entriesLeft fn nrLfn₁ ≤ entriesPerCluster bpb * (lowFree disk bpb).card ∨
            NoStray bpb disk₁ := by
          refine hMore.imp (fun hLe => by omega) fun hStray s i hs hLt hi => ?_
          rw [hFat _ (by rw [fatCount]; omega)]
          exact hStray s i hs hLt hi
        rw [fatLink_eq hGeo] at hLast
        obtain ⟨fuel, disk', hGrown⟩ := createFrom_grows hGeo _ (readFat disk₁ bpb last zeroed)
          (congrArg Finset.card hLow) hHead₁ (hPath last hMem) hLast hRoom₁
        refine ⟨path.length + fuel, disk', ?_⟩
        rw [hRun fuel]
        exact hGrown

/-! ## Round in a circle -/

/-- The clusters of the path link each other. -/
def Closed (disk : Disk) (bpb : Fat32Bpb) (path : List Nat) : Prop :=
  ∀ c ∈ path, fat32Eoc c = false ∧ fatLink disk bpb c ∈ path

/-- Each link on a path leads to the next cluster of it, or behind it. -/
theorem Leads.links : ∀ {path : List Nat} {cluster next : Nat}, Leads disk bpb cluster path next →
    (cluster ∈ path ∨ cluster = next) ∧
      ∀ c ∈ path, fat32Eoc c = false ∧ (fatLink disk bpb c ∈ path ∨ fatLink disk bpb c = next)
  | [], _, _, h => ⟨Or.inr h.symm, fun _ hc => absurd hc List.not_mem_nil⟩
  | c :: path, _, _, ⟨rfl, hEoc, _, hRest⟩ => by
      obtain ⟨hHead, hLinks⟩ := hRest.links
      refine ⟨Or.inl List.mem_cons_self, fun d hd => ?_⟩
      rcases List.mem_cons.mp hd with rfl | hIn
      · exact ⟨hEoc, hHead.imp (List.mem_cons_of_mem _) id⟩
      · exact ⟨(hLinks d hIn).1, (hLinks d hIn).2.imp (List.mem_cons_of_mem _) id⟩

theorem Leads.closed {path : List Nat} {cluster next : Nat} (h : Leads disk bpb cluster path next)
    (hNext : next ∈ path) : Closed disk bpb path ∧ cluster ∈ path := by
  obtain ⟨hHead, hLinks⟩ := h.links
  refine ⟨fun c hc => ⟨(hLinks c hc).1, ?_⟩, ?_⟩
  · exact (hLinks c hc).2.elim id fun hEq => hEq ▸ hNext
  · exact hHead.elim id fun hEq => hEq ▸ hNext

/-- Two clusters of a list are apart, in one order or the other. -/
theorem Apart.of_ne {path : List Nat} (h : Apart bpb path) {c d : Nat} (hc : c ∈ path) (hd : d ∈ path)
    (hNe : c ≠ d) : DataApart bpb c d := by
  have hSymm : Std.Symm (DataApart bpb) := ⟨fun _ _ hApart => Or.symm hApart⟩
  exact h.data.forall hc hd hNe

/-- A cluster is filled: what it had free is gone, and no other one has more. -/
theorem freeSum_filled {disk₁ : Disk} {path : List Nat} {c : Nat} (hc : c ∈ path)
    (hFull : freeIn disk₁ bpb c = 0) (hSame : ∀ d ∈ path, d ≠ c → freeIn disk₁ bpb d = freeIn disk bpb d) :
    freeSum disk₁ bpb path + freeIn disk bpb c ≤ freeSum disk bpb path := by
  have hLe : ∀ {l : List Nat}, (∀ d ∈ l, d ∈ path) → freeSum disk₁ bpb l ≤ freeSum disk bpb l := by
    intro l hIn
    apply List.sum_le_sum
    intro d hd
    by_cases hEq : d = c
    · rw [hEq, hFull]
      exact Nat.zero_le _
    · exact le_of_eq (hSame d (hIn d hd) hEq)
  obtain ⟨before, behind, rfl⟩ := List.append_of_mem hc
  have hBefore := hLe (l := before) fun d hd => List.mem_append_left _ hd
  have hBehind := hLe (l := behind) fun d hd => List.mem_append_right _ (List.mem_cons_of_mem _ hd)
  have hSum : ∀ disk : Disk, freeSum disk bpb (before ++ c :: behind) =
      freeSum disk bpb before + (freeIn disk bpb c + freeSum disk bpb behind) := by
    intro disk
    unfold freeSum
    rw [List.map_append, List.sum_append, List.map_cons, List.sum_cons]
  rw [hSum, hSum, hFull]
  omega

/-- The walk never comes out of the circle. -/
theorem createFrom_hangs (hGeo : Geometry bpb) {path : List Nat} (hApart : Apart bpb path) :
    ∀ (fuel : Nat) {disk : Disk} {cluster nrLfn : Nat}, Closed disk bpb path → cluster ∈ path → nrLfn < 64 →
      freeSum disk bpb path < entriesLeft fn nrLfn →
      createFrom junk bpb fn total fuel disk cluster nrLfn = none := by
  intro fuel
  induction fuel with
  | zero =>
      intro disk cluster nrLfn _ _ _ _
      rfl
  | succ fuel ih =>
      intro disk cluster nrLfn hClosed hMem hNr hRoom
      obtain ⟨hEoc, hLink⟩ := hClosed cluster hMem
      have hLe : freeIn disk bpb cluster ≤ freeSum disk bpb path :=
        List.single_le_sum (fun _ _ => Nat.zero_le _) _ (List.mem_map_of_mem hMem)
      rcases fillSlots_cases junk fn total disk bpb cluster nrLfn with ⟨hFits, -⟩ | ⟨disk₁, nrLfn₁, hFill, hLeft⟩
      · omega
      · -- the circle stays as it is, and what is free in it falls by what has been written
        have hKept : KeptOutside bpb cluster disk disk₁ := fillSlots_kept hFill
        have hLinks : ∀ c ∈ path, fatLink disk₁ bpb c = fatLink disk bpb c :=
          fun c hc => fatLink_of_apart hKept (hApart.fat cluster hMem c hc)
        have hClosed₁ : Closed disk₁ bpb path := by
          intro c hc
          rw [hLinks c hc]
          exact hClosed c hc
        have hSum := freeSum_filled hMem (freeIn_of_more hGeo hNr hFill)
          fun d hd hNe => freeIn_of_apart hKept (hApart.of_ne hMem hd hNe.symm)
        have hNext : fat32Eoc (fatLink disk₁ bpb cluster) = false := by
          rw [hLinks cluster hMem]
          exact (hClosed _ hLink).1
        rw [createFrom_next hEoc (fatDefined_eq hGeo) hFill hNext, hLinks cluster hMem]
        exact ih hClosed₁ hLink ((fillSlots_more hFill).trans_lt hNr) (by omega)

end Directory

/-! ## The call -/

/-- The cluster of the directory in which the file is made. -/
def ParentAt (junk : Junk) (disk : Disk) (path : Str) (cluster : Nat) : Prop :=
  if cutLast path = [slash] then cluster = 2
  else ∃ e, LookupFinds junk disk (cutLast path) e ∧ cluster = e.firstCluster

/-- The call ends: its lookups do, and then the walk through the directory, with the first name of the path. -/
def CreateEnds (junk : Junk) (disk : Disk) (path : Str) : Prop :=
  LookupEnds junk disk path ∧ ((∀ e, ¬ LookupFinds junk disk path e) →
    (cutLast path = [slash] ∨ LookupEnds junk disk (cutLast path)) ∧
      ∀ fn rest cluster, pathNext path = some (fn, rest) → ParentAt junk disk path cluster →
        FillEnds disk (readBpb disk) fn cluster)

/-- The call does not end: one of its lookups does not, or the walk goes round in a circle. -/
def CreateHangs (junk : Junk) (disk : Disk) (path : Str) : Prop :=
  ¬ LookupEnds junk disk path ∨ (∀ e, ¬ LookupFinds junk disk path e) ∧
    (cutLast path ≠ [slash] ∧ ¬ LookupEnds junk disk (cutLast path) ∨
      ∃ fn rest cluster, pathNext path = some (fn, rest) ∧ ParentAt junk disk path cluster ∧
        FillHangs disk (readBpb disk) fn cluster)

section Call

variable {junk : Junk} {disk : Disk} {path : Str} {fuel : Nat}

theorem fat32Create_exists {r : Int × Option DirEntry} (h : fat32Lookup fuel junk disk path = some r)
    (hRet : r.1 = 0) : fat32Create fuel junk disk path = some (-1, disk) := by
  rw [fat32Create, h]
  simp only
  rw [if_pos hRet]

theorem fat32Create_orphan {r dir : Int × Option DirEntry} {fn rest : Str}
    (h : fat32Lookup fuel junk disk path = some r) (hRet : r.1 ≠ 0) (hNext : pathNext path = some (fn, rest))
    (hRoot : cutLast path ≠ [slash]) (hDir : fat32Lookup fuel junk disk (cutLast path) = some dir)
    (hNeg : dir.1 < 0) : fat32Create fuel junk disk path = some (-1, disk) := by
  rw [fat32Create, h]
  simp only
  rw [if_neg hRet, hNext]
  simp only
  rw [if_neg hRoot, hDir]
  simp only
  rw [if_pos hNeg]

/-- The call goes through the directory. -/
theorem fat32Create_walk {r : Int × Option DirEntry} {fn rest : Str} {cluster : Nat}
    (h : fat32Lookup fuel junk disk path = some r) (hRet : r.1 ≠ 0) (hNext : pathNext path = some (fn, rest))
    (hParent : parentCluster fuel junk disk path = some cluster) :
    fat32Create fuel junk disk path =
      (createFrom junk (readBpb disk) fn (nrLfnOf fn + 1) fuel disk cluster (nrLfnOf fn)).map
        fun disk => (0, disk) := by
  rw [fat32Create, h]
  simp only
  rw [if_neg hRet, hNext]
  simp only
  rw [parentCluster] at hParent
  by_cases hRoot : cutLast path = [slash]
  · rw [if_pos hRoot, Option.some.injEq] at hParent
    rw [if_pos hRoot, ← hParent]
    rfl
  · rw [if_neg hRoot] at hParent ⊢
    cases hDir : fat32Lookup fuel junk disk (cutLast path) with
    | none =>
        rw [hDir] at hParent
        cases hParent
    | some dir =>
        rw [hDir] at hParent
        simp only at hParent ⊢
        by_cases hNeg : dir.1 < 0
        · rw [if_pos hNeg] at hParent
          cases hParent
        · rw [if_neg hNeg, Option.some.injEq] at hParent
          rw [if_neg hNeg, hParent]
          rfl

/-- The parent that the call finds. -/
theorem parentCluster_of_finds {e : DirEntry} (hRoot : cutLast path ≠ [slash])
    (h : fat32Lookup fuel junk disk (cutLast path) = some (0, some e)) :
    parentCluster fuel junk disk path = some e.firstCluster := by
  rw [parentCluster, if_neg hRoot, h]
  rfl

/-- A path that is not found has a name. -/
theorem pathNext_of_missing {r : Int × Option DirEntry} (h : fat32Lookup fuel junk disk path = some r)
    (hRet : r.1 ≠ 0) : ∃ fn rest, pathNext path = some (fn, rest) := by
  cases hNext : pathNext path with
  | none =>
      rw [fat32Lookup, components_of_none hNext, lookupEntryFrom, Option.some.injEq] at h
      exact absurd (congrArg Prod.fst h).symm hRet
  | some next => exact ⟨next.1, next.2, rfl⟩

/-- A path that leads to no entry is not found. -/
theorem lookup_missing (hDefined : fatDefined (readBpb disk) = true) (hNone : ∀ e, ¬ LookupFinds junk disk path e)
    {r : Int × Option DirEntry} (h : fat32Lookup fuel junk disk path = some r) : r.1 < 0 := by
  rcases lookupEntryFrom_cases hDefined h with ⟨e, rfl⟩ | ⟨hNeg, -⟩
  · exact absurd ((fat32Lookup_finds_iff hDefined path e).mp ⟨fuel, h⟩) (hNone e)
  · exact hNeg

/-- The call with enough fuel for each of its parts. -/
theorem fat32Create_ends (hDefined : fatDefined (readBpb disk) = true) (h : CreateEnds junk disk path) :
    ∃ fuel r, fat32Create fuel junk disk path = some r := by
  obtain ⟨hLookup, hRest⟩ := h
  obtain ⟨fuel₁, r, hPath⟩ := (fat32Lookup_ends_iff hDefined path).mpr hLookup
  rcases lookupEntryFrom_cases hDefined hPath with ⟨e, rfl⟩ | ⟨hNeg, -⟩
  · exact ⟨fuel₁, _, fat32Create_exists hPath rfl⟩
  · have hMissing : ∀ e, ¬ LookupFinds junk disk path e := by
      intro e hFinds
      obtain ⟨fuel', hFound⟩ := (fat32Lookup_finds_iff hDefined path e).mpr hFinds
      rw [fat32Lookup_unique hPath hFound] at hNeg
      exact absurd hNeg (lt_irrefl 0)
    have hRet : r.1 ≠ 0 := ne_of_lt hNeg
    -- the three parts have their own fuel, and more of it changes nothing
    obtain ⟨hDir, hFill⟩ := hRest hMissing
    obtain ⟨fn, rest, hNext⟩ := pathNext_of_missing hPath hRet
    have hMore : ∀ {k}, fuel₁ ≤ k → fat32Lookup k junk disk path = some r :=
      fun hLe => lookupEntryFrom_mono hLe hPath
    by_cases hRoot : cutLast path = [slash]
    · have hParent : ParentAt junk disk path 2 := by
        rw [ParentAt, if_pos hRoot]
      obtain ⟨fuel₂, disk', hWalk⟩ := createFrom_ends junk (hFill fn rest 2 hNext hParent)
      have hStart : parentCluster (max fuel₁ fuel₂) junk disk path = some 2 := by
        rw [parentCluster, if_pos hRoot]
      refine ⟨max fuel₁ fuel₂, (0, disk'), ?_⟩
      rw [fat32Create_walk (hMore (Nat.le_max_left _ _)) hRet hNext hStart,
        createFrom_mono (Nat.le_max_right _ _) hWalk]
      rfl
    · obtain ⟨fuel₂, dir, hDirRun⟩ := (fat32Lookup_ends_iff hDefined _).mpr (hDir.resolve_left hRoot)
      rcases lookupEntryFrom_cases hDefined hDirRun with ⟨e, rfl⟩ | ⟨hOrphan, -⟩
      · have hParent : ParentAt junk disk path e.firstCluster := by
          rw [ParentAt, if_neg hRoot]
          exact ⟨e, (fat32Lookup_finds_iff hDefined _ e).mp ⟨fuel₂, hDirRun⟩, rfl⟩
        obtain ⟨fuel₃, disk', hWalk⟩ := createFrom_ends junk (hFill fn rest _ hNext hParent)
        have hDirMore : fat32Lookup (max fuel₁ (max fuel₂ fuel₃)) junk disk (cutLast path) = some (0, some e) :=
          lookupEntryFrom_mono (by omega) hDirRun
        refine ⟨max fuel₁ (max fuel₂ fuel₃), (0, disk'), ?_⟩
        rw [fat32Create_walk (hMore (by omega)) hRet hNext (parentCluster_of_finds hRoot hDirMore),
          createFrom_mono (by omega) hWalk]
        rfl
      · have hDirMore : fat32Lookup (max fuel₁ fuel₂) junk disk (cutLast path) = some dir :=
          lookupEntryFrom_mono (by omega) hDirRun
        exact ⟨max fuel₁ fuel₂, _, fat32Create_orphan (hMore (by omega)) hRet hNext hRoot hDirMore hOrphan⟩

theorem fat32Lookup_never (hDefined : fatDefined (readBpb disk) = true) (h : ¬ LookupEnds junk disk path)
    (fuel : Nat) : fat32Lookup fuel junk disk path = none := by
  cases hRun : fat32Lookup fuel junk disk path with
  | none => rfl
  | some r => exact absurd ((fat32Lookup_ends_iff hDefined path).mp ⟨fuel, r, hRun⟩) h

/-- The lookup of the directory has not returned. -/
theorem fat32Create_lost {r : Int × Option DirEntry} (h : fat32Lookup fuel junk disk path = some r)
    (hRet : r.1 ≠ 0) (hRoot : cutLast path ≠ [slash]) (hDir : fat32Lookup fuel junk disk (cutLast path) = none) :
    fat32Create fuel junk disk path = none := by
  obtain ⟨fn, rest, hNext⟩ := pathNext_of_missing h hRet
  rw [fat32Create, h]
  simp only
  rw [if_neg hRet, hNext]
  simp only
  rw [if_neg hRoot, hDir]

/-- A call that does not end has not returned, whatever the fuel. -/
theorem fat32Create_never (hDefined : fatDefined (readBpb disk) = true) (h : CreateHangs junk disk path)
    (fuel : Nat) : fat32Create fuel junk disk path = none := by
  cases hLookup : fat32Lookup fuel junk disk path with
  | none => rw [fat32Create, hLookup]
  | some r =>
      rcases h with hNever | ⟨hMissing, hRest⟩
      · rw [fat32Lookup_never hDefined hNever] at hLookup
        cases hLookup
      · have hRet : r.1 ≠ 0 := ne_of_lt (lookup_missing hDefined hMissing hLookup)
        rcases hRest with ⟨hRoot, hNever⟩ | ⟨fn, rest, cluster, hNext, hParent, hGeo, hLength, path', next, hLeads,
          hApart, hBack, hRoom⟩
        · exact fat32Create_lost hLookup hRet hRoot (fat32Lookup_never hDefined hNever fuel)
        · obtain ⟨hClosed, hMem⟩ := hLeads.closed hBack
          have hNr : nrLfnOf fn < 64 := by
            rw [nrLfnOf]
            omega
          have hWalk : createFrom junk (readBpb disk) fn (nrLfnOf fn + 1) fuel disk cluster (nrLfnOf fn) = none :=
            createFrom_hangs hGeo hApart fuel hClosed hMem hNr hRoom
          rw [ParentAt] at hParent
          by_cases hRoot : cutLast path = [slash]
          · rw [if_pos hRoot] at hParent
            have hStart : parentCluster fuel junk disk path = some cluster := by
              rw [parentCluster, if_pos hRoot, hParent]
            rw [fat32Create_walk hLookup hRet hNext hStart, hWalk]
            rfl
          · rw [if_neg hRoot] at hParent
            obtain ⟨e, hFinds, rfl⟩ := hParent
            cases hDir : fat32Lookup fuel junk disk (cutLast path) with
            | none => exact fat32Create_lost hLookup hRet hRoot hDir
            | some dir =>
                -- a lookup that returns finds the entry it finds with any other fuel
                obtain ⟨fuel', hFound⟩ := (fat32Lookup_finds_iff hDefined _ e).mpr hFinds
                rw [fat32Lookup_unique hDir hFound] at hDir
                rw [fat32Create_walk hLookup hRet hNext (parentCluster_of_finds hRoot hDir), hWalk]
                rfl

end Call

theorem sampleVolume_valid : ValidBpb (readBpb sampleVolume) := by
  have hBpb : readBpb sampleVolume = ⟨512, 1, 1, 1, 1, 2⟩ := by decide
  rw [hBpb]
  constructor <;> decide

/-- The root directory is full of entries `D`, and its cluster is linked to itself. -/
def cycleVolume : Disk :=
  putBytes (fun a => if 1024 ≤ a then sampleVolume (1024 + a % 32) else sampleVolume a) 520
    [0x02#8, 0x00#8, 0x00#8, 0x00#8]

/-- A cluster that is linked to itself leads nowhere else. -/
theorem Leads.loop {disk : Disk} {bpb : Fat32Bpb} {c : Nat} (hLink : fatLink disk bpb c = c) :
    ∀ {path : List Nat} {next : Nat}, Leads disk bpb c path next → next = c ∧ ∀ d ∈ path, d = c
  | [], _, h => ⟨h, fun _ hd => absurd hd List.not_mem_nil⟩
  | _ :: path, next, ⟨rfl, _, _, hRest⟩ => by
      rw [hLink] at hRest
      obtain ⟨hNext, hPath⟩ := hRest.loop hLink
      exact ⟨hNext, List.forall_mem_cons.mpr ⟨rfl, hPath⟩⟩

/-- Nothing stops a walk round a cluster with live entries of another name. -/
theorem not_walkEnds_loop {disk : Disk} {bpb : Fat32Bpb} {c : Nat} {stop : List DirEntry → Prop}
    (hLink : fatLink disk bpb c = c) (hEoc : fat32Eoc c = false)
    (hStop : ∀ entries, (∀ e ∈ entries, e ∈ clusterEntries disk bpb c) → ¬ stop entries) :
    ¬ WalkEnds disk bpb stop c := by
  rintro ⟨path, next, hLeads, hEnd⟩
  obtain ⟨hNext, hPath⟩ := hLeads.loop hLink
  rw [hNext, hEoc] at hEnd
  refine hStop _ (fun e he => ?_) (hEnd.resolve_left (by decide))
  obtain ⟨d, hd, hIn⟩ := List.mem_flatMap.mp he
  rw [hPath d hd] at hIn
  exact hIn

/-- Behind live entries there are no fragments. -/
theorem fragments_of_live {before : List DirEntry} (h : ∀ e ∈ before, LiveEntry e) : fragments before = [] := by
  rcases List.eq_nil_or_concat before with rfl | ⟨rest, e, rfl⟩
  · rfl
  · rw [List.concat_eq_append] at h ⊢
    exact fragments_live (h e (List.mem_append_right _ (List.mem_singleton_self e)))

theorem cycleVolume_bpb : readBpb cycleVolume = ⟨512, 1, 1, 1, 1, 2⟩ := by decide

/-- The volume on which the first write searches. -/
theorem cycleVolume_taken : fatLink (fat32AllocCluster cycleVolume).2 ⟨512, 1, 1, 1, 1, 2⟩ 2 = 2 ∧
    ∀ e ∈ clusterEntries (fat32AllocCluster cycleVolume).2 ⟨512, 1, 1, 1, 1, 2⟩ 2,
      sameShortName e fileRecord.entry = false := by
  decide +kernel

/-- No entry of the directory stops the search for `B`. -/
theorem cycleVolume_search : ∀ e ∈ clusterEntries cycleVolume ⟨512, 1, 1, 1, 1, 2⟩ 2,
    e.name0 ≠ sfnName0Free ∧ LiveEntry e ∧ lookupName e zeroed = [0x44#8] := by
  decide

end Rayos
