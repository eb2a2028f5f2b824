import Rayos.Fs.Fat32Mirror

/-!
# The short names of a FAT32 directory

`ascii_to_sfn` ends every generated alias with `~1` and nothing looks whether the directory has the alias
already, so two long names can get one short name.  `fat32_write_cluster` finds the entry of a file by its
short name and would then update the entry of the other file.

* `Entered` is what a walk of `fat32_create` does to the slots of a directory.
* `ShortNames` is what is expected of a directory, and `NameFree` the condition under which creating a
  file keeps it.
-/

namespace Rayos

open LittleEndian ByteStore CString

/-! ## Slots -/

/-- Slot `i` of a cluster on the drive. -/
def entryAt (disk : Disk) (bpb : Fat32Bpb) (cluster i : Nat) : DirEntry :=
  dirSlot (readCluster disk bpb cluster zeroed) i

/-- An entry that is in use and no fragment of a long name. -/
def LiveEntry (entry : DirEntry) : Prop := slotFree entry = false ∧ entry.attr ≠ attrLongName

instance (entry : DirEntry) : Decidable (LiveEntry entry) := inferInstanceAs (Decidable (_ ∧ _))

theorem dirSlot_length (buf : Bytes) (i : Nat) : (dirSlot buf i).length = 32 := by
  rw [dirSlot, List.length_map, List.length_range]

theorem entryAt_length (disk : Disk) (bpb : Fat32Bpb) (cluster i : Nat) :
    (entryAt disk bpb cluster i).length = 32 := dirSlot_length _ _

theorem dirSlot_putSlot_self {buf : Bytes} {i : Nat} {entry : DirEntry} (h : entry.length = 32) :
    dirSlot (putSlot buf i entry) i = entry := by
  refine List.ext_getElem (by rw [dirSlot_length, h]) fun k hk hk' => ?_
  have hLt : k < 32 := h ▸ hk'
  simp only [dirSlot, List.getElem_map, List.getElem_range]
  rw [putSlot, if_pos (by omega), Nat.add_sub_cancel_left]
  simp [hk']

theorem dirSlot_eq_of_sync {buf buf' : Bytes} {i : Nat} (h : ∀ k, k < 32 → buf' (32 * i + k) = buf (32 * i + k)) :
    dirSlot buf' i = dirSlot buf i :=
  List.map_congr_left fun k hk => h k (List.mem_range.mp hk)

theorem length_ofBytes (buf : Bytes) : (DirEntry.ofBytes buf).length = 32 := by
  rw [DirEntry.ofBytes, List.length_map, List.length_range]

/-! ## Names -/

theorem length_overwrite {l bytes : List (BitVec 8)} {off : Nat} (h : off + bytes.length ≤ l.length) :
    (overwrite l off bytes).length = l.length := by
  rw [overwrite, List.length_append, List.length_append, List.length_take, List.length_drop]
  omega

theorem mem_overwrite {l bytes : List (BitVec 8)} {off : Nat} {b : BitVec 8}
    (h : b ∈ overwrite l off bytes) : b ∈ l ∨ b ∈ bytes := by
  rcases List.mem_append.mp h with hLeft | hRight
  · exact (List.mem_append.mp hLeft).imp List.mem_of_mem_take id
  · exact Or.inl (List.mem_of_mem_drop hRight)

theorem toupper_ne_zero {c : BitVec 8} (h : c ≠ 0#8) : toupper c ≠ 0#8 := by
  rw [toupper]
  split
  · case isTrue hLower =>
      intro hZero
      have hEq : c = 32#8 := by bv_omega
      rw [hEq] at hLower
      exact absurd hLower.1 (by decide)
  · exact h

/-- The short name of a base and an extension. -/
def sfnOfParts (base ext : Str) : List (BitVec 8) :=
  if ¬ (base.length > 8 ∨ ext.length > 3) then
    overwrite (overwrite (List.replicate 11 spaceByte) 0 (base.map toupper)) 8 (ext.map toupper)
  else
    overwrite (overwrite (overwrite (List.replicate 11 spaceByte) 0
      ((base.take 6).map fun c => if toupper c = spaceByte then 0x5f#8 else toupper c)) 6
      [0x7e#8, 0x31#8]) 8 ((ext.take 3).map toupper)

/-- A short name comes from two parts of the name. -/
theorem asciiToSfn_parts (fn : Str) :
    ∃ base ext, (∀ c ∈ base, c ∈ fn) ∧ (∀ c ∈ ext, c ∈ fn) ∧ asciiToSfn fn = sfnOfParts base ext := by
  cases hDot : strrchr fn dotByte with
  | some i =>
      refine ⟨fn.take i, fn.drop (i + 1), fun _ => List.mem_of_mem_take, fun _ => List.mem_of_mem_drop, ?_⟩
      rw [asciiToSfn, hDot]
      rfl
  | none =>
      refine ⟨fn, [], fun _ => id, fun _ hc => absurd hc List.not_mem_nil, ?_⟩
      rw [asciiToSfn, hDot]
      rfl

theorem asciiToSfn_length (fn : Str) : (asciiToSfn fn).length = 11 := by
  obtain ⟨base, ext, -, -, hParts⟩ := asciiToSfn_parts fn
  have hPut : ∀ {l bytes : List (BitVec 8)} {off : Nat}, l.length = 11 → off + bytes.length ≤ 11 →
      (overwrite l off bytes).length = 11 :=
    fun hl hb => (length_overwrite (hl.symm ▸ hb)).trans hl
  have hSpaces : (List.replicate 11 spaceByte).length = 11 := List.length_replicate
  rw [hParts, sfnOfParts]
  split
  · refine hPut (hPut hSpaces ?_) ?_
    · rw [List.length_map]
      omega
    · rw [List.length_map]
      omega
  · refine hPut (hPut (hPut hSpaces ?_) (by decide)) ?_
    · rw [List.length_map, List.length_take]
      omega
    · rw [List.length_map, List.length_take]
      omega

/-- A short name has no terminator in it. -/
theorem asciiToSfn_ne_zero {fn : Str} (h : 0#8 ∉ fn) : 0#8 ∉ asciiToSfn fn := by
  obtain ⟨base, ext, hBase, hExt, hParts⟩ := asciiToSfn_parts fn
  have hSpaces : 0#8 ∉ List.replicate 11 spaceByte := by decide
  have hPut : ∀ {l bytes : List (BitVec 8)} {off : Nat}, 0#8 ∉ l → 0#8 ∉ bytes →
      0#8 ∉ overwrite l off bytes :=
    fun hl hb hMem => (mem_overwrite hMem).elim hl hb
  have hUpper : ∀ {c}, c ∈ fn → toupper c ≠ 0#8 :=
    fun hc => toupper_ne_zero fun hEq => h (hEq ▸ hc)
  rw [hParts, sfnOfParts]
  split
  · refine hPut (hPut hSpaces ?_) ?_
    · rintro hMem
      obtain ⟨c, hc, hZero⟩ := List.mem_map.mp hMem
      exact hUpper (hBase c hc) hZero
    · rintro hMem
      obtain ⟨c, hc, hZero⟩ := List.mem_map.mp hMem
      exact hUpper (hExt c hc) hZero
  · refine hPut (hPut (hPut hSpaces ?_) (by decide)) ?_
    · rintro hMem
      obtain ⟨c, hc, hZero⟩ := List.mem_map.mp hMem
      split at hZero
      · exact absurd hZero (by decide)
      · exact hUpper (hBase c (List.mem_of_mem_take hc)) hZero
    · rintro hMem
      obtain ⟨c, hc, hZero⟩ := List.mem_map.mp hMem
      exact hUpper (hExt c (List.mem_of_mem_take hc)) hZero

/-- `strncmp` over all bytes of strings that are no longer. -/
theorem strncmpEq_iff : ∀ {s1 s2 : Str} {n : Nat}, s1.length ≤ n → s2.length ≤ n →
    (strncmpEq s1 s2 n = true ↔ s1 = s2)
  | [], [], n, _, _ => by simp
  | [], b :: s2, 0, _, h => by simp at h
  | [], b :: s2, n + 1, _, _ => by simp [strncmpEq]
  | a :: s1, s2, 0, h, _ => by simp at h
  | a :: s1, [], n + 1, _, _ => by simp [strncmpEq]
  | a :: s1, b :: s2, n + 1, h, h' => by
      rw [strncmpEq, Bool.and_eq_true, beq_iff_eq, List.cons.injEq]
      exact and_congr_right fun _ =>
        strncmpEq_iff (Nat.le_of_succ_le_succ h) (Nat.le_of_succ_le_succ h')

theorem cutAtNul_eq_self {s : List (BitVec 8)} (h : 0#8 ∉ s) : cutAtNul s = s := by
  rw [cutAtNul, List.takeWhile_eq_self_iff]
  intro b hb
  have hNe : b ≠ 0#8 := fun hEq => h (hEq ▸ hb)
  simpa using hNe

/-- The search compares 11 bytes when the name that is looked for has no terminator. -/
theorem sameShortName_iff {entry entry' : DirEntry} (hLength : entry.length = 32)
    (hLength' : entry'.name.length = 11) (h : 0#8 ∉ entry'.name) :
    sameShortName entry entry' = true ↔ entry.name = entry'.name := by
  have hName : entry.name.length = 11 := by
    rw [DirEntry.name, List.length_take, hLength]
    rfl
  have hPrefix : cutAtNul entry.name <+: entry.name := List.takeWhile_prefix _
  rw [sameShortName, cutAtNul_eq_self h, strncmpEq_iff (hName ▸ hPrefix.length_le) (le_of_eq hLength')]
  constructor
  · intro hCut
    have hLen : (cutAtNul entry.name).length = entry.name.length := by rw [hCut, hLength', hName]
    rw [← hCut]
    exact (hPrefix.eq_of_length hLen).symm
  · intro hEq
    rw [cutAtNul_eq_self (hEq ▸ h), hEq]

/-! ## The entries that are made -/

/-- The first bytes of an entry that is made of a buffer. -/
theorem name_ofBytes (buf : Bytes) : (DirEntry.ofBytes buf).name = (List.range 11).map buf := by
  rw [DirEntry.name, DirEntry.ofBytes, ← List.map_take, List.take_range]
  rfl

/-- The high byte of the first unit of a fragment is zero. -/
theorem zero_mem_longName (junk : Junk) (entry : DirEntry) (fn : Bytes) (order : Nat) :
    0#8 ∈ (fat32MakeLfnEntry junk entry fn order).name := by
  have hUnit : (asciiToUtf16 fn 5 junk.name 0).toNat / 256 = 0 := by
    rw [asciiToUtf16]
    simp only
    split
    · have hByte := (fn 0).isLt
      rw [BitVec.toNat_setWidth, Nat.mod_eq_of_lt (by omega)]
      omega
    · split
      · rfl
      · omega
  rw [fat32MakeLfnEntry, name_ofBytes]
  refine List.mem_map.mpr ⟨2, by decide, ?_⟩
  simp only [putBytes, putLe, putUnits]
  simp [hUnit]

theorem attr_longName (junk : Junk) (entry : DirEntry) (fn : Bytes) (order : Nat) :
    (fat32MakeLfnEntry junk entry fn order).attr = attrLongName := by
  rw [fat32MakeLfnEntry, DirEntry.attr, DirEntry.bytes_ofBytes (by decide)]
  rfl

theorem length_longName (junk : Junk) (entry : DirEntry) (fn : Bytes) (order : Nat) :
    (fat32MakeLfnEntry junk entry fn order).length = 32 := length_ofBytes _

theorem length_shortEntry (entry : DirEntry) (fn : Str) : (fat32MakeSfnEntry entry fn).length = 32 :=
  length_ofBytes _

/-- The short entry has the name. -/
theorem name_shortEntry (entry : DirEntry) (fn : Str) :
    (fat32MakeSfnEntry entry fn).name = asciiToSfn fn := by
  have hLength := asciiToSfn_length fn
  rw [fat32MakeSfnEntry, name_ofBytes]
  refine List.ext_getElem (by rw [List.length_map, List.length_range, hLength]) fun k hk hk' => ?_
  have hLt : k < 11 := hLength ▸ hk'
  simp only [List.getElem_map, List.getElem_range]
  rw [putLe_of_lt _ (by omega), putLe_of_lt _ (by omega), putLe_of_lt _ (by omega),
    putLe_of_lt _ (by omega), putLe_of_lt _ (by omega), putLe_of_lt _ (by omega), putBytes,
    if_neg (by omega), putBytes, if_pos (by omega), Nat.sub_zero]
  simp [hk']

/-! ## What a walk does to the slots -/

/-- A slot after the walk: free, as before, a fragment, or the short entry. -/
inductive SlotNow (fn : Str) (old : Prop) (here : Prop) (entry : DirEntry) : Prop
  | free (hFree : slotFree entry = true)
  | kept (hOld : old)
  | long (hAttr : entry.attr = attrLongName) (hZero : 0#8 ∈ entry.name)
  | made (hHere : here) (hName : entry.name = asciiToSfn fn)

section Fill

variable {junk : Junk} {bpb : Fat32Bpb} {fn : Str} {cluster total : Nat}

/-- The drive holds what the buffer holds. -/
def Synced (bpb : Fat32Bpb) (disk : Disk) (cluster : Nat) (buf : Bytes) : Prop :=
  ∀ k, k < clusterBytes bpb → disk (clusterStart bpb cluster + k) = buf k

theorem Synced.entryAt_eq (hGeo : Geometry bpb) {disk : Disk} {buf : Bytes} {i : Nat}
    (h : Synced bpb disk cluster buf) (hi : i < entriesPerCluster bpb) :
    entryAt disk bpb cluster i = dirSlot buf i := by
  rw [entriesPerCluster_eq hGeo] at hi
  refine dirSlot_eq_of_sync fun k hk => ?_
  have hLt : 32 * i + k < clusterBytes bpb := by
    rw [clusterBytes]
    omega
  rw [readCluster_of_lt hLt]
  exact h _ hLt

/-- The slots after the loop over a cluster. -/
theorem fillSlots_slots (hGeo : Geometry bpb) {r : SlotFill} :
    ∀ {n i nrLfn : Nat} {disk : Disk} {buf : Bytes}, Synced bpb disk cluster buf →
      fillSlots junk bpb fn cluster total n i disk buf nrLfn = r →
      ∃ p, ∀ j, j < entriesPerCluster bpb →
        SlotNow fn (entryAt r.disk bpb cluster j = dirSlot buf j) (j = p ∧ ∃ disk', r = .done disk')
          (entryAt r.disk bpb cluster j) := by
  intro n
  induction n with
  | zero =>
      intro i nrLfn disk buf hSync h
      refine ⟨0, fun j hj => .kept ?_⟩
      rw [← h]
      exact hSync.entryAt_eq hGeo hj
  | succ n ih =>
      intro i nrLfn disk buf hSync h
      rw [fillSlots] at h
      split at h
      · split at h
        · -- a fragment is written to slot `i`
          obtain ⟨p, hSlots⟩ := ih (fun k hk => writeCluster_inside hk) h
          refine ⟨p, fun j hj => ?_⟩
          cases hSlots j hj with
          | free hFree => exact .free hFree
          | kept hOld =>
              by_cases hji : j = i
              · rw [hji, dirSlot_putSlot_self (length_longName _ _ _ _)] at hOld
                refine .long ?_ ?_
                · rw [hji, hOld]
                  exact attr_longName _ _ _ _
                · rw [hji, hOld]
                  exact zero_mem_longName _ _ _ _
              · rw [dirSlot_putSlot_of_ne hji] at hOld
                exact .kept hOld
          | long hAttr hZero => exact .long hAttr hZero
          | made hHere hName => exact .made hHere hName
        · refine ⟨i, fun j hj => ?_⟩
          rw [← h]
          have hSync' : Synced bpb (writeCluster disk bpb cluster
              (putSlot buf i (fat32MakeSfnEntry (dirSlot buf i) fn))) cluster
              (putSlot buf i (fat32MakeSfnEntry (dirSlot buf i) fn)) := fun k hk => writeCluster_inside hk
          have hEntry := hSync'.entryAt_eq hGeo hj
          by_cases hji : j = i
          · rw [hji, dirSlot_putSlot_self (length_shortEntry _ _)] at hEntry
            refine .made ⟨hji, _, rfl⟩ ?_
            rw [hji]
            exact (congrArg DirEntry.name hEntry).trans (name_shortEntry _ _)
          · rw [dirSlot_putSlot_of_ne hji] at hEntry
            exact .kept hEntry
      · exact ih hSync h

end Fill

/-- A cluster that no data is written to is read as before. -/
theorem VolumeWrote.readCluster_eq {bpb : Fat32Bpb} (hGeo : Geometry bpb) {disk disk' : Disk}
    {data : List Nat} (h : VolumeWrote bpb disk data disk') {c : Nat} (hc : IsCluster bpb c)
    (hNot : c ∉ data) : readCluster disk' bpb c zeroed = readCluster disk bpb c zeroed := by
  have hStart := dataStart_le_clusterStart hGeo hc
  refine readCluster_congr fun k hk => h.frame _ (by omega) fun d hd => ?_
  have hApart := clusterStart_disjoint hGeo hc (h.clusters d hd) fun hEq => hNot (hEq ▸ hd)
  omega

/-- What a walk from a cluster on does to the directory: its chain, the FAT, and the slots. -/
structure Entered (bpb : Fat32Bpb) (fn : Str) (disk : Disk) (cluster : Nat) (chain data : List Nat)
    (disk' : Disk) (chain' : List Nat) : Prop where
  grew : ChainGrew bpb disk cluster chain disk' chain'
  data : ∀ c ∈ data, c ∈ chain'
  slots : ∃ p : Nat × Nat, ∀ c ∈ chain', ∀ j, j < entriesPerCluster bpb →
    SlotNow fn (c ∈ chain ∧ entryAt disk' bpb c j = entryAt disk bpb c j) ((c, j) = p)
      (entryAt disk' bpb c j)

section Walk

variable {junk : Junk} {bpb : Fat32Bpb} {fn : Str} {total : Nat} (hGeo : Geometry bpb)
include hGeo

omit hGeo in
theorem mem_fillData {disk : Disk} {cluster c : Nat} (h : c ∈ fillData disk bpb cluster) : c = cluster := by
  rw [fillData] at h
  split at h
  · cases h
  · exact List.mem_singleton.mp h

/-- The slots of the cluster itself. -/
theorem fillSlots_entries {disk : Disk} {cluster nrLfn : Nat} {r : SlotFill}
    (hFill : fillSlots junk bpb fn cluster total (entriesPerCluster bpb) 0 disk
      (readCluster disk bpb cluster zeroed) nrLfn = r) :
    ∃ p, ∀ j, j < entriesPerCluster bpb →
      SlotNow fn (entryAt r.disk bpb cluster j = entryAt disk bpb cluster j)
        (j = p ∧ ∃ disk', r = .done disk') (entryAt r.disk bpb cluster j) :=
  fillSlots_slots hGeo (fun _ hk => (readCluster_of_lt hk).symm) hFill

/-- The walk ends in this cluster. -/
theorem entered_done {disk disk' : Disk} {cluster nrLfn : Nat} {chain : List Nat}
    (hCluster : IsCluster bpb cluster)
    (hFill : fillSlots junk bpb fn cluster total (entriesPerCluster bpb) 0 disk
      (readCluster disk bpb cluster zeroed) nrLfn = .done disk')
    (hChain : ChainFrom disk bpb cluster (cluster :: chain)) :
    Entered bpb fn disk cluster (cluster :: chain) (fillData disk bpb cluster ++ []) disk'
      (cluster :: chain) := by
  have hKept : KeptOutside bpb cluster disk disk' := fillSlots_kept hFill
  obtain ⟨p, hSlots⟩ := fillSlots_entries hGeo hFill
  refine ⟨.of_eq hChain fun c hc => fatEntry_of_keptOutside hGeo hCluster hc hKept, ?_, (cluster, p),
    fun c hc j hj => ?_⟩
  · intro c hc
    rw [List.append_nil] at hc
    rw [mem_fillData hc]
    exact List.mem_cons_self
  · by_cases hHead : c = cluster
    · rw [hHead]
      cases hSlots j hj with
      | free hFree => exact .free hFree
      | kept hOld => exact .kept ⟨List.mem_cons_self, hOld⟩
      | long hAttr hZero => exact .long hAttr hZero
      | made hHere hName => exact .made (by rw [hHere.1]) hName
    · refine .kept ⟨hc, ?_⟩
      rw [entryAt, entryAt, readCluster_of_keptOutside hGeo hCluster (hChain.isCluster hc) (Ne.symm hHead)
        hKept]

/-- The walk goes on: the first cluster of the chain is not written again. -/
theorem slots_cons {disk disk₁ disk₂ disk' : Disk} {cluster nrLfn nrLfn₁ : Nat}
    {chain chain₂ data chain' : List Nat} (hCluster : IsCluster bpb cluster)
    (hFill : fillSlots junk bpb fn cluster total (entriesPerCluster bpb) 0 disk
      (readCluster disk bpb cluster zeroed) nrLfn = .more disk₁ nrLfn₁)
    (hSame : readCluster disk₂ bpb cluster zeroed = readCluster disk₁ bpb cluster zeroed)
    (hNot : cluster ∉ chain')
    (hBefore : ∀ c ∈ chain₂, ∀ j, j < entriesPerCluster bpb →
      slotFree (entryAt disk₂ bpb c j) = true ∨
        c ∈ chain ∧ entryAt disk₂ bpb c j = entryAt disk bpb c j)
    {next : Nat} (hRest : Entered bpb fn disk₂ next chain₂ data disk' chain')
    (hWrote : VolumeWrote bpb disk₂ data disk') :
    ∃ p : Nat × Nat, ∀ c ∈ cluster :: chain', ∀ j, j < entriesPerCluster bpb →
      SlotNow fn (c ∈ cluster :: chain ∧ entryAt disk' bpb c j = entryAt disk bpb c j) ((c, j) = p)
        (entryAt disk' bpb c j) := by
  have hData : cluster ∉ data := fun hMem => hNot (hRest.data cluster hMem)
  have hEntry : ∀ j, entryAt disk' bpb cluster j = entryAt disk₁ bpb cluster j := by
    intro j
    rw [entryAt, entryAt, hWrote.readCluster_eq hGeo hCluster hData, hSame]
  obtain ⟨q, hFirst⟩ := fillSlots_entries hGeo hFill
  obtain ⟨p, hSlots⟩ := hRest.slots
  refine ⟨p, fun c hc j hj => ?_⟩
  by_cases hHead : c = cluster
  · rw [hHead, hEntry j]
    cases hFirst j hj with
    | free hFree => exact .free hFree
    | kept hOld => exact .kept ⟨List.mem_cons_self, hOld⟩
    | long hAttr hZero => exact .long hAttr hZero
    | made hHere _ =>
        obtain ⟨-, disk'', hDone⟩ := hHere
        cases hDone
  · have hIn : c ∈ chain' := (List.mem_cons.mp hc).resolve_left hHead
    cases hSlots c hIn j hj with
    | free hFree => exact .free hFree
    | kept hOld =>
        rw [hOld.2]
        rcases hBefore c hOld.1 j hj with hFree | ⟨hMem, hEq⟩
        · exact .free hFree
        · exact .kept ⟨List.mem_cons_of_mem _ hMem, hEq⟩
    | long hAttr hZero => exact .long hAttr hZero
    | made hHere hName => exact .made hHere hName

/-- A walk through a directory. -/
theorem Walked.entered {disk disk' : Disk} {cluster nrLfn : Nat} {data : List Nat}
    (h : Walked junk bpb fn total disk cluster nrLfn data disk') :
    ∀ {chain : List Nat}, ChainFrom disk bpb cluster chain →
      ∃ chain', Entered bpb fn disk cluster chain data disk' chain' := by
  induction h with
  | done hCluster hFill =>
      intro chain hChain
      obtain ⟨chain, rfl⟩ := hChain.eq_cons hCluster
      exact ⟨_, entered_done hGeo hCluster hFill hChain⟩
  | @next disk disk₁ disk' cluster nrLfn nrLfn₁ data hCluster hFill hRest ih =>
      -- the walk goes on in the next cluster of the chain; the first one is not on the rest of it
      intro chain hChain
      obtain ⟨chain, rfl⟩ := hChain.eq_cons hCluster
      have hHead := hChain.head_not_mem
      have hTail := hChain.2.2
      have hKept : KeptOutside bpb cluster disk disk₁ := fillSlots_kept hFill
      have hFat : ∀ d, d < fatCount bpb → fatEntry disk₁ bpb d = fatEntry disk bpb d :=
        fun d hd => fatEntry_of_keptOutside hGeo hCluster hd hKept
      obtain ⟨chain', hEntered⟩ := ih (hTail.congr fun d hd => hFat d (hTail.isCluster hd).lt_count)
      obtain ⟨hNot, hGrew⟩ := ChainGrew.cons hChain hFat hEntered.grew
      refine ⟨cluster :: chain', hGrew, ?_, slots_cons hGeo hCluster hFill rfl hNot ?_ hEntered
        (hRest.wrote hGeo)⟩
      · intro d hd
        rcases List.mem_append.mp hd with hIn | hIn
        · exact mem_fillData hIn ▸ List.mem_cons_self
        · exact List.mem_cons_of_mem _ (hEntered.data d hIn)
      · intro d hd j hj
        have hNe : cluster ≠ d := fun hEq => hHead (hEq ▸ hd)
        refine Or.inr ⟨hd, ?_⟩
        rw [entryAt, entryAt, readCluster_of_keptOutside hGeo hCluster (hTail.isCluster hd) hNe hKept]
  | @grown disk disk₁ disk₂ disk' cluster nrLfn nrLfn₁ new data hCluster hFill hEnd hAppended hRest ih =>
      -- the chain ends here and gets a cluster, all of whose slots are free
      intro chain hChain
      cases hChain.unique (ChainFrom.singleton hCluster hEnd)
      have hKept : KeptOutside bpb cluster disk disk₁ := fillSlots_kept hFill
      have hFat : ∀ d, d < fatCount bpb → fatEntry disk₁ bpb d = fatEntry disk bpb d :=
        fun d hd => fatEntry_of_keptOutside hGeo hCluster hd hKept
      obtain ⟨chain', hEntered⟩ := ih (ChainFrom.singleton hAppended.cluster (by
        rw [hAppended.mark]
        rfl))
      obtain ⟨hNot, hMemNew, hGrew⟩ := ChainGrew.appended hCluster hEnd hFat hAppended hEntered.grew
      have hSame := (VolumeWrote.of_appended hGeo hCluster hAppended).readCluster_eq hGeo hCluster
        fun hMem => hAppended.ne (List.mem_singleton.mp hMem).symm
      refine ⟨cluster :: chain', hGrew, ?_, slots_cons hGeo hCluster hFill hSame hNot ?_ hEntered
        (hRest.wrote hGeo)⟩
      · intro d hd
        rcases List.mem_append.mp hd with hIn | hIn
        · exact mem_fillData hIn ▸ List.mem_cons_self
        · rcases List.mem_cons.mp hIn with rfl | hIn
          · exact List.mem_cons_of_mem _ hMemNew
          · exact List.mem_cons_of_mem _ (hEntered.data d hIn)
      · intro d hd j hj
        apply Or.inl
        rw [List.mem_singleton.mp hd, entryAt]
        rw [entriesPerCluster_eq hGeo] at hj
        exact slotFree_of_zero hAppended.cleared hj

end Walk

/-! ## What is expected of a directory -/

/-- The short names are pairwise different, and the first write of a file updates its own entry and no
other. -/
structure ShortNames (disk : Disk) (bpb : Fat32Bpb) (dir : Nat) (chain : List Nat) : Prop where
  unique : ∀ c ∈ chain, ∀ i, i < entriesPerCluster bpb → ∀ d ∈ chain, ∀ j, j < entriesPerCluster bpb →
    LiveEntry (entryAt disk bpb c i) → LiveEntry (entryAt disk bpb d j) →
    (entryAt disk bpb d j).name = (entryAt disk bpb c i).name → d = c ∧ j = i
  search : ∀ c ∈ chain, ∀ i, i < entriesPerCluster bpb → LiveEntry (entryAt disk bpb c i) →
    ∀ fuel fp size r, fp.bpb = bpb → fp.parentEntry.firstCluster = dir →
      fp.entry.name = (entryAt disk bpb c i).name → firstWrite fuel disk fp size = some r →
      entryAt r.2 bpb c i = r.1 ∧
        ∀ d ∈ chain, ∀ j, j < entriesPerCluster bpb → ¬ (d = c ∧ j = i) →
          entryAt r.2 bpb d j = entryAt disk bpb d j

/-- No slot in use starts with the short name of another one, be it a short entry or a fragment of a long
name, and short names have no terminator in them. -/
structure DirNames (disk : Disk) (bpb : Fat32Bpb) (chain : List Nat) : Prop where
  distinct : ∀ c ∈ chain, ∀ i, i < entriesPerCluster bpb → LiveEntry (entryAt disk bpb c i) →
    ∀ d ∈ chain, ∀ j, j < entriesPerCluster bpb → slotFree (entryAt disk bpb d j) = false →
      (entryAt disk bpb d j).name = (entryAt disk bpb c i).name → d = c ∧ j = i
  plain : ∀ c ∈ chain, ∀ i, i < entriesPerCluster bpb → LiveEntry (entryAt disk bpb c i) →
    0#8 ∉ (entryAt disk bpb c i).name

/-- A slot is free or not by the first byte of its name. -/
theorem slotFree_congr {entry entry' : DirEntry} (h : entry.name = entry'.name) :
    slotFree entry = slotFree entry' := by
  have hFirst : ∀ e : DirEntry, e.name0 = e.name.getD 0 0#8 := by
    intro e
    cases e with
    | nil => rfl
    | cons b e => rfl
  rw [slotFree, slotFree, hFirst, hFirst, h]

theorem name_length {entry : DirEntry} (h : entry.length = 32) : entry.name.length = 11 := by
  rw [DirEntry.name, List.length_take, h]
  rfl

/-- The search compares the slots of the directory: only the entry itself has its name. -/
theorem DirNames.same_iff {disk : Disk} {bpb : Fat32Bpb} {chain : List Nat}
    (h : DirNames disk bpb chain) {c i : Nat} (hc : c ∈ chain) (hi : i < entriesPerCluster bpb)
    (hLive : LiveEntry (entryAt disk bpb c i)) {entry : DirEntry}
    (hName : entry.name = (entryAt disk bpb c i).name) {d j : Nat} (hd : d ∈ chain)
    (hj : j < entriesPerCluster bpb) :
    sameShortName (entryAt disk bpb d j) entry = true ↔ d = c ∧ j = i := by
  have hLength : entry.name.length = 11 := by
    rw [hName]
    exact name_length (entryAt_length _ _ _ _)
  rw [sameShortName_iff (entryAt_length _ _ _ _) hLength (hName ▸ h.plain c hc i hi hLive), hName]
  constructor
  · intro hSame
    have hUsed : slotFree (entryAt disk bpb d j) = false := by
      rw [slotFree_congr hSame]
      exact hLive.1
    exact h.distinct c hc i hi hLive d hd j hj hUsed hSame
  · rintro ⟨rfl, rfl⟩
    rfl

section Search

variable {bpb : Fat32Bpb} (hGeo : Geometry bpb)
include hGeo

/-- The loop over the directory finds the entry. -/
theorem updateFrom_own {disk : Disk} {entry : DirEntry} {size c i : Nat} {r : DirEntry × Disk}
    (hi : i < entriesPerCluster bpb) :
    ∀ {fuel cluster : Nat} {chain : List Nat}, ChainFrom disk bpb cluster chain → c ∈ chain →
      (∀ d ∈ chain, ∀ j, j < entriesPerCluster bpb →
        (sameShortName (entryAt disk bpb d j) entry = true ↔ d = c ∧ j = i)) →
      updateFrom bpb entry size disk fuel cluster = some r →
      r = (entry.setFileSize size,
        writeCluster disk bpb c (putSlot (readCluster disk bpb c zeroed) i (entry.setFileSize size))) := by
  intro fuel
  induction fuel with
  | zero =>
      intro cluster chain _ _ _ h
      cases h
  | succ fuel ih =>
      intro cluster chain hChain hc hSame h
      cases chain with
      | nil => cases hc
      | cons d chain =>
          obtain ⟨rfl, hCluster, hRest⟩ := hChain
          rw [updateFrom, hCluster.not_eoc, if_neg (by decide)] at h
          cases hMatch : matchSlot (readCluster disk bpb d zeroed) entry (entriesPerCluster bpb) with
          | some k =>
              have hFound : sameShortName (entryAt disk bpb d k) entry = true := by
                simpa [entryAt] using List.find?_some hMatch
              have hk : k < entriesPerCluster bpb := List.mem_range.mp (List.mem_of_find?_eq_some hMatch)
              obtain ⟨rfl, rfl⟩ := (hSame d List.mem_cons_self k hk).mp hFound
              simp only [hMatch] at h
              cases h
              rfl
          | none =>
              have hNe : c ≠ d := by
                rintro rfl
                have hNone := List.find?_eq_none.mp hMatch i (List.mem_range.mpr hi)
                exact hNone ((hSame c List.mem_cons_self i hi).mpr ⟨rfl, rfl⟩)
              simp only [hMatch, fatDefined_eq hGeo, if_true, fatWord_readFat hGeo] at h
              exact ih hRest ((List.mem_cons.mp hc).resolve_left hNe)
                (fun d' hd' => hSame d' (List.mem_cons_of_mem _ hd')) h

/-- The allocator leaves directories alone, also where it fails or returns a wrong number. -/
theorem allocCluster_kept {disk : Disk} (hBpb : readBpb disk = bpb) {cluster : Nat} {chain : List Nat}
    (hChain : ChainFrom disk bpb cluster chain) :
    ChainFrom (fat32AllocCluster disk).2 bpb cluster chain ∧
      ∀ c ∈ chain, readCluster (fat32AllocCluster disk).2 bpb c zeroed = readCluster disk bpb c zeroed := by
  rcases allocCluster_cases hGeo hBpb with ⟨hFull, -⟩ | ⟨s, i, hTaken⟩
  · rw [hFull]
    exact ⟨hChain, fun _ _ => rfl⟩
  · refine ⟨hChain.congr fun c hc => ?_, fun c hc => ?_⟩
    · refine hTaken.fat.kept c (hChain.isCluster hc).lt_count ?_
      rintro rfl
      exact hChain.word_ne_zero hc hTaken.free
    · have hStart := dataStart_le_clusterStart hGeo (hChain.isCluster hc)
      exact readCluster_congr fun k hk => hTaken.fat.frame _ (Or.inr (by omega))

omit hGeo in
theorem name_setFirstCluster {entry : DirEntry} (h : entry.name.length = 11) (cluster : Nat) :
    (entry.setFirstCluster cluster).name = entry.name := by
  have hLength : 11 ≤ List.length entry := by
    rw [DirEntry.name, List.length_take] at h
    omega
  rw [DirEntry.setFirstCluster, name_ofBytes]
  refine List.ext_getElem (by rw [List.length_map, List.length_range, h]) fun k hk hk' => ?_
  have hLt : k < 11 := h ▸ hk'
  simp only [List.getElem_map, List.getElem_range, DirEntry.name, List.getElem_take]
  rw [putLe_of_lt _ (by omega), putLe_of_lt _ (by omega), DirEntry.bytes]
  have hIn : k < List.length entry := by omega
  simp [hIn]

/-- The first write of a file replaces its own slot. -/
theorem firstWrite_own {disk : Disk} (hBpb : readBpb disk = bpb) {chain : List Nat}
    {fp : Fat32File} (hFp : fp.bpb = bpb)
    (hChain : ChainFrom disk bpb fp.parentEntry.firstCluster chain) (h : DirNames disk bpb chain)
    {c i : Nat} (hc : c ∈ chain) (hi : i < entriesPerCluster bpb) (hLive : LiveEntry (entryAt disk bpb c i))
    (hName : fp.entry.name = (entryAt disk bpb c i).name) {fuel size : Nat} {r : DirEntry × Disk}
    (hWrite : firstWrite fuel disk fp size = some r) :
    r.1 = (fp.entry.setFirstCluster (fat32AllocCluster disk).1).setFileSize size ∧
      r.2 = writeCluster (fat32AllocCluster disk).2 bpb c
        (putSlot (readCluster disk bpb c zeroed) i r.1) := by
  obtain ⟨hChain₁, hRead⟩ := allocCluster_kept hGeo hBpb hChain
  rw [firstWrite, hFp] at hWrite
  have hLength : fp.entry.name.length = 11 := by
    rw [hName]
    exact name_length (entryAt_length _ _ _ _)
  have hEntry : ∀ d ∈ chain, ∀ j, entryAt (fat32AllocCluster disk).2 bpb d j = entryAt disk bpb d j :=
    fun d hd j => by rw [entryAt, entryAt, hRead d hd]
  have hResult := updateFrom_own hGeo hi hChain₁ hc (fun d hd j hj => by
    rw [hEntry d hd j]
    exact h.same_iff hc hi hLive ((name_setFirstCluster hLength _).trans hName) hd hj) hWrite
  rw [hRead c hc] at hResult
  rw [hResult]
  exact ⟨rfl, rfl⟩

/-- A directory with such names is as expected. -/
theorem DirNames.shortNames {disk : Disk} (hBpb : readBpb disk = bpb) {dir : Nat} {chain : List Nat}
    (hChain : ChainFrom disk bpb dir chain) (h : DirNames disk bpb chain) :
    ShortNames disk bpb dir chain := by
  refine ⟨fun c hc i hi d hd j hj hLive hLive' => h.distinct c hc i hi hLive d hd j hj hLive'.1, ?_⟩
  intro c hc i hi hLive fuel fp size r hFp hParent hName hWrite
  obtain ⟨hEntry, hDisk⟩ := firstWrite_own hGeo hBpb hFp (hParent ▸ hChain) h hc hi hLive hName hWrite
  have hSync : Synced bpb r.2 c (putSlot (readCluster disk bpb c zeroed) i r.1) := by
    rw [hDisk]
    exact fun k hk => writeCluster_inside hk
  refine ⟨?_, fun d hd j hj hNe => ?_⟩
  · rw [hSync.entryAt_eq hGeo hi, dirSlot_putSlot_self (by rw [hEntry]; exact length_ofBytes _)]
  · by_cases hdc : d = c
    · have hji : j ≠ i := fun hEq => hNe ⟨hdc, hEq⟩
      rw [hdc, hSync.entryAt_eq hGeo hj, dirSlot_putSlot_of_ne hji]
      rfl
    · rw [hDisk, entryAt, entryAt, readCluster_of_keptOutside hGeo (hChain.isCluster hc)
        (hChain.isCluster hd) (Ne.symm hdc) (keptOutside_writeCluster _ _ _ _),
        (allocCluster_kept hGeo hBpb hChain).2 d hd]

end Search

/-! ## Runs -/

/-- Files are created in the directory `dir`, each in a state that meets `Cond`; paths are C strings. -/
inductive CreateRun (dir : Nat) (Cond : Disk → Str → Prop) (disk₀ : Disk) : List Str → Disk → Prop
  | nil : CreateRun dir Cond disk₀ [] disk₀
  | snoc {paths : List Str} {disk disk' : Disk} {path : Str} (fuel : Nat) (junk : Junk)
      (hRun : CreateRun dir Cond disk₀ paths disk) (hCond : Cond disk path) (hPath : 0#8 ∉ path)
      (hDir : parentCluster fuel junk disk path = some dir)
      (hCall : fat32Create fuel junk disk path = some (0, disk')) :
      CreateRun dir Cond disk₀ (paths ++ [path]) disk'

/-- The directory has room, and no slot in use starts with the short name that the path gets. -/
structure NameFree (dir : Nat) (disk : Disk) (path : Str) : Prop where
  served : CreateServed disk path
  fresh : ∀ fn rest chain, pathNext path = some (fn, rest) →
    ChainFrom disk (readBpb disk) dir chain → ∀ c ∈ chain, ∀ i, i < entriesPerCluster (readBpb disk) →
      slotFree (entryAt disk (readBpb disk) c i) = false →
      (entryAt disk (readBpb disk) c i).name ≠ asciiToSfn fn

theorem zero_not_mem_pathNext {path fn rest : Str} (h : 0#8 ∉ path) (hNext : pathNext path = some (fn, rest)) :
    0#8 ∉ fn := by
  rw [pathNext] at hNext
  split at hNext
  · cases hNext
  · cases hNext
    intro hMem
    exact h ((List.dropWhile_suffix _).subset ((List.takeWhile_prefix _).subset hMem))

/-- A walk that enters a new name keeps the names of the directory apart. -/
theorem DirNames.entered {bpb : Fat32Bpb} {fn : Str} {disk disk' : Disk} {dir : Nat}
    {chain data chain' : List Nat} (h : DirNames disk bpb chain) (hPlain : 0#8 ∉ fn)
    (hFresh : ∀ c ∈ chain, ∀ i, i < entriesPerCluster bpb → slotFree (entryAt disk bpb c i) = false →
      (entryAt disk bpb c i).name ≠ asciiToSfn fn)
    (hEntered : Entered bpb fn disk dir chain data disk' chain') : DirNames disk' bpb chain' := by
  have hSfn := asciiToSfn_ne_zero hPlain
  obtain ⟨p, hSlots⟩ := hEntered.slots
  constructor
  · intro c hc i hi hLive d hd j hj hUsed hSame
    cases hSlots c hc i hi with
    | free hFree =>
        rw [hLive.1] at hFree
        cases hFree
    | long hAttr _ => exact absurd hAttr hLive.2
    | kept hOld =>
        -- the entry was there before: so was the other slot, by its name
        rw [hOld.2] at hLive hSame
        cases hSlots d hd j hj with
        | free hFree =>
            rw [hUsed] at hFree
            cases hFree
        | kept hOld' =>
            rw [hOld'.2] at hUsed hSame
            exact h.distinct c hOld.1 i hi hLive d hOld'.1 j hj hUsed hSame
        | long _ hZero =>
            rw [hSame] at hZero
            exact absurd hZero (h.plain c hOld.1 i hi hLive)
        | made _ hName =>
            rw [hName] at hSame
            exact absurd hSame.symm (hFresh c hOld.1 i hi hLive.1)
    | made hHere hName =>
        rw [hName] at hSame
        cases hSlots d hd j hj with
        | free hFree =>
            rw [hUsed] at hFree
            cases hFree
        | kept hOld' =>
            rw [hOld'.2] at hUsed hSame
            exact absurd hSame (hFresh d hOld'.1 j hj hUsed)
        | long _ hZero =>
            rw [hSame] at hZero
            exact absurd hZero hSfn
        | made hHere' _ =>
            have hEq := hHere'.trans hHere.symm
            rw [Prod.mk.injEq] at hEq
            exact hEq
  · intro c hc i hi hLive
    cases hSlots c hc i hi with
    | free hFree =>
        rw [hLive.1] at hFree
        cases hFree
    | kept hOld =>
        rw [hOld.2] at hLive ⊢
        exact h.plain c hOld.1 i hi hLive
    | long hAttr _ => exact absurd hAttr hLive.2
    | made _ hName =>
        rw [hName]
        exact hSfn

/-- One call. -/
theorem fat32Create_names {bpb : Fat32Bpb} (hGeo : Geometry bpb) {fuel : Nat} {junk : Junk}
    {disk disk' : Disk} {path : Str} {dir : Nat} {chain : List Nat} (hHead : HeadOk bpb disk)
    (hChain : ChainFrom disk bpb dir chain) (hNames : DirNames disk bpb chain)
    (hCond : NameFree dir disk path) (hPath : 0#8 ∉ path)
    (hDir : parentCluster fuel junk disk path = some dir)
    (h : fat32Create fuel junk disk path = some (0, disk')) :
    HeadOk bpb disk' ∧ ∃ chain', ChainFrom disk' bpb dir chain' ∧ DirNames disk' bpb chain' := by
  have hBpb := hHead.bpb_eq
  rcases fat32Create_cases h with ⟨hRet, -⟩ |
    ⟨-, found, fn, rest, cluster, hLookup, hNe, hNext, hParent, hWalk⟩
  · cases hRet
  · cases hDir.symm.trans hParent
    obtain ⟨chain₁, hRoom⟩ := hCond.served fuel junk found fn rest dir hLookup hNe hNext hDir
    have hFresh := hCond.fresh fn rest chain hNext (by rw [hBpb]; exact hChain)
    rw [hBpb] at hRoom hWalk hFresh
    have hWalked := createFrom_walked hGeo hHead hRoom hWalk
    obtain ⟨chain', hEntered⟩ := hWalked.entered hGeo hChain
    exact ⟨(hWalked.wrote hGeo).head hGeo hHead, chain', hEntered.grew.linked,
      hNames.entered (zero_not_mem_pathNext hPath hNext) hFresh hEntered⟩

/-- In every run of which each name gets a short name that the directory does not have, the short names
stay pairwise different, and a first write finds the entry of its file. -/
theorem shortNames_of_run {dir : Nat} {disk disk' : Disk} {chain : List Nat} {paths : List Str}
    (hGeo : Geometry (readBpb disk))
    (hMedia : fatEntry disk (readBpb disk) 0 ≠ 0 ∧ fatEntry disk (readBpb disk) 1 ≠ 0)
    (hChain : ChainFrom disk (readBpb disk) dir chain) (hStart : DirNames disk (readBpb disk) chain)
    (h : CreateRun dir (NameFree dir) disk paths disk') :
    ∃ chain', ChainFrom disk' (readBpb disk) dir chain' ∧
      ShortNames disk' (readBpb disk) dir chain' := by
  have hInv : HeadOk (readBpb disk) disk' ∧ ∃ chain', ChainFrom disk' (readBpb disk) dir chain' ∧
      DirNames disk' (readBpb disk) chain' := by
    induction h with
    | nil => exact ⟨⟨rfl, hMedia⟩, chain, hChain, hStart⟩
    | snoc fuel junk _ hCond hPath hDir hCall ih =>
        obtain ⟨hHead, chain', hChain', hNames⟩ := ih
        exact fat32Create_names hGeo hHead hChain' hNames hCond hPath hDir hCall
  obtain ⟨hHead, chain', hChain', hNames⟩ := hInv
  exact ⟨chain', hChain', hNames.shortNames hGeo hHead.bpb_eq hChain'⟩

/-! ## The sample volume -/

theorem sampleVolume_bpb : readBpb sampleVolume = ⟨512, 1, 1, 1, 1, 2⟩ := by decide

theorem sampleVolume_rootChain : ChainFrom sampleVolume (readBpb sampleVolume) 2 [2] := by
  rw [sampleVolume_bpb]
  exact .singleton ⟨by decide, by decide, by decide⟩ (by decide)

/-- The root directory has one entry. -/
theorem sampleVolume_names : DirNames sampleVolume (readBpb sampleVolume) [2] := by
  rw [sampleVolume_bpb]
  have hUsed : ∀ i, i < 16 → slotFree (entryAt sampleVolume ⟨512, 1, 1, 1, 1, 2⟩ 2 i) = false → i = 0 := by
    decide
  have hPlain : 0#8 ∉ (entryAt sampleVolume ⟨512, 1, 1, 1, 1, 2⟩ 2 0).name := by
    decide
  constructor
  · intro c hc i hi hLive d hd j hj hUsed' _
    cases List.mem_singleton.mp hc
    cases List.mem_singleton.mp hd
    exact ⟨rfl, (hUsed j hj hUsed').trans (hUsed i hi hLive.1).symm⟩
  · intro c hc i hi hLive
    cases List.mem_singleton.mp hc
    rw [hUsed i hi hLive.1]
    exact hPlain

/-- The name of `/A` is free. -/
theorem sampleVolume_nameFree : NameFree 2 sampleVolume [slash, 0x41#8] := by
  have hName : pathNext [slash, 0x41#8] = some ([0x41#8], []) := by decide
  constructor
  · intro fuel junk found fn rest cluster _ _ hNext hParent
    have hRoot : parentCluster fuel junk sampleVolume [slash, 0x41#8] = some 2 := if_pos (by decide)
    cases hName.symm.trans hNext
    cases hRoot.symm.trans hParent
    refine ⟨[2], sampleVolume_rootChain, List.cons_ne_nil _ _, ?_⟩
    rw [List.map_singleton, List.sum_singleton, sampleVolume_bpb]
    refine Nat.le_trans ?_ (Nat.le_add_right _ _)
    decide
  · intro fn rest chain hNext hChain c hc i hi hUsed
    cases hName.symm.trans hNext
    cases hChain.unique sampleVolume_rootChain
    cases List.mem_singleton.mp hc
    rw [sampleVolume_bpb] at hi hUsed ⊢
    revert hUsed
    revert i
    decide

/-- `/A` is created in the root directory. -/
theorem shortNames_of_run_root : ∃ disk' chain', CreateRun 2 (NameFree 2) sampleVolume [[slash, 0x41#8]] disk' ∧
    ChainFrom disk' (readBpb sampleVolume) 2 chain' ∧
    ShortNames disk' (readBpb sampleVolume) 2 chain' := by
  have hRun : (fat32Create 3 sampleJunk sampleVolume [slash, 0x41#8]).map (·.1) = some 0 := by
    decide
  obtain ⟨⟨ret, disk'⟩, hCreate, hRet⟩ := Option.map_eq_some_iff.mp hRun
  cases hRet
  have hCreated : CreateRun 2 (NameFree 2) sampleVolume [[slash, 0x41#8]] disk' :=
    .snoc 3 sampleJunk .nil sampleVolume_nameFree (by decide) (if_pos (by decide)) hCreate
  obtain ⟨chain', hNames⟩ := shortNames_of_run sampleVolume_consistent.geometry
    sampleVolume_consistent.media sampleVolume_rootChain sampleVolume_names hCreated
  exact ⟨disk', chain', hCreated, hNames⟩

/-- `/aaaaaaaa1` and `/aaaaaaaa2` both get the short name `AAAAAA~1`. -/
theorem alias_twice : DirNames sampleVolume (readBpb sampleVolume) [2] ∧
    ∃ disk', CreateRun 2 (fun _ _ => True) sampleVolume
      [slash :: List.replicate 8 0x61#8 ++ [0x31#8], slash :: List.replicate 8 0x61#8 ++ [0x32#8]] disk' ∧
    ∀ chain', ChainFrom disk' (readBpb sampleVolume) 2 chain' →
      ¬ ShortNames disk' (readBpb sampleVolume) 2 chain' := by
  have hRun : ((fat32Create 3 sampleJunk sampleVolume (slash :: List.replicate 8 0x61#8 ++ [0x31#8])).bind
      fun r => (fat32Create 3 sampleJunk r.2 (slash :: List.replicate 8 0x61#8 ++ [0x32#8])).map fun r' =>
        (r.1, r'.1, fatEntry r'.2 ⟨512, 1, 1, 1, 1, 2⟩ 2,
          decide (LiveEntry (entryAt r'.2 ⟨512, 1, 1, 1, 1, 2⟩ 2 2)),
          decide (LiveEntry (entryAt r'.2 ⟨512, 1, 1, 1, 1, 2⟩ 2 4)),
          decide ((entryAt r'.2 ⟨512, 1, 1, 1, 1, 2⟩ 2 4).name =
            (entryAt r'.2 ⟨512, 1, 1, 1, 1, 2⟩ 2 2).name))) =
      some (0, 0, 0x0fffffff, true, true, true) := by
    decide +kernel
  obtain ⟨⟨ret, disk₁⟩, hFirst, hRest⟩ := Option.bind_eq_some_iff.mp hRun
  obtain ⟨⟨ret', disk₂⟩, hSecond, hEq⟩ := Option.map_eq_some_iff.mp hRest
  simp only [Prod.mk.injEq, decide_eq_true_eq] at hEq
  obtain ⟨rfl, rfl, hEnd, hLive, hLive', hSame⟩ := hEq
  refine ⟨sampleVolume_names, disk₂, ?_, fun chain' hChain' hNames => ?_⟩
  · exact (CreateRun.nil.snoc 3 sampleJunk trivial (by decide) (if_pos (by decide)) hFirst).snoc 3
      sampleJunk trivial (by decide) (if_pos (by decide)) hSecond
  · rw [sampleVolume_bpb] at hChain' hNames
    have hChain : ChainFrom disk₂ ⟨512, 1, 1, 1, 1, 2⟩ 2 [2] :=
      .singleton ⟨by decide, by decide, by decide⟩ (by rw [hEnd]; rfl)
    rw [hChain'.unique hChain] at hNames
    have hTwo := hNames.unique 2 (List.mem_singleton_self 2) 2 (by decide) 2 (List.mem_singleton_self 2) 4
      (by decide) hLive hLive' hSame
    exact absurd hTwo.2 (by decide)

end Rayos
