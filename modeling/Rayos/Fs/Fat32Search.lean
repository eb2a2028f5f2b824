import Rayos.Fs.Fat32Codec

/-!
# Searching a directory (`fat32_foreach_dirent`)

A directory is the list of the entries of its clusters.  The search goes through it with a buffer for the
fragments of a long name, which is cleared after every entry that is compared; a deleted entry is passed over.

The result is `-1` when a free entry has been met or an entry has been compared.  A directory that ends with its
chain and has only deleted entries and fragments leaves `ret` as it was, which is not set.
-/

namespace Rayos

open CString

/-! ## Directories as lists -/

/-- The link that is followed from a cluster. -/
def fatLink (disk : Disk) (bpb : Fat32Bpb) (cluster : Nat) : Nat :=
  fatWord (readFat disk bpb cluster zeroed) (fatIndex bpb cluster)

/-- The clusters of the path are linked from a cluster on, and the next link is `next`. -/
def Leads (disk : Disk) (bpb : Fat32Bpb) : Nat → List Nat → Nat → Prop
  | cluster, [], next => next = cluster
  | cluster, c :: path, next =>
      c = cluster ∧ fat32Eoc cluster = false ∧ fatDefined bpb = true ∧
        Leads disk bpb (fatLink disk bpb cluster) path next

/-- The links that are followed from a cluster end: the clusters on the way. -/
def EndsIn (disk : Disk) (bpb : Fat32Bpb) (cluster : Nat) (chain : List Nat) : Prop :=
  ∃ next, Leads disk bpb cluster chain next ∧ fat32Eoc next = true

/-- The entries of a cluster. -/
def clusterEntries (disk : Disk) (bpb : Fat32Bpb) (cluster : Nat) : List DirEntry :=
  (List.range (entriesPerCluster bpb)).map (entryAt disk bpb cluster)

/-- The entries of a directory. -/
def dirEntries (disk : Disk) (bpb : Fat32Bpb) (chain : List Nat) : List DirEntry :=
  chain.flatMap (clusterEntries disk bpb)

/-! ## What is searched for -/

/-- The fragments behind the last live entry. -/
def fragments (before : List DirEntry) : List DirEntry :=
  ((before.reverse.takeWhile fun e => ¬ LiveEntry e).filter fun e => !slotFree e).reverse

/-- The name of an entry: what the fragments before it make, or else its short name. -/
def entryName (before : List DirEntry) (entry : DirEntry) : Str :=
  lookupName entry (lfnConcat (fragments before) zeroed)

/-- A live entry with the name, and no free entry before it. -/
structure Hit (target : Str) (before : List DirEntry) (entry : DirEntry) : Prop where
  noEnd : ∀ e ∈ before, e.name0 ≠ sfnName0Free
  live : LiveEntry entry
  name : entryName before entry = target

/-- None of the entries is a hit. -/
def NoHit (target : Str) (before entries : List DirEntry) : Prop :=
  ∀ p e q, entries = p ++ e :: q → ¬ Hit target (before ++ p) e

/-- The first entry with the name is copied and 0 returned, or there is none and the result is negative. -/
def SearchResult (entries : List DirEntry) (target : Str) (r : Int × Option DirEntry) : Prop :=
  (∃ p e q, entries = p ++ e :: q ∧ Hit target p e ∧ NoHit target [] p ∧ r = (0, some e)) ∨
    (NoHit target [] entries ∧ r.1 < 0)

/-! ## The walk over the list -/

/-- The search over a list of entries. -/
def scanEntries (target : Str) : List DirEntry → Bytes → Int → SlotScan
  | [], lfn, ret => .more lfn ret
  | entry :: entries, lfn, ret =>
      if entry.name0 = sfnName0Free then .ended
      else if entry.name0 = sfnName0Deleted then scanEntries target entries lfn ret
      else if entry.attr = attrLongName then scanEntries target entries (fat32LfnConcat entry lfn) ret
      else if fat32Compare entry lfn target then .found entry
      else scanEntries target entries zeroed (-1)

/-- What `fat32_foreach_dirent` returns. -/
def SlotScan.result : SlotScan → Int × Option DirEntry
  | .found entry => (0, some entry)
  | .ended => (-1, none)
  | .more _ ret => (ret, none)

theorem scanSlots_eq (buf : Bytes) (target : Str) (n i : Nat) (lfn : Bytes) (ret : Int) :
    scanSlots buf target n i lfn ret = scanEntries target ((List.range' i n).map (dirSlot buf)) lfn ret := by
  induction n generalizing i lfn ret with
  | zero => rfl
  | succ n ih =>
      rw [List.range'_succ, List.map_cons, scanSlots, scanEntries]
      simp only [ih]

/-- The walk goes on from one part of the list to the next. -/
theorem scanEntries_append (target : Str) (entries rest : List DirEntry) (lfn : Bytes) (ret : Int) :
    scanEntries target (entries ++ rest) lfn ret =
      match scanEntries target entries lfn ret with
      | .more lfn ret => scanEntries target rest lfn ret
      | r => r := by
  induction entries generalizing lfn ret with
  | nil => rfl
  | cons entry entries ih =>
      rw [List.cons_append, scanEntries, scanEntries]
      split_ifs
      · rfl
      · exact ih lfn ret
      · exact ih _ ret
      · rfl
      · exact ih zeroed (-1)

/-- The walk has not come to the end of the list. -/
def SlotScan.Stops : SlotScan → Prop
  | .found _ | .ended => True
  | .more _ _ => False

theorem scanSlots_cluster (disk : Disk) (bpb : Fat32Bpb) (cluster : Nat) (target : Str) (lfn : Bytes) (ret : Int) :
    scanSlots (readCluster disk bpb cluster zeroed) target (entriesPerCluster bpb) 0 lfn ret =
      scanEntries target (clusterEntries disk bpb cluster) lfn ret := by
  rw [scanSlots_eq, ← List.range_eq_range']
  rfl

/-- Along a path after which the links end, or on which the walk stops. -/
theorem foreachFrom_leads {disk : Disk} {bpb : Fat32Bpb} {target : Str} :
    ∀ (path : List Nat) {fuel cluster next : Nat} {lfn : Bytes} {ret : Int}, Leads disk bpb cluster path next →
      fat32Eoc next = true ∨ (scanEntries target (dirEntries disk bpb path) lfn ret).Stops →
      path.length < fuel → foreachFrom disk bpb target fuel cluster lfn ret =
        some (scanEntries target (dirEntries disk bpb path) lfn ret).result
  | _, 0, _, _, _, _, _, _, hFuel => absurd hFuel (Nat.not_lt_zero _)
  | [], fuel + 1, cluster, next, lfn, ret, hLeads, hEnd, _ => by
      have hNext : next = cluster := hLeads
      have hEoc : fat32Eoc cluster = true := hNext ▸ hEnd.resolve_right id
      rw [foreachFrom, if_pos hEoc]
      rfl
  | _ :: path, fuel + 1, cluster, next, lfn, ret, ⟨rfl, hEoc, hDefined, hRest⟩, hEnd, hFuel => by
      have hList : dirEntries disk bpb (cluster :: path) =
          clusterEntries disk bpb cluster ++ dirEntries disk bpb path := List.flatMap_cons
      rw [hList, scanEntries_append] at hEnd ⊢
      rw [foreachFrom, hEoc, if_neg (by decide), scanSlots_cluster]
      cases hScan : scanEntries target (clusterEntries disk bpb cluster) lfn ret with
      | found entry => rfl
      | ended => rfl
      | more lfn ret =>
          rw [hScan] at hEnd
          simp only at hEnd ⊢
          rw [if_pos hDefined]
          exact foreachFrom_leads path hRest hEnd (Nat.lt_of_succ_lt_succ hFuel)

/-! ## The fragments -/

section Fragments

variable {before : List DirEntry} {entry : DirEntry}

theorem fragments_live (h : LiveEntry entry) : fragments (before ++ [entry]) = [] := by
  unfold fragments
  rw [List.reverse_append, List.reverse_singleton, List.singleton_append,
    List.takeWhile_cons_of_neg (by simpa using h)]
  rfl

theorem fragments_free (h : slotFree entry = true) : fragments (before ++ [entry]) = fragments before := by
  have hNot : ¬ LiveEntry entry := fun hLive => by
    rw [hLive.1] at h
    cases h
  unfold fragments
  rw [List.reverse_append, List.reverse_singleton, List.singleton_append,
    List.takeWhile_cons_of_pos (by simpa using hNot), List.filter_cons_of_neg (by simp [h])]

theorem fragments_long (hUsed : slotFree entry = false) (hAttr : entry.attr = attrLongName) :
    fragments (before ++ [entry]) = fragments before ++ [entry] := by
  have hNot : ¬ LiveEntry entry := fun hLive => hLive.2 hAttr
  unfold fragments
  rw [List.reverse_append, List.reverse_singleton, List.singleton_append,
    List.takeWhile_cons_of_pos (by simpa using hNot), List.filter_cons_of_pos (by simp [hUsed]), List.reverse_cons]

end Fragments

/-- `strncmp` up to the terminator of the second string. -/
theorem strncmpEq_succ_length : ∀ s1 s2 : Str, strncmpEq s1 s2 (s2.length + 1) = true ↔ s1 = s2
  | [], [] => by simp [strncmpEq]
  | [], b :: s2 => by simp [strncmpEq]
  | a :: s1, [] => by simp [strncmpEq]
  | a :: s1, b :: s2 => by
      rw [List.length_cons, strncmpEq, Bool.and_eq_true, beq_iff_eq, strncmpEq_succ_length s1 s2, List.cons.injEq]

/-! ## What the walk finds -/

/-- An entry before the others is no hit, and none of the others is. -/
theorem NoHit.cons {target : Str} {before entries : List DirEntry} {entry : DirEntry}
    (hEntry : ¬ Hit target before entry) (h : NoHit target (before ++ [entry]) entries) :
    NoHit target before (entry :: entries) := by
  intro p e q hSplit
  cases p with
  | nil =>
      rw [List.nil_append, List.cons.injEq] at hSplit
      rw [List.append_nil, ← hSplit.1]
      exact hEntry
  | cons d p =>
      rw [List.cons_append, List.cons.injEq] at hSplit
      obtain ⟨rfl, hRest⟩ := hSplit
      rw [List.append_cons]
      exact h p e q hRest

/-- After a free entry there are no hits. -/
theorem noHit_of_free {target : Str} {before entries : List DirEntry} {entry : DirEntry}
    (h : entry.name0 = sfnName0Free) : NoHit target before (entry :: entries) := by
  apply NoHit.cons
  · intro hHit
    have hUsed := hHit.live.1
    simp [slotFree, h] at hUsed
  · intro p e q _ hHit
    exact hHit.noEnd entry (by simp) h

/-- What a walk that has come through the entries of `before` has found. -/
inductive Scanned (target : Str) (before entries : List DirEntry) (ret : Int) : SlotScan → Prop where
  | found {p q : List DirEntry} {entry : DirEntry} (split : entries = p ++ entry :: q)
      (hit : Hit target (before ++ p) entry) (first : NoHit target before p) :
      Scanned target before entries ret (.found entry)
  | ended {entry : DirEntry} (mem : entry ∈ entries) (free : entry.name0 = sfnName0Free)
      (none : NoHit target before entries) : Scanned target before entries ret .ended
  | more {lfn : Bytes} {ret' : Int} (noEnd : ∀ e ∈ entries, e.name0 ≠ sfnName0Free)
      (none : NoHit target before entries) (compared : (∃ e ∈ entries, LiveEntry e) → ret' = -1)
      (unset : (∀ e ∈ entries, ¬ LiveEntry e) → ret' = ret) :
      Scanned target before entries ret (.more lfn ret')

/-- An entry that is no hit, before the walk. -/
theorem Scanned.cons {target : Str} {before entries : List DirEntry} {entry : DirEntry} {ret ret' : Int}
    {r : SlotScan} (hEnd : entry.name0 ≠ sfnName0Free) (hEntry : ¬ Hit target before entry)
    (hRet : (LiveEntry entry ∧ ret' = -1) ∨ (¬ LiveEntry entry ∧ ret' = ret))
    (h : Scanned target (before ++ [entry]) entries ret' r) : Scanned target before (entry :: entries) ret r := by
  cases h with
  | found split hit first =>
      rw [List.append_assoc, List.singleton_append] at hit
      exact .found (by rw [split, List.cons_append]) hit (NoHit.cons hEntry first)
  | ended mem free none => exact .ended (List.mem_cons_of_mem _ mem) free (NoHit.cons hEntry none)
  | more noEnd none compared unset =>
      refine .more (List.forall_mem_cons.mpr ⟨hEnd, noEnd⟩) (NoHit.cons hEntry none) ?_ ?_
      · rintro ⟨e, he, hLive⟩
        by_cases hLater : ∃ e ∈ entries, LiveEntry e
        · exact compared hLater
        · have hNone : ∀ e ∈ entries, ¬ LiveEntry e := fun e he hLive => hLater ⟨e, he, hLive⟩
          rcases List.mem_cons.mp he with rfl | hIn
          · rcases hRet with ⟨-, hRet⟩ | ⟨hNot, -⟩
            · rw [unset hNone, hRet]
            · exact absurd hLive hNot
          · exact absurd hLive (hNone e hIn)
      · intro hNone
        obtain ⟨hNot, hRest⟩ := List.forall_mem_cons.mp hNone
        rcases hRet with ⟨hLive, -⟩ | ⟨-, hRet⟩
        · exact absurd hLive hNot
        · rw [unset hRest, hRet]

/-- The walk, from any entry on; the buffer has the fragments before it. -/
theorem scanEntries_scanned {target : Str} (entries : List DirEntry) (before : List DirEntry) (ret : Int)
    (hBefore : ∀ e ∈ before, e.name0 ≠ sfnName0Free) :
    Scanned target before entries ret (scanEntries target entries (lfnConcat (fragments before) zeroed) ret) := by
  induction entries generalizing before ret with
  | nil =>
      refine .more (List.forall_mem_nil _) ?_ ?_ (fun _ => rfl)
      · intro p e q hSplit
        exact absurd hSplit (by simp)
      · rintro ⟨e, he, -⟩
        cases he
  | cons entry entries ih =>
      rw [scanEntries]
      by_cases hFree : entry.name0 = sfnName0Free
      · -- the walk ends at the first entry that has never been used
        rw [if_pos hFree]
        exact .ended List.mem_cons_self hFree (noHit_of_free hFree)
      · have hBefore' : ∀ e ∈ before ++ [entry], e.name0 ≠ sfnName0Free := by
          intro e he
          rcases List.mem_append.mp he with hIn | hLast
          · exact hBefore e hIn
          · rw [List.mem_singleton.mp hLast]
            exact hFree
        rw [if_neg hFree]
        by_cases hDeleted : entry.name0 = sfnName0Deleted
        · -- a deleted entry leaves the buffer as it is
          have hSlot : slotFree entry = true := by simp [slotFree, hDeleted]
          have hNot : ¬ LiveEntry entry := fun hLive => by
            rw [hLive.1] at hSlot
            cases hSlot
          rw [if_pos hDeleted, ← fragments_free hSlot]
          exact .cons hFree (fun hHit => hNot hHit.live) (Or.inr ⟨hNot, rfl⟩) (ih _ ret hBefore')
        · have hSlot : slotFree entry = false := by simp [slotFree, hFree, hDeleted]
          rw [if_neg hDeleted]
          by_cases hLong : entry.attr = attrLongName
          · -- a fragment is added
            have hNot : ¬ LiveEntry entry := fun hLive => hLive.2 hLong
            have hConcat : fat32LfnConcat entry (lfnConcat (fragments before) zeroed) =
                lfnConcat (fragments (before ++ [entry])) zeroed := by
              rw [fragments_long hSlot hLong, lfnConcat, lfnConcat, List.foldl_append]
              rfl
            rw [if_pos hLong, hConcat]
            exact .cons hFree (fun hHit => hNot hHit.live) (Or.inr ⟨hNot, rfl⟩) (ih _ ret hBefore')
          · -- a live entry is compared
            have hLive : LiveEntry entry := ⟨hSlot, hLong⟩
            have hCompare : fat32Compare entry (lfnConcat (fragments before) zeroed) target = true ↔
                entryName before entry = target := by
              unfold fat32Compare
              simp only
              rw [strncmpEq_succ_length, eq_comm]
              rfl
            rw [if_neg hLong]
            by_cases hName : entryName before entry = target
            · rw [if_pos (hCompare.mpr hName)]
              refine .found (p := []) rfl ⟨?_, hLive, ?_⟩ ?_
              · rw [List.append_nil]
                exact hBefore
              · rw [List.append_nil]
                exact hName
              · intro p e q hSplit
                exact absurd hSplit (by simp)
            · -- the buffer is cleared behind a live entry
              have hClear : zeroed = lfnConcat (fragments (before ++ [entry])) zeroed := by
                rw [fragments_live hLive]
                rfl
              rw [if_neg (fun h => hName (hCompare.mp h)), hClear]
              exact .cons hFree (fun hHit => hName hHit.name) (Or.inl ⟨hLive, rfl⟩) (ih _ (-1) hBefore')

/-- The walk over a directory from its start on. -/
theorem scanEntries_start (target : Str) (entries : List DirEntry) (ret : Int) :
    Scanned target [] entries ret (scanEntries target entries zeroed ret) := by
  have hStart : lfnConcat (fragments []) zeroed = zeroed := rfl
  rw [← hStart]
  exact scanEntries_scanned entries [] ret (List.forall_mem_nil _)

/-- What is returned is what there is, or `ret` has not been set. -/
theorem searchResult_iff {target : Str} (entries : List DirEntry) (ret : Int) :
    SearchResult entries target (scanEntries target entries zeroed ret).result ↔
      (∃ e ∈ entries, e.name0 = sfnName0Free ∨ LiveEntry e) ∨ ret < 0 := by
  have hScan := scanEntries_start target entries ret
  generalize scanEntries target entries zeroed ret = r at hScan
  cases hScan with
  | found split hit first =>
      rw [List.nil_append] at hit
      constructor
      · intro _
        exact Or.inl ⟨_, by rw [split]; simp, Or.inr hit.live⟩
      · intro _
        exact Or.inl ⟨_, _, _, split, hit, first, rfl⟩
  | ended mem free none =>
      exact ⟨fun _ => Or.inl ⟨_, mem, Or.inl free⟩, fun _ => Or.inr ⟨none, by decide⟩⟩
  | more noEnd none compared unset =>
      constructor
      · rintro (⟨p, e, q, hSplit, hHit, -⟩ | ⟨-, hNeg⟩)
        · exact absurd hHit (none p e q hSplit)
        · by_cases hLive : ∃ e ∈ entries, LiveEntry e
          · obtain ⟨e, he, hLive⟩ := hLive
            exact Or.inl ⟨e, he, Or.inr hLive⟩
          · right
            rw [← unset fun e he hL => hLive ⟨e, he, hL⟩]
            exact hNeg
      · intro hOr
        refine Or.inr ⟨none, ?_⟩
        show (_ : Int) < 0
        by_cases hLive : ∃ e ∈ entries, LiveEntry e
        · rw [compared hLive]
          exact neg_one_lt_zero
        · rw [unset fun e he hL => hLive ⟨e, he, hL⟩]
          rcases hOr with ⟨e, he, hFree | hL⟩ | hNeg
          · exact absurd hFree (noEnd e he)
          · exact absurd ⟨e, he, hL⟩ hLive
          · exact hNeg

/-- Along a chain that ends, the search is the walk over the entries. -/
theorem foreach_searchResult_iff {disk : Disk} {dirCluster : Nat} {chain : List Nat}
    (hEnds : EndsIn disk (readBpb disk) dirCluster chain) (junk : Junk) (target : Str) :
    (∃ fuel r, fat32ForeachDirent fuel junk disk dirCluster target = some r ∧
        SearchResult (dirEntries disk (readBpb disk) chain) target r) ↔
      SearchResult (dirEntries disk (readBpb disk) chain) target
        (scanEntries target (dirEntries disk (readBpb disk) chain) zeroed junk.ret).result := by
  obtain ⟨next, hLeads, hEoc⟩ := hEnds
  have hRun : ∀ fuel, chain.length < fuel → fat32ForeachDirent fuel junk disk dirCluster target =
      some (scanEntries target (dirEntries disk (readBpb disk) chain) zeroed junk.ret).result :=
    fun fuel hFuel => foreachFrom_leads chain hLeads (Or.inl hEoc) hFuel
  constructor
  · rintro ⟨fuel, r, hCall, hResult⟩
    have hMore := foreachFrom_mono (Nat.le_max_left fuel (chain.length + 1)) hCall
    have hSame := hRun (max fuel (chain.length + 1)) (by omega)
    rw [fat32ForeachDirent, hMore] at hSame
    rw [← Option.some.inj hSame]
    exact hResult
  · intro hResult
    exact ⟨chain.length + 1, _, hRun _ (Nat.lt_succ_self _), hResult⟩

theorem sampleVolume_endsIn : EndsIn sampleVolume (readBpb sampleVolume) 2 [2] := by
  refine ⟨_, ⟨rfl, by decide, by decide, rfl⟩, ?_⟩
  decide

/-- The volume with every entry of its root directory deleted. -/
def deletedVolume : Disk := fun a => if 1024 ≤ a then sfnName0Deleted else sampleVolume a

end Rayos
