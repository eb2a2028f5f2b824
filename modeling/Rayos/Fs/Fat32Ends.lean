import Rayos.Fs.Fat32Search
import Rayos.Fs.Fat32Write

/-!
# Which walks end (`fat32_lookup`, `fat32_write`)

The loops over a directory follow the links of the FAT and do not count the clusters.  Such a walk ends when the
links come to an end mark, or when something in the entries on the way stops it: a free entry or a hit for the
search, the entry of the file for the first write.  Where the links go round in a circle without either, the
call does not return.

* `WalkEnds` is the condition for one directory.
* `LookupEnds` is the condition for a path, with the directories that the lookup comes through.
-/

namespace Rayos

open CString LittleEndian

/-! ## One directory -/

/-- The divisions of the driver are defined, and a cluster has a sector. -/
structure ValidBpb (bpb : Fat32Bpb) : Prop where
  bytes : 4 ≤ bpb.bytesPerSector
  sectors : 1 ≤ bpb.sectorsPerCluster

/-- The links from a cluster on come to an end mark, or the entries on the way to a stop. -/
def WalkEnds (disk : Disk) (bpb : Fat32Bpb) (stop : List DirEntry → Prop) (cluster : Nat) : Prop :=
  ∃ path next, Leads disk bpb cluster path next ∧ (fat32Eoc next = true ∨ stop (dirEntries disk bpb path))

/-- A free entry or a hit stops the search. -/
def SearchStop (target : Str) (entries : List DirEntry) : Prop :=
  (∃ e ∈ entries, e.name0 = sfnName0Free) ∨ ∃ p e q, entries = p ++ e :: q ∧ Hit target p e

/-- An entry with the short name stops the search of the first write. -/
def UpdateStop (entry : DirEntry) (entries : List DirEntry) : Prop :=
  ∃ e ∈ entries, sameShortName e entry = true

/-- The first hit from a cluster on. -/
def Finds (disk : Disk) (bpb : Fat32Bpb) (cluster : Nat) (target : Str) (e : DirEntry) : Prop :=
  ∃ path next p q, Leads disk bpb cluster path next ∧ dirEntries disk bpb path = p ++ e :: q ∧ Hit target p e ∧
    NoHit target [] p

/-- A chain that ends and has deleted entries and fragments only: the search leaves `ret` as it was. -/
def Unset (disk : Disk) (bpb : Fat32Bpb) (cluster : Nat) : Prop :=
  ∃ chain, EndsIn disk bpb cluster chain ∧
    ∀ e ∈ dirEntries disk bpb chain, e.name0 ≠ sfnName0Free ∧ ¬ LiveEntry e

theorem ValidBpb.defined {bpb : Fat32Bpb} (h : ValidBpb bpb) : fatDefined bpb = true := decide_eq_true h.bytes

theorem ValidBpb.bytesPerCluster_pos {bpb : Fat32Bpb} (h : ValidBpb bpb) : 0 < bytesPerCluster bpb :=
  Nat.mul_pos (Nat.lt_of_lt_of_le (by decide) h.bytes) h.sectors

/-- The walk over the entries stops where there is a stop. -/
theorem scanEntries_stops_iff {target : Str} (entries : List DirEntry) (ret : Int) :
    (scanEntries target entries zeroed ret).Stops ↔ SearchStop target entries := by
  have hScan := scanEntries_start target entries ret
  generalize scanEntries target entries zeroed ret = r at hScan
  cases hScan with
  | found split hit first => exact ⟨fun _ => Or.inr ⟨_, _, _, split, hit⟩, fun _ => trivial⟩
  | ended mem free none => exact ⟨fun _ => Or.inl ⟨_, mem, free⟩, fun _ => trivial⟩
  | more noEnd none compared unset =>
      constructor
      · intro hFalse
        exact hFalse.elim
      · rintro (⟨e, he, hFree⟩ | ⟨p, e, q, hSplit, hHit⟩)
        · exact noEnd e he hFree
        · exact none p e q hSplit hHit

section Directory

variable {disk : Disk} {bpb : Fat32Bpb}

/-- A walk behind a cluster. -/
theorem Leads.cons {cluster next : Nat} {path : List Nat} (hEoc : fat32Eoc cluster = false)
    (hDefined : fatDefined bpb = true) (h : Leads disk bpb (fatLink disk bpb cluster) path next) :
    Leads disk bpb cluster (cluster :: path) next := ⟨rfl, hEoc, hDefined, h⟩

theorem dirEntries_cons (cluster : Nat) (path : List Nat) :
    dirEntries disk bpb (cluster :: path) = clusterEntries disk bpb cluster ++ dirEntries disk bpb path :=
  List.flatMap_cons

/-- A search that returns has come to an end mark, or has stopped. -/
theorem foreachFrom_path (hDefined : fatDefined bpb = true) {target : Str} {r : Int × Option DirEntry} :
    ∀ {fuel cluster : Nat} {lfn : Bytes} {ret : Int}, foreachFrom disk bpb target fuel cluster lfn ret = some r →
      ∃ path next, Leads disk bpb cluster path next ∧
        (fat32Eoc next = true ∨ (scanEntries target (dirEntries disk bpb path) lfn ret).Stops) := by
  intro fuel
  induction fuel with
  | zero =>
      intro cluster lfn ret h
      cases h
  | succ fuel ih =>
      intro cluster lfn ret h
      rw [foreachFrom, scanSlots_cluster] at h
      cases hEoc : fat32Eoc cluster with
      | true => exact ⟨[], cluster, rfl, Or.inl hEoc⟩
      | false =>
          rw [hEoc, if_neg (by decide)] at h
          cases hScan : scanEntries target (clusterEntries disk bpb cluster) lfn ret with
          | found entry =>
              refine ⟨[cluster], _, .cons hEoc hDefined rfl, Or.inr ?_⟩
              rw [dirEntries_cons, scanEntries_append, hScan]
              trivial
          | ended =>
              refine ⟨[cluster], _, .cons hEoc hDefined rfl, Or.inr ?_⟩
              rw [dirEntries_cons, scanEntries_append, hScan]
              trivial
          | more lfn' ret' =>
              rw [hScan] at h
              simp only [hDefined, if_true] at h
              obtain ⟨path, next, hLeads, hEnd⟩ := ih h
              refine ⟨cluster :: path, next, .cons hEoc hDefined hLeads, ?_⟩
              rw [dirEntries_cons, scanEntries_append, hScan]
              exact hEnd

end Directory

/-! ## What a search returns -/

section Search

variable {disk : Disk} {junk : Junk} {cluster : Nat} {target : Str}

theorem foreach_of_leads {path : List Nat} {next : Nat} (hLeads : Leads disk (readBpb disk) cluster path next)
    (hEnd : fat32Eoc next = true ∨ SearchStop target (dirEntries disk (readBpb disk) path)) {fuel : Nat}
    (hFuel : path.length < fuel) : fat32ForeachDirent fuel junk disk cluster target =
      some (scanEntries target (dirEntries disk (readBpb disk) path) zeroed junk.ret).result :=
  foreachFrom_leads path hLeads (hEnd.imp id (scanEntries_stops_iff _ _).mpr) hFuel

/-- The search returns when its walk ends, and only then. -/
theorem foreach_ends_iff (hDefined : fatDefined (readBpb disk) = true) :
    (∃ fuel r, fat32ForeachDirent fuel junk disk cluster target = some r) ↔
      WalkEnds disk (readBpb disk) (SearchStop target) cluster := by
  constructor
  · rintro ⟨fuel, r, h⟩
    obtain ⟨path, next, hLeads, hEnd⟩ := foreachFrom_path hDefined h
    exact ⟨path, next, hLeads, hEnd.imp id (scanEntries_stops_iff _ _).mp⟩
  · rintro ⟨path, next, hLeads, hEnd⟩
    exact ⟨path.length + 1, _, foreach_of_leads hLeads hEnd (Nat.lt_succ_self _)⟩

/-- A search returns one result. -/
theorem foreach_unique {fuel fuel' : Nat} {r r' : Int × Option DirEntry}
    (h : fat32ForeachDirent fuel junk disk cluster target = some r)
    (h' : fat32ForeachDirent fuel' junk disk cluster target = some r') : r = r' := by
  have hMax : fat32ForeachDirent (max fuel fuel') junk disk cluster target = some r :=
    foreachFrom_mono (Nat.le_max_left _ _) h
  have hMax' : fat32ForeachDirent (max fuel fuel') junk disk cluster target = some r' :=
    foreachFrom_mono (Nat.le_max_right _ _) h'
  rw [hMax] at hMax'
  exact Option.some.inj hMax'

/-- There is one first hit in a list. -/
theorem firstHit_unique {p p' q q' : List DirEntry} {e e' : DirEntry} (h : p ++ e :: q = p' ++ e' :: q')
    (hHit : Hit target p e) (hFirst : NoHit target [] p) (hHit' : Hit target p' e')
    (hFirst' : NoHit target [] p') : e = e' := by
  rcases List.append_eq_append_iff.mp h with ⟨t, rfl, hRest⟩ | ⟨t, rfl, hRest⟩
  · cases t with
    | nil =>
        rw [List.nil_append, List.cons.injEq] at hRest
        exact hRest.1
    | cons d t =>
        rw [List.cons_append, List.cons.injEq] at hRest
        obtain ⟨rfl, -⟩ := hRest
        exact absurd hHit (hFirst' p e t rfl)
  · cases t with
    | nil =>
        rw [List.nil_append, List.cons.injEq] at hRest
        exact hRest.1.symm
    | cons d t =>
        rw [List.cons_append, List.cons.injEq] at hRest
        obtain ⟨rfl, -⟩ := hRest
        exact absurd hHit' (hFirst p' e' t rfl)

/-- What a search returns: the first hit, a negative value, or what `ret` was. -/
theorem foreach_cases (hDefined : fatDefined (readBpb disk) = true) {fuel : Nat} {r : Int × Option DirEntry}
    (h : fat32ForeachDirent fuel junk disk cluster target = some r) :
    (∃ e, Finds disk (readBpb disk) cluster target e ∧ r = (0, some e)) ∨ r.1 < 0 ∨
      Unset disk (readBpb disk) cluster ∧ 0 ≤ junk.ret ∧ r = (junk.ret, none) := by
  obtain ⟨path, next, hLeads, hEnd⟩ := foreachFrom_path hDefined h
  have hSame := foreach_unique h (foreach_of_leads hLeads (hEnd.imp id (scanEntries_stops_iff _ _).mp)
    (Nat.lt_succ_self _))
  have hScan := scanEntries_start target (dirEntries disk (readBpb disk) path) junk.ret
  rw [hSame]
  generalize scanEntries target (dirEntries disk (readBpb disk) path) zeroed junk.ret = s at hScan hEnd
  cases hScan with
  | found split hit first => exact Or.inl ⟨_, ⟨path, next, _, _, hLeads, split, hit, first⟩, rfl⟩
  | ended mem free none => exact Or.inr (Or.inl (by decide : (-1 : Int) < 0))
  | @more lfn ret noEnd none compared unset =>
      have hEoc : fat32Eoc next = true := hEnd.resolve_right id
      by_cases hLive : ∃ e ∈ dirEntries disk (readBpb disk) path, LiveEntry e
      · exact Or.inr (Or.inl (by rw [compared hLive]; exact neg_one_lt_zero))
      · have hNone : ∀ e ∈ dirEntries disk (readBpb disk) path, ¬ LiveEntry e := fun e he hL => hLive ⟨e, he, hL⟩
        rw [unset hNone]
        by_cases hNeg : junk.ret < 0
        · exact Or.inr (Or.inl hNeg)
        · exact Or.inr (Or.inr ⟨⟨path, ⟨next, hLeads, hEoc⟩, fun e he => ⟨noEnd e he, hNone e he⟩⟩,
            not_lt.mp hNeg, rfl⟩)

variable (junk) in
/-- The first hit is returned. -/
theorem foreach_finds {e : DirEntry} (h : Finds disk (readBpb disk) cluster target e) :
    ∃ fuel, fat32ForeachDirent fuel junk disk cluster target = some (0, some e) := by
  obtain ⟨path, next, p, q, hLeads, hSplit, hHit, hFirst⟩ := h
  have hStop : SearchStop target (dirEntries disk (readBpb disk) path) := Or.inr ⟨p, e, q, hSplit, hHit⟩
  refine ⟨path.length + 1, ?_⟩
  rw [foreach_of_leads hLeads (Or.inr hStop) (Nat.lt_succ_self _)]
  have hScan := scanEntries_start target (dirEntries disk (readBpb disk) path) junk.ret
  generalize scanEntries target (dirEntries disk (readBpb disk) path) zeroed junk.ret = s at hScan
  cases hScan with
  | found split hit first =>
      rw [firstHit_unique (hSplit.symm.trans split) hHit hFirst hit first]
      rfl
  | ended mem free none => exact absurd hHit (none p e q hSplit)
  | more noEnd none compared unset => exact absurd hHit (none p e q hSplit)

variable (junk target) in
/-- In a directory of deleted entries and fragments `ret` is returned. -/
theorem foreach_unset (h : Unset disk (readBpb disk) cluster) :
    ∃ fuel, fat32ForeachDirent fuel junk disk cluster target = some (junk.ret, none) := by
  obtain ⟨chain, ⟨next, hLeads, hEoc⟩, hNone⟩ := h
  refine ⟨chain.length + 1, ?_⟩
  rw [foreach_of_leads hLeads (Or.inl hEoc) (Nat.lt_succ_self _)]
  have hScan := scanEntries_start target (dirEntries disk (readBpb disk) chain) junk.ret
  generalize scanEntries target (dirEntries disk (readBpb disk) chain) zeroed junk.ret = s at hScan
  cases hScan with
  | found split hit first => exact absurd hit.live (hNone _ (by rw [split]; simp)).2
  | ended mem free none => exact absurd free (hNone _ mem).1
  | more noEnd none compared unset =>
      rw [unset fun e he => (hNone e he).2]
      rfl

end Search

/-! ## A path -/

/-- The lookup of the components ends: the search for each of them does, in the directory to which the search
before it has led. -/
def LookupEndsFrom (junk : Junk) (disk : Disk) : List Str → Nat → DirEntry → Prop
  | [], _, _ => True
  | name :: rest, cluster, entry =>
      WalkEnds disk (readBpb disk) (SearchStop name) cluster ∧
        (∀ e, Finds disk (readBpb disk) cluster name e → LookupEndsFrom junk disk rest e.firstCluster e) ∧
        (Unset disk (readBpb disk) cluster → 0 ≤ junk.ret → LookupEndsFrom junk disk rest entry.firstCluster entry)

/-- The entry to which the components lead. -/
def LookupFindsFrom (junk : Junk) (disk : Disk) : List Str → Nat → DirEntry → DirEntry → Prop
  | [], _, entry, result => result = entry
  | name :: rest, cluster, entry, result =>
      (∃ e, Finds disk (readBpb disk) cluster name e ∧ LookupFindsFrom junk disk rest e.firstCluster e result) ∨
        Unset disk (readBpb disk) cluster ∧ 0 ≤ junk.ret ∧
          LookupFindsFrom junk disk rest entry.firstCluster entry result

/-- The lookup of a path ends. -/
def LookupEnds (junk : Junk) (disk : Disk) (path : Str) : Prop :=
  LookupEndsFrom junk disk (components path) (readBpb disk).rootCluster junk.entry

/-- The entry of a path. -/
def LookupFinds (junk : Junk) (disk : Disk) (path : Str) (result : DirEntry) : Prop :=
  LookupFindsFrom junk disk (components path) (readBpb disk).rootCluster junk.entry result

section Lookup

variable {junk : Junk} {disk : Disk}

/-- One component, and the others with the entry that has been found. -/
theorem lookupEntryFrom_cons {fuel : Nat} {name : Str} {rest : List Str} {cluster : Nat} {entry : DirEntry}
    {r : Int × Option DirEntry} (h : fat32ForeachDirent fuel junk disk cluster name = some r) (hRet : 0 ≤ r.1) :
    lookupEntryFrom fuel junk disk (name :: rest) cluster entry =
      lookupEntryFrom fuel junk disk rest (DirEntry.firstCluster (r.2.getD entry)) (r.2.getD entry) := by
  rw [lookupEntryFrom, h]
  simp only
  rw [if_neg (not_lt.mpr hRet)]

theorem lookupEntryFrom_missing {fuel : Nat} {name : Str} {rest : List Str} {cluster : Nat} {entry : DirEntry}
    {r : Int × Option DirEntry} (h : fat32ForeachDirent fuel junk disk cluster name = some r) (hRet : r.1 < 0) :
    lookupEntryFrom fuel junk disk (name :: rest) cluster entry = some (r.1, none) := by
  rw [lookupEntryFrom, h]
  simp only
  rw [if_pos hRet]

/-- A lookup that returns has searched for its first component. -/
theorem foreach_of_lookup {fuel : Nat} {name : Str} {rest : List Str} {cluster : Nat} {entry : DirEntry}
    {r : Int × Option DirEntry} (h : lookupEntryFrom fuel junk disk (name :: rest) cluster entry = some r) :
    ∃ one, fat32ForeachDirent fuel junk disk cluster name = some one := by
  rw [lookupEntryFrom] at h
  cases hOne : fat32ForeachDirent fuel junk disk cluster name with
  | none =>
      rw [hOne] at h
      cases h
  | some one => exact ⟨one, rfl⟩

/-- The first component with more fuel, and then the others. -/
theorem lookupEntryFrom_step {name : Str} {rest : List Str} {cluster fuel fuel' : Nat} {entry : DirEntry}
    {one r : Int × Option DirEntry} (h : fat32ForeachDirent fuel junk disk cluster name = some one)
    (hRet : 0 ≤ one.1)
    (hRest : lookupEntryFrom fuel' junk disk rest (DirEntry.firstCluster (one.2.getD entry)) (one.2.getD entry) =
      some r) :
    lookupEntryFrom (max fuel fuel') junk disk (name :: rest) cluster entry = some r := by
  have hMore : fat32ForeachDirent (max fuel fuel') junk disk cluster name = some one :=
    foreachFrom_mono (Nat.le_max_left _ _) h
  rw [lookupEntryFrom_cons hMore hRet]
  exact lookupEntryFrom_mono (Nat.le_max_right _ _) hRest

/-- The lookup returns when its walks end, and only then. -/
theorem lookupEntryFrom_ends_iff (hDefined : fatDefined (readBpb disk) = true) (names : List Str) (cluster : Nat)
    (entry : DirEntry) : (∃ fuel r, lookupEntryFrom fuel junk disk names cluster entry = some r) ↔
      LookupEndsFrom junk disk names cluster entry := by
  induction names generalizing cluster entry with
  | nil => exact ⟨fun _ => trivial, fun _ => ⟨0, (0, some entry), rfl⟩⟩
  | cons name rest ih =>
      constructor
      · rintro ⟨fuel, r, h⟩
        obtain ⟨one, hOne⟩ := foreach_of_lookup h
        refine ⟨(foreach_ends_iff hDefined).mp ⟨fuel, one, hOne⟩, ?_, ?_⟩
        · intro e hFinds
          obtain ⟨fuel', hFound⟩ := foreach_finds junk hFinds
          rw [foreach_unique hOne hFound] at hOne
          rw [lookupEntryFrom_cons hOne le_rfl] at h
          exact (ih _ _).mp ⟨fuel, r, h⟩
        · intro hUnset hRet
          obtain ⟨fuel', hFound⟩ := foreach_unset junk name hUnset
          rw [foreach_unique hOne hFound] at hOne
          rw [lookupEntryFrom_cons hOne hRet] at h
          exact (ih _ _).mp ⟨fuel, r, h⟩
      · rintro ⟨hEnds, hFinds, hUnset⟩
        obtain ⟨fuel, one, hOne⟩ := (foreach_ends_iff hDefined).mpr hEnds
        rcases foreach_cases hDefined hOne with ⟨e, hFound, rfl⟩ | hNeg | ⟨hNone, hRet, rfl⟩
        · obtain ⟨fuel', r, hRest⟩ := (ih _ _).mpr (hFinds e hFound)
          exact ⟨max fuel fuel', r, lookupEntryFrom_step hOne le_rfl hRest⟩
        · exact ⟨fuel, _, lookupEntryFrom_missing hOne hNeg⟩
        · obtain ⟨fuel', r, hRest⟩ := (ih _ _).mpr (hUnset hNone hRet)
          exact ⟨max fuel fuel', r, lookupEntryFrom_step hOne hRet hRest⟩

/-- The lookup returns 0 with the entry to which the components lead, and only with that. -/
theorem lookupEntryFrom_finds_iff (hDefined : fatDefined (readBpb disk) = true) (names : List Str) (cluster : Nat)
    (entry result : DirEntry) :
    (∃ fuel, lookupEntryFrom fuel junk disk names cluster entry = some (0, some result)) ↔
      LookupFindsFrom junk disk names cluster entry result := by
  induction names generalizing cluster entry with
  | nil =>
      constructor
      · rintro ⟨fuel, h⟩
        rw [lookupEntryFrom, Option.some.injEq, Prod.mk.injEq, Option.some.injEq] at h
        exact h.2.symm
      · intro h
        have hSame : result = entry := h
        rw [hSame]
        exact ⟨0, rfl⟩
  | cons name rest ih =>
      constructor
      · rintro ⟨fuel, h⟩
        obtain ⟨one, hOne⟩ := foreach_of_lookup h
        rcases foreach_cases hDefined hOne with ⟨e, hFound, rfl⟩ | hNeg | ⟨hNone, hRet, rfl⟩
        · rw [lookupEntryFrom_cons hOne le_rfl] at h
          exact Or.inl ⟨e, hFound, (ih _ _).mp ⟨fuel, h⟩⟩
        · rw [lookupEntryFrom_missing hOne hNeg, Option.some.injEq, Prod.mk.injEq] at h
          cases h.2
        · rw [lookupEntryFrom_cons hOne hRet] at h
          exact Or.inr ⟨hNone, hRet, (ih _ _).mp ⟨fuel, h⟩⟩
      · rintro (⟨e, hFound, hRest⟩ | ⟨hNone, hRet, hRest⟩)
        · obtain ⟨fuel, hOne⟩ := foreach_finds junk hFound
          obtain ⟨fuel', hRest⟩ := (ih _ _).mpr hRest
          exact ⟨max fuel fuel', lookupEntryFrom_step hOne le_rfl hRest⟩
        · obtain ⟨fuel, hOne⟩ := foreach_unset junk name hNone
          obtain ⟨fuel', hRest⟩ := (ih _ _).mpr hRest
          exact ⟨max fuel fuel', lookupEntryFrom_step hOne hRet hRest⟩

/-- A lookup returns when the walks of its path end, and only then. -/
theorem fat32Lookup_ends_iff (hDefined : fatDefined (readBpb disk) = true) (path : Str) :
    (∃ fuel r, fat32Lookup fuel junk disk path = some r) ↔ LookupEnds junk disk path :=
  lookupEntryFrom_ends_iff hDefined _ _ _

/-- A lookup returns 0 when the path leads to an entry, and only then. -/
theorem fat32Lookup_finds_iff (hDefined : fatDefined (readBpb disk) = true) (path : Str) (result : DirEntry) :
    LookupReturns junk disk path (0, some result) ↔ LookupFinds junk disk path result :=
  lookupEntryFrom_finds_iff hDefined _ _ _ _

/-- A lookup returns 0 with an entry, or a negative value without one. -/
theorem lookupEntryFrom_cases (hDefined : fatDefined (readBpb disk) = true) {fuel : Nat}
    {r : Int × Option DirEntry} : ∀ {names : List Str} {cluster : Nat} {entry : DirEntry},
      lookupEntryFrom fuel junk disk names cluster entry = some r → (∃ e, r = (0, some e)) ∨ r.1 < 0 ∧ r.2 = none
  | [], _, entry, h => Or.inl ⟨entry, (Option.some.inj h).symm⟩
  | name :: rest, cluster, entry, h => by
      obtain ⟨one, hOne⟩ := foreach_of_lookup h
      rcases foreach_cases hDefined hOne with ⟨e, -, rfl⟩ | hNeg | ⟨-, hRet, rfl⟩
      · rw [lookupEntryFrom_cons hOne le_rfl] at h
        exact lookupEntryFrom_cases hDefined h
      · rw [lookupEntryFrom_missing hOne hNeg] at h
        cases h
        exact Or.inr ⟨hNeg, rfl⟩
      · rw [lookupEntryFrom_cons hOne hRet] at h
        exact lookupEntryFrom_cases hDefined h

end Lookup

/-! ## The first write -/

/-- A write returns: only the search for the entry of a file without a cluster is in question, on the volume with
the cluster taken. -/
def WriteEnds (disk : Disk) (fp : Fat32File) : Prop :=
  fp.entry.firstCluster = 0 →
    WalkEnds (fat32AllocCluster disk).2 fp.bpb (UpdateStop fp.entry) fp.parentEntry.firstCluster

section Write

variable {disk : Disk} {bpb : Fat32Bpb}

/-- A cluster has an entry with the short name, or the loop over it finds none. -/
theorem matchSlot_iff {entry : DirEntry} {cluster : Nat} :
    UpdateStop entry (clusterEntries disk bpb cluster) ↔
      ∃ i, matchSlot (readCluster disk bpb cluster zeroed) entry (entriesPerCluster bpb) = some i := by
  rw [← Option.isSome_iff_exists, matchSlot, List.find?_isSome]
  constructor
  · rintro ⟨e, he, hSame⟩
    obtain ⟨i, hi, rfl⟩ := List.mem_map.mp he
    exact ⟨i, hi, hSame⟩
  · rintro ⟨i, hi, hSame⟩
    exact ⟨_, List.mem_map_of_mem hi, hSame⟩

theorem updateStop_append {entry : DirEntry} {entries rest : List DirEntry} :
    UpdateStop entry (entries ++ rest) ↔ UpdateStop entry entries ∨ UpdateStop entry rest := by
  unfold UpdateStop
  simp only [List.mem_append, or_and_right, exists_or]

/-- Along a path after which the links end, or on which the entry is. -/
theorem updateFrom_leads {entry : DirEntry} {size : Nat} :
    ∀ (path : List Nat) {fuel cluster next : Nat}, Leads disk bpb cluster path next →
      fat32Eoc next = true ∨ UpdateStop entry (dirEntries disk bpb path) → path.length < fuel →
      ∃ r, updateFrom bpb entry size disk fuel cluster = some r
  | _, 0, _, _, _, _, hFuel => absurd hFuel (Nat.not_lt_zero _)
  | [], fuel + 1, cluster, next, hLeads, hEnd, _ => by
      have hNext : next = cluster := hLeads
      have hEoc : fat32Eoc cluster = true := hNext ▸ hEnd.resolve_right fun ⟨e, he, _⟩ => by cases he
      rw [updateFrom, if_pos hEoc]
      exact ⟨_, rfl⟩
  | _ :: path, fuel + 1, cluster, next, ⟨rfl, hEoc, hDefined, hRest⟩, hEnd, hFuel => by
      rw [updateFrom, hEoc, if_neg (by decide)]
      cases hMatch : matchSlot (readCluster disk bpb cluster zeroed) entry (entriesPerCluster bpb) with
      | some i =>
          simp only [hMatch]
          exact ⟨_, rfl⟩
      | none =>
          have hNot : ¬ UpdateStop entry (clusterEntries disk bpb cluster) := by
            rw [matchSlot_iff, hMatch]
            rintro ⟨i, hi⟩
            cases hi
          simp only [hMatch, hDefined, if_true]
          refine updateFrom_leads path hRest (hEnd.imp id fun hStop => ?_) (Nat.lt_of_succ_lt_succ hFuel)
          rw [dirEntries_cons, updateStop_append] at hStop
          exact hStop.resolve_left hNot

/-- The search for the entry ends when its walk does, and only then. -/
theorem updateFrom_ends_iff (hDefined : fatDefined bpb = true) {entry : DirEntry} {size cluster : Nat} :
    (∃ fuel r, updateFrom bpb entry size disk fuel cluster = some r) ↔
      WalkEnds disk bpb (UpdateStop entry) cluster := by
  constructor
  · rintro ⟨fuel, r, h⟩
    induction fuel generalizing cluster with
    | zero => cases h
    | succ fuel ih =>
        rw [updateFrom] at h
        cases hEoc : fat32Eoc cluster with
        | true => exact ⟨[], cluster, rfl, Or.inl hEoc⟩
        | false =>
            rw [hEoc, if_neg (by decide)] at h
            cases hMatch : matchSlot (readCluster disk bpb cluster zeroed) entry (entriesPerCluster bpb) with
            | some i =>
                refine ⟨[cluster], _, .cons hEoc hDefined rfl, Or.inr ?_⟩
                rw [dirEntries_cons, updateStop_append]
                exact Or.inl (matchSlot_iff.mpr ⟨i, hMatch⟩)
            | none =>
                simp only [hMatch, hDefined, if_true] at h
                obtain ⟨path, next, hLeads, hEnd⟩ := ih h
                refine ⟨cluster :: path, next, .cons hEoc hDefined hLeads, hEnd.imp id fun hStop => ?_⟩
                rw [dirEntries_cons, updateStop_append]
                exact Or.inr hStop
  · rintro ⟨path, next, hLeads, hEnd⟩
    exact ⟨path.length + 1, updateFrom_leads path hLeads hEnd (Nat.lt_succ_self _)⟩

/-- The loop over the buffer ends: every round takes a cluster off it. -/
theorem writePieces_ends (hValid : ValidBpb bpb) (buf : Bytes) (size : Nat) :
    ∀ {fuel : Nat} (disk : Disk) (off cluster : Nat), size - off < fuel →
      ∃ disk', writePieces bpb buf size fuel disk off cluster = some disk' := by
  have hPos := hValid.bytesPerCluster_pos
  intro fuel
  induction fuel with
  | zero =>
      intro disk off cluster hLt
      exact absurd hLt (Nat.not_lt_zero _)
  | succ fuel ih =>
      intro disk off cluster hLt
      rw [writePieces]
      by_cases hMore : off < size
      · have hLess : size - (off + bytesPerCluster bpb) < fuel := by omega
        simp only [if_pos hMore, hValid.defined, if_true]
        split
        · exact ih _ _ _ hLess
        · exact ih _ _ _ hLess
      · rw [if_neg hMore]
        exact ⟨disk, rfl⟩

theorem firstWrite_eq (fuel : Nat) (disk : Disk) (fp : Fat32File) (size : Nat) :
    firstWrite fuel disk fp size = updateFrom fp.bpb (fp.entry.setFirstCluster (fat32AllocCluster disk).1) size
      (fat32AllocCluster disk).2 fuel fp.parentEntry.firstCluster := rfl

/-- A string that ends with its list may be followed by zeros. -/
theorem cutAtNul_append_zeros (s : Str) (n : Nat) : cutAtNul (s ++ List.replicate n 0#8) = cutAtNul s := by
  induction s with
  | nil => cases n <;> rfl
  | cons b s ih =>
      unfold cutAtNul at ih ⊢
      rw [List.cons_append, List.takeWhile_cons, List.takeWhile_cons, ih]

/-- The number of the cluster is not in the name. -/
theorem cutAtNul_setFirstCluster (entry : DirEntry) (cluster : Nat) :
    cutAtNul (entry.setFirstCluster cluster).name = cutAtNul entry.name := by
  have hPad : (entry.setFirstCluster cluster).name =
      entry.name ++ List.replicate (11 - entry.name.length) 0#8 := by
    have hLength : entry.name.length = min 11 (List.length entry) := List.length_take
    rw [DirEntry.setFirstCluster, name_ofBytes]
    apply List.ext_getElem
    · rw [List.length_map, List.length_range, List.length_append, List.length_replicate]
      omega
    · intro k hk hk'
      rw [List.length_map, List.length_range] at hk
      rw [List.getElem_map, List.getElem_range, putLe_of_lt _ (by omega), putLe_of_lt _ (by omega),
        List.getElem_append]
      split
      · case isTrue hIn =>
          have hEntry : k < List.length entry := by omega
          simp [DirEntry.bytes, DirEntry.name, hEntry]
      · case isFalse hOut =>
          have hEntry : ¬ k < List.length entry := by omega
          simp [DirEntry.bytes, hEntry]
  rw [hPad, cutAtNul_append_zeros]

theorem updateStop_setFirstCluster {entry : DirEntry} {cluster : Nat} :
    UpdateStop (entry.setFirstCluster cluster) = UpdateStop entry := by
  unfold UpdateStop sameShortName
  simp only [cutAtNul_setFirstCluster]

/-- The file has got its cluster, and the pieces are written. -/
theorem fat32WriteCluster_of_pieces {fp : Fat32File} {buf : Bytes} {fuel size : Nat} {start : DirEntry × Disk}
    {disk' : Disk}
    (hStart : (if fp.entry.firstCluster = 0 then firstWrite fuel disk fp size else some (fp.entry, disk)) = some start)
    (hPieces : writePieces fp.bpb buf size fuel start.2 0 start.1.firstCluster = some disk') :
    fat32WriteCluster fuel disk fp buf size = some ({ fp with entry := start.1 }, disk') := by
  rw [fat32WriteCluster, hStart]
  simp only
  rw [hPieces]
  rfl

/-- A write that returns has searched for the entry of a file without a cluster. -/
theorem firstWrite_of_write {fp : Fat32File} {buf : Bytes} {fuel size : Nat} {r : Fat32File × Disk}
    (hFirst : fp.entry.firstCluster = 0) (h : fat32WriteCluster fuel disk fp buf size = some r) :
    ∃ start, firstWrite fuel disk fp size = some start := by
  rw [fat32WriteCluster, if_pos hFirst] at h
  cases hStart : firstWrite fuel disk fp size with
  | some start => exact ⟨start, rfl⟩
  | none =>
      rw [hStart] at h
      simp only at h
      cases h

/-- A write to an open file returns when the search for its entry ends, and only then. -/
theorem fat32Write_ends_iff {files : List Fat32File} {fd : Int} {fp : Fat32File} {buf : Bytes} {size : Nat}
    (hValid : ValidBpb fp.bpb) (hFind : fat32FindFile files fd = some fp) :
    (∃ fuel r, fat32Write fuel files disk fd buf size = some r) ↔ WriteEnds disk fp := by
  constructor
  · rintro ⟨fuel, r, h⟩ hFirst
    rw [fat32Write, hFind] at h
    obtain ⟨written, hCluster, -⟩ := Option.map_eq_some_iff.mp h
    obtain ⟨start, hStart⟩ := firstWrite_of_write hFirst hCluster
    rw [firstWrite_eq] at hStart
    rw [← updateStop_setFirstCluster]
    exact (updateFrom_ends_iff hValid.defined).mp ⟨fuel, start, hStart⟩
  · intro hEnds
    by_cases hFirst : fp.entry.firstCluster = 0
    · obtain ⟨path, next, hLeads, hEnd⟩ := hEnds hFirst
      rw [← updateStop_setFirstCluster] at hEnd
      -- fuel for the search and for the pieces
      obtain ⟨fuel, hPath, hSize⟩ : ∃ fuel, path.length < fuel ∧ size - 0 < fuel :=
        ⟨path.length + size + 1, by omega, by omega⟩
      obtain ⟨start, hStart⟩ := updateFrom_leads path hLeads hEnd hPath
      obtain ⟨disk', hPieces⟩ := writePieces_ends hValid buf size start.2 0 start.1.firstCluster hSize
      have hFirstWrite : (if fp.entry.firstCluster = 0 then firstWrite fuel disk fp size
          else some (fp.entry, disk)) = some start := by
        rw [if_pos hFirst, firstWrite_eq]
        exact hStart
      exact ⟨fuel, _, fat32Write_of_find hFind (fat32WriteCluster_of_pieces hFirstWrite hPieces)⟩
    · obtain ⟨disk', hPieces⟩ := writePieces_ends hValid buf size disk 0 fp.entry.firstCluster (Nat.lt_succ_self size)
      exact ⟨size + 1, _, fat32Write_of_find hFind (fat32WriteCluster_of_pieces (if_neg hFirst) hPieces)⟩

end Write

end Rayos
