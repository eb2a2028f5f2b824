import Mathlib.Data.Finset.Card
import Rayos.Fs.Fat32Volume

/-!
# Cluster chains as lists

A chain that is made of clusters and ends with an end mark is a list, which its first cluster determines.
Appending to it takes the first free cluster of the FAT; as long as one of the first 16 words is free, the
number that the allocator returns is the cluster whose word it has set.

* `lowFree` are the clusters that can be taken so, and each cluster that is taken is one less.
* `Appended` is the growth of a chain by such a cluster.
-/

namespace Rayos

open LittleEndian ByteStore

/-- The chain from a cluster on: the clusters of the list, and then an end mark. -/
def ChainFrom (disk : Disk) (bpb : Fat32Bpb) : Nat → List Nat → Prop
  | cluster, [] => fat32Eoc cluster = true
  | cluster, c :: chain =>
      c = cluster ∧ IsCluster bpb cluster ∧ ChainFrom disk bpb (fatEntry disk bpb cluster) chain

namespace ChainFrom

variable {disk disk' : Disk} {bpb : Fat32Bpb}

theorem unique : ∀ {cluster : Nat} {chain chain' : List Nat},
    ChainFrom disk bpb cluster chain → ChainFrom disk bpb cluster chain' → chain = chain'
  | _, [], [], _, _ => rfl
  | _, [], _ :: _, h, ⟨_, hCluster, _⟩ => by
      rw [ChainFrom, hCluster.not_eoc] at h
      cases h
  | _, _ :: _, [], ⟨_, hCluster, _⟩, h => by
      rw [ChainFrom, hCluster.not_eoc] at h
      cases h
  | _, _ :: _, _ :: _, ⟨rfl, _, h⟩, ⟨rfl, _, h'⟩ => by rw [unique h h']

theorem isCluster : ∀ {cluster : Nat} {chain : List Nat}, ChainFrom disk bpb cluster chain →
    ∀ {c : Nat}, c ∈ chain → IsCluster bpb c
  | _, _ :: _, ⟨rfl, hCluster, hRest⟩, c, hMem => by
      rcases List.mem_cons.mp hMem with rfl | hIn
      · exact hCluster
      · exact hRest.isCluster hIn

/-- The word of a cluster of the chain is another cluster or an end mark. -/
theorem word_ne_zero : ∀ {cluster : Nat} {chain : List Nat}, ChainFrom disk bpb cluster chain →
    ∀ {c : Nat}, c ∈ chain → fatEntry disk bpb c ≠ 0
  | _, _ :: chain, ⟨rfl, _, hRest⟩, c, hMem => by
      rcases List.mem_cons.mp hMem with rfl | hIn
      · intro hZero
        rw [hZero] at hRest
        cases chain with
        | nil => cases hRest
        | cons d chain => exact absurd hRest.2.1.two_le (by decide)
      · exact hRest.word_ne_zero hIn

/-- The chain of a cluster that lies on it. -/
theorem suffix : ∀ {cluster : Nat} {chain : List Nat}, ChainFrom disk bpb cluster chain →
    ∀ {c : Nat}, c ∈ chain → ∃ tail, ChainFrom disk bpb c tail ∧ tail.length ≤ chain.length
  | cluster, _ :: chain, ⟨rfl, hCluster, hRest⟩, c, hMem => by
      rcases List.mem_cons.mp hMem with rfl | hIn
      · exact ⟨_ :: chain, ⟨rfl, hCluster, hRest⟩, le_rfl⟩
      · obtain ⟨tail, hTail, hLe⟩ := hRest.suffix hIn
        exact ⟨tail, hTail, hLe.trans (Nat.le_succ _)⟩

/-- A chain that ends does not come back to its first cluster. -/
theorem head_not_mem {cluster c : Nat} {chain : List Nat} (h : ChainFrom disk bpb cluster (c :: chain)) :
    c ∉ chain := by
  intro hMem
  obtain ⟨tail, hTail, hLe⟩ := h.2.2.suffix hMem
  rw [h.1] at hTail
  have hSame := hTail.unique h
  rw [hSame, List.length_cons] at hLe
  omega

/-- A chain depends on the words of its clusters only. -/
theorem congr : ∀ {cluster : Nat} {chain : List Nat}, ChainFrom disk bpb cluster chain →
    (∀ c ∈ chain, fatEntry disk' bpb c = fatEntry disk bpb c) → ChainFrom disk' bpb cluster chain
  | _, [], h, _ => h
  | _, _ :: _, ⟨rfl, hCluster, hRest⟩, hSame => by
      refine ⟨rfl, hCluster, ?_⟩
      rw [hSame _ List.mem_cons_self]
      exact hRest.congr fun c hc => hSame c (List.mem_cons_of_mem _ hc)

/-- The chain of a cluster starts with it. -/
theorem eq_cons {cluster : Nat} {chain : List Nat} (h : ChainFrom disk bpb cluster chain)
    (hCluster : IsCluster bpb cluster) : ∃ tail, chain = cluster :: tail := by
  cases chain with
  | nil =>
      rw [ChainFrom, hCluster.not_eoc] at h
      cases h
  | cons c tail => exact ⟨tail, by rw [h.1]⟩

/-- A chain of one cluster. -/
theorem singleton {cluster : Nat} (hCluster : IsCluster bpb cluster)
    (hEnd : fat32Eoc (fatEntry disk bpb cluster) = true) : ChainFrom disk bpb cluster [cluster] :=
  ⟨rfl, hCluster, hEnd⟩

end ChainFrom

/-! ## Free clusters -/

/-- The free words among the first 16 of the FAT. -/
def lowFree (disk : Disk) (bpb : Fat32Bpb) : Finset Nat :=
  (Finset.range 16).filter fun c => fatEntry disk bpb c = 0

theorem mem_lowFree {disk : Disk} {bpb : Fat32Bpb} {c : Nat} :
    c ∈ lowFree disk bpb ↔ c < 16 ∧ fatEntry disk bpb c = 0 := by
  rw [lowFree, Finset.mem_filter, Finset.mem_range]

theorem lowFree_congr {disk disk' : Disk} {bpb : Fat32Bpb}
    (h : ∀ c, c < 16 → (fatEntry disk' bpb c = 0 ↔ fatEntry disk bpb c = 0)) :
    lowFree disk' bpb = lowFree disk bpb := by
  ext c
  rw [mem_lowFree, mem_lowFree]
  exact and_congr_right fun hc => h c hc

/-- A free word among the first 16 is taken, and its number is returned. -/
structure TakenLow (bpb : Fat32Bpb) (disk disk' : Disk) (new : Nat) : Prop where
  mem : new ∈ lowFree disk bpb
  cluster : IsCluster bpb new
  fat : FatSet bpb disk disk' new 0x0fffffff

theorem allocCluster_low {disk : Disk} {bpb : Fat32Bpb} (hGeo : Geometry bpb) (hBpb : readBpb disk = bpb)
    (hMedia : fatEntry disk bpb 0 ≠ 0 ∧ fatEntry disk bpb 1 ≠ 0) (hFree : (lowFree disk bpb).Nonempty) :
    TakenLow bpb disk (fat32AllocCluster disk).2 (fat32AllocCluster disk).1 := by
  obtain ⟨c, hc⟩ := hFree
  obtain ⟨hLt, hZero⟩ := mem_lowFree.mp hc
  rcases allocCluster_cases hGeo hBpb with ⟨-, hNone⟩ | ⟨s, i, hTaken⟩
  · exact absurd hZero (hNone c hLt)
  · have hNew := isCluster_of_taken hGeo hMedia hTaken
    have hIndex := hTaken.index
    -- a later sector is looked at only when none of the first 16 words is free
    have hSector : s = 0 := by
      by_contra hNe
      exact hTaken.first c hLt (by omega) hZero
    have hNumber : s * 128 + i = (fat32AllocCluster disk).1 := by
      rw [hTaken.number, hSector, Nat.zero_mul]
    have hLow : (fat32AllocCluster disk).1 < 16 := by
      rw [hTaken.number, hSector]
      omega
    exact ⟨mem_lowFree.mpr ⟨hLow, hNumber ▸ hTaken.free⟩, hNew, hNumber ▸ hTaken.fat⟩

/-- What is free after a cluster has been taken. -/
theorem TakenLow.lowFree_eq {bpb : Fat32Bpb} (hGeo : Geometry bpb) {disk disk' : Disk} {new : Nat}
    (h : TakenLow bpb disk disk' new) : lowFree disk' bpb = (lowFree disk bpb).erase new := by
  have hSize := hGeo.size
  ext c
  rw [Finset.mem_erase, mem_lowFree, mem_lowFree]
  by_cases hc : c = new
  · rw [hc, h.fat.set]
    simp
  · constructor
    · rintro ⟨hLt, hZero⟩
      rw [h.fat.kept c (by rw [fatCount]; omega) hc] at hZero
      exact ⟨hc, hLt, hZero⟩
    · rintro ⟨-, hLt, hZero⟩
      refine ⟨hLt, ?_⟩
      rw [h.fat.kept c (by rw [fatCount]; omega) hc]
      exact hZero

/-- The chain of a file or directory is as before when a free cluster is taken. -/
theorem ChainFrom.taken {bpb : Fat32Bpb} {disk disk' : Disk} {new cluster : Nat} {chain : List Nat}
    (hChain : ChainFrom disk bpb cluster chain) (h : TakenLow bpb disk disk' new) :
    ChainFrom disk' bpb cluster chain := by
  refine hChain.congr fun c hc => h.fat.kept c (hChain.isCluster hc).lt_count ?_
  rintro rfl
  exact hChain.word_ne_zero hc (mem_lowFree.mp h.mem).2

/-! ## Growing a chain -/

/-- The new cluster is linked behind the last one and cleared. -/
structure Appended (bpb : Fat32Bpb) (disk disk' : Disk) (last new : Nat) : Prop where
  mem : new ∈ lowFree disk bpb
  cluster : IsCluster bpb new
  ne : new ≠ last
  link : fatEntry disk' bpb last = new
  mark : fatEntry disk' bpb new = 0x0fffffff
  kept : ∀ c, c < fatCount bpb → c ≠ last → c ≠ new → fatEntry disk' bpb c = fatEntry disk bpb c
  cleared : ∀ k, k < clusterBytes bpb → disk' (clusterStart bpb new + k) = 0#8
  frame : ∀ a, a < bpb.reservedSectorCount * 512 ∨ dataStart bpb ≤ a →
    (a < clusterStart bpb new ∨ clusterStart bpb new + clusterBytes bpb ≤ a) → disk' a = disk a
  copies : CopiesEqual bpb disk → CopiesEqual bpb disk'

/-- The copies of the FAT lie before the clusters. -/
theorem copiesEqual_of_keptOutside {bpb : Fat32Bpb} (hGeo : Geometry bpb) {disk disk' : Disk} {c : Nat}
    (hc : IsCluster bpb c) (hKept : KeptOutside bpb c disk disk') (h : CopiesEqual bpb disk) :
    CopiesEqual bpb disk' := by
  have hStart := dataStart_le_clusterStart hGeo hc
  rw [dataStart] at hStart
  intro j hj s hs k hk
  have hCopy := copy_le hj
  rw [hKept _ (Or.inl (by omega)), hKept _ (Or.inl (by omega))]
  exact h j hj s hs k hk

theorem extendChain_low {disk : Disk} {bpb : Fat32Bpb} (hGeo : Geometry bpb) (hBpb : readBpb disk = bpb)
    (hMedia : fatEntry disk bpb 0 ≠ 0 ∧ fatEntry disk bpb 1 ≠ 0) (hFree : (lowFree disk bpb).Nonempty)
    {last : Nat} (hLast : IsCluster bpb last) (hWord : fatEntry disk bpb last ≠ 0) (table : Bytes) :
    Appended bpb disk (extendChain disk bpb last table).2 last (extendChain disk bpb last table).1 := by
  have hTaken := allocCluster_low hGeo hBpb hMedia hFree
  rw [extendChain]
  generalize fat32AllocCluster disk = r at hTaken
  obtain ⟨new, disk₁⟩ := r
  have hNew := hTaken.cluster
  have hNe : new ≠ last := by
    rintro rfl
    exact hWord (mem_lowFree.mp hTaken.mem).2
  have hLt : new < 2 ^ 32 := by
    have := (mem_lowFree.mp hTaken.mem).1
    omega
  have hLink := fatSet_link hGeo disk₁ table hLast.lt_count hLt
  simp only
  generalize writeFats disk₁ _ _ _ = disk₂ at hLink
  have hKept := keptOutside_writeCluster disk₂ bpb new zeroed
  refine ⟨hTaken.mem, hNew, hNe, ?_, ?_, ?_, ?_, ?_, ?_⟩
  · rw [fatEntry_of_keptOutside hGeo hNew hLast.lt_count hKept]
    exact hLink.set
  · rw [fatEntry_of_keptOutside hGeo hNew hNew.lt_count hKept, hLink.kept new hNew.lt_count hNe]
    exact hTaken.fat.set
  · intro c hc hcLast hcNew
    rw [fatEntry_of_keptOutside hGeo hNew hc hKept, hLink.kept c hc hcLast]
    exact hTaken.fat.kept c hc hcNew
  · exact fun k hk => writeCluster_inside hk
  · intro a hArea hOut
    rw [hKept a hOut, hLink.frame a hArea]
    exact hTaken.fat.frame a hArea
  · intro h
    exact copiesEqual_of_keptOutside hGeo hNew hKept (hLink.copies (hTaken.fat.copies h))

theorem Appended.lowFree_eq {bpb : Fat32Bpb} (hGeo : Geometry bpb) {disk disk' : Disk} {last new : Nat}
    (hWord : fatEntry disk bpb last ≠ 0) (h : Appended bpb disk disk' last new) :
    lowFree disk' bpb = (lowFree disk bpb).erase new := by
  have hSize := hGeo.size
  have hTwo := h.cluster.two_le
  ext c
  rw [Finset.mem_erase, mem_lowFree, mem_lowFree]
  by_cases hcNew : c = new
  · rw [hcNew, h.mark]
    simp
  · by_cases hcLast : c = last
    · rw [hcLast, h.link]
      constructor
      · rintro ⟨-, hZero⟩
        omega
      · rintro ⟨-, -, hZero⟩
        exact absurd hZero hWord
    · constructor
      · rintro ⟨hLt, hZero⟩
        rw [h.kept c (by rw [fatCount]; omega) hcLast hcNew] at hZero
        exact ⟨hcNew, hLt, hZero⟩
      · rintro ⟨-, hLt, hZero⟩
        refine ⟨hLt, ?_⟩
        rw [h.kept c (by rw [fatCount]; omega) hcLast hcNew]
        exact hZero

theorem Appended.card {bpb : Fat32Bpb} (hGeo : Geometry bpb) {disk disk' : Disk} {last new : Nat}
    (hWord : fatEntry disk bpb last ≠ 0) (h : Appended bpb disk disk' last new) :
    (lowFree disk' bpb).card + 1 = (lowFree disk bpb).card := by
  rw [h.lowFree_eq hGeo hWord]
  exact Finset.card_erase_add_one h.mem

/-- A chain has become another one: it has grown by free clusters, and the words of all others are as
before. -/
structure ChainGrew (bpb : Fat32Bpb) (disk : Disk) (cluster : Nat) (chain : List Nat) (disk' : Disk)
    (chain' : List Nat) : Prop where
  linked : ChainFrom disk' bpb cluster chain'
  new : ∀ c ∈ chain', c ∈ chain ∨ fatEntry disk bpb c = 0
  fat : ∀ c, c < fatCount bpb → c ∉ chain' → fatEntry disk' bpb c = fatEntry disk bpb c

namespace ChainGrew

variable {bpb : Fat32Bpb} {disk disk₁ disk₂ disk' : Disk} {cluster : Nat} {chain chain' : List Nat}

/-- The FAT is as before. -/
theorem of_eq (hChain : ChainFrom disk bpb cluster chain)
    (hFat : ∀ c, c < fatCount bpb → fatEntry disk' bpb c = fatEntry disk bpb c) :
    ChainGrew bpb disk cluster chain disk' chain :=
  ⟨hChain.congr fun c hc => hFat c (hChain.isCluster hc).lt_count, fun _ hc => Or.inl hc,
    fun c hc _ => hFat c hc⟩

/-- The chain behind a cluster has grown. -/
theorem cons (hChain : ChainFrom disk bpb cluster (cluster :: chain))
    (hFat : ∀ c, c < fatCount bpb → fatEntry disk₁ bpb c = fatEntry disk bpb c)
    (h : ChainGrew bpb disk₁ (fatEntry disk bpb cluster) chain disk' chain') :
    cluster ∉ chain' ∧ ChainGrew bpb disk cluster (cluster :: chain) disk' (cluster :: chain') := by
  have hHead := hChain.head_not_mem
  have hWord := hChain.word_ne_zero List.mem_cons_self
  have hCluster := hChain.2.1
  have hNew : ∀ c ∈ chain', c ∈ chain ∨ fatEntry disk bpb c = 0 := by
    intro c hc
    rw [← hFat c (h.linked.isCluster hc).lt_count]
    exact h.new c hc
  have hNot : cluster ∉ chain' := fun hMem => (hNew cluster hMem).elim hHead hWord
  refine ⟨hNot, ⟨rfl, hCluster, ?_⟩, ?_, ?_⟩
  · rw [h.fat cluster hCluster.lt_count hNot, hFat cluster hCluster.lt_count]
    exact h.linked
  · intro c hc
    rcases List.mem_cons.mp hc with rfl | hIn
    · exact Or.inl List.mem_cons_self
    · exact (hNew c hIn).imp (List.mem_cons_of_mem _) id
  · intro c hc hOut
    rw [h.fat c hc fun hIn => hOut (List.mem_cons_of_mem _ hIn)]
    exact hFat c hc

/-- A cluster has been appended, and the chain has grown behind it. -/
theorem appended {new : Nat} (hCluster : IsCluster bpb cluster)
    (hEnd : fat32Eoc (fatEntry disk bpb cluster) = true)
    (hFat : ∀ c, c < fatCount bpb → fatEntry disk₁ bpb c = fatEntry disk bpb c)
    (hApp : Appended bpb disk₁ disk₂ cluster new) (h : ChainGrew bpb disk₂ new [new] disk' chain') :
    cluster ∉ chain' ∧ new ∈ chain' ∧ ChainGrew bpb disk cluster [cluster] disk' (cluster :: chain') := by
  have hTwo := hApp.cluster.two_le
  have hMem : new ∈ chain' := by
    obtain ⟨tail, rfl⟩ := h.linked.eq_cons hApp.cluster
    exact List.mem_cons_self
  have hNot : cluster ∉ chain' := by
    intro hIn
    rcases h.new cluster hIn with hNew | hZero
    · exact hApp.ne (List.mem_singleton.mp hNew).symm
    · rw [hApp.link] at hZero
      omega
  refine ⟨hNot, hMem, ⟨rfl, hCluster, ?_⟩, ?_, ?_⟩
  · rw [h.fat cluster hCluster.lt_count hNot, hApp.link]
    exact h.linked
  · intro c hc
    rcases List.mem_cons.mp hc with rfl | hIn
    · exact Or.inl (List.mem_singleton_self _)
    · have hLt := (h.linked.isCluster hIn).lt_count
      apply Or.inr
      rw [← hFat c hLt]
      by_cases hcNew : c = new
      · rw [hcNew]
        exact (mem_lowFree.mp hApp.mem).2
      · have hZero := (h.new c hIn).resolve_left fun hOld => hcNew (List.mem_singleton.mp hOld)
        rw [hApp.kept c hLt (fun hEq => hNot (hEq ▸ hIn)) hcNew] at hZero
        exact hZero
  · intro c hc hOut
    have hNe : c ≠ cluster := fun hEq => hOut (hEq ▸ List.mem_cons_self)
    have hIn : c ∉ chain' := fun hIn => hOut (List.mem_cons_of_mem _ hIn)
    rw [h.fat c hc hIn, hApp.kept c hc hNe fun hEq => hIn (hEq ▸ hMem)]
    exact hFat c hc

end ChainGrew

end Rayos
