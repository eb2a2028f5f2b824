import Rayos.Mem.Paging

/-!
# Page tables as functions on page numbers

The abstract view of a page table is the function `Machine.page` that gives the leaf entry of a
virtual page, if the page is mapped.  This file connects it to the tables in memory:

* `TableOk H s` — the recursive entry is in place, and the tables below the PML4 entries in `H` form
  a tree.  The PML4 entries outside `H` are not restricted; the boot code, for one, lets the entries
  0 and 256 share their tables.
* `Grown H s s'` — between `s` and `s'` only tables have been written, and tables have only been
  added.
* `grown_leaf` and `grown_graft` — the two ways in which the source writes to a table: it sets a leaf
  entry, or it enters a fresh cleared table where no table was.
-/

namespace Rayos

open RadixTable Program

/-- Paths of at most three indices to a table, with the first index in `H`. -/
def TablePath (H : Nat → Prop) (p : List Nat) : Prop :=
  p.length ≤ 3 ∧ (∀ i ∈ p, i < 512) ∧ ∀ i ∈ p.head?, H i

variable {H : Nat → Prop}

theorem tablePath_of_isPrefix : ∀ p q : List Nat, p <+: q → TablePath H q → TablePath H p := by
  rintro p q ⟨r, rfl⟩ ⟨hLen, hIdx, hHead⟩
  refine ⟨?_, fun i hi => hIdx i (List.mem_append_left r hi), fun i hi => hHead i ?_⟩
  · rw [List.length_append] at hLen
    omega
  · cases p with
    | nil => simp at hi
    | cons a p => simpa using hi

theorem TablePath.mono {H' : Nat → Prop} (hH : ∀ i, H i → H' i) {p : List Nat}
    (h : TablePath H p) : TablePath H' p :=
  ⟨h.1, h.2.1, fun i hi => hH i (h.2.2 i hi)⟩

theorem tablePath_nil : TablePath H [] := ⟨by simp, by simp, by simp⟩

/-- The frame of the table at the end of a path. -/
def Machine.table (s : Machine) (p : List Nat) : Option Nat := descend entryChild s.mem s.root p

/-- The current PML4 has its recursive entry, and its tables below `H` form a tree. -/
structure TableOk (H : Nat → Prop) (s : Machine) : Prop where
  recursive : entryChild (s.mem s.root 511) = some s.root
  notRecursive : ¬ H 511
  tree : IsTree entryChild (TablePath H) s.mem s.root

/-- The number of the virtual page of an address; bits 48 and up do not take part in the walk. -/
def vpn (va : U64) : Nat := va.toNat / 4096 % 2 ^ 36

/-- The path to the table that holds the leaf entry of a page. -/
def pagePath (v : Nat) : List Nat := [v / 2 ^ 27 % 512, v / 2 ^ 18 % 512, v / 2 ^ 9 % 512]

/-- The PML4 index of a page. -/
def pageHead (v : Nat) : Nat := v / 2 ^ 27 % 512

/-- The leaf entry of a virtual page, if the page is mapped. -/
def Machine.page (s : Machine) (v : Nat) : Option U64 :=
  match slot entryChild s.mem s.root (pagePath v) (v % 512) with
  | none => none
  | some e => if ptePresent e then some e else none

/-! ## Pages and paths -/

theorem tablePath_pagePath {v : Nat} (hv : H (pageHead v)) : TablePath H (pagePath v) := by
  refine ⟨by simp [pagePath], ?_, ?_⟩
  · intro i hi
    simp only [pagePath, List.mem_cons, List.not_mem_nil, or_false] at hi
    rcases hi with rfl | rfl | rfl <;> exact Nat.mod_lt _ (by decide)
  · intro i hi
    simp only [pagePath, List.head?_cons, Option.mem_def, Option.some.injEq] at hi
    rw [← hi]
    exact hv

theorem pagePath_inj {v w : Nat} (hv : v < 2 ^ 36) (hw : w < 2 ^ 36) :
    pagePath w = pagePath v ∧ w % 512 = v % 512 ↔ w = v := by
  constructor
  · rintro ⟨hPath, hIdx⟩
    simp only [pagePath, List.cons.injEq, and_true] at hPath
    omega
  · rintro rfl
    exact ⟨rfl, rfl⟩

theorem vpn_lt (va : U64) : vpn va < 2 ^ 36 := Nat.mod_lt _ (by decide)

theorem tablePath_three (va : U64) : tablePath va 3 = pagePath (vpn va) := by
  simp only [tablePath, walkPath_eq, List.take, pagePath, vpn, List.cons.injEq, and_true]
  omega

theorem tablePath_succ (va : U64) {level : Nat} (hl : level ≤ 3) :
    tablePath va (level + 1) = tablePath va level ++ [(levelIdx va level).toNat] := by
  match level, hl with
  | 0, _ | 1, _ | 2, _ | 3, _ => simp [tablePath, walkPath, levelIdx]

theorem ptIdx_eq (va : U64) : (ptIdx va).toNat = vpn va % 512 := by
  simp only [ptIdx_toNat, vpn]
  omega

theorem pml4Idx_eq (va : U64) : (pml4Idx va).toNat = pageHead (vpn va) := by
  simp only [pml4Idx_toNat, vpn, pageHead]
  omega

theorem tablePath_level {va : U64} (hH : H (pageHead (vpn va))) {level : Nat} (hl : level ≤ 3) :
    TablePath H (tablePath va level) := by
  refine tablePath_of_isPrefix _ (tablePath va 3) ?_ ?_
  · exact List.take_prefix_take_left hl
  · rw [tablePath_three]
    exact tablePath_pagePath hH

theorem page_eq_of_table {s : Machine} {v f : Nat} (hf : s.table (pagePath v) = some f) :
    s.page v = if ptePresent (s.mem f (v % 512)) then some (s.mem f (v % 512)) else none := by
  simp only [Machine.page, slot_eq hf]

theorem page_eq_none_of_table {s : Machine} {v : Nat} (hf : s.table (pagePath v) = none) :
    s.page v = none := by
  have hSlot : slot entryChild s.mem s.root (pagePath v) (v % 512) = none := by
    rw [Machine.table] at hf
    rw [slot, hf]
    rfl
  simp only [Machine.page, hSlot]

/-- A mapped page has its table, and the table holds the entry. -/
theorem table_of_page {s : Machine} {v : Nat} {e : U64} (h : s.page v = some e) :
    ∃ f, s.table (pagePath v) = some f ∧ s.mem f (v % 512) = e ∧ ptePresent e = true := by
  cases hf : s.table (pagePath v) with
  | none =>
      rw [page_eq_none_of_table hf] at h
      cases h
  | some f =>
      rw [page_eq_of_table hf] at h
      split at h
      · rename_i hp
        cases h
        exact ⟨f, rfl, rfl, hp⟩
      · cases h

theorem walkPath_eq_page (va : U64) : walkPath va = pagePath (vpn va) ++ [vpn va % 512] := by
  simp only [walkPath_eq, pagePath, vpn, List.cons_append, List.nil_append, List.cons.injEq,
    and_true]
  omega

/-- The hardware walk of a canonical address reads the leaf entry of its page. -/
theorem mmuWalk_eq_page {s : Machine} {va : U64} (hc : Canonical va) :
    mmuWalk s.mem s.root va = (s.page (vpn va)).map fun e => (entryFrame e, va.toNat % 4096) := by
  unfold mmuWalk
  rw [if_pos hc, walkPath_eq_page]
  cases hf : s.table (pagePath (vpn va)) with
  | none =>
      rw [page_eq_none_of_table hf, descend_append]
      rw [Machine.table] at hf
      rw [hf]
      rfl
  | some f =>
      rw [page_eq_of_table hf, descend_snoc hf]
      unfold entryChild
      split <;> rfl

/-! ## Loads and stores through the window -/

section Window

variable {s : Machine}

theorem load64_window (hRec : entryChild (s.mem s.root 511) = some s.root) (va : U64)
    {level j f : Nat} (hl : level ≤ 3) (hj : j < 512) (hf : s.table (tablePath va level) = some f) :
    load64 (entryAddr (windowBase va level) (BitVec.ofNat 64 j)) s = .ok (s.mem f j) s := by
  rw [Machine.table] at hf
  simp only [load64, mmuWalk_window hRec va hl hj, hf, Option.map_some,
    Nat.mul_div_cancel_left j (show 0 < 8 by decide)]

theorem store64_window (hRec : entryChild (s.mem s.root 511) = some s.root) (va v : U64)
    {level j f : Nat} (hl : level ≤ 3) (hj : j < 512) (hf : s.table (tablePath va level) = some f) :
    store64 (entryAddr (windowBase va level) (BitVec.ofNat 64 j)) v s =
      .ok () (s.write f j v) := by
  rw [Machine.table] at hf
  simp only [store64, mmuWalk_window hRec va hl hj, hf, Option.map_some,
    Nat.mul_div_cancel_left j (show 0 < 8 by decide)]

/-- The entry of an address in the table of a level, loaded through the window. -/
theorem load64_level (hRec : entryChild (s.mem s.root 511) = some s.root) (va : U64)
    (level : Nat) {f : Nat} (hl : level ≤ 3) (hf : s.table (tablePath va level) = some f) :
    load64 (entryAddr (windowBase va level) (levelIdx va level)) s =
      .ok (s.mem f (levelIdx va level).toNat) s := by
  have h := load64_window hRec va hl (levelIdx_lt va level) hf
  rwa [BitVec.ofNat_toNat, BitVec.setWidth_eq] at h

theorem load64_pml4e (hRec : entryChild (s.mem s.root 511) = some s.root) (va : U64) {f : Nat}
    (hf : s.table (tablePath va 0) = some f) :
    load64 (entryAddr mapPml4 (pml4Idx va)) s = .ok (s.mem f (levelIdx va 0).toNat) s :=
  load64_level hRec va 0 (by decide) hf

theorem load64_pdpte (hRec : entryChild (s.mem s.root 511) = some s.root) (va : U64) {f : Nat}
    (hf : s.table (tablePath va 1) = some f) :
    load64 (entryAddr (mapPdpt va) (pdptIdx va)) s = .ok (s.mem f (levelIdx va 1).toNat) s :=
  load64_level hRec va 1 (by decide) hf

theorem load64_pde (hRec : entryChild (s.mem s.root 511) = some s.root) (va : U64) {f : Nat}
    (hf : s.table (tablePath va 2) = some f) :
    load64 (entryAddr (mapPd va) (pdIdx va)) s = .ok (s.mem f (levelIdx va 2).toNat) s :=
  load64_level hRec va 2 (by decide) hf

theorem load64_pte (hRec : entryChild (s.mem s.root 511) = some s.root) (va : U64) {f : Nat}
    (hf : s.table (tablePath va 3) = some f) :
    load64 (entryAddr (mapPt va) (ptIdx va)) s = .ok (s.mem f (levelIdx va 3).toNat) s :=
  load64_level hRec va 3 (by decide) hf

theorem store64_level (hRec : entryChild (s.mem s.root 511) = some s.root) (va v : U64)
    (level : Nat) {f : Nat} (hl : level ≤ 3) (hf : s.table (tablePath va level) = some f) :
    store64 (entryAddr (windowBase va level) (levelIdx va level)) v s =
      .ok () (s.write f (levelIdx va level).toNat v) := by
  have h := store64_window hRec va v hl (levelIdx_lt va level) hf
  rwa [BitVec.ofNat_toNat, BitVec.setWidth_eq] at h

/-- The table of the next level, if the entry is present. -/
theorem table_next (va : U64) {level f : Nat} (hl : level ≤ 2)
    (hf : s.table (tablePath va level) = some f) :
    s.table (tablePath va (level + 1)) = entryChild (s.mem f (levelIdx va level).toNat) := by
  rw [Machine.table, tablePath_succ va (by omega)]
  exact descend_snoc hf _

end Window

/-! ## Growing tables -/

/-- Between the two states only tables have been written, tables have only been added, and the added
ones are frames that `alloc_pages` has returned in between. -/
structure Grown (H : Nat → Prop) (s s' : Machine) : Prop where
  cr3 : s'.cr3 = s.cr3
  ok : TableOk H s'
  keep : ∀ p f, TablePath H p → s.table p = some f → s'.table p = some f
  frame : ∀ f, (∀ p, TablePath H p → s'.table p ≠ some f) → s'.mem f = s.mem f
  log : ∃ new, s'.allocLog = s.allocLog ++ new ∧
    ∀ p f, TablePath H p → s'.table p = some f → s.table p = some f ∨ ∃ b ∈ new, b.frame = f
  pool : s'.vmapAreaPool = s.vmapAreaPool
  areas : s'.vmapAreaList = s.vmapAreaList
  lock : s'.mmSpinlock = s.mmSpinlock

theorem Grown.refl {s : Machine} (hOk : TableOk H s) : Grown H s s where
  cr3 := rfl
  ok := hOk
  keep := fun _ _ _ h => h
  frame := fun _ _ => rfl
  log := ⟨[], by simp, fun _ _ _ h => Or.inl h⟩
  pool := rfl
  areas := rfl
  lock := rfl

/-- What does not touch memory leaves the tables as they are. -/
theorem Grown.of_mem_eq {s s' : Machine} (hOk : TableOk H s) (hMem : s'.mem = s.mem)
    (hCr3 : s'.cr3 = s.cr3) (hLog : s.allocLog <+: s'.allocLog)
    (hPool : s'.vmapAreaPool = s.vmapAreaPool) (hAreas : s'.vmapAreaList = s.vmapAreaList)
    (hLock : s'.mmSpinlock = s.mmSpinlock) : Grown H s s' := by
  have hTable : ∀ p, s'.table p = s.table p := by
    intro p
    simp only [Machine.table, Machine.root, hMem, hCr3]
  obtain ⟨new, hNew⟩ := hLog
  refine ⟨hCr3, ⟨?_, hOk.notRecursive, ?_⟩, fun p f _ hf => (hTable p).trans hf,
    fun f _ => by rw [hMem], ⟨new, hNew.symm, fun p f _ hf => Or.inl ((hTable p).symm.trans hf)⟩,
    hPool, hAreas, hLock⟩
  · simp only [Machine.root, hMem, hCr3]
    exact hOk.recursive
  · intro p q f hp hq hpf hqf
    exact hOk.tree p q f hp hq ((hTable p).symm.trans hpf) ((hTable q).symm.trans hqf)

theorem Grown.trans {s t u : Machine} (h : Grown H s t) (h' : Grown H t u) : Grown H s u where
  cr3 := h'.cr3.trans h.cr3
  ok := h'.ok
  keep := fun p f hp hf => h'.keep p f hp (h.keep p f hp hf)
  frame := fun f hf => (h'.frame f hf).trans
    (h.frame f fun p hp hEq => hf p hp (h'.keep p f hp hEq))
  log := by
    obtain ⟨new, hNew, hTables⟩ := h.log
    obtain ⟨new', hNew', hTables'⟩ := h'.log
    refine ⟨new ++ new', by rw [hNew', hNew, List.append_assoc], ?_⟩
    intro p f hp hf
    rcases hTables' p f hp hf with hOld | ⟨b, hb, hbf⟩
    · rcases hTables p f hp hOld with hOlder | ⟨b, hb, hbf⟩
      · exact Or.inl hOlder
      · exact Or.inr ⟨b, List.mem_append_left _ hb, hbf⟩
    · exact Or.inr ⟨b, List.mem_append_right _ hb, hbf⟩
  pool := h'.pool.trans h.pool
  areas := h'.areas.trans h.areas
  lock := h'.lock.trans h.lock

/-- No table of the tree but the PML4 is the PML4's frame. -/
theorem TableOk.ne_root {s : Machine} (hOk : TableOk H s) {p : List Nat} {f : Nat}
    (hp : TablePath H p) (hf : s.table p = some f) (hne : p ≠ []) : f ≠ s.root := by
  rintro rfl
  exact hne (hOk.tree p [] _ hp tablePath_nil hf rfl)

/-- Writing a leaf entry. -/
theorem grown_leaf {s : Machine} (hOk : TableOk H s) {v f : Nat} (hv : H (pageHead v))
    (hv' : v < 2 ^ 36) (hf : s.table (pagePath v) = some f) (e : U64) :
    Grown H s (s.write f (v % 512) e) ∧
      ∀ w, w < 2 ^ 36 → H (pageHead w) →
        (s.write f (v % 512) e).page w =
          if w = v then (if ptePresent e then some e else none) else s.page w := by
  have hPath : TablePath H (pagePath v) := tablePath_pagePath hv
  have hLong : ¬ TablePath H (pagePath v ++ [v % 512]) := by
    rintro ⟨hLen, -⟩
    simp [pagePath] at hLen
  have hOther : ∀ g j, ¬ (g = f ∧ j = v % 512) →
      writeWord s.mem f (v % 512) e g j = s.mem g j :=
    fun g j h => writeWord_other s.mem e h
  have hTable : ∀ p, TablePath H p →
      (s.write f (v % 512) e).table p = s.table p :=
    fun p hp => descend_update_leaf tablePath_of_isPrefix hOk.tree hPath hf hOther hLong hp
  have hNe : f ≠ s.root := hOk.ne_root hPath hf (by simp [pagePath])
  refine ⟨⟨rfl, ⟨?_, hOk.notRecursive, ?_⟩, ?_, ?_, ⟨[], by simp [Machine.write], ?_⟩, rfl, rfl, rfl⟩,
    ?_⟩
  · show entryChild (writeWord s.mem f (v % 512) e s.root 511) = some s.root
    rw [writeWord_other _ _ fun h => hNe h.1.symm]
    exact hOk.recursive
  · intro p q g hp hq hpg hqg
    exact hOk.tree p q g hp hq ((hTable p hp).symm.trans hpg) ((hTable q hq).symm.trans hqg)
  · intro p g hp hg
    rw [hTable p hp]
    exact hg
  · intro g hg
    refine writeWord_other_frame s.mem _ e ?_
    rintro rfl
    exact hg (pagePath v) hPath ((hTable _ hPath).trans hf)
  · intro p g hp hg
    exact Or.inl ((hTable p hp).symm.trans hg)
  · intro w hw hHw
    have hNot : ¬ pagePath v ++ [v % 512] <+: pagePath w := fun h =>
      hLong (tablePath_of_isPrefix _ _ h (tablePath_pagePath hHw))
    have hSlot := slot_update tablePath_of_isPrefix hOk.tree hPath hf
      (writeWord_same s.mem f (v % 512) e) hOther (tablePath_pagePath hHw) hNot (j := w % 512)
    unfold Machine.page
    show (match slot entryChild (writeWord s.mem f (v % 512) e) s.root (pagePath w) (w % 512) with
      | none => none
      | some e => if ptePresent e then some e else none) = _
    rw [hSlot]
    by_cases hwv : w = v
    · rw [if_pos ((pagePath_inj hv' hw).mpr hwv), if_pos hwv]
    · rw [if_neg (fun h => hwv ((pagePath_inj hv' hw).mp h)), if_neg hwv]

/-- Entering a fresh table, cleared, where no table was. -/
theorem grown_graft {s s' : Machine} (hOk : TableOk H s) {q : List Nat} {i f : Nat} {b : Block}
    {e : U64} (hqi : TablePath H (q ++ [i])) (hf : s.table q = some f)
    (hNone : ptePresent (s.mem f i) = false)
    (hFresh : ∀ p, TablePath H p → s.table p ≠ some b.frame)
    (hChild : entryChild e = some b.frame)
    (hMem : s'.mem = fun g j => if g = b.frame ∧ j < 512 then 0#64 else writeWord s.mem f i e g j)
    (hLog : s'.allocLog = s.allocLog ++ [b]) (hCr3 : s'.cr3 = s.cr3)
    (hPool : s'.vmapAreaPool = s.vmapAreaPool) (hAreas : s'.vmapAreaList = s.vmapAreaList)
    (hLock : s'.mmSpinlock = s.mmSpinlock) :
    Grown H s s' ∧ s'.table (q ++ [i]) = some b.frame ∧
      ∀ w, H (pageHead w) → s'.page w = s.page w := by
  have hRoot : s'.root = s.root := by simp only [Machine.root, hCr3]
  have hq : TablePath H q := tablePath_of_isPrefix _ _ (List.prefix_append q [i]) hqi
  have hfν : f ≠ b.frame := fun h => hFresh q hq (h ▸ hf)
  have hrν : s.root ≠ b.frame := fun h => hFresh [] tablePath_nil (h ▸ rfl)
  have hNone' : entryChild (s.mem f i) = none := entryChild_eq_none.mpr hNone
  have hSet : s'.mem f i = e := by
    rw [hMem]
    simp [hfν]
  have hClear : ∀ j, j < 512 → s'.mem b.frame j = 0#64 := by
    intro j hj
    rw [hMem]
    simp [hj]
  have hOther : ∀ g j, g ≠ b.frame → ¬ (g = f ∧ j = i) → s'.mem g j = s.mem g j := by
    intro g j hg hgj
    rw [hMem]
    simp only [hg, false_and, if_false]
    exact writeWord_other s.mem e hgj
  have hIdx : ∀ p, TablePath H p → ∀ j ∈ p, j < 512 := fun p hp => hp.2.1
  have hDescend : ∀ p, TablePath H p →
      s'.table p = if p = q ++ [i] then some b.frame else s.table p := by
    intro p hp
    rw [Machine.table, hRoot]
    exact descend_graft tablePath_of_isPrefix hOk.tree hq hqi hf hNone' hFresh hSet hChild hClear
      entryChild_zero hOther hIdx hp
  have hNew : s'.table (q ++ [i]) = some b.frame := by rw [hDescend _ hqi, if_pos rfl]
  refine ⟨⟨hCr3, ⟨?_, hOk.notRecursive, ?_⟩, ?_, ?_, ⟨[b], hLog, ?_⟩, hPool, hAreas, hLock⟩,
    hNew, ?_⟩
  · rw [hRoot, hOther s.root 511 hrν]
    · exact hOk.recursive
    · -- the entry 511 of the PML4 is not the one that was empty
      rintro ⟨rfl, rfl⟩
      rw [hOk.recursive] at hNone'
      cases hNone'
  · rw [hRoot]
    exact isTree_graft tablePath_of_isPrefix hOk.tree hq hqi hf hNone' hFresh hSet hChild hClear
      entryChild_zero hOther hIdx
  · intro p g hp hg
    rw [hDescend p hp, if_neg]
    · exact hg
    · rintro rfl
      rw [Machine.table, descend_snoc hf, hNone'] at hg
      cases hg
  · intro g hg
    have hgν : g ≠ b.frame := fun h => hg _ hqi (h ▸ hNew)
    have hgf : g ≠ f := by
      rintro rfl
      refine hg q hq ?_
      rw [hDescend q hq, if_neg (by simp)]
      exact hf
    funext j
    exact hOther g j hgν fun h => hgf h.1
  · intro p g hp hg
    rw [hDescend p hp] at hg
    split at hg
    · exact Or.inr ⟨b, by simp, by simpa using hg⟩
    · exact Or.inl hg
  · intro w hw
    have hSlot := slot_graft tablePath_of_isPrefix hOk.tree hq hqi hf hNone' hFresh hSet hChild hClear
      entryChild_zero hOther hIdx (tablePath_pagePath hw) (Nat.mod_lt w (show 0 < 512 by decide))
    unfold Machine.page
    rw [hRoot, hSlot]
    by_cases hPath : pagePath w = q ++ [i]
    · -- the page's table is the new one: cleared now, absent before
      have hOld : slot entryChild s.mem s.root (pagePath w) (w % 512) = none := by
        rw [slot, hPath, descend_snoc hf, hNone']
        rfl
      rw [if_pos hPath, hOld]
      simp
    · have hShort : ¬ (pagePath w = q ∧ w % 512 = i) := by
        rintro ⟨h, -⟩
        have := hqi.1
        rw [← h] at this
        simp [pagePath] at this
      rw [if_neg hPath, if_neg hShort]

/-- Writes to frames that are no tables, and to entries of the PML4 that are not in `H`, leave the
tables and the mapping as they are. -/
theorem tableOk_data {s s' : Machine} (hOk : TableOk H s) (hCr3 : s'.cr3 = s.cr3)
    (hMem : ∀ p f i, TablePath H p → s.table p = some f → (p = [] → H i ∨ i = 511) →
      s'.mem f i = s.mem f i) :
    TableOk H s' ∧ (∀ p, TablePath H p → s'.table p = s.table p) ∧
      ∀ w, H (pageHead w) → s'.page w = s.page w := by
  have hRoot : s'.root = s.root := by simp only [Machine.root, hCr3]
  have hTable : ∀ p, TablePath H p → s'.table p = s.table p := by
    intro p hp
    rw [Machine.table, hRoot]
    apply descend_congr
    intro q i hq g hg
    have hqi := tablePath_of_isPrefix _ _ hq hp
    refine hMem q g i (tablePath_of_isPrefix _ _ (List.prefix_append q [i]) hqi) hg ?_
    rintro rfl
    exact Or.inl (hqi.2.2 i rfl)
  refine ⟨⟨?_, hOk.notRecursive, ?_⟩, hTable, ?_⟩
  · rw [hRoot, hMem [] s.root 511 tablePath_nil rfl fun _ => Or.inr rfl]
    exact hOk.recursive
  · intro p q g hp hq hpg hqg
    have hp' := hTable p hp
    have hq' := hTable q hq
    rw [Machine.table] at hp' hq'
    exact hOk.tree p q g hp hq (hp'.symm.trans hpg) (hq'.symm.trans hqg)
  · intro w hw
    have hPath := tablePath_pagePath hw
    cases hf : s.table (pagePath w) with
    | none =>
        rw [page_eq_none_of_table hf, page_eq_none_of_table ((hTable _ hPath).trans hf)]
    | some f =>
        rw [page_eq_of_table hf, page_eq_of_table ((hTable _ hPath).trans hf),
          hMem _ f _ hPath hf fun h => by simp [pagePath] at h]

end Rayos
