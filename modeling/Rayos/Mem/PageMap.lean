import Rayos.Mem.PageTable

/-!
# What `map_page_range` and `unmap_page_range` do to the mapping

For every table whose part below `H` is a tree, and as long as `alloc_page` returns fresh frames:
mapping a range of unmapped pages sets exactly their leaf entries, unmapping a range of mapped pages
clears exactly their leaf entries, and `get_physaddr` reads the mapping.

The loops are treated with one lemma for a round and one induction for the run.  The induction over
the pages of `map_page_range` carries `Grown`: the tables created on the way are fresh and cleared,
so they map no page besides the ones that are entered later.
-/

namespace Rayos

open RadixTable Program

/-! ## Relations that the mapping code respects -/

section Respects

variable {R : Machine → Machine → Prop} (hRefl : ∀ s, R s s)
  (hTrans : ∀ s t u, R s t → R t u → R s u)
  (hMem : ∀ (s : Machine) (f i : Nat) (v : U64), R s (s.write f i v))

include hRefl in
theorem load64_respects (va : U64) : Respects R (load64 va) := by
  intro s
  unfold load64
  split <;> exact hRefl s

include hRefl hMem in
theorem store64_respects (va v : U64) : Respects R (store64 va v) := by
  intro s
  unfold store64
  split
  · exact hRefl s
  · exact hMem s _ _ _

include hRefl hTrans in
theorem getPhysaddr_respects (va : U64) : Respects R (getPhysaddr va) := by
  have hLoad := fun a => load64_respects hRefl (R := R) a
  refine Respects.bind hTrans (hLoad _) fun e4 => Respects.ite (Respects.pure hRefl _) ?_
  refine Respects.bind hTrans (hLoad _) fun e3 => Respects.ite (Respects.pure hRefl _) ?_
  refine Respects.bind hTrans (hLoad _) fun e2 => Respects.ite (Respects.pure hRefl _) ?_
  exact Respects.bind hTrans (hLoad _) fun e1 =>
    Respects.ite (Respects.pure hRefl _) (Respects.pure hRefl _)

include hRefl hTrans hMem in
theorem unmapPageRangeFrom_respects :
    ∀ (n : Nat) (i va : U64), Respects R (unmapPageRangeFrom n i va) := by
  intro n
  induction n with
  | zero => intro i va; exact Respects.pure hRefl _
  | succ n ih =>
      intro i va
      have hLoad := fun a => load64_respects hRefl (R := R) a
      refine Respects.bind hTrans (hLoad _) fun e4 => Respects.ite (Respects.pure hRefl _) ?_
      refine Respects.bind hTrans (hLoad _) fun e3 => Respects.ite (Respects.pure hRefl _) ?_
      refine Respects.bind hTrans (hLoad _) fun e2 => Respects.ite (Respects.pure hRefl _) ?_
      refine Respects.bind hTrans (hLoad _) fun e1 => Respects.ite ?_ (Respects.pure hRefl _)
      exact Respects.bind hTrans (store64_respects hRefl hMem _ _) fun _ => ih _ _

variable (hAlloc : Respects R (Kernel.allocPages 0#64))

include hRefl hTrans hMem hAlloc

theorem ensureTable_respects (table idx next flags : U64) :
    Respects R (ensureTable table idx next flags) := by
  refine Respects.bind hTrans (load64_respects hRefl _) fun e =>
    Respects.ite (Respects.pure hRefl _) ?_
  refine Respects.bind hTrans hAlloc fun pa => ?_
  refine Respects.bind hTrans (store64_respects hRefl hMem _ _) fun _ => ?_
  exact Respects.forUpto hRefl hTrans fun j => store64_respects hRefl hMem _ _

theorem mapPageRangeFrom_respects (virtaddr flags : U64) :
    ∀ (n : Nat) (i va pa : U64), Respects R (mapPageRangeFrom virtaddr flags n i va pa) := by
  intro n
  induction n with
  | zero => intro i va pa; exact Respects.pure hRefl _
  | succ n ih =>
      intro i va pa
      have hTable := fun a b c =>
        ensureTable_respects hRefl hTrans hMem hAlloc (R := R) a b c flags
      refine Respects.bind hTrans (hTable _ _ _) fun _ => ?_
      refine Respects.bind hTrans (hTable _ _ _) fun _ => ?_
      refine Respects.bind hTrans (hTable _ _ _) fun _ => ?_
      refine Respects.bind hTrans (load64_respects hRefl _) fun e => Respects.ite ?_ ?_
      · exact Respects.bind hTrans (unmapPageRangeFrom_respects hRefl hTrans hMem _ _ _)
          fun _ => Respects.pure hRefl _
      · exact Respects.bind hTrans (store64_respects hRefl hMem _ _) fun _ => ih _ _ _

end Respects

/-- The history of `alloc_pages` only grows. -/
def LogGrows (s s' : Machine) : Prop := s.allocLog <+: s'.allocLog

theorem LogGrows.refl (s : Machine) : LogGrows s s := List.prefix_refl _

theorem LogGrows.trans (s t u : Machine) (h : LogGrows s t) (h' : LogGrows t u) : LogGrows s u :=
  List.IsPrefix.trans h h'

theorem LogGrows.mem (s : Machine) (f i : Nat) (v : U64) : LogGrows s (s.write f i v) :=
  List.prefix_refl _

theorem LogGrows.alloc (order : U64) : Respects LogGrows (Kernel.allocPages order) := by
  intro s
  unfold Kernel.allocPages
  split
  · exact LogGrows.refl s
  · exact List.prefix_append _ _

theorem mapPageRangeFrom_log (virtaddr flags : U64) (n : Nat) (i va pa : U64) :
    Respects LogGrows (mapPageRangeFrom virtaddr flags n i va pa) :=
  mapPageRangeFrom_respects LogGrows.refl LogGrows.trans LogGrows.mem (LogGrows.alloc _) _ _ _ _ _ _

theorem unmapPageRange_log (virtaddr len : U64) : Respects LogGrows (unmapPageRange virtaddr len) :=
  unmapPageRangeFrom_respects LogGrows.refl LogGrows.trans LogGrows.mem _ _ _

theorem ensureTable_log (table idx next flags : U64) :
    Respects LogGrows (ensureTable table idx next flags) :=
  ensureTable_respects LogGrows.refl LogGrows.trans LogGrows.mem (LogGrows.alloc _) _ _ _ _

/-! ## Fresh frames -/

variable {H : Nat → Prop}

/-- In a run from `s` that ends with the history `log`, every call of `alloc_pages` has succeeded
with a frame that is no table of `s` and that no other call of the run has returned. -/
def AllocsFresh (H : Nat → Prop) (s : Machine) (log : List Block) : Prop :=
  ∃ new, log = s.allocLog ++ new ∧ (∀ b ∈ new, ¬ b.pa.toInt < 0) ∧ (new.map Block.frame).Nodup ∧
    ∀ b ∈ new, ∀ p, TablePath H p → s.table p ≠ some b.frame

/-- The next allocation of such a run. -/
theorem AllocsFresh.next {s : Machine} {log : List Block} {b : Block}
    (h : AllocsFresh H s log) (hb : s.allocLog ++ [b] <+: log) :
    ¬ b.pa.toInt < 0 ∧ ∀ p, TablePath H p → s.table p ≠ some b.frame := by
  obtain ⟨new, rfl, hOk, -, hFresh⟩ := h
  have hMem : b ∈ new := by
    have := (List.prefix_append_right_inj s.allocLog).mp hb
    exact this.subset (by simp)
  exact ⟨hOk b hMem, hFresh b hMem⟩

/-- The rest of such a run, after tables have been added. -/
theorem AllocsFresh.grown {s t : Machine} {log : List Block} (h : AllocsFresh H s log)
    (hGrown : Grown H s t) (hLog : t.allocLog <+: log) : AllocsFresh H t log := by
  obtain ⟨new, rfl, hOk, hNodup, hFresh⟩ := h
  obtain ⟨added, hAdded, hTables⟩ := hGrown.log
  rw [hAdded, List.prefix_append_right_inj] at hLog
  obtain ⟨rest, rfl⟩ := hLog
  rw [List.map_append, List.nodup_append] at hNodup
  refine ⟨rest, by rw [hAdded, List.append_assoc],
    fun b hb => hOk b (List.mem_append_right _ hb), hNodup.2.1, ?_⟩
  intro b hb p hp hEq
  rcases hTables p b.frame hp hEq with hOld | ⟨c, hc, hcf⟩
  · exact hFresh b (List.mem_append_right _ hb) p hp hOld
  · exact hNodup.2.2 c.frame (List.mem_map_of_mem hc) b.frame (List.mem_map_of_mem hb) hcf

/-! ## Flags -/

/-- The bits of an entry that hold an address are clear. -/
def AddressFree (flags : U64) : Prop := flags.toNat / 4096 % 2 ^ 40 = 0

theorem AddressFree.of_lt {flags : U64} (h : flags.toNat < 4096) : AddressFree flags := by
  rw [AddressFree, Nat.div_eq_of_lt h]
  rfl

/-- Flags do not change the frame that an entry points to. -/
theorem entryFrame_flags {pa flags : U64} (hPa : pa.toNat % 4096 = 0) (hTop : pa.toNat < 2 ^ 52)
    (hFlags : AddressFree flags) : entryFrame (pa ||| flags ||| 1#64) = pa.toNat / 4096 := by
  have hField : ∀ x : U64, entryFrame x = ((x >>> 12).setWidth 40).toNat := by
    intro x
    rw [entryFrame, BitVec.toNat_setWidth, BitVec.toNat_ushiftRight, Nat.shiftRight_eq_div_pow]
  have hFlags' : (flags >>> 12).setWidth 40 = 0#40 := by
    apply BitVec.eq_of_toNat_eq
    rw [← hField]
    exact hFlags
  have hOne : ((1#64) >>> 12).setWidth 40 = 0#40 := by decide
  rw [hField, BitVec.ushiftRight_or_distrib, BitVec.ushiftRight_or_distrib, BitVec.setWidth_or,
    BitVec.setWidth_or, hFlags', hOne, BitVec.or_zero, BitVec.or_zero, ← hField, entryFrame]
  omega

/-! ## One level -/

/-- Clearing a new table through the window. -/
theorem clearTable_ok {s : Machine} (hRec : entryChild (s.mem s.root 511) = some s.root) (va : U64)
    {level ν : Nat} (hl : level ≤ 3) (hν : s.table (tablePath va level) = some ν)
    (hRoot : s.root ≠ ν)
    (hAbove : ∀ q i, q ++ [i] <+: tablePath va level → s.table q ≠ some ν) :
    forUpto 512 (fun j => store64 (entryAddr (windowBase va level) (BitVec.ofNat 64 j)) 0#64) s =
      .ok () { s with
        mem := fun g j => if g = ν ∧ j < 512 then 0#64 else s.mem g j
        storeLog := s.storeLog ++ List.replicate 512 ν } := by
  let cleared : Nat → Machine := fun k => { s with
    mem := fun g j => if g = ν ∧ j < k then 0#64 else s.mem g j
    storeLog := s.storeLog ++ List.replicate k ν }
  have hRun := forUpto_ok (s := s) (fun k t => t = cleared k) 512
    (fun j => store64 (entryAddr (windowBase va level) (BitVec.ofNat 64 j)) 0#64)
    (by simp [cleared])
    (by
      rintro k hk t rfl
      refine ⟨cleared (k + 1), ?_, rfl⟩
      -- the entries cleared so far are not on the way to the table
      have hRec' : entryChild ((cleared k).mem (cleared k).root 511) = some (cleared k).root := by
        show entryChild (if s.root = ν ∧ 511 < k then 0#64 else s.mem s.root 511) = some s.root
        rw [if_neg fun h => hRoot h.1]
        exact hRec
      have hTable : (cleared k).table (tablePath va level) = some ν := by
        rw [← hν]
        refine descend_congr (m := s.mem) s.root _ fun q i hq g hg => ?_
        show (if g = ν ∧ i < k then 0#64 else s.mem g i) = s.mem g i
        rw [if_neg]
        rintro ⟨rfl, -⟩
        exact hAbove q i hq hg
      rw [store64_window hRec' va 0#64 hl hk hTable]
      congr 1
      simp only [cleared, Machine.write, Machine.mk.injEq, and_true, List.append_assoc,
        List.replicate_succ']
      funext g j
      simp only [writeWord]
      by_cases hg : g = ν
      · by_cases hj : j = k
        · simp [hg, hj]
        · have hjk : j < k + 1 ↔ j < k := by omega
          simp [hg, hj, hjk]
      · simp [hg])
  obtain ⟨t, hEq, rfl⟩ := hRun
  exact hEq

/-- The machine after `alloc_page` has returned `pa`, the entry `e` made of it has been stored, and the
frame `ν` that `e` points to has been cleared. -/
def Machine.entered (s : Machine) (f i : Nat) (e pa : U64) (bmp : Bitmap) (ν : Nat) : Machine :=
  { s with
    pageAllocBitmap := bmp
    allocLog := s.allocLog ++ [⟨pa, 0#64⟩]
    mem := fun g j => if g = ν ∧ j < 512 then 0#64 else writeWord s.mem f i e g j
    storeLog := s.storeLog ++ [f] ++ List.replicate 512 ν }

/-- One level of `map_page_range` where no table is there, whatever `alloc_page` returns, as long as the
entry made of it does not point back to a table on the way. -/
theorem ensureTable_entered {s : Machine} (hRec : entryChild (s.mem s.root 511) = some s.root)
    (va flags : U64) {pa : U64} {bmp : Bitmap} (level : Nat) {f ν : Nat} (hl : level ≤ 2)
    (hf : s.table (tablePath va level) = some f)
    (hAbsent : ptePresent (s.mem f (levelIdx va level).toNat) = false)
    (hAlloc : allocPages s.pageAllocBitmap 0#64 = some (pa, bmp))
    (hChild : entryFrame (pa ||| flags ||| 1#64) = ν)
    (hAbove : ∀ k, k ≤ level → s.table (tablePath va k) ≠ some ν) :
    ensureTable (windowBase va level) (levelIdx va level) (windowBase va (level + 1)) flags s =
      .ok () (s.entered f (levelIdx va level).toNat (pa ||| flags ||| 1#64) pa bmp ν) := by
  have hRootν : s.root ≠ ν := fun h => hAbove 0 (Nat.zero_le _) (h ▸ rfl)
  let s1 : Machine := { s with
    pageAllocBitmap := bmp, allocLog := s.allocLog ++ [⟨pa, 0#64⟩] }
  let s2 : Machine := s1.write f (levelIdx va level).toNat (pa ||| flags ||| 1#64)
  have hCall : Kernel.allocPages 0#64 s = .ok pa s1 := by
    simp only [Kernel.allocPages, hAlloc, s1]
  have hStore : store64 (entryAddr (windowBase va level) (levelIdx va level))
      (pa ||| flags ||| 1#64) s1 = .ok () s2 :=
    store64_level (s := s1) hRec va _ level (show level ≤ 3 by omega) hf
  have hOther : ∀ g j, ¬ (g = f ∧ j = (levelIdx va level).toNat) →
      s2.mem g j = s.mem g j := fun g j h => writeWord_other s.mem _ h
  have hEmpty : entryChild (s.mem f (levelIdx va level).toNat) = none :=
    entryChild_eq_none.mpr hAbsent
  have hRec2 : entryChild (s2.mem s2.root 511) = some s2.root := by
    show entryChild (s2.mem s.root 511) = some s.root
    rw [hOther s.root 511]
    · exact hRec
    · rintro ⟨rfl, h511⟩
      rw [← h511, hRec] at hEmpty
      cases hEmpty
  have hKept : ∀ k, k ≤ level → s2.table (tablePath va k) = s.table (tablePath va k) := by
    intro k hk
    obtain ⟨g, hg⟩ := descend_isPrefix
      (List.take_prefix_take_left (l := walkPath va) hk) hf
    exact (descend_of_absent hEmpty hOther hg).trans hg.symm
  have hν2 : s2.table (tablePath va (level + 1)) = some ν := by
    rw [table_next va hl ((hKept level le_rfl).trans hf)]
    show entryChild (writeWord s.mem f _ _ f _) = some ν
    rw [writeWord_same]
    exact entryChild_eq_some.mpr ⟨ptePresent_entry _ _, hChild⟩
  have hAbove2 : ∀ q i, q ++ [i] <+: tablePath va (level + 1) → s2.table q ≠ some ν := by
    intro q i hq
    have hShort : q.length ≤ level := by
      have hLen := hq.length_le
      rw [List.length_append, List.length_singleton, tablePath, List.length_take] at hLen
      omega
    have hPath : q = tablePath va q.length := by
      have hPre : q <+: tablePath va (level + 1) := (List.prefix_append q [i]).trans hq
      rw [tablePath] at hPre
      rw [tablePath]
      have hWhole := hPre.trans (List.take_prefix _ _)
      exact List.prefix_iff_eq_take.mp hWhole
    rw [hPath, hKept q.length hShort]
    exact hAbove q.length hShort
  unfold ensureTable
  rw [bind_ok (load64_level hRec va level (show level ≤ 3 by omega) hf), if_neg (by simp [hAbsent]),
    bind_ok hCall, bind_ok hStore,
    clearTable_ok hRec2 va (show level + 1 ≤ 3 by omega) hν2 hRootν hAbove2]
  rfl

/-- One level of `map_page_range`: afterwards the table of the next level is there, nothing that was
mapped has changed, and nothing new is mapped. -/
theorem ensureTable_ok {s : Machine} {log : List Block} (hOk : TableOk H s) {va flags : U64}
    (hH : H (pageHead (vpn va))) (hFlags : AddressFree flags) (level : Nat) {f : Nat} (hl : level ≤ 2)
    (hf : s.table (tablePath va level) = some f) (hFresh : AllocsFresh H s log)
    (hLog : (finalState (ensureTable (windowBase va level) (levelIdx va level)
      (windowBase va (level + 1)) flags s)).allocLog <+: log) :
    ∃ s' g, ensureTable (windowBase va level) (levelIdx va level) (windowBase va (level + 1)) flags s
        = .ok () s' ∧
      Grown H s s' ∧ s'.table (tablePath va (level + 1)) = some g ∧
      ∀ w, H (pageHead w) → s'.page w = s.page w := by
  by_cases hp : ptePresent (s.mem f (levelIdx va level).toNat) = true
  · unfold ensureTable
    rw [bind_ok (load64_level hOk.recursive va level (show level ≤ 3 by omega) hf), if_pos hp]
    refine ⟨s, entryFrame (s.mem f (levelIdx va level).toNat), rfl, Grown.refl hOk, ?_,
      fun w _ => rfl⟩
    rw [table_next va hl hf, entryChild, if_pos hp]
  · have hAbsent : ptePresent (s.mem f (levelIdx va level).toNat) = false := by simpa using hp
    obtain ⟨pa, bmp, hAlloc⟩ := allocPages_zero_isSome s.pageAllocBitmap
    -- the new frame is fresh, by the hypothesis on the whole run
    have hNext : s.allocLog ++ [⟨pa, 0#64⟩] <+: log := by
      refine List.IsPrefix.trans ?_ hLog
      have hCall : Kernel.allocPages 0#64 s = .ok pa { s with
          pageAllocBitmap := bmp, allocLog := s.allocLog ++ [⟨pa, 0#64⟩] } := by
        simp only [Kernel.allocPages, hAlloc]
      unfold ensureTable
      rw [bind_ok (load64_level hOk.recursive va level (show level ≤ 3 by omega) hf), if_neg hp,
        bind_ok hCall]
      exact Respects.bind LogGrows.trans (store64_respects LogGrows.refl LogGrows.mem _ _)
        (fun _ => Respects.forUpto LogGrows.refl LogGrows.trans
          fun j => store64_respects LogGrows.refl LogGrows.mem _ _)
        { s with pageAllocBitmap := bmp, allocLog := s.allocLog ++ [⟨pa, 0#64⟩] }
    obtain ⟨hPa, hNew⟩ := hFresh.next hNext
    obtain ⟨hAligned, hTop⟩ := allocPages_aligned hAlloc hPa
    have hFrame : entryFrame (pa ||| flags ||| 1#64) = Block.frame ⟨pa, 0#64⟩ :=
      entryFrame_flags hAligned (by omega) hFlags
    have hPath : TablePath H (tablePath va level ++ [(levelIdx va level).toNat]) := by
      rw [← tablePath_succ va (by omega)]
      exact tablePath_level hH (by omega)
    rw [ensureTable_entered hOk.recursive va flags level hl hf hAbsent hAlloc hFrame
      fun k hk => hNew _ (tablePath_level hH (by omega))]
    refine ⟨_, Block.frame ⟨pa, 0#64⟩, rfl, ?_⟩
    rw [tablePath_succ va (by omega)]
    exact grown_graft hOk (b := ⟨pa, 0#64⟩) hPath hf hAbsent hNew
      (entryChild_eq_some.mpr ⟨ptePresent_entry _ _, hFrame⟩) rfl rfl rfl rfl rfl rfl

/-! ## The loops -/

/-- The leaf entry that `map_page_range` writes for the physical address `pa`. -/
def leafEntry (pa flags : U64) : U64 := (pa &&& ~~~0xfff#64) ||| flags ||| 1#64

theorem ptePresent_leafEntry (pa flags : U64) : ptePresent (leafEntry pa flags) = true :=
  ptePresent_entry _ _

/-- The pages `v, …, v + n - 1` lie below `2 ^ 36` and under PML4 entries of `H`. -/
def RangeIn (H : Nat → Prop) (v n : Nat) : Prop :=
  v + n < 2 ^ 36 ∧ ∀ w, v ≤ w → w < v + n → H (pageHead w)

theorem vpn_next {va : U64} (h : vpn va + 1 < 2 ^ 36) : vpn (va + 0x1000#64) = vpn va + 1 := by
  simp only [vpn, BitVec.toNat_add, BitVec.toNat_ofNat] at h ⊢
  omega

theorem RangeIn.tail {v n : Nat} (h : RangeIn H v (n + 1)) : RangeIn H (v + 1) n :=
  ⟨by have := h.1; omega, fun w hw hw' => h.2 w (by omega) (by omega)⟩

theorem RangeIn.head {v n : Nat} (h : RangeIn H v (n + 1)) : H (pageHead v) :=
  h.2 v (le_refl v) (by omega)

theorem count_next {i : U64} {n : Nat} (h : i.toNat + (n + 1) < 2 ^ 31) :
    (i + 1#64).toNat = i.toNat + 1 := by
  rw [BitVec.toNat_add, BitVec.toNat_ofNat]
  omega

/-- The leaf entry of a page, loaded through the window. -/
theorem load64_leaf {s : Machine} (hOk : TableOk H s) {va : U64} {f : Nat}
    (hf : s.table (pagePath (vpn va)) = some f) :
    load64 (entryAddr (mapPt va) (ptIdx va)) s = .ok (s.mem f (vpn va % 512)) s := by
  have h := load64_level hOk.recursive va 3 (le_refl 3)
    (by rw [tablePath_three]; exact hf)
  rw [← ptIdx_eq]
  exact h

theorem store64_leaf {s : Machine} (hOk : TableOk H s) {va : U64} {f : Nat}
    (hf : s.table (pagePath (vpn va)) = some f) (e : U64) :
    store64 (entryAddr (mapPt va) (ptIdx va)) e s =
      .ok () (s.write f (vpn va % 512) e) := by
  have h := store64_level hOk.recursive va e 3 (le_refl 3)
    (by rw [tablePath_three]; exact hf)
  rw [← ptIdx_eq]
  exact h

/-- The three levels above the leaf: afterwards the leaf table is there. -/
theorem ensureTables_ok {s : Machine} {log : List Block} (hOk : TableOk H s) {va flags : U64}
    (hH : H (pageHead (vpn va))) (hFlags : AddressFree flags) (hFresh : AllocsFresh H s log)
    {α : Type} {rest : KernelM α} (hRest : Respects LogGrows rest)
    (hLog : (finalState ((do
      ensureTable mapPml4 (pml4Idx va) (mapPdpt va) flags
      ensureTable (mapPdpt va) (pdptIdx va) (mapPd va) flags
      ensureTable (mapPd va) (pdIdx va) (mapPt va) flags
      rest) s)).allocLog <+: log) :
    ∃ s' g, (do
        ensureTable mapPml4 (pml4Idx va) (mapPdpt va) flags
        ensureTable (mapPdpt va) (pdptIdx va) (mapPd va) flags
        ensureTable (mapPd va) (pdIdx va) (mapPt va) flags
        rest : KernelM α) s = rest s' ∧
      Grown H s s' ∧ AllocsFresh H s' log ∧ s'.table (pagePath (vpn va)) = some g ∧
      ∀ w, H (pageHead w) → s'.page w = s.page w := by
  have hStep := fun a b c => ensureTable_log a b c flags
  have hTail3 : ∀ a : Unit, Respects LogGrows (do
      ensureTable (mapPd va) (pdIdx va) (mapPt va) flags
      rest) := fun _ => Respects.bind LogGrows.trans (hStep _ _ _) fun _ => hRest
  have hTail2 : ∀ a : Unit, Respects LogGrows (do
      ensureTable (mapPdpt va) (pdptIdx va) (mapPd va) flags
      ensureTable (mapPd va) (pdIdx va) (mapPt va) flags
      rest) := fun a => Respects.bind LogGrows.trans (hStep _ _ _) hTail3
  -- level by level; each time the history so far is a part of the history of the whole run
  obtain ⟨s1, g1, hRun1, hGrown1, hTable1, hPage1⟩ :=
    ensureTable_ok hOk hH hFlags 0 (by decide) (f := s.root) rfl hFresh
      (List.IsPrefix.trans (Respects.bind_after LogGrows.refl hTail2 s) hLog)
  change ensureTable mapPml4 (pml4Idx va) (mapPdpt va) flags s = .ok () s1 at hRun1
  rw [bind_ok hRun1] at hLog ⊢
  have hFresh1 := hFresh.grown hGrown1 (List.IsPrefix.trans (hTail2 () s1) hLog)
  obtain ⟨s2, g2, hRun2, hGrown2, hTable2, hPage2⟩ :=
    ensureTable_ok hGrown1.ok hH hFlags 1 (by decide) hTable1 hFresh1
      (List.IsPrefix.trans (Respects.bind_after LogGrows.refl hTail3 s1) hLog)
  change ensureTable (mapPdpt va) (pdptIdx va) (mapPd va) flags s1 = .ok () s2 at hRun2
  rw [bind_ok hRun2] at hLog ⊢
  have hFresh2 := hFresh1.grown hGrown2 (List.IsPrefix.trans (hTail3 () s2) hLog)
  obtain ⟨s3, g3, hRun3, hGrown3, hTable3, hPage3⟩ :=
    ensureTable_ok hGrown2.ok hH hFlags 2 (by decide) hTable2 hFresh2
      (List.IsPrefix.trans (Respects.bind_after LogGrows.refl (fun _ => hRest) s2) hLog)
  change ensureTable (mapPd va) (pdIdx va) (mapPt va) flags s2 = .ok () s3 at hRun3
  rw [bind_ok hRun3] at hLog ⊢
  refine ⟨s3, g3, rfl, (hGrown1.trans hGrown2).trans hGrown3,
    hFresh2.grown hGrown3 (List.IsPrefix.trans (hRest s3) hLog), ?_, ?_⟩
  · rw [← tablePath_three]
    exact hTable3
  · intro w hw
    rw [hPage3 w hw, hPage2 w hw, hPage1 w hw]

/-- One round of the loop of `map_page_range`.  The tables for the page are there afterwards; the page
is entered, or the loop gives up because the page is mapped already. -/
theorem mapPageRangeFrom_round {log : List Block} (virtaddr : U64) {flags : U64}
    (hFlags : AddressFree flags) {n : Nat} {i va pa : U64} {s : Machine} (hOk : TableOk H s)
    (hHead : H (pageHead (vpn va))) (hFresh : AllocsFresh H s log)
    (hLog : (finalState (mapPageRangeFrom virtaddr flags (n + 1) i va pa s)).allocLog <+: log) :
    ∃ s1, Grown H s s1 ∧ AllocsFresh H s1 log ∧
      (s.page (vpn va) = none ∧
        mapPageRangeFrom virtaddr flags (n + 1) i va pa s =
          mapPageRangeFrom virtaddr flags n (i + 1#64) (va + 0x1000#64) (pa + 0x1000#64) s1 ∧
        (∀ w, w < 2 ^ 36 → H (pageHead w) →
          s1.page w = if w = vpn va then some (leafEntry pa flags) else s.page w) ∨
      s.page (vpn va) ≠ none ∧
        mapPageRangeFrom virtaddr flags (n + 1) i va pa s =
          (unmapPageRange virtaddr i >>= fun _ => pure (-mapErrExist)) s1 ∧
        ∀ w, H (pageHead w) → s1.page w = s.page w) := by
  rw [mapPageRangeFrom] at hLog ⊢
  have hUndo : Respects LogGrows (unmapPageRange virtaddr i >>= fun _ => pure (-mapErrExist)) :=
    Respects.bind LogGrows.trans (unmapPageRange_log virtaddr i)
      fun _ => Respects.pure LogGrows.refl (-mapErrExist)
  have hTail := fun pte => Respects.ite (c := ptePresent pte = true) hUndo
    (Respects.bind LogGrows.trans
      (store64_respects LogGrows.refl LogGrows.mem (entryAddr (mapPt va) (ptIdx va))
        ((pa &&& ~~~0xfff#64) ||| flags ||| 1#64))
      fun _ => mapPageRangeFrom_log virtaddr flags n (i + 1#64) (va + 0x1000#64)
        (pa + 0x1000#64))
  obtain ⟨s1, g, hRun, hGrown, hFresh1, hTable, hPages⟩ :=
    ensureTables_ok hOk hHead hFlags hFresh
      (Respects.bind LogGrows.trans (load64_respects LogGrows.refl _) hTail) hLog
  rw [hRun] at hLog ⊢
  have hHere := hPages (vpn va) hHead
  rw [page_eq_of_table hTable] at hHere
  rw [bind_ok (load64_leaf hGrown.ok hTable)] at hLog ⊢
  by_cases hPresent : ptePresent (s1.mem g (vpn va % 512)) = true
  · rw [if_pos hPresent] at hHere
    simp only [hPresent, if_true]
    exact ⟨s1, hGrown, hFresh1, Or.inr ⟨by rw [← hHere]; simp, rfl, hPages⟩⟩
  · rw [if_neg hPresent] at hHere
    simp only [hPresent, if_false, Bool.false_eq_true] at hLog ⊢
    rw [bind_ok (store64_leaf hGrown.ok hTable _)] at hLog ⊢
    obtain ⟨hGrown2, hPages2⟩ := grown_leaf hGrown.ok hHead (vpn_lt va) hTable (leafEntry pa flags)
    have hLog2 : (s1.write g (vpn va % 512) (leafEntry pa flags)).allocLog <+: log :=
      List.IsPrefix.trans (mapPageRangeFrom_log virtaddr flags n _ _ _ _) hLog
    refine ⟨_, hGrown.trans hGrown2, hFresh1.grown hGrown2 hLog2, Or.inl ⟨hHere.symm, rfl, ?_⟩⟩
    intro w hw hHw
    rw [hPages2 w hw hHw, hPages w hHw, if_pos (ptePresent_leafEntry pa flags)]

/-- The loop of `map_page_range` over unmapped pages, entered with `i` pages done. -/
theorem mapPageRangeFrom_ok {log : List Block} (virtaddr : U64) {flags : U64}
    (hFlags : AddressFree flags) :
    ∀ (n : Nat) (i va pa : U64) (s : Machine), TableOk H s → RangeIn H (vpn va) n →
      i.toNat + n < 2 ^ 31 → (∀ w, vpn va ≤ w → w < vpn va + n → s.page w = none) →
      AllocsFresh H s log →
      (finalState (mapPageRangeFrom virtaddr flags n i va pa s)).allocLog <+: log →
      ∃ s', mapPageRangeFrom virtaddr flags n i va pa s = .ok ((i.toNat + n : Nat) : Int) s' ∧
        Grown H s s' ∧
        ∀ w, w < 2 ^ 36 → H (pageHead w) →
          s'.page w =
            if vpn va ≤ w ∧ w < vpn va + n then
              some (leafEntry (pa + BitVec.ofNat 64 ((w - vpn va) * 4096)) flags)
            else s.page w := by
  intro n
  induction n with
  | zero =>
      intro i va pa s hOk _ hi _ _ _
      refine ⟨s, ?_, Grown.refl hOk, fun w _ _ => ?_⟩
      · rw [mapPageRangeFrom, pure_apply, intOfSize_of_lt (by omega)]
        rfl
      · rw [if_neg (by omega)]
  | succ n ih =>
      intro i va pa s hOk hRange hi hFree hFresh hLog
      obtain ⟨s1, hGrown, hFresh1, hCase⟩ :=
        mapPageRangeFrom_round virtaddr hFlags hOk hRange.head hFresh hLog
      -- the page is not mapped
      obtain ⟨-, hRun, hPages⟩ := hCase.resolve_right fun hTaken =>
        hTaken.1 (hFree _ (le_refl _) (by omega))
      rw [hRun] at hLog ⊢
      have hNextLt : vpn va + 1 < 2 ^ 36 := by
        have := hRange.1
        omega
      have hNext := vpn_next hNextLt
      have hCount := count_next hi
      obtain ⟨s', hRun', hGrown', hPages'⟩ := ih (i + 1#64) (va + 0x1000#64) (pa + 0x1000#64) s1
        hGrown.ok (by rw [hNext]; exact hRange.tail) (by omega)
        (by
          intro w hw hw'
          rw [hNext] at hw hw'
          have hHw := hRange.2 w (by omega) (by omega)
          rw [hPages w (by have := hRange.1; omega) hHw, if_neg (by omega)]
          exact hFree w (by omega) (by omega))
        hFresh1 hLog
      refine ⟨s', ?_, hGrown.trans hGrown', ?_⟩
      · apply hRun'.trans
        rw [hCount, show i.toNat + 1 + n = i.toNat + (n + 1) by omega]
      · intro w hw hHw
        rw [hPages' w hw hHw, hPages w hw hHw, hNext]
        by_cases hwv : w = vpn va
        · subst hwv
          rw [if_neg (by omega), if_pos rfl, if_pos (by omega)]
          simp
        · rw [if_neg hwv]
          by_cases hIn : vpn va + 1 ≤ w ∧ w < vpn va + 1 + n
          · rw [if_pos hIn, if_pos (by omega), BitVec.add_assoc]
            congr 3
            apply BitVec.eq_of_toNat_eq
            simp only [BitVec.toNat_add, BitVec.toNat_ofNat]
            omega
          · rw [if_neg hIn, if_neg (by omega)]

/-- `map_page_range` over unmapped pages maps exactly these pages. -/
theorem mapPageRange_ok {s : Machine} {physaddr virtaddr flags len : U64} (hOk : TableOk H s)
    (hFlags : AddressFree flags) (hRange : RangeIn H (vpn virtaddr) len.toNat)
    (hLen : len.toNat < 2 ^ 31)
    (hFree : ∀ w, vpn virtaddr ≤ w → w < vpn virtaddr + len.toNat → s.page w = none)
    (hFresh : AllocsFresh H s (finalState (mapPageRange physaddr virtaddr flags len s)).allocLog) :
    ∃ s', mapPageRange physaddr virtaddr flags len s = .ok (len.toNat : Int) s' ∧ Grown H s s' ∧
      ∀ w, w < 2 ^ 36 → H (pageHead w) →
        s'.page w =
          if vpn virtaddr ≤ w ∧ w < vpn virtaddr + len.toNat then
            some (leafEntry (physaddr + BitVec.ofNat 64 ((w - vpn virtaddr) * 4096)) flags)
          else s.page w := by
  have h := mapPageRangeFrom_ok virtaddr hFlags len.toNat 0#64 virtaddr physaddr s hOk hRange
    (by simpa using hLen) hFree hFresh (List.prefix_refl _)
  rw [BitVec.toNat_zero, Nat.zero_add] at h
  exact h

/-- Behind a present entry there is a table. -/
theorem table_of_present {s : Machine} (va : U64) {level t : Nat} (hl : level ≤ 2)
    (ht : s.table (tablePath va level) = some t)
    (hp : ptePresent (s.mem t (levelIdx va level).toNat) = true) :
    ∃ u, s.table (tablePath va (level + 1)) = some u := by
  rw [table_next va hl ht, entryChild, if_pos hp]
  exact ⟨_, rfl⟩

/-- The loop of `unmap_page_range` stops at a page that is not mapped, whichever level is missing. -/
theorem unmapPageRangeFrom_none {s : Machine} (hRec : entryChild (s.mem s.root 511) = some s.root)
    (n : Nat) (i va : U64) (hNone : s.page (vpn va) = none) :
    unmapPageRangeFrom (n + 1) i va s = .ok (intOfSize i) s := by
  rw [unmapPageRangeFrom, bind_ok (load64_pml4e hRec va (f := s.root) rfl)]
  cases hp0 : ptePresent (s.mem s.root (levelIdx va 0).toNat) with
  | false => rfl
  | true =>
      obtain ⟨t1, ht1⟩ := table_of_present va (show 0 ≤ 2 by decide) rfl hp0
      simp only [Bool.not_true, Bool.false_eq_true, if_false]
      rw [bind_ok (load64_pdpte hRec va ht1)]
      cases hp1 : ptePresent (s.mem t1 (levelIdx va 1).toNat) with
      | false => rfl
      | true =>
          obtain ⟨t2, ht2⟩ := table_of_present va (show 1 ≤ 2 by decide) ht1 hp1
          simp only [Bool.not_true, Bool.false_eq_true, if_false]
          rw [bind_ok (load64_pde hRec va ht2)]
          cases hp2 : ptePresent (s.mem t2 (levelIdx va 2).toNat) with
          | false => rfl
          | true =>
              obtain ⟨t3, ht3⟩ := table_of_present va (show 2 ≤ 2 by decide) ht2 hp2
              simp only [Bool.not_true, Bool.false_eq_true, if_false]
              rw [bind_ok (load64_pte hRec va ht3)]
              rw [tablePath_three] at ht3
              rw [page_eq_of_table ht3, ← ptIdx_eq] at hNone
              have hAbsent : ¬ ptePresent (s.mem t3 (ptIdx va).toNat) = true := by
                intro hp3
                rw [if_pos hp3] at hNone
                cases hNone
              exact congrFun (if_neg hAbsent) s

/-- The loop of `unmap_page_range`: the pages up to the first one that is not mapped are unmapped. -/
theorem unmapPageRangeFrom_run :
    ∀ (n : Nat) (i va : U64) (s : Machine), TableOk H s → RangeIn H (vpn va) n →
      i.toNat + n < 2 ^ 31 →
      ∃ c s', c ≤ n ∧ (c < n → s.page (vpn va + c) = none) ∧
        unmapPageRangeFrom n i va s = .ok ((i.toNat + c : Nat) : Int) s' ∧ Grown H s s' ∧
        s'.allocLog = s.allocLog ∧ s'.pageAllocBitmap = s.pageAllocBitmap ∧
        ∀ w, w < 2 ^ 36 → H (pageHead w) →
          s'.page w = if vpn va ≤ w ∧ w < vpn va + c then none else s.page w := by
  intro n
  induction n with
  | zero =>
      intro i va s hOk _ hi
      refine ⟨0, s, le_refl 0, fun h => absurd h (by omega), ?_, Grown.refl hOk, rfl, rfl,
        fun w _ _ => ?_⟩
      · rw [unmapPageRangeFrom, pure_apply, intOfSize_of_lt (by omega)]
        rfl
      · rw [if_neg (by omega)]
  | succ n ih =>
      intro i va s hOk hRange hi
      cases hPage : s.page (vpn va) with
      | none =>
          refine ⟨0, s, by omega, fun _ => hPage, ?_, Grown.refl hOk, rfl, rfl, fun w _ _ => ?_⟩
          · rw [unmapPageRangeFrom_none hOk.recursive n i va hPage, intOfSize_of_lt (by omega)]
            rfl
          · rw [if_neg (by omega)]
      | some e =>
          obtain ⟨f, hf, hEntry, hPresent⟩ := table_of_page hPage
          -- every level on the way to a mapped page is present
          have hLevel : ∀ level, level ≤ 2 → ∃ t, s.table (tablePath va level) = some t ∧
              ptePresent (s.mem t (levelIdx va level).toNat) = true := by
            intro level hl
            have hf3 : s.table (tablePath va 3) = some f := by rw [tablePath_three]; exact hf
            obtain ⟨t, ht⟩ := descend_isPrefix
              (List.take_prefix_take_left (l := walkPath va) (show level ≤ 3 by omega)) hf3
            obtain ⟨u, hu⟩ := descend_isPrefix
              (List.take_prefix_take_left (l := walkPath va) (show level + 1 ≤ 3 by omega)) hf3
            refine ⟨t, ht, ?_⟩
            have hNext := table_next va hl ht
            rw [Machine.table, tablePath, hu] at hNext
            exact (entryChild_eq_some.mp hNext.symm).1
          obtain ⟨t0, ht0, hp0⟩ := hLevel 0 (by decide)
          obtain ⟨t1, ht1, hp1⟩ := hLevel 1 (by decide)
          obtain ⟨t2, ht2, hp2⟩ := hLevel 2 (by decide)
          rw [unmapPageRangeFrom, bind_ok (load64_pml4e hOk.recursive va ht0)]
          simp only [hp0, Bool.not_true, Bool.false_eq_true, if_false]
          rw [bind_ok (load64_pdpte hOk.recursive va ht1)]
          simp only [hp1, Bool.not_true, Bool.false_eq_true, if_false]
          rw [bind_ok (load64_pde hOk.recursive va ht2)]
          simp only [hp2, Bool.not_true, Bool.false_eq_true, if_false]
          rw [bind_ok (load64_leaf hOk hf), hEntry]
          simp only [hPresent, if_true]
          rw [bind_ok (store64_leaf hOk hf _)]
          obtain ⟨hGrown, hPages⟩ := grown_leaf hOk hRange.head (vpn_lt va) hf 0#64
          have hTop := hRange.1
          have hNext := vpn_next (show vpn va + 1 < 2 ^ 36 by omega)
          have hCount := count_next hi
          obtain ⟨c, s', hc, hStop, hRun', hGrown', hLog', hBmp', hPages'⟩ :=
            ih (i + 1#64) (va + 0x1000#64) _ hGrown.ok (by rw [hNext]; exact hRange.tail) (by omega)
          refine ⟨c + 1, s', by omega, ?_, ?_, hGrown.trans hGrown', hLog', hBmp', ?_⟩
          · intro hcn
            have hNone := hStop (by omega)
            rw [hNext, hPages _ (by omega) (hRange.2 _ (by omega) (by omega)), if_neg (by omega)]
              at hNone
            rw [← hNone]
            congr 1
            omega
          · rw [hRun', hCount, show i.toNat + 1 + c = i.toNat + (c + 1) by omega]
          · intro w hw hHw
            rw [hPages' w hw hHw, hPages w hw hHw, hNext]
            by_cases hwv : w = vpn va
            · subst hwv
              rw [if_neg (by omega), if_pos rfl, if_neg (by simp), if_pos (by omega)]
            · rw [if_neg hwv]
              by_cases hIn : vpn va + 1 ≤ w ∧ w < vpn va + 1 + c
              · rw [if_pos hIn, if_pos (by omega)]
              · rw [if_neg hIn, if_neg (by omega)]

/-- `unmap_page_range` unmaps the pages up to the first one that is not mapped. -/
theorem unmapPageRange_run {s : Machine} {virtaddr len : U64} (hOk : TableOk H s)
    (hRange : RangeIn H (vpn virtaddr) len.toNat) (hLen : len.toNat < 2 ^ 31) :
    ∃ c s', c ≤ len.toNat ∧ (c < len.toNat → s.page (vpn virtaddr + c) = none) ∧
      unmapPageRange virtaddr len s = .ok (c : Int) s' ∧ Grown H s s' ∧
      s'.allocLog = s.allocLog ∧ s'.pageAllocBitmap = s.pageAllocBitmap ∧
      ∀ w, w < 2 ^ 36 → H (pageHead w) →
        s'.page w = if vpn virtaddr ≤ w ∧ w < vpn virtaddr + c then none else s.page w := by
  have h := unmapPageRangeFrom_run len.toNat 0#64 virtaddr s hOk hRange (by simpa using hLen)
  simp only [BitVec.toNat_zero, Nat.zero_add] at h
  exact h

/-- `unmap_page_range` over mapped pages unmaps exactly these pages. -/
theorem unmapPageRange_ok {s : Machine} {virtaddr len : U64} (hOk : TableOk H s)
    (hRange : RangeIn H (vpn virtaddr) len.toNat) (hLen : len.toNat < 2 ^ 31)
    (hMapped : ∀ w, vpn virtaddr ≤ w → w < vpn virtaddr + len.toNat → s.page w ≠ none) :
    ∃ s', unmapPageRange virtaddr len s = .ok (len.toNat : Int) s' ∧ Grown H s s' ∧
      s'.allocLog = s.allocLog ∧ s'.pageAllocBitmap = s.pageAllocBitmap ∧
      ∀ w, w < 2 ^ 36 → H (pageHead w) →
        s'.page w =
          if vpn virtaddr ≤ w ∧ w < vpn virtaddr + len.toNat then none else s.page w := by
  obtain ⟨c, s', hc, hStop, hRest⟩ := unmapPageRange_run hOk hRange hLen
  obtain rfl : c = len.toNat := by
    by_contra hNe
    exact hMapped (vpn virtaddr + c) (by omega) (by omega) (hStop (by omega))
  exact ⟨s', hRest⟩

/-- The loop of `map_page_range` when it meets a mapped page after `k` more pages: what it has mapped,
from `virtaddr` on, is unmapped again. -/
theorem mapPageRangeFrom_taken {log : List Block} (virtaddr : U64) {flags : U64}
    (hFlags : AddressFree flags) :
    ∀ (k n : Nat) (i va pa : U64) (s : Machine), k < n → TableOk H s →
      RangeIn H (vpn virtaddr) (i.toNat + k + 1) → i.toNat + k < 2 ^ 31 →
      vpn va = vpn virtaddr + i.toNat →
      (∀ w, vpn virtaddr ≤ w → w < vpn va → s.page w ≠ none) →
      (∀ w, vpn va ≤ w → w < vpn va + k → s.page w = none) → s.page (vpn va + k) ≠ none →
      AllocsFresh H s log →
      (finalState (mapPageRangeFrom virtaddr flags n i va pa s)).allocLog <+: log →
      ∃ s', mapPageRangeFrom virtaddr flags n i va pa s = .ok (-mapErrExist) s' ∧ Grown H s s' ∧
        ∀ w, w < 2 ^ 36 → H (pageHead w) →
          s'.page w = if vpn virtaddr ≤ w ∧ w < vpn va then none else s.page w := by
  intro k
  induction k with
  | zero =>
      intro n i va pa s hn hOk hRange hi hva hDone _ hTaken hFresh hLog
      obtain ⟨n, rfl⟩ : ∃ m, n = m + 1 := ⟨n - 1, by omega⟩
      obtain ⟨s1, hGrown, -, hCase⟩ := mapPageRangeFrom_round virtaddr hFlags hOk
        (hRange.2 _ (by omega) (by omega)) hFresh hLog
      obtain ⟨-, hRun, hPages⟩ := hCase.resolve_left fun hFree => hTaken hFree.1
      have hUndoRange : RangeIn H (vpn virtaddr) i.toNat :=
        ⟨by have := hRange.1; omega, fun w hw hw' => hRange.2 w hw (by omega)⟩
      obtain ⟨s', hUndo, hGrown', -, -, hPages'⟩ := unmapPageRange_ok hGrown.ok hUndoRange (by omega)
        (by
          intro w hw hw'
          rw [hPages w (hRange.2 w hw (by omega))]
          exact hDone w hw (by omega))
      refine ⟨s', ?_, hGrown.trans hGrown', fun w hw hHw => ?_⟩
      · rw [hRun, bind_ok hUndo, pure_apply]
      · rw [hPages' w hw hHw, hPages w hHw, ← hva]
  | succ k ih =>
      intro n i va pa s hn hOk hRange hi hva hDone hFree hTaken hFresh hLog
      obtain ⟨n, rfl⟩ : ∃ m, n = m + 1 := ⟨n - 1, by omega⟩
      obtain ⟨s1, hGrown, hFresh1, hCase⟩ := mapPageRangeFrom_round virtaddr hFlags hOk
        (hRange.2 _ (by omega) (by omega)) hFresh hLog
      obtain ⟨hNone, hRun, hPages⟩ := hCase.resolve_right fun hMapped =>
        hMapped.1 (hFree _ (le_refl _) (by omega))
      rw [hRun] at hLog ⊢
      have hTop := hRange.1
      have hNext := vpn_next (show vpn va + 1 < 2 ^ 36 by omega)
      have hCount : (i + 1#64).toNat = i.toNat + 1 := by
        rw [BitVec.toNat_add, BitVec.toNat_ofNat]
        omega
      obtain ⟨s', hRun', hGrown', hPages'⟩ := ih n (i + 1#64) (va + 0x1000#64) (pa + 0x1000#64) s1
        (by omega) hGrown.ok (by rw [hCount, Nat.add_right_comm i.toNat 1 k]; exact hRange) (by omega)
        (by omega)
        (by
          intro w hw hw'
          rw [hPages w (by omega) (hRange.2 w hw (by omega))]
          split
          · simp
          · exact hDone w hw (by omega))
        (by
          intro w hw hw'
          rw [hPages w (by omega) (hRange.2 w (by omega) (by omega)), if_neg (by omega)]
          exact hFree w (by omega) (by omega))
        (by
          rw [hNext, hPages _ (by omega) (hRange.2 _ (by omega) (by omega)), if_neg (by omega),
            Nat.add_right_comm]
          exact hTaken)
        hFresh1 hLog
      refine ⟨s', hRun', hGrown.trans hGrown', fun w hw hHw => ?_⟩
      rw [hPages' w hw hHw, hPages w hw hHw, hNext]
      by_cases hwv : w = vpn va
      · subst hwv
        rw [if_pos (by omega), if_neg (by omega), hNone]
      · rw [if_neg hwv]
        by_cases hIn : vpn virtaddr ≤ w ∧ w < vpn va
        · rw [if_pos hIn, if_pos (by omega)]
        · rw [if_neg hIn, if_neg (by omega)]

/-- `map_page_range` over a range with a mapped page leaves the mapping as it is. -/
theorem mapPageRange_taken {s : Machine} {physaddr virtaddr flags len : U64} (hOk : TableOk H s)
    (hFlags : AddressFree flags) (hRange : RangeIn H (vpn virtaddr) len.toNat)
    (hLen : len.toNat < 2 ^ 31)
    (hTaken : ∃ w, vpn virtaddr ≤ w ∧ w < vpn virtaddr + len.toNat ∧ s.page w ≠ none)
    (hFresh : AllocsFresh H s (finalState (mapPageRange physaddr virtaddr flags len s)).allocLog) :
    ∃ s', mapPageRange physaddr virtaddr flags len s = .ok (-mapErrExist) s' ∧ Grown H s s' ∧
      ∀ w, w < 2 ^ 36 → H (pageHead w) → s'.page w = s.page w := by
  -- the first mapped page of the range
  have hFirst : ∃ k, k < len.toNat ∧ s.page (vpn virtaddr + k) ≠ none := by
    obtain ⟨w, hw, hw', hPage⟩ := hTaken
    exact ⟨w - vpn virtaddr, by omega, by rw [Nat.add_sub_cancel' hw]; exact hPage⟩
  classical
  obtain ⟨hk, hPage⟩ := Nat.find_spec hFirst
  set k := Nat.find hFirst with hkDef
  have hTop := hRange.1
  obtain ⟨s', hRun, hGrown, hPages⟩ := mapPageRangeFrom_taken virtaddr hFlags k len.toNat 0#64
    virtaddr physaddr s hk hOk
    ⟨by rw [BitVec.toNat_zero]; omega,
      fun w hw hw' => hRange.2 w hw (by rw [BitVec.toNat_zero] at hw'; omega)⟩
    (by rw [BitVec.toNat_zero]; omega) (by rw [BitVec.toNat_zero, Nat.add_zero])
    (fun w hw hw' => absurd hw' (by omega))
    (by
      intro w hw hw'
      have hMin := Nat.find_min hFirst (m := w - vpn virtaddr) (by omega)
      rw [Nat.add_sub_cancel' hw] at hMin
      by_contra hSome
      exact hMin ⟨by omega, hSome⟩)
    hPage hFresh (List.prefix_refl _)
  refine ⟨s', hRun, hGrown, fun w hw hHw => ?_⟩
  rw [hPages w hw hHw, if_neg (by omega)]

/-! ## `get_physaddr` -/

/-- What `get_physaddr` makes of a leaf entry. -/
def physaddrOf (va : U64) : Option U64 → U64
  | none => sizeOfInt (-mapErrNotmapped)
  | some e => (e &&& ~~~0xfff#64) + (va &&& 0xfff#64)

/-- `get_physaddr` reads the mapping, for every address. -/
theorem getPhysaddr_eq {s : Machine} (hRec : entryChild (s.mem s.root 511) = some s.root)
    (va : U64) : getPhysaddr va s = .ok (physaddrOf va (s.page (vpn va))) s := by
  have hAbsent : ∀ level, level ≤ 2 → s.table (tablePath va (level + 1)) = none →
      s.page (vpn va) = none := by
    intro level hl hNone
    apply page_eq_none_of_table
    cases hf : s.table (pagePath (vpn va)) with
    | none => rfl
    | some f =>
        rw [← tablePath_three] at hf
        obtain ⟨t, ht⟩ := descend_isPrefix
          (List.take_prefix_take_left (l := walkPath va) (show level + 1 ≤ 3 by omega)) hf
        rw [Machine.table, tablePath, ht] at hNone
        cases hNone
  have hNone : ∀ level, level ≤ 2 → ∀ t, s.table (tablePath va level) = some t →
      ptePresent (s.mem t (levelIdx va level).toNat) = false → s.page (vpn va) = none := by
    intro level hl t ht hp
    apply hAbsent level hl
    rw [table_next va hl ht]
    exact entryChild_eq_none.mpr hp
  unfold getPhysaddr
  rw [bind_ok (load64_pml4e hRec va (f := s.root) rfl)]
  cases hp0 : ptePresent (s.mem s.root (levelIdx va 0).toNat) with
  | false => simp [hNone 0 (by decide) _ rfl hp0, physaddrOf]
  | true =>
      obtain ⟨t1, ht1⟩ := table_of_present va (show 0 ≤ 2 by decide) rfl hp0
      simp only [Bool.not_true, Bool.false_eq_true, if_false]
      rw [bind_ok (load64_pdpte hRec va ht1)]
      cases hp1 : ptePresent (s.mem t1 (levelIdx va 1).toNat) with
      | false => simp [hNone 1 (by decide) _ ht1 hp1, physaddrOf]
      | true =>
          obtain ⟨t2, ht2⟩ := table_of_present va (show 1 ≤ 2 by decide) ht1 hp1
          simp only [Bool.not_true, Bool.false_eq_true, if_false]
          rw [bind_ok (load64_pde hRec va ht2)]
          cases hp2 : ptePresent (s.mem t2 (levelIdx va 2).toNat) with
          | false => simp [hNone 2 (by decide) _ ht2 hp2, physaddrOf]
          | true =>
              obtain ⟨t3, ht3⟩ := table_of_present va (show 2 ≤ 2 by decide) ht2 hp2
              simp only [Bool.not_true, Bool.false_eq_true, if_false]
              rw [bind_ok (load64_pte hRec va ht3)]
              have hPage := page_eq_of_table (v := vpn va) (by rw [← tablePath_three]; exact ht3)
              rw [← ptIdx_eq] at hPage
              change s.page (vpn va) = if ptePresent (s.mem t3 (levelIdx va 3).toNat) then
                some (s.mem t3 (levelIdx va 3).toNat) else none at hPage
              cases hp3 : ptePresent (s.mem t3 (levelIdx va 3).toNat) with
              | false =>
                  rw [hp3] at hPage
                  simp [hPage, physaddrOf]
              | true =>
                  rw [hp3] at hPage
                  simp [hPage, physaddrOf]

/-! ## Mapping, looking up and unmapping -/

/-- `n` pages from a page-aligned address: they lie in one canonical half and below PML4 index
511. -/
def InHalf (va : U64) (n : Nat) : Prop :=
  va.toNat % 4096 = 0 ∧
    (va.toNat + n * 4096 ≤ 2 ^ 47 ∨
      2 ^ 64 - 2 ^ 47 ≤ va.toNat ∧ va.toNat + n * 4096 ≤ 0xFFFFFF8000000000)

/-- The bytes of `n` pages from `va`. -/
def InRange (va : U64) (n : Nat) (x : U64) : Prop :=
  va.toNat ≤ x.toNat ∧ x.toNat < va.toNat + n * 4096

theorem InHalf.rangeIn {va : U64} {n : Nat} (h : InHalf va n) :
    RangeIn (· < 511) (vpn va) n := by
  have hva := va.isLt
  obtain ⟨hAligned, hHalf⟩ := h
  refine ⟨?_, fun w hw hw' => ?_⟩
  · simp only [vpn]
    omega
  · simp only [vpn, pageHead] at hw hw' ⊢
    omega

theorem pageHead_lt_of_ne {va : U64} (h : (pml4Idx va).toNat ≠ 511) : pageHead (vpn va) < 511 := by
  rw [pml4Idx_eq] at h
  have := Nat.mod_lt (vpn va / 2 ^ 27) (show 0 < 512 by decide)
  simp only [pageHead] at h ⊢
  omega

/-- A canonical address is in the range exactly when its page is. -/
theorem InHalf.inRange_iff {va x : U64} {n : Nat} (h : InHalf va n) (hx : Canonical x) :
    InRange va n x ↔ vpn va ≤ vpn x ∧ vpn x < vpn va + n := by
  have hva := va.isLt
  have hxLt := x.isLt
  obtain ⟨hAligned, hHalf⟩ := h
  unfold InRange
  simp only [Canonical] at hx
  simp only [vpn]
  omega

/-- On an aligned address the mask of `map_page_range` does nothing. -/
theorem leafEntry_of_aligned {pa : U64} (flags : U64) (hPa : pa.toNat % 4096 = 0) :
    leafEntry pa flags = pa ||| flags ||| 1#64 := by
  have hMask : pa &&& ~~~0xfff#64 = pa := by
    apply BitVec.eq_of_toNat_eq
    rw [and_not_fff_toNat]
    omega
  rw [leafEntry, hMask]

/-- The address that `get_physaddr` reads from the leaf entry of a page. -/
theorem physaddrOf_leafEntry {pa flags x : U64} (hPa : pa.toNat % 4096 = 0)
    (hFlags : flags.toNat < 4096) (hTop : pa.toNat < 2 ^ 52) :
    (physaddrOf x (some (leafEntry pa flags))).toNat = pa.toNat + x.toNat % 4096 := by
  have hLow : (flags ||| 1#64).toNat < 4096 := or_toNat_lt_page hFlags (by decide)
  simp only [physaddrOf]
  rw [BitVec.toNat_add, and_not_fff_toNat, and_fff_toNat, leafEntry_of_aligned flags hPa,
    entry_toNat hPa hFlags]
  omega

/-- A machine whose tables are those of `chainMemory`, with eight frames in use. -/
def chainMachine : Machine where
  mem := chainMemory
  cr3 := 0x1000#64
  pageAllocBitmap := { size := 64#64, map := [0xff#64], map_length := by decide }
  allocLog := []
  storeLog := []
  vmapAreaPool := ⟨[], 40#64, 0#64, 0#64⟩
  vmapAreaList := []
  mmSpinlock := false

theorem chainMemory_child {f i g : Nat} (h : entryChild (chainMemory f i) = some g) :
    f = 1 ∧ i = 511 ∧ g = 1 ∨ f = 1 ∧ i = 288 ∧ g = 2 ∨ f = 2 ∧ i = 0 ∧ g = 3 ∨
      f = 3 ∧ i = 0 ∧ g = 4 := by
  have hEntry : ∀ e : U64, entryChild e = some g → ptePresent e = true ∧ entryFrame e = g :=
    fun e he => entryChild_eq_some.mp he
  have h1 : entryFrame 0x1003#64 = 1 := by decide
  have h2 : entryFrame 0x2003#64 = 2 := by decide
  have h3 : entryFrame 0x3003#64 = 3 := by decide
  have h4 : entryFrame 0x4003#64 = 4 := by decide
  unfold chainMemory at h
  have hg := (hEntry _ h).2
  split_ifs at h hg <;> first | omega | simp at h

/-- The path to a table of `chainMemory`. -/
def chainPath : Nat → List Nat
  | 2 => [288]
  | 3 => [288, 0]
  | 4 => [288, 0, 0]
  | _ => []

theorem chainMachine_table {p : List Nat} {f : Nat} (hp : TablePath (· < 511) p)
    (h : chainMachine.table p = some f) : p = chainPath f ∧ f < 5 := by
  change descend entryChild chainMemory 1 p = some f at h
  obtain ⟨hLen, -, hHead⟩ := hp
  match p, hLen, hHead with
  | [], _, _ =>
      cases h
      exact ⟨rfl, by decide⟩
  | i :: p, hLen, hHead =>
      have hi : i < 511 := hHead i rfl
      obtain ⟨g, hg, h⟩ := descend_cons_eq_some.mp h
      obtain ⟨rfl, rfl⟩ : i = 288 ∧ g = 2 := by
        have := chainMemory_child hg
        omega
      match p, hLen with
      | [], _ =>
          cases h
          exact ⟨rfl, by decide⟩
      | j :: p, hLen =>
          obtain ⟨g, hg, h⟩ := descend_cons_eq_some.mp h
          obtain ⟨rfl, rfl⟩ : j = 0 ∧ g = 3 := by
            have := chainMemory_child hg
            omega
          match p, hLen with
          | [], _ =>
              cases h
              exact ⟨rfl, by decide⟩
          | k :: p, hLen =>
              obtain ⟨g, hg, h⟩ := descend_cons_eq_some.mp h
              obtain ⟨rfl, rfl⟩ : k = 0 ∧ g = 4 := by
                have := chainMemory_child hg
                omega
              obtain rfl : p = [] := by
                simp only [List.length_cons] at hLen
                exact List.eq_nil_of_length_eq_zero (by omega)
              cases h
              exact ⟨rfl, by decide⟩

theorem chainMachine_tableOk : TableOk (· < 511) chainMachine where
  recursive := by decide
  notRecursive := by decide
  tree := fun p q f hp hq hpf hqf =>
    (chainMachine_table hp hpf).1.trans (chainMachine_table hq hqf).1.symm

end Rayos
