import Rayos.Mem.PageMap
import Rayos.Mem.PageRun

/-!
# Who owns a frame

`FramesOk H n owned s` ties the frame bitmap, the page tables and the blocks that are in use to each
other: the blocks are disjoint runs of frames whose bits are set, and no table of the tree below `H`
lies in a block or in a frame that `alloc_pages` could return.  Every operation of the memory
subsystem is described once by what it does to this relation; that `alloc_page` returns fresh frames
inside `map_page_range` is a consequence and not an assumption any more.
-/

namespace Rayos

open RadixTable Program

/-- No call of `alloc_pages` in this history has failed. -/
def NoFail (log : List Block) : Prop := ∀ b ∈ log, ¬ b.pa.toInt < 0

theorem NoFail.of_isPrefix {log log' : List Block} (h : NoFail log') (hp : log <+: log') :
    NoFail log :=
  fun b hb => h b (hp.subset hb)

/-! ## Runs that allocate single frames -/

/-- Between the two states the allocator has only been asked for single frames.  If none of these
calls has failed, the frames are different ones whose bits were clear, and their bits are the only
ones that have changed. -/
def TakesPages (s s' : Machine) : Prop :=
  s'.pageAllocBitmap.size = s.pageAllocBitmap.size ∧
  ∃ new, s'.allocLog = s.allocLog ++ new ∧
    (1 ≤ s.pageAllocBitmap.size.toNat → s.pageAllocBitmap.size.toNat < 2 ^ 31 → NoFail new →
      (new.map Block.frame).Nodup ∧
      (∀ b ∈ new, b.frame < s.pageAllocBitmap.size.toNat ∧
        s.pageAllocBitmap.bit b.frame = false) ∧
      ∀ k, s'.pageAllocBitmap.bit k = true ↔
        s.pageAllocBitmap.bit k = true ∨ ∃ b ∈ new, b.frame = k)

theorem TakesPages.of_eq {s s' : Machine} (hBmp : s'.pageAllocBitmap = s.pageAllocBitmap)
    (hLog : s'.allocLog = s.allocLog) : TakesPages s s' :=
  ⟨by rw [hBmp], [], by rw [hLog, List.append_nil], fun _ _ _ => ⟨by simp, by simp, by simp [hBmp]⟩⟩

theorem TakesPages.refl (s : Machine) : TakesPages s s := TakesPages.of_eq rfl rfl

theorem TakesPages.trans (s t u : Machine) (h : TakesPages s t) (h' : TakesPages t u) :
    TakesPages s u := by
  obtain ⟨hSize, new, hNew, hBits⟩ := h
  obtain ⟨hSize', new', hNew', hBits'⟩ := h'
  refine ⟨hSize'.trans hSize, new ++ new', by rw [hNew', hNew, List.append_assoc], ?_⟩
  intro hPos hSmall hFail
  obtain ⟨hNodup, hClear, hSet⟩ := hBits hPos hSmall fun b hb =>
    hFail b (List.mem_append_left _ hb)
  rw [hSize] at hBits'
  obtain ⟨hNodup', hClear', hSet'⟩ := hBits' hPos hSmall fun b hb =>
    hFail b (List.mem_append_right _ hb)
  -- a frame taken in the second part was clear in between, so it was not taken in the first
  refine ⟨?_, ?_, ?_⟩
  · rw [List.map_append, List.nodup_append]
    refine ⟨hNodup, hNodup', ?_⟩
    intro f hf f' hf' hEq
    obtain ⟨b, hb, rfl⟩ := List.mem_map.mp hf
    obtain ⟨c, hc, rfl⟩ := List.mem_map.mp hf'
    have h1 := (hSet b.frame).mpr (Or.inr ⟨b, hb, rfl⟩)
    rw [hEq, (hClear' c hc).2] at h1
    cases h1
  · intro b hb
    rcases List.mem_append.mp hb with hb | hb
    · exact hClear b hb
    · refine ⟨(hClear' b hb).1, ?_⟩
      by_contra hSetB
      have h1 := (hSet b.frame).mpr (Or.inl (by simpa using hSetB))
      rw [(hClear' b hb).2] at h1
      cases h1
  · intro k
    rw [hSet' k, hSet k]
    simp only [List.mem_append, or_and_right, exists_or, or_assoc]

theorem TakesPages.mem (s : Machine) (f i : Nat) (v : U64) : TakesPages s (s.write f i v) :=
  TakesPages.of_eq rfl rfl

theorem TakesPages.alloc : Respects TakesPages (Kernel.allocPages 0#64) := by
  intro s
  obtain ⟨pa, bmp, hAlloc⟩ := allocPages_zero_isSome s.pageAllocBitmap
  simp only [Kernel.allocPages, hAlloc, finalState_ok]
  have hSizes : bmp.size = s.pageAllocBitmap.size := allocPages_size hAlloc
  refine ⟨hSizes, [⟨pa, 0#64⟩], rfl, ?_⟩
  intro hPos hSmall hFail
  have hOk := hFail ⟨pa, 0#64⟩ (by simp)
  rcases allocPages_cases _ hSmall 0#64 (by simpa using hPos) with
    ⟨p, pa', bmp', hEq, hPa, hEnd, hFree, -, -, hBits⟩ | ⟨-, hEq⟩
  · rw [hAlloc, Option.some.injEq, Prod.mk.injEq] at hEq
    obtain ⟨rfl, rfl⟩ := hEq
    have hFrame : Block.frame ⟨pa, 0#64⟩ = p := by
      simp only [Block.frame, hPa]
      omega
    simp only [BitVec.toNat_zero, pow_zero] at hEnd hFree hBits
    refine ⟨by simp, ?_, ?_⟩
    · intro b hb
      rw [List.mem_singleton] at hb
      subst hb
      rw [hFrame]
      exact ⟨by omega, hFree p (le_refl p) (by omega)⟩
    · intro k
      simp only [hBits, Bool.or_eq_true, decide_eq_true_eq, List.mem_singleton, exists_eq_left,
        hFrame]
      constructor
      · rintro (h | h)
        · exact Or.inl h
        · exact Or.inr (by omega)
      · rintro (h | h)
        · exact Or.inl h
        · exact Or.inr (by omega)
  · rw [hAlloc, Option.some.injEq, Prod.mk.injEq] at hEq
    rw [hEq.1] at hOk
    exact absurd (by decide) hOk

theorem mapPageRange_takes (physaddr virtaddr flags len : U64) :
    Respects TakesPages (mapPageRange physaddr virtaddr flags len) :=
  mapPageRangeFrom_respects TakesPages.refl TakesPages.trans TakesPages.mem TakesPages.alloc
    _ _ _ _ _ _

theorem mapPageRange_log (physaddr virtaddr flags len : U64) :
    Respects LogGrows (mapPageRange physaddr virtaddr flags len) :=
  mapPageRangeFrom_log _ _ _ _ _ _

/-! ## The relation -/

/-- The frame bitmap of `n` frames, the page tables below `H` and the blocks in use agree. -/
structure FramesOk (H : Nat → Prop) (n : Nat) (owned : List Block) (s : Machine) : Prop where
  size : s.pageAllocBitmap.size.toNat = n
  nonempty : 1 ≤ n
  small : n < 2 ^ 31
  tables : TableOk H s
  tableUsed : ∀ p f, TablePath H p → s.table p = some f → f < n → s.pageAllocBitmap.bit f = true
  tableApart : ∀ p f, TablePath H p → s.table p = some f → ∀ b ∈ owned, ¬ b.Has f
  disjoint : owned.Pairwise Block.Disjoint
  inside : ∀ b ∈ owned, b.frame + b.pages ≤ n
  aligned : ∀ b ∈ owned, b.pa.toNat = b.frame * 4096
  used : ∀ b ∈ owned, ∀ k, b.Has k → s.pageAllocBitmap.bit k = true

namespace FramesOk

variable {H : Nat → Prop} {n : Nat} {owned : List Block} {s s' : Machine}

theorem order_lt (h : FramesOk H n owned s) {b : Block} (hb : b ∈ owned) :
    b.order.toNat < 31 := by
  refine order_lt_of_pow_le (n := n) ?_ h.small
  have := h.inside b hb
  rw [Block.pages] at this
  omega

/-- The blocks in use do not change when they are reordered. -/
theorem perm (h : FramesOk H n owned s) {owned' : List Block} (hp : owned.Perm owned') :
    FramesOk H n owned' s where
  size := h.size
  nonempty := h.nonempty
  small := h.small
  tables := h.tables
  tableUsed := h.tableUsed
  tableApart := fun p f hPath hf b hb => h.tableApart p f hPath hf b (hp.mem_iff.mpr hb)
  disjoint := (hp.pairwise_iff Block.Disjoint.symm).mp h.disjoint
  inside := fun b hb => h.inside b (hp.mem_iff.mpr hb)
  aligned := fun b hb => h.aligned b (hp.mem_iff.mpr hb)
  used := fun b hb => h.used b (hp.mem_iff.mpr hb)

/-- A successful `alloc_pages` adds a block. -/
theorem alloc (h : FramesOk H n owned s) {order pa : U64} (hOrder : 2 ^ order.toNat ≤ n)
    (hRun : Kernel.allocPages order s = .ok pa s') (hOk : ¬ pa.toInt < 0) :
    FramesOk H n (⟨pa, order⟩ :: owned) s' ∧ s'.mem = s.mem ∧ s'.cr3 = s.cr3 ∧
      s'.vmapAreaPool = s.vmapAreaPool ∧ s'.vmapAreaList = s.vmapAreaList ∧
      s'.mmSpinlock = s.mmSpinlock ∧ s'.allocLog = s.allocLog ++ [⟨pa, order⟩] := by
  unfold Kernel.allocPages at hRun
  rcases allocPages_cases s.pageAllocBitmap (by rw [h.size]; exact h.small)
      order (by rw [h.size]; exact hOrder) with
    ⟨p, pa', bmp, hEq, hPa, hEnd, hFree, -, hSize, hBits⟩ | ⟨-, hEq⟩
  · rw [hEq] at hRun
    cases hRun
    have hFrame : Block.frame ⟨pa, order⟩ = p := by
      simp only [Block.frame, hPa]
      omega
    have hClear : ∀ k, Block.Has ⟨pa, order⟩ k → s.pageAllocBitmap.bit k = false := by
      intro k hk
      rw [Block.Has, hFrame] at hk
      exact hFree k hk.1 hk.2
    have hKeep : ∀ k, s.pageAllocBitmap.bit k = true → bmp.bit k = true := by
      intro k hk
      rw [hBits, hk, Bool.true_or]
    rw [h.size] at hEnd
    refine ⟨⟨?_, h.nonempty, h.small, ⟨h.tables.recursive, h.tables.notRecursive, h.tables.tree⟩,
      ?_, ?_, ?_, ?_, ?_, ?_⟩, rfl, rfl, rfl, rfl, rfl, rfl⟩
    · exact (congrArg BitVec.toNat hSize).trans h.size
    · intro q f hq hf hfn
      exact hKeep f (h.tableUsed q f hq hf hfn)
    · intro q f hq hf b hb hHas
      rcases List.mem_cons.mp hb with rfl | hb
      · have hfn : f < n := by
          have h2 := hHas.2
          rw [hFrame, Block.pages] at h2
          change f < p + 2 ^ order.toNat at h2
          omega
        have hUsed := h.tableUsed q f hq hf hfn
        rw [hClear f hHas] at hUsed
        cases hUsed
      · exact h.tableApart q f hq hf b hb hHas
    · refine List.pairwise_cons.mpr ⟨?_, h.disjoint⟩
      intro b hb k hk hbk
      have hUsed := h.used b hb k hbk
      rw [hClear k hk] at hUsed
      cases hUsed
    · intro b hb
      rcases List.mem_cons.mp hb with rfl | hb
      · rw [hFrame]
        exact hEnd
      · exact h.inside b hb
    · intro b hb
      rcases List.mem_cons.mp hb with rfl | hb
      · rw [hFrame]
        exact hPa
      · exact h.aligned b hb
    · intro b hb k hk
      rcases List.mem_cons.mp hb with rfl | hb
      · rw [Block.Has, hFrame, Block.pages] at hk
        show bmp.bit k = true
        rw [hBits, decide_eq_true hk, Bool.or_true]
      · exact hKeep k (h.used b hb k hk)
  · rw [hEq] at hRun
    cases hRun
    exact absurd (by decide) hOk

/-- `free_pages` removes a block and clears exactly its bits. -/
theorem free (h : FramesOk H n owned s) {b : Block} (hb : b ∈ owned) :
    ∃ s', Kernel.freePages b.pa b.order s = .ok () s' ∧ FramesOk H n (owned.erase b) s' ∧
      (∀ k, s'.pageAllocBitmap.bit k = true ↔ s.pageAllocBitmap.bit k = true ∧ ¬ b.Has k) ∧
      s'.mem = s.mem ∧ s'.cr3 = s.cr3 ∧ s'.vmapAreaPool = s.vmapAreaPool ∧
      s'.vmapAreaList = s.vmapAreaList ∧ s'.mmSpinlock = s.mmSpinlock ∧
      s'.allocLog = s.allocLog := by
  have hIn := h.inside b hb
  have hSmall := h.small
  have hBits : ∀ k, (freePages s.pageAllocBitmap b.pa b.order).bit k = true ↔
      s.pageAllocBitmap.bit k = true ∧ ¬ b.Has k := by
    intro k
    rw [freePages_bit (by have := h.order_lt hb; omega) (by
      simp only [Block.frame, Block.pages] at hIn
      omega), Bool.and_eq_true, decide_eq_true_eq]
    rfl
  refine ⟨_, rfl, ⟨?_, h.nonempty, h.small,
    ⟨h.tables.recursive, h.tables.notRecursive, h.tables.tree⟩, ?_, ?_,
    h.disjoint.sublist List.erase_sublist,
    fun c hc => h.inside c (List.mem_of_mem_erase hc),
    fun c hc => h.aligned c (List.mem_of_mem_erase hc), ?_⟩, hBits, rfl, rfl, rfl, rfl, rfl, rfl⟩
  · exact (congrArg BitVec.toNat (freePages_size _ _)).trans h.size
  · intro q f hq hf hfn
    exact (hBits f).mpr ⟨h.tableUsed q f hq hf hfn, h.tableApart q f hq hf b hb⟩
  · intro q f hq hf c hc
    exact h.tableApart q f hq hf c (List.mem_of_mem_erase hc)
  · intro c hc k hk
    have hc' := List.mem_of_mem_erase hc
    refine (hBits k).mpr ⟨h.used c hc' k hk, fun hbk => ?_⟩
    have hSame := mem_erase_of_has h.disjoint hb hc' hbk hk
    subst hSame
    have hNodup : owned.Nodup := by
      apply h.disjoint.imp
      intro a d had hEq
      subst hEq
      exact had _ a.has_frame a.has_frame
    exact hNodup.not_mem_erase hc

/-- Frames that `alloc_page` can return are fresh. -/
theorem allocsFresh (h : FramesOk H n owned s) (hTakes : TakesPages s s')
    (hFail : NoFail s'.allocLog) : AllocsFresh H s s'.allocLog := by
  obtain ⟨-, new, hLog, hBits⟩ := hTakes
  have hFail' : NoFail new := fun b hb => hFail b (by rw [hLog]; exact List.mem_append_right _ hb)
  obtain ⟨hNodup, hClear, -⟩ := hBits (by rw [h.size]; exact h.nonempty)
    (by rw [h.size]; exact h.small) hFail'
  refine ⟨new, hLog, hFail', hNodup, ?_⟩
  intro b hb p hp hf
  obtain ⟨hLt, hBit⟩ := hClear b hb
  rw [h.tableUsed p b.frame hp hf (by rw [← h.size]; exact hLt)] at hBit
  cases hBit

/-- Growing the tables by frames of the allocator keeps the relation and touches no block. -/
theorem grown (h : FramesOk H n owned s) (hGrown : Grown H s s') (hTakes : TakesPages s s')
    (hFail : NoFail s'.allocLog) :
    FramesOk H n owned s' ∧ ∀ b ∈ owned, ∀ k, b.Has k → s'.mem k = s.mem k := by
  obtain ⟨hSize, new, hLog, hBits⟩ := hTakes
  have hFail' : NoFail new := fun b hb => hFail b (by rw [hLog]; exact List.mem_append_right _ hb)
  obtain ⟨-, hClear, hSet⟩ := hBits (by rw [h.size]; exact h.nonempty)
    (by rw [h.size]; exact h.small) hFail'
  obtain ⟨new', hLog', hTables⟩ := hGrown.log
  obtain rfl : new' = new := List.append_cancel_left (hLog'.symm.trans hLog)
  have hApart : ∀ p f, TablePath H p → s'.table p = some f → ∀ b ∈ owned, ¬ b.Has f := by
    intro p f hp hf b hb hHas
    rcases hTables p f hp hf with hOld | ⟨c, hc, rfl⟩
    · exact h.tableApart p f hp hOld b hb hHas
    · have hUsed := h.used b hb _ hHas
      rw [(hClear c hc).2] at hUsed
      cases hUsed
  refine ⟨⟨by rw [hSize]; exact h.size, h.nonempty, h.small, hGrown.ok, ?_, hApart, h.disjoint,
    h.inside, h.aligned, ?_⟩, ?_⟩
  · intro p f hp hf hfn
    rcases hTables p f hp hf with hOld | ⟨c, hc, rfl⟩
    · exact (hSet f).mpr (Or.inl (h.tableUsed p f hp hOld hfn))
    · exact (hSet _).mpr (Or.inr ⟨c, hc, rfl⟩)
  · intro b hb k hk
    exact (hSet k).mpr (Or.inl (h.used b hb k hk))
  · intro b hb k hk
    exact hGrown.frame k fun p hp hf => hApart p k hp hf b hb hk

/-- Writing to frames that are no tables, and to PML4 entries outside `H`. -/
theorem data (h : FramesOk H n owned s) (s' : Machine) (hCr3 : s'.cr3 = s.cr3)
    (hBmp : s'.pageAllocBitmap = s.pageAllocBitmap)
    (hMem : ∀ p f i, TablePath H p → s.table p = some f → (p = [] → H i ∨ i = 511) →
      s'.mem f i = s.mem f i) :
    FramesOk H n owned s' ∧ ∀ w, H (pageHead w) → s'.page w = s.page w := by
  obtain ⟨hOk, hTable, hPage⟩ := tableOk_data h.tables hCr3 hMem
  refine ⟨⟨by rw [hBmp]; exact h.size, h.nonempty, h.small, hOk, ?_, ?_, h.disjoint, h.inside,
    h.aligned, by rw [hBmp]; exact h.used⟩, hPage⟩
  · intro p f hp hf
    rw [hBmp]
    exact h.tableUsed p f hp ((hTable p hp).symm.trans hf)
  · intro p f hp hf
    exact h.tableApart p f hp ((hTable p hp).symm.trans hf)

variable {virtaddr len : U64}

/-- `map_page_range` over unmapped pages, in a run in which `alloc_page` does not fail. -/
theorem mapPageRange (h : FramesOk H n owned s) (physaddr flags : U64) (hFlags : flags.toNat < 4096)
    (hRange : RangeIn H (vpn virtaddr) len.toNat) (hLen : len.toNat < 2 ^ 31)
    (hFree : ∀ w, vpn virtaddr ≤ w → w < vpn virtaddr + len.toNat → s.page w = none)
    (hFail : NoFail (finalState (Rayos.mapPageRange physaddr virtaddr flags len s)).allocLog) :
    ∃ s', Rayos.mapPageRange physaddr virtaddr flags len s = .ok (len.toNat : Int) s' ∧
      Grown H s s' ∧ TakesPages s s' ∧ FramesOk H n owned s' ∧
      (∀ b ∈ owned, ∀ k, b.Has k → s'.mem k = s.mem k) ∧
      ∀ w, w < 2 ^ 36 → H (pageHead w) →
        s'.page w =
          if vpn virtaddr ≤ w ∧ w < vpn virtaddr + len.toNat then
            some (leafEntry (physaddr + BitVec.ofNat 64 ((w - vpn virtaddr) * 4096)) flags)
          else s.page w := by
  have hTakes := mapPageRange_takes physaddr virtaddr flags len s
  obtain ⟨s', hRun, hGrown, hPages⟩ :=
    mapPageRange_ok h.tables (AddressFree.of_lt hFlags) hRange hLen hFree (h.allocsFresh hTakes hFail)
  rw [hRun] at hTakes hFail
  obtain ⟨hOk, hMem⟩ := h.grown hGrown hTakes hFail
  exact ⟨s', hRun, hGrown, hTakes, hOk, hMem, hPages⟩

/-- `unmap_page_range`: the pages up to the first one that is not mapped are unmapped. -/
theorem unmapPageRange_run (h : FramesOk H n owned s)
    (hRange : RangeIn H (vpn virtaddr) len.toNat) (hLen : len.toNat < 2 ^ 31) :
    ∃ c s', c ≤ len.toNat ∧ (c < len.toNat → s.page (vpn virtaddr + c) = none) ∧
      Rayos.unmapPageRange virtaddr len s = .ok (c : Int) s' ∧ Grown H s s' ∧
      s'.pageAllocBitmap = s.pageAllocBitmap ∧ s'.allocLog = s.allocLog ∧ FramesOk H n owned s' ∧
      (∀ b ∈ owned, ∀ k, b.Has k → s'.mem k = s.mem k) ∧
      ∀ w, w < 2 ^ 36 → H (pageHead w) →
        s'.page w = if vpn virtaddr ≤ w ∧ w < vpn virtaddr + c then none else s.page w := by
  obtain ⟨c, s', hc, hStop, hRun, hGrown, hLog, hBmp, hPages⟩ :=
    Rayos.unmapPageRange_run h.tables hRange hLen
  have hTables : ∀ p f, TablePath H p → s'.table p = some f → s.table p = some f := by
    intro p f hp hf
    obtain ⟨new, hNew, hT⟩ := hGrown.log
    obtain rfl : new = [] := List.append_cancel_left (hNew.symm.trans (hLog.trans (by simp)))
    rcases hT p f hp hf with hOld | ⟨b, hb, -⟩
    · exact hOld
    · cases hb
  refine ⟨c, s', hc, hStop, hRun, hGrown, hBmp, hLog, ⟨by rw [hBmp]; exact h.size, h.nonempty,
    h.small, hGrown.ok, ?_, ?_, h.disjoint, h.inside, h.aligned, by rw [hBmp]; exact h.used⟩, ?_,
    hPages⟩
  · intro p f hp hf
    rw [hBmp]
    exact h.tableUsed p f hp (hTables p f hp hf)
  · intro p f hp hf
    exact h.tableApart p f hp (hTables p f hp hf)
  · intro b hb k hk
    exact hGrown.frame k fun p hp hf => h.tableApart p k hp (hTables p k hp hf) b hb hk

/-- `unmap_page_range` over mapped pages. -/
theorem unmapPageRange (h : FramesOk H n owned s)
    (hRange : RangeIn H (vpn virtaddr) len.toNat) (hLen : len.toNat < 2 ^ 31)
    (hMapped : ∀ w, vpn virtaddr ≤ w → w < vpn virtaddr + len.toNat → s.page w ≠ none) :
    ∃ s', Rayos.unmapPageRange virtaddr len s = .ok (len.toNat : Int) s' ∧ Grown H s s' ∧
      s'.pageAllocBitmap = s.pageAllocBitmap ∧ s'.allocLog = s.allocLog ∧ FramesOk H n owned s' ∧
      (∀ b ∈ owned, ∀ k, b.Has k → s'.mem k = s.mem k) ∧
      ∀ w, w < 2 ^ 36 → H (pageHead w) →
        s'.page w =
          if vpn virtaddr ≤ w ∧ w < vpn virtaddr + len.toNat then none else s.page w := by
  obtain ⟨c, s', hc, hStop, hRest⟩ := h.unmapPageRange_run hRange hLen
  obtain rfl : c = len.toNat := by
    by_contra hNe
    exact hMapped (vpn virtaddr + c) (by omega) (by omega) (hStop (by omega))
  exact ⟨s', hRest⟩

end FramesOk

end Rayos
