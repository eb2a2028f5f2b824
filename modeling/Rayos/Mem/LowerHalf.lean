import Rayos.Mem.HeapUse

/-!
# Blocks in the lower half

The loader and `__usertask_create` map blocks of the page allocator at addresses of the lower half and
unmap them again.  `BlockMapped` says what one allocation with its mapping has done, `BlockTaken` what
is left of it when a page of the range is mapped already.
-/

namespace Rayos

open RadixTable Program

/-- The PML4 entries of the kernel whose tables form a tree: all but the recursive entry 511 and the
entry 256, which the boot code lets share its tables with the entry 0. -/
def kernelHead (i : Nat) : Prop := i < 511 ∧ i ≠ 256

/-- The pages of the lower half. -/
theorem lowerPage_head {w : Nat} (hw : w < 2 ^ 35) :
    kernelHead (pageHead w) ∧ ¬ kmemHead (pageHead w) := by
  simp only [kernelHead, kmemHead, pageHead]
  omega

/-- The frame of a page of a mapped block. -/
theorem entryFrame_leafEntry {pa flags : U64} {k : Nat} (hPa : pa.toNat % 4096 = 0)
    (hFlags : flags.toNat < 4096) (hTop : pa.toNat + k * 4096 < 2 ^ 52) :
    entryFrame (leafEntry (pa + BitVec.ofNat 64 (k * 4096)) flags) = pa.toNat / 4096 + k := by
  have hNat : (pa + BitVec.ofNat 64 (k * 4096)).toNat = pa.toNat + k * 4096 := by
    rw [BitVec.toNat_add, BitVec.toNat_ofNat]
    omega
  rw [leafEntry_of_aligned _ (by omega), entryFrame_entry (by omega) hFlags (by omega), hNat]
  omega

variable {n : Nat} {mapped others : List Block} {s : Machine}

/-- A new block `b` has been taken, the first one that fits, and tables may have been added. -/
structure BlockTaken (n : Nat) (mapped others : List Block) (b : Block) (s s' : Machine) :
    Prop where
  kmem : KmemOk kernelHead n mapped (b :: others) s'
  grown : Grown kernelHead s s'
  clear : ∀ k, b.Has k → s.pageAllocBitmap.bit k = false
  first : ∀ k, k < b.frame → ¬ RangeFree s.pageAllocBitmap k b.pages
  bits : ∀ k, s.pageAllocBitmap.bit k = true → s'.pageAllocBitmap.bit k = true

/-- A new block `b` has been taken and its first `c` pages have been mapped from page `v` on; nothing
else has changed. -/
structure BlockMapped (n : Nat) (mapped others : List Block) (v c : Nat) (b : Block)
    (s s' : Machine) : Prop extends BlockTaken n mapped others b s s' where
  inside : ∀ k, k < c → ∃ e, s'.page (v + k) = some e ∧ entryFrame e = b.frame + k
  outside : ∀ w, w < 2 ^ 36 → kernelHead (pageHead w) → ¬ (v ≤ w ∧ w < v + c) →
    s'.page w = s.page w

section Taken

variable {b : Block} {s' : Machine}

theorem BlockTaken.freeKept (h : BlockTaken n mapped others b s s') : FreeKept n s s' :=
  h.kmem.frames.freeKept_of_grown h.grown h.bits

/-- Blocks in use keep their memory, and the new block has what its frames held. -/
theorem BlockTaken.mem (h : BlockTaken n mapped others b s s') {d : Block}
    (hd : d ∈ mapped ++ b :: others) {k : Nat} (hk : d.Has k) : s'.mem k = s.mem k :=
  h.grown.frame k fun p hp hf => h.kmem.frames.tableApart p k hp hf d hd hk

/-- The blocks are taken from below: a block that was clear as well and is not smaller lies behind. -/
theorem BlockTaken.frame_le (h : BlockTaken n mapped others b s s') {d : Block}
    (hClear : ∀ k, d.Has k → s.pageAllocBitmap.bit k = false) (hPages : b.pages ≤ d.pages) :
    b.frame ≤ d.frame := by
  by_contra hLt
  refine h.first d.frame (by omega) fun k hk hk' => hClear k ⟨hk, ?_⟩
  omega

end Taken

/-- Allocating a block, in a run in which `alloc_pages` does not fail. -/
theorem KmemOk.allocBlock (h : KmemOk kernelHead n mapped others s) {order phys : U64}
    {s1 : Machine} (hFits : 2 ^ order.toNat ≤ n) (hAlloc : Kernel.allocPages order s = .ok phys s1)
    (hFail : NoFail s1.allocLog) : BlockTaken n mapped others ⟨phys, order⟩ s s1 ∧
      ∀ w, s1.page w = s.page w := by
  obtain ⟨phys', s1', hAlloc', hLog1⟩ := h.frames.alloc_run hFits
  rw [hAlloc] at hAlloc'
  cases hAlloc'
  have hPa : ¬ phys.toInt < 0 := by
    refine hFail ⟨phys, order⟩ ?_
    rw [hLog1]
    simp
  obtain ⟨hKmem1, hPool1, hAreas1, hLock1, -⟩ := h.alloc hFits hAlloc hPa
  obtain ⟨-, hMem1, hCr31, -⟩ := h.frames.alloc hFits hAlloc hPa
  obtain ⟨hClear, hFirst, hMono⟩ := h.frames.alloc_bits hFits hAlloc hPa
  refine ⟨⟨hKmem1, Grown.of_mem_eq h.frames.tables hMem1 hCr31
    (by rw [hLog1]; exact List.prefix_append _ _) hPool1 hAreas1 hLock1, hClear, hFirst, hMono⟩, ?_⟩
  intro w
  simp only [Machine.page, Machine.root, hMem1, hCr31]

/-- A block stays taken when single pages are taken for tables. -/
theorem BlockTaken.grow {b : Block} {s1 s2 : Machine} (h : BlockTaken n mapped others b s s1)
    (hGrown : Grown kernelHead s1 s2) (hTakes : TakesPages s1 s2)
    (hFrames : FramesOk kernelHead n (mapped ++ b :: others) s2) (hFail : NoFail s2.allocLog)
    (hPage : ∀ f, f < 2 ^ 31 → s2.page (kmemPage f) = s1.page (kmemPage f)) :
    BlockTaken n mapped others b s s2 where
  kmem := h.kmem.of_page hFrames hPage
  grown := h.grown.trans hGrown
  clear := h.clear
  first := h.first
  bits := fun k hk => h.kmem.frames.takes_bits hTakes hFail k (h.bits k hk)

/-- Allocating a block and mapping it from an address of the lower half on, over unmapped pages and in
a run in which `alloc_pages` does not fail. -/
theorem KmemOk.allocMap (h : KmemOk kernelHead n mapped others s) (base count flags : U64)
    (hFlags : flags.toNat < 4096) {v c : Nat} {order : U64} (hv : vpn base = v)
    (hc : count.toNat = c) (hLow : v + c ≤ 2 ^ 35) (hLen : c < 2 ^ 31)
    (hFits : 2 ^ order.toNat ≤ n) (hFree : ∀ w, v ≤ w → w < v + c → s.page w = none)
    (hFail : ∀ phys s1, Kernel.allocPages order s = .ok phys s1 →
      NoFail (finalState (mapPageRange phys base flags count s1)).allocLog) :
    ∃ phys s1 s2, Kernel.allocPages order s = .ok phys s1 ∧
      mapPageRange phys base flags count s1 = .ok (c : Int) s2 ∧
      BlockMapped n mapped others v c ⟨phys, order⟩ s s2 := by
  subst hv hc
  obtain ⟨phys, s1, hAlloc, -⟩ := h.frames.alloc_run hFits
  have hFailMap := hFail phys s1 hAlloc
  obtain ⟨hTaken, hPage1⟩ := h.allocBlock hFits hAlloc
    (NoFail.of_isPrefix hFailMap (mapPageRange_log _ _ _ _ s1))
  obtain ⟨s2, hMap, hGrown, hTakes, hFrames2, -, hPage2⟩ :=
    hTaken.kmem.frames.mapPageRange phys flags hFlags
      ⟨by omega, fun w hw hw' => (lowerPage_head (by omega)).1⟩ hLen
      (fun w hw hw' => (hPage1 w).trans (hFree w hw hw')) hFailMap
  rw [hMap] at hFailMap
  have hTaken2 := hTaken.grow hGrown hTakes hFrames2 hFailMap (by
    intro f hf
    rw [hPage2 _ (kmemPage_lt hf) (h.head hf), if_neg]
    rintro ⟨hLow', hHigh⟩
    exact (lowerPage_head (by omega)).2 (kmemPage_head hf))
  refine ⟨phys, s1, s2, hAlloc, hMap, hTaken2, ?_, ?_⟩
  · intro k hk
    have hAligned := hTaken2.kmem.frames.aligned ⟨phys, order⟩ (by simp)
    have hIn := hTaken2.kmem.frames.inside ⟨phys, order⟩ (by simp)
    have hSmall := hTaken2.kmem.frames.small
    simp only at hAligned
    rw [hPage2 _ (by omega) (lowerPage_head (by omega)).1, if_pos (by omega),
      Nat.add_sub_cancel_left]
    refine ⟨_, rfl, ?_⟩
    rw [entryFrame_leafEntry (by omega) hFlags (by omega)]
    rfl
  · intro w hw hHw hOut
    rw [hPage2 w hw hHw, if_neg hOut, hPage1]

/-- Unmapping a range of the lower half, up to the first page that is not mapped. -/
theorem KmemOk.unmapLower_run (h : KmemOk kernelHead n mapped others s) (base count : U64) {v c : Nat}
    (hv : vpn base = v) (hc : count.toNat = c) (hLow : v + c ≤ 2 ^ 35) (hLen : c < 2 ^ 31) :
    ∃ d s', d ≤ c ∧ (d < c → s.page (v + d) = none) ∧ unmapPageRange base count s = .ok (d : Int) s' ∧
      KmemOk kernelHead n mapped others s' ∧ s'.cr3 = s.cr3 ∧
      (∀ b ∈ mapped ++ others, ∀ k, b.Has k → s'.mem k = s.mem k) ∧
      ∀ w, w < 2 ^ 36 → kernelHead (pageHead w) →
        s'.page w = if v ≤ w ∧ w < v + d then none else s.page w := by
  subst hv hc
  have hRange : RangeIn kernelHead (vpn base) count.toNat :=
    ⟨by omega, fun w hw hw' => (lowerPage_head (by omega)).1⟩
  obtain ⟨d, s', hd, hStop, hRun, hGrown, -, -, hFrames, hMem, hPage⟩ :=
    h.frames.unmapPageRange_run hRange hLen
  refine ⟨d, s', hd, hStop, hRun, h.of_page hFrames fun f hf => ?_, hGrown.cr3, hMem, hPage⟩
  rw [hPage _ (kmemPage_lt hf) (h.head hf), if_neg]
  rintro ⟨hLow', hHigh⟩
  exact (lowerPage_head (by omega)).2 (kmemPage_head hf)

/-- Unmapping mapped pages of the lower half. -/
theorem KmemOk.unmapLower (h : KmemOk kernelHead n mapped others s) (base count : U64) {v c : Nat}
    (hv : vpn base = v) (hc : count.toNat = c) (hLow : v + c ≤ 2 ^ 35) (hLen : c < 2 ^ 31)
    (hMapped : ∀ w, v ≤ w → w < v + c → s.page w ≠ none) :
    ∃ s', unmapPageRange base count s = .ok (c : Int) s' ∧ KmemOk kernelHead n mapped others s' ∧
      s'.cr3 = s.cr3 ∧
      (∀ b ∈ mapped ++ others, ∀ k, b.Has k → s'.mem k = s.mem k) ∧
      ∀ w, w < 2 ^ 36 → kernelHead (pageHead w) →
        s'.page w = if v ≤ w ∧ w < v + c then none else s.page w := by
  obtain ⟨d, s', hd, hStop, hRest⟩ := h.unmapLower_run base count hv hc hLow hLen
  obtain rfl : d = c := by
    by_contra hNe
    exact hMapped (v + d) (by omega) (by omega) (hStop (by omega))
  exact ⟨s', hRest⟩

end Rayos
