import Rayos.Mem.Heap

/-!
# Whole runs of the kernel heap

The state of a run is the machine together with two history variables that no code reads: the block
of the metadata pool and the blocks that other users of the page allocator hold.

* `KmemOk H n mapped others s` — the frame bitmap and the tables agree with the blocks in use, and the
  pages of the region at `KMEM_BASE` that are mapped are those of the blocks `mapped`, each page to
  its own frame.
* `HeapInv` — `KmemOk` for the pool and the areas on `vmap_area_list`.
* `heapInv_init`, `heapInv_step` — `mm_init` establishes it and every call keeps it.
-/

namespace Rayos

open RadixTable Program

/-- The PML4 entries of the region at `KMEM_BASE`, for less than `2 ^ 31` frames. -/
def kmemHead (i : Nat) : Prop := 288 ≤ i ∧ i < 304

/-- The page of the region that belongs to a frame. -/
def kmemPage (f : Nat) : Nat := 288 * 2 ^ 27 + f

theorem kmemPage_head {f : Nat} (hf : f < 2 ^ 31) : kmemHead (pageHead (kmemPage f)) := by
  simp only [kmemHead, pageHead, kmemPage]
  omega

theorem kmemPage_lt {f : Nat} (hf : f < 2 ^ 31) : kmemPage f < 2 ^ 36 := by
  simp only [kmemPage]
  omega

theorem vpn_kmem {pa : U64} (h : pa.toNat < 2 ^ 43) :
    vpn (kmemBase + pa) = kmemPage (pa.toNat / 4096) := by
  simp only [vpn, kmemBase, kmemPage, BitVec.toNat_add, BitVec.toNat_ofNat]
  omega

/-- The leaf entry that maps a frame in the region. -/
def kmemEntry (f : Nat) : U64 := leafEntry (BitVec.ofNat 64 (f * 4096)) mapKernRw

/-! ## The mapped region -/

/-- The bitmap, the tables and the region at `KMEM_BASE` agree on the blocks: `mapped` are the ones
that are mapped there, `others` are in use but not mapped there. -/
structure KmemOk (H : Nat → Prop) (n : Nat) (mapped others : List Block) (s : Machine) : Prop where
  region : ∀ i, kmemHead i → H i
  frames : FramesOk H n (mapped ++ others) s
  present : ∀ b ∈ mapped, ∀ f, b.Has f → s.page (kmemPage f) = some (kmemEntry f)
  absent : ∀ f, f < 2 ^ 31 → (∀ b ∈ mapped, ¬ b.Has f) → s.page (kmemPage f) = none

namespace KmemOk

variable {H : Nat → Prop} {n : Nat} {mapped others : List Block} {s : Machine} {b : Block}

theorem head (h : KmemOk H n mapped others s) {f : Nat} (hf : f < 2 ^ 31) :
    H (pageHead (kmemPage f)) :=
  h.region _ (kmemPage_head hf)

theorem perm (h : KmemOk H n mapped others s) {mapped' : List Block} (hp : mapped.Perm mapped') :
    KmemOk H n mapped' others s where
  region := h.region
  frames := h.frames.perm (hp.append_right others)
  present := fun b hb => h.present b (hp.mem_iff.mpr hb)
  absent := fun f hf hNot => h.absent f hf fun b hb => hNot b (hp.mem_iff.mp hb)

/-- The blocks that are not mapped may change as long as the pages of the region do not. -/
theorem of_page (h : KmemOk H n mapped others s) {others' : List Block} {s' : Machine}
    (hFrames : FramesOk H n (mapped ++ others') s')
    (hPage : ∀ f, f < 2 ^ 31 → s'.page (kmemPage f) = s.page (kmemPage f)) :
    KmemOk H n mapped others' s' where
  region := h.region
  frames := hFrames
  present := by
    intro b hb f hf
    have hIn := h.frames.inside b (List.mem_append_left _ hb)
    have hSmall := h.frames.small
    rw [hPage f (by have := hf.2; omega)]
    exact h.present b hb f hf
  absent := by
    intro f hf hNot
    rw [hPage f hf]
    exact h.absent f hf hNot

/-- Changes outside of memory, the tables and the bitmap. -/
theorem congr (h : KmemOk H n mapped others s) (s' : Machine) (hMem : s'.mem = s.mem)
    (hCr3 : s'.cr3 = s.cr3) (hBmp : s'.pageAllocBitmap = s.pageAllocBitmap) :
    KmemOk H n mapped others s' := by
  obtain ⟨hFrames, hPage⟩ := h.frames.data s' hCr3 hBmp fun p f i _ _ _ => by rw [hMem]
  exact h.of_page hFrames fun f hf => hPage _ (h.head hf)

theorem pa_lt (h : KmemOk H n mapped others s) (hb : b ∈ mapped ++ others) :
    b.pa.toNat + b.pages * 4096 < 2 ^ 43 := by
  have hIn := h.frames.inside b hb
  have hSmall := h.frames.small
  have hAligned := h.frames.aligned b hb
  omega

theorem pages_eq (h : KmemOk H n mapped others s) (hb : b ∈ mapped ++ others) :
    (orderToPages b.order).toNat = b.pages := by
  have := h.frames.order_lt hb
  rw [orderToPages_toNat (by omega), Block.pages]

/-- The pages of a block in the region. -/
theorem rangeIn (h : KmemOk H n mapped others s) (hb : b ∈ mapped ++ others) :
    RangeIn H (vpn (kmemBase + b.pa)) (orderToPages b.order).toNat := by
  have hLt := h.pa_lt hb
  have hAligned := h.frames.aligned b hb
  rw [vpn_kmem (by omega), h.pages_eq hb]
  refine ⟨?_, fun w hw hw' => ?_⟩
  · simp only [kmemPage]
    omega
  · obtain ⟨k, rfl⟩ := Nat.exists_eq_add_of_le hw
    refine h.region _ ?_
    simp only [kmemHead, pageHead, kmemPage] at hw' ⊢
    omega

theorem len_lt (h : KmemOk H n mapped others s) (hb : b ∈ mapped ++ others) :
    (orderToPages b.order).toNat < 2 ^ 31 := by
  have hIn := h.frames.inside b hb
  have hSmall := h.frames.small
  rw [h.pages_eq hb]
  omega

/-- A page of the region lies in the range of a block exactly when its frame is in the block. -/
theorem page_in_range (h : KmemOk H n mapped others s) (hb : b ∈ mapped ++ others) (f : Nat) :
    vpn (kmemBase + b.pa) ≤ kmemPage f ∧
        kmemPage f < vpn (kmemBase + b.pa) + (orderToPages b.order).toNat ↔ b.Has f := by
  have hLt := h.pa_lt hb
  rw [vpn_kmem (by omega), h.pages_eq hb]
  simp only [kmemPage, Block.Has, Block.frame]
  omega

/-- A successful `alloc_pages` adds a block that is not mapped. -/
theorem alloc {s' : Machine} {order pa : U64} (h : KmemOk H n mapped others s)
    (hFits : 2 ^ order.toNat ≤ n) (hRun : Kernel.allocPages order s = .ok pa s')
    (hPa : ¬ pa.toInt < 0) :
    KmemOk H n mapped (⟨pa, order⟩ :: others) s' ∧ s'.vmapAreaPool = s.vmapAreaPool ∧
      s'.vmapAreaList = s.vmapAreaList ∧ s'.mmSpinlock = s.mmSpinlock ∧
      s'.allocLog = s.allocLog ++ [⟨pa, order⟩] := by
  obtain ⟨hFrames, hMem, hCr3, hPool, hAreas, hLock, hLog⟩ := h.frames.alloc hFits hRun hPa
  have hPage : ∀ w, s'.page w = s.page w := by
    intro w
    simp only [Machine.page, Machine.root, hMem, hCr3]
  exact ⟨h.of_page (hFrames.perm List.perm_middle.symm) fun f _ => hPage _, hPool, hAreas, hLock,
    hLog⟩

/-- Mapping a block that is not mapped yet: `map_page_range` does not meet a mapped page. -/
theorem map (h : KmemOk H n mapped (b :: others) s)
    (hFail : NoFail (finalState
      (mapPageRange b.pa (kmemBase + b.pa) mapKernRw (orderToPages b.order) s)).allocLog) :
    ∃ s', mapPageRange b.pa (kmemBase + b.pa) mapKernRw (orderToPages b.order) s =
        .ok (b.pages : Int) s' ∧
      KmemOk H n (b :: mapped) others s' ∧ Grown H s s' ∧ TakesPages s s' ∧
      (∀ c ∈ mapped ++ b :: others, ∀ k, c.Has k → s'.mem k = s.mem k) ∧
      ∀ w, w < 2 ^ 36 → H (pageHead w) → ¬ kmemHead (pageHead w) → s'.page w = s.page w := by
  have hb : b ∈ mapped ++ b :: others := by simp
  have hNew : ∀ c ∈ mapped, b.Disjoint c := by
    intro c hc
    have hDisj := (List.pairwise_append.mp h.frames.disjoint).2.2
    exact (hDisj c hc b (by simp)).symm
  have hSmall := h.frames.small
  have hIn := h.frames.inside b hb
  have hAligned := h.frames.aligned b hb
  have hRangeIn := h.rangeIn hb
  have hRange := h.page_in_range hb
  obtain ⟨s', hRun, hGrown, hTakes, hFrames, hMem, hPages⟩ :=
    h.frames.mapPageRange b.pa mapKernRw (by decide) hRangeIn
      (h.len_lt hb) (by
        intro w hw hw'
        obtain ⟨k, hk⟩ := Nat.exists_eq_add_of_le hw
        rw [vpn_kmem (by have := h.pa_lt hb; omega)] at hk
        obtain ⟨f, rfl⟩ : ∃ f, w = kmemPage f := ⟨b.pa.toNat / 4096 + k, by
          rw [hk]
          simp only [kmemPage]
          omega⟩
        have hHas := (hRange f).mp ⟨hw, hw'⟩
        refine h.absent f (by have := hHas.2; omega) fun c hc hcf => ?_
        exact hNew c hc f hHas hcf) hFail
  rw [h.pages_eq hb] at hRun
  refine ⟨s', hRun, ⟨h.region, hFrames.perm ?_, ?_, ?_⟩, hGrown, hTakes, hMem, ?_⟩
  · exact List.perm_middle
  · intro c hc f hf
    rcases List.mem_cons.mp hc with rfl | hc
    · rw [hPages _ (kmemPage_lt (by have := hf.2; omega))
        (h.head (by have := hf.2; omega)), if_pos ((hRange f).mpr hf), kmemEntry]
      congr 2
      rw [vpn_kmem (by have := h.pa_lt hb; omega)]
      apply BitVec.eq_of_toNat_eq
      have h1 := hf.1
      have h2 := hf.2
      simp only [Block.frame] at h1 hAligned
      simp only [kmemPage, BitVec.toNat_add, BitVec.toNat_ofNat]
      omega
    · have hInC := h.frames.inside c (List.mem_append_left _ hc)
      have hf2 := hf.2
      rw [hPages _ (kmemPage_lt (by omega)) (h.head (by omega)),
        if_neg fun hIn' => hNew c hc f ((hRange f).mp hIn') hf]
      exact h.present c hc f hf
  · intro f hf hNot
    rw [hPages _ (kmemPage_lt hf) (h.head hf),
      if_neg fun hIn' => hNot b (by simp) ((hRange f).mp hIn')]
    exact h.absent f hf fun c hc => hNot c (List.mem_cons_of_mem b hc)
  · intro w hw hHw hNot
    rw [hPages w hw hHw, if_neg]
    rintro ⟨hLow, hHigh⟩
    have hLt := h.pa_lt hb
    rw [vpn_kmem (by omega)] at hLow hHigh
    rw [h.pages_eq hb] at hHigh
    simp only [kmemHead, pageHead, kmemPage] at hNot hLow hHigh
    omega

/-- `get_physaddr` on an address of the region. -/
theorem getPhysaddr (h : KmemOk H n mapped others s) (hb : b ∈ mapped) {x : U64}
    (hx : b.Has (x.toNat / 4096)) : Rayos.getPhysaddr (kmemBase + x) s = .ok x s := by
  have hIn := h.frames.inside b (List.mem_append_left _ hb)
  have hSmall := h.frames.small
  have hx2 := hx.2
  have hAddr : (BitVec.ofNat 64 (x.toNat / 4096 * 4096)).toNat = x.toNat / 4096 * 4096 := by
    rw [BitVec.toNat_ofNat]
    omega
  have hOff : (kmemBase + x).toNat % 4096 = x.toNat % 4096 := by
    rw [BitVec.toNat_add, kmemBase, BitVec.toNat_ofNat]
    omega
  rw [getPhysaddr_eq h.frames.tables.recursive, vpn_kmem (by omega), h.present b hb _ hx, kmemEntry]
  congr 1
  apply BitVec.eq_of_toNat_eq
  rw [physaddrOf_leafEntry (by omega) (by decide) (by omega), hOff, hAddr]
  omega

/-- Giving back a mapped block: its bits are cleared first, then its pages are unmapped. -/
theorem release (h : KmemOk H n (b :: mapped) others s) :
    ∃ s1 s2, Kernel.freePages b.pa b.order s = .ok () s1 ∧
      unmapPageRange (kmemBase + b.pa) (orderToPages b.order) s1 = .ok (b.pages : Int) s2 ∧
      KmemOk H n mapped others s2 ∧
      (∀ k, s2.pageAllocBitmap.bit k = true ↔ s.pageAllocBitmap.bit k = true ∧ ¬ b.Has k) ∧
      s2.vmapAreaPool = s.vmapAreaPool ∧ s2.vmapAreaList = s.vmapAreaList ∧
      s2.mmSpinlock = s.mmSpinlock ∧ s2.allocLog = s.allocLog ∧
      ∀ c ∈ mapped ++ others, ∀ k, c.Has k → s2.mem k = s.mem k := by
  have hb : b ∈ b :: mapped ++ others := by simp
  have hSmall := h.frames.small
  obtain ⟨s1, hFree, hFrames1, hBits, hMem, hCr3, hPool, hAreas, hLock, hLog⟩ := h.frames.free hb
  rw [List.cons_append, List.erase_cons_head] at hFrames1
  -- the tables are as before, so the block is still mapped
  have hPage : ∀ w, s1.page w = s.page w := by
    intro w
    simp only [Machine.page, Machine.root, hMem, hCr3]
  have hRange := h.page_in_range hb
  obtain ⟨s2, hRun, hGrown, hBmp, hLog2, hFrames2, hMem2, hPages⟩ :=
    hFrames1.unmapPageRange (h.rangeIn hb) (h.len_lt hb) (by
      intro w hw hw'
      obtain ⟨k, hk⟩ := Nat.exists_eq_add_of_le hw
      rw [vpn_kmem (by have := h.pa_lt hb; omega)] at hk
      obtain ⟨f, rfl⟩ : ∃ f, w = kmemPage f := ⟨b.pa.toNat / 4096 + k, by
        rw [hk]
        simp only [kmemPage]
        omega⟩
      rw [hPage, h.present b (by simp) f ((hRange f).mp ⟨hw, hw'⟩)]
      simp)
  rw [h.pages_eq hb] at hRun
  have hDisj := (List.pairwise_cons.mp h.frames.disjoint).1
  refine ⟨s1, s2, hFree, hRun, ⟨h.region, hFrames2, ?_, ?_⟩, ?_, hGrown.pool.trans hPool,
    hGrown.areas.trans hAreas, hGrown.lock.trans hLock, hLog2.trans hLog,
    fun c hc k hk => (hMem2 c hc k hk).trans (by rw [hMem])⟩
  · intro c hc f hf
    have hIn := h.frames.inside c (by simp [hc])
    have hf2 := hf.2
    rw [hPages _ (kmemPage_lt (by omega)) (h.head (by omega)), if_neg, hPage]
    · exact h.present c (List.mem_cons_of_mem b hc) f hf
    · intro hIn'
      exact hDisj c (List.mem_append_left _ hc) f ((hRange f).mp hIn') hf
  · intro f hf hNot
    rw [hPages _ (kmemPage_lt hf) (h.head hf)]
    split
    · rfl
    · rename_i hOut
      rw [hPage]
      refine h.absent f hf fun c hc hcf => ?_
      rcases List.mem_cons.mp hc with rfl | hc
      · exact hOut ((hRange f).mpr hcf)
      · exact hNot c hc hcf
  · intro k
    rw [hBmp]
    exact hBits k

end KmemOk

/-! ## Areas and blocks -/

/-- The area that `kmalloc` records for a block. -/
def areaOf (b : Block) : VmapArea where
  vaStart := kmemBase + b.pa
  vaEnd := kmemBase + b.pa + orderToPages b.order * pageSize
  vaNrpages := orderToPages b.order

/-- The block that `kfree` gives back for an area. -/
def areaBlock (vm : VmapArea) : Block where
  pa := vm.vaStart - kmemBase
  order := sizeToOrder (vm.vaNrpages * pageSize)

/-- `kfree` recomputes the block from the area. -/
theorem areaBlock_areaOf {b : Block} (h : b.order.toNat ≤ 51) : areaBlock (areaOf b) = b := by
  have hOrder : sizeToOrder (orderToPages b.order * pageSize) = b.order := sizeToOrder_orderToPages h
  have hPa : kmemBase + b.pa - kmemBase = b.pa := by
    rw [BitVec.add_comm, BitVec.add_sub_cancel]
  simp only [areaBlock, areaOf, hOrder, hPa]

/-- Disjoint blocks lie one after the other. -/
theorem Block.Disjoint.ordered {b c : Block} (h : b.Disjoint c) :
    b.frame + b.pages ≤ c.frame ∨ c.frame + c.pages ≤ b.frame := by
  have hb : 0 < b.pages := Nat.pow_pos (by decide)
  have hc : 0 < c.pages := Nat.pow_pos (by decide)
  have hMax := h (max b.frame c.frame)
  simp only [Block.Has] at hMax
  omega

/-! ## The run -/

/-- The state of a run: the machine, the block of the metadata pool, and the blocks that other users
of the page allocator hold. -/
structure HeapState where
  machine : Machine
  pool : Block
  others : List Block

/-- The blocks of the areas on `vmap_area_list`. -/
def HeapState.live (s : HeapState) : List Block :=
  s.machine.vmapAreaList.map fun area => areaBlock area.2

/-- What holds when `mm_init` is called: `page_init` has built the bitmap, the recursive entry is in
place, the tables of the region at `KMEM_BASE` form a tree of reserved frames that maps nothing yet
(the boot code leaves the region without tables), and there are the 32 frames that `mm_init` asks
for. -/
structure KernelBoot (image : KernelImage) (totalMem : U64) (s : Machine) : Prop where
  bitmap : s.pageAllocBitmap = pageInitBitmap image totalMem
  small : (pageInitBits totalMem).toNat < 2 ^ 31
  enough : 32 ≤ (pageInitBits totalMem).toNat
  tables : TableOk kmemHead s
  reserved : ∀ p f, TablePath kmemHead p → s.table p = some f →
    f < reservedFrames image totalMem
  unmapped : ∀ f, f < 2 ^ 31 → s.page (kmemPage f) = none
  log : s.allocLog = []
  areas : s.vmapAreaList = []

/-- The state after `mm_init`, which has taken the first block for the pool. -/
def HeapInit (boot : Machine) (s : HeapState) : Prop :=
  mmInit boot = .ok () s.machine ∧ NoFail s.machine.allocLog ∧
    s.machine.allocLog.head? = some s.pool ∧ s.others = []

/-- Frames that somebody else may write to: those of the areas and those of other users. -/
def HeapState.Foreign (s : HeapState) (f : Nat) : Prop := ∃ b ∈ s.live ++ s.others, b.Has f

/-- One step of a run over `n` frames, in which `alloc_pages` does not fail: a successful `kmalloc`,
a `kfree` of a live pointer, an allocation or release by another user, or a write by the users of
the frames, who may also enter PML4 entries outside the region. -/
inductive HeapNext (n : Nat) (s : HeapState) : HeapState → Prop where
  | kmalloc {size ptr : U64} {m : Machine} (hSize : size ≠ 0#64)
      (hFits : 2 ^ (sizeToOrder size).toNat ≤ n) (hRun : kmalloc size s.machine = .ok ptr m)
      (hOk : ptr ≠ 0#64) (hFail : NoFail m.allocLog) : HeapNext n s { s with machine := m }
  | kfree {area : U64 × VmapArea} {ret : Int} {m : Machine}
      (hLive : area ∈ s.machine.vmapAreaList)
      (hRun : kfree area.2.vaStart s.machine = .ok ret m) : HeapNext n s { s with machine := m }
  | allocPages {order pa : U64} {m : Machine} (hFits : 2 ^ order.toNat ≤ n)
      (hRun : Kernel.allocPages order s.machine = .ok pa m) (hFail : NoFail m.allocLog) :
      HeapNext n s { s with machine := m, others := ⟨pa, order⟩ :: s.others }
  | freePages {b : Block} {m : Machine} (hOwn : b ∈ s.others)
      (hRun : Kernel.freePages b.pa b.order s.machine = .ok () m) :
      HeapNext n s { s with machine := m, others := s.others.erase b }
  | write {f i : Nat} {v : U64}
      (hOwn : s.Foreign f ∨ f = s.machine.root ∧ ¬ kmemHead i ∧ i ≠ 511) :
      HeapNext n s { s with machine := { s.machine with mem := writeWord s.machine.mem f i v } }

/-- The states that runs reach after `mm_init`. -/
def HeapReachable (n : Nat) (boot : Machine) (s : HeapState) : Prop :=
  ∃ s0, HeapInit boot s0 ∧ Relation.ReflTransGen (HeapNext n) s0 s

/-- The invariant of the heap. -/
structure HeapInv (n : Nat) (s : HeapState) : Prop where
  kmem : KmemOk kmemHead n (s.pool :: s.live) s.others s.machine
  areas : ∀ area ∈ s.machine.vmapAreaList,
    areaBlock area.2 ∈ s.machine.allocLog ∧ area.2 = areaOf (areaBlock area.2)
  unlocked : s.machine.mmSpinlock = false

/-! ## `mm_init` -/

theorem heapInv_init {image : KernelImage} {totalMem : U64} {boot : Machine} {s : HeapState}
    (hBoot : KernelBoot image totalMem boot) (hInit : HeapInit boot s) :
    HeapInv (pageInitBits totalMem).toNat s := by
  obtain ⟨m, pool, others⟩ := s
  obtain ⟨hRun, hFail, hPool, hOthers⟩ := hInit
  simp only at hRun hFail hPool hOthers
  subst hOthers
  have hSize : boot.pageAllocBitmap.size.toNat = (pageInitBits totalMem).toNat := by
    rw [hBoot.bitmap, pageInitBitmap_size]
  have hEnough := hBoot.enough
  have hKmem : KmemOk kmemHead (pageInitBits totalMem).toNat [] [] boot := by
    refine ⟨fun _ h => h, ⟨hSize, by omega, hBoot.small, hBoot.tables, ?_, by simp, by simp, by simp, by simp,
      by simp⟩, by simp, fun f hf _ => hBoot.unmapped f hf⟩
    intro p f hp hf _
    rw [hBoot.bitmap, pageInitBitmap_bit, decide_eq_true_eq]
    exact hBoot.reserved p f hp hf
  unfold mmInit at hRun
  obtain ⟨pa, m1, hAlloc, hRun⟩ := bind_eq_ok.mp hRun
  obtain ⟨ret, m2, hMap, hRun⟩ := bind_eq_ok.mp hRun
  cases hRun
  have hTakes := Respects.of_ok (mapPageRange_log _ _ _ _) hMap
  have hOrder : (pagesToOrder vmapAreaPoolNrPages).toNat = 5 := by decide
  have hFail1 : NoFail m1.allocLog := NoFail.of_isPrefix hFail hTakes
  have hLog1 : m1.allocLog = [⟨pa, pagesToOrder vmapAreaPoolNrPages⟩] := by
    unfold Kernel.allocPages at hAlloc
    split at hAlloc
    · cases hAlloc
    · cases hAlloc
      simp [hBoot.log]
  have hPa : ¬ pa.toInt < 0 := hFail1 ⟨pa, pagesToOrder vmapAreaPoolNrPages⟩ (by simp [hLog1])
  obtain ⟨hKmem1, -, hAreas1, -⟩ := hKmem.alloc (by rw [hOrder]; omega) hAlloc hPa
  have hLen : vmapAreaPoolNrPages = orderToPages (pagesToOrder vmapAreaPoolNrPages) := by decide
  rw [BitVec.add_comm pa kmemBase, hLen] at hMap
  obtain ⟨m2', hMap', hKmem2, hGrown, -, -, -⟩ := hKmem1.map (by
    rw [← hLen] at hMap ⊢
    rw [hMap]
    exact hFail)
  rw [← hLen] at hMap hMap'
  rw [hMap] at hMap'
  cases hMap'
  -- the pool is the first block of the history
  obtain rfl : pool = ⟨pa, pagesToOrder vmapAreaPoolNrPages⟩ := by
    obtain ⟨new, hNew⟩ := hTakes
    simp only [← hNew, hLog1, List.cons_append, List.head?_cons, Option.some.injEq] at hPool
    exact hPool.symm
  have hAreas : m2.vmapAreaList = [] := by
    rw [hGrown.areas, hAreas1, hBoot.areas]
  refine ⟨?_, by simp [hAreas], rfl⟩
  simp only [HeapState.live, hAreas, List.map_nil]
  exact hKmem2.congr _ rfl rfl rfl

/-! ## `kmalloc` -/

/-- A successful `__kmem_map`. -/
theorem kmemMap_ok {n : Nat} {mapped others : List Block} {m m' : Machine} {order va : U64}
    (h : KmemOk kmemHead n mapped others m) (hFits : 2 ^ order.toNat ≤ n)
    (hRun : kmemMap order m = .ok va m') (hva : va ≠ 0#64) (hFail : NoFail m'.allocLog) :
    ∃ pa, va = kmemBase + pa ∧ KmemOk kmemHead n (⟨pa, order⟩ :: mapped) others m' ∧
      m.allocLog ++ [⟨pa, order⟩] <+: m'.allocLog ∧ m'.vmapAreaPool = m.vmapAreaPool ∧
      m'.vmapAreaList = m.vmapAreaList ∧ m'.mmSpinlock = m.mmSpinlock := by
  unfold kmemMap at hRun
  obtain ⟨pa, m1, hAlloc, hRun⟩ := bind_eq_ok.mp hRun
  split at hRun
  · cases hRun
    exact absurd rfl hva
  · rename_i hPa
    obtain ⟨ret, m2, hMap, hRun⟩ := bind_eq_ok.mp hRun
    split at hRun
    · cases hRun
      exact absurd rfl hva
    · cases hRun
      obtain ⟨hKmem1, hPool1, hAreas1, hLock1, hLog1⟩ := h.alloc hFits hAlloc hPa
      obtain ⟨m2', hMap', hKmem2, hGrown, -, -, -⟩ := hKmem1.map (by rw [hMap]; exact hFail)
      rw [hMap] at hMap'
      cases hMap'
      have hLog := Respects.of_ok (mapPageRange_log _ _ _ _) hMap
      refine ⟨pa, rfl, hKmem2, ?_, hGrown.pool.trans hPool1, hGrown.areas.trans hAreas1,
        hGrown.lock.trans hLock1⟩
      rw [← hLog1]
      exact hLog

variable {n : Nat} {s : HeapState}

/-- A successful `kmalloc` adds one area, for a block of the order of its size. -/
theorem kmalloc_ok {size ptr : U64} {m' : Machine} (h : HeapInv n s) (hSize : size ≠ 0#64)
    (hFits : 2 ^ (sizeToOrder size).toNat ≤ n) (hRun : kmalloc size s.machine = .ok ptr m')
    (hOk : ptr ≠ 0#64) (hFail : NoFail m'.allocLog) :
    HeapInv n { s with machine := m' } ∧
      ∃ (b : Block) (obj : U64), b.order = sizeToOrder size ∧ ptr = kmemBase + b.pa ∧
        s.machine.allocLog ++ [b] <+: m'.allocLog ∧
        m'.vmapAreaList = s.machine.vmapAreaList ++ [(obj, areaOf b)] := by
  unfold kmalloc at hRun
  have hLock : mmSpinlockLock s.machine = .ok () { s.machine with mmSpinlock := true } := by
    simp only [mmSpinlockLock, h.unlocked, Bool.false_eq_true, if_false]
  rw [bind_ok hLock, if_neg hSize] at hRun
  obtain ⟨va, m1, hMap, hRun⟩ := bind_eq_ok.mp hRun
  split at hRun
  · cases hRun
    exact absurd rfl hOk
  · rename_i hva
    obtain ⟨vm, m2, hArea, hRun⟩ := bind_eq_ok.mp hRun
    unfold vmapAreaAlloc at hArea
    split at hArea
    · cases hArea
      cases hRun
      exact absurd rfl hOk
    · rename_i obj pool hPool
      cases hArea
      cases hRun
      obtain ⟨pa, rfl, hKmem1, hLog1, -, hAreas1, -⟩ := kmemMap_ok
        (h.kmem.congr { s.machine with mmSpinlock := true } rfl rfl rfl) hFits hMap hva
        hFail
      have hOrder := hKmem1.frames.order_lt (b := ⟨pa, sizeToOrder size⟩) (by simp)
      have hBlock := areaBlock_areaOf (hOrder.le.trans (by decide))
      refine ⟨⟨?_, ?_, rfl⟩, ⟨pa, sizeToOrder size⟩, obj, rfl, rfl, hLog1, ?_⟩
      · refine (hKmem1.perm ?_).congr _ rfl rfl rfl
        simp only [HeapState.live, hAreas1, List.map_append, List.map_cons, List.map_nil]
        refine (List.Perm.swap _ _ _).trans (List.Perm.cons _ ?_)
        show List.Perm (_ :: s.live) (s.live ++ [areaBlock (areaOf ⟨pa, sizeToOrder size⟩)])
        rw [hBlock]
        exact (List.perm_append_singleton _ _).symm
      · intro area hArea
        simp only [hAreas1] at hArea
        rcases List.mem_append.mp hArea with hOld | hNew
        · obtain ⟨hIn, hEq⟩ := h.areas area hOld
          exact ⟨hLog1.subset (List.mem_append_left _ hIn), hEq⟩
        · rw [List.mem_singleton] at hNew
          subst hNew
          show areaBlock (areaOf ⟨pa, sizeToOrder size⟩) ∈ m1.allocLog ∧
            areaOf ⟨pa, sizeToOrder size⟩ = areaOf (areaBlock (areaOf ⟨pa, sizeToOrder size⟩))
          rw [hBlock]
          exact ⟨hLog1.subset (by simp), rfl⟩
      · simp only [hAreas1]
        rfl

/-! ## `kfree` -/

/-- `kfree` of a live pointer returns 0, removes its area, clears exactly the bits of the block of the area,
and leaves the memory of the other blocks alone. -/
theorem kfree_ok {area : U64 × VmapArea} (h : HeapInv n s)
    (hLive : area ∈ s.machine.vmapAreaList) :
    ∃ m', kfree area.2.vaStart s.machine = .ok 0 m' ∧ HeapInv n { s with machine := m' } ∧
      (∀ k, m'.pageAllocBitmap.bit k = true ↔
        s.machine.pageAllocBitmap.bit k = true ∧ ¬ (areaBlock area.2).Has k) ∧
      m'.allocLog = s.machine.allocLog ∧
      m'.vmapAreaList =
        s.machine.vmapAreaList.eraseP (fun a => a.2.vaStart == area.2.vaStart) ∧
      ∀ c ∈ s.pool :: s.live ++ s.others, c ≠ areaBlock area.2 → ∀ k, c.Has k →
        m'.mem k = s.machine.mem k := by
  -- the area that is found is the area itself or one with the same block
  obtain ⟨⟨obj, vm⟩, hFind⟩ : ∃ found,
      findVmapArea s.machine.vmapAreaList area.2.vaStart = some found := by
    rw [← Option.isSome_iff_exists, findVmapArea, List.find?_isSome]
    exact ⟨area, hLive, by simp⟩
  have hFound := List.mem_of_find?_eq_some hFind
  have hStart : vm.vaStart = area.2.vaStart := by
    have := List.find?_some hFind
    simpa using this
  have hKmem := h.kmem
  have hMem : ∀ a ∈ s.machine.vmapAreaList, areaBlock a.2 ∈ s.pool :: s.live ++ s.others := by
    intro a ha
    exact List.mem_append_left _ (List.mem_cons_of_mem _ (List.mem_map_of_mem ha))
  have hBlock : areaBlock vm = areaBlock area.2 := by
    refine mem_erase_of_has (k := (areaBlock vm).frame) hKmem.frames.disjoint (hMem _ hLive)
      (hMem _ hFound) ?_ (Block.has_frame _)
    have hFrame : (areaBlock vm).frame = (areaBlock area.2).frame := by
      simp only [Block.frame, areaBlock, hStart]
    rw [hFrame]
    exact Block.has_frame _
  have hVm : vm = areaOf (areaBlock vm) := (h.areas _ hFound).2
  set b := areaBlock vm with hb
  have hva : area.2.vaStart = kmemBase + b.pa := by
    rw [← hStart, hVm]
    rfl
  have hNr : vm.vaNrpages = orderToPages b.order := by
    rw [hVm]
    rfl
  -- take the area off the list
  obtain ⟨found, l1, l2, -, hPred, hSplit, hErase⟩ :=
    List.exists_of_eraseP (p := fun a : U64 × VmapArea => a.2.vaStart == area.2.vaStart) hLive
      (by simp)
  have hFoundBlock : areaBlock found.2 = b := by
    have hIn : found ∈ s.machine.vmapAreaList := by
      rw [hSplit]
      simp
    refine mem_erase_of_has (k := b.frame) hKmem.frames.disjoint (hMem _ hFound) (hMem _ hIn)
      (Block.has_frame _) ?_
    have hFrame : b.frame = (areaBlock found.2).frame := by
      have hEq : found.2.vaStart = area.2.vaStart := by simpa using hPred
      simp only [hb, Block.frame, areaBlock, hStart, hEq]
    rw [hFrame]
    exact Block.has_frame _
  have hPerm : (s.pool :: s.live).Perm
      (b :: s.pool :: ((s.machine.vmapAreaList.eraseP fun a => a.2.vaStart == area.2.vaStart).map
        fun a => areaBlock a.2)) := by
    rw [hErase, HeapState.live, hSplit]
    simp only [List.map_append, List.map_cons, hFoundBlock]
    exact (List.Perm.cons _ List.perm_middle).trans (List.Perm.swap _ _ _)
  let m1 : Machine := { s.machine with
    mmSpinlock := true
    vmapAreaList := s.machine.vmapAreaList.eraseP fun a => a.2.vaStart == area.2.vaStart }
  have hKmem1 : KmemOk kmemHead n (b :: s.pool :: (m1.vmapAreaList.map fun a => areaBlock a.2)) s.others m1 :=
    (hKmem.perm hPerm).congr m1 rfl rfl rfl
  have hPhys : getPhysaddr area.2.vaStart m1 = .ok b.pa m1 := by
    rw [hva]
    exact hKmem1.getPhysaddr (b := b) (by simp) b.has_frame
  obtain ⟨m2, m3, hFree, hUnmap, hKmem3, hBits, hPool3, hAreas3, hLock3, hLog3, hMem3⟩ :=
    hKmem1.release
  let m4 : Machine := { m3 with
    vmapAreaPool := poolFree m3.vmapAreaPool obj
    mmSpinlock := false }
  refine ⟨m4, ?_, ⟨?_, ?_, rfl⟩, ?_, hLog3, hAreas3, ?_⟩
  · have hLock : mmSpinlockLock s.machine = .ok () { s.machine with mmSpinlock := true } := by
      simp only [mmSpinlockLock, h.unlocked, Bool.false_eq_true, if_false]
    have hOrder : sizeToOrder (vm.vaNrpages * pageSize) = b.order := rfl
    unfold kfree
    rw [bind_ok hLock, bind_ok (get_apply _)]
    simp only [hFind]
    rw [bind_ok (show listDel area.2.vaStart { s.machine with mmSpinlock := true } = .ok () m1
      from rfl), bind_ok hPhys, hOrder, bind_ok hFree, hNr, hva, bind_ok hUnmap]
    rfl
  · refine KmemOk.congr (s := m3) ?_ m4 rfl rfl rfl
    simp only [HeapState.live, m4, hAreas3]
    exact hKmem3
  · intro a ha
    change a ∈ m3.vmapAreaList at ha
    rw [hAreas3] at ha
    obtain ⟨hIn, hEq⟩ := h.areas a (List.eraseP_subset ha)
    refine ⟨?_, hEq⟩
    show areaBlock a.2 ∈ m3.allocLog
    rw [hLog3]
    exact hIn
  · intro k
    rw [← hBlock]
    exact hBits k
  · intro c hc hNe k hk
    refine hMem3 c ?_ k hk
    have hIn := (hPerm.append_right s.others).mem_iff.mp hc
    exact (List.mem_cons.mp hIn).resolve_left (hBlock ▸ hNe)

/-! ## Other users of the page allocator -/

theorem heapInv_allocPages {order pa : U64} {m' : Machine} (h : HeapInv n s)
    (hFits : 2 ^ order.toNat ≤ n) (hRun : Kernel.allocPages order s.machine = .ok pa m')
    (hFail : NoFail m'.allocLog) :
    HeapInv n { s with machine := m', others := ⟨pa, order⟩ :: s.others } := by
  have hPa : ¬ pa.toInt < 0 := by
    have hLog : (⟨pa, order⟩ : Block) ∈ m'.allocLog := by
      unfold Kernel.allocPages at hRun
      split at hRun
      · cases hRun
      · cases hRun
        simp
    exact hFail ⟨pa, order⟩ hLog
  obtain ⟨hKmem, -, hAreas, hLock, hLog⟩ := h.kmem.alloc hFits hRun hPa
  refine ⟨?_, ?_, hLock.trans h.unlocked⟩
  · simp only [HeapState.live, hAreas]
    exact hKmem
  · intro area hArea
    simp only [hAreas] at hArea
    obtain ⟨hIn, hEq⟩ := h.areas area hArea
    refine ⟨?_, hEq⟩
    simp only [hLog]
    exact List.mem_append_left _ hIn

theorem heapInv_freePages {b : Block} {m' : Machine} (h : HeapInv n s) (hOwn : b ∈ s.others)
    (hRun : Kernel.freePages b.pa b.order s.machine = .ok () m') :
    HeapInv n { s with machine := m', others := s.others.erase b } := by
  obtain ⟨m1, hFree, hFrames, -, hMem, hCr3, -, hAreas, hLock, hLog⟩ :=
    h.kmem.frames.free (b := b) (List.mem_append_right _ hOwn)
  rw [hRun] at hFree
  cases hFree
  have hNot : b ∉ s.pool :: s.live := by
    intro hIn
    have hDisj := (List.pairwise_append.mp h.kmem.frames.disjoint).2.2 b hIn b hOwn
    exact hDisj _ b.has_frame b.has_frame
  rw [List.erase_append_right _ hNot] at hFrames
  have hPage : ∀ w, m'.page w = s.machine.page w := by
    intro w
    simp only [Machine.page, Machine.root, hMem, hCr3]
  refine ⟨?_, ?_, ?_⟩
  · simp only [HeapState.live, hAreas]
    exact h.kmem.of_page hFrames fun f _ => hPage _
  · intro area hArea
    simp only [hAreas] at hArea
    simp only [hLog]
    exact h.areas area hArea
  · exact hLock.trans h.unlocked

theorem heapInv_write {f i : Nat} {v : U64} (h : HeapInv n s)
    (hOwn : s.Foreign f ∨ f = s.machine.root ∧ ¬ kmemHead i ∧ i ≠ 511) :
    HeapInv n { s with
      machine := { s.machine with mem := writeWord s.machine.mem f i v } } := by
  obtain ⟨hFrames, hPage⟩ := h.kmem.frames.data
    { s.machine with mem := writeWord s.machine.mem f i v } rfl rfl (by
      intro p g j hp hg hHead
      refine writeWord_other _ _ ?_
      rintro ⟨rfl, rfl⟩
      rcases hOwn with ⟨b, hb, hHas⟩ | ⟨rfl, hNot, h511⟩
      · exact h.kmem.frames.tableApart p _ hp hg b (List.mem_cons_of_mem _ hb) hHas
      · -- the only path to the PML4 is the empty one
        have hNil : p = [] := h.kmem.frames.tables.tree p [] _ hp tablePath_nil hg rfl
        rcases hHead hNil with hk | hk
        · exact hNot hk
        · exact h511 hk)
  exact ⟨h.kmem.of_page hFrames fun g hg => hPage _ (kmemPage_head hg), h.areas, h.unlocked⟩

/-! ## Whole runs -/

/-- Every step keeps the invariant. -/
theorem heapInv_step {s' : HeapState} (h : HeapInv n s) (hNext : HeapNext n s s') :
    HeapInv n s' := by
  cases hNext with
  | kmalloc hSize hFits hRun hOk hFail => exact (kmalloc_ok h hSize hFits hRun hOk hFail).1
  | kfree hLive hRun =>
      obtain ⟨m', hRun', hInv, -⟩ := kfree_ok h hLive
      rw [hRun] at hRun'
      cases hRun'
      exact hInv
  | allocPages hFits hRun hFail => exact heapInv_allocPages h hFits hRun hFail
  | freePages hOwn hRun => exact heapInv_freePages h hOwn hRun
  | write hOwn => exact heapInv_write h hOwn

/-- The invariant holds in every reachable state. -/
theorem heapInv_of_reachable {image : KernelImage} {totalMem : U64} {boot : Machine}
    (hBoot : KernelBoot image totalMem boot)
    (hReach : HeapReachable (pageInitBits totalMem).toNat boot s) :
    HeapInv (pageInitBits totalMem).toNat s := by
  obtain ⟨s0, hInit, hSteps⟩ := hReach
  induction hSteps with
  | refl => exact heapInv_init hBoot hInit
  | tail _ hNext ih => exact heapInv_step ih hNext

/-- The range of an area as a range of frames. -/
theorem areaOf_range {b : Block} (hAligned : b.pa.toNat = b.frame * 4096)
    (hPages : (orderToPages b.order).toNat = b.pages)
    (hLt : b.pa.toNat + b.pages * 4096 < 2 ^ 43) :
    (areaOf b).vaStart.toNat = kmemBase.toNat + b.frame * 4096 ∧
      (areaOf b).vaEnd.toNat = kmemBase.toNat + (b.frame + b.pages) * 4096 := by
  simp only [areaOf, BitVec.toNat_add, BitVec.toNat_mul, hPages, pageSize, kmemBase,
    BitVec.toNat_ofNat]
  omega

/-- **The kernel heap over whole runs.**  In every state that a run reaches after `mm_init`:

1. the ranges on `vmap_area_list` are pairwise disjoint;
2. every address of a live range is mapped to itself minus `KMEM_BASE`, and the bit of its frame is
   set;
3. no page at `KMEM_BASE + f * 4096` is mapped for a frame outside the live ranges and the pool;
4. inside `__kmem_map`, `map_page_range` maps all the pages of the block, so it never meets a page
   that is mapped already;
5. a successful `kmalloc` records the block of the order of its size, and
6. `kfree` of a live pointer returns 0 and clears exactly the bits of the block recorded. -/
theorem heapRun_exact (image : KernelImage) (totalMem : U64) (boot : Machine)
    (hBoot : KernelBoot image totalMem boot) (s : HeapState)
    (hReach : HeapReachable (pageInitBits totalMem).toNat boot s) :
    (s.machine.vmapAreaList.Pairwise fun a c =>
      a.2.vaEnd.toNat ≤ c.2.vaStart.toNat ∨ c.2.vaEnd.toNat ≤ a.2.vaStart.toNat) ∧
    (∀ a ∈ s.machine.vmapAreaList, ∀ x : U64,
      a.2.vaStart.toNat ≤ x.toNat → x.toNat < a.2.vaEnd.toNat →
        getPhysaddr x s.machine = .ok (x - kmemBase) s.machine ∧
        bitmapTest s.machine.pageAllocBitmap ((x - kmemBase) >>> pageShift) = true) ∧
    (∀ f, f < 2 ^ 31 → ¬ s.pool.Has f →
      (∀ a ∈ s.machine.vmapAreaList, ¬ (a.2.vaStart.toNat ≤ kmemBase.toNat + f * 4096 ∧
        kmemBase.toNat + f * 4096 < a.2.vaEnd.toNat)) →
      mmuWalk s.machine.mem s.machine.root (kmemBase + BitVec.ofNat 64 (f * 4096)) = none) ∧
    (∀ (order pa : U64) (m : Machine), 2 ^ order.toNat ≤ (pageInitBits totalMem).toNat →
      Kernel.allocPages order { s.machine with mmSpinlock := true } = .ok pa m → ¬ pa.toInt < 0 →
      NoFail (finalState
        (mapPageRange pa (kmemBase + pa) mapKernRw (orderToPages order) m)).allocLog →
      ∃ m', mapPageRange pa (kmemBase + pa) mapKernRw (orderToPages order) m =
        .ok (2 ^ order.toNat : Nat) m') ∧
    (∀ (size ptr : U64) (m : Machine), size ≠ 0#64 →
      2 ^ (sizeToOrder size).toNat ≤ (pageInitBits totalMem).toNat →
      kmalloc size s.machine = .ok ptr m → ptr ≠ 0#64 → NoFail m.allocLog →
      ∃ (b : Block) (obj : U64), b.order = sizeToOrder size ∧ ptr = kmemBase + b.pa ∧
        s.machine.allocLog ++ [b] <+: m.allocLog ∧
        m.vmapAreaList = s.machine.vmapAreaList ++ [(obj, areaOf b)]) ∧
    (∀ a ∈ s.machine.vmapAreaList, ∃ b ∈ s.machine.allocLog, a.2 = areaOf b ∧
      ∃ m, kfree a.2.vaStart s.machine = .ok 0 m ∧
        ∀ k : U64, bitmapTest m.pageAllocBitmap k = true ↔
          bitmapTest s.machine.pageAllocBitmap k = true ∧ ¬ b.Has k.toNat) := by
  have h := heapInv_of_reachable hBoot hReach
  have hKmem := h.kmem
  have hMem : ∀ a ∈ s.machine.vmapAreaList, areaBlock a.2 ∈ s.pool :: s.live ++ s.others := by
    intro a ha
    exact List.mem_append_left _ (List.mem_cons_of_mem _ (List.mem_map_of_mem ha))
  have hRange : ∀ a ∈ s.machine.vmapAreaList,
      a.2.vaStart.toNat = kmemBase.toNat + (areaBlock a.2).frame * 4096 ∧
        a.2.vaEnd.toNat =
          kmemBase.toNat + ((areaBlock a.2).frame + (areaBlock a.2).pages) * 4096 := by
    intro a ha
    have hIn := hMem a ha
    rw [(h.areas a ha).2]
    rw [areaBlock_areaOf ((hKmem.frames.order_lt hIn).le.trans (by decide))]
    exact areaOf_range (hKmem.frames.aligned _ hIn) (hKmem.pages_eq hIn) (hKmem.pa_lt hIn)
  refine ⟨?_, ?_, ?_, ?_, ?_, ?_⟩
  · have hDisj := (List.pairwise_cons.mp (List.pairwise_append.mp hKmem.frames.disjoint).1).2
    rw [HeapState.live, List.pairwise_map] at hDisj
    apply hDisj.imp_of_mem
    intro a c ha hc hac
    have hOrd := hac.ordered
    have h1 := hRange a ha
    have h2 := hRange c hc
    omega
  · intro a ha x hx hx'
    obtain ⟨hStart, hEnd⟩ := hRange a ha
    obtain ⟨y, rfl⟩ : ∃ y, x = kmemBase + y :=
      ⟨x - kmemBase, by rw [BitVec.add_comm, BitVec.sub_add_cancel]⟩
    have hLt := hKmem.pa_lt (hMem a ha)
    have hAligned := hKmem.frames.aligned _ (hMem a ha)
    have hy : (areaBlock a.2).Has (y.toNat / 4096) := by
      have hyLt := y.isLt
      rw [BitVec.toNat_add] at hx hx'
      rw [Block.Has]
      simp only [kmemBase, BitVec.toNat_ofNat] at hStart hEnd hx hx'
      omega
    have hSub : kmemBase + y - kmemBase = y := by
      rw [BitVec.add_comm, BitVec.add_sub_cancel]
    rw [hSub]
    refine ⟨hKmem.getPhysaddr (List.mem_cons_of_mem _ (List.mem_map_of_mem ha)) hy, ?_⟩
    rw [bitmapTest_eq_bit, BitVec.toNat_ushiftRight, pageShift, Nat.shiftRight_eq_div_pow]
    exact hKmem.frames.used _ (hMem a ha) _ hy
  · intro f hf hPool hOut
    have hAddr : (BitVec.ofNat 64 (f * 4096)).toNat = f * 4096 := by
      rw [BitVec.toNat_ofNat]
      omega
    have hCan : Canonical (kmemBase + BitVec.ofNat 64 (f * 4096)) := by
      unfold Canonical
      rw [BitVec.toNat_add, hAddr, kmemBase, BitVec.toNat_ofNat]
      omega
    rw [mmuWalk_eq_page hCan, vpn_kmem (by omega), hAddr, Nat.mul_div_cancel f (by decide),
      hKmem.absent f hf]
    · rfl
    · intro b hb hHas
      rcases List.mem_cons.mp hb with rfl | hb
      · exact hPool hHas
      · obtain ⟨a, ha, rfl⟩ := List.mem_map.mp hb
        obtain ⟨hStart, hEnd⟩ := hRange a ha
        have h1 := hHas.1
        have h2 := hHas.2
        exact hOut a ha ⟨by omega, by omega⟩
  · intro order pa m hFits hAlloc hPa hFail
    obtain ⟨hKmem1, -⟩ := (hKmem.congr { s.machine with mmSpinlock := true }
      rfl rfl rfl).alloc hFits hAlloc hPa
    obtain ⟨m', hMap, -⟩ := hKmem1.map hFail
    exact ⟨m', hMap⟩
  · intro size ptr m hSize hFits hRun hOk hFail
    exact (kmalloc_ok h hSize hFits hRun hOk hFail).2
  · intro a ha
    obtain ⟨m, hRun, -, hBits, -⟩ := kfree_ok h ha
    refine ⟨areaBlock a.2, (h.areas a ha).1, (h.areas a ha).2, m, hRun, fun k => ?_⟩
    rw [bitmapTest_eq_bit, bitmapTest_eq_bit]
    exact hBits k.toNat

/-- A kernel image of seven pages; with the page of the bitmap, eight frames are reserved. -/
def chainImage : KernelImage := ⟨0x7000#64, by decide, by decide⟩

theorem chainMachine_boot : KernelBoot chainImage 0x3f000#64 chainMachine where
  bitmap := by decide
  small := by decide
  enough := by decide
  tables := by
    refine ⟨chainMachine_tableOk.recursive, by simp [kmemHead], ?_⟩
    intro p q f hp hq hpf hqf
    exact chainMachine_tableOk.tree p q f (hp.mono fun i hi => by simp only [kmemHead] at hi; omega)
      (hq.mono fun i hi => by simp only [kmemHead] at hi; omega) hpf hqf
  reserved := by
    intro p f hp hf
    have hTable := chainMachine_table (hp.mono fun i hi => by simp only [kmemHead] at hi; omega) hf
    have hReserved : reservedFrames chainImage 0x3f000#64 = 8 := by decide
    have := hTable.2
    omega
  unmapped := by
    intro f hf
    cases hTable : chainMachine.table (pagePath (kmemPage f)) with
    | none => exact page_eq_none_of_table hTable
    | some g =>
        have hPath := chainMachine_table (tablePath_pagePath (by
          have := kmemPage_head hf
          simp only [kmemHead] at this
          omega)) hTable
        have hg : g = 4 := by
          have hLen := congrArg List.length hPath.1
          have hLt := hPath.2
          match g with
          | 0 | 1 | 2 | 3 => simp [pagePath, chainPath] at hLen
          | 4 => rfl
          | g + 5 => omega
        rw [page_eq_of_table hTable, hg]
        simp [chainMachine, chainMemory]
  log := rfl
  areas := rfl

/-- After `mm_init` and one `kmalloc` of 6144 bytes on the small machine: the area has two pages, at
the frames 40 and 41. -/
theorem heapRun_exact_chain :
    ∃ s, HeapReachable 64 chainMachine s ∧
      s.machine.vmapAreaList.map Prod.snd = [areaOf ⟨0x28000#64, 1#64⟩] ∧
      getPhysaddr 0xffff900000029008#64 s.machine = .ok 0x29008#64 s.machine := by
  -- the two calls, evaluated
  have hValue1 : value? (mmInit chainMachine) = some () ∧
      (finalState (mmInit chainMachine)).allocLog = [⟨0x8000#64, 5#64⟩] := by
    decide +kernel
  have hValue2 : value? (kmalloc 0x1800#64 (finalState (mmInit chainMachine))) =
        some 0xffff900000028000#64 ∧
      (finalState (kmalloc 0x1800#64 (finalState (mmInit chainMachine)))).allocLog =
        [⟨0x8000#64, 5#64⟩, ⟨0x28000#64, 1#64⟩] ∧
      (finalState (kmalloc 0x1800#64 (finalState (mmInit chainMachine)))).vmapAreaList =
        [(0xffff900000008000#64, areaOf ⟨0x28000#64, 1#64⟩)] := by
    decide +kernel
  have hRun1 := eq_ok_of_value hValue1.1
  have hRun2 := eq_ok_of_value hValue2.1
  generalize finalState (mmInit chainMachine) = m1 at *
  generalize finalState (kmalloc 0x1800#64 m1) = m2 at *
  obtain ⟨-, hLog1⟩ := hValue1
  obtain ⟨-, hLog2, hAreas⟩ := hValue2
  have hInit : HeapInit chainMachine ⟨m1, ⟨0x8000#64, 5#64⟩, []⟩ := by
    refine ⟨hRun1, ?_, by simp [hLog1], rfl⟩
    simp only [hLog1, NoFail]
    decide
  have hNext : HeapNext 64 ⟨m1, ⟨0x8000#64, 5#64⟩, []⟩ ⟨m2, ⟨0x8000#64, 5#64⟩, []⟩ := by
    refine HeapNext.kmalloc (by decide) (by decide) hRun2 (by decide) ?_
    simp only [hLog2, NoFail]
    decide
  have hReach : HeapReachable 64 chainMachine ⟨m2, ⟨0x8000#64, 5#64⟩, []⟩ :=
    ⟨_, hInit, Relation.ReflTransGen.single hNext⟩
  refine ⟨⟨m2, ⟨0x8000#64, 5#64⟩, []⟩, hReach, by simp [hAreas], ?_⟩
  have hExact := (heapRun_exact chainImage 0x3f000#64 chainMachine chainMachine_boot _ hReach).2.1
  exact (hExact (0xffff900000008000#64, areaOf ⟨0x28000#64, 1#64⟩) (by rw [hAreas]; simp)
    0xffff900000029008#64 (by decide) (by decide)).1

end Rayos
