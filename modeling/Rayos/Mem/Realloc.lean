import Rayos.Mem.HeapFailure

/-!
# `krealloc`

`krealloc` takes a new block, copies as many bytes as the *new* block is to have, and frees the old one.
When the block shrinks, or stays within its pages, the copy is what is wanted.  When it grows, the copy
reads behind the old block.

* `Machine.virtByte` — the byte that a virtual address denotes.
* `KeptArea` — a block that is still there with its contents.
* `Reallocated` — what the caller relies on when `krealloc` returns a block.
-/

namespace Rayos

open RadixTable Program

/-- The byte at a virtual address. -/
def Machine.virtByte (m : Machine) (va : U64) : Option (BitVec 8) :=
  (mmuWalk m.mem m.root va).map fun w => byteAt m.mem w.1 w.2

theorem load8_of_virtByte {m : Machine} {va : U64} {b : BitVec 8} (h : m.virtByte va = some b) :
    load8 va m = .ok b m := by
  obtain ⟨w, hWalk, hByte⟩ := Option.map_eq_some_iff.mp h
  simp only [load8, hWalk, hByte]

/-- The usable bytes of an area. -/
def VmapArea.bytes (vm : VmapArea) : Nat := vm.vaNrpages.toNat * 4096

/-! ## What is expected -/

/-- The addresses that `memcpy` loads from. -/
def memcpyReads (src n : U64) : List U64 := (List.range n.toNat).map fun i => src + BitVec.ofNat 64 i

/-- An area is still there, and so are its contents. -/
def KeptArea (s m : Machine) (area : U64 × VmapArea) : Prop :=
  area ∈ m.vmapAreaList ∧ ∀ i, i < area.2.bytes →
    m.virtByte (area.2.vaStart + BitVec.ofNat 64 i) = s.virtByte (area.2.vaStart + BitVec.ofNat 64 i)

/-- The block `q` has the contents of the area `vm`, which is no longer live, and nothing else has been read
or changed. -/
structure Reallocated (s m : Machine) (vm : VmapArea) (newSize q : U64) : Prop where
  contents : ∀ i, i < vm.bytes → i < newSize.toNat → ∃ b,
    s.virtByte (vm.vaStart + BitVec.ofNat 64 i) = some b ∧ m.virtByte (q + BitVec.ofNat 64 i) = some b
  reads : ∀ a ∈ memcpyReads vm.vaStart newSize,
    vm.vaStart.toNat ≤ a.toNat ∧ a.toNat < vm.vaStart.toNat + vm.bytes
  dead : ∀ area ∈ m.vmapAreaList, area.2.vaStart ≠ vm.vaStart
  others : ∀ area ∈ s.vmapAreaList, area.2.vaStart ≠ vm.vaStart → KeptArea s m area

/-- The copy with a record of the addresses that it loads from. -/
def memcpyTraced (dest src : U64) : Nat → KernelM (List U64)
  | 0 => pure []
  | k + 1 => do
      let reads ← memcpyTraced dest src k
      let b ← load8 (src + BitVec.ofNat 64 k)
      store8 (dest + BitVec.ofNat 64 k) b
      pure (reads ++ [src + BitVec.ofNat 64 k])

/-- The addresses are those that the loop loads from, in their order. -/
theorem memcpyTraced_eq {dest src n : U64} {s t : Machine} (h : memcpyVirt dest src n s = .ok () t) :
    memcpyTraced dest src n.toNat s = .ok (memcpyReads src n) t := by
  have hLoop : ∀ (k : Nat) (t : Machine), forUpto k (fun i => do
        let b ← load8 (src + BitVec.ofNat 64 i)
        store8 (dest + BitVec.ofNat 64 i) b) s = .ok () t →
      memcpyTraced dest src k s = .ok ((List.range k).map fun i => src + BitVec.ofNat 64 i) t := by
    intro k
    induction k with
    | zero =>
        intro t hRun
        cases hRun
        rfl
    | succ k ih =>
        intro t hRun
        rw [forUpto_succ] at hRun
        obtain ⟨_, u, hInit, hRun⟩ := bind_eq_ok.mp hRun
        obtain ⟨b, v, hLoad, hStore⟩ := bind_eq_ok.mp hRun
        rw [memcpyTraced, bind_ok (ih u hInit), bind_ok hLoad, bind_ok hStore, List.range_succ,
          List.map_append]
        rfl
  exact hLoop n.toNat t h

/-! ## Bytes of blocks -/

/-- A byte of a block whose pages are mapped. -/
theorem virtByte_of_pages {m : Machine} {pa : U64} {p count i : Nat} (hPa : pa.toNat = p * 4096)
    (hEnd : p + count ≤ 2 ^ 31)
    (hPage : ∀ f, p ≤ f → f < p + count → m.page (kmemPage f) = some (kmemEntry f))
    (hi : i < count * 4096) :
    m.virtByte (kmemBase + pa + BitVec.ofNat 64 i) = some (byteAt m.mem (p + i / 4096) (i % 4096)) := by
  rw [Machine.virtByte, mmuWalk_block hPa hEnd hPage hi]
  rfl

section Bytes

variable {n : Nat} {mapped others : List Block} {s : Machine} {b : Block} {i : Nat}

theorem KmemOk.virtByte (h : KmemOk kmemHead n mapped others s) (hb : b ∈ mapped)
    (hi : i < b.pages * 4096) :
    s.virtByte (kmemBase + b.pa + BitVec.ofNat 64 i) =
      some (byteAt s.mem (b.frame + i / 4096) (i % 4096)) := by
  have hIn := h.frames.inside b (List.mem_append_left _ hb)
  have hSmall := h.frames.small
  exact virtByte_of_pages (h.frames.aligned b (List.mem_append_left _ hb)) (by omega)
    (fun f hf hf' => h.present b hb f ⟨hf, hf'⟩) hi

theorem Block.has_byte (hi : i < b.pages * 4096) : b.Has (b.frame + i / 4096) := ⟨by omega, by omega⟩

end Bytes

section Areas

variable {n : Nat} {s s' : HeapState} {area : U64 × VmapArea}

/-- The block of an area. -/
theorem HeapInv.area_block (h : HeapInv n s) (hArea : area ∈ s.machine.vmapAreaList) :
    areaBlock area.2 ∈ s.pool :: s.live ∧ area.2.vaStart = kmemBase + (areaBlock area.2).pa ∧
      area.2.bytes = (areaBlock area.2).pages * 4096 := by
  have hMem : areaBlock area.2 ∈ s.pool :: s.live :=
    List.mem_cons_of_mem _ (List.mem_map_of_mem hArea)
  have hPages := h.kmem.pages_eq (List.mem_append_left _ hMem)
  have hEq := (h.areas area hArea).2
  have hNr : area.2.vaNrpages = orderToPages (areaBlock area.2).order :=
    congrArg VmapArea.vaNrpages hEq
  refine ⟨hMem, congrArg VmapArea.vaStart hEq, ?_⟩
  rw [VmapArea.bytes, hNr, hPages]

/-- Stores to blocks in use keep the invariant. -/
theorem HeapInv.wrote (h : HeapInv n s) {D : Nat → Prop} {t : Machine} (hWrote : Wrote D s.machine t)
    (hD : ∀ f, D f → ∃ b ∈ s.pool :: s.live ++ s.others, b.Has f) :
    HeapInv n { s with machine := t } := by
  refine ⟨?_, ?_, hWrote.lock.trans h.unlocked⟩
  · simp only [HeapState.live, hWrote.areas]
    exact h.kmem.wrote hWrote hD
  · intro a ha
    simp only [hWrote.areas, hWrote.log] at ha ⊢
    exact h.areas a ha

/-- An area keeps its contents when the memory of its block does not change. -/
theorem keptArea_of_mem (h : HeapInv n s) (h' : HeapInv n s') (hArea : area ∈ s.machine.vmapAreaList)
    (hArea' : area ∈ s'.machine.vmapAreaList)
    (hMem : ∀ k, (areaBlock area.2).Has k → s'.machine.mem k = s.machine.mem k) :
    KeptArea s.machine s'.machine area := by
  refine ⟨hArea', fun i hi => ?_⟩
  obtain ⟨hBlock, hStart, hBytes⟩ := h.area_block hArea
  rw [hBytes] at hi
  rw [hStart, h.kmem.virtByte hBlock hi, h'.kmem.virtByte (h'.area_block hArea').1 hi, byteAt, byteAt,
    hMem _ (Block.has_byte hi)]

/-- Two areas that start at the same address have the same block. -/
theorem HeapInv.start_inj {area' : U64 × VmapArea} (h : HeapInv n s)
    (hArea : area ∈ s.machine.vmapAreaList) (hArea' : area' ∈ s.machine.vmapAreaList)
    (hBlock : areaBlock area'.2 = areaBlock area.2) : area'.2.vaStart = area.2.vaStart := by
  rw [(h.area_block hArea).2.1, (h.area_block hArea').2.1, hBlock]

end Areas

/-! ## The copy -/

section Copy

variable {n : Nat} {mapped others : List Block} {s : Machine} {b : Block} {size : U64}

/-- Copying to a mapped block from frames of other mapped blocks. -/
theorem KmemOk.memcpyVirt (h : KmemOk kmemHead n mapped others s) (hb : b ∈ mapped) {pa : U64}
    {p count : Nat} (hPa : pa.toNat = p * 4096) (hEnd : p + count ≤ 2 ^ 31)
    (hSrc : ∀ f, p ≤ f → f < p + count → (∃ c ∈ mapped, c.Has f) ∧ ¬ b.Has f)
    (hSizeB : size.toNat ≤ b.pages * 4096) (hSize : size.toNat ≤ count * 4096) :
    ∃ t, Rayos.memcpyVirt (kmemBase + b.pa) (kmemBase + pa) size s = .ok () t ∧
      Wrote (fun f => b.Has f) s t ∧
      ∀ i, i < size.toNat → byteAt t.mem (b.frame + i / 4096) (i % 4096) =
        byteAt s.mem (p + i / 4096) (i % 4096) := by
  have hLt := h.pa_lt (List.mem_append_left _ hb)
  have hAligned := h.frames.aligned b (List.mem_append_left _ hb)
  have hIn := h.frames.inside b (List.mem_append_left _ hb)
  have hSmall := h.frames.small
  have hSpan : ∀ f, Spans b.frame size.toNat f → b.Has f := by
    rintro f ⟨hLow, hHigh⟩
    exact ⟨hLow, by omega⟩
  have hOwn : ∀ f, Spans b.frame size.toNat f → ∃ d ∈ mapped ++ others, d.Has f :=
    fun f hf => ⟨b, List.mem_append_left _ hb, hSpan f hf⟩
  obtain ⟨t, hRun, hWrote, hBytes⟩ := copyBytes_ok h.frames (kmemBase + b.pa) b.frame size.toNat
    (fun i => load8 (kmemBase + pa + BitVec.ofNat 64 i))
    (fun i => byteAt s.mem (p + i / 4096) (i % 4096))
    (by
      -- the stores so far have not touched the frames that are copied
      intro i hi t hWrote
      have hKmem := h.wrote hWrote hOwn
      have hByte := virtByte_of_pages hPa hEnd (fun f hf hf' => by
        obtain ⟨⟨c, hc, hHas⟩, -⟩ := hSrc f hf hf'
        exact hKmem.present c hc f hHas) (show i < count * 4096 by omega)
      refine load8_of_virtByte ?_
      rw [hByte, byteAt, hWrote.mem _ fun hf => (hSrc _ (by omega) (by omega)).2 (hSpan _ hf), byteAt])
    (by
      refine ⟨?_, Or.inr ?_⟩ <;>
        simp only [kmemBase, BitVec.toNat_add, BitVec.toNat_ofNat] <;> omega)
    (fun k hk => (h.page_of_block hb (by omega)).1)
    (fun k hk => ⟨_, (h.page_of_block hb (by omega)).2, entryFrame_kmemEntry (by omega)⟩)
    hOwn
  refine ⟨t, hRun, hWrote.mono hSpan, fun i hi => ?_⟩
  have hHere : (b.frame + i / 4096 - b.frame) * 4096 + i % 4096 = i := by omega
  rw [hBytes _ _ (by omega), hHere, if_pos ⟨by omega, hi⟩]

end Copy

/-! ## The call -/

theorem memcpyVirt_log (dest src count : U64) : Respects LogGrows (memcpyVirt dest src count) := by
  refine Respects.forUpto LogGrows.refl LogGrows.trans fun i => ?_
  refine Respects.bind LogGrows.trans (fun s => ?_) fun b s => ?_
  · unfold load8
    split <;> exact LogGrows.refl s
  · unfold store8
    split
    · exact LogGrows.refl s
    · exact LogGrows.mem s _ _ _

theorem kfree_log (virtaddr : U64) : Respects LogGrows (kfree virtaddr) := by
  refine Respects.bind LogGrows.trans (fun s => ?_) fun _ => ?_
  · unfold mmSpinlockLock
    split <;> exact LogGrows.refl s
  refine Respects.bind LogGrows.trans (fun s => LogGrows.refl s) fun s => ?_
  cases findVmapArea s.vmapAreaList virtaddr with
  | none => exact Respects.pure LogGrows.refl _
  | some found =>
      refine Respects.bind LogGrows.trans (fun s => LogGrows.refl s) fun _ => ?_
      refine Respects.bind LogGrows.trans (getPhysaddr_respects LogGrows.refl LogGrows.trans _) fun pa => ?_
      refine Respects.bind LogGrows.trans (fun s => LogGrows.refl s) fun _ => ?_
      refine Respects.bind LogGrows.trans (unmapPageRange_log _ _) fun _ => ?_
      refine Respects.bind LogGrows.trans (fun s => LogGrows.refl s) fun _ => ?_
      exact Respects.bind LogGrows.trans (fun s => LogGrows.refl s) fun _ => Respects.pure LogGrows.refl _

/-- The returns of `krealloc` for a pointer that is not NULL. -/
theorem krealloc_cases {s m : Machine} {ptr newSize q : U64} (hPtr : ptr ≠ 0#64)
    (hRun : krealloc ptr newSize s = .ok q m) :
    (q = 0#64 ∧ kmalloc newSize s = .ok 0#64 m) ∨
      (q ≠ 0#64 ∧ ∃ s1 s2 ret, kmalloc newSize s = .ok q s1 ∧
        memcpyVirt q ptr newSize s1 = .ok () s2 ∧ kfree ptr s2 = .ok ret m) := by
  unfold krealloc at hRun
  rw [if_neg hPtr] at hRun
  obtain ⟨new, s1, hAlloc, hRest⟩ := bind_eq_ok.mp hRun
  by_cases hNull : new = 0#64
  · rw [if_pos hNull] at hRest
    cases hRest
    exact Or.inl ⟨rfl, hNull ▸ hAlloc⟩
  · rw [if_neg hNull] at hRest
    obtain ⟨_, s2, hCopy, hRest⟩ := bind_eq_ok.mp hRest
    obtain ⟨ret, s3, hFree, hRest⟩ := bind_eq_ok.mp hRest
    cases hRest
    exact Or.inr ⟨hNull, s1, s2, ret, hAlloc, hCopy, hFree⟩

theorem TablesServed.of_isPrefix {s t m : Machine} (h : TablesServed s m) (hLog : t.allocLog <+: m.allocLog) :
    TablesServed s t :=
  ⟨h.1, h.2.of_isPrefix (hLog.drop _)⟩

section Realloc

variable {n : Nat} {s : HeapState} {m : Machine} {area : U64 × VmapArea} {newSize q : U64}

/-- The addresses of an area. -/
theorem HeapInv.area_addr (h : HeapInv n s) (hLive : area ∈ s.machine.vmapAreaList) {i : Nat}
    (hi : i ≤ area.2.bytes) :
    (area.2.vaStart + BitVec.ofNat 64 i).toNat = area.2.vaStart.toNat + i := by
  obtain ⟨hBlock, hStart, hBytes⟩ := h.area_block hLive
  have hPa := h.kmem.pa_lt (List.mem_append_left _ hBlock)
  rw [hBytes] at hi
  rw [hStart]
  simp only [kmemBase, BitVec.toNat_add, BitVec.toNat_ofNat]
  omega

theorem reads_inside (h : HeapInv n s) (hLive : area ∈ s.machine.vmapAreaList) {i : Nat}
    (hi : i < area.2.bytes) :
    area.2.vaStart.toNat ≤ (area.2.vaStart + BitVec.ofNat 64 i).toNat ∧
      (area.2.vaStart + BitVec.ofNat 64 i).toNat < area.2.vaStart.toNat + area.2.bytes := by
  rw [h.area_addr hLive hi.le]
  omega

/-- The copy does not stay within a block that is too small. -/
theorem le_bytes_of_reads (h : HeapInv n s) (hLive : area ∈ s.machine.vmapAreaList)
    (hReads : ∀ a ∈ memcpyReads area.2.vaStart newSize,
      area.2.vaStart.toNat ≤ a.toNat ∧ a.toNat < area.2.vaStart.toNat + area.2.bytes) :
    newSize.toNat ≤ area.2.bytes := by
  by_contra hLt
  -- the first byte behind the block is read
  have hRead := hReads (area.2.vaStart + BitVec.ofNat 64 area.2.bytes)
    (List.mem_map.mpr ⟨area.2.bytes, List.mem_range.mpr (by omega), rfl⟩)
  rw [h.area_addr hLive le_rfl] at hRead
  omega

/-- A smaller block than one that exists fits into memory. -/
theorem fits_of_le_bytes (h : HeapInv n s) (hLive : area ∈ s.machine.vmapAreaList)
    (hNew : newSize ≠ 0#64) (hLe : newSize.toNat ≤ area.2.bytes) :
    2 ^ (sizeToOrder newSize).toNat ≤ n ∧ newSize.toNat ≤ 2 ^ (sizeToOrder newSize).toNat * 4096 := by
  obtain ⟨hBlock, -, hBytes⟩ := h.area_block hLive
  have hIn := h.kmem.frames.inside _ (List.mem_append_left _ hBlock)
  have hSmall := h.kmem.frames.small
  rw [hBytes] at hLe
  have hRange : newSize.toNat ≤ 2 ^ 64 - 4096 := by omega
  refine ⟨?_, (le_pagesFor newSize).trans (Nat.mul_le_mul_right _ (pagesFor_le_pow hNew hRange))⟩
  rw [Block.pages] at hLe hIn
  generalize (areaBlock area.2).order.toNat = order at hLe hIn
  have hPos : 0 < 2 ^ order := Nat.pow_pos (by decide)
  have hPages := pagesFor_le hLe
  have hOrder : (sizeToOrder newSize).toNat ≤ order := by
    rw [sizeToOrder_of_le hNew hRange]
    exact Nat.size_le.mpr (by omega)
  have hPow : 2 ^ (sizeToOrder newSize).toNat ≤ 2 ^ order := Nat.pow_le_pow_right (by decide) hOrder
  omega

/-- `krealloc` that does not grow the block. -/
theorem reallocated_of_le (h : HeapInv n s) (hLive : area ∈ s.machine.vmapAreaList)
    (hNew : newSize ≠ 0#64) (hLe : newSize.toNat ≤ area.2.bytes) {s1 s2 : Machine} {ret : Int}
    (hAlloc : kmalloc newSize s.machine = .ok q s1) (hOk : q ≠ 0#64) (hFail : NoFail s1.allocLog)
    (hCopy : memcpyVirt q area.2.vaStart newSize s1 = .ok () s2)
    (hFree : kfree area.2.vaStart s2 = .ok ret m) : Reallocated s.machine m area.2 newSize q := by
  obtain ⟨hBlock, hStart, hBytes⟩ := h.area_block hLive
  obtain ⟨hFits, hRoom⟩ := fits_of_le_bytes h hLive hNew hLe
  -- the new block
  obtain ⟨hInv1, b, obj, hOrder, rfl, -, hAreas1⟩ := kmalloc_ok h hNew hFits hAlloc hOk hFail
  obtain ⟨pa, ptr, s1', hAlloc', -, hKeeps, -⟩ := h.kmem.kmalloc h.unlocked hNew hFits
    (by rw [hAlloc]; exact hFail)
  rw [hAlloc] at hAlloc'
  cases hAlloc'
  have hAreaB : (obj, areaOf b) ∈ s1.vmapAreaList := by
    rw [hAreas1]
    simp
  have hLive1 : area ∈ s1.vmapAreaList := by
    rw [hAreas1]
    exact List.mem_append_left _ hLive
  have hBlockEq : areaBlock (areaOf b) = b := by
    apply areaBlock_areaOf
    rw [hOrder]
    exact (order_lt_of_pow_le hFits h.kmem.frames.small).le.trans (by decide)
  have hb := (hInv1.area_block hAreaB).1
  have hc := (hInv1.area_block hLive1).1
  simp only [hBlockEq] at hb
  -- the blocks of before are apart from it
  have hApart : ∀ c ∈ s.pool :: s.live ++ s.others, b.Disjoint c := by
    have hLive' : HeapState.live { s with machine := s1 } = s.live ++ [b] := by
      simp only [HeapState.live, hAreas1, List.map_append, List.map_cons, List.map_nil, hBlockEq]
    have hPerm : (s.pool :: HeapState.live { s with machine := s1 } ++ s.others).Perm
        (b :: (s.pool :: s.live ++ s.others)) := by
      rw [hLive', List.cons_append, List.append_assoc]
      exact (List.Perm.cons _ List.perm_middle).trans (List.Perm.swap _ _ _)
    exact (List.pairwise_cons.mp (hInv1.kmem.frames.perm hPerm).disjoint).1
  have hRoomB : newSize.toNat ≤ b.pages * 4096 := by
    rw [Block.pages, hOrder]
    exact hRoom
  have hInside := h.kmem.frames.inside _ (List.mem_append_left _ hBlock)
  obtain ⟨t, hCopy', hWrote, hBytesCopied⟩ := hInv1.kmem.memcpyVirt hb
    (h.kmem.frames.aligned _ (List.mem_append_left _ hBlock))
    (hInside.trans h.kmem.frames.small.le)
    (fun f hf hf' => ⟨⟨_, hc, ⟨hf, hf'⟩⟩, fun hbf =>
      hApart _ (List.mem_append_left _ hBlock) f hbf ⟨hf, hf'⟩⟩) hRoomB (hLe.trans_eq hBytes)
  rw [← hStart, hCopy] at hCopy'
  cases hCopy'
  -- the heap after the copy
  have hInv2 : HeapInv n { s with machine := s2 } :=
    hInv1.wrote hWrote fun f hf => ⟨b, List.mem_append_left _ hb, hf⟩
  have hLive2 : area ∈ s2.vmapAreaList := by
    rw [hWrote.areas]
    exact hLive1
  obtain ⟨m', hFree', hInv3, hBits3, -, hAreas3, hMem3⟩ := kfree_ok hInv2 hLive2
  rw [hFree] at hFree'
  cases hFree'
  have hNe : b ≠ areaBlock area.2 := by
    intro hEq
    exact hApart _ (List.mem_append_left _ hBlock) b.frame b.has_frame (hEq ▸ b.has_frame)
  -- an area that does not start at the pointer stays on the list
  have hStays : ∀ a ∈ s1.vmapAreaList, a.2.vaStart ≠ area.2.vaStart → a ∈ m.vmapAreaList := by
    intro a ha hStart'
    rw [hAreas3, List.mem_eraseP_of_neg (by simpa using hStart'), hWrote.areas]
    exact ha
  refine ⟨fun i hi hi' => ?_, ?_, ?_, ?_⟩
  · have hStartB : (areaOf b).vaStart ≠ area.2.vaStart := by
      intro hEq
      have hSum : kmemBase + b.pa = kmemBase + (areaBlock area.2).pa := hEq.trans hStart
      have hPa : b.pa = (areaBlock area.2).pa := by simpa using hSum
      refine hApart _ (List.mem_append_left _ hBlock) b.frame b.has_frame ?_
      rw [Block.frame, hPa]
      exact Block.has_frame _
    have hb3 := (hInv3.area_block (hStays _ hAreaB hStartB)).1
    simp only [hBlockEq] at hb3
    have hiC : i < (areaBlock area.2).pages * 4096 := lt_of_lt_of_eq hi hBytes
    have hiB : i < b.pages * 4096 := lt_of_lt_of_le hi' hRoomB
    refine ⟨_, by rw [hStart]; exact h.kmem.virtByte hBlock hiC, ?_⟩
    rw [hInv3.kmem.virtByte hb3 hiB]
    have hSame : byteAt m.mem (b.frame + i / 4096) (i % 4096) =
        byteAt s2.mem (b.frame + i / 4096) (i % 4096) := by
      have hIn2 : b ∈ s.pool :: HeapState.live { s with machine := s2 } ++ s.others := by
        simp only [HeapState.live, hWrote.areas]
        exact List.mem_append_left _ hb
      rw [byteAt, hMem3 b hIn2 hNe _ (Block.has_byte hiB), byteAt]
    rw [hSame, hBytesCopied i hi', byteAt, byteAt,
      hKeeps.mem _ (List.mem_append_left _ hBlock) _ (Block.has_byte hiC)]
  · intro a ha
    obtain ⟨i, hi, rfl⟩ := List.mem_map.mp ha
    exact reads_inside h hLive (lt_of_lt_of_le (List.mem_range.mp hi) hLe)
  · intro a ha hEq
    -- the bit of its first frame would be set
    obtain ⟨hBlock', hStart', -⟩ := hInv3.area_block ha
    have hPa : (areaBlock a.2).pa = (areaBlock area.2).pa := by
      simpa using hStart'.symm.trans (hEq.trans hStart)
    have hUsed := hInv3.kmem.frames.used _ (List.mem_append_left _ hBlock') _ (Block.has_frame _)
    refine ((hBits3 _).mp hUsed).2 ?_
    rw [Block.frame, hPa]
    exact Block.has_frame _
  · intro a ha hStart'
    have ha1 : a ∈ s1.vmapAreaList := by
      rw [hAreas1]
      exact List.mem_append_left _ ha
    have hIn := List.mem_append_left s.others (h.area_block ha).1
    refine keptArea_of_mem h hInv3 ha (hStays a ha1 hStart') fun k hk => ?_
    have hNe' : areaBlock a.2 ≠ areaBlock area.2 := fun hEq => hStart' (h.start_inj hLive ha hEq)
    have hIn2 : areaBlock a.2 ∈ s.pool :: HeapState.live { s with machine := s2 } ++ s.others := by
      simp only [HeapState.live, hWrote.areas]
      exact List.mem_append_left _ (hInv1.area_block ha1).1
    calc m.mem k = s2.mem k := hMem3 _ hIn2 hNe' k hk
      _ = s1.mem k := hWrote.mem k fun hbk => hApart _ hIn k hbk hk
      _ = s.machine.mem k := hKeeps.mem _ hIn k hk

/-- The history of a `kmalloc` that has returned a block. -/
theorem noFail_of_kmalloc {s1 : Machine} (h : HeapInv n s) (hRun : kmalloc newSize s.machine = .ok q s1)
    (hOk : q ≠ 0#64) (hServed : TablesServed s.machine s1) : NoFail s1.allocLog := by
  cases kmalloc_run h.unlocked hRun with
  | zero _ => exact absurd rfl hOk
  | noFrames _ _ _ _ _ => exact absurd rfl hOk
  | notMapped _ _ _ _ _ _ _ _ _ => exact absurd rfl hOk
  | noArea _ _ _ _ _ _ _ _ _ => exact absurd rfl hOk
  | ok pa obj bmp ret t rest _ hAlloc hPa hMap hPool =>
      have hLog : (s.machine.tookBlock pa (sizeToOrder newSize) bmp).allocLog <+: t.allocLog :=
        Respects.of_ok (mapPageRange_log _ _ _ _) hMap
      exact noFail_of_tablesServed (t := t) hServed hPa hLog

/-- Mapping a new block leaves the areas alone. -/
theorem keptArea_of_mapped {t : Machine} {bmp : Bitmap} {p count : Nat} (h : HeapInv n s)
    (hLive : area ∈ s.machine.vmapAreaList) (hTook : TookClear s.machine.pageAllocBitmap bmp p count)
    (hMapped : MappedBlock n (s.pool :: s.live ++ s.others) s.machine t p count)
    (hAreas : t.vmapAreaList = s.machine.vmapAreaList) : KeptArea s.machine t area := by
  obtain ⟨hBlock, hStart, hBytes⟩ := h.area_block hLive
  have hIn := List.mem_append_left s.others hBlock
  have hInside := h.kmem.frames.inside _ hIn
  have hSmall := h.kmem.frames.small
  refine ⟨hAreas ▸ hLive, fun i hi => ?_⟩
  rw [hBytes] at hi
  have hPage : ∀ f, (areaBlock area.2).frame ≤ f → f < (areaBlock area.2).frame + (areaBlock area.2).pages →
      t.page (kmemPage f) = some (kmemEntry f) := by
    intro f hf hf'
    rw [hMapped.page f (by omega), if_neg]
    · exact h.kmem.present _ hBlock f ⟨hf, hf'⟩
    · rintro ⟨hLow, hHigh⟩
      have hUsed := h.kmem.frames.used _ hIn f ⟨hf, hf'⟩
      rw [hTook.clear f hLow hHigh] at hUsed
      cases hUsed
  rw [hStart, h.kmem.virtByte hBlock hi,
    virtByte_of_pages (h.kmem.frames.aligned _ hIn) (by omega) hPage hi, byteAt, byteAt,
    hMapped.mem _ hIn _ (Block.has_byte hi)]

/-- A block that could not be had: the areas and their contents are as before. -/
theorem keptArea_of_failed (h : HeapInv n s) (hLive : area ∈ s.machine.vmapAreaList)
    (hServed : TablesServed s.machine m) (hOrder : (sizeToOrder newSize).toNat < 31)
    (hEnd : 2 ^ (sizeToOrder newSize).toNat ≤ n ∨ n + 2 ^ (sizeToOrder newSize).toNat ≤ 2 ^ 31)
    (hRun : kmalloc newSize s.machine = .ok 0#64 m) : KeptArea s.machine m area := by
  generalize hNull : (0#64 : U64) = ptr at hRun
  cases kmalloc_run h.unlocked hRun with
  | zero _ => exact ⟨hLive, fun i _ => rfl⟩
  | noFrames _ _ _ _ _ => exact ⟨hLive, fun i _ => rfl⟩
  | notMapped pa bmp ret t _ hAlloc hPa hMap _ =>
      obtain ⟨p, -, hTook, -, hMapped⟩ := mappedBlock_of_served h hServed hOrder hEnd hAlloc hPa hMap
      exact keptArea_of_mapped h hLive hTook hMapped
        (Respects.of_ok (mapPageRange_kept _ _ _ _) hMap).2.2
  | noArea pa bmp ret t _ hAlloc hPa hMap _ =>
      obtain ⟨p, -, hTook, -, hMapped⟩ := mappedBlock_of_served h hServed hOrder hEnd hAlloc hPa hMap
      exact keptArea_of_mapped h hLive hTook hMapped
        (Respects.of_ok (mapPageRange_kept _ _ _ _) hMap).2.2
  | ok pa obj bmp ret t rest _ hAlloc hPa hMap hPool =>
      exact absurd hNull.symm (kmemBase_add_ne_zero (allocPages_aligned hAlloc hPa).2)

end Realloc

/-! ## Two blocks of one page -/

/-- What the runs on the small machine return, and what they leave in the allocation log. All of them start with
`mm_init` and share its evaluation. -/
theorem chainPair_runs :
    (value? (kmalloc 1#64 (finalState (mmInit chainMachine))) = some 0xffff900000028000#64 ∧
      (finalState (kmalloc 1#64 (finalState (mmInit chainMachine)))).allocLog =
        [⟨0x8000#64, 5#64⟩, ⟨0x28000#64, 0#64⟩]) ∧
    (value? (kmalloc 1#64 (finalState (kmalloc 1#64 (finalState (mmInit chainMachine))))) =
        some 0xffff900000029000#64 ∧
      (finalState (kmalloc 1#64 (finalState (kmalloc 1#64
        (finalState (mmInit chainMachine)))))).allocLog =
        [⟨0x8000#64, 5#64⟩, ⟨0x28000#64, 0#64⟩, ⟨0x29000#64, 0#64⟩] ∧
      (finalState (kmalloc 1#64 (finalState (kmalloc 1#64
        (finalState (mmInit chainMachine)))))).vmapAreaList.map Prod.snd =
        [areaOf ⟨0x28000#64, 0#64⟩, areaOf ⟨0x29000#64, 0#64⟩]) ∧
    (value? (krealloc 0xffff900000028000#64 1#64 (finalState (kmalloc 1#64
        (finalState (kmalloc 1#64 (finalState (mmInit chainMachine))))))) =
        some 0xffff90000002a000#64 ∧
      (finalState (krealloc 0xffff900000028000#64 1#64 (finalState (kmalloc 1#64
        (finalState (kmalloc 1#64 (finalState (mmInit chainMachine)))))))).allocLog =
        [⟨0x8000#64, 5#64⟩, ⟨0x28000#64, 0#64⟩, ⟨0x29000#64, 0#64⟩, ⟨0x2a000#64, 0#64⟩]) ∧
    (value? (kmalloc 0x1001#64 (finalState (kmalloc 1#64
        (finalState (kmalloc 1#64 (finalState (mmInit chainMachine))))))) =
        some 0xffff90000002a000#64 ∧
      (finalState (kmalloc 0x1001#64 (finalState (kmalloc 1#64
        (finalState (kmalloc 1#64 (finalState (mmInit chainMachine)))))))).allocLog =
        [⟨0x8000#64, 5#64⟩, ⟨0x28000#64, 0#64⟩, ⟨0x29000#64, 0#64⟩, ⟨0x2a000#64, 1#64⟩]) := by
  decide +kernel

/-- The heap of the small machine with two blocks, one behind the other. -/
theorem chainPair : ∃ s : HeapState, HeapReachable 64 chainMachine s ∧ HeapInv 64 s ∧
    s.machine = finalState (kmalloc 1#64 (finalState (kmalloc 1#64 (finalState (mmInit chainMachine))))) ∧
    s.machine.vmapAreaList.map Prod.snd = [areaOf ⟨0x28000#64, 0#64⟩, areaOf ⟨0x29000#64, 0#64⟩] ∧
    NoFail s.machine.allocLog := by
  obtain ⟨s, ⟨s0, hInit, hSteps⟩, hInv, hMachine⟩ := chainHeap
  obtain ⟨hFirst, hSecond, -, -⟩ := chainPair_runs
  rw [← hMachine] at hFirst hSecond ⊢
  have hRun1 := eq_ok_of_value hFirst.1
  have hRun2 := eq_ok_of_value hSecond.1
  generalize finalState (kmalloc 1#64 s.machine) = m1 at *
  generalize finalState (kmalloc 1#64 m1) = m2 at *
  obtain ⟨-, hLog1⟩ := hFirst
  obtain ⟨-, hLog2, hAreas⟩ := hSecond
  have hFail1 : NoFail m1.allocLog := by
    simp only [hLog1, NoFail]
    decide
  have hFail2 : NoFail m2.allocLog := by
    simp only [hLog2, NoFail]
    decide
  have hFits : 2 ^ (sizeToOrder 1#64).toNat ≤ 64 := by decide
  have hNext1 : HeapNext 64 s { s with machine := m1 } :=
    .kmalloc (by decide) hFits hRun1 (by decide) hFail1
  have hNext2 : HeapNext 64 { s with machine := m1 } { s with machine := m2 } :=
    .kmalloc (by decide) hFits hRun2 (by decide) hFail2
  exact ⟨{ s with machine := m2 }, ⟨s0, hInit, (hSteps.tail hNext1).tail hNext2⟩,
    heapInv_step (heapInv_step hInv hNext1) hNext2, rfl, hAreas, hFail2⟩

/-- The first of the two blocks is a live area of the heap. -/
theorem chainPair_first {areas : List (U64 × VmapArea)}
    (h : areas.map Prod.snd = [areaOf ⟨0x28000#64, 0#64⟩, areaOf ⟨0x29000#64, 0#64⟩]) :
    ∃ area ∈ areas, area.2 = areaOf ⟨0x28000#64, 0#64⟩ ∧ area.2.vaStart = 0xffff900000028000#64 := by
  have hMem : areaOf ⟨0x28000#64, 0#64⟩ ∈ areas.map Prod.snd := by
    rw [h]
    exact List.mem_cons_self
  obtain ⟨area, hArea, hEq⟩ := List.mem_map.mp hMem
  have hStart : area.2.vaStart = 0xffff900000028000#64 := by
    rw [hEq]
    decide
  exact ⟨area, hArea, hEq, hStart⟩

end Rayos
