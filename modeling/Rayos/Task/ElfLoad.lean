import Rayos.Task.AddressSpace
import Rayos.Task.Elf

/-!
# What a loaded image looks like

`make_elf64_task` loads the `PT_LOAD` segments one after the other.  A segment of `m` bytes gets
`m / 4096 + 1` pages, also when `m` is a multiple of the page size, and only the bytes of the file are
written to them.

* `Loading` — what holds between two rounds of the first loop;
* `SegmentLoaded` — what one round leaves behind when the pages of the segment are free;
* `LoadsImage` — what is asked of the whole call.
-/

namespace Rayos

open RadixTable Program

/-! ## Segments -/

/-- The `PT_LOAD` headers, in order. -/
def loadPhdrs (elf : ElfImage) : List Elf64Phdr :=
  (elfPhdrs elf).filter fun phdr => phdr.pType = ptLoad

/-- The page a segment starts at. -/
def Elf64Phdr.page (phdr : Elf64Phdr) : Nat := phdr.pVaddr.toNat / 4096

/-- The number of pages that are mapped for a segment. -/
def Elf64Phdr.pages (phdr : Elf64Phdr) : Nat := phdr.pMemsz.toNat / 4096 + 1

/-- The page is one of those that are mapped for the segment. -/
def Elf64Phdr.Covers (phdr : Elf64Phdr) (w : Nat) : Prop :=
  phdr.page ≤ w ∧ w < phdr.page + phdr.pages

instance (phdr : Elf64Phdr) (w : Nat) : Decidable (phdr.Covers w) :=
  inferInstanceAs (Decidable (_ ∧ _))

/-- The block that is recorded for a segment. -/
def LoadSegmentAddress.block (ls : LoadSegmentAddress) : Block := ⟨ls.phys, ls.order⟩

/-- The blocks of the segments that have been loaded, the last one first. -/
def UserTask.segments (task : UserTask) : List Block :=
  (task.lsAddr.map fun node => node.2.block).reverse

/-- A segment in the lower half that one page table could cover. -/
structure LowerSegment (phdr : Elf64Phdr) : Prop where
  aligned : phdr.pVaddr.toNat % 4096 = 0
  lower : phdr.page + phdr.pages ≤ 2 ^ 35
  small : phdr.pages ≤ 512
  filesz : phdr.pFilesz.toNat ≤ phdr.pMemsz.toNat

namespace LowerSegment

variable {phdr : Elf64Phdr}

theorem vpn (h : LowerSegment phdr) : vpn phdr.pVaddr = phdr.page := by
  obtain ⟨hAligned, hLower, -, -⟩ := h
  simp only [Rayos.vpn, Elf64Phdr.page] at *
  omega

theorem alignUp (h : LowerSegment phdr) :
    (alignUp phdr.pMemsz pageSize).toNat = phdr.pages * 4096 := by
  have hSmall := h.small
  simp only [Elf64Phdr.pages] at *
  exact alignUp_page_toNat (by omega)

theorem segmentLen (h : LowerSegment phdr) : (segmentLen phdr).toNat = phdr.pages := by
  rw [Rayos.segmentLen, BitVec.toNat_ushiftRight, h.alignUp, Nat.shiftRight_eq_div_pow, pageShift]
  omega

/-- The block of a segment has room for its pages. -/
theorem order (h : LowerSegment phdr) :
    phdr.pages ≤ 2 ^ (sizeToOrder (Rayos.alignUp phdr.pMemsz pageSize)).toNat ∧
      2 ^ (sizeToOrder (Rayos.alignUp phdr.pMemsz pageSize)).toNat ≤ 512 := by
  have hSmall := h.small
  have hPos : 0 < phdr.pages := Nat.succ_pos _
  rw [sizeToOrder_toNat h.alignUp hPos (by omega)]
  have hLt := Nat.lt_size_self (phdr.pages - 1)
  have hLe : Nat.size (phdr.pages - 1) ≤ 9 := Nat.size_le.mpr (by omega)
  have hPow : 2 ^ Nat.size (phdr.pages - 1) ≤ 2 ^ 9 := Nat.pow_le_pow_right (by decide) hLe
  omega

theorem bytesIn (h : LowerSegment phdr) {count : Nat} (hCount : count ≤ phdr.pMemsz.toNat) :
    BytesIn phdr.pVaddr count := by
  obtain ⟨hAligned, hLower, -, -⟩ := h
  simp only [Elf64Phdr.page, Elf64Phdr.pages] at hLower
  exact ⟨hAligned, Or.inl (by omega)⟩

end LowerSegment

/-! ## The record of a segment -/

/-- The end of a round: a `load_segment_address` is allocated and linked to the last one. -/
def appendSegment (phys order : U64) (task : UserTask) : KernelM UserTask := do
  let newLsAddr ← kzalloc sizeofLoadSegmentAddress
  store64 newLsAddr phys
  store64 (newLsAddr + 8#64) order
  store64 (newLsAddr + 16#64) 0#64
  match task.lsAddr.getLast? with
  | none => pure ()
  | some pos => store64 (pos.1 + 16#64) newLsAddr
  pure { task with lsAddr := task.lsAddr ++ [(newLsAddr, ⟨phys, order⟩)] }

theorem loadSegment_eq (elf : ElfImage) (phdr : Elf64Phdr) (task : UserTask) :
    loadSegment elf phdr task = (do
      let phys ← Kernel.allocPages (sizeToOrder (alignUp phdr.pMemsz pageSize))
      let _ ← mapPageRange phys phdr.pVaddr 0x7#64 (segmentLen phdr)
      memcpy phdr.pVaddr (fun i => elf (phdr.pOffset.toNat + i)) phdr.pFilesz
      appendSegment phys (sizeToOrder (alignUp phdr.pMemsz pageSize)) task) := rfl

theorem memcpy_log (dest : U64) (src : Nat → BitVec 8) (count : U64) :
    Respects LogGrows (memcpy dest src count) := by
  refine Respects.forUpto LogGrows.refl LogGrows.trans fun i s => ?_
  unfold store8
  split
  · exact LogGrows.refl s
  · exact LogGrows.mem s _ _ _

theorem appendSegment_log (phys order : U64) (task : UserTask) :
    Respects LogGrows (appendSegment phys order task) := by
  have hStore := fun va v => store64_respects LogGrows.refl LogGrows.mem (R := LogGrows) va v
  refine Respects.bind LogGrows.trans (kzalloc_log _) fun ptr =>
    Respects.bind LogGrows.trans (hStore _ _) fun _ =>
    Respects.bind LogGrows.trans (hStore _ _) fun _ =>
    Respects.bind LogGrows.trans (hStore _ _) fun _ => ?_
  cases task.lsAddr.getLast? with
  | none => exact Respects.pure LogGrows.refl _
  | some pos =>
      exact Respects.bind LogGrows.trans (hStore _ _) fun _ => Respects.pure LogGrows.refl _

/-- A store to the first page of a block of the heap. -/
theorem KmemOk.store64_heap {H : Nat → Prop} {n : Nat} {mapped others : List Block} {s : Machine}
    (h : KmemOk H n mapped others s) {b : Block} (hb : b ∈ mapped) {off : Nat} (hOff : off < 4096)
    (v : U64) : ∃ t, store64 (kmemBase + b.pa + BitVec.ofNat 64 off) v s = .ok () t ∧
      Wrote (· = b.frame) s t := by
  have hMem : b ∈ mapped ++ others := List.mem_append_left _ hb
  have hLt := h.pa_lt hMem
  have hAligned := h.frames.aligned b hMem
  have hIn := h.frames.inside b hMem
  have hSmall := h.frames.small
  have hPos : 0 < b.pages := Nat.pow_pos (by decide)
  obtain ⟨-, hPage⟩ := h.page_of_block hb hPos
  have hBytes : BytesIn (kmemBase + b.pa) 4096 := by
    refine ⟨?_, Or.inr ?_⟩ <;>
      simp only [kmemBase, BitVec.toNat_add, BitVec.toNat_ofNat] <;> omega
  have hVpn : vpn (kmemBase + b.pa + BitVec.ofNat 64 off) = vpn (kmemBase + b.pa) + 0 := by
    rw [hBytes.vpn hOff, Nat.div_eq_of_lt hOff]
  have hRun := store64_page (hBytes.canonical hOff) (by rw [hVpn]; exact hPage) v
  rw [Nat.add_zero, entryFrame_kmemEntry (by omega)] at hRun
  exact ⟨_, hRun, Wrote.write (D := (· = b.frame)) s rfl _ _⟩

section Load

variable {n : Nat} {heap mapped others : List Block} {s : Machine} {elf : ElfImage}
  {phdr : Elf64Phdr} {task : UserTask}

/-- The records of the segments lie in blocks of the heap that were taken for them. -/
def NodesIn (task : UserTask) (heap : List Block) : Prop :=
  ∀ node ∈ task.lsAddr, ∃ b ∈ heap, node.1 = kmemBase + b.pa

theorem appendSegment_ok (h : KmemOk kernelHead n (heap ++ mapped) others s)
    (hLock : s.mmSpinlock = false) {obj : U64} {rest : List U64}
    (hPool : s.vmapAreaPool.freeList = obj :: rest) (hNodes : NodesIn task heap) (phys order : U64)
    (hFail : NoFail (finalState (appendSegment phys order task s)).allocLog) :
    ∃ b s', appendSegment phys order task s =
        .ok { task with lsAddr := task.lsAddr ++ [(kmemBase + b.pa, ⟨phys, order⟩)] } s' ∧
      KmemOk kernelHead n (b :: heap ++ mapped) others s' ∧ s'.mmSpinlock = false ∧
      s'.vmapAreaPool.freeList = rest ∧ FreeKept n s s' ∧
      (∀ c ∈ mapped ++ others, ∀ k, c.Has k → s'.mem k = s.mem k) ∧
      ∀ w, w < 2 ^ 35 → s'.page w = s.page w := by
  have hOrder : (sizeToOrder sizeofLoadSegmentAddress).toNat = 0 := by decide
  have hNonempty := h.frames.nonempty
  unfold appendSegment at hFail ⊢
  obtain ⟨pa, ptr, s1, hRun1, hKmem1, hKeeps, hPtr⟩ := h.kzalloc hLock
    (show sizeofLoadSegmentAddress ≠ 0#64 by decide) (by rw [hOrder]; simpa using hNonempty)
    (by rw [hOrder]; decide)
    (NoFail.of_isPrefix hFail (Respects.bind_after LogGrows.refl (fun ptr => by
      have hStore := fun va v => store64_respects LogGrows.refl LogGrows.mem (R := LogGrows) va v
      refine Respects.bind LogGrows.trans (hStore _ _) fun _ =>
        Respects.bind LogGrows.trans (hStore _ _) fun _ =>
        Respects.bind LogGrows.trans (hStore _ _) fun _ => ?_
      cases task.lsAddr.getLast? with
      | none => exact Respects.pure LogGrows.refl _
      | some pos =>
          exact Respects.bind LogGrows.trans (hStore _ _) fun _ => Respects.pure LogGrows.refl _) s))
  obtain ⟨rfl, hLock1, hPool1⟩ := hPtr obj rest hPool
  set b : Block := ⟨pa, sizeToOrder sizeofLoadSegmentAddress⟩ with hb
  rw [bind_ok hRun1]
  -- the record and the link to it lie in blocks of the heap
  let D : Nat → Prop := fun f => ∃ c ∈ b :: heap, f = c.frame
  have hD : ∀ f, D f → ∃ c ∈ (b :: heap ++ mapped) ++ others, c.Has f := by
    rintro f ⟨c, hc, rfl⟩
    exact ⟨c, List.mem_append_left _ (List.mem_append_left _ hc), c.has_frame⟩
  have hStore : ∀ c ∈ b :: heap, ∀ off, off < 4096 → ∀ v t, Wrote D s1 t →
      ∃ t', store64 (kmemBase + c.pa + BitVec.ofNat 64 off) v t = .ok () t' ∧ Wrote D s1 t' := by
    intro c hc off hOff v t ht
    obtain ⟨t', hRun, hW⟩ := (hKmem1.wrote ht hD).store64_heap (List.mem_append_left _ hc) hOff v
    exact ⟨t', hRun, ht.trans (hW.mono (by rintro f rfl; exact ⟨c, hc, rfl⟩))⟩
  have hDone : ∀ t, Wrote D s1 t → KmemOk kernelHead n (b :: heap ++ mapped) others t ∧
      t.mmSpinlock = false ∧ t.vmapAreaPool.freeList = rest ∧ FreeKept n s t ∧
      (∀ c ∈ mapped ++ others, ∀ k, c.Has k → t.mem k = s.mem k) ∧
      ∀ w, w < 2 ^ 35 → t.page w = s.page w := by
    intro t ht
    refine ⟨hKmem1.wrote ht hD, ht.lock.trans hLock1, by rw [ht.pool]; exact hPool1,
      hKeeps.free.trans (hKmem1.frames.freeKept_of_wrote ht hD), ?_, ?_⟩
    · intro c hc k hk
      have hc' : c ∈ (heap ++ mapped) ++ others := by
        rcases List.mem_append.mp hc with hc | hc <;> simp [hc]
      rw [ht.mem k, hKeeps.mem c hc' k hk]
      rintro ⟨d, hd, rfl⟩
      have hAll := hKmem1.frames.disjoint
      rw [show b :: (heap ++ mapped) ++ others = (b :: heap) ++ (mapped ++ others) by simp] at hAll
      exact (List.pairwise_append.mp hAll).2.2 d hd c hc _ d.has_frame hk
    · intro w hw
      obtain ⟨hHead, hNot⟩ := lowerPage_head hw
      rw [(hKmem1.frames.wrote ht hD).2 w hHead, hKeeps.page w (by omega) hHead hNot]
  have hbMem : b ∈ b :: heap := by simp
  obtain ⟨t1, hSt1, hW1⟩ := hStore b hbMem 0 (by decide) phys s1 (Wrote.refl s1)
  obtain ⟨t2, hSt2, hW2⟩ := hStore b hbMem 8 (by decide) order t1 hW1
  obtain ⟨t3, hSt3, hW3⟩ := hStore b hbMem 16 (by decide) 0#64 t2 hW2
  rw [BitVec.add_zero] at hSt1
  rw [bind_ok hSt1, bind_ok hSt2, bind_ok hSt3]
  cases hLast : task.lsAddr.getLast? with
  | none => exact ⟨b, t3, rfl, hDone t3 hW3⟩
  | some pos =>
      obtain ⟨c, hc, hPos⟩ := hNodes pos (List.mem_of_getLast? hLast)
      obtain ⟨t4, hSt4, hW4⟩ := hStore c (by simp [hc]) 16 (by decide) (kmemBase + b.pa) t3 hW3
      rw [← hPos] at hSt4
      refine ⟨b, t4, ?_, hDone t4 hW4⟩
      simp only
      rw [bind_ok hSt4]
      rfl

/-! ## One round -/

/-- The task with one more segment. -/
def UserTask.addSegment (task : UserTask) (node : U64 × LoadSegmentAddress) : UserTask :=
  { task with lsAddr := task.lsAddr ++ [node] }

@[simp] theorem UserTask.addSegment_segments (task : UserTask) (node : U64 × LoadSegmentAddress) :
    (task.addSegment node).segments = node.2.block :: task.segments := by
  simp [UserTask.addSegment, UserTask.segments]

/-- What holds between two rounds of the first loop, `s0` being the state before it: the blocks of the
segments and of their records are in use, and frames that are still free have not been touched. -/
structure Loading (n : Nat) (mapped others : List Block) (task : UserTask) (s0 s : Machine) :
    Prop where
  kmem : ∃ heap, KmemOk kernelHead n (heap ++ mapped) (task.segments ++ others) s ∧
    NodesIn task heap
  unlocked : s.mmSpinlock = false
  free : FreeKept n s0 s

/-- The pages of a segment are mapped to the block that is recorded for it, whose frames were free in
`s0`; the bytes of the file have been copied, and the others are what the frames held. -/
structure SegmentLoaded (elf : ElfImage) (n : Nat) (s0 s : Machine) (phdr : Elf64Phdr)
    (ls : LoadSegmentAddress) : Prop where
  mapped : ∀ k, k < phdr.pages →
    ∃ e, s.page (phdr.page + k) = some e ∧ entryFrame e = ls.block.frame + k
  room : phdr.pages ≤ ls.block.pages
  fresh : ∀ f, ls.block.Has f → f < n ∧ s0.pageAllocBitmap.bit f = false
  file : ∀ k, k < phdr.pFilesz.toNat →
    byteAt s.mem (ls.block.frame + k / 4096) (k % 4096) = elf (phdr.pOffset.toNat + k)
  stale : ∀ k, phdr.pFilesz.toNat ≤ k → k < phdr.pMemsz.toNat →
    byteAt s.mem (ls.block.frame + k / 4096) (k % 4096) =
      byteAt s0.mem (ls.block.frame + k / 4096) (k % 4096)

/-- The frame of a byte of a segment. -/
theorem SegmentLoaded.has {s0 : Machine} {ls : LoadSegmentAddress}
    (h : SegmentLoaded elf n s0 s phdr ls) {k : Nat} (hk : k < phdr.pMemsz.toNat) :
    k / 4096 < phdr.pages ∧ ls.block.Has (ls.block.frame + k / 4096) := by
  have hRoom := h.room
  have hPages : k / 4096 < phdr.pages := by
    simp only [Elf64Phdr.pages]
    omega
  exact ⟨hPages, by omega, by omega⟩

/-- A loaded segment stays loaded as long as its pages and its block are left alone. -/
theorem SegmentLoaded.keep {s0 s' : Machine} {ls : LoadSegmentAddress}
    (h : SegmentLoaded elf n s0 s phdr ls) (hSeg : LowerSegment phdr)
    (hPage : ∀ w, phdr.Covers w → s'.page w = s.page w)
    (hMem : ∀ k, ls.block.Has k → s'.mem k = s.mem k) : SegmentLoaded elf n s0 s' phdr ls where
  mapped := by
    intro k hk
    rw [hPage _ ⟨by omega, by omega⟩]
    exact h.mapped k hk
  room := h.room
  fresh := h.fresh
  file := by
    intro k hk
    have hFile := hSeg.filesz
    rw [byteAt, hMem _ (h.has (by omega)).2]
    exact h.file k hk
  stale := by
    intro k hk hk'
    rw [byteAt, hMem _ (h.has hk').2]
    exact h.stale k hk hk'

/-- A round for a segment whose pages are free. -/
theorem loadSegment_ok {s0 : Machine} (h : Loading n mapped others task s0 s) {obj : U64}
    {rest : List U64} (hPool : s.vmapAreaPool.freeList = obj :: rest) (hSeg : LowerSegment phdr)
    (hRam : 512 ≤ n) (hFree : ∀ w, phdr.Covers w → s.page w = none)
    (hFail : NoFail (finalState (loadSegment elf phdr task s)).allocLog) :
    ∃ node s', loadSegment elf phdr task s = .ok (task.addSegment node) s' ∧
      Loading n mapped others (task.addSegment node) s0 s' ∧
      SegmentLoaded elf n s0 s' phdr node.2 ∧ s'.vmapAreaPool.freeList = rest ∧
      (∀ b ∈ mapped ++ (task.segments ++ others), ∀ k, b.Has k → s'.mem k = s.mem k) ∧
      ∀ w, w < 2 ^ 35 → ¬ phdr.Covers w → s'.page w = s.page w := by
  obtain ⟨⟨heap, hKmem, hNodes⟩, hLock, hKept⟩ := h
  obtain ⟨hRoom, hSmall⟩ := hSeg.order
  have hLower := hSeg.lower
  have hPages := hSeg.small
  have hFile := hSeg.filesz
  set order := sizeToOrder (alignUp phdr.pMemsz pageSize) with hOrder
  rw [loadSegment_eq] at hFail ⊢
  -- the block and its mapping
  obtain ⟨phys, s1, s2, hAlloc, hMap, hBlock⟩ := hKmem.allocMap phdr.pVaddr (segmentLen phdr) 0x7#64
    (by decide) hSeg.vpn hSeg.segmentLen hLower (by omega) (show 2 ^ order.toNat ≤ n by omega)
    (fun w hw hw' => hFree w ⟨hw, hw'⟩) (by
      intro phys s1 hAlloc
      rw [bind_ok hAlloc] at hFail
      refine NoFail.of_isPrefix hFail (Respects.bind_after LogGrows.refl (fun _ => ?_) s1)
      exact Respects.bind LogGrows.trans (memcpy_log _ _ _) fun _ => appendSegment_log _ _ _)
  set b : Block := ⟨phys, order⟩ with hb
  have hKmem2 := hBlock.kmem
  have hHas : ∀ f, Spans b.frame phdr.pFilesz.toNat f → b.Has f := by
    rintro f ⟨hLow, hHigh⟩
    have hbPages : b.pages = 2 ^ order.toNat := rfl
    simp only [Elf64Phdr.pages] at hRoom
    exact ⟨hLow, by omega⟩
  have hOwn : ∀ f, Spans b.frame phdr.pFilesz.toNat f →
      ∃ c ∈ (heap ++ mapped) ++ b :: (task.segments ++ others), c.Has f :=
    fun f hf => ⟨b, by simp, hHas f hf⟩
  have hPagesDef : phdr.pages = phdr.pMemsz.toNat / 4096 + 1 := rfl
  -- the bytes of the file
  obtain ⟨s3, hCopy, hWrote, hBytes⟩ := storeBytes_ok hKmem2.frames phdr.pVaddr b.frame
    phdr.pFilesz.toNat (fun i => elf (phdr.pOffset.toNat + i)) (hSeg.bytesIn hFile)
    (fun k hk => (lowerPage_head (by rw [hSeg.vpn]; omega)).1)
    (fun k hk => by
      rw [hSeg.vpn]
      exact hBlock.inside k (by omega)) hOwn
  have hCopy' : memcpy phdr.pVaddr (fun i => elf (phdr.pOffset.toNat + i)) phdr.pFilesz s2 =
      .ok () s3 := hCopy
  have hKmem3 := hKmem2.wrote hWrote hOwn
  rw [bind_ok hAlloc, bind_ok hMap, bind_ok hCopy'] at hFail ⊢
  -- the record
  have hLock3 : s3.mmSpinlock = false := by
    rw [hWrote.lock, hBlock.grown.lock, hLock]
  have hPool3 : s3.vmapAreaPool.freeList = obj :: rest := by
    rw [hWrote.pool, hBlock.grown.pool, hPool]
  obtain ⟨c, s4, hAppend, hKmem4, hLock4, hPool4, hKept4, hMem4, hPage4⟩ :=
    appendSegment_ok hKmem3 hLock3 hPool3 hNodes phys order hFail
  have hPage : ∀ w, w < 2 ^ 35 → s4.page w = s2.page w := fun w hw =>
    (hPage4 w hw).trans ((hKmem2.frames.wrote hWrote hOwn).2 w (lowerPage_head hw).1)
  have hKeptAll : FreeKept n s s4 := (hBlock.toBlockTaken.freeKept.trans
    (hKmem2.frames.freeKept_of_wrote hWrote hOwn)).trans hKept4
  have hbFresh : ∀ f, b.Has f → f < n ∧ s0.pageAllocBitmap.bit f = false ∧ s.mem f = s0.mem f := by
    intro f hf
    have hIn := hKmem2.frames.inside b (by simp)
    obtain ⟨hLow, hHigh⟩ := id hf
    obtain ⟨hBit, hMem⟩ := hKept f (by omega) (hBlock.clear f hf)
    exact ⟨by omega, hBit, hMem⟩
  have hByte : ∀ k, k < phdr.pMemsz.toNat → byteAt s4.mem (b.frame + k / 4096) (k % 4096) =
      if k < phdr.pFilesz.toNat then elf (phdr.pOffset.toNat + k)
      else byteAt s0.mem (b.frame + k / 4096) (k % 4096) := by
    intro k hk
    have hkHas : b.Has (b.frame + k / 4096) := by
      have hbPages : b.pages = 2 ^ order.toNat := rfl
      exact ⟨by omega, by omega⟩
    have hEq : (b.frame + k / 4096 - b.frame) * 4096 + k % 4096 = k := by omega
    have h4 : byteAt s4.mem (b.frame + k / 4096) (k % 4096) =
        byteAt s3.mem (b.frame + k / 4096) (k % 4096) := by
      rw [byteAt, byteAt, hMem4 b (by simp) _ hkHas]
    have h2 : byteAt s2.mem (b.frame + k / 4096) (k % 4096) =
        byteAt s0.mem (b.frame + k / 4096) (k % 4096) := by
      rw [byteAt, byteAt, hBlock.toBlockTaken.mem (d := b) (by simp) hkHas,
        (hbFresh _ hkHas).2.2]
    rw [h4, hBytes _ _ (Nat.mod_lt _ (by decide)), hEq, h2]
    by_cases hIn : k < phdr.pFilesz.toNat
    · rw [if_pos ⟨by omega, hIn⟩, if_pos hIn]
    · rw [if_neg (by omega), if_neg hIn]
  refine ⟨(kmemBase + c.pa, ⟨phys, order⟩), s4, hAppend, ⟨⟨c :: heap, ?_, ?_⟩, hLock4,
    hKept.trans hKeptAll⟩, ⟨?_, ?_, fun f hf => ⟨(hbFresh f hf).1, (hbFresh f hf).2.1⟩, ?_, ?_⟩,
    hPool4, ?_, ?_⟩
  · rw [UserTask.addSegment_segments]
    exact hKmem4
  · intro node hNode
    rcases List.mem_append.mp hNode with hNode | hNode
    · obtain ⟨d, hd, hEq⟩ := hNodes node hNode
      exact ⟨d, by simp [hd], hEq⟩
    · rw [List.mem_singleton] at hNode
      exact ⟨c, by simp, by rw [hNode]⟩
  · intro k hk
    rw [hPage _ (by omega)]
    exact hBlock.inside k hk
  · exact hRoom
  · intro k hk
    exact (hByte k (by omega)).trans (if_pos hk)
  · intro k hk hk'
    exact (hByte k hk').trans (if_neg (by omega))
  · intro d hd k hk
    have hd' : d ∈ (heap ++ mapped) ++ (task.segments ++ others) := by
      rcases List.mem_append.mp hd with hd | hd
      · exact List.mem_append_left _ (List.mem_append_right _ hd)
      · exact List.mem_append_right _ hd
    have hdNew : d ∈ (heap ++ mapped) ++ b :: (task.segments ++ others) := by
      rcases List.mem_append.mp hd' with hd' | hd'
      · exact List.mem_append_left _ hd'
      · exact List.mem_append_right _ (List.mem_cons_of_mem _ hd')
    rw [hMem4 d (by
      rcases List.mem_append.mp hd with hd | hd
      · exact List.mem_append_left _ hd
      · exact List.mem_append_right _ (List.mem_cons_of_mem _ hd)) k hk, hWrote.mem k,
      hBlock.toBlockTaken.mem hdNew hk]
    intro hSpan
    have hAll := hKmem2.frames.perm (List.perm_middle)
    exact (List.pairwise_cons.mp hAll.disjoint).1 d hd' k (hHas k hSpan) hk
  · intro w hw hOut
    rw [hPage w hw]
    exact hBlock.outside w (by omega) (lowerPage_head hw).1 hOut

/-! ## The first loop -/

/-- The pages that are mapped for the first segment end before the second one. -/
def SegmentsApart (p q : Elf64Phdr) : Prop := p.page + p.pages ≤ q.page

instance (p q : Elf64Phdr) : Decidable (SegmentsApart p q) := inferInstanceAs (Decidable (_ ≤ _))

/-- The segments `done` have been loaded, and nothing else has been mapped in the lower half. -/
structure Loaded (elf : ElfImage) (n : Nat) (mapped others : List Block) (done : List Elf64Phdr)
    (task : UserTask) (s0 s : Machine) : Prop extends Loading n mapped others task s0 s where
  segments : List.Forall₂ (SegmentLoaded elf n s0 s) done (task.lsAddr.map fun node => node.2)
  page : ∀ w, w < 2 ^ 35 → (∀ p ∈ done, ¬ p.Covers w) → s.page w = s0.page w

/-- The address and the size of the last segment. -/
def lastSegment (loads : List Elf64Phdr) (last : U64 × U64) : U64 × U64 :=
  (loads.getLast?.map fun p => (p.pVaddr, p.pMemsz)).getD last

theorem lastSegment_cons (p : Elf64Phdr) (loads : List Elf64Phdr) (last : U64 × U64) :
    lastSegment (p :: loads) last = lastSegment loads (p.pVaddr, p.pMemsz) := by
  unfold lastSegment
  rw [List.getLast?_cons]
  cases loads.getLast? with
  | none => rfl
  | some q => rfl

theorem loadSegment_log (elf : ElfImage) (phdr : Elf64Phdr) (task : UserTask) :
    Respects LogGrows (loadSegment elf phdr task) := by
  rw [loadSegment_eq]
  exact Respects.bind LogGrows.trans (LogGrows.alloc _) fun _ =>
    Respects.bind LogGrows.trans (mapPageRange_log _ _ _ _) fun _ =>
    Respects.bind LogGrows.trans (memcpy_log _ _ _) fun _ => appendSegment_log _ _ _

theorem loadSegments_log (elf : ElfImage) (phdrs : List Elf64Phdr) (lastVaddr lastMemsz : U64)
    (task : UserTask) : Respects LogGrows (loadSegments elf phdrs lastVaddr lastMemsz task) := by
  induction phdrs generalizing lastVaddr lastMemsz task with
  | nil => exact Respects.pure LogGrows.refl _
  | cons phdr rest ih =>
      unfold loadSegments
      refine Respects.ite (Respects.ite (Respects.pure LogGrows.refl _) ?_) (ih _ _ _)
      exact Respects.bind LogGrows.trans (loadSegment_log _ _ _) fun _ => ih _ _ _

/-- A segment of the lower half passes the check against `KERNEL_BASE`. -/
theorem LowerSegment.not_kernel (h : LowerSegment phdr) : ¬ kernelBase ≤ phdr.pVaddr := by
  obtain ⟨-, hLower, -, -⟩ := h
  simp only [Elf64Phdr.page, Elf64Phdr.pages] at hLower
  rw [BitVec.le_def]
  simp only [kernelBase, BitVec.toNat_ofNat]
  omega

/-- Loading one more segment. -/
theorem Loaded.load {s0 : Machine} {done : List Elf64Phdr} (h : Loaded elf n mapped others done task s0 s)
    {obj : U64} {rest : List U64} (hPool : s.vmapAreaPool.freeList = obj :: rest)
    (hSegs : ∀ p ∈ done ++ [phdr], LowerSegment p) (hRam : 512 ≤ n)
    (hApart : ∀ p ∈ done, SegmentsApart p phdr) (hFree : ∀ w, phdr.Covers w → s0.page w = none)
    (hFail : NoFail (finalState (loadSegment elf phdr task s)).allocLog) :
    ∃ node s', loadSegment elf phdr task s = .ok (task.addSegment node) s' ∧
      Loaded elf n mapped others (done ++ [phdr]) (task.addSegment node) s0 s' ∧
      s'.vmapAreaPool.freeList = rest := by
  have hSeg := hSegs phdr (by simp)
  have hOut : ∀ p ∈ done, ∀ w, phdr.Covers w → ¬ p.Covers w := by
    intro p hp w hw hw'
    have := hApart p hp
    simp only [SegmentsApart, Elf64Phdr.Covers] at this hw hw'
    omega
  have hLow : ∀ p ∈ done ++ [phdr], ∀ w, p.Covers w → w < 2 ^ 35 := by
    intro p hp w hw
    have := (hSegs p hp).lower
    exact lt_of_lt_of_le hw.2 this
  obtain ⟨node, s', hRun, hLoading, hLoaded, hPool', hMem, hPage⟩ :=
    loadSegment_ok h.toLoading hPool hSeg hRam (by
      intro w hw
      rw [h.page w (hLow phdr (by simp) w hw) fun p hp => hOut p hp w hw]
      exact hFree w hw) hFail
  refine ⟨node, s', hRun, ⟨hLoading, ?_, ?_⟩, hPool'⟩
  · -- the segments before keep their pages and their memory
    have hKeep : List.Forall₂ (SegmentLoaded elf n s0 s') done
        (task.lsAddr.map fun node => node.2) := by
      refine List.forall₂_iff_zip.mpr ⟨h.segments.length_eq, fun {p ls} hIn => ?_⟩
      have hp : p ∈ done := (List.of_mem_zip hIn).1
      refine ((List.forall₂_iff_zip.mp h.segments).2 hIn).keep (hSegs p (by simp [hp])) ?_ ?_
      · intro w hw
        exact hPage w (hLow p (by simp [hp]) w hw) fun hw' => hOut p hp w hw' hw
      · intro k hk
        have hLs : ls.block ∈ task.segments := by
          obtain ⟨node, hNode, rfl⟩ := List.mem_map.mp (List.of_mem_zip hIn).2
          exact List.mem_reverse.mpr (List.mem_map.mpr ⟨node, hNode, rfl⟩)
        exact hMem ls.block (by simp [hLs]) k hk
    have hNew : List.Forall₂ (SegmentLoaded elf n s0 s') [phdr] [node.2] := by simpa using hLoaded
    have hAll := List.rel_append hKeep hNew
    simpa [UserTask.addSegment] using hAll
  · intro w hw hNot
    rw [hPage w hw (hNot phdr (by simp))]
    exact h.page w hw fun p hp => hNot p (by simp [hp])

/-- The first loop over headers whose segments are apart. -/
theorem loadSegments_ok {s0 : Machine} (hRam : 512 ≤ n) (phdrs : List Elf64Phdr) :
    ∀ {done : List Elf64Phdr} {task : UserTask} {s : Machine} (lastVaddr lastMemsz : U64),
    Loaded elf n mapped others done task s0 s →
    (∀ p ∈ done ++ phdrs.filter (fun p => p.pType = ptLoad), LowerSegment p) →
    (done ++ phdrs.filter fun p => p.pType = ptLoad).Pairwise SegmentsApart →
    (∀ p ∈ phdrs.filter (fun p => p.pType = ptLoad), ∀ w, p.Covers w → s0.page w = none) →
    (phdrs.filter fun p => p.pType = ptLoad).length ≤ s.vmapAreaPool.freeList.length →
    NoFail (finalState (loadSegments elf phdrs lastVaddr lastMemsz task s)).allocLog →
    ∃ last task' s', loadSegments elf phdrs lastVaddr lastMemsz task s =
        .ok (.ok (last.1, last.2, task')) s' ∧
      last = lastSegment (phdrs.filter fun p => p.pType = ptLoad) (lastVaddr, lastMemsz) ∧
      Loaded elf n mapped others (done ++ phdrs.filter fun p => p.pType = ptLoad) task' s0 s' ∧
      s'.vmapAreaPool.freeList.length + (phdrs.filter fun p => p.pType = ptLoad).length =
        s.vmapAreaPool.freeList.length := by
  induction phdrs with
  | nil =>
      intro done task s lastVaddr lastMemsz h _ _ _ _ _
      exact ⟨(lastVaddr, lastMemsz), task, s, rfl, rfl, by simpa using h, rfl⟩
  | cons phdr rest ih =>
      intro done task s lastVaddr lastMemsz h hSegs hApart hFree hPool hFail
      unfold loadSegments at hFail ⊢
      by_cases hType : phdr.pType = ptLoad
      · have hFilter : (phdr :: rest).filter (fun p => p.pType = ptLoad) =
            phdr :: rest.filter fun p => p.pType = ptLoad := by simp [hType]
        rw [hFilter] at hSegs hApart hFree hPool ⊢
        have hSeg := hSegs phdr (by simp)
        rw [if_pos hType, if_neg hSeg.not_kernel] at hFail ⊢
        cases hObjs : s.vmapAreaPool.freeList with
        | nil => simp [hObjs] at hPool
        | cons obj objs =>
            obtain ⟨node, s', hRun, hLoaded, hObjs'⟩ := h.load hObjs
              (fun p hp => hSegs p (by
                rcases List.mem_append.mp hp with hp | hp
                · simp [hp]
                · simp only [List.mem_singleton] at hp
                  simp [hp])) hRam
              (fun p hp => (List.pairwise_append.mp hApart).2.2 p hp phdr (by simp))
              (hFree phdr (by simp))
              (NoFail.of_isPrefix hFail (Respects.bind_after LogGrows.refl
                (fun _ => loadSegments_log _ _ _ _ _) s))
            rw [bind_ok hRun] at hFail ⊢
            obtain ⟨last, task', s'', hRun', hLast, hDone, hLeft⟩ := ih phdr.pVaddr phdr.pMemsz hLoaded
              (by simpa using hSegs) (by simpa using hApart)
              (fun p hp => hFree p (by simp [hp]))
              (by
                rw [hObjs', ← Nat.add_le_add_iff_right (n := 1)]
                simpa [hObjs] using hPool) hFail
            refine ⟨last, task', s'', hRun', ?_, by simpa using hDone, ?_⟩
            · rw [lastSegment_cons]
              exact hLast
            · rw [hObjs'] at hLeft
              rw [List.length_cons, List.length_cons, ← hLeft]
              rfl
      · have hFilter : (phdr :: rest).filter (fun p => p.pType = ptLoad) =
            rest.filter fun p => p.pType = ptLoad := by simp [hType]
        rw [hFilter] at hSegs hApart hFree hPool ⊢
        rw [if_neg hType] at hFail ⊢
        exact ih lastVaddr lastMemsz h hSegs hApart hFree hPool hFail

/-! ## The stack and the table -/

/-- `make_elf64_task` after the first loop. -/
def createLoaded (elf : ElfImage) (pathname : List (BitVec 8)) (switchToUser stackDown : U64)
    (task : UserTask) : KernelM (Int × UserTask) := do
  let stackTop := stackDown + ustackSize
  let stackSize := stackTop - stackDown
  let stackOrder := sizeToOrder stackSize
  let stackPhys ← Kernel.allocPages stackOrder
  let _ ← mapPageRange stackPhys stackDown 0x7#64 (stackSize >>> pageShift)
  let (_, task) ← usertaskCreate task stackTop (elfPhdr elf 0).pVaddr (eEntry elf) switchToUser 0#64
  let task := { task with
    stackBasephys := stackPhys
    stackOrder := stackOrder
    flags := .user
    status := .ready
    name := taskName pathname }
  unmapSegments (elfPhdrs elf)
  let _ ← unmapPageRange stackDown (stackSize >>> pageShift)
  pure (0, task)

theorem makeElf64Task_eq (elf : ElfImage) (task : UserTask) (pathname : List (BitVec 8))
    (switchToUser lastVaddr lastMemsz : U64) :
    makeElf64Task elf task pathname switchToUser lastVaddr lastMemsz = (do
      match ← loadSegments elf (elfPhdrs elf) lastVaddr lastMemsz task with
      | .error task => pure (-1, task)
      | .ok (lastVaddr, lastMemsz, task) =>
          createLoaded elf pathname switchToUser (alignUp (lastVaddr + lastMemsz) pageSize) task) :=
  rfl

theorem usertaskMap_log (start stop : U64) (task : UserTask) :
    Respects LogGrows (usertaskMap start stop task) :=
  Respects.bind LogGrows.trans (userLevelMap_log _ _) fun _ =>
    Respects.bind LogGrows.trans (userLevelMap_log _ _) fun _ =>
    Respects.bind LogGrows.trans (userLevelMap_log _ _) fun _ =>
    Respects.bind LogGrows.trans (userLevelMap_log _ _) fun _ => Respects.pure LogGrows.refl _

theorem usertaskCreate_log (task : UserTask) (stop start entry switchToUser args : U64) :
    Respects LogGrows (usertaskCreate task stop start entry switchToUser args) :=
  Respects.bind LogGrows.trans (usertaskMap_log _ _ _) fun _ =>
    Respects.bind LogGrows.trans (usertaskFill_log _ _ _) fun _ =>
    Respects.bind LogGrows.trans (usertaskFinish_log _ _ _ _ _ _) fun _ =>
    Respects.pure LogGrows.refl _

/-- The last loop unmaps pages of the segments and leaves everything else alone. -/
theorem unmapSegments_ok (phdrs : List Elf64Phdr) : ∀ {s : Machine},
    KmemOk kernelHead n mapped others s →
    (∀ p ∈ phdrs.filter (fun p => p.pType = ptLoad), LowerSegment p) →
    ∃ s', unmapSegments phdrs s = .ok () s' ∧ KmemOk kernelHead n mapped others s' ∧
      ∀ b ∈ mapped ++ others, ∀ k, b.Has k → s'.mem k = s.mem k := by
  induction phdrs with
  | nil => exact fun h _ => ⟨_, rfl, h, fun _ _ _ _ => rfl⟩
  | cons phdr rest ih =>
      intro s h hSegs
      unfold unmapSegments
      by_cases hType : phdr.pType = ptLoad
      · have hSeg := hSegs phdr (by simp [hType])
        have hSmall := hSeg.small
        obtain ⟨d, s1, -, -, hRun, hKmem1, -, hMem1, -⟩ := h.unmapLower_run phdr.pVaddr
          (segmentLen phdr) hSeg.vpn hSeg.segmentLen hSeg.lower (by omega)
        obtain ⟨s2, hRun2, hKmem2, hMem2⟩ := ih hKmem1 fun p hp => hSegs p (by
          rw [List.filter_cons_of_pos (by simpa using hType)]
          exact List.mem_cons_of_mem _ hp)
        refine ⟨s2, ?_, hKmem2, fun b hb k hk => (hMem2 b hb k hk).trans (hMem1 b hb k hk)⟩
        rw [if_pos hType, bind_ok hRun]
        exact hRun2
      · rw [if_neg hType]
        refine ih h fun p hp => hSegs p ?_
        rw [List.filter_cons_of_neg (by simpa using hType)]
        exact hp

theorem unmapSegments_log (phdrs : List Elf64Phdr) : Respects LogGrows (unmapSegments phdrs) := by
  induction phdrs with
  | nil => exact Respects.pure LogGrows.refl _
  | cons phdr rest ih =>
      unfold unmapSegments
      refine Respects.ite ?_ ih
      exact Respects.bind LogGrows.trans (unmapPageRange_log _ _) fun _ => ih

theorem unmapSegments_kept (phdrs : List Elf64Phdr) : Respects HeapKept (unmapSegments phdrs) := by
  induction phdrs with
  | nil => exact Respects.pure HeapKept.refl _
  | cons phdr rest ih =>
      unfold unmapSegments
      refine Respects.ite ?_ ih
      exact Respects.bind HeapKept.trans (unmapPageRange_kept _ _) fun _ => ih

theorem createLoaded_log (elf : ElfImage) (pathname : List (BitVec 8)) (switchToUser stackDown : U64)
    (task : UserTask) : Respects LogGrows (createLoaded elf pathname switchToUser stackDown task) :=
  Respects.bind LogGrows.trans (LogGrows.alloc _) fun _ =>
    Respects.bind LogGrows.trans (mapPageRange_log _ _ _ _) fun _ =>
    Respects.bind LogGrows.trans (usertaskCreate_log _ _ _ _ _ _) fun _ =>
    Respects.bind LogGrows.trans (unmapSegments_log _) fun _ =>
    Respects.bind LogGrows.trans (unmapPageRange_log _ _) fun _ => Respects.pure LogGrows.refl _

/-- A task that can be switched to: a ready user task, its table built by `__usertask_create`, and on the page
below `stop`, as the table translates it, the first frame of its stack. -/
structure Startable (task : UserTask) (mem : Memory) (stop entry switchToUser : U64) : Prop where
  flags : task.flags = .user
  status : task.status = .ready
  built : ∃ task1 task2 start s1 s2, usertaskCreate task1 stop start entry switchToUser 0#64 s1 =
    .ok (0, task2) s2 ∧ task2.toUserLevels = task.toUserLevels ∧ task2.pml4 = task.pml4
  pml4 : task.pml4 = task.userPml4.phys
  rsp : task.rsp = stop - sizeofTaskUserInitStack
  frame : ∃ f, userWalk mem task.userPml4.frame (walkPath task.rsp) = some f ∧
    InitFrame mem f stop entry switchToUser 0#64

/-- What follows the first loop, with the pages of the stack and of the windows free: the new table
translates the range as the kernel's table does, and the blocks in use are not touched. -/
theorem createLoaded_ok (h : KmemOk kernelHead n mapped others s) (hLock : s.mmSpinlock = false)
    (hRam : 512 ≤ n) {stackDown : U64} (hAligned : stackDown.toNat % 4096 = 0)
    (hLow : stackDown.toNat + 0x80000 < 2 ^ 47)
    (hLower : LowerRange (elfPhdr elf 0).pVaddr (stackDown + ustackSize))
    (hOne : OneTable (elfPhdr elf 0).pVaddr (stackDown + ustackSize))
    (hSegs : ∀ p ∈ loadPhdrs elf, LowerSegment p)
    (hStack : ∀ w, stackDown.toNat / 4096 ≤ w → w < stackDown.toNat / 4096 + 128 → s.page w = none)
    (hFree : WindowsFree (elfPhdr elf 0).pVaddr (stackDown + ustackSize) s)
    (hApart : stackDown.toNat / 4096 + 128 ≤ windowPage ∨
      windowPage + 3 + rangePages (elfPhdr elf 0).pVaddr (stackDown + ustackSize) ≤
        stackDown.toNat / 4096)
    (pathname : List (BitVec 8)) (switchToUser : U64) (task : UserTask)
    (hFail : NoFail
      (finalState (createLoaded elf pathname switchToUser stackDown task s)).allocLog) :
    ∃ task' s', createLoaded elf pathname switchToUser stackDown task s = .ok (0, task') s' ∧
      task'.lsAddr = task.lsAddr ∧
      (∀ (va e : U64), (elfPhdr elf 0).pVaddr.toNat ≤ va.toNat → va.toNat < stackDown.toNat →
        s.page (vpn va) = some e →
        userWalk s'.mem task'.userPml4.frame (walkPath va) = some (entryFrame e)) ∧
      (∀ b ∈ mapped ++ others, ∀ k, b.Has k → s'.mem k = s.mem k) ∧
      Startable task' s'.mem (stackDown + ustackSize) (eEntry elf) switchToUser ∧
      (s.vmapAreaPool.freeList ≠ [] → s'.mmSpinlock = false) := by
  have hSize : stackDown + ustackSize - stackDown = ustackSize := by
    rw [BitVec.add_comm, BitVec.add_sub_cancel]
  have hCount : (ustackSize >>> pageShift).toNat = 128 := by decide
  have hOrder : (sizeToOrder ustackSize).toNat = 7 := by decide
  have hVpn : vpn stackDown = stackDown.toNat / 4096 := by
    simp only [vpn]
    omega
  have hTop : (stackDown + ustackSize).toNat = stackDown.toNat + 0x80000 := by
    rw [BitVec.toNat_add, ustackSize, BitVec.toNat_ofNat]
    omega
  have hWinEq : windowPage = 0x700000000 := rfl
  have hHead : ∀ w, w < 2 ^ 35 → kernelHead (pageHead w) := fun w hw => (lowerPage_head hw).1
  have hSmall : rangePages (elfPhdr elf 0).pVaddr (stackDown + ustackSize) ≤ 512 := by
    have := hLower.ptIdx_add_le hOne
    omega
  unfold createLoaded at hFail ⊢
  simp only [hSize] at hFail ⊢
  have hRest3 : ∀ t3 : UserTask, Respects LogGrows (do
      unmapSegments (elfPhdrs elf)
      let _ ← unmapPageRange stackDown (ustackSize >>> pageShift)
      pure ((0, t3) : Int × UserTask)) := fun t3 =>
    Respects.bind LogGrows.trans (unmapSegments_log _) fun _ =>
      Respects.bind LogGrows.trans (unmapPageRange_log _ _) fun _ => Respects.pure LogGrows.refl _
  -- the stack
  obtain ⟨phys, s1, s2, hAlloc, hMap, hBlock⟩ := h.allocMap stackDown (ustackSize >>> pageShift)
    0x7#64 (by decide) hVpn hCount (by omega) (by decide)
    (show 2 ^ (sizeToOrder ustackSize).toNat ≤ n by rw [hOrder]; omega) hStack (by
      intro phys s1 hAlloc
      rw [bind_ok hAlloc] at hFail
      refine NoFail.of_isPrefix hFail (Respects.bind_after LogGrows.refl (fun _ => ?_) s1)
      exact Respects.bind LogGrows.trans (usertaskCreate_log _ _ _ _ _ _) fun r => hRest3 _)
  set b : Block := ⟨phys, sizeToOrder ustackSize⟩ with hb
  rw [bind_ok hAlloc, bind_ok hMap] at hFail ⊢
  obtain ⟨e, he, hFrame⟩ := hBlock.inside 127 (by decide)
  have hHas : b.Has (entryFrame e) := by
    have hPages : b.pages = 128 := by
      rw [Block.pages, hOrder]
      rfl
    rw [hFrame]
    exact ⟨by omega, by omega⟩
  have hLast : s2.page ((stackDown + ustackSize).toNat / 4096 - 1) = some e := by
    rw [hTop, show (stackDown.toNat + 0x80000) / 4096 - 1 = stackDown.toNat / 4096 + 127 by omega]
    exact he
  have hOut : ∀ w, w < 2 ^ 35 →
      ¬ (stackDown.toNat / 4096 ≤ w ∧ w < stackDown.toNat / 4096 + 128) → s2.page w = s.page w :=
    fun w hw hNot => hBlock.outside w (by omega) (hHead w hw) hNot
  have hFree2 : WindowsFree (elfPhdr elf 0).pVaddr (stackDown + ustackSize) s2 := by
    intro w hw hw'
    rw [hOut w (by omega) (by omega)]
    exact hFree w hw hw'
  have hKept2 : HeapKept s s2 := by
    have hAllocKept := Respects.of_ok (HeapKept.alloc _) hAlloc
    exact hAllocKept.trans _ _ _ (Respects.of_ok (mapPageRange_kept _ _ _ _) hMap)
  -- the table
  obtain ⟨t1, s3, t2, s4, task', s5, -, -, hCreate, -, hPml4, hLs, hCreated, hRsp, hInit, hUnlocked⟩ :=
    usertaskCreate_run hBlock.kmem (by rw [hBlock.grown.lock, hLock]) (by omega) hLower hOne hFree2
      hLast ⟨b, by simp, hHas⟩ task (eEntry elf) switchToUser 0#64
      (NoFail.of_isPrefix hFail (Respects.bind_after LogGrows.refl (fun r => hRest3 _) s2))
  rw [bind_ok hCreate]
  obtain ⟨pa, hKmem5⟩ := hCreated.kmem
  -- the temporary mappings
  obtain ⟨s6, hRun6, hKmem6, hMem6⟩ := unmapSegments_ok (elfPhdrs elf) hKmem5 hSegs
  obtain ⟨d, s7, -, -, hRun7, -, -, hMem7, -⟩ := hKmem6.unmapLower_run stackDown
    (ustackSize >>> pageShift) hVpn hCount (by omega) (by decide)
  simp only
  rw [bind_ok hRun6, bind_ok hRun7]
  have hMem : ∀ c ∈ mapped ++ (task'.levels ++ b :: others), ∀ k, c.Has k →
      s7.mem k = s5.mem k := by
    intro c hc k hk
    have hc' : c ∈ (⟨pa, sizeToOrder ursp0Size⟩ :: mapped) ++ (task'.levels ++ b :: others) :=
      List.mem_cons_of_mem _ hc
    rw [hMem7 c hc' k hk, hMem6 c hc' k hk]
  have hWalk : ∀ va e' : U64, (elfPhdr elf 0).pVaddr.toNat ≤ va.toNat →
      va.toNat < (stackDown + ustackSize).toNat → s2.page (vpn va) = some e' →
      userWalk s7.mem task'.userPml4.frame (walkPath va) = some (entryFrame e') := by
    intro va e' hva hva' hPage
    refine hCreated.userWalk hLower hOne hFree2 (fun f hf => ?_) hva hva' hPage
    obtain ⟨c, hc, hcHas⟩ := hf.block
    rw [hMem c (by simp [hc]) f hcHas]
    exact hCreated.table_kept ⟨b, by simp, hHas⟩ hf
  refine ⟨_, s7, rfl, hLs, ?_, ?_, ?_, ?_⟩
  · intro va e' hva hva' hPage
    have hVa : vpn va = va.toNat / 4096 := by
      simp only [vpn]
      omega
    exact hWalk va e' hva (by omega) (by rw [hOut _ (by omega) (by omega), hPage])
  · intro c hc k hk
    have hcAll : c ∈ mapped ++ (task'.levels ++ b :: others) := by
      rcases List.mem_append.mp hc with hc | hc <;> simp [hc]
    have hcNew : c ∈ mapped ++ b :: others := by
      rcases List.mem_append.mp hc with hc | hc <;> simp [hc]
    have hNe : k ≠ entryFrame e := by
      rintro rfl
      have hAll := hBlock.kmem.frames.perm List.perm_middle
      exact (List.pairwise_cons.mp hAll.disjoint).1 c hc _ hHas hk
    rw [hMem c hcAll k hk, hCreated.mem_kept hcNew hk hNe, hBlock.toBlockTaken.mem hcNew hk]
  · -- the first frame is on the last page of the stack
    have hRspNat : (stackDown + ustackSize - sizeofTaskUserInitStack).toNat =
        stackDown.toNat + 0x80000 - 176 := by
      rw [BitVec.toNat_sub, hTop, sizeofTaskUserInitStack, BitVec.toNat_ofNat]
      omega
    have hRspVpn : vpn (stackDown + ustackSize - sizeofTaskUserInitStack) =
        (stackDown + ustackSize).toNat / 4096 - 1 := by
      simp only [vpn, hRspNat, hTop]
      omega
    have hStart := hLower.lt
    have hStartPage := hLower.startAligned
    refine ⟨rfl, rfl, ⟨task, task', _, s2, s5, hCreate, rfl, rfl⟩, hPml4, hRsp, entryFrame e, ?_, ?_⟩
    · show userWalk s7.mem task'.userPml4.frame (walkPath task'.rsp) = _
      rw [hRsp]
      refine hWalk _ e ?_ ?_ ?_
      · omega
      · omega
      · rw [hRspVpn]
        exact hLast
    · refine hInit.congr (hMem b (by simp) _ hHas)
  · intro hPool
    have hUnmapKept := Respects.of_ok (unmapSegments_kept (elfPhdrs elf)) hRun6
    have hStackKept := Respects.of_ok (unmapPageRange_kept _ _) hRun7
    exact hStackKept.1.trans (hUnmapKept.1.trans (hUnlocked (by rw [hKept2.2.1]; exact hPool)))

/-! ## Images -/

/-- The images that the loader is meant for: the segments are page aligned, ascending, on
different pages below `KERNEL_BASE` that are not mapped, and no segment has more bytes in the file than
in memory. -/
structure ElfSegments (elf : ElfImage) (s : Machine) : Prop where
  aligned : ∀ p ∈ loadPhdrs elf, p.pVaddr.toNat % 4096 = 0
  ascending : (loadPhdrs elf).Pairwise fun p q =>
    p.pVaddr.toNat < q.pVaddr.toNat ∧ p.pVaddr.toNat + p.pMemsz.toNat ≤ q.pVaddr.toNat
  below : ∀ p ∈ loadPhdrs elf, p.pVaddr.toNat + p.pMemsz.toNat ≤ kernelBase.toNat
  unmapped : ∀ p ∈ loadPhdrs elf, ∀ w, p.page ≤ w →
    w * 4096 < p.pVaddr.toNat + p.pMemsz.toNat → s.page w = none
  filesz : ∀ p ∈ loadPhdrs elf, p.pFilesz.toNat ≤ p.pMemsz.toNat

/-- `stack_down`. -/
def stackDown (elf : ElfImage) : U64 :=
  let last := lastSegment (loadPhdrs elf) (0#64, 0#64)
  alignUp (last.1 + last.2) pageSize

/-- `stack_top`. -/
def stackTop (elf : ElfImage) : U64 := stackDown elf + ustackSize

/-- An image that the table of a task has room for: the first header is that of the first segment, the
segments and the stack lie in one 2 MiB region of the lower half, away from the four windows, and
neither the page that is mapped after each segment nor the stack nor the windows are in use; the heap
has a `vmap_area` left for every record. -/
structure ElfPlaced (elf : ElfImage) (s : Machine) : Prop where
  first : (loadPhdrs elf).head?.map (fun p => p.pVaddr) = some (elfPhdr elf 0).pVaddr
  lower : (lastSegment (loadPhdrs elf) (0#64, 0#64)).1.toNat +
    (lastSegment (loadPhdrs elf) (0#64, 0#64)).2.toNat + 0x81000 < 2 ^ 47
  table : OneTable (elfPhdr elf 0).pVaddr (stackTop elf)
  covered : ∀ p ∈ loadPhdrs elf, ∀ w, p.Covers w → s.page w = none
  stack : ∀ w, (stackDown elf).toNat / 4096 ≤ w → w < (stackDown elf).toNat / 4096 + 128 →
    s.page w = none
  windows : WindowsFree (elfPhdr elf 0).pVaddr (stackTop elf) s
  apart : (stackTop elf).toNat / 4096 ≤ windowPage ∨
    windowPage + 3 + rangePages (elfPhdr elf 0).pVaddr (stackTop elf) ≤
      (elfPhdr elf 0).pVaddr.toNat / 4096
  pool : (loadPhdrs elf).length ≤ s.vmapAreaPool.freeList.length

/-- No segment ends before the last one, and none starts before the first. -/
theorem ElfSegments.between (h : ElfSegments elf s) {p : Elf64Phdr} (hp : p ∈ loadPhdrs elf) :
    (∀ first, (loadPhdrs elf).head?.map (fun q => q.pVaddr) = some first →
      first.toNat ≤ p.pVaddr.toNat) ∧
    ∀ d, p.pVaddr.toNat + p.pMemsz.toNat ≤
      (lastSegment (loadPhdrs elf) d).1.toNat + (lastSegment (loadPhdrs elf) d).2.toNat := by
  constructor
  · intro first hFirst
    cases hLoads : loadPhdrs elf with
    | nil =>
        rw [hLoads] at hp
        cases hp
    | cons q rest =>
        have hAsc := h.ascending
        rw [hLoads] at hp hAsc hFirst
        obtain rfl : q.pVaddr = first := by simpa using hFirst
        rcases List.mem_cons.mp hp with rfl | hp
        · exact le_refl _
        · exact ((List.pairwise_cons.mp hAsc).1 p hp).1.le
  · intro d
    obtain ⟨init, l, hLoads⟩ : ∃ init l, loadPhdrs elf = init ++ [l] :=
      (List.eq_nil_or_concat' _).resolve_left fun hNil => by
        rw [hNil] at hp
        cases hp
    have hLast : lastSegment (loadPhdrs elf) d = (l.pVaddr, l.pMemsz) := by
      simp [lastSegment, hLoads]
    have hAsc := h.ascending
    rw [hLast]
    rw [hLoads] at hp hAsc
    rcases List.mem_append.mp hp with hp | hp
    · have := ((List.pairwise_append.mp hAsc).2.2 p hp l (by simp)).2
      simp only
      omega
    · rw [List.mem_singleton] at hp
      rw [hp]

/-- Where the stack begins and ends. -/
theorem ElfPlaced.stack_toNat (h : ElfPlaced elf s) :
    (stackDown elf).toNat = (((lastSegment (loadPhdrs elf) (0#64, 0#64)).1.toNat +
      (lastSegment (loadPhdrs elf) (0#64, 0#64)).2.toNat) / 4096 + 1) * 4096 ∧
    (stackTop elf).toNat = (stackDown elf).toNat + 0x80000 := by
  have hLower := h.lower
  have hDown : (stackDown elf).toNat = (((lastSegment (loadPhdrs elf) (0#64, 0#64)).1.toNat +
      (lastSegment (loadPhdrs elf) (0#64, 0#64)).2.toNat) / 4096 + 1) * 4096 := by
    have hAdd : ((lastSegment (loadPhdrs elf) (0#64, 0#64)).1 +
        (lastSegment (loadPhdrs elf) (0#64, 0#64)).2).toNat =
        (lastSegment (loadPhdrs elf) (0#64, 0#64)).1.toNat +
          (lastSegment (loadPhdrs elf) (0#64, 0#64)).2.toNat := by
      rw [BitVec.toNat_add]
      omega
    rw [stackDown, alignUp_page_toNat (by rw [hAdd]; omega), hAdd]
  refine ⟨hDown, ?_⟩
  rw [stackTop, BitVec.toNat_add, ustackSize, BitVec.toNat_ofNat]
  omega

/-- The pages of the segments lie between the first segment and the stack. -/
theorem ElfPlaced.segment (hPlaced : ElfPlaced elf s) (h : ElfSegments elf s) {p : Elf64Phdr}
    (hp : p ∈ loadPhdrs elf) : LowerSegment p ∧
      (elfPhdr elf 0).pVaddr.toNat ≤ p.pVaddr.toNat ∧
      p.page + p.pages ≤ (stackDown elf).toNat / 4096 := by
  obtain ⟨hDown, hTop⟩ := hPlaced.stack_toNat
  obtain ⟨hFirst, hLast⟩ := h.between hp
  have hFirst' := hFirst _ hPlaced.first
  have hLast' := hLast (0#64, 0#64)
  have hLower := hPlaced.lower
  have hOne := hPlaced.table
  have hAligned := h.aligned p hp
  simp only [OneTable] at hOne
  have hEnd : p.page + p.pages ≤ (stackDown elf).toNat / 4096 := by
    simp only [Elf64Phdr.page, Elf64Phdr.pages]
    omega
  refine ⟨⟨hAligned, by omega, ?_, h.filesz p hp⟩, hFirst', hEnd⟩
  simp only [Elf64Phdr.page, Elf64Phdr.pages] at hEnd ⊢
  omega

/-- Every byte of the segment is backed, in the table at `root`, by the block that is recorded for it,
and it is the byte of the file or, after the end of the file, zero. -/
structure SegmentInPlace (elf : ElfImage) (mem : Memory) (root : Nat) (phdr : Elf64Phdr)
    (ls : LoadSegmentAddress) : Prop where
  walk : ∀ k, k < phdr.pMemsz.toNat →
    userWalk mem root (walkPath (phdr.pVaddr + BitVec.ofNat 64 k)) =
      some (ls.block.frame + k / 4096) ∧ ls.block.Has (ls.block.frame + k / 4096)
  byte : ∀ k, k < phdr.pMemsz.toNat → byteAt mem (ls.block.frame + k / 4096) (k % 4096) =
    if k < phdr.pFilesz.toNat then elf (phdr.pOffset.toNat + k) else 0#8

/-- What is asked of `make_elf64_task`: it returns 0, and every segment is in place. -/
def LoadsImage (elf : ElfImage) (pathname : List (BitVec 8)) (switchToUser lastVaddr lastMemsz : U64)
    (s : Machine) : Prop :=
  ∃ task' s', makeElf64Task elf UserTask.zeroed pathname switchToUser lastVaddr lastMemsz s =
      .ok (0, task') s' ∧
    List.Forall₂ (SegmentInPlace elf s'.mem task'.userPml4.frame) (loadPhdrs elf)
      (task'.lsAddr.map fun node => node.2)

/-- `make_elf64_task` for an image whose segments are apart: every segment is loaded and translated. -/
theorem makeElf64Task_ok (h : KernelReady n mapped others s) (hSegs : ElfSegments elf s)
    (hPlaced : ElfPlaced elf s) (hApart : (loadPhdrs elf).Pairwise SegmentsApart) (hRam : 512 ≤ n)
    (pathname : List (BitVec 8)) (switchToUser lastVaddr lastMemsz : U64)
    (hFail : NoFail (finalState (makeElf64Task elf UserTask.zeroed pathname switchToUser lastVaddr
      lastMemsz s)).allocLog) :
    ∃ task' s' s1, makeElf64Task elf UserTask.zeroed pathname switchToUser lastVaddr lastMemsz s =
        .ok (0, task') s' ∧
      List.Forall₂ (fun p ls => SegmentLoaded elf n s s1 p ls ∧
          (∀ k, ls.block.Has k → s'.mem k = s1.mem k) ∧
          ∀ k, k < p.pMemsz.toNat →
            userWalk s'.mem task'.userPml4.frame (walkPath (p.pVaddr + BitVec.ofNat 64 k)) =
              some (ls.block.frame + k / 4096))
        (loadPhdrs elf) (task'.lsAddr.map fun node => node.2) ∧
      Startable task' s'.mem (stackTop elf) (eEntry elf) switchToUser ∧
      ((loadPhdrs elf).length < s.vmapAreaPool.freeList.length → s'.mmSpinlock = false) := by
  obtain ⟨hDown, hTop⟩ := hPlaced.stack_toNat
  have hLower := hPlaced.lower
  have hSeg := fun p (hp : p ∈ loadPhdrs elf) => hPlaced.segment hSegs hp
  have hNe : loadPhdrs elf ≠ [] := by
    intro hNil
    have := hPlaced.first
    rw [hNil] at this
    cases this
  have hRest : ∀ r : Except UserTask (U64 × U64 × UserTask), Respects LogGrows
      (match r with
        | .error task => pure ((-1, task) : Int × UserTask)
        | .ok (lastVaddr, lastMemsz, task) =>
            createLoaded elf pathname switchToUser (alignUp (lastVaddr + lastMemsz) pageSize) task
        : KernelM (Int × UserTask)) := by
    intro r
    cases r with
    | error task => exact Respects.pure LogGrows.refl _
    | ok r => exact createLoaded_log _ _ _ _ _
  rw [makeElf64Task_eq] at hFail ⊢
  -- the segments
  have hInit : Loaded elf n mapped others [] UserTask.zeroed s s :=
    ⟨⟨⟨[], h.kmem, by simp [NodesIn, UserTask.zeroed]⟩, h.unlocked, FreeKept.refl s⟩, .nil,
      fun _ _ _ => rfl⟩
  obtain ⟨last, task1, s1, hRun1, hLast, hLoaded, hLeft⟩ := loadSegments_ok hRam (elfPhdrs elf)
    lastVaddr lastMemsz hInit (fun p hp => (hSeg p hp).1) hApart hPlaced.covered hPlaced.pool
    (NoFail.of_isPrefix hFail (Respects.bind_after LogGrows.refl hRest s))
  rw [bind_ok hRun1] at hFail ⊢
  rw [List.nil_append] at hLoaded
  have hStackDown : alignUp (last.1 + last.2) pageSize = stackDown elf := by
    rw [hLast, stackDown]
    obtain ⟨init, l, hLoads⟩ := (List.eq_nil_or_concat' (loadPhdrs elf)).resolve_left hNe
    have hLoads' : (elfPhdrs elf).filter (fun p => p.pType = ptLoad) = init ++ [l] := hLoads
    simp [lastSegment, hLoads, hLoads']
  simp only [hStackDown] at hFail ⊢
  obtain ⟨⟨heap, hKmem1, -⟩, hLock1, hFree1⟩ := hLoaded.toLoading
  have hOut : ∀ w, w < 2 ^ 35 → (∀ p ∈ loadPhdrs elf, ¬ p.Covers w) → s1.page w = s.page w :=
    hLoaded.page
  obtain ⟨hStartAligned, hStart⟩ : (elfPhdr elf 0).pVaddr.toNat % 4096 = 0 ∧
      (elfPhdr elf 0).pVaddr.toNat < (stackDown elf).toNat := by
    cases hLoads : loadPhdrs elf with
    | nil => exact absurd hLoads hNe
    | cons p rest =>
        have hFirst := hPlaced.first
        rw [hLoads] at hFirst
        have hEq : p.pVaddr = (elfPhdr elf 0).pVaddr := by simpa using hFirst
        have hp : p ∈ loadPhdrs elf := by
          rw [hLoads]
          simp
        have hEnd := (hSeg p hp).2.2
        have hAligned := hSegs.aligned p hp
        simp only [Elf64Phdr.page, Elf64Phdr.pages] at hEnd
        rw [← hEq]
        exact ⟨hAligned, by omega⟩
  have hRange : LowerRange (elfPhdr elf 0).pVaddr (stackTop elf) :=
    ⟨hStartAligned, by omega, by omega, by omega⟩
  -- the stack and the windows are still free
  have hStackFree : ∀ w, (stackDown elf).toNat / 4096 ≤ w →
      w < (stackDown elf).toNat / 4096 + 128 → s1.page w = none := by
    intro w hw hw'
    rw [hOut w (by omega) fun p hp hCov => by
      have := (hSeg p hp).2.2
      simp only [Elf64Phdr.Covers] at hCov
      omega]
    exact hPlaced.stack w hw hw'
  have hWinEq : windowPage = 0x700000000 := rfl
  have hSmall : rangePages (elfPhdr elf 0).pVaddr (stackTop elf) ≤ 512 := by
    have := hRange.ptIdx_add_le hPlaced.table
    omega
  have hWindows : WindowsFree (elfPhdr elf 0).pVaddr (stackTop elf) s1 := by
    intro w hw hw'
    rw [hOut w (by omega) fun p hp hCov => by
      have hEnd := (hSeg p hp).2.2
      have hFirst := (hSeg p hp).2.1
      have hCase := hPlaced.apart
      simp only [Elf64Phdr.Covers, Elf64Phdr.page] at hCov hEnd
      omega]
    exact hPlaced.windows w hw hw'
  obtain ⟨task', s', hRun2, hLs, hWalk, hMem, hStartable, hUnlocked⟩ := createLoaded_ok hKmem1 hLock1 hRam (by omega)
    (by omega) hRange hPlaced.table (fun p hp => (hSeg p hp).1) hStackFree hWindows
    (by
      have hCase := hPlaced.apart
      rw [stackTop] at hCase hTop
      omega) pathname switchToUser task1 hFail
  have hPool : (loadPhdrs elf).length < s.vmapAreaPool.freeList.length → s'.mmSpinlock = false := by
    intro hLt
    apply hUnlocked
    intro hNil
    have hLoads : (elfPhdrs elf).filter (fun p => p.pType = ptLoad) = loadPhdrs elf := rfl
    rw [hNil, hLoads, List.length_nil] at hLeft
    omega
  refine ⟨task', s', s1, hRun2, ?_, hStartable, hPool⟩
  rw [hLs]
  refine List.forall₂_iff_zip.mpr ⟨hLoaded.segments.length_eq, fun {p ls} hIn => ?_⟩
  have hp : p ∈ loadPhdrs elf := (List.of_mem_zip hIn).1
  have hSegLoaded := (List.forall₂_iff_zip.mp hLoaded.segments).2 hIn
  refine ⟨hSegLoaded, fun k hk => ?_, fun k hk => ?_⟩
  · have hBlock : ls.block ∈ task1.segments := by
      obtain ⟨node, hNode, rfl⟩ := List.mem_map.mp (List.of_mem_zip hIn).2
      exact List.mem_reverse.mpr (List.mem_map.mpr ⟨node, hNode, rfl⟩)
    exact hMem ls.block (by simp [hBlock]) k hk
  · obtain ⟨hpLow, hpFirst, hpEnd⟩ := hSeg p hp
    obtain ⟨hkPage, -⟩ := hSegLoaded.has hk
    obtain ⟨e, he, hFrame⟩ := hSegLoaded.mapped _ hkPage
    have hBytes := hpLow.bytesIn (le_refl _)
    have hNat := hBytes.toNat hk
    have hpAligned := hpLow.aligned
    rw [← hFrame]
    refine hWalk _ e (by omega) ?_ (by rw [hBytes.vpn hk, hpLow.vpn]; exact he)
    rw [hNat]
    have hDiv : (stackDown elf).toNat % 4096 = 0 := by omega
    simp only [Elf64Phdr.page, Elf64Phdr.pages] at hpEnd
    omega

/-- The conditions on an image do not depend on what free frames hold. -/
theorem ElfPlaced.stale (hPlaced : ElfPlaced elf s) (hSegs : ElfSegments elf s)
    (h : KernelReady n mapped others s) {m : Memory} (hm : StaleOf s m) :
    ElfSegments elf { s with mem := m } ∧ ElfPlaced elf { s with mem := m } := by
  obtain ⟨hDown, hTop⟩ := hPlaced.stack_toNat
  have hLower := hPlaced.lower
  have hPage := (h.stale hm).2
  have hOne := hPlaced.table
  have hWinEq : windowPage = 0x700000000 := rfl
  have hCovered : ∀ p ∈ loadPhdrs elf, ∀ w, p.Covers w →
      Machine.page { s with mem := m } w = none := by
    intro p hp w hw
    have hEnd := (hPlaced.segment hSegs hp).1.lower
    rw [hPage w (lt_of_lt_of_le hw.2 hEnd)]
    exact hPlaced.covered p hp w hw
  have hSmall : rangePages (elfPhdr elf 0).pVaddr (stackTop elf) ≤ 512 := by
    simp only [OneTable] at hOne
    simp only [rangePages]
    omega
  refine ⟨⟨hSegs.aligned, hSegs.ascending, hSegs.below, ?_, hSegs.filesz⟩, ⟨hPlaced.first,
    hPlaced.lower, hPlaced.table, hCovered, ?_, ?_, hPlaced.apart, hPlaced.pool⟩⟩
  · intro p hp w hw hw'
    refine hCovered p hp w ⟨hw, ?_⟩
    have := hSegs.aligned p hp
    simp only [Elf64Phdr.page, Elf64Phdr.pages]
    omega
  · intro w hw hw'
    rw [hPage w (by omega)]
    exact hPlaced.stack w hw hw'
  · intro w hw hw'
    rw [hPage w (by omega)]
    exact hPlaced.windows w hw hw'

/-- An image whose segments are apart and come from the file to the last byte is loaded. -/
theorem loadsImage_of_filled (h : KernelReady n mapped others s) (hSegs : ElfSegments elf s)
    (hPlaced : ElfPlaced elf s) (hApart : (loadPhdrs elf).Pairwise SegmentsApart)
    (hFilled : ∀ p ∈ loadPhdrs elf, p.pFilesz = p.pMemsz) (hRam : 512 ≤ n)
    (pathname : List (BitVec 8)) (switchToUser lastVaddr lastMemsz : U64)
    (hFail : NoFail (finalState (makeElf64Task elf UserTask.zeroed pathname switchToUser lastVaddr
      lastMemsz s)).allocLog) :
    LoadsImage elf pathname switchToUser lastVaddr lastMemsz s := by
  obtain ⟨task', s', s1, hRun, hAll, -⟩ := makeElf64Task_ok h hSegs hPlaced hApart hRam pathname
    switchToUser lastVaddr lastMemsz hFail
  refine ⟨task', s', hRun, List.forall₂_iff_zip.mpr ⟨hAll.length_eq, fun {p ls} hIn => ?_⟩⟩
  obtain ⟨hLoaded, hMem, hWalk⟩ := (List.forall₂_iff_zip.mp hAll).2 hIn
  refine ⟨fun k hk => ⟨hWalk k hk, (hLoaded.has hk).2⟩, fun k hk => ?_⟩
  have hk' : k < p.pFilesz.toNat := by
    rw [hFilled p (List.of_mem_zip hIn).1]
    exact hk
  rw [if_pos hk', byteAt, hMem _ (hLoaded.has hk).2]
  exact hLoaded.file k hk'

/-- Frames full of ones show through the bytes of a segment that do not come from the file. -/
theorem filled_of_loadsImage (h : KernelReady n mapped others s) (hSegs : ElfSegments elf s)
    (hPlaced : ElfPlaced elf s) (hApart : (loadPhdrs elf).Pairwise SegmentsApart) (hRam : 512 ≤ n)
    (pathname : List (BitVec 8)) (switchToUser lastVaddr lastMemsz : U64)
    (hFail : NoFail (finalState (makeElf64Task elf UserTask.zeroed pathname switchToUser lastVaddr
      lastMemsz { s with mem := refillFree s fun _ _ => BitVec.allOnes 64 })).allocLog)
    (hLoads : LoadsImage elf pathname switchToUser lastVaddr lastMemsz
      { s with mem := refillFree s fun _ _ => BitVec.allOnes 64 }) :
    ∀ p ∈ loadPhdrs elf, p.pFilesz = p.pMemsz := by
  have hStale := staleOf_refillFree s fun _ _ => BitVec.allOnes 64
  obtain ⟨hSegs', hPlaced'⟩ := hPlaced.stale hSegs h hStale
  obtain ⟨task', s', s1, hRun, hAll, -⟩ := makeElf64Task_ok (h.stale hStale).1 hSegs' hPlaced' hApart
    hRam pathname switchToUser lastVaddr lastMemsz hFail
  obtain ⟨task2, s2, hRun2, hPlace⟩ := hLoads
  rw [hRun] at hRun2
  cases hRun2
  intro p hp
  by_contra hNe
  have hLt : p.pFilesz.toNat < p.pMemsz.toNat :=
    lt_of_le_of_ne (hSegs.filesz p hp) fun hEq => hNe (BitVec.eq_of_toNat_eq hEq)
  -- the record of the segment
  obtain ⟨i, hi, rfl⟩ := List.getElem_of_mem hp
  have hi' : i < (task'.lsAddr.map fun node => node.2).length := hAll.length_eq ▸ hi
  obtain ⟨hLoaded, hMem, -⟩ := hAll.get hi hi'
  have hByte := (hPlace.get hi hi').byte _ hLt
  simp only [List.get_eq_getElem] at hLoaded hMem hByte
  obtain ⟨-, hHas⟩ := hLoaded.has hLt
  obtain ⟨hn, hBit⟩ := hLoaded.fresh _ hHas
  have hBit' : s.pageAllocBitmap.bit _ = false := hBit
  rw [if_neg (lt_irrefl _), byteAt, hMem _ hHas] at hByte
  have hStaleByte := hLoaded.stale _ (le_refl _) hLt
  rw [byteAt, hByte] at hStaleByte
  have hOnes : ∀ k, k < 8 → getByte (BitVec.allOnes 64) k = 0xff#8 := by decide
  simp only [byteAt, refillFree] at hStaleByte
  rw [if_pos ⟨by rw [h.kmem.frames.size]; exact hn, hBit'⟩, hOnes _ (Nat.mod_lt _ (by decide))]
    at hStaleByte
  exact absurd hStaleByte (by decide)

end Load

/-! ## Enough frames for a call -/

/-- The frames that a segment and its record may take. -/
def segmentCost (phdr : Elf64Phdr) : Nat :=
  2 ^ (sizeToOrder (alignUp phdr.pMemsz pageSize)).toNat + 3 * (segmentLen phdr).toNat + 4

theorem appendSegment_costs {n : Nat} (phys order : U64) (task : UserTask) :
    Costs n 4 (appendSegment phys order task) := by
  have hLink : ∀ ptr : U64, Costs n 0 (do
      match task.lsAddr.getLast? with
      | none => pure ()
      | some pos => store64 (pos.1 + 16#64) ptr
      pure { task with lsAddr := task.lsAddr ++ [(ptr, ⟨phys, order⟩)] } : KernelM UserTask) := by
    intro ptr
    cases task.lsAddr.getLast? with
    | none => exact Costs.pure _
    | some pos => exact Costs.bind (Costs.store64 _ _) fun _ => Costs.pure _
  exact (Costs.bind (Costs.kzalloc _) fun ptr => Costs.bind (Costs.store64 _ _) fun _ =>
    Costs.bind (Costs.store64 _ _) fun _ => Costs.bind (Costs.store64 _ _) fun _ =>
    hLink ptr).mono (by decide)

theorem loadSegment_costs {n : Nat} (elf : ElfImage) (phdr : Elf64Phdr) (task : UserTask) :
    Costs n (segmentCost phdr) (loadSegment elf phdr task) := by
  rw [loadSegment_eq]
  refine Costs.mono (Costs.bind (Costs.allocPages _) fun phys =>
    Costs.bind (Costs.mapPageRange _ _ _ _) fun _ =>
    Costs.bind (Costs.forUpto fun i => Costs.store8 _ _) fun _ => appendSegment_costs _ _ _) ?_
  simp only [segmentCost]
  omega

/-- The frames that the first loop may take. -/
def segmentsCost (phdrs : List Elf64Phdr) : Nat :=
  ((phdrs.filter fun p => p.pType = ptLoad).map segmentCost).sum

theorem loadSegments_costs {n : Nat} (elf : ElfImage) (phdrs : List Elf64Phdr)
    (lastVaddr lastMemsz : U64) (task : UserTask) :
    Costs n (segmentsCost phdrs) (loadSegments elf phdrs lastVaddr lastMemsz task) := by
  induction phdrs generalizing lastVaddr lastMemsz task with
  | nil => exact Costs.pure _
  | cons phdr rest ih =>
      unfold loadSegments
      by_cases hType : phdr.pType = ptLoad
      · have hCost : segmentsCost (phdr :: rest) = segmentCost phdr + segmentsCost rest := by
          simp [segmentsCost, hType]
        rw [if_pos hType, hCost]
        exact Costs.ite ((Costs.pure _).mono (Nat.zero_le _))
          (Costs.bind (loadSegment_costs _ _ _) fun _ => ih _ _ _)
      · have hCost : segmentsCost (phdr :: rest) = segmentsCost rest := by
          simp [segmentsCost, hType]
        rw [if_neg hType, hCost]
        exact ih _ _ _

/-- The first loop hands on the address and the size of the last segment. -/
theorem loadSegments_last (elf : ElfImage) (phdrs : List Elf64Phdr) :
    ∀ {lastVaddr lastMemsz : U64} {task : UserTask} {s s' : Machine}
      {r : Except UserTask (U64 × U64 × UserTask)},
      loadSegments elf phdrs lastVaddr lastMemsz task s = .ok r s' →
      ∀ last, r = .ok last → (last.1, last.2.1) =
        lastSegment (phdrs.filter fun p => p.pType = ptLoad) (lastVaddr, lastMemsz) := by
  induction phdrs with
  | nil =>
      intro lastVaddr lastMemsz task s s' r hRun last hr
      cases hRun
      cases hr
      rfl
  | cons phdr rest ih =>
      intro lastVaddr lastMemsz task s s' r hRun last hr
      unfold loadSegments at hRun
      by_cases hType : phdr.pType = ptLoad
      · rw [if_pos hType] at hRun
        rw [List.filter_cons_of_pos (by simpa using hType), lastSegment_cons]
        by_cases hKernel : kernelBase ≤ phdr.pVaddr
        · rw [if_pos hKernel] at hRun
          cases hRun
          cases hr
        · rw [if_neg hKernel] at hRun
          obtain ⟨t, s1, -, hRest⟩ := bind_eq_ok.mp hRun
          exact ih hRest last hr
      · rw [if_neg hType] at hRun
        rw [List.filter_cons_of_neg (by simpa using hType)]
        exact ih hRun last hr

theorem unmapSegments_costs {n : Nat} (phdrs : List Elf64Phdr) : Costs n 0 (unmapSegments phdrs) := by
  induction phdrs with
  | nil => exact Costs.pure _
  | cons phdr rest ih =>
      unfold unmapSegments
      exact Costs.ite (Costs.bind (Costs.unmapPageRange _ _) fun _ => ih) ih

theorem createLoaded_costs {n : Nat} (elf : ElfImage) (pathname : List (BitVec 8))
    (switchToUser stackDown : U64) (task : UserTask) :
    Costs n (512 + usertaskCost (elfPhdr elf 0).pVaddr (stackDown + ustackSize))
      (createLoaded elf pathname switchToUser stackDown task) := by
  have hSize : stackDown + ustackSize - stackDown = ustackSize := by
    rw [BitVec.add_comm, BitVec.add_sub_cancel]
  have hOrder : (sizeToOrder ustackSize).toNat = 7 := by decide
  have hCount : (ustackSize >>> pageShift).toNat = 128 := by decide
  unfold createLoaded
  simp only [hSize]
  refine Costs.mono (Costs.bind (Costs.allocPages _) fun _ =>
    Costs.bind (Costs.mapPageRange _ _ _ _) fun _ =>
    Costs.bind (usertaskCreate_costs _ _ _ _ _ _) fun _ =>
    Costs.bind (unmapSegments_costs _) fun _ =>
    Costs.bind (Costs.unmapPageRange _ _) fun _ => Costs.pure _) ?_
  rw [hOrder, hCount]
  omega

/-- The frames that a call of `make_elf64_task` may take. -/
theorem makeElf64Task_costs {n : Nat} {elf : ElfImage} (hNe : loadPhdrs elf ≠ []) (task : UserTask)
    (pathname : List (BitVec 8)) (switchToUser lastVaddr lastMemsz : U64) :
    Costs n (segmentsCost (elfPhdrs elf) +
        (512 + usertaskCost (elfPhdr elf 0).pVaddr (stackTop elf)))
      (makeElf64Task elf task pathname switchToUser lastVaddr lastMemsz) := by
  rw [makeElf64Task_eq]
  refine Costs.bind_of (fun r => ∀ last, r = .ok last →
      alignUp (last.1 + last.2.1) pageSize = stackDown elf)
    (loadSegments_costs elf (elfPhdrs elf) lastVaddr lastMemsz task) ?_ ?_
  · intro s r s' hRun last hr
    have hLast := loadSegments_last elf (elfPhdrs elf) hRun last hr
    obtain ⟨init, l, hLoads⟩ := (List.eq_nil_or_concat' (loadPhdrs elf)).resolve_left hNe
    have hLoads' : (elfPhdrs elf).filter (fun p => p.pType = ptLoad) = init ++ [l] := hLoads
    rw [hLoads'] at hLast
    simp only [lastSegment, List.getLast?_append, List.getLast?_singleton, Option.some_or,
      Option.map_some, Option.getD_some, Prod.mk.injEq] at hLast
    simp [stackDown, lastSegment, hLoads, hLast.1, hLast.2]
  · intro r hr
    cases r with
    | error t => exact (Costs.pure _).mono (Nat.zero_le _)
    | ok last =>
        have hDown := hr last rfl
        simp only [hDown]
        exact createLoaded_costs elf pathname switchToUser (stackDown elf) last.2.2

/-! ## A small image -/

/-- The tables of `userMachine` in a machine with 1024 frames and two free `vmap_area` objects. -/
def elfMachine : Machine :=
  { userMachine with
    pageAllocBitmap := { size := 1024#64, map := 0xff#64 :: List.replicate 15 0#64
                         map_length := by decide }
    vmapAreaPool := ⟨[0x1000#64, 0x1028#64], 40#64, 2#64, 0#64⟩ }

theorem elfMachine_bit (k : Nat) : elfMachine.pageAllocBitmap.bit k = decide (k < 8) :=
  bit_of_firstByte (show elfMachine.pageAllocBitmap.map = 0xff#64 :: List.replicate 15 0#64 from rfl)
    (by decide) k

theorem elfMachine_ready : KernelReady 1024 [] userBlocks elfMachine :=
  userMachine_ready_of (show elfMachine.pageAllocBitmap.size.toNat = 1024 by decide) (by decide)
    (by decide) elfMachine_bit elfMachine.vmapAreaPool

/-- An image of one segment: two bytes in memory at the address `0x10000`, of which `filesz` are in the
file. -/
def tinyElf (filesz : BitVec 8) : ElfImage := fun i =>
  match i with
  | 4 => 2#8
  | 24 => 0#8
  | 26 => 1#8
  | 32 => 64#8
  | 56 => 1#8
  | 64 => 1#8
  | 82 => 1#8
  | 96 => filesz
  | 104 => 2#8
  | _ => 0#8

/-- The one header of `tinyElf`. -/
def tinyPhdr (filesz : BitVec 8) : Elf64Phdr :=
  ⟨1, 0#64, 0x10000#64, filesz.setWidth 64, 2#64⟩

theorem tinyElf_phdr (filesz : BitVec 8) : elfPhdr (tinyElf filesz) 0 = tinyPhdr filesz := by
  simp [elfPhdr, tinyPhdr, ePhoff, elfU64, elfNat, tinyElf]

theorem tinyElf_loads (filesz : BitVec 8) : loadPhdrs (tinyElf filesz) = [tinyPhdr filesz] := by
  have hNum : ePhnum (tinyElf filesz) = 1 := by simp [ePhnum, elfNat, tinyElf]
  have hPhdrs : elfPhdrs (tinyElf filesz) = [tinyPhdr filesz] := by
    rw [elfPhdrs, hNum, show List.range 1 = [0] by decide, List.map_singleton, tinyElf_phdr]
  simp [loadPhdrs, hPhdrs, tinyPhdr, ptLoad]

theorem elfMachine_free {w : Nat} (hw : w < 2 ^ 35) (hOut : ¬ (w = 511 ∨ w = 512)) :
    elfMachine.page w = none := by
  by_contra hSome
  obtain ⟨e, he⟩ := Option.ne_none_iff_exists'.mp hSome
  have := userMachine_page (by omega) (lowerPage_head hw).1 he
  omega

theorem tinyElf_stack (filesz : BitVec 8) : stackDown (tinyElf filesz) = 0x11000#64 ∧
    stackTop (tinyElf filesz) = 0x91000#64 := by
  simp only [stackTop, stackDown, tinyElf_loads, lastSegment, tinyPhdr, List.getLast?_singleton,
    Option.map_some, Option.getD_some]
  decide

theorem tinyElf_segments {filesz : BitVec 8} (hFile : filesz.toNat ≤ 2) :
    ElfSegments (tinyElf filesz) elfMachine := by
  have hLt := filesz.isLt
  constructor <;> rw [tinyElf_loads]
  · simp [tinyPhdr]
  · simp
  · simp [tinyPhdr, kernelBase]
  · intro p hp w hw hw'
    rw [List.mem_singleton] at hp
    subst hp
    simp only [Elf64Phdr.page, tinyPhdr, BitVec.toNat_ofNat] at hw hw'
    exact elfMachine_free (by omega) (by omega)
  · simp only [List.mem_singleton, forall_eq, tinyPhdr, BitVec.toNat_setWidth, BitVec.toNat_ofNat]
    omega

theorem tinyElf_placed (filesz : BitVec 8) : ElfPlaced (tinyElf filesz) elfMachine := by
  obtain ⟨hDown, hTop⟩ := tinyElf_stack filesz
  have hPages : rangePages 0x10000#64 0x91000#64 = 129 := by decide
  have hWinEq : windowPage = 0x700000000 := rfl
  refine ⟨?_, ?_, ?_, ?_, ?_, ?_, ?_, ?_⟩ <;>
    simp only [tinyElf_loads, tinyElf_phdr, tinyPhdr, hDown, hTop, lastSegment]
  · rfl
  · simp
  · decide
  · intro p hp w hw
    rw [List.mem_singleton] at hp
    subst hp
    simp only [Elf64Phdr.Covers, Elf64Phdr.page, Elf64Phdr.pages, BitVec.toNat_ofNat] at hw
    exact elfMachine_free (by omega) (by omega)
  · intro w hw hw'
    simp only [BitVec.toNat_ofNat] at hw hw'
    exact elfMachine_free (by omega) (by omega)
  · intro w hw hw'
    exact elfMachine_free (by omega) (by omega)
  · exact Or.inl (by decide)
  · simp [elfMachine]

theorem elfMachine_room {m : Memory} : Room 1024 8 { elfMachine with mem := m } := by
  refine ⟨rfl, by decide, ?_, by simp [NoFail, elfMachine, userMachine]⟩
  intro k hk _
  show elfMachine.pageAllocBitmap.bit k = false
  rw [elfMachine_bit, decide_eq_false_iff_not]
  omega

theorem tinyElf_cost (filesz : BitVec 8) : 8 + (segmentsCost (elfPhdrs (tinyElf filesz)) +
    (512 + usertaskCost (elfPhdr (tinyElf filesz) 0).pVaddr (stackTop (tinyElf filesz)))) ≤ 1024 := by
  have hSegs : segmentsCost (elfPhdrs (tinyElf filesz)) = 8 := by
    show ((loadPhdrs (tinyElf filesz)).map segmentCost).sum = 8
    simp only [tinyElf_loads, tinyPhdr, List.map_singleton, List.sum_singleton, segmentCost,
      segmentLen]
    decide
  have hTask : usertaskCost 0x10000#64 0x91000#64 ≤ 496 := by decide
  rw [hSegs, (tinyElf_stack filesz).2, tinyElf_phdr]
  exact Nat.add_le_add_left (Nat.add_le_add_left (Nat.add_le_add_left hTask 512) 8) 8

theorem tinyElf_noFail (filesz : BitVec 8) {m : Memory} (_ : StaleOf elfMachine m) :
    NoFail (finalState (makeElf64Task (tinyElf filesz) UserTask.zeroed [] 0#64 0#64 0#64
      { elfMachine with mem := m })).allocLog :=
  (makeElf64Task_costs (by simp [tinyElf_loads]) _ _ _ _ _).noFail elfMachine_room (tinyElf_cost filesz)

end Rayos
