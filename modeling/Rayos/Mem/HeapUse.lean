import Rayos.Mem.HeapRun
import Rayos.Mem.Stores

/-!
# The heap as the rest of the kernel uses it

What a call of `kzalloc` looks like to code that holds blocks of its own and has mapped pages of its
own: the call finishes, it adds one block to the region at `KMEM_BASE`, and it leaves everything else
alone.  When the metadata pool is exhausted the call fails with the block allocated and mapped and
with the lock held; the caller's own memory is untouched in that case as well.
-/

namespace Rayos

open RadixTable Program

variable {H : Nat → Prop} {n : Nat} {mapped others : List Block} {s : Machine}

/-! ## Histories -/

theorem memset_log (dest : U64) (c : BitVec 8) (count : U64) :
    Respects LogGrows (memset dest c count) := by
  refine Respects.forUpto LogGrows.refl LogGrows.trans fun i s => ?_
  unfold store8
  split
  · exact LogGrows.refl s
  · exact LogGrows.mem s _ _ _

theorem vmapAreaAlloc_log (start nrPages : U64) : Respects LogGrows (vmapAreaAlloc start nrPages) := by
  intro s
  unfold vmapAreaAlloc
  split <;> exact LogGrows.refl s

theorem kmemMap_log (order : U64) : Respects LogGrows (kmemMap order) := by
  refine Respects.bind LogGrows.trans (LogGrows.alloc order) fun pa => ?_
  refine Respects.ite (Respects.pure LogGrows.refl _) ?_
  refine Respects.bind LogGrows.trans (mapPageRange_log _ _ _ _) fun ret => ?_
  exact Respects.ite (Respects.pure LogGrows.refl _) (Respects.pure LogGrows.refl _)

/-- What `kmalloc` does after the block has been mapped. -/
theorem kmallocRest_log (size va : U64) : Respects LogGrows (if va = 0#64 then pure 0#64
    else do
      let vm ← vmapAreaAlloc va (orderToPages (sizeToOrder size))
      match vm with
      | none => pure 0#64
      | some vm => do
          mmSpinlockUnlock
          pure vm.vaStart : KernelM U64) := by
  refine Respects.ite (Respects.pure LogGrows.refl _) ?_
  refine Respects.bind LogGrows.trans (vmapAreaAlloc_log _ _) fun vm => ?_
  cases vm with
  | none => exact Respects.pure LogGrows.refl _
  | some vm =>
      refine Respects.bind LogGrows.trans (fun s => LogGrows.refl s) fun _ => ?_
      exact Respects.pure LogGrows.refl _

theorem kmalloc_log (size : U64) : Respects LogGrows (kmalloc size) := by
  refine Respects.bind LogGrows.trans ?_ fun _ => ?_
  · intro s
    unfold mmSpinlockLock
    split <;> exact LogGrows.refl s
  · refine Respects.ite (Respects.pure LogGrows.refl _) ?_
    exact Respects.bind LogGrows.trans (kmemMap_log _) fun va => kmallocRest_log size va

theorem kzallocRest_log (size ptr : U64) : Respects LogGrows (if ptr = 0#64 then pure ptr
    else do
      memset ptr 0#8 size
      pure ptr : KernelM U64) := by
  refine Respects.ite (Respects.pure LogGrows.refl _) ?_
  exact Respects.bind LogGrows.trans (memset_log _ _ _) fun _ => Respects.pure LogGrows.refl _

theorem kzalloc_log (size : U64) : Respects LogGrows (kzalloc size) :=
  Respects.bind LogGrows.trans (kmalloc_log size) fun ptr => kzallocRest_log size ptr

/-! ## What other code sees -/

/-- Frames that are still free have not been touched. -/
def FreeKept (n : Nat) (s s' : Machine) : Prop :=
  ∀ f, f < n → s'.pageAllocBitmap.bit f = false →
    s.pageAllocBitmap.bit f = false ∧ s'.mem f = s.mem f

theorem FreeKept.refl (s : Machine) : FreeKept n s s := fun _ _ hf => ⟨hf, rfl⟩

theorem FreeKept.trans {s t u : Machine} (h : FreeKept n s t) (h' : FreeKept n t u) :
    FreeKept n s u := by
  intro f hf hBit
  obtain ⟨hBit', hMem'⟩ := h' f hf hBit
  obtain ⟨hBit'', hMem''⟩ := h f hf hBit'
  exact ⟨hBit'', hMem'.trans hMem''⟩

/-- Growing tables takes frames from the allocator. -/
theorem FramesOk.freeKept_of_grown {owned : List Block} {s' : Machine} (h' : FramesOk H n owned s')
    (hGrown : Grown H s s')
    (hBits : ∀ k, s.pageAllocBitmap.bit k = true → s'.pageAllocBitmap.bit k = true) :
    FreeKept n s s' := by
  intro f hf hBit
  refine ⟨?_, hGrown.frame f fun p hp hTable => ?_⟩
  · by_contra hSet
    rw [hBits f (by simpa using hSet)] at hBit
    cases hBit
  · rw [h'.tableUsed p f hp hTable hf] at hBit
    cases hBit

/-- Stores to blocks in use do not touch free frames. -/
theorem FramesOk.freeKept_of_wrote {owned : List Block} {D : Nat → Prop} {s' : Machine}
    (h : FramesOk H n owned s) (hWrote : Wrote D s s') (hD : ∀ f, D f → ∃ b ∈ owned, b.Has f) :
    FreeKept n s s' := by
  intro f _ hBit
  rw [hWrote.bitmap] at hBit
  refine ⟨hBit, hWrote.mem f fun hDf => ?_⟩
  obtain ⟨b, hb, hHas⟩ := hD f hDf
  rw [h.used b hb f hHas] at hBit
  cases hBit

/-- The memory of the blocks, the mapping outside the region at `KMEM_BASE` and the free frames are as
before. -/
structure Keeps (H : Nat → Prop) (n : Nat) (blocks : List Block) (s s' : Machine) : Prop where
  cr3 : s'.cr3 = s.cr3
  mem : ∀ b ∈ blocks, ∀ k, b.Has k → s'.mem k = s.mem k
  free : FreeKept n s s'
  page : ∀ w, w < 2 ^ 36 → H (pageHead w) → ¬ kmemHead (pageHead w) → s'.page w = s.page w

theorem Keeps.trans {blocks : List Block} {s t u : Machine} (h : Keeps H n blocks s t)
    (h' : Keeps H n blocks t u) : Keeps H n blocks s u where
  cr3 := h'.cr3.trans h.cr3
  free := h.free.trans h'.free
  mem := fun b hb k hk => (h'.mem b hb k hk).trans (h.mem b hb k hk)
  page := fun w hw hHw hNot => (h'.page w hw hHw hNot).trans (h.page w hw hHw hNot)

/-- `alloc_pages` returns. -/
theorem FramesOk.alloc_run {owned : List Block} (h : FramesOk H n owned s) {order : U64}
    (hFits : 2 ^ order.toNat ≤ n) : ∃ pa s', Kernel.allocPages order s = .ok pa s' ∧
      s'.allocLog = s.allocLog ++ [⟨pa, order⟩] := by
  unfold Kernel.allocPages
  rcases allocPages_cases s.pageAllocBitmap (by rw [h.size]; exact h.small) order
      (by rw [h.size]; exact hFits) with ⟨p, pa, bmp, hEq, -⟩ | ⟨-, hEq⟩
  · rw [hEq]
    exact ⟨_, _, rfl, rfl⟩
  · rw [hEq]
    exact ⟨_, _, rfl, rfl⟩

/-- A successful `alloc_pages` takes the first run of frames that were clear, and clears none. -/
theorem FramesOk.alloc_bits {owned : List Block} {s' : Machine} (h : FramesOk H n owned s)
    {order pa : U64} (hFits : 2 ^ order.toNat ≤ n) (hRun : Kernel.allocPages order s = .ok pa s')
    (hPa : ¬ pa.toInt < 0) :
    (∀ k, Block.Has ⟨pa, order⟩ k → s.pageAllocBitmap.bit k = false) ∧
      (∀ k, k < Block.frame ⟨pa, order⟩ → ¬ RangeFree s.pageAllocBitmap k (2 ^ order.toNat)) ∧
      ∀ k, s.pageAllocBitmap.bit k = true → s'.pageAllocBitmap.bit k = true := by
  unfold Kernel.allocPages at hRun
  rcases allocPages_cases s.pageAllocBitmap (by rw [h.size]; exact h.small) order
      (by rw [h.size]; exact hFits) with
    ⟨p, pa', bmp, hEq, hPa', hEnd, hFree, hFirst, -, hBits⟩ | ⟨-, hEq⟩
  · rw [hEq] at hRun
    cases hRun
    have hFrame : Block.frame ⟨pa, order⟩ = p := by
      simp only [Block.frame, hPa']
      omega
    refine ⟨fun k hk => ?_, by rw [hFrame]; exact hFirst, fun k hk => ?_⟩
    · rw [Block.Has, hFrame] at hk
      exact hFree k hk.1 hk.2
    · simp only [hBits, hk, Bool.true_or]
  · rw [hEq] at hRun
    cases hRun
    exact absurd (by decide) hPa

/-- Taking single pages clears no bit. -/
theorem FramesOk.takes_bits {owned : List Block} {s' : Machine} (h : FramesOk H n owned s)
    (hTakes : TakesPages s s') (hFail : NoFail s'.allocLog) :
    ∀ k, s.pageAllocBitmap.bit k = true → s'.pageAllocBitmap.bit k = true := by
  obtain ⟨-, new, hLog, hBits⟩ := hTakes
  have hFail' : NoFail new := fun b hb => hFail b (by rw [hLog]; exact List.mem_append_right _ hb)
  obtain ⟨-, -, hSet⟩ := hBits (by rw [h.size]; exact h.nonempty) (by rw [h.size]; exact h.small)
    hFail'
  exact fun k hk => (hSet k).mpr (Or.inl hk)

/-- `__kmem_map` in a run in which `alloc_pages` does not fail. -/
theorem KmemOk.kmemMap (h : KmemOk H n mapped others s) {order : U64}
    (hFits : 2 ^ order.toNat ≤ n) (hFail : NoFail (finalState (kmemMap order s)).allocLog) :
    ∃ pa s', Rayos.kmemMap order s = .ok (kmemBase + pa) s' ∧
      KmemOk H n (⟨pa, order⟩ :: mapped) others s' ∧ Keeps H n (mapped ++ others) s s' ∧
      s'.vmapAreaPool = s.vmapAreaPool ∧ s'.mmSpinlock = s.mmSpinlock := by
  obtain ⟨pa, s1, hAlloc, hLog1⟩ := h.frames.alloc_run hFits
  have hRest : ∀ pa : U64, Respects LogGrows (if pa.toInt < 0 then pure 0#64
      else do
        let ret ← mapPageRange pa (kmemBase + pa) mapKernRw (orderToPages order)
        if sizeOfInt ret < orderToPages order then pure 0#64 else pure (kmemBase + pa)
        : KernelM U64) := by
    intro pa
    refine Respects.ite (Respects.pure LogGrows.refl _) ?_
    refine Respects.bind LogGrows.trans (mapPageRange_log _ _ _ _) fun ret => ?_
    exact Respects.ite (Respects.pure LogGrows.refl _) (Respects.pure LogGrows.refl _)
  unfold Rayos.kmemMap at hFail ⊢
  rw [bind_ok hAlloc] at hFail ⊢
  have hPa : ¬ pa.toInt < 0 := by
    refine NoFail.of_isPrefix hFail (hRest pa s1) ⟨pa, order⟩ ?_
    rw [hLog1]
    simp
  rw [if_neg hPa] at hFail ⊢
  obtain ⟨hKmem1, hPool1, hAreas1, hLock1, -⟩ := h.alloc hFits hAlloc hPa
  obtain ⟨-, hMem1, hCr31, -⟩ := h.frames.alloc hFits hAlloc hPa
  have hFailMap := NoFail.of_isPrefix hFail
    (Respects.bind_after LogGrows.refl (fun ret => Respects.ite
      (Respects.pure LogGrows.refl _) (Respects.pure LogGrows.refl _)) s1)
  obtain ⟨s2, hMap, hKmem2, hGrown, hTakes, hMem2, hPage2⟩ :=
    hKmem1.map (b := ⟨pa, order⟩) hFailMap
  rw [hMap] at hFailMap
  have hBits := (h.frames.alloc_bits hFits hAlloc hPa).2.2
  have hPages := hKmem1.pages_eq (b := ⟨pa, order⟩) (by simp)
  have hFull : ¬ sizeOfInt ((Block.pages ⟨pa, order⟩ : Nat) : Int) < orderToPages order := by
    have hOrder := order_lt_of_pow_le hFits h.frames.small
    have hPow : 2 ^ order.toNat < 2 ^ 64 := Nat.pow_lt_pow_right (by decide) (by omega)
    rw [BitVec.lt_def, sizeOfInt_natCast_toNat (by exact hPow), hPages]
    omega
  rw [bind_ok hMap, if_neg hFull]
  have hGrown1 : Grown H s s1 := Grown.of_mem_eq h.frames.tables hMem1 hCr31
    (by rw [hLog1]; exact List.prefix_append _ _) hPool1 hAreas1 hLock1
  refine ⟨pa, s2, rfl, hKmem2, ⟨hGrown.cr3.trans hCr31, ?_, ?_, ?_⟩, hGrown.pool.trans hPool1,
    hGrown.lock.trans hLock1⟩
  · intro b hb k hk
    rw [hMem2 b (by
      rcases List.mem_append.mp hb with hb | hb <;> simp [hb]) k hk, hMem1]
  · exact hKmem2.frames.freeKept_of_grown (hGrown1.trans hGrown) fun k hk =>
      hKmem1.frames.takes_bits hTakes hFailMap k (hBits k hk)
  · intro w hw hHw hNot
    rw [hPage2 w hw hHw hNot]
    simp only [Machine.page, Machine.root, hMem1, hCr31]

/-- `kmalloc` in a run in which `alloc_pages` does not fail. -/
theorem KmemOk.kmalloc (h : KmemOk H n mapped others s) (hLock : s.mmSpinlock = false) {size : U64}
    (hSize : size ≠ 0#64) (hFits : 2 ^ (sizeToOrder size).toNat ≤ n)
    (hFail : NoFail (finalState (kmalloc size s)).allocLog) :
    ∃ pa ptr s', Rayos.kmalloc size s = .ok ptr s' ∧
      KmemOk H n (⟨pa, sizeToOrder size⟩ :: mapped) others s' ∧ Keeps H n (mapped ++ others) s s' ∧
      (ptr = 0#64 ∨ ptr = kmemBase + pa) ∧
      ∀ obj rest, s.vmapAreaPool.freeList = obj :: rest → ptr = kmemBase + pa ∧
        s'.mmSpinlock = false ∧ s'.vmapAreaPool.freeList = rest := by
  have hLocked : mmSpinlockLock s = .ok () { s with mmSpinlock := true } := by
    simp only [mmSpinlockLock, hLock, Bool.false_eq_true, if_false]
  unfold Rayos.kmalloc at hFail ⊢
  rw [bind_ok hLocked, if_neg hSize] at hFail ⊢
  have hKmem0 := h.congr { s with mmSpinlock := true } rfl rfl rfl
  obtain ⟨pa, s1, hMap, hKmem1, hKeeps, hPool, -⟩ := hKmem0.kmemMap hFits
    (NoFail.of_isPrefix hFail
      (Respects.bind_after LogGrows.refl (fun va => kmallocRest_log size va) _))
  have hKeeps' : Keeps H n (mapped ++ others) s s1 := ⟨hKeeps.cr3, hKeeps.mem, hKeeps.free, hKeeps.page⟩
  rw [bind_ok hMap]
  have hNe : kmemBase + pa ≠ 0#64 := by
    intro hEq
    have hLt := hKmem1.pa_lt (b := ⟨pa, sizeToOrder size⟩) (by simp)
    have := congrArg BitVec.toNat hEq
    simp only [kmemBase, BitVec.toNat_add, BitVec.toNat_ofNat] at this hLt
    omega
  rw [if_neg hNe]
  cases hFree : s1.vmapAreaPool.freeList with
  | nil =>
      -- the pool is exhausted
      have hArea : vmapAreaAlloc (kmemBase + pa) (orderToPages (sizeToOrder size)) s1 =
          .ok none s1 := by
        simp only [vmapAreaAlloc, poolAlloc, hFree]
      rw [bind_ok hArea]
      refine ⟨pa, 0#64, s1, rfl, hKmem1, hKeeps', Or.inl rfl, ?_⟩
      intro obj rest hEq
      rw [hPool] at hFree
      exact absurd (hFree.symm.trans hEq) (by simp)
  | cons obj rest =>
      set vm : VmapArea := {
        vaStart := kmemBase + pa
        vaEnd := kmemBase + pa + orderToPages (sizeToOrder size) * pageSize
        vaNrpages := orderToPages (sizeToOrder size) }
      set s2 : Machine := { s1 with
        vmapAreaPool := { s1.vmapAreaPool with
          freeList := rest, used := s1.vmapAreaPool.used + 1#64 }
        vmapAreaList := s1.vmapAreaList ++ [(obj, vm)] } with hs2
      have hArea : vmapAreaAlloc (kmemBase + pa) (orderToPages (sizeToOrder size)) s1 =
          .ok (some vm) s2 := by
        simp only [vmapAreaAlloc, poolAlloc, hFree]
        rfl
      rw [bind_ok hArea]
      refine ⟨pa, kmemBase + pa, { s2 with mmSpinlock := false }, rfl,
        hKmem1.congr _ rfl rfl rfl, ⟨hKeeps'.cr3, hKeeps'.mem, hKeeps'.free, hKeeps'.page⟩, Or.inr rfl, ?_⟩
      intro obj' rest' hEq
      rw [hPool] at hFree
      have hSame := hFree.symm.trans hEq
      simp only [List.cons.injEq] at hSame
      exact ⟨rfl, rfl, hSame.2⟩

theorem entryFrame_kmemEntry {f : Nat} (hf : f < 2 ^ 31) : entryFrame (kmemEntry f) = f := by
  have hNat : (BitVec.ofNat 64 (f * 4096)).toNat = f * 4096 := by
    rw [BitVec.toNat_ofNat]
    omega
  rw [kmemEntry, leafEntry_of_aligned _ (by omega),
    entryFrame_entry (by omega) (by decide) (by omega), hNat]
  omega

/-- The page of a byte of a mapped block. -/
theorem KmemOk.page_of_block (h : KmemOk H n mapped others s) {b : Block} (hb : b ∈ mapped) {k : Nat}
    (hk : k < b.pages) : H (pageHead (vpn (kmemBase + b.pa) + k)) ∧
      s.page (vpn (kmemBase + b.pa) + k) = some (kmemEntry (b.frame + k)) := by
  have hIn := h.frames.inside b (List.mem_append_left _ hb)
  have hSmall := h.frames.small
  have hLt := h.pa_lt (List.mem_append_left _ hb)
  have hVpn : vpn (kmemBase + b.pa) + k = kmemPage (b.frame + k) := by
    rw [vpn_kmem (by omega)]
    simp only [kmemPage, Block.frame]
    omega
  rw [hVpn]
  exact ⟨h.head (by omega), h.present b hb _ ⟨by omega, by omega⟩⟩

/-- Stores to frames of blocks in use. -/
theorem KmemOk.wrote (h : KmemOk H n mapped others s) {D : Nat → Prop} {s' : Machine}
    (hWrote : Wrote D s s') (hD : ∀ f, D f → ∃ b ∈ mapped ++ others, b.Has f) :
    KmemOk H n mapped others s' := by
  obtain ⟨hFrames, hPage⟩ := h.frames.wrote hWrote hD
  exact h.of_page hFrames fun f hf => hPage _ (h.head hf)

/-- `kzalloc` in a run in which `alloc_pages` does not fail. -/
theorem KmemOk.kzalloc (h : KmemOk H n mapped others s) (hLock : s.mmSpinlock = false) {size : U64}
    (hSize : size ≠ 0#64) (hFits : 2 ^ (sizeToOrder size).toNat ≤ n)
    (hRoom : size.toNat ≤ 2 ^ (sizeToOrder size).toNat * 4096)
    (hFail : NoFail (finalState (kzalloc size s)).allocLog) :
    ∃ pa ptr s', Rayos.kzalloc size s = .ok ptr s' ∧
      KmemOk H n (⟨pa, sizeToOrder size⟩ :: mapped) others s' ∧ Keeps H n (mapped ++ others) s s' ∧
      ∀ obj rest, s.vmapAreaPool.freeList = obj :: rest → ptr = kmemBase + pa ∧
        s'.mmSpinlock = false ∧ s'.vmapAreaPool.freeList = rest := by
  unfold Rayos.kzalloc at hFail ⊢
  obtain ⟨pa, ptr, s1, hRun, hKmem, hKeeps, hPtr, hPool⟩ := h.kmalloc hLock hSize hFits
    (NoFail.of_isPrefix hFail
      (Respects.bind_after LogGrows.refl (fun ptr => kzallocRest_log size ptr) s))
  rw [bind_ok hRun]
  by_cases hNull : ptr = 0#64
  · rw [if_pos hNull]
    exact ⟨pa, ptr, s1, rfl, hKmem, hKeeps, hPool⟩
  · rw [if_neg hNull]
    obtain rfl : ptr = kmemBase + pa := hPtr.resolve_left hNull
    -- the new block is cleared; no other block shares a frame with it
    set b : Block := ⟨pa, sizeToOrder size⟩ with hbDef
    have hb : b ∈ b :: mapped := by simp
    have hLt := hKmem.pa_lt (List.mem_append_left _ hb)
    have hAligned := hKmem.frames.aligned b (List.mem_append_left _ hb)
    have hPages : b.pages = 2 ^ (sizeToOrder size).toNat := rfl
    have hPaEq : pa.toNat = b.pa.toNat := rfl
    have hSpan : ∀ f, Spans b.frame size.toNat f → b.Has f := by
      rintro f ⟨hLow, hHigh⟩
      exact ⟨hLow, by omega⟩
    obtain ⟨s2, hSet, hWrote, -⟩ := storeBytes_ok hKmem.frames (kmemBase + pa) b.frame
      size.toNat (fun _ => 0#8)
      (by
        refine ⟨?_, Or.inr ?_⟩ <;>
          simp only [kmemBase, BitVec.toNat_add, BitVec.toNat_ofNat] <;> omega)
      (fun k hk => (hKmem.page_of_block hb (by omega)).1)
      (fun k hk => ⟨_, (hKmem.page_of_block hb (by omega)).2, by
        have hIn := hKmem.frames.inside b (List.mem_append_left _ hb)
        have hSmall := hKmem.frames.small
        exact entryFrame_kmemEntry (by omega)⟩)
      (fun f hf => ⟨b, by simp, hSpan f hf⟩)
    have hD : ∀ f, Spans b.frame size.toNat f → ∃ c ∈ b :: mapped ++ others, c.Has f :=
      fun f hf => ⟨b, by simp, hSpan f hf⟩
    have hPage2 := (hKmem.frames.wrote hWrote hD).2
    have hMemset : memset (kmemBase + pa) 0#8 size s1 = .ok () s2 := hSet
    rw [bind_ok hMemset]
    refine ⟨pa, kmemBase + pa, s2, rfl, hKmem.wrote hWrote hD,
      hKeeps.trans ⟨hWrote.cr3, ?_, hKmem.frames.freeKept_of_wrote hWrote hD,
        fun w _ hHw _ => hPage2 w hHw⟩, ?_⟩
    · intro c hc k hk
      refine hWrote.mem k fun hf => ?_
      exact (List.pairwise_cons.mp hKmem.frames.disjoint).1 c hc k (hSpan k hf) hk
    · intro obj rest hEq
      obtain ⟨hPtr', hUnlock, hFree⟩ := hPool obj rest hEq
      exact ⟨hPtr', hWrote.lock.trans hUnlock, by rw [hWrote.pool]; exact hFree⟩

end Rayos
