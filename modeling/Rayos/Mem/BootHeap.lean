import Rayos.Mem.BootMemory
import Rayos.Mem.HeapFailure

/-!
# The heap after boot (`start_kernel`)

`page_init` and `mm_init` are run on the page tables of `head.S`, and then `kmalloc` is called.  The other files say what
is true of the heap when these calls return; here it is shown that they do.

* `mmInit_served` — `mm_init` finds frames for its pool and the tables;
* `kmallocs_served` — requests that fit the free frames and the pool are all served;
* `bootHeap_served` — both, from `head.S` on.
-/

namespace Rayos

open RadixTable Program

/-- The requests of a list, one after the other, with what `kmalloc` returns. -/
def kmallocs : List U64 → KernelM (List U64)
  | [] => pure []
  | size :: sizes => do
      let ptr ← kmalloc size
      let ptrs ← kmallocs sizes
      pure (ptr :: ptrs)

/-- The frames that a request takes at most: its block, and three tables for each of the pages. -/
def requestCost (size : U64) : Nat := 4 * 2 ^ (sizeToOrder size).toNat

/-- The areas are those of the requests, and what was returned are their addresses. -/
def AreasServe (areas : List (U64 × VmapArea)) (sizes ptrs : List U64) : Prop :=
  areas.map (fun area => area.2.vaStart) = ptrs ∧
    areas.map (fun area => area.2.vaNrpages) = sizes.map fun size => orderToPages (sizeToOrder size)

variable {n a : Nat}

/-! ## `mm_init` -/

/-- `mm_init` returns, and the heap is as its runs start. -/
theorem mmInit_served {H : Nat → Prop} {s : Machine} (hKmem : KmemOk H n [] [] s) (hRoom : Room n a s)
    (hFits : a + 128 ≤ n) (hLog : s.allocLog = []) : ∃ m pool, HeapInit s ⟨m, pool, []⟩ ∧ Room n (a + 128) m ∧
      m.vmapAreaPool.freeList.length = 3276 ∧ m.vmapAreaList = s.vmapAreaList := by
  have hOrder : (pagesToOrder vmapAreaPoolNrPages).toNat = 5 := by decide
  have hLen : vmapAreaPoolNrPages = orderToPages (pagesToOrder vmapAreaPoolNrPages) := by decide
  have hBlock : 2 ^ (pagesToOrder vmapAreaPoolNrPages).toNat ≤ n := by
    rw [hOrder]
    omega
  obtain ⟨pa, s1, hAlloc, hLog1⟩ := hKmem.frames.alloc_run hBlock
  have hRoom1 := Costs.allocPages (n := n) (pagesToOrder vmapAreaPoolNrPages) s a hRoom (by rw [hOrder]; omega)
  rw [hAlloc, finalState_ok, hOrder] at hRoom1
  have hPa : ¬ pa.toInt < 0 := hRoom1.noFail ⟨pa, pagesToOrder vmapAreaPoolNrPages⟩ (by simp [hLog1])
  obtain ⟨hKmem1, -, hAreas1, -⟩ := hKmem.alloc hBlock hAlloc hPa
  have hPages : (orderToPages (pagesToOrder vmapAreaPoolNrPages)).toNat = 32 := by decide
  have hRoom2 := Costs.mapPageRange (n := n) pa (kmemBase + pa) mapKernRw
    (orderToPages (pagesToOrder vmapAreaPoolNrPages)) s1 _ hRoom1 (by rw [hPages]; omega)
  obtain ⟨s2, hMap, -, hGrown, -⟩ := hKmem1.map hRoom2.noFail
  simp only at hMap
  rw [hMap, finalState_ok, hPages] at hRoom2
  have hRun : mmInit s = .ok () { s2 with
      vmapAreaPool := poolInit (pa + kmemBase) vmapAreaPoolNrPages sizeofVmapArea
      mmSpinlock := false } := by
    rw [BitVec.add_comm kmemBase pa, ← hLen] at hMap
    unfold mmInit
    rw [bind_ok hAlloc]
    exact bind_ok hMap
  refine ⟨_, ⟨pa, pagesToOrder vmapAreaPoolNrPages⟩, ⟨hRun, hRoom2.noFail, ?_, rfl⟩,
    ⟨hRoom2.size, hRoom2.small, hRoom2.free, hRoom2.noFail⟩, ?_, hGrown.areas.trans hAreas1⟩
  · -- the pool is the first block of the history
    obtain ⟨new, hNew, -⟩ := hGrown.log
    simp only [hNew, hLog1, hLog]
    rfl
  · simp only [poolInit, List.length_map, List.length_range]
    decide

/-! ## `kmalloc` -/

/-- A request that fits is served. -/
theorem kmalloc_served {s : HeapState} {size obj : U64} {rest : List U64} (hInv : HeapInv n s) (hSize : size ≠ 0#64)
    (hPool : s.machine.vmapAreaPool.freeList = obj :: rest) (hRoom : Room n a s.machine)
    (hFits : a + requestCost size ≤ n) :
    ∃ ptr m, kmalloc size s.machine = .ok ptr m ∧ HeapNext n s { s with machine := m } ∧
      Room n (a + requestCost size) m ∧ m.vmapAreaPool.freeList = rest ∧
      ∃ area, m.vmapAreaList = s.machine.vmapAreaList ++ [area] ∧ area.2.vaStart = ptr ∧
        area.2.vaNrpages = orderToPages (sizeToOrder size) := by
  unfold requestCost at *
  have hSmall := hRoom.small
  have hOrder : (sizeToOrder size).toNat < 31 := order_lt_of_pow_le (n := n) (by omega) hSmall
  have hBlock : 2 ^ (sizeToOrder size).toNat ≤ n := by omega
  have hCost : 2 ^ (sizeToOrder size).toNat + 3 * (orderToPages (sizeToOrder size)).toNat =
      4 * 2 ^ (sizeToOrder size).toNat := by
    rw [orderToPages_toNat (by omega)]
    omega
  have hRoom1 := Costs.kmalloc (n := n) size s.machine a hRoom (by omega)
  rw [hCost] at hRoom1
  obtain ⟨pa, ptr, m, hRun, hKmem, -, -, hServed⟩ := hInv.kmem.kmalloc hInv.unlocked hSize hBlock hRoom1.noFail
  rw [hRun, finalState_ok] at hRoom1
  obtain ⟨rfl, -, hRest⟩ := hServed obj rest hPool
  have hLt := hKmem.pa_lt (b := ⟨pa, sizeToOrder size⟩) (by simp)
  have hNe : kmemBase + pa ≠ 0#64 := kmemBase_add_ne_zero (by simp only at hLt; omega)
  obtain ⟨-, b, obj', hOrderB, hPtr, -, hAreas⟩ := kmalloc_ok hInv hSize hBlock hRun hNe hRoom1.noFail
  refine ⟨_, m, hRun, .kmalloc hSize hBlock hRun hNe hRoom1.noFail, hRoom1, hRest, (obj', areaOf b), hAreas, hPtr.symm, ?_⟩
  rw [areaOf, hOrderB]

/-- Requests that fit the free frames, and are no more than the pool has objects, are all served. -/
theorem kmallocs_served {boot : Machine} (sizes : List U64) (s : HeapState) (hReach : HeapReachable n boot s)
    (hInv : HeapInv n s) (hSizes : ∀ size ∈ sizes, size ≠ 0#64)
    (hPool : sizes.length ≤ s.machine.vmapAreaPool.freeList.length) (hRoom : Room n a s.machine)
    (hFits : a + (sizes.map requestCost).sum ≤ n) :
    ∃ ptrs m areas, kmallocs sizes s.machine = .ok ptrs m ∧ HeapReachable n boot { s with machine := m } ∧
      m.vmapAreaList = s.machine.vmapAreaList ++ areas ∧ AreasServe areas sizes ptrs := by
  induction sizes generalizing s a with
  | nil => exact ⟨[], s.machine, [], rfl, hReach, (List.append_nil _).symm, rfl, rfl⟩
  | cons size sizes ih =>
      simp only [List.map_cons, List.sum_cons] at hFits
      obtain ⟨obj, rest, hFree⟩ : ∃ obj rest, s.machine.vmapAreaPool.freeList = obj :: rest :=
        List.exists_cons_of_length_pos (Nat.lt_of_lt_of_le (Nat.succ_pos _) hPool)
      obtain ⟨ptr, m, hRun, hNext, hRoom1, hRest, area, hAreas, hStart, hPages⟩ :=
        kmalloc_served hInv (hSizes size List.mem_cons_self) hFree hRoom (by omega)
      rw [hFree, List.length_cons, List.length_cons] at hPool
      obtain ⟨s0, hInit, hSteps⟩ := hReach
      obtain ⟨ptrs, m', areas, hRun', hReach', hAreas', hServe⟩ := ih { s with machine := m } ⟨s0, hInit, hSteps.tail hNext⟩
        (heapInv_step hInv hNext) (fun size' hIn => hSizes size' (List.mem_cons_of_mem _ hIn))
        (by simp only [hRest]; omega) hRoom1 (by omega)
      refine ⟨ptr :: ptrs, m', area :: areas, ?_, hReach', ?_, ?_, ?_⟩
      · rw [kmallocs, bind_ok hRun, bind_ok hRun']
        rfl
      · rw [hAreas']
        simp only [hAreas, List.append_assoc, List.singleton_append]
      · rw [List.map_cons, hStart, hServe.1]
      · rw [List.map_cons, List.map_cons, hPages, hServe.2]

/-! ## From `head.S` on -/

/-- **The boot of the memory subsystem succeeds, and the heap serves what fits.**  On the page tables of `head.S`, with
128 frames behind the reserved ones for `mm_init`, `page_init` and `mm_init` return.  After that any requests to `kmalloc`,
at most 3276 of them, whose blocks and tables fit the other free frames, are served: each gets an area of its pages, no
other area is there, and the state is reachable, so that what holds in the runs of the heap holds of it. -/
theorem bootHeap_served {image : KernelImage} {totalMem : U64} {s : Machine} {p : Nat} {mem : Memory} {sizes : List U64}
    (hTables : ∀ f, p ≤ f → f < p + 67 → s.mem f = headTables (BitVec.ofNat 32 (4096 * p)) mem f)
    (hCr3 : s.cr3 = BitVec.ofNat 64 (4096 * p))
    (hImage : (p + 67) * 4096 ≤ image.kernelPhysEndAligned.toNat)
    (hFits : image.kernelPhysEndAligned.toNat + (bitmapDataBytes (pageInitBits totalMem)).toNat ≤ 0x8000000)
    (hLog : s.allocLog = []) (hAreas : s.vmapAreaList = [])
    (hRoom : (pageInitUsed image totalMem).toNat + 128 + (sizes.map requestCost).sum ≤ (pageInitBits totalMem).toNat)
    (hCount : sizes.length ≤ 3276) (hSizes : ∀ size ∈ sizes, size ≠ 0#64) :
    ∃ s' m ptrs m' pool, pageInit image totalMem s = .ok () s' ∧ mmInit s' = .ok () m ∧
      kmallocs sizes m = .ok ptrs m' ∧ HeapReachable (pageInitBits totalMem).toNat s' ⟨m', pool, []⟩ ∧
      AreasServe m'.vmapAreaList sizes ptrs := by
  obtain ⟨hSmall, -, hUsed, -⟩ := pageInitUsed_small image hFits
  obtain ⟨s', hInitRun, hBoot, hKmem, -⟩ := pageInit_run hTables hCr3 hImage (by omega) hFits hLog hAreas
  have hFree : Room (pageInitBits totalMem).toNat (pageInitUsed image totalMem).toNat s' := by
    refine ⟨by rw [hBoot.bitmap, pageInitBitmap_size], hSmall, fun k hk _ => ?_, by simp [NoFail, hBoot.log]⟩
    rw [hBoot.bitmap, pageInitBitmap_bit, decide_eq_false_iff_not, reservedFrames]
    omega
  obtain ⟨m, pool, hInit, hRoomM, hLength, hAreasM⟩ := mmInit_served hKmem hFree (by omega) hBoot.log
  have hReach : HeapReachable (pageInitBits totalMem).toNat s' ⟨m, pool, []⟩ := ⟨_, hInit, .refl⟩
  obtain ⟨ptrs, m', areas, hRun, hReach', hNew, hServe⟩ := kmallocs_served sizes ⟨m, pool, []⟩ hReach
    (heapInv_of_reachable hBoot hReach) hSizes (by simp only [hLength]; exact hCount) hRoomM (by omega)
  refine ⟨s', m, ptrs, m', pool, hInitRun, hInit.1, hRun, hReach', ?_⟩
  rw [hNew]
  simp only [hAreasM, hBoot.areas, List.nil_append]
  exact hServe

/-- 64 megabytes, and two requests. -/
theorem bootHeap_served_64 : ∃ s' m ptrs m' pool, pageInit bootImage 0x3fff000#64 headMachine = .ok () s' ∧
    mmInit s' = .ok () m ∧ kmallocs [1#64, 0x1800#64] m = .ok ptrs m' ∧
      HeapReachable (pageInitBits 0x3fff000#64).toNat s' ⟨m', pool, []⟩ ∧
        AreasServe m'.vmapAreaList [1#64, 0x1800#64] ptrs := by
  have hMem : headMachine.mem = headTables (BitVec.ofNat 32 (4096 * 0x101)) fun _ _ => 0#64 := by
    simp only [headMachine]
  exact @bootHeap_served bootImage 0x3fff000#64 headMachine 0x101 (fun _ _ => 0#64) [1#64, 0x1800#64]
    (fun f _ _ => congrFun hMem f) rfl (by decide) (by decide) rfl rfl (by decide) (by decide) (by simp)

end Rayos
