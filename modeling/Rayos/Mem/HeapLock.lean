import Rayos.Mem.HeapUse

/-!
# The lock of the heap

`kmalloc` and `kfree` take `mm_spinlock` and give it back on one of their returns only: the ones for a
size of 0, for a block that cannot be found or mapped, for an exhausted pool and for an unknown pointer
leave it held.  `Served` says when a call takes none of these returns, and `heapLock_released_iff` that
a call which returns has released the lock exactly then.
-/

namespace Rayos

open RadixTable Program

variable {s : Machine}

/-! ## What does not touch the heap's own data -/

/-- The lock, the pool and the list of areas are as before. -/
def HeapKept (s s' : Machine) : Prop :=
  s'.mmSpinlock = s.mmSpinlock ∧ s'.vmapAreaPool = s.vmapAreaPool ∧ s'.vmapAreaList = s.vmapAreaList

theorem HeapKept.refl (s : Machine) : HeapKept s s := ⟨rfl, rfl, rfl⟩

theorem HeapKept.trans (s t u : Machine) (h : HeapKept s t) (h' : HeapKept t u) : HeapKept s u :=
  ⟨h'.1.trans h.1, h'.2.1.trans h.2.1, h'.2.2.trans h.2.2⟩

theorem HeapKept.mem (s : Machine) (f i : Nat) (v : U64) : HeapKept s (s.write f i v) :=
  ⟨rfl, rfl, rfl⟩

theorem HeapKept.alloc (order : U64) : Respects HeapKept (Kernel.allocPages order) := by
  intro s
  unfold Kernel.allocPages
  split <;> exact ⟨rfl, rfl, rfl⟩

theorem mapPageRange_kept (physaddr virtaddr flags len : U64) :
    Respects HeapKept (mapPageRange physaddr virtaddr flags len) :=
  mapPageRangeFrom_respects HeapKept.refl HeapKept.trans HeapKept.mem (HeapKept.alloc _) _ _ _ _ _ _

theorem unmapPageRange_kept (virtaddr len : U64) : Respects HeapKept (unmapPageRange virtaddr len) :=
  unmapPageRangeFrom_respects HeapKept.refl HeapKept.trans HeapKept.mem _ _ _

theorem kmemMap_kept (order : U64) : Respects HeapKept (kmemMap order) := by
  refine Respects.bind HeapKept.trans (HeapKept.alloc order) fun pa => ?_
  refine Respects.ite (Respects.pure HeapKept.refl _) ?_
  refine Respects.bind HeapKept.trans (mapPageRange_kept _ _ _ _) fun ret => ?_
  exact Respects.ite (Respects.pure HeapKept.refl _) (Respects.pure HeapKept.refl _)

theorem store8_kept (va : U64) (b : BitVec 8) : Respects HeapKept (store8 va b) := by
  intro s
  unfold store8
  split
  · exact HeapKept.refl s
  · exact HeapKept.mem s _ _ _

theorem memset_kept (dest : U64) (c : BitVec 8) (count : U64) :
    Respects HeapKept (memset dest c count) :=
  Respects.forUpto HeapKept.refl HeapKept.trans fun _ => store8_kept _ _

theorem memcpyVirt_kept (dest src count : U64) : Respects HeapKept (memcpyVirt dest src count) := by
  refine Respects.forUpto HeapKept.refl HeapKept.trans fun i => ?_
  refine Respects.bind HeapKept.trans (fun s => ?_) fun b => store8_kept _ _
  unfold load8
  split <;> exact HeapKept.refl s

/-! ## The calls -/

/-- A call to the heap. -/
inductive HeapCall where
  | kmalloc (size : U64)
  | kzalloc (size : U64)
  | kfree (virtaddr : U64)
  | krealloc (ptr newSize : U64)

/-- The call, without its result. -/
def heapCall : HeapCall → KernelM Unit
  | .kmalloc size => do
      let _ ← kmalloc size
      pure ()
  | .kzalloc size => do
      let _ ← kzalloc size
      pure ()
  | .kfree virtaddr => do
      let _ ← kfree virtaddr
      pure ()
  | .krealloc ptr newSize => do
      let _ ← krealloc ptr newSize
      pure ()

/-- `__kmem_map` finds a block of the order and maps it at `va`. -/
def KmemMaps (order : U64) (s : Machine) (va : U64) : Prop :=
  va ≠ 0#64 ∧ ∃ t, kmemMap order s = .ok va t

/-- What `kmalloc` needs to give out the address `va`: a size, a block, and an object in the pool. -/
def Serves (size : U64) (s : Machine) (va : U64) : Prop :=
  size ≠ 0#64 ∧ KmemMaps (sizeToOrder size) { s with mmSpinlock := true } va ∧
    s.vmapAreaPool.freeList ≠ []

/-- An area starts at the address. -/
def IsArea (s : Machine) (va : U64) : Prop := findVmapArea s.vmapAreaList va ≠ none

/-- The call meets none of the failing returns. -/
def Served (s : Machine) : HeapCall → Prop
  | .kmalloc size | .kzalloc size => ∃ va, Serves size s va
  | .kfree virtaddr => IsArea s virtaddr
  | .krealloc ptr newSize =>
      ptr = 0#64 ∨ ∃ va, Serves newSize s va ∧ (IsArea s ptr ∨ va = ptr)

theorem vmapAreaAlloc_cons {obj : U64} {rest : List U64}
    (hList : s.vmapAreaPool.freeList = obj :: rest) (start nrPages : U64) :
    ∃ vm s', vmapAreaAlloc start nrPages s = .ok (some vm) s' ∧ vm.vaStart = start ∧
      s'.vmapAreaList = s.vmapAreaList ++ [(obj, vm)] := by
  simp only [vmapAreaAlloc, poolAlloc, hList]
  exact ⟨_, _, rfl, rfl, rfl⟩

/-- `kmalloc` on a free lock, when it returns. -/
theorem kmalloc_returns {size ptr : U64} {s' : Machine} (hFree : s.mmSpinlock = false)
    (hRun : kmalloc size s = .ok ptr s') :
    Serves size s ptr ∧ s'.mmSpinlock = false ∧
        (∃ obj vm, vm.vaStart = ptr ∧ s'.vmapAreaList = s.vmapAreaList ++ [(obj, vm)]) ∨
      (¬ ∃ va, Serves size s va) ∧ ptr = 0#64 ∧ s'.mmSpinlock = true := by
  have hLock : mmSpinlockLock s = .ok () { s with mmSpinlock := true } := by
    simp [mmSpinlockLock, hFree]
  unfold kmalloc at hRun
  rw [bind_ok hLock] at hRun
  by_cases hSize : size = 0#64
  · rw [if_pos hSize] at hRun
    cases hRun
    refine Or.inr ⟨?_, rfl, rfl⟩
    rintro ⟨va, hServes⟩
    exact hServes.1 hSize
  rw [if_neg hSize] at hRun
  obtain ⟨va, s1, hMap, hRest⟩ := bind_eq_ok.mp hRun
  obtain ⟨hLock1, hPool1, hAreas1⟩ := Respects.of_ok (kmemMap_kept _) hMap
  by_cases hNull : va = 0#64
  · rw [if_pos hNull] at hRest
    cases hRest
    refine Or.inr ⟨?_, rfl, hLock1⟩
    rintro ⟨va', -, ⟨hNe, t, hMap'⟩, -⟩
    rw [hMap] at hMap'
    cases hMap'
    exact hNe hNull
  rw [if_neg hNull] at hRest
  cases hList : s.vmapAreaPool.freeList with
  | nil =>
      -- the pool is exhausted
      have hNone : vmapAreaAlloc va (orderToPages (sizeToOrder size)) s1 = .ok none s1 := by
        simp [vmapAreaAlloc, poolAlloc, hPool1, hList]
      rw [bind_ok hNone] at hRest
      cases hRest
      refine Or.inr ⟨?_, rfl, hLock1⟩
      rintro ⟨va', hServes⟩
      exact hServes.2.2 hList
  | cons obj rest =>
      obtain ⟨vm, s2, hVm, hStart, hAreas2⟩ := vmapAreaAlloc_cons (s := s1)
        (by rw [hPool1]; exact hList) va (orderToPages (sizeToOrder size))
      rw [bind_ok hVm] at hRest
      have hUnlock : mmSpinlockUnlock s2 = .ok () { s2 with mmSpinlock := false } := rfl
      simp only at hRest
      rw [bind_ok hUnlock] at hRest
      cases hRest
      refine Or.inl ⟨⟨hSize, ⟨by rw [hStart]; exact hNull, s1, by rw [hStart]; exact hMap⟩,
        by rw [hList]; simp⟩, rfl, obj, vm, rfl, ?_⟩
      exact hAreas2.trans (by rw [hAreas1])

theorem kmalloc_unlocks_iff {size ptr : U64} {s' : Machine} (hFree : s.mmSpinlock = false)
    (hRun : kmalloc size s = .ok ptr s') : s'.mmSpinlock = false ↔ ∃ va, Serves size s va := by
  rcases kmalloc_returns hFree hRun with ⟨hServes, hUnlocked, -⟩ | ⟨hNot, -, hLocked⟩
  · exact iff_of_true hUnlocked ⟨ptr, hServes⟩
  · exact iff_of_false (by simp [hLocked]) hNot

/-- `kfree` on a free lock, when it returns. -/
theorem kfree_returns {virtaddr : U64} {ret : Int} {s' : Machine} (hFree : s.mmSpinlock = false)
    (hRun : kfree virtaddr s = .ok ret s') : s'.mmSpinlock = false ↔ IsArea s virtaddr := by
  have hLock : mmSpinlockLock s = .ok () { s with mmSpinlock := true } := by
    simp [mmSpinlockLock, hFree]
  unfold kfree at hRun
  rw [bind_ok hLock, bind_ok (get_apply _)] at hRun
  unfold IsArea
  cases hFind : findVmapArea s.vmapAreaList virtaddr with
  | none =>
      simp only [hFind] at hRun
      cases hRun
      simp
  | some area =>
      simp only [hFind] at hRun
      -- the last step but one gives the lock back
      obtain ⟨_, s1, -, hRun⟩ := bind_eq_ok.mp hRun
      obtain ⟨_, s2, -, hRun⟩ := bind_eq_ok.mp hRun
      obtain ⟨_, s3, -, hRun⟩ := bind_eq_ok.mp hRun
      obtain ⟨_, s4, -, hRun⟩ := bind_eq_ok.mp hRun
      obtain ⟨_, s5, -, hRun⟩ := bind_eq_ok.mp hRun
      cases hRun
      simp

theorem kzalloc_returns {size ptr : U64} {s' : Machine} (hFree : s.mmSpinlock = false)
    (hRun : kzalloc size s = .ok ptr s') : s'.mmSpinlock = false ↔ ∃ va, Serves size s va := by
  unfold kzalloc at hRun
  obtain ⟨va, s1, hAlloc, hRest⟩ := bind_eq_ok.mp hRun
  have hLock : s'.mmSpinlock = s1.mmSpinlock := by
    split at hRest
    · cases hRest
      rfl
    · obtain ⟨_, s2, hSet, hRest⟩ := bind_eq_ok.mp hRest
      cases hRest
      exact (Respects.of_ok (memset_kept _ _ _) hSet).1
  rw [hLock]
  exact kmalloc_unlocks_iff hFree hAlloc

theorem findVmapArea_append (areas : List (U64 × VmapArea)) (obj : U64) (vm : VmapArea) (va : U64) :
    findVmapArea (areas ++ [(obj, vm)]) va ≠ none ↔
      findVmapArea areas va ≠ none ∨ vm.vaStart = va := by
  unfold findVmapArea
  rw [List.find?_append]
  cases hFind : areas.find? fun area => area.2.vaStart == va with
  | none =>
      by_cases hEq : vm.vaStart = va
      · simp [hEq]
      · simp [hEq]
  | some area => simp

theorem krealloc_returns {ptr newSize new : U64} {s' : Machine} (hFree : s.mmSpinlock = false)
    (hRun : krealloc ptr newSize s = .ok new s') :
    s'.mmSpinlock = false ↔ Served s (.krealloc ptr newSize) := by
  unfold krealloc at hRun
  simp only [Served]
  by_cases hNull : ptr = 0#64
  · rw [if_pos hNull] at hRun
    cases hRun
    simp [hFree, hNull]
  rw [if_neg hNull] at hRun
  obtain ⟨va, s1, hAlloc, hRest⟩ := bind_eq_ok.mp hRun
  rcases kmalloc_returns hFree hAlloc with ⟨hServes, hUnlocked, obj, vm, hStart, hAreas⟩ |
    ⟨hNot, rfl, hLocked⟩
  · -- the copy does not touch the list, so that `ptr` is looked up in it with the new area at its end
    rw [if_neg hServes.2.1.1] at hRest
    obtain ⟨_, s2, hCopy, hRest⟩ := bind_eq_ok.mp hRest
    obtain ⟨_, s3, hFreed, hRest⟩ := bind_eq_ok.mp hRest
    cases hRest
    obtain ⟨hLock2, -, hAreas2⟩ := Respects.of_ok (memcpyVirt_kept _ _ _) hCopy
    rw [kfree_returns (hLock2.trans hUnlocked) hFreed, IsArea, hAreas2, hAreas, findVmapArea_append]
    constructor
    · rintro (hArea | hEq)
      · exact Or.inr ⟨new, hServes, Or.inl hArea⟩
      · exact Or.inr ⟨new, hServes, Or.inr (hStart.symm.trans hEq)⟩
    · rintro (hZero | ⟨va', hServes', hArea | rfl⟩)
      · exact absurd hZero hNull
      · exact Or.inl hArea
      · -- `__kmem_map` gives one address only
        obtain ⟨-, t, hMap⟩ := hServes.2.1
        obtain ⟨-, t', hMap'⟩ := hServes'.2.1
        rw [hMap] at hMap'
        cases hMap'
        exact Or.inr hStart
  · rw [if_pos rfl] at hRest
    cases hRest
    rw [hLocked]
    constructor
    · intro h
      cases h
    · rintro (hZero | ⟨va', hServes', -⟩)
      · exact absurd hZero hNull
      · exact absurd ⟨va', hServes'⟩ hNot

/-- A call that returns has released the lock exactly when it was served. -/
theorem heapCall_returns {call : HeapCall} {s' : Machine} (hFree : s.mmSpinlock = false)
    (hRun : heapCall call s = .ok () s') : s'.mmSpinlock = false ↔ Served s call := by
  cases call with
  | kmalloc size =>
      obtain ⟨va, s1, hAlloc, hRest⟩ := bind_eq_ok.mp hRun
      cases hRest
      exact kmalloc_unlocks_iff hFree hAlloc
  | kzalloc size =>
      obtain ⟨va, s1, hAlloc, hRest⟩ := bind_eq_ok.mp hRun
      cases hRest
      exact kzalloc_returns hFree hAlloc
  | kfree virtaddr =>
      obtain ⟨ret, s1, hFreed, hRest⟩ := bind_eq_ok.mp hRun
      cases hRest
      exact kfree_returns hFree hFreed
  | krealloc ptr newSize =>
      obtain ⟨new, s1, hRealloc, hRest⟩ := bind_eq_ok.mp hRun
      cases hRest
      exact krealloc_returns hFree hRealloc

/-! ## Runs -/

/-- A call that takes the lock: any but `krealloc` of a null pointer. -/
def HeapCall.Locks : HeapCall → Prop
  | .krealloc ptr _ => ptr ≠ 0#64
  | _ => True

/-- With the lock held, the call spins for ever. -/
theorem heapCall_hang {call : HeapCall} (hLocks : call.Locks) (hHeld : s.mmSpinlock = true) :
    heapCall call s = .error .hang s := by
  have hLock : mmSpinlockLock s = .error .hang s := by simp [mmSpinlockLock, hHeld]
  have hAlloc : ∀ size, kmalloc size s = .error .hang s := fun size => bind_error hLock
  cases call with
  | kmalloc size => exact bind_error (hAlloc size)
  | kzalloc size => exact bind_error (bind_error (hAlloc size))
  | kfree virtaddr => exact bind_error (bind_error hLock)
  | krealloc ptr newSize =>
      apply bind_error
      unfold krealloc
      rw [if_neg hLocks]
      exact bind_error (hAlloc newSize)

/-- A call that is served and returns. -/
def ServedNext (s s' : Machine) : Prop := ∃ call, Served s call ∧ heapCall call s = .ok () s'

theorem unlocked_of_servedRun {s' : Machine} (hFree : s.mmSpinlock = false)
    (hRun : Relation.ReflTransGen ServedNext s s') : s'.mmSpinlock = false := by
  induction hRun with
  | refl => exact hFree
  | tail _ hNext ih =>
      obtain ⟨call, hServed, hCall⟩ := hNext
      exact (heapCall_returns ih hCall).mpr hServed

/-! ## What it takes to find a block -/

/-- Where bitmap, tables and region agree and frames for tables are not short, `__kmem_map` succeeds
exactly when the bitmap has a run of free frames of the order. -/
theorem kmemMaps_iff {H : Nat → Prop} {n : Nat} {mapped others : List Block}
    (h : KmemOk H n mapped others s) {order : U64} (hFits : 2 ^ order.toNat ≤ n)
    (hTables : ∀ pa s1, Kernel.allocPages order s = .ok pa s1 → ¬ pa.toInt < 0 →
      NoFail (finalState
        (mapPageRange pa (kmemBase + pa) mapKernRw (orderToPages order) s1)).allocLog) :
    (∃ va, KmemMaps order s va) ↔
      ∃ k, k + 2 ^ order.toNat ≤ n ∧ RangeFree s.pageAllocBitmap k (2 ^ order.toNat) := by
  have hSize := h.frames.size
  have hSmall := h.frames.small
  have hPos : 0 < 2 ^ order.toNat := Nat.pow_pos (by decide)
  obtain ⟨pa, s1, hAlloc, -⟩ := h.frames.alloc_run hFits
  rcases allocPages_cases s.pageAllocBitmap (by omega) order (by omega) with
    ⟨p, pa', bmp, hEq, hPa, hEnd, hRun, -⟩ | ⟨hNone, hEq⟩
  · refine iff_of_true ?_ ⟨p, by omega, hRun⟩
    have hOk : ¬ pa.toInt < 0 := by
      simp only [Kernel.allocPages, hEq] at hAlloc
      cases hAlloc
      rw [BitVec.toInt_eq_toNat_cond, hPa, if_pos (by omega)]
      omega
    have hFail : NoFail (finalState (kmemMap order s)).allocLog := by
      have hMap := hTables pa s1 hAlloc hOk
      unfold kmemMap
      rw [bind_ok hAlloc, if_neg hOk]
      cases hRet : mapPageRange pa (kmemBase + pa) mapKernRw (orderToPages order) s1 with
      | ok ret t =>
          rw [hRet] at hMap
          rw [bind_ok hRet]
          split <;> exact hMap
      | error e t =>
          rw [hRet] at hMap
          rw [bind_error hRet]
          exact hMap
    obtain ⟨pa2, s2, hMap, hKmem, -⟩ := h.kmemMap hFits hFail
    have hLt := hKmem.pa_lt (b := ⟨pa2, order⟩) (by simp)
    refine ⟨kmemBase + pa2, fun hZero => ?_, s2, hMap⟩
    have hNat := congrArg BitVec.toNat hZero
    simp only [kmemBase, BitVec.toNat_add, BitVec.toNat_ofNat] at hNat hLt
    omega
  · refine iff_of_false ?_ ?_
    · rintro ⟨va, hNe, t, hMap⟩
      have hNull : kmemMap order s = .ok 0#64 s1 := by
        simp only [Kernel.allocPages, hEq] at hAlloc
        cases hAlloc
        unfold kmemMap
        rw [bind_ok (show Kernel.allocPages order s = .ok (sizeOfInt (-1)) _ by
          simp only [Kernel.allocPages, hEq]; rfl), if_pos (by decide)]
        rfl
      rw [hNull] at hMap
      cases hMap
      exact hNe rfl
    · rintro ⟨k, hk, hFreeRun⟩
      exact hNone k (by omega) hFreeRun

/-- **When the heap gives its lock back.**  A call that finds the lock free and returns has released it
exactly when it is served: `kmalloc` and `kzalloc` need a size, a block and an object of the pool,
`kfree` an area that starts at the pointer, `krealloc` of a pointer both.  So the lock is free after
every run of served calls, and after one that is not served the next call that takes the lock never
returns.  Where the tables of the heap are in order, a block is to be had exactly when the bitmap has a
run of free frames for it. -/
theorem heapLock_released_iff (s : Machine) (hFree : s.mmSpinlock = false) :
    (∀ call s', heapCall call s = .ok () s' → (s'.mmSpinlock = false ↔ Served s call)) ∧
    (∀ s', Relation.ReflTransGen ServedNext s s' → s'.mmSpinlock = false) ∧
    (∀ call s', heapCall call s = .ok () s' → ¬ Served s call →
      ∀ later : HeapCall, later.Locks → heapCall later s' = .error .hang s') ∧
    ∀ (H : Nat → Prop) (n : Nat) (mapped others : List Block) (order : U64),
      KmemOk H n mapped others { s with mmSpinlock := true } → 2 ^ order.toNat ≤ n →
      (∀ pa s1, Kernel.allocPages order { s with mmSpinlock := true } = .ok pa s1 →
        ¬ pa.toInt < 0 → NoFail (finalState
          (mapPageRange pa (kmemBase + pa) mapKernRw (orderToPages order) s1)).allocLog) →
      ((∃ va, KmemMaps order { s with mmSpinlock := true } va) ↔
        ∃ k, k + 2 ^ order.toNat ≤ n ∧ RangeFree s.pageAllocBitmap k (2 ^ order.toNat)) := by
  refine ⟨fun call s' hRun => heapCall_returns hFree hRun,
    fun s' hRun => unlocked_of_servedRun hFree hRun, ?_,
    fun H n mapped others order h hFits hTables => kmemMaps_iff h hFits hTables⟩
  intro call s' hRun hNot later hLocks
  have hHeld : s'.mmSpinlock = true := by
    by_contra hUnlocked
    exact hNot ((heapCall_returns hFree hRun).mp (by simpa using hUnlocked))
  exact heapCall_hang hLocks hHeld

/-- A call of `kfree` with a null pointer on the machine of the paging tests. -/
theorem heapLock_released_iff_chain :
    chainMachine.mmSpinlock = false ∧ ∃ s', heapCall (.kfree 0#64) chainMachine = .ok () s' ∧
      (s'.mmSpinlock = false ↔ Served chainMachine (.kfree 0#64)) :=
  ⟨rfl, _, rfl, (heapLock_released_iff chainMachine rfl).1 (.kfree 0#64) _ rfl⟩

/-- `kmalloc(0)` returns with the lock held, and the next `kmalloc` spins. -/
theorem kmalloc_zero_keeps_lock :
    ∃ s', heapCall (.kmalloc 0#64) chainMachine = .ok () s' ∧ s'.mmSpinlock = true ∧
      heapCall (.kmalloc 8#64) s' = .error .hang s' :=
  ⟨_, rfl, rfl, heapCall_hang trivial rfl⟩

end Rayos
