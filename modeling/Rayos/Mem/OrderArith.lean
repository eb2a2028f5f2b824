import Rayos.Mem.HeapLimits
import Mathlib.Order.Bounds.Basic

/-!
# Orders of sizes

`kmalloc` rounds a size up to a block of a power of two pages and keeps the number of the pages; `kfree` computes
the order of the block from that number.

* `sizeToOrder_isLeast` — the order of a size is that of the smallest block that holds it;
* `sizeToOrder_blockBytes` — and it is the order of the block itself for the size of a block;
* `order_exact` — so `kfree` gives back the block that `kmalloc` has taken.
-/

namespace Rayos

open Program

/-- The bytes of a block, `order_to_pages(order) * PAGE_SIZE`. -/
def blockBytes (order : U64) : U64 := orderToPages order * pageSize

theorem blockBytes_toNat {order : U64} (h : order.toNat ≤ 51) :
    (blockBytes order).toNat = 2 ^ order.toNat * 4096 := by
  have hPow : 2 ^ order.toNat ≤ 2 ^ 51 := Nat.pow_le_pow_right (by decide) h
  rw [blockBytes, BitVec.toNat_mul, orderToPages_toNat (by omega), pageSize, BitVec.toNat_ofNat]
  omega

theorem sizeToOrder_blockBytes {order : U64} (h : order.toNat ≤ 51) :
    sizeToOrder (blockBytes order) = order :=
  sizeToOrder_orderToPages h

section Size

variable {size : U64}

/-- `2 ^ 63` bytes are `2 ^ 51` pages. -/
theorem sizeToOrder_le (hPos : 1 ≤ size.toNat) (hLe : size.toNat ≤ 2 ^ 63) : (sizeToOrder size).toNat ≤ 51 := by
  have hNe : size ≠ 0#64 := by
    rintro rfl
    simp at hPos
  rw [sizeToOrder_of_le hNe (by omega), Nat.size_le]
  have hPages : pagesFor size ≤ 2 ^ 51 := pagesFor_le (by omega)
  omega

theorem sizeToOrder_isLeast (hPos : 1 ≤ size.toNat) (hLe : size.toNat ≤ 2 ^ 63) :
    IsLeast {o : Nat | size.toNat ≤ (blockBytes (BitVec.ofNat 64 o)).toNat} (sizeToOrder size).toNat := by
  have hNe : size ≠ 0#64 := by
    rintro rfl
    simp at hPos
  have hOrder := sizeToOrder_le hPos hLe
  constructor
  · show size.toNat ≤ (blockBytes (BitVec.ofNat 64 (sizeToOrder size).toNat)).toNat
    have hPages := pagesFor_le_pow hNe (by omega)
    have hBytes := le_pagesFor size
    rw [BitVec.ofNat_toNat, BitVec.setWidth_eq, blockBytes_toNat hOrder]
    calc size.toNat ≤ pagesFor size * 4096 := hBytes
      _ ≤ 2 ^ (sizeToOrder size).toNat * 4096 := Nat.mul_le_mul_right 4096 hPages
  · intro o (hHolds : size.toNat ≤ (blockBytes (BitVec.ofNat 64 o)).toNat)
    by_contra hLess
    -- the pages of a smaller block are fewer than those of the size
    have hSmall : (BitVec.ofNat 64 o).toNat = o := by
      rw [BitVec.toNat_ofNat]
      omega
    rw [blockBytes_toNat (by omega), hSmall] at hHolds
    have hPages := pagesFor_le hHolds
    have hPow : 0 < 2 ^ o := Nat.pow_pos (by decide)
    have hSize : Nat.size (pagesFor size - 1) ≤ o := Nat.size_le.mpr (by omega)
    rw [sizeToOrder_of_le hNe (by omega)] at hLess
    omega

end Size

/-! ## The block of an allocation -/

/-- `kmalloc` has taken the block `b` from `alloc_pages` and recorded its area. -/
def TookBlock (s m : Machine) (ptr : U64) (b : Block) : Prop :=
  ∃ obj bmp, allocPages s.pageAllocBitmap b.order = some (b.pa, bmp) ∧ ptr = kmemBase + b.pa ∧
    s.allocLog ++ [b] <+: m.allocLog ∧ m.vmapAreaList = s.vmapAreaList ++ [(obj, areaOf b)]

/-- `kfree` has given back a block of the order `order` at the frame to which `ptr` was mapped. -/
def GaveBlock (s m : Machine) (ptr order : U64) : Prop :=
  ∃ pa s1 s2 s3 nr, getPhysaddr ptr { s with
      mmSpinlock := true
      vmapAreaList := s.vmapAreaList.eraseP fun area => area.2.vaStart == ptr } = .ok pa s1 ∧
    Kernel.freePages pa order s1 = .ok () s2 ∧
    unmapPageRange ptr (orderToPages order) s2 = .ok nr s3 ∧ m.pageAllocBitmap = s3.pageAllocBitmap

/-- Both take the lock first. -/
theorem unlocked_of_lock {α : Type} {x : Unit → KernelM α} {s m : Machine} {a : α}
    (hRun : (mmSpinlockLock >>= x) s = .ok a m) : s.mmSpinlock = false := by
  by_contra hHeld
  have hLock : ∃ e, mmSpinlockLock s = .error e s := ⟨.hang, by simp [mmSpinlockLock, hHeld]⟩
  obtain ⟨e, hLock⟩ := hLock
  rw [bind_error hLock] at hRun
  cases hRun

theorem kmalloc_tookBlock {s m : Machine} {size ptr : U64} (hRun : kmalloc size s = .ok ptr m) (hOk : ptr ≠ 0#64) :
    ∃ b : Block, b.order = sizeToOrder size ∧ TookBlock s m ptr b := by
  cases kmalloc_run (unlocked_of_lock hRun) hRun with
  | zero => exact absurd rfl hOk
  | noFrames => exact absurd rfl hOk
  | notMapped => exact absurd rfl hOk
  | noArea => exact absurd rfl hOk
  | ok pa obj bmp ret t rest hSize hAlloc hPa hMap hPool =>
      have hKept := Respects.of_ok (mapPageRange_kept _ _ _ _) hMap
      have hLog := Respects.of_ok (mapPageRange_log _ _ _ _) hMap
      refine ⟨⟨pa, sizeToOrder size⟩, rfl, obj, bmp, hAlloc, rfl, hLog, ?_⟩
      exact congrArg (· ++ _) hKept.2.2

theorem kfree_gaveBlock {s m : Machine} {ptr obj : U64} {ret : Int} {b : Block} (hRun : kfree ptr s = .ok ret m)
    (hFind : findVmapArea s.vmapAreaList ptr = some (obj, areaOf b)) (hOrder : b.order.toNat ≤ 51) :
    GaveBlock s m ptr b.order := by
  have hFree := unlocked_of_lock hRun
  have hLock : mmSpinlockLock s = .ok () { s with mmSpinlock := true } := by
    simp [mmSpinlockLock, hFree]
  have hBack : sizeToOrder ((areaOf b).vaNrpages * pageSize) = b.order := sizeToOrder_blockBytes hOrder
  unfold kfree at hRun
  rw [bind_ok hLock, bind_ok (get_apply _)] at hRun
  simp only [hFind, hBack] at hRun
  obtain ⟨_, s1, hDel, hRun⟩ := bind_eq_ok.mp hRun
  cases hDel
  obtain ⟨pa, s2, hPhys, hRun⟩ := bind_eq_ok.mp hRun
  obtain ⟨_, s3, hGive, hRun⟩ := bind_eq_ok.mp hRun
  obtain ⟨nr, s4, hUnmap, hRun⟩ := bind_eq_ok.mp hRun
  obtain ⟨_, s5, hArea, hRun⟩ := bind_eq_ok.mp hRun
  cases hArea
  cases hRun
  exact ⟨pa, s2, s3, s4, nr, hPhys, hGive, hUnmap, rfl⟩

/-- **The order arithmetic of the heap.**

1. The order of a size is the least one whose block holds the size, and
2. the order of the size of a block is that of the block.
3. The block that `kmalloc` takes has the order of the size, and whenever `kfree` finds the area of the block, it
   gives back a block of that order.
4. In the states that runs reach, `kfree` of a live pointer clears exactly the bits of a block that `alloc_pages`
   has returned, the one of which the area on the list was made. -/
theorem order_exact (image : KernelImage) (totalMem : U64) (boot : Machine)
    (hBoot : KernelBoot image totalMem boot) :
    (∀ size : U64, 1 ≤ size.toNat → size.toNat ≤ 2 ^ 63 →
      IsLeast {o : Nat | size.toNat ≤ (blockBytes (BitVec.ofNat 64 o)).toNat} (sizeToOrder size).toNat) ∧
    (∀ order : U64, order.toNat ≤ 51 → sizeToOrder (blockBytes order) = order) ∧
    (∀ (s m : Machine) (size ptr : U64), 1 ≤ size.toNat → size.toNat ≤ 2 ^ 63 →
      kmalloc size s = .ok ptr m → ptr ≠ 0#64 →
      ∃ b : Block, b.order = sizeToOrder size ∧ TookBlock s m ptr b ∧ areaBlock (areaOf b) = b ∧
        ∀ (t t' : Machine) (obj : U64) (ret : Int),
          findVmapArea t.vmapAreaList ptr = some (obj, areaOf b) → kfree ptr t = .ok ret t' →
          GaveBlock t t' ptr b.order) ∧
    (∀ s : HeapState, HeapReachable (pageInitBits totalMem).toNat boot s →
      ∀ area ∈ s.machine.vmapAreaList, ∃ b ∈ s.machine.allocLog, area.2 = areaOf b ∧
        ∃ m, kfree area.2.vaStart s.machine = .ok 0 m ∧
          ∀ k, m.pageAllocBitmap.bit k = true ↔ s.machine.pageAllocBitmap.bit k = true ∧ ¬ b.Has k) := by
  refine ⟨fun size hPos hLe => sizeToOrder_isLeast hPos hLe, fun order hOrder => sizeToOrder_blockBytes hOrder,
    ?_, ?_⟩
  · intro s m size ptr hPos hLe hRun hOk
    obtain ⟨b, hOrder, hTook⟩ := kmalloc_tookBlock hRun hOk
    have hSmall : b.order.toNat ≤ 51 := by
      rw [hOrder]
      exact sizeToOrder_le hPos hLe
    refine ⟨b, hOrder, hTook, areaBlock_areaOf hSmall, ?_⟩
    intro t t' obj ret hFind hFreeRun
    exact kfree_gaveBlock hFreeRun hFind hSmall
  · intro s hReach area hLive
    have hInv := heapInv_of_reachable hBoot hReach
    obtain ⟨hLog, hArea⟩ := hInv.areas area hLive
    obtain ⟨m, hRun, -, hBits, -⟩ := kfree_ok hInv hLive
    exact ⟨areaBlock area.2, hLog, hArea, m, hRun, hBits⟩

/-- One byte more than a block of two pages holds needs a block of four, on the small machine as on any other;
and the area of 6144 bytes there is given back as the block of two pages at frame 40. -/
theorem order_exact_chain :
    IsLeast {o : Nat | (0x2001#64).toNat ≤ (blockBytes (BitVec.ofNat 64 o)).toNat} 2 ∧
      sizeToOrder (blockBytes 51#64) = 51#64 ∧
      ∃ s m, kmalloc 0x1800#64 s = .ok 0xffff900000028000#64 m ∧
        ∃ b : Block, b.order = 1#64 ∧ TookBlock s m 0xffff900000028000#64 b := by
  obtain ⟨hLeast, hBack, hTook, -⟩ := order_exact chainImage 0x3f000#64 chainMachine chainMachine_boot
  obtain ⟨s, -, -, hMachine⟩ := chainHeap
  obtain ⟨-, hValue, -⟩ := chainHeap_runs
  rw [← hMachine] at hValue
  have hRun := eq_ok_of_value hValue.1
  have hOrder : (sizeToOrder 0x2001#64).toNat = 2 := by decide
  have hSize : sizeToOrder 0x1800#64 = 1#64 := by decide
  refine ⟨?_, hBack 51#64 (by decide), s.machine, _, hRun, ?_⟩
  · have hHolds := hLeast 0x2001#64 (by decide) (by decide)
    rw [hOrder] at hHolds
    exact hHolds
  · obtain ⟨b, hIs, hBlock, -⟩ := hTook _ _ 0x1800#64 _ (by decide) (by decide) hRun (by decide)
    exact ⟨b, hIs.trans hSize, hBlock⟩

end Rayos
