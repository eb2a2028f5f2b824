import Rayos.Mem.HeapLock
import Rayos.Mem.Room

/-!
# `kmalloc` at its limits

What `kmalloc` does when it is asked for more than there is.  A request that is larger than the bitmap
makes the bound of the scan in `bitmap_alloc_range` wrap, and positions behind the last bit count as clear:
the scan ends at the first position from which on all frames are clear, and at the end of the bitmap at the
latest.  Sizes within 4095 bytes of `2 ^ 64` wrap in `size_to_order` and get one page.

* `allocPages_oversize` — the block that such a request gets.
* `kmalloc_mapped` — what is mapped when `kmalloc` returns an address.
* `Enough` — what callers rely on when `kmalloc` succeeds.
-/

namespace Rayos

open RadixTable Program

/-! ## Blocks larger than memory -/

section Oversize

variable (bmp : Bitmap)

/-- The frames from `k` on are clear. -/
def TailFree (k : Nat) : Prop := ∀ j, k ≤ j → j < bmp.size.toNat → bmp.bit j = false

/-- Bits behind the end count as clear. -/
theorem rangeFree_iff_tailFree {i count : Nat} (hOver : bmp.size.toNat ≤ i + count) :
    RangeFree bmp i count ↔ TailFree bmp i := by
  constructor
  · intro hFree j hij hj
    exact hFree j hij (by omega)
  · intro hTail k hik _
    by_cases hk : k < bmp.size.toNat
    · exact hTail k hik hk
    · exact bmp.bit_of_ge (by omega)

/-- The scan for more bits than there are ends where all bits to come are clear. -/
theorem bitmapAllocRangeFrom_oversize (count : U64) (hSize : bmp.size.toNat < 2 ^ 31)
    (hCount : count.toNat ≤ 2 ^ 63) (hOver : bmp.size.toNat < count.toNat) :
    ∀ (fuel : Nat) (i : U64), i.toNat ≤ bmp.size.toNat → bmp.size.toNat + 1 - i.toNat ≤ fuel →
      ∃ p : U64, i.toNat ≤ p.toNat ∧ p.toNat ≤ bmp.size.toNat ∧ TailFree bmp p.toNat ∧
        (∀ k, i.toNat ≤ k → k < p.toNat → ¬ TailFree bmp k) ∧
        bitmapAllocRangeFrom bmp count fuel i =
          some (intOfSize p, bitmapSetRun bmp p count.toNat) := by
  have hBound : (bmp.size - count).toNat = 2 ^ 64 + bmp.size.toNat - count.toNat := by
    rw [BitVec.toNat_sub]
    omega
  intro fuel
  induction fuel with
  | zero =>
      intro i hi hFuel
      omega
  | succ fuel ih =>
      intro i hi hFuel
      have hLe : i ≤ bmp.size - count := by
        rw [BitVec.le_def, hBound]
        omega
      have hClearIff := (bitmapRangeClear_iff bmp i count (by omega)).trans
        (rangeFree_iff_tailFree bmp (by omega))
      rw [bitmapAllocRangeFrom, if_pos hLe]
      by_cases hClear : bitmapRangeClear bmp i count = true
      · rw [if_pos hClear]
        exact ⟨i, le_rfl, hi, hClearIff.mp hClear, fun k hk hk' => by omega, rfl⟩
      · rw [if_neg hClear]
        have hNot : ¬ TailFree bmp i.toNat := fun hTail => hClear (hClearIff.mpr hTail)
        -- the end of the bitmap is such a position
        have hLt : i.toNat < bmp.size.toNat := by
          by_contra hEnd
          exact hNot fun j hj hj' => by omega
        have hNext : (i + 1#64).toNat = i.toNat + 1 := by
          rw [BitVec.toNat_add, BitVec.toNat_ofNat]
          omega
        obtain ⟨p, hip, hp, hTail, hLeast, hEq⟩ := ih (i + 1#64) (by omega) (by omega)
        refine ⟨p, by omega, hp, hTail, ?_, hEq⟩
        intro k hk hkp
        by_cases hki : k = i.toNat
        · rw [hki]
          exact hNot
        · exact hLeast k (by omega) hkp

/-- A search in a bitmap without clear bits gives `-1`, the scan from there wraps to the position 0 or is
not entered. -/
theorem bitmapAllocRange_full (count : U64) (hSize : bmp.size.toNat < 2 ^ 31)
    (hPos : 1 ≤ bmp.size.toNat) (hCount : count.toNat ≤ 2 ^ 63) (hOver : bmp.size.toNat < count.toNat)
    (hFull : ∀ k, k < bmp.size.toNat → bmp.bit k = true) :
    (∃ p : U64, p.toNat ≤ bmp.size.toNat ∧ TailFree bmp p.toNat ∧
        (∀ k, k < p.toNat → ¬ TailFree bmp k) ∧
        bitmapAllocRange bmp count (sizeOfInt (-1)) =
          some (intOfSize p, bitmapSetRun bmp p count.toNat)) ∨
      bitmapAllocRange bmp count (sizeOfInt (-1)) = some (-1, bmp) := by
  have hStart : (sizeOfInt (-1)).toNat = 2 ^ 64 - 1 := by decide
  have hNe : count ≠ 0#64 := by
    rintro rfl
    simp at hOver
  have hFuel : (2 : Nat) ^ 64 = (2 ^ 64 - 1) + 1 := by decide
  rw [bitmapAllocRange, if_neg hNe, hFuel, bitmapAllocRangeFrom]
  by_cases hLe : sizeOfInt (-1) ≤ bmp.size - count
  · -- the range from there on wraps and holds the first bit
    have hClear : ¬ bitmapRangeClear bmp (sizeOfInt (-1)) count = true := by
      intro hAll
      rw [bitmapRangeClear, List.all_eq_true] at hAll
      have hFirst := hAll 1 (List.mem_range.mpr (by omega))
      have hZero : sizeOfInt (-1) + BitVec.ofNat 64 1 = 0#64 := by decide
      rw [hZero, bitmapTest_eq_bit, BitVec.toNat_zero, hFull 0 (by omega)] at hFirst
      cases hFirst
    have hNext : sizeOfInt (-1) + 1#64 = 0#64 := by decide
    rw [if_pos hLe, if_neg hClear, hNext]
    obtain ⟨p, -, hp, hTail, hLeast, hEq⟩ := bitmapAllocRangeFrom_oversize bmp count hSize hCount hOver
      (2 ^ 64 - 1) 0#64 (by simp) (by rw [BitVec.toNat_zero]; omega)
    exact Or.inl ⟨p, hp, hTail, fun k hk => hLeast k (by simp) hk, hEq⟩
  · rw [if_neg hLe]
    exact Or.inr rfl

/-- `alloc_pages` for more frames than there are: it fails, or returns the first frame from which on all are
clear, which may be the one behind the last. -/
theorem allocPages_oversize {order : U64} (hSize : bmp.size.toNat < 2 ^ 31) (hPos : 1 ≤ bmp.size.toNat)
    (hOrder : order.toNat < 64) (hOver : bmp.size.toNat < 2 ^ order.toNat) :
    (∃ (p : Nat) (pa : U64) (bmp' : Bitmap), allocPages bmp order = some (pa, bmp') ∧
        pa.toNat = p * 4096 ∧ p ≤ bmp.size.toNat ∧ TailFree bmp p ∧
        (∀ k, k < p → ¬ TailFree bmp k) ∧
        ∀ k, bmp'.bit k = (bmp.bit k || decide (p ≤ k ∧ k < bmp.size.toNat))) ∨
      allocPages bmp order = some (sizeOfInt (-1), bmp) := by
  have hCount := orderToPages_toNat hOrder
  have hPow : 2 ^ order.toNat ≤ 2 ^ 63 := Nat.pow_le_pow_right (by decide) (by omega)
  have hScan : (∃ p : U64, p.toNat ≤ bmp.size.toNat ∧ TailFree bmp p.toNat ∧
        (∀ k, k < p.toNat → ¬ TailFree bmp k) ∧
        bitmapAllocRange bmp (orderToPages order) (sizeOfInt (bitmapFindFirstZero bmp 0#64)) =
          some (intOfSize p, bitmapSetRun bmp p (orderToPages order).toNat)) ∨
      bitmapAllocRange bmp (orderToPages order) (sizeOfInt (bitmapFindFirstZero bmp 0#64)) =
        some (-1, bmp) := by
    rcases bitmapFindFirstZero_cases bmp 0#64 hSize with ⟨z, -, hz, -, hBelow, hEq⟩ | ⟨hFull, hEq⟩
    · have hStart : (sizeOfInt (z : Int)).toNat = z := sizeOfInt_natCast_toNat (by omega)
      have hNe : orderToPages order ≠ 0#64 := by
        intro hZero
        rw [hZero, BitVec.toNat_zero] at hCount
        omega
      obtain ⟨p, -, hp, hTail, hLeast, hRun⟩ := bitmapAllocRangeFrom_oversize bmp (orderToPages order)
        hSize (by omega) (by omega) (2 ^ 64) (sizeOfInt (z : Int)) (by omega) (by omega)
      rw [hEq, bitmapAllocRange, if_neg hNe]
      refine Or.inl ⟨p, hp, hTail, fun k hk hTailK => ?_, hRun⟩
      by_cases hkz : k < z
      · -- below the first clear bit all are set
        have hSet := hBelow k (by simp) hkz
        rw [hTailK k le_rfl (by omega)] at hSet
        cases hSet
      · exact hLeast k (by omega) hk hTailK
    · rw [hEq]
      exact bitmapAllocRange_full bmp _ hSize hPos (by omega) (by omega) fun k hk => hFull k (by simp) hk
  unfold allocPages
  simp only
  rcases hScan with ⟨p, hp, hTail, hLeast, hEq⟩ | hEq
  · have hInt : intOfSize p = p.toNat := intOfSize_of_lt (by omega)
    have hPa : (sizeOfInt (p.toNat : Int)).toNat = p.toNat := sizeOfInt_natCast_toNat (by omega)
    refine Or.inl ⟨p.toNat, sizeOfInt (p.toNat : Int) * pageSize,
      bitmapSetRun bmp p (orderToPages order).toNat, ?_, ?_, hp, hTail, hLeast, ?_⟩
    · rw [hEq]
      simp only [hInt, show ¬ ((p.toNat : Int) < 0) by omega, if_false]
    · rw [BitVec.toNat_mul, hPa, pageSize, BitVec.toNat_ofNat]
      omega
    · intro k
      rw [bitmapSetRun_bit bmp p _ k (by omega)]
      congr 1
      rw [decide_eq_decide]
      omega
  · rw [hEq]
    exact Or.inr rfl

end Oversize

/-! ## The order of a size -/

/-- The pages that `size` bytes need. -/
def pagesFor (size : U64) : Nat := (size.toNat + 4095) / 4096

theorem le_pagesFor (size : U64) : size.toNat ≤ pagesFor size * 4096 := by
  rw [pagesFor]
  omega

theorem pagesFor_le {size : U64} {c : Nat} (h : size.toNat ≤ c * 4096) : pagesFor size ≤ c := by
  rw [pagesFor]
  omega

/-- `size_to_order`, where the sum in it does not wrap. -/
theorem sizeToOrder_of_le {size : U64} (hPos : size ≠ 0#64) (hLe : size.toNat ≤ 2 ^ 64 - 4096) :
    (sizeToOrder size).toNat = Nat.size (pagesFor size - 1) := by
  have hNe : 1 ≤ size.toNat := by
    by_contra hZero
    exact hPos (BitVec.eq_of_toNat_eq (by rw [BitVec.toNat_zero]; omega))
  have hPages : ((size + pageSize - 1#64) >>> pageShift - 1#64).toNat = pagesFor size - 1 := by
    rw [BitVec.toNat_sub, BitVec.toNat_ushiftRight, BitVec.toNat_sub, BitVec.toNat_add,
      Nat.shiftRight_eq_div_pow]
    simp only [pageSize, pageShift, BitVec.toNat_ofNat, pagesFor]
    omega
  have hSize : Nat.size (pagesFor size - 1) ≤ 64 := Nat.size_le.mpr (by rw [pagesFor]; omega)
  unfold sizeToOrder
  rw [if_neg hPos]
  simp only
  rw [fls_eq_size, hPages, BitVec.toNat_ofNat]
  omega

/-- The block is large enough. -/
theorem pagesFor_le_pow {size : U64} (hPos : size ≠ 0#64) (hLe : size.toNat ≤ 2 ^ 64 - 4096) :
    pagesFor size ≤ 2 ^ (sizeToOrder size).toNat := by
  have hLt := Nat.lt_size_self (pagesFor size - 1)
  rw [← sizeToOrder_of_le hPos hLe] at hLt
  omega

/-- The sum wraps, and the order is 64. -/
theorem sizeToOrder_of_gt {size : U64} (hGt : 2 ^ 64 - 4096 < size.toNat) :
    (sizeToOrder size).toNat = 64 := by
  have hNe : size ≠ 0#64 := by
    rintro rfl
    simp at hGt
  have hPages : ((size + pageSize - 1#64) >>> pageShift - 1#64).toNat = 2 ^ 64 - 1 := by
    have hLt := size.isLt
    rw [BitVec.toNat_sub, BitVec.toNat_ushiftRight, BitVec.toNat_sub, BitVec.toNat_add,
      Nat.shiftRight_eq_div_pow]
    simp only [pageSize, pageShift, BitVec.toNat_ofNat]
    omega
  have hSize : Nat.size (2 ^ 64 - 1) = 64 :=
    le_antisymm (Nat.size_le.mpr (by decide)) (Nat.lt_size.mpr (by decide))
  unfold sizeToOrder
  rw [if_neg hNe]
  simp only
  rw [fls_eq_size, hPages, hSize]
  rfl

/-! ## The returns of `kmalloc` -/

/-- The state after `alloc_pages`, with the lock taken. -/
def Machine.tookBlock (s : Machine) (pa order : U64) (bmp : Bitmap) : Machine :=
  { s with mmSpinlock := true, pageAllocBitmap := bmp, allocLog := s.allocLog ++ [⟨pa, order⟩] }

/-- The returns of `kmalloc`. -/
inductive KmallocRun (s : Machine) (size : U64) : U64 → Machine → Prop
  | zero (hSize : size = 0#64) : KmallocRun s size 0#64 { s with mmSpinlock := true }
  | noFrames (pa : U64) (bmp : Bitmap) (hSize : size ≠ 0#64)
      (hAlloc : allocPages s.pageAllocBitmap (sizeToOrder size) = some (pa, bmp)) (hNeg : pa.toInt < 0) :
      KmallocRun s size 0#64 (s.tookBlock pa (sizeToOrder size) bmp)
  | notMapped (pa : U64) (bmp : Bitmap) (ret : Int) (t : Machine) (hSize : size ≠ 0#64)
      (hAlloc : allocPages s.pageAllocBitmap (sizeToOrder size) = some (pa, bmp)) (hPa : ¬ pa.toInt < 0)
      (hMap : mapPageRange pa (kmemBase + pa) mapKernRw (orderToPages (sizeToOrder size))
        (s.tookBlock pa (sizeToOrder size) bmp) = .ok ret t)
      (hShort : sizeOfInt ret < orderToPages (sizeToOrder size)) : KmallocRun s size 0#64 t
  | noArea (pa : U64) (bmp : Bitmap) (ret : Int) (t : Machine) (hSize : size ≠ 0#64)
      (hAlloc : allocPages s.pageAllocBitmap (sizeToOrder size) = some (pa, bmp)) (hPa : ¬ pa.toInt < 0)
      (hMap : mapPageRange pa (kmemBase + pa) mapKernRw (orderToPages (sizeToOrder size))
        (s.tookBlock pa (sizeToOrder size) bmp) = .ok ret t)
      (hPool : s.vmapAreaPool.freeList = []) : KmallocRun s size 0#64 t
  | ok (pa obj : U64) (bmp : Bitmap) (ret : Int) (t : Machine) (rest : List U64) (hSize : size ≠ 0#64)
      (hAlloc : allocPages s.pageAllocBitmap (sizeToOrder size) = some (pa, bmp)) (hPa : ¬ pa.toInt < 0)
      (hMap : mapPageRange pa (kmemBase + pa) mapKernRw (orderToPages (sizeToOrder size))
        (s.tookBlock pa (sizeToOrder size) bmp) = .ok ret t)
      (hPool : s.vmapAreaPool.freeList = obj :: rest) :
      KmallocRun s size (kmemBase + pa) { t with
        vmapAreaPool := { s.vmapAreaPool with
          freeList := rest, used := s.vmapAreaPool.used + 1#64 }
        vmapAreaList := t.vmapAreaList ++ [(obj, areaOf ⟨pa, sizeToOrder size⟩)]
        mmSpinlock := false }

theorem kmemBase_add_ne_zero {pa : U64} (hPa : pa.toNat < 2 ^ 43) : kmemBase + pa ≠ 0#64 := by
  intro hEq
  have := congrArg BitVec.toNat hEq
  simp only [kmemBase, BitVec.toNat_add, BitVec.toNat_ofNat] at this
  omega

/-- `kmalloc` on a free lock, when it returns. -/
theorem kmalloc_run {s m : Machine} {size ptr : U64} (hFree : s.mmSpinlock = false)
    (hRun : kmalloc size s = .ok ptr m) : KmallocRun s size ptr m := by
  have hLock : mmSpinlockLock s = .ok () { s with mmSpinlock := true } := by
    simp [mmSpinlockLock, hFree]
  unfold kmalloc at hRun
  rw [bind_ok hLock] at hRun
  by_cases hSize : size = 0#64
  · rw [if_pos hSize] at hRun
    cases hRun
    exact .zero hSize
  rw [if_neg hSize] at hRun
  obtain ⟨va, t, hMap, hRest⟩ := bind_eq_ok.mp hRun
  unfold kmemMap at hMap
  obtain ⟨pa, s1, hTake, hMap⟩ := bind_eq_ok.mp hMap
  unfold Kernel.allocPages at hTake
  split at hTake
  · cases hTake
  rename_i pa' bmp hAlloc
  cases hTake
  by_cases hNeg : pa.toInt < 0
  · rw [if_pos hNeg] at hMap
    cases hMap
    rw [if_pos rfl] at hRest
    cases hRest
    exact .noFrames pa bmp hSize hAlloc hNeg
  rw [if_neg hNeg] at hMap
  obtain ⟨ret, t', hPages, hMap⟩ := bind_eq_ok.mp hMap
  by_cases hShort : sizeOfInt ret < orderToPages (sizeToOrder size)
  · rw [if_pos hShort] at hMap
    cases hMap
    rw [if_pos rfl] at hRest
    cases hRest
    exact .notMapped pa bmp ret _ hSize hAlloc hNeg hPages hShort
  rw [if_neg hShort] at hMap
  cases hMap
  rw [if_neg (kmemBase_add_ne_zero (allocPages_aligned hAlloc hNeg).2)] at hRest
  obtain ⟨vm, u, hArea, hRest⟩ := bind_eq_ok.mp hRest
  have hPool : t.vmapAreaPool = s.vmapAreaPool := (Respects.of_ok (mapPageRange_kept _ _ _ _) hPages).2.1
  cases hList : s.vmapAreaPool.freeList with
  | nil =>
      simp only [vmapAreaAlloc, poolAlloc, hPool, hList] at hArea
      cases hArea
      cases hRest
      exact .noArea pa bmp ret _ hSize hAlloc hNeg hPages hList
  | cons obj rest =>
      simp only [vmapAreaAlloc, poolAlloc, hPool, hList] at hArea
      cases hArea
      cases hRest
      exact KmallocRun.ok (s := s) pa obj bmp ret _ rest hSize hAlloc hNeg hPages hList

/-! ## What is mapped -/

/-- A block that `alloc_pages` has returned: its frames in memory were clear, and no bit is cleared. -/
structure TookClear (bmp bmp' : Bitmap) (p count : Nat) : Prop where
  size : bmp'.size = bmp.size
  clear : ∀ k, p ≤ k → k < p + count → bmp.bit k = false
  bits : ∀ k, bmp'.bit k = true ↔
    bmp.bit k = true ∨ p ≤ k ∧ k < p + count ∧ k < bmp.size.toNat

/-- A block from `alloc_pages` that ends inside the region at `KMEM_BASE`. -/
theorem allocPages_tookClear {bmp bmp' : Bitmap} {order pa : U64} (hSize : bmp.size.toNat < 2 ^ 31)
    (hPos : 1 ≤ bmp.size.toNat) (hOrder : order.toNat < 64)
    (hAlloc : allocPages bmp order = some (pa, bmp')) (hPa : ¬ pa.toInt < 0) :
    ∃ p, pa.toNat = p * 4096 ∧ p ≤ bmp.size.toNat ∧ TookClear bmp bmp' p (2 ^ order.toNat) ∧
      (2 ^ order.toNat ≤ bmp.size.toNat → p + 2 ^ order.toNat ≤ bmp.size.toNat) ∧
      (bmp.size.toNat < 2 ^ order.toNat → ∀ k, TailFree bmp k ↔ p ≤ k) := by
  have hSame := allocPages_size hAlloc
  have hNeg : (sizeOfInt (-1)).toInt < 0 := by decide
  have hPow : 0 < 2 ^ order.toNat := Nat.pow_pos (by decide)
  by_cases hFits : 2 ^ order.toNat ≤ bmp.size.toNat
  · rcases allocPages_cases bmp hSize order hFits with
      ⟨p, pa', bmp'', hEq, hPa', hEnd, hFree, -, -, hBits⟩ | ⟨-, hEq⟩
    · rw [hAlloc] at hEq
      cases hEq
      refine ⟨p, hPa', by omega, ⟨hSame, hFree, fun k => ?_⟩, fun _ => hEnd, fun h => by omega⟩
      rw [hBits, Bool.or_eq_true, decide_eq_true_eq]
      exact or_congr_right (by omega)
    · rw [hAlloc] at hEq
      cases hEq
      exact absurd hNeg hPa
  · rcases allocPages_oversize bmp hSize hPos hOrder (by omega) with
      ⟨p, pa', bmp'', hEq, hPa', hEnd, hTail, hLeast, hBits⟩ | hEq
    · rw [hAlloc] at hEq
      cases hEq
      refine ⟨p, hPa', hEnd, ⟨hSame, ?_, fun k => ?_⟩, fun h => absurd h hFits, fun _ k => ⟨?_, ?_⟩⟩
      · exact (rangeFree_iff_tailFree bmp (by omega)).mpr hTail
      · rw [hBits, Bool.or_eq_true, decide_eq_true_eq]
        exact or_congr_right (by omega)
      · intro hTailK
        by_contra hLt
        exact hLeast k (by omega) hTailK
      · intro hLe j hj hj'
        exact hTail j (by omega) hj'
    · rw [hAlloc] at hEq
      cases hEq
      exact absurd hNeg hPa

section Mapped

variable {n : Nat} {mapped others : List Block} {s t : Machine} {bmp : Bitmap} {pa order : U64} {p : Nat}

/-- Taking clear frames keeps the blocks in use. -/
theorem KmemOk.tookBlock (h : KmemOk kmemHead n mapped others s)
    (hTook : TookClear s.pageAllocBitmap bmp p (2 ^ order.toNat)) :
    FramesOk kmemHead n (mapped ++ others) (s.tookBlock pa order bmp) := by
  have hKeep : ∀ k, s.pageAllocBitmap.bit k = true → bmp.bit k = true :=
    fun k hk => (hTook.bits k).mpr (Or.inl hk)
  refine ⟨?_, h.frames.nonempty, h.frames.small,
    ⟨h.frames.tables.recursive, h.frames.tables.notRecursive, h.frames.tables.tree⟩, ?_,
    h.frames.tableApart, h.frames.disjoint, h.frames.inside, h.frames.aligned, ?_⟩
  · exact (congrArg BitVec.toNat hTook.size).trans h.frames.size
  · intro q f hq hf hfn
    exact hKeep f (h.frames.tableUsed q f hq hf hfn)
  · intro b hb k hk
    exact hKeep k (h.frames.used b hb k hk)

/-- The pages of the block are mapped, each to its own frame, and no other page of the region changes. -/
structure MappedBlock (n : Nat) (owned : List Block) (s t : Machine) (p count : Nat) : Prop where
  frames : FramesOk kmemHead n owned t
  mem : ∀ b ∈ owned, ∀ k, b.Has k → t.mem k = s.mem k
  cr3 : t.cr3 = s.cr3
  page : ∀ f, f < 2 ^ 31 →
    t.page (kmemPage f) = if p ≤ f ∧ f < p + count then some (kmemEntry f) else s.page (kmemPage f)

/-- `map_page_range` in `__kmem_map`, when no table is missing. -/
theorem KmemOk.mapBlock (h : KmemOk kmemHead n mapped others s)
    (hTook : TookClear s.pageAllocBitmap bmp p (2 ^ order.toNat)) (hPa : pa.toNat = p * 4096)
    (hOrder : order.toNat < 31) (hEnd : p + 2 ^ order.toNat ≤ 2 ^ 31) {ret : Int}
    (hMap : mapPageRange pa (kmemBase + pa) mapKernRw (orderToPages order)
      (s.tookBlock pa order bmp) = .ok ret t) (hFail : NoFail t.allocLog) :
    ret = (2 ^ order.toNat : Nat) ∧ MappedBlock n (mapped ++ others) s t p (2 ^ order.toNat) := by
  have hFrames : FramesOk kmemHead n (mapped ++ others) (s.tookBlock pa order bmp) := h.tookBlock hTook
  have hSmall := h.frames.small
  have hSize := h.frames.size
  have hPow : 2 ^ order.toNat < 2 ^ 31 := Nat.pow_lt_pow_right (by decide) hOrder
  have hPos : 0 < 2 ^ order.toNat := Nat.pow_pos (by decide)
  have hLen : (orderToPages order).toNat = 2 ^ order.toNat := orderToPages_toNat (by omega)
  have hVpn : vpn (kmemBase + pa) = kmemPage p := by
    rw [vpn_kmem (by omega), hPa, Nat.mul_div_cancel p (by decide)]
  have hPage0 : ∀ w, (s.tookBlock pa order bmp).page w = s.page w := fun w => rfl
  have hFree : ∀ w, vpn (kmemBase + pa) ≤ w → w < vpn (kmemBase + pa) + (orderToPages order).toNat →
      (s.tookBlock pa order bmp).page w = none := by
    intro w hw hw'
    rw [hVpn, kmemPage] at hw hw'
    rw [hLen] at hw'
    obtain ⟨f, rfl⟩ : ∃ f, w = kmemPage f := ⟨w - 288 * 2 ^ 27, by rw [kmemPage]; omega⟩
    rw [kmemPage] at hw hw'
    rw [hPage0]
    refine h.absent f (by omega) fun b hb hHas => ?_
    have hUsed := h.frames.used b (List.mem_append_left _ hb) f hHas
    rw [hTook.clear f (by omega) (by omega)] at hUsed
    cases hUsed
  have hRange : RangeIn kmemHead (vpn (kmemBase + pa)) (orderToPages order).toNat := by
    rw [hVpn, hLen, kmemPage]
    refine ⟨by omega, fun w hw hw' => ?_⟩
    simp only [kmemHead, pageHead]
    omega
  obtain ⟨t', hRun, hGrown, hTakes, hFrames', hMem, hPages⟩ := hFrames.mapPageRange pa mapKernRw
    (by decide) hRange (by omega) hFree (by rw [hMap]; exact hFail)
  rw [hMap] at hRun
  cases hRun
  refine ⟨by rw [hLen], hFrames', hMem, hGrown.cr3, ?_⟩
  · intro f hf
    rw [hPages _ (kmemPage_lt hf) (kmemPage_head hf), hPage0, hVpn, hLen]
    by_cases hIn : p ≤ f ∧ f < p + 2 ^ order.toNat
    · rw [if_pos hIn, if_pos (by simp only [kmemPage]; omega), kmemEntry]
      congr 2
      apply BitVec.eq_of_toNat_eq
      simp only [kmemPage, BitVec.toNat_add, BitVec.toNat_ofNat, hPa]
      omega
    · rw [if_neg hIn, if_neg (by simp only [kmemPage]; omega)]

end Mapped

/-! ## A block that is large enough -/

/-- The `size` bytes from `p` on lie on pages that are mapped to different frames, all of them frames of the
bitmap that were clear. -/
def Enough (bmp : Bitmap) (m : Machine) (p size : U64) : Prop :=
  ∃ g : Nat → Nat, Set.InjOn g (Set.Iio (pagesFor size)) ∧
    (∀ k, k < pagesFor size → g k < bmp.size.toNat ∧ bmp.bit (g k) = false) ∧
    ∀ a, a < size.toNat →
      mmuWalk m.mem m.root (p + BitVec.ofNat 64 a) = some (g (a / 4096), a % 4096)

/-- The block of the request fits into the bitmap, or it does not and all the frames that the size needs are
clear at the end of the bitmap. -/
def RequestFits (bmp : Bitmap) (size : U64) : Prop :=
  size.toNat ≤ 2 ^ 64 - 4096 ∧
    (2 ^ (sizeToOrder size).toNat ≤ bmp.size.toNat ∨
      pagesFor size ≤ bmp.size.toNat ∧ TailFree bmp (bmp.size.toNat - pagesFor size))

/-- There are not more pages than frames. -/
theorem Enough.pagesFor_le {bmp : Bitmap} {m : Machine} {p size : U64} (h : Enough bmp m p size) :
    pagesFor size ≤ bmp.size.toNat := by
  obtain ⟨g, hInj, hFrames, -⟩ := h
  have hCard := Finset.card_le_card_of_injOn (s := Finset.range (pagesFor size))
    (t := Finset.range bmp.size.toNat) g
    (fun k hk => Finset.mem_coe.mpr (Finset.mem_range.mpr
      (hFrames k (Finset.mem_range.mp (Finset.mem_coe.mp hk))).1))
    (hInj.mono fun k hk => Finset.mem_range.mp (Finset.mem_coe.mp hk))
  rwa [Finset.card_range, Finset.card_range] at hCard

/-- A byte of a block that is mapped in the region. -/
theorem mmuWalk_block {m : Machine} {pa : U64} {p count a : Nat} (hPa : pa.toNat = p * 4096)
    (hEnd : p + count ≤ 2 ^ 31)
    (hPage : ∀ f, p ≤ f → f < p + count → m.page (kmemPage f) = some (kmemEntry f))
    (ha : a < count * 4096) :
    mmuWalk m.mem m.root (kmemBase + pa + BitVec.ofNat 64 a) = some (p + a / 4096, a % 4096) := by
  have hAddr : (pa + BitVec.ofNat 64 a).toNat = p * 4096 + a := by
    rw [BitVec.toNat_add, BitVec.toNat_ofNat, hPa]
    omega
  have hWhole : (kmemBase + (pa + BitVec.ofNat 64 a)).toNat = 0xffff900000000000 + p * 4096 + a := by
    rw [BitVec.toNat_add, hAddr, kmemBase, BitVec.toNat_ofNat]
    omega
  have hCan : Canonical (kmemBase + (pa + BitVec.ofNat 64 a)) := by
    rw [Canonical, hWhole]
    omega
  have hFrame : (p * 4096 + a) / 4096 = p + a / 4096 := by omega
  rw [BitVec.add_assoc, mmuWalk_eq_page hCan, vpn_kmem (by omega), hAddr, hFrame,
    hPage _ (by omega) (by omega), hWhole]
  have hOff : (0xffff900000000000 + p * 4096 + a) % 4096 = a % 4096 := by omega
  rw [hOff, Option.map_some, entryFrame_kmemEntry (by omega)]

/-- `kmalloc(0)` returns NULL. -/
theorem kmalloc_size_ne_zero {s m : Machine} {size ptr : U64} (hFree : s.mmSpinlock = false)
    (hRun : kmalloc size s = .ok ptr m) (hOk : ptr ≠ 0#64) : size ≠ 0#64 := by
  cases kmalloc_run hFree hRun with
  | zero _ => exact absurd rfl hOk
  | noFrames _ _ hSize _ _ => exact hSize
  | notMapped _ _ _ _ hSize _ _ _ _ => exact hSize
  | noArea _ _ _ _ hSize _ _ _ _ => exact hSize
  | ok _ _ _ _ _ _ hSize _ _ _ _ => exact hSize

/-- A request for at most `2 ^ 30` frames stays inside the region. -/
theorem oversize_bound {n : Nat} {size : U64} (hNe : size ≠ 0#64) (hLe : size.toNat ≤ 2 ^ 64 - 4096)
    (hPages : pagesFor size ≤ 2 ^ 30) (hBound : n ≤ 2 ^ 30) :
    (sizeToOrder size).toNat < 31 ∧ n + 2 ^ (sizeToOrder size).toNat ≤ 2 ^ 31 := by
  have hOrder : (sizeToOrder size).toNat ≤ 30 := by
    rw [sizeToOrder_of_le hNe hLe]
    exact Nat.size_le.mpr (by omega)
  have hPow : 2 ^ (sizeToOrder size).toNat ≤ 2 ^ 30 := Nat.pow_le_pow_right (by decide) hOrder
  omega

/-- What `kmalloc` has mapped when it returns an address. -/
theorem kmalloc_mapped {n : Nat} {s : HeapState} {m : Machine} {size ptr : U64} (h : HeapInv n s)
    (hRun : kmalloc size s.machine = .ok ptr m) (hOk : ptr ≠ 0#64) (hFail : NoFail m.allocLog)
    (hOrder : (sizeToOrder size).toNat < 31)
    (hEnd : 2 ^ (sizeToOrder size).toNat ≤ n ∨ n + 2 ^ (sizeToOrder size).toNat ≤ 2 ^ 31) :
    ∃ (pa : U64) (p : Nat), ptr = kmemBase + pa ∧ pa.toNat = p * 4096 ∧ p ≤ n ∧
      p + 2 ^ (sizeToOrder size).toNat ≤ 2 ^ 31 ∧
      (∀ k, p ≤ k → k < p + 2 ^ (sizeToOrder size).toNat →
        s.machine.pageAllocBitmap.bit k = false ∧ m.page (kmemPage k) = some (kmemEntry k)) ∧
      (2 ^ (sizeToOrder size).toNat ≤ n → p + 2 ^ (sizeToOrder size).toNat ≤ n) ∧
      (n < 2 ^ (sizeToOrder size).toNat → ∀ k, TailFree s.machine.pageAllocBitmap k ↔ p ≤ k) := by
  have hSize := h.kmem.frames.size
  have hSmall := h.kmem.frames.small
  cases kmalloc_run h.unlocked hRun with
  | zero _ => exact absurd rfl hOk
  | noFrames _ _ _ _ _ => exact absurd rfl hOk
  | notMapped _ _ _ _ _ _ _ _ _ => exact absurd rfl hOk
  | noArea _ _ _ _ _ _ _ _ _ => exact absurd rfl hOk
  | ok pa obj bmp ret t rest hNe hAlloc hPa hMap hPool =>
      obtain ⟨p, hpa, hp, hTook, hFits, hOver⟩ := allocPages_tookClear (by omega)
        (by rw [hSize]; exact h.kmem.frames.nonempty) (by omega) hAlloc hPa
      rw [hSize] at hp hFits hOver
      have hInside : p + 2 ^ (sizeToOrder size).toNat ≤ 2 ^ 31 := by
        rcases hEnd with hEnd | hEnd
        · have := hFits hEnd
          omega
        · omega
      obtain ⟨-, hMapped⟩ := h.kmem.mapBlock hTook hpa hOrder hInside hMap hFail
      refine ⟨pa, p, rfl, hpa, hp, hInside, fun k hk hk' => ⟨hTook.clear k hk hk', ?_⟩, hFits, hOver⟩
      have hPage := hMapped.page k (by omega)
      rw [if_pos ⟨hk, hk'⟩] at hPage
      exact hPage

/-- The block has its pages at frames of the bitmap that were clear, if it ends inside the bitmap. -/
theorem enough_of_mapped {n : Nat} {bmp : Bitmap} {m : Machine} {size pa : U64} {p count : Nat}
    (hSize : bmp.size.toNat = n) (hPa : pa.toNat = p * 4096) (hInside : p + count ≤ 2 ^ 31)
    (hMapped : ∀ k, p ≤ k → k < p + count → bmp.bit k = false ∧ m.page (kmemPage k) = some (kmemEntry k))
    (hPages : pagesFor size ≤ count) (hEnd : p + pagesFor size ≤ n) :
    Enough bmp m (kmemBase + pa) size := by
  refine ⟨fun k => p + k, fun i _ j _ hEq => Nat.add_left_cancel hEq, ?_, ?_⟩
  · intro k hk
    exact ⟨hSize ▸ show p + k < n by omega, (hMapped (p + k) (by omega) (by omega)).1⟩
  · intro a ha
    rw [pagesFor] at hPages
    exact mmuWalk_block hPa hInside (fun f hf hf' => (hMapped f hf hf').2) (by omega)

/-- `kmalloc` returns enough memory when the block fits into the bitmap.  With up to `2 ^ 30` frames it does
so exactly when the block fits, or the frames that are needed are clear at the end of the bitmap. -/
theorem kmalloc_enough_iff {n : Nat} {s : HeapState} {m : Machine} {size ptr : U64} (h : HeapInv n s)
    (hRun : kmalloc size s.machine = .ok ptr m) (hOk : ptr ≠ 0#64) (hFail : NoFail m.allocLog) :
    (2 ^ (sizeToOrder size).toNat ≤ n → Enough s.machine.pageAllocBitmap m ptr size) ∧
      (n ≤ 2 ^ 30 → (Enough s.machine.pageAllocBitmap m ptr size ↔
        RequestFits s.machine.pageAllocBitmap size)) := by
  have hSize := h.kmem.frames.size
  have hSmall := h.kmem.frames.small
  have hNe := kmalloc_size_ne_zero h.unlocked hRun hOk
  -- a block that is not larger than memory
  have hFits : 2 ^ (sizeToOrder size).toNat ≤ n → Enough s.machine.pageAllocBitmap m ptr size := by
    intro hPow
    have hLe : size.toNat ≤ 2 ^ 64 - 4096 := by
      by_contra hGt
      rw [sizeToOrder_of_gt (by omega)] at hPow
      omega
    obtain ⟨pa, p, rfl, hPa, -, hInside, hMapped, hEnd, -⟩ := kmalloc_mapped h hRun hOk hFail
      (order_lt_of_pow_le hPow hSmall) (Or.inl hPow)
    have hPages := pagesFor_le_pow hNe hLe
    exact enough_of_mapped hSize hPa hInside hMapped hPages (by have := hEnd hPow; omega)
  refine ⟨hFits, fun hBound => ⟨fun hEnough => ?_, ?_⟩⟩
  · have hCount := hEnough.pagesFor_le
    rw [hSize] at hCount
    have hLe : size.toNat ≤ 2 ^ 64 - 4096 := by
      rw [pagesFor] at hCount
      omega
    refine ⟨hLe, ?_⟩
    rw [hSize]
    by_cases hPow : 2 ^ (sizeToOrder size).toNat ≤ n
    · exact Or.inl hPow
    · refine Or.inr ⟨hCount, ?_⟩
      obtain ⟨hOrder, hRange⟩ := oversize_bound hNe hLe (hCount.trans hBound) hBound
      obtain ⟨pa, p, rfl, hPa, hp, hInside, hMapped, -, hOver⟩ := kmalloc_mapped h hRun hOk hFail
        hOrder (Or.inr hRange)
      refine (hOver (by omega) _).mpr ?_
      -- otherwise a page of the request is mapped behind the last frame
      by_contra hLt
      have hPages := pagesFor_le_pow hNe hLe
      obtain ⟨g, -, hFrames, hWalk⟩ := hEnough
      have hk : n - p < pagesFor size := by omega
      have hByte : (n - p) * 4096 < size.toNat := by
        rw [pagesFor] at hk
        omega
      have hHere := mmuWalk_block (a := (n - p) * 4096) hPa hInside
        (fun f hf hf' => (hMapped f hf hf').2) (by omega)
      rw [hWalk _ hByte, Option.some.injEq, Prod.mk.injEq, Nat.mul_div_cancel _ (by decide)] at hHere
      have hFrame := (hFrames (n - p) hk).1
      omega
  · rintro ⟨hLe, hPow | ⟨hCount, hTail⟩⟩
    · exact hFits (hSize ▸ hPow)
    · by_cases hPow : 2 ^ (sizeToOrder size).toNat ≤ n
      · exact hFits hPow
      · rw [hSize] at hCount hTail
        obtain ⟨hOrder, hRange⟩ := oversize_bound hNe hLe (hCount.trans hBound) hBound
        obtain ⟨pa, p, rfl, hPa, hp, hInside, hMapped, -, hOver⟩ := kmalloc_mapped h hRun hOk hFail
          hOrder (Or.inr hRange)
        have hStart := (hOver (by omega) _).mp hTail
        exact enough_of_mapped hSize hPa hInside hMapped (pagesFor_le_pow hNe hLe) (by omega)

/-- What the runs on the small machine return, and what they leave in the allocation log. All of them start with
`mm_init` and share its evaluation. -/
theorem chainHeap_runs :
    (value? (mmInit chainMachine) = some () ∧
      (finalState (mmInit chainMachine)).allocLog = [⟨0x8000#64, 5#64⟩]) ∧
    (value? (kmalloc 0x1800#64 (finalState (mmInit chainMachine))) = some 0xffff900000028000#64 ∧
      (finalState (kmalloc 0x1800#64 (finalState (mmInit chainMachine)))).allocLog =
        [⟨0x8000#64, 5#64⟩, ⟨0x28000#64, 1#64⟩]) ∧
    value? (kmalloc 0xffffffffffffffff#64 (finalState (mmInit chainMachine))) =
      some 0xffff900000028000#64 := by
  decide +kernel

/-- The heap of the small machine after `mm_init`. -/
theorem chainHeap : ∃ s : HeapState, HeapReachable 64 chainMachine s ∧ HeapInv 64 s ∧
    s.machine = finalState (mmInit chainMachine) := by
  obtain ⟨hValue, -, -⟩ := chainHeap_runs
  have hRun := eq_ok_of_value hValue.1
  have hLog := hValue.2
  generalize finalState (mmInit chainMachine) = m at hRun hLog ⊢
  have hInit : HeapInit chainMachine ⟨m, ⟨0x8000#64, 5#64⟩, []⟩ := by
    refine ⟨hRun, ?_, by simp [hLog], rfl⟩
    simp only [hLog, NoFail]
    decide
  have hReach : HeapReachable 64 chainMachine ⟨m, ⟨0x8000#64, 5#64⟩, []⟩ :=
    ⟨_, hInit, Relation.ReflTransGen.refl⟩
  exact ⟨_, hReach, heapInv_of_reachable chainMachine_boot hReach, rfl⟩

/-- 6144 bytes on the small machine. -/
theorem kmalloc_enough_iff_chain : ∃ (s : HeapState) (m : Machine), HeapReachable 64 chainMachine s ∧
    kmalloc 0x1800#64 s.machine = .ok 0xffff900000028000#64 m ∧
    Enough s.machine.pageAllocBitmap m 0xffff900000028000#64 0x1800#64 := by
  obtain ⟨s, hReach, hInv, hMachine⟩ := chainHeap
  obtain ⟨-, hValue, -⟩ := chainHeap_runs
  rw [← hMachine] at hValue
  have hRun := eq_ok_of_value hValue.1
  refine ⟨s, _, hReach, hRun, (kmalloc_enough_iff hInv hRun (by decide) ?_).1 (by decide)⟩
  simp only [hValue.2, NoFail]
  decide

/-- `2 ^ 64 - 1` bytes on the small machine: `kmalloc` returns a block of one page. -/
theorem kmalloc_wraps_chain : ∃ (s : HeapState) (m : Machine), HeapReachable 64 chainMachine s ∧
    kmalloc 0xffffffffffffffff#64 s.machine = .ok 0xffff900000028000#64 m ∧
    ¬ Enough s.machine.pageAllocBitmap m 0xffff900000028000#64 0xffffffffffffffff#64 := by
  obtain ⟨s, hReach, hInv, hMachine⟩ := chainHeap
  obtain ⟨-, -, hValue⟩ := chainHeap_runs
  rw [← hMachine] at hValue
  refine ⟨s, _, hReach, eq_ok_of_value hValue, fun hEnough => ?_⟩
  have hCount := hEnough.pagesFor_le
  rw [hInv.kmem.frames.size] at hCount
  exact absurd hCount (by decide)

end Rayos
