import Rayos.Mem.BitmapSpec
import Mathlib.Data.Nat.Size

/-!
# The physical page allocator (`page.c`, `page.h`)

`alloc_pages` and `free_pages` over the frame bitmap `page_alloc_bitmap`, the order arithmetic of
`page.h`, and the bitmap that `page_init` builds.  A *block* is a run of `2 ^ order` frames; the main
result of this file is that over any run of allocations and releases the set bits of the bitmap are
the reserved frames together with the frames of the live blocks, which are pairwise disjoint.
-/

namespace Rayos

/-- `PAGE_SIZE`. -/
def pageSize : U64 := 0x1000#64

/-- `PAGE_SHIFT`. -/
def pageShift : Nat := 12

/-- The macro `ALIGN_UP(val, align)`; a value that is already aligned moves up by `align`. -/
def alignUp (val align : U64) : U64 := (val + align) &&& ~~~(align - 1#64)

/-- The macro `order_to_pages(order)`; the processor takes shift counts modulo 64. -/
def orderToPages (order : U64) : U64 := 1#64 <<< (order.toNat % 64)

/-- The loop of `fls`; a 64-bit word is zero after 64 shifts. -/
def flsFrom : Nat → U64 → Nat → Nat
  | 0, _, r => r
  | n + 1, x, r => if x = 0#64 then r else flsFrom n (x >>> 1) (r + 1)

/-- `fls`: the one-based position of the highest set bit. -/
def fls (x : U64) : Nat := flsFrom 64 x 0

/-- `size_to_order`. -/
def sizeToOrder (size : U64) : U64 :=
  if size = 0#64 then 0#64
  else
    let pages := (size + pageSize - 1#64) >>> pageShift
    BitVec.ofNat 64 (fls (pages - 1#64))

/-- `pages_to_order`. -/
def pagesToOrder (nrPages : U64) : U64 := sizeToOrder (nrPages * pageSize)

/-- `alloc_pages` on the frame bitmap: the returned address and the new bitmap.  The first zero bit
is an `int`, converted back to `size_t` where it is passed on. -/
def allocPages (bmp : Bitmap) (order : U64) : Option (U64 × Bitmap) :=
  let start := bitmapFindFirstZero bmp 0#64
  match bitmapAllocRange bmp (orderToPages order) (sizeOfInt start) with
  | none => none
  | some (ret, bmp') =>
      if ret < 0 then some (sizeOfInt ret, bmp') else some (sizeOfInt ret * pageSize, bmp')

/-- `free_pages` on the frame bitmap. -/
def freePages (bmp : Bitmap) (physaddr order : U64) : Bitmap :=
  bitmapFreeRange bmp (physaddr >>> pageShift) (orderToPages order)

/-- A block handed out by `alloc_pages`: its address and the order it was asked for with. -/
structure Block where
  pa : U64
  order : U64
  deriving DecidableEq

namespace Block

/-- The first frame of the block. -/
def frame (b : Block) : Nat := b.pa.toNat / 4096

/-- The number of frames of the block. -/
def pages (b : Block) : Nat := 2 ^ b.order.toNat

/-- Frame `k` belongs to the block. -/
def Has (b : Block) (k : Nat) : Prop := b.frame ≤ k ∧ k < b.frame + b.pages

/-- The two blocks share no frame. -/
def Disjoint (b c : Block) : Prop := ∀ k, b.Has k → ¬ c.Has k

theorem Disjoint.symm {b c : Block} (h : b.Disjoint c) : c.Disjoint b :=
  fun k hc hb => h k hb hc

instance : Std.Symm Block.Disjoint := ⟨fun _ _ h => h.symm⟩

theorem has_frame (b : Block) : b.Has b.frame :=
  ⟨le_refl _, Nat.lt_add_of_pos_right (Nat.pow_pos (by decide))⟩

end Block

/-- What the linker script provides: the page-aligned physical end of the kernel image.  The image
is linked at `VIRT_OFFSET + 1M` in the upper half, so its physical end is below `2 ^ 47`. -/
structure KernelImage where
  /-- `_kernel_phys_end_aligned`. -/
  kernelPhysEndAligned : U64
  aligned : kernelPhysEndAligned.toNat % 4096 = 0
  inHalf : kernelPhysEndAligned.toNat < 2 ^ 47

/-- The number of frames, as `page_init` computes it from the amount of memory. -/
def pageInitBits (totalMem : U64) : U64 := alignUp totalMem pageSize >>> pageShift

/-- The bytes `page_init` sets aside for the bitmap of `bits` frames. -/
def bitmapDataBytes (bits : U64) : U64 := alignUp (bits >>> 3) pageSize

/-- The number of frames that `page_init` asks to mark as used. -/
def pageInitUsed (image : KernelImage) (totalMem : U64) : U64 :=
  (image.kernelPhysEndAligned + bitmapDataBytes (pageInitBits totalMem)) >>> pageShift

/-- The frame bitmap after `page_init`. -/
def pageInitBitmap (image : KernelImage) (totalMem : U64) : Bitmap :=
  bitmapSetRange (bitmapInit (pageInitBits totalMem)) 0#64 (pageInitUsed image totalMem)

/-! ## Order arithmetic -/

theorem orderToPages_toNat {order : U64} (h : order.toNat < 64) :
    (orderToPages order).toNat = 2 ^ order.toNat := by
  have hPow : 2 ^ order.toNat < 2 ^ 64 := Nat.pow_lt_pow_right (by decide) h
  simpa [orderToPages, Nat.mod_eq_of_lt h, Nat.shiftLeft_eq] using hPow

/-- An order whose page count is at most `n < 2 ^ 31` is below 31. -/
theorem order_lt_of_pow_le {order n : Nat} (h : 2 ^ order ≤ n) (hn : n < 2 ^ 31) : order < 31 := by
  by_contra hge
  have := Nat.pow_le_pow_right (n := 2) (by decide) (Nat.le_of_not_lt hge)
  omega

theorem flsFrom_eq_size :
    ∀ (n : Nat) (x : U64) (r : Nat), x.toNat < 2 ^ n → flsFrom n x r = Nat.size x.toNat + r := by
  intro n
  induction n with
  | zero =>
      intro x r hx
      simp [flsFrom, show x.toNat = 0 by omega]
  | succ n ih =>
      intro x r hx
      rw [flsFrom]
      by_cases hZero : x = 0#64
      · simp [hZero]
      · have hPos : x.toNat ≠ 0 := fun h => hZero (BitVec.eq_of_toNat_eq (by simpa using h))
        have hHalf : (x >>> 1).toNat = x.toNat / 2 := by
          simp [Nat.shiftRight_eq_div_pow]
        have hSize : Nat.size x.toNat = Nat.size (x.toNat / 2) + 1 := by
          conv_lhs => rw [← Nat.bit_bodd_div2 x.toNat]
          rw [Nat.size_bit (by rw [Nat.bit_bodd_div2]; exact hPos), Nat.div2_val]
        rw [if_neg hZero, ih _ _ (by rw [hHalf]; omega), hHalf, hSize]
        omega

theorem fls_eq_size (x : U64) : fls x = Nat.size x.toNat := by
  have h := flsFrom_eq_size 64 x 0 x.isLt
  simpa [fls] using h

/-- `size_to_order` inverts `order_to_pages`, which is what `kfree` relies on. -/
theorem sizeToOrder_pages {o : Nat} (ho : o ≤ 51) :
    sizeToOrder (BitVec.ofNat 64 (2 ^ o) * pageSize) = BitVec.ofNat 64 o := by
  have hPow : 2 ^ o ≤ 2 ^ 51 := Nat.pow_le_pow_right (by decide) ho
  have hPos : 0 < 2 ^ o := Nat.pow_pos (by decide)
  have hMul : (BitVec.ofNat 64 (2 ^ o) * pageSize).toNat = 2 ^ o * 4096 := by
    rw [BitVec.toNat_mul, BitVec.toNat_ofNat, pageSize, BitVec.toNat_ofNat]
    omega
  have hNe : BitVec.ofNat 64 (2 ^ o) * pageSize ≠ 0#64 := by
    intro h
    have := congrArg BitVec.toNat h
    rw [hMul] at this
    simp at this
  have hPages : ((BitVec.ofNat 64 (2 ^ o) * pageSize + pageSize - 1#64) >>> pageShift
      - 1#64).toNat = 2 ^ o - 1 := by
    rw [BitVec.toNat_sub, BitVec.toNat_ushiftRight, BitVec.toNat_sub, BitVec.toNat_add, hMul,
      Nat.shiftRight_eq_div_pow]
    simp only [pageSize, pageShift, BitVec.toNat_ofNat]
    omega
  have hSize : Nat.size (2 ^ o - 1) = o := by
    cases o with
    | zero => rfl
    | succ k =>
        have hk : 0 < 2 ^ k := Nat.pow_pos (by decide)
        apply le_antisymm
        · rw [Nat.size_le]
          omega
        · have : k < Nat.size (2 ^ (k + 1) - 1) := Nat.lt_size.mpr (by rw [Nat.pow_succ]; omega)
          omega
  unfold sizeToOrder
  rw [if_neg hNe]
  simp only
  rw [fls_eq_size, hPages, hSize]

theorem sizeToOrder_orderToPages {order : U64} (h : order.toNat ≤ 51) :
    sizeToOrder (orderToPages order * pageSize) = order := by
  have hPages : orderToPages order = BitVec.ofNat 64 (2 ^ order.toNat) := by
    apply BitVec.eq_of_toNat_eq
    have hPow : 2 ^ order.toNat < 2 ^ 64 := Nat.pow_lt_pow_right (by decide) (by omega)
    rw [orderToPages_toNat (by omega), BitVec.toNat_ofNat, Nat.mod_eq_of_lt hPow]
  rw [hPages, sizeToOrder_pages h, BitVec.ofNat_toNat, BitVec.setWidth_eq]

/-- `size_to_order` of a number of pages: the block is large enough, and not more than twice as large
as it has to be. -/
theorem sizeToOrder_toNat {size : U64} {c : Nat} (hSize : size.toNat = c * 4096) (hPos : 0 < c)
    (hSmall : c < 2 ^ 31) : (sizeToOrder size).toNat = Nat.size (c - 1) := by
  have hNe : size ≠ 0#64 := by
    rintro rfl
    rw [BitVec.toNat_zero] at hSize
    omega
  have hPages : ((size + pageSize - 1#64) >>> pageShift - 1#64).toNat = c - 1 := by
    rw [BitVec.toNat_sub, BitVec.toNat_ushiftRight, BitVec.toNat_sub, BitVec.toNat_add, hSize,
      Nat.shiftRight_eq_div_pow]
    simp only [pageSize, pageShift, BitVec.toNat_ofNat]
    omega
  have hLe : Nat.size (c - 1) ≤ 31 := Nat.size_le.mpr (by omega)
  unfold sizeToOrder
  rw [if_neg hNe]
  simp only
  rw [fls_eq_size, hPages, BitVec.toNat_ofNat]
  omega

/-- What fits in one page has order 0. -/
theorem sizeToOrder_one_page {size : U64} (hPos : 0 < size.toNat) (hLe : size.toNat ≤ 4096) :
    sizeToOrder size = 0#64 := by
  have hNe : size ≠ 0#64 := by
    rintro rfl
    exact absurd hPos (by decide)
  have hPages : ((size + pageSize - 1#64) >>> pageShift - 1#64).toNat = 0 := by
    rw [BitVec.toNat_sub, BitVec.toNat_ushiftRight, BitVec.toNat_sub, BitVec.toNat_add,
      Nat.shiftRight_eq_div_pow]
    simp only [pageSize, pageShift, BitVec.toNat_ofNat]
    omega
  unfold sizeToOrder
  rw [if_neg hNe]
  simp only
  rw [fls_eq_size, hPages]
  rfl

/-! ## One allocation, one release -/

variable {bmp : Bitmap}

/-- `alloc_pages` is first fit over the whole bitmap: it returns the least run of `2 ^ order` clear
frames and sets exactly those bits, or fails with `-1` and changes nothing. -/
theorem allocPages_cases (bmp : Bitmap) (hSize : bmp.size.toNat < 2 ^ 31) (order : U64)
    (hOrder : 2 ^ order.toNat ≤ bmp.size.toNat) :
    (∃ (p : Nat) (pa : U64) (bmp' : Bitmap), allocPages bmp order = some (pa, bmp') ∧
        pa.toNat = p * 4096 ∧ p + 2 ^ order.toNat ≤ bmp.size.toNat ∧
        RangeFree bmp p (2 ^ order.toNat) ∧
        (∀ k, k < p → ¬ RangeFree bmp k (2 ^ order.toNat)) ∧
        bmp'.size = bmp.size ∧
        ∀ k, bmp'.bit k = (bmp.bit k || decide (p ≤ k ∧ k < p + 2 ^ order.toNat))) ∨
      ((∀ k, k + 2 ^ order.toNat ≤ bmp.size.toNat → ¬ RangeFree bmp k (2 ^ order.toNat)) ∧
        allocPages bmp order = some (sizeOfInt (-1), bmp)) := by
  have hLt := order_lt_of_pow_le hOrder hSize
  have hPos : 0 < 2 ^ order.toNat := Nat.pow_pos (by decide)
  have hCount := orderToPages_toNat (show order.toNat < 64 by omega)
  -- where the scan starts, nothing fits below
  have hStart : ∃ start : U64, sizeOfInt (bitmapFindFirstZero bmp 0#64) = start ∧
      ∀ k, k < start.toNat → k < bmp.size.toNat → bmp.bit k = true := by
    refine ⟨_, rfl, ?_⟩
    rcases bitmapFindFirstZero_cases bmp 0#64 hSize with
      ⟨p, -, hp, -, hBelow, hEq⟩ | ⟨hFull, hEq⟩
    · rw [hEq, sizeOfInt_natCast_toNat (by omega)]
      intro k hk _
      exact hBelow k (by simp) hk
    · intro k _ hk
      exact hFull k (by simp) hk
  obtain ⟨start, hStartEq, hBelow⟩ := hStart
  have hNoFit : ∀ k, k < start.toNat → k + 2 ^ order.toNat ≤ bmp.size.toNat →
      ¬ RangeFree bmp k (2 ^ order.toNat) := by
    intro k hk hkn hFree
    have h1 := hFree k (le_refl k) (by omega)
    have h2 := hBelow k hk (by omega)
    rw [h1] at h2
    exact Bool.noConfusion h2
  unfold allocPages
  simp only [hStartEq]
  rcases bitmapAllocRange_cases bmp (orderToPages order) start (by omega) (by omega) with
    ⟨p, hsp, hp, hFree, hLeast, hEq⟩ | ⟨hNone, hEq⟩
  · left
    rw [hCount] at hp hFree hLeast
    have hInt : intOfSize p = p.toNat := intOfSize_of_lt (by omega)
    have hPa : (sizeOfInt (p.toNat : Int)).toNat = p.toNat := sizeOfInt_natCast_toNat (by omega)
    refine ⟨p.toNat, sizeOfInt (p.toNat : Int) * pageSize,
      bitmapSetRun bmp p (2 ^ order.toNat), ?_, ?_, hp, hFree, ?_, ?_, ?_⟩
    · rw [hEq, hCount]
      simp only [hInt, show ¬ ((p.toNat : Int) < 0) by omega, if_false]
    · rw [BitVec.toNat_mul, hPa, pageSize, BitVec.toNat_ofNat]
      omega
    · intro k hk
      by_cases hks : k < start.toNat
      · exact hNoFit k hks (by omega)
      · exact hLeast k (by omega) hk
    · rw [bitmapSetRun_size]
    · intro k
      rw [bitmapSetRun_bit bmp p (2 ^ order.toNat) k (by omega)]
      congr 1
      rw [decide_eq_decide]
      omega
  · right
    rw [hCount] at hNone
    constructor
    · intro k hk
      by_cases hks : k < start.toNat
      · exact hNoFit k hks hk
      · exact hNone k (by omega) hk
    · rw [hEq]
      rfl

/-- The scan of `bitmap_alloc_range` returns an `int` and a bitmap of the same size. -/
theorem bitmapAllocRangeFrom_bounds (count : U64) :
    ∀ (fuel : Nat) (i : U64) (ret : Int) (bmp' : Bitmap),
      bitmapAllocRangeFrom bmp count fuel i = some (ret, bmp') →
        -2 ^ 31 ≤ ret ∧ ret < 2 ^ 31 ∧ bmp'.size = bmp.size := by
  intro fuel
  induction fuel with
  | zero =>
      intro i ret bmp' h
      cases h
  | succ fuel ih =>
      intro i ret bmp' h
      rw [bitmapAllocRangeFrom] at h
      split at h
      · split at h
        · cases h
          have hInt := BitVec.toInt_lt (x := i.setWidth 32)
          have hInt' := BitVec.le_toInt (i.setWidth 32)
          simp only [intOfSize]
          exact ⟨by omega, by omega, bitmapSetRun_size _ _ _⟩
        · exact ih _ _ _ h
      · cases h
        exact ⟨by omega, by omega, rfl⟩

theorem bitmapAllocRange_bounds {count start : U64} {ret : Int} {bmp' : Bitmap}
    (h : bitmapAllocRange bmp count start = some (ret, bmp')) :
    -2 ^ 31 ≤ ret ∧ ret < 2 ^ 31 ∧ bmp'.size = bmp.size := by
  unfold bitmapAllocRange at h
  split at h
  · cases h
    exact ⟨by omega, by omega, rfl⟩
  · exact bitmapAllocRangeFrom_bounds _ _ _ _ _ h

theorem allocPages_size {order pa : U64} {bmp' : Bitmap}
    (h : allocPages bmp order = some (pa, bmp')) : bmp'.size = bmp.size := by
  unfold allocPages at h
  simp only at h
  split at h
  · cases h
  · rename_i ret bmp'' hRange
    have hSize := (bitmapAllocRange_bounds hRange).2.2
    split at h
    · cases h
      exact hSize
    · cases h
      exact hSize

/-- An address that is not a failure is page aligned and below `2 ^ 43`, whatever the bitmap. -/
theorem allocPages_aligned {order pa : U64} {bmp' : Bitmap}
    (h : allocPages bmp order = some (pa, bmp')) (hOk : ¬ pa.toInt < 0) :
    pa.toNat % 4096 = 0 ∧ pa.toNat < 2 ^ 43 := by
  unfold allocPages at h
  simp only at h
  split at h
  · cases h
  · rename_i ret bmp'' hRange
    have hBounds := bitmapAllocRange_bounds hRange
    split at h
    · rename_i hNeg
      cases h
      exfalso
      apply hOk
      rw [sizeOfInt, BitVec.toInt_ofInt, Int.bmod_eq_of_le (by omega) (by omega)]
      exact hNeg
    · rename_i hPos
      obtain ⟨k, rfl⟩ := Int.eq_ofNat_of_zero_le (not_lt.mp hPos)
      cases h
      have hk : (sizeOfInt (k : Int)).toNat = k := sizeOfInt_natCast_toNat (by omega)
      rw [BitVec.toNat_mul, hk, pageSize, BitVec.toNat_ofNat]
      omega

/-- `alloc_page()` returns for every bitmap, the empty one included. -/
theorem allocPages_zero_isSome (bmp : Bitmap) :
    ∃ pa bmp', allocPages bmp 0#64 = some (pa, bmp') := by
  have hRange : ∀ start, ∃ ret bmp', bitmapAllocRange bmp (orderToPages 0#64) start =
      some (ret, bmp') := by
    intro start
    by_cases hSize : 1 ≤ bmp.size.toNat
    · rcases bitmapAllocRange_cases bmp (orderToPages 0#64) start (by decide) hSize with
        ⟨p, -, -, -, -, hEq⟩ | ⟨-, hEq⟩
      · exact ⟨_, _, hEq⟩
      · exact ⟨_, _, hEq⟩
    · -- no bits at all: every position counts as clear, the bound wraps to the largest number
      have hZero : bmp.size = 0#64 := BitVec.eq_of_toNat_eq (by simp; omega)
      have hClear : bitmapRangeClear bmp start (orderToPages 0#64) = true := by
        rw [bitmapRangeClear, List.all_eq_true]
        intro j _
        rw [bitmapTest_eq_bit, Bitmap.bit_of_ge bmp (by rw [hZero]; exact Nat.zero_le _)]
        rfl
      have hBound : start ≤ bmp.size - orderToPages 0#64 := by
        rw [hZero, BitVec.le_def]
        have := start.isLt
        have : (0#64 - orderToPages 0#64).toNat = 2 ^ 64 - 1 := by decide
        omega
      refine ⟨intOfSize start, bitmapSetRun bmp start (orderToPages 0#64).toNat, ?_⟩
      unfold bitmapAllocRange
      rw [if_neg (by decide), show (2 : Nat) ^ 64 = (2 ^ 64 - 1) + 1 by decide,
        bitmapAllocRangeFrom, if_pos hBound, if_pos hClear]
  obtain ⟨ret, bmp', hEq⟩ := hRange (sizeOfInt (bitmapFindFirstZero bmp 0#64))
  unfold allocPages
  simp only [hEq]
  split
  · exact ⟨_, _, rfl⟩
  · exact ⟨_, _, rfl⟩

/-- `free_pages` clears exactly the frames of the block. -/
theorem freePages_bit {pa order : U64} (hOrder : order.toNat < 64)
    (hEnd : pa.toNat / 4096 + 2 ^ order.toNat ≤ 2 ^ 64) (k : Nat) :
    (freePages bmp pa order).bit k =
      (bmp.bit k && decide (¬ (pa.toNat / 4096 ≤ k ∧
        k < pa.toNat / 4096 + 2 ^ order.toNat))) := by
  have hFrame : (pa >>> pageShift).toNat = pa.toNat / 4096 := by
    simp [pageShift, Nat.shiftRight_eq_div_pow]
  have hCount := orderToPages_toNat hOrder
  unfold freePages
  rw [bitmapFreeRange_bit _ _ _ _ (by rw [hFrame, hCount]; exact hEnd), hFrame, hCount]

@[simp] theorem freePages_size (pa order : U64) : (freePages bmp pa order).size = bmp.size :=
  bitmapFreeRange_size _ _ _

end Rayos
