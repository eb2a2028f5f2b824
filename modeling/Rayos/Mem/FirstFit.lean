import Mathlib.Order.Bounds.Basic
import Rayos.Mem.PageAlloc

/-!
# First fit

`bitmap_alloc_range` returns the least position from `start` on at which the run fits.  `alloc_pages`
starts the scan at the first clear bit, which is an `int` and `-1` for a full bitmap; no run fits before
that bit, so the scan finds what a scan from the first bit on finds.
-/

namespace Rayos

/-- A run of `count` clear bits at `i`, from `start` on and within the bitmap. -/
def Fits (bmp : Bitmap) (count start i : Nat) : Prop :=
  start ≤ i ∧ i + count ≤ bmp.size.toNat ∧ RangeFree bmp i count

variable (bmp : Bitmap)

/-- `bitmap_alloc_range` takes the least run that fits, and exactly its bits, or changes nothing. -/
theorem bitmapAllocRange_firstFit (count start : U64) (hSize : bmp.size.toNat < 2 ^ 31)
    (hPos : 1 ≤ count.toNat) (hLe : count.toNat ≤ bmp.size.toNat) :
    ((∃ i, Fits bmp count.toNat start.toNat i) →
      ∃ i bmp', IsLeast {j | Fits bmp count.toNat start.toNat j} i ∧
        bitmapAllocRange bmp count start = some ((i : Int), bmp') ∧ bmp'.size = bmp.size ∧
        ∀ k, bmp'.bit k = (bmp.bit k || decide (i ≤ k ∧ k < i + count.toNat))) ∧
      ((¬ ∃ i, Fits bmp count.toNat start.toNat i) →
        bitmapAllocRange bmp count start = some (-1, bmp)) := by
  rcases bitmapAllocRange_cases bmp count start hPos hLe with
    ⟨p, hStart, hEnd, hFree, hLeast, hEq⟩ | ⟨hNone, hEq⟩
  · have hFits : Fits bmp count.toNat start.toNat p.toNat := ⟨hStart, hEnd, hFree⟩
    refine ⟨fun _ => ⟨p.toNat, bitmapSetRun bmp p count.toNat, ⟨hFits, ?_⟩, ?_, ?_, ?_⟩,
      fun hNo => absurd ⟨p.toNat, hFits⟩ hNo⟩
    · intro i hi
      by_contra hLt
      exact hLeast i hi.1 (Nat.lt_of_not_le hLt) hi.2.2
    · rw [hEq, intOfSize_of_lt (by omega)]
    · exact bitmapSetRun_size _ _ _
    · intro k
      rw [bitmapSetRun_bit bmp p count.toNat k (by omega)]
      congr 1
      rw [decide_eq_decide]
      omega
  · refine ⟨?_, fun _ => hEq⟩
    rintro ⟨i, hi⟩
    exact absurd hi.2.2 (hNone i hi.1 hi.2.1)

/-- Four clear bits from the third bit on, in a bitmap of eight bits with two bits set. -/
theorem bitmapAllocRange_firstFit_small :
    ∃ i bmp', IsLeast {j | Fits ⟨8#64, [0x09#64], by decide⟩ 4 2 j} i ∧
      bitmapAllocRange ⟨8#64, [0x09#64], by decide⟩ 4#64 2#64 = some ((i : Int), bmp') := by
  have hFits : Fits ⟨8#64, [0x09#64], by decide⟩ 4 2 4 := by
    refine ⟨by decide, by decide, fun k hk hk' => ?_⟩
    interval_cases k <;> decide
  obtain ⟨i, bmp', hLeast, hEq, -⟩ := (bitmapAllocRange_firstFit ⟨8#64, [0x09#64], by decide⟩ 4#64 2#64
    (by decide) (by decide) (by decide)).1 ⟨4, hFits⟩
  exact ⟨i, bmp', hLeast, hEq⟩

/-- `alloc_pages` without the shortcut: `bitmap_alloc_range` scans from the first bit on. -/
def allocPagesScan (order : U64) : Option (U64 × Bitmap) :=
  match bitmapAllocRange bmp (BitVec.ofNat 64 (2 ^ order.toNat)) 0#64 with
  | none => none
  | some (ret, bmp') =>
      if ret < 0 then some (sizeOfInt ret, bmp') else some (sizeOfInt ret * pageSize, bmp')

/-- Nothing fits before the first clear bit, where `alloc_pages` starts; a full bitmap has `-1` there. -/
theorem not_fits_before {count i : Nat} (hSize : bmp.size.toNat < 2 ^ 31) (hPos : 0 < count)
    (hi : i < (sizeOfInt (bitmapFindFirstZero bmp 0#64)).toNat) : ¬ Fits bmp count 0 i := by
  rintro ⟨-, hEnd, hFree⟩
  have hClear := hFree i le_rfl (by omega)
  have hSet : bmp.bit i = true := by
    rcases bitmapFindFirstZero_cases bmp 0#64 hSize with ⟨p, -, hp, -, hBelow, hEq⟩ | ⟨hFull, -⟩
    · rw [hEq, sizeOfInt_natCast_toNat (by omega)] at hi
      exact hBelow i (Nat.zero_le _) hi
    · exact hFull i (Nat.zero_le _) (by omega)
  rw [hClear] at hSet
  exact Bool.noConfusion hSet

/-- A scan finds the same from any position before which nothing fits. -/
theorem bitmapAllocRange_start {count start : U64} (hPos : 1 ≤ count.toNat)
    (hLe : count.toNat ≤ bmp.size.toNat) (hBefore : ∀ i, i < start.toNat → ¬ Fits bmp count.toNat 0 i) :
    bitmapAllocRange bmp count start = bitmapAllocRange bmp count 0#64 := by
  have hLow : ∀ i, i + count.toNat ≤ bmp.size.toNat → RangeFree bmp i count.toNat →
      start.toNat ≤ i := by
    intro i hEnd hFree
    by_contra hLt
    exact hBefore i (Nat.lt_of_not_le hLt) ⟨Nat.zero_le _, hEnd, hFree⟩
  rcases bitmapAllocRange_cases bmp count start hPos hLe with
    ⟨p, hStart, hEnd, hFree, hLeast, hEq⟩ | ⟨hNone, hEq⟩
  · rcases bitmapAllocRange_cases bmp count 0#64 hPos hLe with
      ⟨q, -, hEnd', hFree', hLeast', hEq'⟩ | ⟨hNone', -⟩
    · -- both are the least run
      have hSame : p.toNat = q.toNat := by
        rcases Nat.lt_trichotomy p.toNat q.toNat with hLt | hSame | hGt
        · exact absurd hFree (hLeast' p.toNat (Nat.zero_le _) hLt)
        · exact hSame
        · exact absurd hFree' (hLeast q.toNat (hLow q.toNat hEnd' hFree') hGt)
      rw [hEq, hEq', BitVec.eq_of_toNat_eq hSame]
    · exact absurd hFree (hNone' p.toNat (Nat.zero_le _) hEnd)
  · rcases bitmapAllocRange_cases bmp count 0#64 hPos hLe with
      ⟨q, -, hEnd', hFree', -, -⟩ | ⟨-, hEq'⟩
    · exact absurd hFree' (hNone q.toNat (hLow q.toNat hEnd' hFree') hEnd')
    · rw [hEq, hEq']

/-- The shortcut of `alloc_pages` is exact, on a full bitmap too. -/
theorem allocPages_eq_scan (order : U64) (hSize : bmp.size.toNat < 2 ^ 31)
    (hOrder : 2 ^ order.toNat ≤ bmp.size.toNat) : allocPages bmp order = allocPagesScan bmp order := by
  have hLt := order_lt_of_pow_le hOrder hSize
  have hPos : 0 < 2 ^ order.toNat := Nat.pow_pos (by decide)
  have hPages := orderToPages_toNat (show order.toNat < 64 by omega)
  have hCount : orderToPages order = BitVec.ofNat 64 (2 ^ order.toNat) := by
    apply BitVec.eq_of_toNat_eq
    rw [hPages, BitVec.toNat_ofNat, Nat.mod_eq_of_lt (by omega)]
  have hScan : bitmapAllocRange bmp (orderToPages order) (sizeOfInt (bitmapFindFirstZero bmp 0#64)) =
      bitmapAllocRange bmp (orderToPages order) 0#64 :=
    bitmapAllocRange_start bmp (by omega) (by omega)
      fun i hi => not_fits_before bmp hSize (by omega) hi
  rw [hCount] at hScan
  unfold allocPages allocPagesScan
  cases hFound : bitmapAllocRange bmp (BitVec.ofNat 64 (2 ^ order.toNat)) 0#64 with
  | none => simp only [hCount, hScan, hFound]
  | some found => simp only [hCount, hScan, hFound]

/-- A full bitmap of four frames, where the scan starts at `2 ^ 64 - 1`. -/
theorem allocPages_eq_scan_full :
    allocPages ⟨4#64, [0x0f#64], by decide⟩ 1#64 = allocPagesScan ⟨4#64, [0x0f#64], by decide⟩ 1#64 :=
  allocPages_eq_scan _ 1#64 (by decide) (by decide)

end Rayos
