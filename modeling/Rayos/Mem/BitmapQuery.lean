import Rayos.Lib.LowestBit
import Rayos.Mem.BitmapSpec
import Mathlib.Order.Bounds.Basic

/-!
# What the searches and the count of `bitmap.c` return

The searches skip whole words, begin inside the first one and end inside the last one; the count clears the
lowest set bit of a word until none is left, and masks the last word.  Neither looks at what the last word holds
behind the end of the bitmap.

* `bitmapFindFirst_least` — the searches find the least position, or nothing;
* `bitmapCountSet_exact` — the count, and the percentage that is made of it.
-/

namespace Rayos

open LowestBit

/-! ## Searching -/

/-- The positions from `start` on that `bitmap_test` answers with `want`. -/
def Positions (bmp : Bitmap) (want : Bool) (start : Nat) : Set Nat :=
  {b | start ≤ b ∧ b < bmp.size.toNat ∧ bitmapTest bmp (BitVec.ofNat 64 b) = want}

/-- What a search should return: the least element, and `-1` if there is none. -/
def FindsLeast (s : Set Nat) (ret : Int) : Prop := (∃ p : Nat, IsLeast s p ∧ ret = p) ∨ s = ∅ ∧ ret = -1

theorem bitmapTest_ofNat (bmp : Bitmap) {b : Nat} (hb : b < bmp.size.toNat) :
    bitmapTest bmp (BitVec.ofNat 64 b) = bmp.bit b := by
  have hLt := bmp.size.isLt
  rw [bitmapTest_eq_bit, BitVec.toNat_ofNat, Nat.mod_eq_of_lt (by omega)]

theorem bitmapFindFirst_findsLeast (bmp : Bitmap) (want : Bool) (skip start : U64)
    (hSkip : ∀ j, j < 64 → skip.getLsbD j = !want) (hSize : bmp.size.toNat < 2 ^ 31) :
    FindsLeast (Positions bmp want start.toNat) (bitmapFindFirst want skip bmp start) := by
  rcases bitmapFindFirst_cases bmp want skip start hSkip hSize with
    ⟨p, hStart, hEnd, hBit, hBefore, hRet⟩ | ⟨hNone, hRet⟩
  · left
    refine ⟨p, ⟨⟨hStart, hEnd, ?_⟩, ?_⟩, hRet⟩
    · rw [bitmapTest_ofNat bmp hEnd]
      exact hBit
    · rintro b ⟨hFrom, hTo, hTest⟩
      rw [bitmapTest_ofNat bmp hTo] at hTest
      by_contra hLess
      exact hBefore b hFrom (by omega) hTest
  · right
    refine ⟨?_, hRet⟩
    ext b
    constructor
    · rintro ⟨hFrom, hTo, hTest⟩
      rw [bitmapTest_ofNat bmp hTo] at hTest
      exact absurd hTest (hNone b hFrom hTo)
    · intro hIn
      exact absurd hIn (Set.notMem_empty b)

/-- **The searches are exact.**  Each returns the least position of its kind from `start` on, and `-1` if there
is none. -/
theorem bitmapFindFirst_least (bmp : Bitmap) (start : U64) (hSize : bmp.size.toNat < 2 ^ 31) :
    FindsLeast (Positions bmp false start.toNat) (bitmapFindFirstZero bmp start) ∧
      FindsLeast (Positions bmp true start.toNat) (bitmapFindFirstSet bmp start) := by
  constructor
  · apply bitmapFindFirst_findsLeast bmp false _ start _ hSize
    intro j hj
    rw [BitVec.getLsbD_allOnes, decide_eq_true hj]
    rfl
  · apply bitmapFindFirst_findsLeast bmp true _ start _ hSize
    intro j _
    exact BitVec.getLsbD_zero

/-- 70 bits of which the first 66 are set; the last word has more bits set behind the end. -/
def strayBitmap : Bitmap where
  size := 70#64
  map := [BitVec.allOnes 64, 0xfffffffffffffc3#64]
  map_length := by decide

/-- The first clear bit is in the last word. -/
theorem bitmapFindFirst_least_stray :
    FindsLeast (Positions strayBitmap false (3#64).toNat) 66 ∧
      FindsLeast (Positions strayBitmap true (66#64).toNat) (-1) :=
  ⟨(bitmapFindFirst_least strayBitmap 3#64 (by decide)).1, (bitmapFindFirst_least strayBitmap 66#64 (by decide)).2⟩

/-! ## Counting -/

/-- The inner loop of `bitmap_count_set`: the lowest set bit is cleared until the word is zero; `none` is a loop
that has not ended yet. -/
def bitmapCountWord : Nat → U64 → U64 → Option U64
  | 0, _, _ => none
  | fuel + 1, word, count =>
      if word = 0#64 then some count
      else bitmapCountWord fuel (word &&& (word - 1#64)) (count + 1#64)

/-- The word that is counted: the last one is masked when the size is not a multiple of 64. -/
def bitmapValidWord (bmp : Bitmap) (i : U64) : U64 :=
  let totalWords := (bmp.size + 63#64) / 64#64
  let word := bmp.word i.toNat
  if i = totalWords - 1#64 ∧ bmp.size % 64#64 ≠ 0#64 then
    let validBits := bmp.size % 64#64
    let mask := (1#64 <<< validBits.toNat) - 1#64
    word &&& mask
  else word

/-- The loop over the words `i, i + 1, …`. -/
def bitmapCountFrom (fuel : Nat) (bmp : Bitmap) : Nat → U64 → U64 → Option U64
  | 0, _, count => some count
  | n + 1, i, count =>
      match bitmapCountWord fuel (bitmapValidWord bmp i) count with
      | none => none
      | some count => bitmapCountFrom fuel bmp n (i + 1#64) count

/-- `bitmap_count_set`. -/
def bitmapCountSet (fuel : Nat) (bmp : Bitmap) : Option U64 :=
  bitmapCountFrom fuel bmp ((bmp.size + 63#64) / 64#64).toNat 0#64 0#64

/-- `bitmap_usage_percent`; a division by zero is a trap, and so no result. -/
def bitmapUsagePercent (fuel : Nat) (bmp : Bitmap) : Option Int :=
  let total := bmp.size
  match bitmapCountSet fuel bmp with
  | none => none
  | some used => if total = 0#64 then none else some (intOfSize (used * 100#64 / total))

/-- `memused`. -/
def memused (fuel : Nat) (pageAllocBitmap : Bitmap) : Option U64 :=
  (bitmapCountSet fuel pageAllocBitmap).map (· * 4096#64)

/-- `memused_percent`. -/
def memusedPercent (fuel : Nat) (pageAllocBitmap : Bitmap) : Option U64 :=
  (bitmapUsagePercent fuel pageAllocBitmap).map sizeOfInt

/-- A round for each set bit, and one to see that none is left. -/
theorem bitmapCountWord_eq {k : Nat} : ∀ {fuel : Nat} {word : U64} (count : U64), bitCount word = k → k < fuel →
    bitmapCountWord fuel word count = some (count + BitVec.ofNat 64 k) := by
  induction k with
  | zero =>
      intro fuel word count hCount hFuel
      obtain ⟨fuel, rfl⟩ := Nat.exists_eq_succ_of_ne_zero (Nat.ne_of_gt hFuel)
      have hZero : word = 0#64 := by
        by_contra hNe
        rw [bitCount_and_sub_one hNe] at hCount
        cases hCount
      rw [bitmapCountWord, if_pos hZero, BitVec.add_zero]
  | succ k ih =>
      intro fuel word count hCount hFuel
      obtain ⟨fuel, rfl⟩ := Nat.exists_eq_succ_of_ne_zero (Nat.ne_of_gt (Nat.zero_lt_of_lt hFuel))
      have hNe : word ≠ 0#64 := by
        intro hZero
        rw [hZero, bitCount_zero] at hCount
        cases hCount
      have hRest : bitCount (word &&& (word - 1#64)) = k := by
        have hLess := bitCount_and_sub_one hNe
        omega
      rw [bitmapCountWord, if_neg hNe, ih (count + 1#64) hRest (by omega), BitVec.add_assoc,
        Nat.add_comm k 1, BitVec.ofNat_add]

section Count

variable {bmp : Bitmap}

theorem totalWords_toNat (hSize : bmp.size.toNat < 2 ^ 57) :
    ((bmp.size + 63#64) / 64#64).toNat = (bmp.size.toNat + 63) / 64 := by
  rw [BitVec.toNat_udiv, BitVec.toNat_add, BitVec.toNat_ofNat, BitVec.toNat_ofNat, Nat.mod_eq_of_lt (by omega),
    Nat.mod_eq_of_lt (by decide), Nat.mod_eq_of_lt (by decide)]

/-- The bits of the word that is counted are the bits of the bitmap. -/
theorem bitmapValidWord_bit (hSize : bmp.size.toNat < 2 ^ 57) {i : U64} (hi : i.toNat < (bmp.size.toNat + 63) / 64)
    {j : Nat} (hj : j < 64) : (bitmapValidWord bmp i).getLsbD j = bmp.bit (i.toNat * 64 + j) := by
  have hWords := totalWords_toNat hSize
  have hLast : i = (bmp.size + 63#64) / 64#64 - 1#64 ↔ i.toNat + 1 = (bmp.size.toNat + 63) / 64 := by
    rw [← BitVec.toNat_inj, BitVec.toNat_sub, hWords, BitVec.toNat_ofNat]
    omega
  have hValid : (bmp.size % 64#64).toNat = bmp.size.toNat % 64 := by
    rw [BitVec.toNat_umod]
    rfl
  have hFull : bmp.size % 64#64 ≠ 0#64 ↔ bmp.size.toNat % 64 ≠ 0 := by
    rw [Ne, ← BitVec.toNat_inj, hValid]
    rfl
  have hDiv : (i.toNat * 64 + j) / 64 = i.toNat := by omega
  have hMod : (i.toNat * 64 + j) % 64 = j := by omega
  unfold bitmapValidWord Bitmap.bit
  simp only [hLast, hFull, hDiv, hMod]
  by_cases hPartial : i.toNat + 1 = (bmp.size.toNat + 63) / 64 ∧ bmp.size.toNat % 64 ≠ 0
  · -- the mask has the bits that the last word has of the bitmap
    have hMask : ((1#64 <<< (bmp.size % 64#64).toNat) - 1#64).toNat = 2 ^ (bmp.size.toNat % 64) - 1 := by
      rw [hValid]
      have hPow : 2 ^ (bmp.size.toNat % 64) < 2 ^ 64 := Nat.pow_lt_pow_right (by decide) (by omega)
      have hPos := Nat.two_pow_pos (bmp.size.toNat % 64)
      have hOne : (1#64 <<< (bmp.size.toNat % 64)).toNat = 2 ^ (bmp.size.toNat % 64) := by
        rw [BitVec.toNat_shiftLeft, Nat.shiftLeft_eq, BitVec.toNat_ofNat]
        simp only [Nat.reducePow, Nat.one_mod, Nat.one_mul] at hPow ⊢
        exact Nat.mod_eq_of_lt hPow
      rw [BitVec.toNat_sub_of_le (by rw [BitVec.le_def, hOne]; exact hPos), hOne]
      rfl
    rw [if_pos hPartial, BitVec.getLsbD_and, BitVec.getLsbD, BitVec.getLsbD, hMask, Nat.testBit_two_pow_sub_one,
      Bool.and_comm]
    congr 1
    rw [decide_eq_decide]
    omega
  · have hIn : i.toNat * 64 + j < bmp.size.toNat := by omega
    rw [if_neg hPartial, decide_eq_true hIn, Bool.true_and]

theorem bitCount_validWord (hSize : bmp.size.toNat < 2 ^ 57) {i : U64}
    (hi : i.toNat < (bmp.size.toNat + 63) / 64) :
    bitCount (bitmapValidWord bmp i) = Nat.count (fun j => bmp.bit (i.toNat * 64 + j) = true) 64 := by
  unfold bitCount
  rw [Nat.count_eq_card_filter_range, Nat.count_eq_card_filter_range]
  congr 1
  apply Finset.filter_congr
  intro j hj
  rw [bitmapValidWord_bit hSize hi (Finset.mem_range.mp hj)]

/-- The words from `i` on. -/
theorem bitmapCountFrom_eq (hSize : bmp.size.toNat < 2 ^ 57) {fuel : Nat} (hFuel : 65 ≤ fuel) :
    ∀ (n : Nat) {i : U64} (count : U64), i.toNat + n = (bmp.size.toNat + 63) / 64 →
      bitmapCountFrom fuel bmp n i count =
        some (count + BitVec.ofNat 64 (Nat.count (fun k => bmp.bit (i.toNat * 64 + k) = true) (n * 64))) := by
  intro n
  induction n with
  | zero =>
      intro i count _
      rw [bitmapCountFrom, Nat.zero_mul, Nat.count_zero, BitVec.add_zero]
  | succ n ih =>
      intro i count hn
      have hNext : (i + 1#64).toNat = i.toNat + 1 := toNat_add_ofNat (j := 1) (by omega)
      have hWord := bitCount_validWord hSize (i := i) (by omega)
      have hLe : bitCount (bitmapValidWord bmp i) < fuel :=
        Nat.lt_of_le_of_lt (bitCount_le _) (by omega)
      have hSplit : Nat.count (fun k => bmp.bit (i.toNat * 64 + k) = true) ((n + 1) * 64) =
          Nat.count (fun k => bmp.bit (i.toNat * 64 + k) = true) 64 +
            Nat.count (fun k => bmp.bit ((i.toNat + 1) * 64 + k) = true) (n * 64) := by
        have hShift : ∀ k, (i.toNat + 1) * 64 + k = i.toNat * 64 + (64 + k) := by omega
        simp only [hShift]
        rw [show (n + 1) * 64 = 64 + n * 64 by omega, Nat.count_add]
      rw [bitmapCountFrom, bitmapCountWord_eq count rfl hLe]
      simp only
      rw [ih _ (by omega), hNext, hWord, hSplit, BitVec.ofNat_add, BitVec.add_assoc]

/-- Behind the end of the bitmap nothing is counted. -/
theorem count_words (bmp : Bitmap) : Nat.count (fun b => bmp.bit b = true) ((bmp.size.toNat + 63) / 64 * 64) =
    Nat.count (fun b => bmp.bit b = true) bmp.size.toNat := by
  obtain ⟨rest, hRest⟩ := Nat.exists_eq_add_of_le
    (show bmp.size.toNat ≤ (bmp.size.toNat + 63) / 64 * 64 by omega)
  have hNone : Nat.count (fun k => bmp.bit (bmp.size.toNat + k) = true) rest = 0 := by
    rw [Nat.count_iff_forall_not]
    intro k _
    rw [bmp.bit_of_ge (Nat.le_add_right _ _)]
    exact Bool.false_ne_true
  rw [hRest, Nat.count_add, hNone, Nat.add_zero]

end Count

/-- The number of positions that `bitmap_test` finds set. -/
def setBits (bmp : Bitmap) : Nat :=
  Nat.count (fun b => bitmapTest bmp (BitVec.ofNat 64 b) = true) bmp.size.toNat

theorem setBits_eq (bmp : Bitmap) : setBits bmp = Nat.count (fun b => bmp.bit b = true) bmp.size.toNat := by
  unfold setBits
  rw [Nat.count_eq_card_filter_range, Nat.count_eq_card_filter_range]
  congr 1
  apply Finset.filter_congr
  intro b hb
  rw [bitmapTest_ofNat bmp (Finset.mem_range.mp hb)]

theorem setBits_le (bmp : Bitmap) : setBits bmp ≤ bmp.size.toNat := Nat.count_le _

theorem bitmapCountSet_eq {bmp : Bitmap} (hSize : bmp.size.toNat < 2 ^ 57) {fuel : Nat} (hFuel : 65 ≤ fuel) :
    bitmapCountSet fuel bmp = some (BitVec.ofNat 64 (setBits bmp)) := by
  unfold bitmapCountSet
  rw [totalWords_toNat hSize, bitmapCountFrom_eq hSize hFuel _ _ (Nat.zero_add _), setBits_eq, ← count_words bmp]
  simp

theorem bitmapUsagePercent_eq {bmp : Bitmap} (hSize : bmp.size.toNat < 2 ^ 57) (hPos : 0 < bmp.size.toNat)
    {fuel : Nat} (hFuel : 65 ≤ fuel) :
    bitmapUsagePercent fuel bmp = some ((100 * setBits bmp / bmp.size.toNat : Nat) : Int) ∧
      100 * setBits bmp / bmp.size.toNat ≤ 100 := by
  have hLe := setBits_le bmp
  have hPercent : 100 * setBits bmp / bmp.size.toNat ≤ 100 := by
    apply Nat.div_le_of_le_mul
    rw [Nat.mul_comm]
    exact Nat.mul_le_mul_right 100 hLe
  have hQuotient : (BitVec.ofNat 64 (setBits bmp) * 100#64 / bmp.size).toNat =
      100 * setBits bmp / bmp.size.toNat := by
    have hUsed : (BitVec.ofNat 64 (setBits bmp) * 100#64).toNat = 100 * setBits bmp := by
      rw [BitVec.toNat_mul, BitVec.toNat_ofNat, BitVec.toNat_ofNat]
      omega
    rw [BitVec.toNat_udiv, hUsed]
  have hNe : bmp.size ≠ 0#64 := by
    intro hZero
    rw [hZero] at hPos
    exact absurd hPos (by decide)
  refine ⟨?_, hPercent⟩
  unfold bitmapUsagePercent
  rw [bitmapCountSet_eq hSize hFuel]
  simp only
  rw [if_neg hNe, intOfSize_of_lt (by rw [hQuotient]; omega), hQuotient]

/-- **The count is exact.**  `bitmap_count_set` returns the number of set positions, and `bitmap_usage_percent`
their percentage, rounded down and at most 100. -/
theorem bitmapCountSet_exact (bmp : Bitmap) (hSize : bmp.size.toNat < 2 ^ 57) :
    ∃ bound, ∀ fuel, bound ≤ fuel →
      (∃ count : U64, bitmapCountSet fuel bmp = some count ∧ count.toNat = setBits bmp) ∧
      (0 < bmp.size.toNat →
        bitmapUsagePercent fuel bmp = some ((100 * setBits bmp / bmp.size.toNat : Nat) : Int) ∧
          100 * setBits bmp / bmp.size.toNat ≤ 100) := by
  refine ⟨65, fun fuel hFuel => ⟨⟨_, bitmapCountSet_eq hSize hFuel, ?_⟩, fun hPos =>
    bitmapUsagePercent_eq hSize hPos hFuel⟩⟩
  have hLe := setBits_le bmp
  rw [BitVec.toNat_ofNat]
  omega

/-- 66 bits of 70 are set. -/
theorem bitmapCountSet_exact_stray : ∃ bound, ∀ fuel, bound ≤ fuel →
    (∃ count : U64, bitmapCountSet fuel strayBitmap = some count ∧ count.toNat = setBits strayBitmap) ∧
      bitmapUsagePercent fuel strayBitmap = some 94 := by
  obtain ⟨bound, hBound⟩ := bitmapCountSet_exact strayBitmap (by decide)
  refine ⟨bound, fun fuel hFuel => ⟨(hBound fuel hFuel).1, ?_⟩⟩
  have hPercent := ((hBound fuel hFuel).2 (by decide)).1
  have hBits : setBits strayBitmap = 66 := by decide
  rw [hBits] at hPercent
  exact hPercent

/-- `memused_percent` is the percentage as a `size_t`. -/
theorem memusedPercent_eq {bmp : Bitmap} (hSize : bmp.size.toNat < 2 ^ 57) (hPos : 0 < bmp.size.toNat)
    {fuel : Nat} (hFuel : 65 ≤ fuel) :
    memusedPercent fuel bmp = some (BitVec.ofNat 64 (100 * setBits bmp / bmp.size.toNat)) := by
  unfold memusedPercent
  rw [(bitmapUsagePercent_eq hSize hPos hFuel).1, Option.map_some, sizeOfInt, BitVec.ofInt_natCast]

end Rayos
