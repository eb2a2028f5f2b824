import Rayos.Machine.Word

/-!
# Word-packed bitmaps (`bitmap.c`)

A `bitmap_t` is a bit count and an array of 64-bit words.  The functions below follow `bitmap.c`
line by line: positions are `size_t` values, so sums of positions wrap at `2 ^ 64`, and the searches
return the `int` the source returns, `-1` for "not found".

The second half states what each operation does to the *set* of bits `Bitmap.bit`, and these
statements are all that the page allocator uses.
-/

namespace Rayos

/-- `bitmap_t`: `size` bits in `ceil(size / 64)` words. -/
structure Bitmap where
  /-- Number of bits. -/
  size : U64
  /-- The words the bits are packed into. -/
  map : List U64
  /-- The array holds exactly the words that `size` bits need. -/
  map_length : map.length = (size.toNat + 63) / 64
  deriving DecidableEq

namespace Bitmap

/-- `bmp->map[i]`. -/
def word (bmp : Bitmap) (i : Nat) : U64 := bmp.map.getD i 0#64

/-- `bmp->map[i] = w`. -/
def setWord (bmp : Bitmap) (i : Nat) (w : U64) : Bitmap where
  size := bmp.size
  map := bmp.map.set i w
  map_length := by rw [List.length_set, bmp.map_length]

/-- The set that a bitmap represents: bit `b`, for the `size` bits that count. -/
def bit (bmp : Bitmap) (b : Nat) : Bool :=
  decide (b < bmp.size.toNat) && (bmp.word (b / 64)).getLsbD (b % 64)

end Bitmap

/-- `bitmap_init`: every word is cleared. -/
def bitmapInit (numBits : U64) : Bitmap where
  size := numBits
  map := List.replicate ((numBits.toNat + 63) / 64) 0#64
  map_length := List.length_replicate

/-- `bitmap_set`. -/
def bitmapSet (bmp : Bitmap) (bit : U64) : Bitmap :=
  if bmp.size ≤ bit then bmp
  else
    let wordIdx := bit.toNat / 64
    let bitIdx := bit.toNat % 64
    bmp.setWord wordIdx (bmp.word wordIdx ||| (1#64 <<< bitIdx))

/-- `bitmap_clear`. -/
def bitmapClear (bmp : Bitmap) (bit : U64) : Bitmap :=
  if bmp.size ≤ bit then bmp
  else
    let wordIdx := bit.toNat / 64
    let bitIdx := bit.toNat % 64
    bmp.setWord wordIdx (bmp.word wordIdx &&& ~~~(1#64 <<< bitIdx))

/-- `bitmap_test`. -/
def bitmapTest (bmp : Bitmap) (bit : U64) : Bool :=
  if bmp.size ≤ bit then false
  else
    let wordIdx := bit.toNat / 64
    let bitIdx := bit.toNat % 64
    bmp.word wordIdx &&& (1#64 <<< bitIdx) != 0#64

/-- The inner loop of the two searches: positions `j, j + 1, …` of word `i`, left at the first
position past the end of the bitmap.  `want` is the bit value searched for. -/
def bitmapFindInWord (bmp : Bitmap) (want : Bool) (word i : U64) : Nat → Nat → Option U64
  | 0, _ => none
  | n + 1, j =>
      let bitPos := i * 64#64 + BitVec.ofNat 64 j
      if bmp.size ≤ bitPos then none
      else if (word &&& (1#64 <<< j) != 0#64) = want then some bitPos
      else bitmapFindInWord bmp want word i n (j + 1)

/-- The outer loop of the two searches over the words `i, i + 1, …`; a word equal to `skip` holds
no bit of the wanted value and is passed over whole. -/
def bitmapFindFrom (bmp : Bitmap) (want : Bool) (skip wordStart : U64) (bitStart : Nat) :
    Nat → U64 → Int
  | 0, _ => -1
  | n + 1, i =>
      let word := bmp.word i.toNat
      if word = skip then bitmapFindFrom bmp want skip wordStart bitStart n (i + 1#64)
      else
        let j := if i = wordStart then bitStart else 0
        match bitmapFindInWord bmp want word i (64 - j) j with
        | some bitPos => intOfSize bitPos
        | none => bitmapFindFrom bmp want skip wordStart bitStart n (i + 1#64)

/-- The search shared by `bitmap_find_first_zero` and `bitmap_find_first_set`. -/
def bitmapFindFirst (want : Bool) (skip : U64) (bmp : Bitmap) (start : U64) : Int :=
  let wordStart := start / 64#64
  let bitStart := start.toNat % 64
  bitmapFindFrom bmp want skip wordStart bitStart
    (((bmp.size + 63#64) / 64#64).toNat - wordStart.toNat) wordStart

/-- `bitmap_find_first_zero`: words equal to `UINT64_MAX` are skipped. -/
def bitmapFindFirstZero : Bitmap → U64 → Int :=
  bitmapFindFirst false (BitVec.allOnes 64)

/-- `bitmap_find_first_set`: words equal to zero are skipped. -/
def bitmapFindFirstSet : Bitmap → U64 → Int :=
  bitmapFindFirst true 0#64

/-- The checking loop of `bitmap_alloc_range`: are the `count` bits from `i` on all clear? -/
def bitmapRangeClear (bmp : Bitmap) (i count : U64) : Bool :=
  (List.range count.toNat).all fun j => !bitmapTest bmp (i + BitVec.ofNat 64 j)

/-- The setting loop of `bitmap_alloc_range`. -/
def bitmapSetRun (bmp : Bitmap) (i : U64) (count : Nat) : Bitmap :=
  (List.range count).foldl (fun acc j => bitmapSet acc (i + BitVec.ofNat 64 j)) bmp

/-- The scanning loop of `bitmap_alloc_range`.  The bound `size - count` is computed in `size_t`.
The counter takes at most `2 ^ 64` values, so a scan that is still running after that many rounds
never ends; this is the result `none`. -/
def bitmapAllocRangeFrom (bmp : Bitmap) (count : U64) : Nat → U64 → Option (Int × Bitmap)
  | 0, _ => none
  | fuel + 1, i =>
      if i ≤ bmp.size - count then
        if bitmapRangeClear bmp i count then
          some (intOfSize i, bitmapSetRun bmp i count.toNat)
        else bitmapAllocRangeFrom bmp count fuel (i + 1#64)
      else some (-1, bmp)

/-- `bitmap_alloc_range`. -/
def bitmapAllocRange (bmp : Bitmap) (count start : U64) : Option (Int × Bitmap) :=
  if count = 0#64 then some (-1, bmp)
  else bitmapAllocRangeFrom bmp count (2 ^ 64) start

/-- `bitmap_free_range`. -/
def bitmapFreeRange (bmp : Bitmap) (start count : U64) : Bitmap :=
  (List.range count.toNat).foldl
    (fun acc i =>
      let pos := start + BitVec.ofNat 64 i
      if pos < acc.size then bitmapClear acc pos else acc) bmp

/-- The loop of `bitmap_set_range`; it ends at the first position past the end of the bitmap. -/
def bitmapSetRangeFrom (start : U64) : Nat → U64 → Bitmap → Bitmap
  | 0, _, bmp => bmp
  | n + 1, i, bmp =>
      if start + i < bmp.size then
        bitmapSetRangeFrom start n (i + 1#64) (bitmapSet bmp (start + i))
      else bmp

/-- `bitmap_set_range`. -/
def bitmapSetRange (bmp : Bitmap) (start count : U64) : Bitmap :=
  bitmapSetRangeFrom start count.toNat 0#64 bmp

/-! ## What the operations do to the set of bits -/

section Bits

variable (bmp : Bitmap)

@[simp] theorem Bitmap.setWord_size (i : Nat) (w : U64) : (bmp.setWord i w).size = bmp.size := rfl

theorem Bitmap.word_setWord {i : Nat} (hi : i < bmp.map.length) (w : U64) (k : Nat) :
    (bmp.setWord i w).word k = if k = i then w else bmp.word k := by
  unfold Bitmap.word Bitmap.setWord
  simp only [List.getD_eq_getElem?_getD, List.getElem?_set]
  by_cases hki : k = i
  · subst hki
    simp [hi]
  · simp [hki, Ne.symm hki]

theorem Bitmap.bit_of_ge {b : Nat} (h : bmp.size.toNat ≤ b) : bmp.bit b = false := by
  simp [Bitmap.bit, Nat.not_lt.mpr h]

/-- The word of a bit below `size` is inside the array. -/
theorem Bitmap.word_index_lt {b : Nat} (hb : b < bmp.size.toNat) : b / 64 < bmp.map.length := by
  rw [bmp.map_length]
  omega

@[simp] theorem bitmapInit_size (n : U64) : (bitmapInit n).size = n := rfl

@[simp] theorem bitmapInit_bit (n : U64) (b : Nat) : (bitmapInit n).bit b = false := by
  unfold Bitmap.bit Bitmap.word bitmapInit
  by_cases h : b / 64 < (n.toNat + 63) / 64 <;> simp [List.getD_eq_getElem?_getD, h]

theorem bitmapTest_eq_bit (b : U64) : bitmapTest bmp b = bmp.bit b.toNat := by
  unfold bitmapTest Bitmap.bit
  by_cases h : bmp.size ≤ b
  · simp [h, Nat.not_lt.mpr (BitVec.le_def.mp h)]
  · have hlt : b.toNat < bmp.size.toNat := Nat.lt_of_not_le fun hle => h (BitVec.le_def.mpr hle)
    simp only [h, if_false, hlt, decide_true, Bool.true_and]
    rw [Bool.eq_iff_iff, bne_iff_ne, ne_eq,
      and_shiftLeft_one_eq_zero_iff _ (Nat.mod_lt _ (by decide))]
    simp

@[simp] theorem bitmapSet_size (b : U64) : (bitmapSet bmp b).size = bmp.size := by
  unfold bitmapSet
  split <;> simp

@[simp] theorem bitmapClear_size (b : U64) : (bitmapClear bmp b).size = bmp.size := by
  unfold bitmapClear
  split <;> simp

/-- Setting a bit adds it to the set, if it is one of the `size` bits. -/
theorem bitmapSet_bit (b : U64) (k : Nat) :
    (bitmapSet bmp b).bit k = (bmp.bit k || decide (k = b.toNat ∧ k < bmp.size.toNat)) := by
  unfold bitmapSet
  by_cases h : bmp.size ≤ b
  · have hle := BitVec.le_def.mp h
    have hne : ¬ (k = b.toNat ∧ k < bmp.size.toNat) := by omega
    simp [h, hne]
  · have hlt : b.toNat < bmp.size.toNat := Nat.lt_of_not_le fun hle => h (BitVec.le_def.mpr hle)
    simp only [h, if_false, Bitmap.bit, Bitmap.setWord_size,
      Bitmap.word_setWord bmp (bmp.word_index_lt hlt)]
    by_cases hk : k < bmp.size.toNat
    · by_cases hw : k / 64 = b.toNat / 64
      · have hkb : k % 64 = b.toNat % 64 ↔ k = b.toNat := by omega
        simp only [hk, hw, decide_true, Bool.true_and, if_true, and_true, BitVec.getLsbD_or,
          getLsbD_shiftLeft_one (Nat.mod_lt k (by decide)), hkb]
      · have hkb : k ≠ b.toNat := fun e => hw (by rw [e])
        simp [hk, hw, hkb]
    · simp [hk]

/-- Clearing a bit removes it from the set. -/
theorem bitmapClear_bit (b : U64) (k : Nat) :
    (bitmapClear bmp b).bit k = (bmp.bit k && decide (k ≠ b.toNat)) := by
  unfold bitmapClear
  by_cases h : bmp.size ≤ b
  · have hle := BitVec.le_def.mp h
    simp only [h, if_true]
    by_cases hk : k = b.toNat
    · simp [Bitmap.bit_of_ge bmp (show bmp.size.toNat ≤ k by omega)]
    · simp [hk]
  · have hlt : b.toNat < bmp.size.toNat := Nat.lt_of_not_le fun hle => h (BitVec.le_def.mpr hle)
    simp only [h, if_false, Bitmap.bit, Bitmap.setWord_size,
      Bitmap.word_setWord bmp (bmp.word_index_lt hlt)]
    by_cases hk : k < bmp.size.toNat
    · by_cases hw : k / 64 = b.toNat / 64
      · have hkb : k % 64 = b.toNat % 64 ↔ k = b.toNat := by omega
        have hmod : k % 64 < 64 := Nat.mod_lt k (by decide)
        simp only [hk, hw, decide_true, Bool.true_and, if_true, BitVec.getLsbD_and,
          BitVec.getLsbD_not, hmod, getLsbD_shiftLeft_one hmod, hkb, ne_eq, decide_not]
      · have hkb : k ≠ b.toNat := fun e => hw (by rw [e])
        simp [hk, hw, hkb]
    · simp [hk]

end Bits

end Rayos
