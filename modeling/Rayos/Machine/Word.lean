import Mathlib.Tactic

/-!
# Machine words

The C types of the kernel on x86-64: `uint64_t`, `size_t` and pointers are `BitVec 64`, an `int` is
an `Int` in the 32-bit range, and the two conversions between them are written out wherever the C
source converts implicitly.

The lemmas of this file turn the shifts and masks of the source into quotients and remainders of
natural numbers, which is the form in which every later proof does its arithmetic.
-/

namespace Rayos

/-- `uint64_t`, `size_t`, `unsigned long` and pointers. -/
abbrev U64 := BitVec 64

/-- The implicit conversion of a `size_t` to the `int` a function returns. -/
def intOfSize (x : U64) : Int := (x.setWidth 32).toInt

/-- The implicit conversion of an `int` to `uint64_t` or `size_t` (sign extension). -/
def sizeOfInt (x : Int) : U64 := BitVec.ofInt 64 x

theorem intOfSize_of_lt {x : U64} (hx : x.toNat < 2 ^ 31) : intOfSize x = x.toNat := by
  unfold intOfSize
  rw [BitVec.toInt_eq_toNat_cond, BitVec.toNat_setWidth]
  rw [Nat.mod_eq_of_lt (by omega)]
  simp only [show 2 * x.toNat < 2 ^ 32 by omega, if_true]

theorem sizeOfInt_natCast_toNat {n : Nat} (hn : n < 2 ^ 64) :
    (sizeOfInt (n : Int)).toNat = n := by
  simpa [sizeOfInt, BitVec.ofInt_natCast] using hn

/-- The low bit of a word, as the source tests it. -/
theorem and_one_eq_zero_iff (x : U64) : x &&& 1#64 = 0#64 ↔ x.toNat % 2 = 0 := by
  rw [← BitVec.toNat_inj, BitVec.toNat_and]
  simp [Nat.and_one_is_mod]

/-- `x & ~0xfff` clears the page offset. -/
theorem and_not_fff_eq_shift (x : U64) : x &&& ~~~0xfff#64 = (x >>> 12) <<< 12 := by
  apply BitVec.eq_of_getLsbD_eq
  intro i hi
  have hMask : (0xfff#64).getLsbD i = decide (i < 12) := by
    rw [BitVec.getLsbD_ofNat, show (0xfff : Nat) = 2 ^ 12 - 1 from rfl,
      Nat.testBit_two_pow_sub_one]
    simp [hi]
  simp only [BitVec.getLsbD_and, BitVec.getLsbD_not, hMask, BitVec.getLsbD_shiftLeft,
    BitVec.getLsbD_ushiftRight, hi, decide_true, Bool.true_and]
  by_cases hLow : i < 12
  · simp [hLow]
  · simp [hLow, show 12 + (i - 12) = i by omega]

theorem and_not_fff_toNat (x : U64) : (x &&& ~~~0xfff#64).toNat = x.toNat / 4096 * 4096 := by
  rw [and_not_fff_eq_shift, BitVec.toNat_shiftLeft, BitVec.toNat_ushiftRight,
    Nat.shiftLeft_eq, Nat.shiftRight_eq_div_pow]
  have := x.isLt
  omega

theorem and_fff_toNat (x : U64) : (x &&& 0xfff#64).toNat = x.toNat % 4096 := by
  rw [BitVec.toNat_and]
  exact Nat.and_two_pow_sub_one_eq_mod _ 12

/-- A page-aligned address and a flag word below the page size share no bit. -/
theorem or_toNat_of_aligned {a b : U64} (ha : a.toNat % 4096 = 0) (hb : b.toNat < 4096) :
    (a ||| b).toNat = a.toNat + b.toNat := by
  rw [BitVec.toNat_or]
  obtain ⟨k, hk⟩ := Nat.dvd_of_mod_eq_zero ha
  rw [hk]
  exact (Nat.two_pow_add_eq_or_of_lt (i := 12) hb k).symm

/-- Bits below the page size, or-ed together, stay below it. -/
theorem or_toNat_lt_page {a b : U64} (ha : a.toNat < 4096) (hb : b.toNat < 4096) :
    (a ||| b).toNat < 4096 := by
  rw [BitVec.toNat_or]
  exact Nat.or_lt_two_pow (n := 12) ha hb

/-- Testing bit `j` of a word with a shifted one, as `bitmap.c` does. -/
theorem and_shiftLeft_one_eq_zero_iff (w : U64) {j : Nat} (hj : j < 64) :
    w &&& (1#64 <<< j) = 0#64 ↔ w.getLsbD j = false := by
  constructor
  · intro h
    have hBit := congrArg (fun v => v.getLsbD j) h
    simpa [hj] using hBit
  · intro h
    apply BitVec.eq_of_getLsbD_eq
    intro k hk
    by_cases hkj : k = j
    · subst hkj
      simp [h]
    · have hOne : (1#64 <<< j).getLsbD k = false := by
        rw [BitVec.getLsbD_shiftLeft, BitVec.getLsbD_one]
        by_cases hlt : k < j
        · simp [hlt]
        · simp [show k - j ≠ 0 by omega]
      simp [hOne]

/-- Bit `k` of the one-bit word that selects bit `j`. -/
theorem getLsbD_shiftLeft_one {j k : Nat} (hk : k < 64) :
    (1#64 <<< j).getLsbD k = decide (k = j) := by
  rw [BitVec.getLsbD_shiftLeft, BitVec.getLsbD_one]
  by_cases hlt : k < j
  · simp [hlt, show k ≠ j by omega]
  · by_cases hkj : k = j
    · subst hkj
      simp [hk]
    · simp [show k - j ≠ 0 by omega, hkj]

end Rayos
