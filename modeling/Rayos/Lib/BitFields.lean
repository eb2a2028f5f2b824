import Mathlib.Tactic

/-!
# Words made of fields

A word is known when its upper and its lower part are.  An encoder scatters the parts of a value over a word with
masks and shifts, and a decoder puts them together again with `++`.
-/

namespace BitFields

/-- A value from its upper and its lower part. -/
theorem eq_append_iff {m n : Nat} {high : BitVec m} {low : BitVec n} {x : BitVec (m + n)} :
    high ++ low = x ↔ high = x.extractLsb' n m ∧ low = x.extractLsb' 0 n := by
  constructor
  · rintro rfl
    constructor
    · apply BitVec.eq_of_getLsbD_eq
      intro i hi
      simp [BitVec.getLsbD_append, hi]
    · apply BitVec.eq_of_getLsbD_eq
      intro i hi
      simp [BitVec.getLsbD_append, hi]
  · rintro ⟨rfl, rfl⟩
    exact BitVec.extractLsb'_append_extractLsb'

/-! ## A field of an expression -/

section Field

variable {w s n k : Nat} (x : BitVec w)

/-- The field has been shifted up. -/
theorem field_shiftLeft (hk : k ≤ s) (hw : s + n ≤ w) : (x <<< k).extractLsb' s n = x.extractLsb' (s - k) n := by
  apply BitVec.eq_of_getLsbD_eq
  intro i hi
  have hBelow : ¬ s + i < k := by omega
  have hIn : s + i < w := by omega
  have hIndex : s + i - k = s - k + i := by omega
  rw [BitVec.getLsbD_extractLsb', BitVec.getLsbD_extractLsb', BitVec.getLsbD_shiftLeft, hIndex]
  simp [hIn, hBelow]

/-- The field lies in the zeros that have been shifted in. -/
theorem field_below (h : s + n ≤ k) : (x <<< k).extractLsb' s n = 0#n := by
  apply BitVec.eq_of_getLsbD_eq
  intro i hi
  have hBelow : s + i < k := by omega
  simp [hBelow]

theorem field_shiftRight : (x >>> k).extractLsb' s n = x.extractLsb' (k + s) n := by
  apply BitVec.eq_of_getLsbD_eq
  intro i hi
  simp [Nat.add_assoc]

/-- The field lies behind the word. -/
theorem field_beyond (h : w ≤ s) : x.extractLsb' s n = 0#n := by
  apply BitVec.eq_of_getLsbD_eq
  intro i hi
  simp [BitVec.getLsbD_of_ge x (s + i) (by omega)]

theorem field_setWidth {w' : Nat} (h : s + n ≤ w') : (x.setWidth w').extractLsb' s n = x.extractLsb' s n :=
  BitVec.extractLsb'_setWidth_of_le h

/-- The mask lets the field through. -/
theorem field_mask {m : BitVec w} (h : m.extractLsb' s n = BitVec.allOnes n) :
    (x &&& m).extractLsb' s n = x.extractLsb' s n := by
  rw [BitVec.extractLsb'_and, h, BitVec.and_allOnes]

/-- The mask clears the field. -/
theorem field_masked {m : BitVec w} (h : m.extractLsb' s n = 0#n) : (x &&& m).extractLsb' s n = 0#n := by
  rw [BitVec.extractLsb'_and, h, BitVec.and_zero]

/-- A field in two parts. -/
theorem field_split (s m n : Nat) :
    x.extractLsb' s (m + n) = x.extractLsb' (s + n) m ++ x.extractLsb' s n :=
  (BitVec.extractLsb'_append_extractLsb'_eq_extractLsb' rfl).symm

end Field

end BitFields
