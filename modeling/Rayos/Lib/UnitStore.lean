import Rayos.Lib.LittleEndian

/-!
# Units of several bytes at wrapping addresses

A store of bytes by 64-bit addresses, in which numbers of `w` bytes are loaded and stored, lowest byte first.  A range
is given by its first address and its length: an address is in it when its distance from the first one is less than
the length, so that a range may go over the end of the address space.

`padded` is what a copy with padding leaves: the bytes of a range are those of another range first, then zero.
-/

namespace UnitStore

open LittleEndian

/-- The bytes by their address. -/
abbrev Store := BitVec 64 → BitVec 8

/-- The number of `w` bytes at an address. -/
def loadUnit (w : Nat) (m : Store) (p : BitVec 64) : Nat := leNat (fun k => m (p + BitVec.ofNat 64 k)) 0 w

/-- A store of it. -/
def storeUnit (w : Nat) (m : Store) (p : BitVec 64) (v : Nat) : Store := fun a =>
  if (a - p).toNat < w then BitVec.ofNat 8 (v / 256 ^ (a - p).toNat) else m a

/-- The bytes from `dest` on: `copied` of them from `src` on, then `zeros` that are zero. -/
def padded (m : Store) (dest src : BitVec 64) (copied zeros : Nat) : Store := fun a =>
  if (a - dest).toNat < copied then m (src + (a - dest))
  else if (a - dest).toNat < copied + zeros then 0#8
  else m a

variable {w k x : Nat} {m m' : Store} {p q a dest src : BitVec 64}

theorem sub_add_sub (a p d : BitVec 64) : a - (p + d) = a - p - d := by
  bv_omega

/-- The distance from an address further on. -/
theorem sub_add_toNat (hx : x < 2 ^ 64) (a p : BitVec 64) :
    (a - (p + BitVec.ofNat 64 x)).toNat =
      if x ≤ (a - p).toNat then (a - p).toNat - x else 2 ^ 64 + (a - p).toNat - x := by
  have hSub := sub_add_sub a p (BitVec.ofNat 64 x)
  have hLt := (a - p).isLt
  rw [hSub, BitVec.toNat_sub, BitVec.toNat_ofNat, Nat.mod_eq_of_lt hx]
  split <;> omega

theorem add_sub_toNat (hx : x < 2 ^ 64) (p : BitVec 64) : (p + BitVec.ofNat 64 x - p).toNat = x := by
  rw [BitVec.add_comm, BitVec.add_sub_cancel, BitVec.toNat_ofNat, Nat.mod_eq_of_lt hx]

theorem add_ofNat_sub (p a : BitVec 64) : p + BitVec.ofNat 64 (a - p).toNat = a := by
  rw [BitVec.ofNat_toNat, BitVec.setWidth_eq, BitVec.add_comm, BitVec.sub_add_cancel]

/-! ## Loads -/

theorem loadUnit_congr (h : ∀ k, k < w → m' (q + BitVec.ofNat 64 k) = m (p + BitVec.ofNat 64 k)) :
    loadUnit w m' q = loadUnit w m p := by
  refine leNat_congr fun k hk => ?_
  rw [Nat.zero_add]
  exact h k hk

/-- The bytes of a number are those that were loaded. -/
theorem byte_loadUnit (hk : k < w) :
    BitVec.ofNat 8 (loadUnit w m p / 256 ^ k) = m (p + BitVec.ofNat 64 k) := by
  obtain ⟨rest, rfl⟩ := Nat.exists_eq_add_of_lt hk
  have hBelow := leNat_lt (fun k => m (p + BitVec.ofNat 64 k)) k 0
  have hDiv : loadUnit (k + rest + 1) m p / 256 ^ k =
      (m (p + BitVec.ofNat 64 k)).toNat + 256 * leNat (fun k => m (p + BitVec.ofNat 64 k)) (k + 1) rest := by
    rw [loadUnit, Nat.add_assoc, leNat_add, Nat.zero_add, leNat, Nat.add_mul_div_left _ _ (Nat.pow_pos (by decide)),
      Nat.div_eq_of_lt hBelow, Nat.zero_add]
  apply BitVec.eq_of_toNat_eq
  have hByte := (m (p + BitVec.ofNat 64 k)).isLt
  rw [hDiv, BitVec.toNat_ofNat]
  omega

/-- A number is zero when all its bytes are. -/
theorem loadUnit_eq_zero_iff : loadUnit w m p = 0 ↔ ∀ k, k < w → m (p + BitVec.ofNat 64 k) = 0#8 := by
  constructor
  · intro hZero k hk
    have hByte := byte_loadUnit (m := m) (p := p) hk
    rw [hZero, Nat.zero_div] at hByte
    exact hByte.symm
  · intro hBytes
    have hSame : loadUnit w m p = loadUnit w (fun _ => 0#8) p := loadUnit_congr fun k hk => hBytes k hk
    have hNone : ∀ off, leNat (fun _ => 0#8) off w = 0 := by
      induction w with
      | zero => exact fun off => rfl
      | succ w ih =>
          intro off
          rw [leNat, ih (fun k hk => hBytes k (by omega)) (loadUnit_congr fun k hk => hBytes k (by omega))]
          rfl
    rw [hSame]
    exact hNone 0

/-! ## Stores -/

/-- Storing what has been loaded copies the bytes. -/
theorem storeUnit_loadUnit (m m' : Store) (d s a : BitVec 64) :
    storeUnit w m' d (loadUnit w m s) a = if (a - d).toNat < w then m (s + (a - d)) else m' a := by
  rw [storeUnit]
  refine if_ctx_congr Iff.rfl (fun hIn => ?_) fun _ => rfl
  rw [byte_loadUnit hIn, BitVec.ofNat_toNat, BitVec.setWidth_eq]

theorem storeUnit_zero (m : Store) (d a : BitVec 64) :
    storeUnit w m d 0 a = if (a - d).toNat < w then 0#8 else m a := by
  rw [storeUnit, Nat.zero_div]

/-! ## Copies with padding -/

theorem padded_none : padded m dest src 0 0 = m := by
  funext a
  rw [padded, if_neg (Nat.not_lt_zero _), if_neg (Nat.not_lt_zero _)]

/-- One more unit is copied. -/
theorem padded_copy (hEnd : x + w ≤ 2 ^ 64) (hx : x < 2 ^ 64) :
    storeUnit w (padded m dest src x 0) (dest + BitVec.ofNat 64 x) (loadUnit w m (src + BitVec.ofNat 64 x)) =
      padded m dest src (x + w) 0 := by
  funext a
  have hDist := sub_add_toNat hx a dest
  have hSame : src + BitVec.ofNat 64 x + (a - (dest + BitVec.ofNat 64 x)) = src + (a - dest) := by
    rw [sub_add_sub, BitVec.add_assoc, BitVec.add_comm (BitVec.ofNat 64 x), BitVec.sub_add_cancel]
  rw [storeUnit_loadUnit, hSame, padded, padded]
  by_cases hBefore : x ≤ (a - dest).toNat
  · rw [if_pos hBefore] at hDist
    by_cases hIn : (a - dest).toNat < x + w
    · rw [if_pos (by omega), if_pos hIn]
    · rw [if_neg (by omega), if_neg (by omega), if_neg (by omega), if_neg hIn, if_neg (by omega)]
  · rw [if_neg hBefore] at hDist
    rw [if_neg (by omega), if_pos (by omega), if_pos (by omega)]

/-- One more unit is zero. -/
theorem padded_zero {z : Nat} (hEnd : x + z + w ≤ 2 ^ 64) (hxz : x + z < 2 ^ 64) :
    storeUnit w (padded m dest src x z) (dest + BitVec.ofNat 64 (x + z)) 0 = padded m dest src x (z + w) := by
  funext a
  have hDist := sub_add_toNat hxz a dest
  rw [storeUnit_zero, padded, padded]
  by_cases hBefore : x + z ≤ (a - dest).toNat
  · rw [if_pos hBefore] at hDist
    by_cases hIn : (a - dest).toNat < x + z + w
    · rw [if_pos (by omega), if_neg (by omega), if_pos (by omega)]
    · rw [if_neg (by omega), if_neg (by omega), if_neg (by omega), if_neg (by omega), if_neg (by omega)]
  · rw [if_neg hBefore] at hDist
    by_cases hCopied : (a - dest).toNat < x
    · rw [if_neg (by omega), if_pos hCopied, if_pos hCopied]
    · rw [if_neg (by omega), if_neg hCopied, if_pos (by omega), if_neg hCopied, if_pos (by omega)]

/-- A unit that has been copied. -/
theorem loadUnit_padded_copied {copied zeros : Nat} (hIn : x + w ≤ copied) (hEnd : copied < 2 ^ 64) :
    loadUnit w (padded m dest src copied zeros) (dest + BitVec.ofNat 64 x) =
      loadUnit w m (src + BitVec.ofNat 64 x) := by
  refine loadUnit_congr fun k hk => ?_
  rw [BitVec.add_assoc, BitVec.add_assoc, ← BitVec.ofNat_add]
  have hDist := add_sub_toNat (show x + k < 2 ^ 64 by omega) dest
  rw [padded, hDist, if_pos (by omega), BitVec.add_comm dest, BitVec.add_sub_cancel]

/-- A unit of the padding. -/
theorem loadUnit_padded_zero {copied zeros : Nat} (hFrom : copied ≤ x) (hTo : x + w ≤ copied + zeros)
    (hEnd : copied + zeros ≤ 2 ^ 64) : loadUnit w (padded m dest src copied zeros) (dest + BitVec.ofNat 64 x) = 0 := by
  refine loadUnit_eq_zero_iff.mpr fun k hk => ?_
  rw [BitVec.add_assoc, ← BitVec.ofNat_add]
  have hDist := add_sub_toNat (show x + k < 2 ^ 64 by omega) dest
  rw [padded, hDist, if_neg (by omega), if_pos (by omega)]

/-- A unit outside of the range. -/
theorem loadUnit_padded_outside {copied zeros : Nat} (hFrom : ∀ k, k < w →
    copied + zeros ≤ (q + BitVec.ofNat 64 k - dest).toNat) :
    loadUnit w (padded m dest src copied zeros) q = loadUnit w m q := by
  refine loadUnit_congr fun k hk => ?_
  have hOut := hFrom k hk
  rw [padded, if_neg (by omega), if_neg (by omega)]

end UnitStore
