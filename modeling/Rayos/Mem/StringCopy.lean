import Rayos.Lib.CellCopy
import Rayos.Lib.UnitStore
import Rayos.Machine.Word

/-!
# Copies in memory (`string.c`)

`memmove`, `strncpy` and `wcsncpy` on the bytes of memory.  Addresses wrap at the end of the address space.

* `memmove_exact` — the copy of a range, whatever the overlap;
* `boundedCopy_exact` — the bounded copy of a string, which writes one unit too many when it meets the terminator.
-/

namespace Rayos

open CellCopy UnitStore

/-- The bytes of memory by their address. -/
abbrev ByteMem := U64 → BitVec 8

/-! ## `memmove` -/

/-- `while (n--) *d++ = *s++`. -/
def memmoveUp : Nat → U64 → U64 → ByteMem → ByteMem
  | 0, _, _, m => m
  | n + 1, d, s, m => memmoveUp n (d + 1#64) (s + 1#64) (Function.update m d (m s))

/-- `while (n--) *--d = *--s`. -/
def memmoveDown : Nat → U64 → U64 → ByteMem → ByteMem
  | 0, _, _, m => m
  | n + 1, d, s, m => memmoveDown n (d - 1#64) (s - 1#64) (Function.update m (d - 1#64) (m (s - 1#64)))

/-- `memmove`, with the address that it returns. -/
def memmove (m : ByteMem) (dest src n : U64) : U64 × ByteMem :=
  if dest < src then (dest, memmoveUp n.toNat dest src m)
  else (dest, memmoveDown n.toNat (dest + n) (src + n) m)

section Memmove

variable {dest src : U64} {n : Nat}

/-- Byte `i` of the destination and of the source. -/
def movePair (dest src : U64) (i : Nat) : U64 × U64 := (dest + BitVec.ofNat 64 i, src + BitVec.ofNat 64 i)

theorem memmoveUp_eq (m : ByteMem) (dest src : U64) (n : Nat) :
    memmoveUp n dest src m = copyCells m ((List.range n).map (movePair dest src)) := by
  have hRun : ∀ (n i : Nat) (m : ByteMem),
      memmoveUp n (dest + BitVec.ofNat 64 i) (src + BitVec.ofNat 64 i) m =
        copyCells m ((List.range' i n).map (movePair dest src)) := by
    intro n
    induction n with
    | zero => exact fun i m => rfl
    | succ n ih =>
        intro i m
        have hNext : ∀ p : U64, p + BitVec.ofNat 64 i + 1#64 = p + BitVec.ofNat 64 (i + 1) := by
          intro p
          rw [BitVec.ofNat_add, BitVec.add_assoc]
        rw [memmoveUp, hNext, hNext, ih, List.range'_succ, List.map_cons, movePair, copyCells]
  have hStart := hRun n 0 m
  rw [← List.range_eq_range', BitVec.add_zero, BitVec.add_zero] at hStart
  exact hStart

theorem memmoveDown_eq (dest src : U64) (n : Nat) : ∀ m : ByteMem,
    memmoveDown n (dest + BitVec.ofNat 64 n) (src + BitVec.ofNat 64 n) m =
      copyCells m ((List.range n).reverse.map (movePair dest src)) := by
  induction n with
  | zero => exact fun m => rfl
  | succ n ih =>
      intro m
      have hPrev : ∀ p : U64, p + BitVec.ofNat 64 (n + 1) - 1#64 = p + BitVec.ofNat 64 n := by
        intro p
        rw [BitVec.ofNat_add, ← BitVec.add_assoc, BitVec.add_sub_cancel]
      rw [memmoveDown, hPrev, hPrev, ih, List.range_succ, List.reverse_append, List.reverse_singleton,
        List.singleton_append, List.map_cons, movePair, copyCells]

/-- The bytes of a range that does not wrap. -/
theorem byte_toNat {p : U64} {i : Nat} (hEnd : p.toNat + n ≤ 2 ^ 64) (hi : i < n) :
    (p + BitVec.ofNat 64 i).toNat = p.toNat + i := by
  rw [BitVec.toNat_add, BitVec.toNat_ofNat]
  omega

/-- Forwards, what is written lies before all that is read later. -/
theorem fresh_up (hLt : dest < src) (hDest : dest.toNat + n ≤ 2 ^ 64) (hSrc : src.toNat + n ≤ 2 ^ 64) :
    Fresh ((List.range n).map (movePair dest src)) := by
  rw [Fresh, List.pairwise_map]
  refine List.pairwise_lt_range.imp_of_mem ?_
  intro i j hi hj hij
  rw [List.mem_range] at hi hj
  rw [BitVec.lt_def] at hLt
  simp only [movePair, ne_eq, ← BitVec.toNat_inj, byte_toNat hDest hi, byte_toNat hDest hj, byte_toNat hSrc hj]
  omega

/-- Backwards, it lies behind. -/
theorem fresh_down (hLe : ¬ dest < src) (hDest : dest.toNat + n ≤ 2 ^ 64) (hSrc : src.toNat + n ≤ 2 ^ 64) :
    Fresh ((List.range n).reverse.map (movePair dest src)) := by
  rw [Fresh, List.pairwise_map, List.pairwise_reverse]
  refine List.pairwise_lt_range.imp_of_mem ?_
  intro i j hi hj hij
  rw [List.mem_range] at hi hj
  rw [BitVec.lt_def] at hLe
  simp only [movePair, ne_eq, ← BitVec.toNat_inj, byte_toNat hDest hi, byte_toNat hDest hj, byte_toNat hSrc hi]
  omega

/-- Either way the bytes of the source are copied as they were, and nothing else is written. -/
theorem copyCells_movePair {m : ByteMem} {order : List Nat} (hOrder : ∀ i, i ∈ order ↔ i < n)
    (hFresh : Fresh (order.map (movePair dest src))) (hDest : dest.toNat + n ≤ 2 ^ 64) :
    (∀ i, i < n → copyCells m (order.map (movePair dest src)) (dest + BitVec.ofNat 64 i) =
      m (src + BitVec.ofNat 64 i)) ∧
    ∀ a : U64, ¬ (dest.toNat ≤ a.toNat ∧ a.toNat < dest.toNat + n) →
      copyCells m (order.map (movePair dest src)) a = m a := by
  constructor
  · intro i hi
    exact copyCells_of_mem hFresh (movePair dest src i) (List.mem_map_of_mem ((hOrder i).mpr hi))
  · intro a hOut
    refine copyCells_of_not_mem fun p hp hEq => hOut ?_
    obtain ⟨i, hi, rfl⟩ := List.mem_map.mp hp
    have hi' := (hOrder i).mp hi
    have hAt : a.toNat = dest.toNat + i := by
      rw [hEq]
      exact byte_toNat hDest hi'
    omega

end Memmove

/-- **`memmove` handles every overlap.**  When the two ranges do not wrap, the bytes of the destination are those
that the source had before, and no other byte changes. -/
theorem memmove_exact (m : ByteMem) (dest src n : U64) (hDest : dest.toNat + n.toNat ≤ 2 ^ 64)
    (hSrc : src.toNat + n.toNat ≤ 2 ^ 64) :
    (memmove m dest src n).1 = dest ∧
    (∀ i, i < n.toNat →
      (memmove m dest src n).2 (dest + BitVec.ofNat 64 i) = m (src + BitVec.ofNat 64 i)) ∧
    ∀ a : U64, ¬ (dest.toNat ≤ a.toNat ∧ a.toNat < dest.toNat + n.toNat) → (memmove m dest src n).2 a = m a := by
  unfold memmove
  by_cases hLt : dest < src
  · rw [if_pos hLt, memmoveUp_eq]
    exact ⟨rfl, copyCells_movePair (fun i => List.mem_range) (fresh_up hLt hDest hSrc) hDest⟩
  · have hCount : BitVec.ofNat 64 n.toNat = n := by
      rw [BitVec.ofNat_toNat, BitVec.setWidth_eq]
    have hDown := memmoveDown_eq dest src n.toNat m
    rw [hCount] at hDown
    rw [if_neg hLt, hDown]
    refine ⟨rfl, copyCells_movePair (fun i => ?_) (fresh_down hLt hDest hSrc) hDest⟩
    rw [List.mem_reverse, List.mem_range]

/-- Three bytes by one up and by one down: in both cases the last one read has been written over. -/
theorem memmove_exact_overlap :
    (memmove (fun a => a.setWidth 8) 0x101#64 0x100#64 3#64).2 0x103#64 = 0x02#8 ∧
      (memmove (fun a => a.setWidth 8) 0x100#64 0x101#64 3#64).2 0x100#64 = 0x01#8 := by
  constructor
  · exact (memmove_exact _ 0x101#64 0x100#64 3#64 (by decide) (by decide)).2.1 2 (by decide)
  · exact (memmove_exact _ 0x100#64 0x101#64 3#64 (by decide) (by decide)).2.1 0 (by decide)

/-! ## `strncpy` and `wcsncpy` -/

/-- `while (n && (*dest++ = *src++)) n--`, for units of `w` bytes: what is left of `n`, the address behind the last
unit written, and memory.  The terminator is written, but not counted. -/
def copyUnits (w : Nat) : Nat → U64 → U64 → ByteMem → Nat × U64 × ByteMem
  | 0, d, _, m => (0, d, m)
  | n + 1, d, s, m =>
      let c := loadUnit w m s
      let m := storeUnit w m d c
      if c ≠ 0 then copyUnits w n (d + BitVec.ofNat 64 w) (s + BitVec.ofNat 64 w) m
      else (n + 1, d + BitVec.ofNat 64 w, m)

/-- `while (n--) *dest++ = 0`. -/
def zeroUnits (w : Nat) : Nat → U64 → ByteMem → ByteMem
  | 0, _, m => m
  | n + 1, d, m => zeroUnits w n (d + BitVec.ofNat 64 w) (storeUnit w m d 0)

/-- The two loops, which share `n`, with the address that is returned. -/
def boundedCopy (w : Nat) (m : ByteMem) (dest src n : U64) : U64 × ByteMem :=
  let r := copyUnits w n.toNat dest src m
  (dest, zeroUnits w r.1 r.2.1 r.2.2)

/-- `strncpy`. -/
def strncpy (m : ByteMem) (dest src n : U64) : U64 × ByteMem := boundedCopy 1 m dest src n

/-- `wcsncpy`. -/
def wcsncpy (m : ByteMem) (dest src n : U64) : U64 × ByteMem := boundedCopy 2 m dest src n

/-- A string of `len` units, with the terminator behind them. -/
structure IsString (w : Nat) (m : ByteMem) (src : U64) (len : Nat) : Prop where
  chars : ∀ i, i < len → loadUnit w m (src + BitVec.ofNat 64 (i * w)) ≠ 0
  terminator : loadUnit w m (src + BitVec.ofNat 64 (len * w)) = 0

/-- The string and its terminator do not overlap the `n` units from `dest` on. -/
def ApartFrom (w : Nat) (dest src : U64) (n len : Nat) : Prop :=
  ∀ k, k < (len + 1) * w → n * w ≤ (src + BitVec.ofNat 64 k - dest).toNat

/-- What a bounded copy is for: the first `n` units of the string, padded with zeros, and nothing else changes. -/
structure BoundedCopied (w : Nat) (m m' : ByteMem) (dest src : U64) (n len : Nat) : Prop where
  content : ∀ i, i < n → loadUnit w m' (dest + BitVec.ofNat 64 (i * w)) =
    if i < len then loadUnit w m (src + BitVec.ofNat 64 (i * w)) else 0
  frame : ∀ a : U64, n * w ≤ (a - dest).toNat → m' a = m a

section BoundedCopy

variable {w n len : Nat} {m : ByteMem} {dest src : U64}

/-- The range and one unit more fit in the address space, as the string has a unit. -/
theorem ApartFrom.room (hApart : ApartFrom w dest src n len) (hPos : 0 < n) (hw : 0 < w) (hWord : w ≤ 2 ^ 64) :
    (n + 1) * w ≤ 2 ^ 64 := by
  have hLen : w ≤ (len + 1) * w := Nat.le_mul_of_pos_left w (Nat.succ_pos len)
  have hStart := hApart 0 (by omega)
  rw [BitVec.add_zero] at hStart
  have hRange : w ≤ n * w := Nat.le_mul_of_pos_left w hPos
  rw [Nat.succ_mul]
  by_contra hFull
  -- otherwise the first unit of the string would reach `dest`
  have hLt := (src - dest).isLt
  have hReach := hApart (2 ^ 64 - (src - dest).toNat) (by omega)
  have hZero : src + BitVec.ofNat 64 (2 ^ 64 - (src - dest).toNat) - dest = 0#64 := by
    apply BitVec.eq_of_toNat_eq
    have hSum : src + BitVec.ofNat 64 (2 ^ 64 - (src - dest).toNat) - dest =
        src - dest + BitVec.ofNat 64 (2 ^ 64 - (src - dest).toNat) := by bv_omega
    rw [hSum, BitVec.toNat_add, BitVec.toNat_ofNat, BitVec.toNat_zero]
    omega
  rw [hZero, BitVec.toNat_zero] at hReach
  omega

/-- The units of the string are read as they were. -/
theorem ApartFrom.loadUnit_eq (hApart : ApartFrom w dest src n len) {i x : Nat} (hi : i ≤ len) (hx : x ≤ n * w) :
    loadUnit w (padded m dest src x 0) (src + BitVec.ofNat 64 (i * w)) =
      loadUnit w m (src + BitVec.ofNat 64 (i * w)) := by
  refine loadUnit_padded_outside fun k hk => ?_
  have hInside : i * w + k < (len + 1) * w := by
    have hMul := Nat.mul_le_mul_right w hi
    rw [Nat.succ_mul]
    omega
  have hOut := hApart (i * w + k) hInside
  rw [BitVec.add_assoc, ← BitVec.ofNat_add]
  omega

/-- The first loop, when `i` units have been copied. -/
theorem copyUnits_run (hString : IsString w m src len) (hApart : ApartFrom w dest src n len) (hw : 0 < w)
    (hRoom : (n + 1) * w ≤ 2 ^ 64) : ∀ k i, i + k = n → i ≤ len →
    copyUnits w k (dest + BitVec.ofNat 64 (i * w)) (src + BitVec.ofNat 64 (i * w)) (padded m dest src (i * w) 0) =
      if n ≤ len then (0, dest + BitVec.ofNat 64 (n * w), padded m dest src (n * w) 0)
      else (n - len, dest + BitVec.ofNat 64 ((len + 1) * w), padded m dest src ((len + 1) * w) 0) := by
  intro k
  induction k with
  | zero =>
      intro i hSum hi
      obtain rfl : i = n := hSum
      rw [copyUnits, if_pos hi]
  | succ k ih =>
      intro i hSum hi
      have hMul : (i + 1) * w ≤ n * w := Nat.mul_le_mul_right w (by omega)
      rw [Nat.succ_mul] at hMul hRoom
      have hNext : ∀ p : U64, p + BitVec.ofNat 64 (i * w) + BitVec.ofNat 64 w = p + BitVec.ofNat 64 ((i + 1) * w) := by
        intro p
        rw [Nat.succ_mul, BitVec.ofNat_add, BitVec.add_assoc]
      rw [copyUnits, hApart.loadUnit_eq hi (by omega), padded_copy (by omega) (by omega), hNext, hNext,
        ← Nat.succ_mul]
      by_cases hEnd : loadUnit w m (src + BitVec.ofNat 64 (i * w)) = 0
      · -- the terminator: `n` stays as it is
        have hLast : i = len := by
          by_contra hNe
          exact hString.chars i (by omega) hEnd
        subst hLast
        rw [if_neg (not_not.mpr hEnd), if_neg (by omega)]
        congr 1
        omega
      · have hMore : i ≠ len := fun hEq => hEnd (hEq ▸ hString.terminator)
        rw [if_pos hEnd]
        exact ih (i + 1) (by omega) (by omega)

/-- The second loop, when `z` bytes are zero. -/
theorem zeroUnits_run (hw : 0 < w) {x : Nat} : ∀ k z, x + z + k * w ≤ 2 ^ 64 →
    zeroUnits w k (dest + BitVec.ofNat 64 (x + z)) (padded m dest src x z) = padded m dest src x (z + k * w) := by
  intro k
  induction k with
  | zero =>
      intro z _
      rw [zeroUnits, Nat.zero_mul, Nat.add_zero]
  | succ k ih =>
      intro z hEnd
      rw [Nat.succ_mul] at hEnd
      have hNext : dest + BitVec.ofNat 64 (x + z) + BitVec.ofNat 64 w = dest + BitVec.ofNat 64 (x + (z + w)) := by
        rw [BitVec.add_assoc, ← BitVec.ofNat_add, Nat.add_assoc]
      rw [zeroUnits, padded_zero (by omega) (by omega), hNext, ih (z + w) (by omega), Nat.succ_mul, Nat.add_assoc,
        Nat.add_comm w]

/-- What is left: when the terminator has been met, one zero more than there is room for. -/
theorem boundedCopy_eq (hString : IsString w m src len) {count : U64} (hApart : ApartFrom w dest src count.toNat len)
    (hw : 0 < w) (hWord : w ≤ 2 ^ 64) :
    (boundedCopy w m dest src count).2 =
      if count.toNat ≤ len then padded m dest src (count.toNat * w) 0
      else padded m dest src ((len + 1) * w) ((count.toNat - len) * w) := by
  by_cases hNone : count.toNat = 0
  · rw [boundedCopy, hNone, copyUnits, zeroUnits, if_pos (Nat.zero_le len), Nat.zero_mul, padded_none]
  · have hRoom := hApart.room (Nat.pos_of_ne_zero hNone) hw hWord
    have hCopy := copyUnits_run hString hApart hw hRoom count.toNat 0 (Nat.zero_add _) (Nat.zero_le len)
    rw [Nat.zero_mul, padded_none, BitVec.add_zero, BitVec.add_zero] at hCopy
    rw [boundedCopy, hCopy]
    by_cases hLimit : count.toNat ≤ len
    · rw [if_pos hLimit, if_pos hLimit]
      rfl
    · have hTotal : (len + 1) * w + 0 + (count.toNat - len) * w = (count.toNat + 1) * w := by
        rw [Nat.add_zero, ← Nat.add_mul]
        congr 1
        omega
      have hZero : zeroUnits w (count.toNat - len) (dest + BitVec.ofNat 64 ((len + 1) * w + 0))
          (padded m dest src ((len + 1) * w) 0) = padded m dest src ((len + 1) * w) (0 + (count.toNat - len) * w) :=
        zeroUnits_run hw (count.toNat - len) 0 (hTotal.trans_le hRoom)
      rw [Nat.add_zero, Nat.zero_add] at hZero
      rw [if_neg hLimit, if_neg hLimit]
      exact hZero

/-- A bounded copy does what it is for exactly when it does not meet the terminator, or when what it writes behind the
destination is there already. -/
theorem boundedCopied_iff (hString : IsString w m src len) {count : U64}
    (hApart : ApartFrom w dest src count.toNat len) (hw : 0 < w) (hWord : w < 2 ^ 64) :
    BoundedCopied w m (boundedCopy w m dest src count).2 dest src count.toNat len ↔
      count.toNat ≤ len ∨ loadUnit w m (dest + BitVec.ofNat 64 (count.toNat * w)) = 0 := by
  rw [boundedCopy_eq hString hApart hw hWord.le]
  by_cases hLimit : count.toNat ≤ len
  · rw [if_pos hLimit]
    refine iff_of_true ⟨fun i hi => ?_, fun a hOut => ?_⟩ (Or.inl hLimit)
    · have hRoom := hApart.room (by omega) hw hWord.le
      have hMul : (i + 1) * w ≤ count.toNat * w := Nat.mul_le_mul_right w hi
      rw [Nat.succ_mul] at hMul hRoom
      rw [if_pos (by omega), loadUnit_padded_copied hMul (by omega)]
    · rw [padded, if_neg (by omega), if_neg (by omega)]
  · have hRoom := hApart.room (by omega) hw hWord.le
    have hTotal : (len + 1) * w + (count.toNat - len) * w = count.toNat * w + w := by
      rw [← Nat.add_mul, ← Nat.succ_mul]
      congr 1
      omega
    have hStart : (len + 1) * w ≤ count.toNat * w := Nat.mul_le_mul_right w (by omega)
    rw [Nat.succ_mul count.toNat] at hRoom
    rw [if_neg hLimit, or_iff_right hLimit]
    constructor
    · intro hCopied
      refine loadUnit_eq_zero_iff.mpr fun k hk => ?_
      -- the unit behind the destination is zero now, and has not changed
      rw [BitVec.add_assoc, ← BitVec.ofNat_add]
      have hDist := add_sub_toNat (show count.toNat * w + k < 2 ^ 64 by omega) dest
      have hSame := hCopied.frame (dest + BitVec.ofNat 64 (count.toNat * w + k)) (by omega)
      rw [padded, hDist, if_neg (by omega), if_pos (by omega)] at hSame
      exact hSame.symm
    · intro hBehind
      refine ⟨fun i hi => ?_, fun a hOut => ?_⟩
      · have hMul : (i + 1) * w ≤ count.toNat * w := Nat.mul_le_mul_right w hi
        rw [Nat.succ_mul] at hMul
        by_cases hChar : i ≤ len
        · have hCopied : (i + 1) * w ≤ (len + 1) * w := Nat.mul_le_mul_right w (by omega)
          rw [Nat.succ_mul i] at hCopied
          rw [loadUnit_padded_copied hCopied (by omega)]
          by_cases hLast : i < len
          · rw [if_pos hLast]
          · obtain rfl : i = len := by omega
            rw [if_neg hLast, hString.terminator]
        · have hFrom : (len + 1) * w ≤ i * w := Nat.mul_le_mul_right w (by omega)
          rw [if_neg (by omega), loadUnit_padded_zero hFrom (by omega) (by omega)]
      · rw [padded, if_neg (by omega)]
        by_cases hUnit : (a - dest).toNat < count.toNat * w + w
        · -- a byte of the unit behind the destination
          have hByte := loadUnit_eq_zero_iff.mp hBehind ((a - dest).toNat - count.toNat * w) (by omega)
          rw [BitVec.add_assoc, ← BitVec.ofNat_add, Nat.add_sub_cancel' hOut, add_ofNat_sub] at hByte
          rw [if_pos (by omega), hByte]
        · rw [if_neg (by omega)]

end BoundedCopy

/-- **The bounded copies.**  For a string that does not overlap the destination, `strncpy` and `wcsncpy` leave its
first `n` characters, padded with zeros, and change nothing else, exactly when the string has at least `n` characters
or the unit behind the destination is zero. -/
theorem boundedCopy_exact (m : ByteMem) (dest src n : U64) (len : Nat) :
    (IsString 1 m src len → ApartFrom 1 dest src n.toNat len →
      (BoundedCopied 1 m (strncpy m dest src n).2 dest src n.toNat len ↔
        n.toNat ≤ len ∨ loadUnit 1 m (dest + BitVec.ofNat 64 (n.toNat * 1)) = 0)) ∧
    (IsString 2 m src len → ApartFrom 2 dest src n.toNat len →
      (BoundedCopied 2 m (wcsncpy m dest src n).2 dest src n.toNat len ↔
        n.toNat ≤ len ∨ loadUnit 2 m (dest + BitVec.ofNat 64 (n.toNat * 2)) = 0)) :=
  ⟨fun hString hApart => boundedCopied_iff hString hApart (by decide) (by decide),
    fun hString hApart => boundedCopied_iff hString hApart (by decide) (by decide)⟩

/-- Memory with the string "a" at `0x100`, and a byte at `0x202` that belongs to somebody else. -/
def oneCharMem : ByteMem := fun a => if a = 0x100#64 then 0x61#8 else if a = 0x202#64 then 0x78#8 else 0#8

theorem oneCharMem_string : IsString 1 oneCharMem 0x100#64 1 where
  chars := by
    intro i hi
    obtain rfl : i = 0 := by omega
    decide
  terminator := by decide

/-- One character into one byte. -/
theorem boundedCopy_exact_fits :
    BoundedCopied 1 oneCharMem (strncpy oneCharMem 0x200#64 0x100#64 1#64).2 0x200#64 0x100#64 1 1 := by
  have hApart : ApartFrom 1 0x200#64 0x100#64 (1#64).toNat 1 := by
    unfold ApartFrom
    decide
  exact ((boundedCopy_exact oneCharMem 0x200#64 0x100#64 1#64 1).1 oneCharMem_string hApart).mpr (Or.inl (by decide))

/-- One character into two bytes: the third is cleared. -/
theorem strncpy_overruns :
    IsString 1 oneCharMem 0x100#64 1 ∧ ApartFrom 1 0x200#64 0x100#64 2 1 ∧
      ¬ BoundedCopied 1 oneCharMem (strncpy oneCharMem 0x200#64 0x100#64 2#64).2 0x200#64 0x100#64 2 1 := by
  refine ⟨oneCharMem_string, by unfold ApartFrom; decide, fun hCopied => ?_⟩
  have hSame := hCopied.frame 0x202#64 (by decide)
  exact absurd hSame (by decide)

end Rayos
