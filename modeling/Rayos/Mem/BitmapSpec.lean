import Rayos.Mem.Bitmap

/-!
# What the bitmap searches and range operations compute

For each loop of `bitmap.c` one statement about the set of bits: the range operations add or remove
an interval, the word-skipping search finds the least bit of the wanted value, and the scan of
`bitmap_alloc_range` is first fit.  The only hypotheses are the ones under which the `size_t` and
`int` arithmetic of the source does not wrap.
-/

namespace Rayos

variable (bmp : Bitmap)

/-- Bits `i, …, i + count - 1` are all clear. -/
def RangeFree (i count : Nat) : Prop := ∀ k, i ≤ k → k < i + count → bmp.bit k = false

/-- A position reached by adding a loop counter that does not wrap. -/
theorem toNat_add_ofNat {i : U64} {j : Nat} (h : i.toNat + j < 2 ^ 64) :
    (i + BitVec.ofNat 64 j).toNat = i.toNat + j := by
  rw [BitVec.toNat_add, BitVec.toNat_ofNat]
  omega

/-! ## Range operations -/

@[simp] theorem bitmapSetRun_size (i : U64) (count : Nat) :
    (bitmapSetRun bmp i count).size = bmp.size := by
  unfold bitmapSetRun
  induction count with
  | zero => rfl
  | succ n ih => simp [List.range_succ, ih]

/-- The setting loop adds the interval `[i, i + count)` to the set. -/
theorem bitmapSetRun_bit (i : U64) (count k : Nat) (h : i.toNat + count ≤ 2 ^ 64) :
    (bitmapSetRun bmp i count).bit k =
      (bmp.bit k || decide (i.toNat ≤ k ∧ k < i.toNat + count ∧ k < bmp.size.toNat)) := by
  induction count with
  | zero =>
      have hEmpty : ¬ (i.toNat ≤ k ∧ k < i.toNat + 0 ∧ k < bmp.size.toNat) := by omega
      simp only [hEmpty, decide_false, Bool.or_false]
      rfl
  | succ n ih =>
      have hStep : bitmapSetRun bmp i (n + 1) =
          bitmapSet (bitmapSetRun bmp i n) (i + BitVec.ofNat 64 n) := by
        simp [bitmapSetRun, List.range_succ]
      rw [hStep, bitmapSet_bit, ih (by omega), bitmapSetRun_size,
        toNat_add_ofNat (show i.toNat + n < 2 ^ 64 by omega), Bool.or_assoc]
      congr 1
      rw [← Bool.decide_or, decide_eq_decide]
      omega

@[simp] theorem bitmapFreeRange_size (start count : U64) :
    (bitmapFreeRange bmp start count).size = bmp.size := by
  unfold bitmapFreeRange
  induction count.toNat with
  | zero => rfl
  | succ n ih =>
      simp only [List.range_succ, List.foldl_append, List.foldl_cons, List.foldl_nil]
      split
      · rw [bitmapClear_size, ih]
      · exact ih

/-- `bitmap_free_range` removes the interval `[start, start + count)` from the set. -/
theorem bitmapFreeRange_bit (start count : U64) (k : Nat)
    (h : start.toNat + count.toNat ≤ 2 ^ 64) :
    (bitmapFreeRange bmp start count).bit k =
      (bmp.bit k && decide (¬ (start.toNat ≤ k ∧ k < start.toNat + count.toNat))) := by
  -- induction on the number of rounds of the loop
  suffices H : ∀ n, start.toNat + n ≤ 2 ^ 64 →
      ((List.range n).foldl (fun acc i =>
        let pos := start + BitVec.ofNat 64 i
        if pos < acc.size then bitmapClear acc pos else acc) bmp).bit k =
      (bmp.bit k && decide (¬ (start.toNat ≤ k ∧ k < start.toNat + n))) from H count.toNat h
  intro n
  induction n with
  | zero =>
      intro _
      simp
  | succ n ih =>
      intro hn
      have hPos := toNat_add_ofNat (show start.toNat + n < 2 ^ 64 by omega)
      have hRest : decide (¬ (start.toNat ≤ k ∧ k < start.toNat + (n + 1))) =
          (decide (¬ (start.toNat ≤ k ∧ k < start.toNat + n)) &&
            decide (k ≠ start.toNat + n)) := by
        rw [← Bool.decide_and, decide_eq_decide]
        omega
      rw [List.range_succ, List.foldl_append, List.foldl_cons, List.foldl_nil]
      simp only
      split
      · rw [bitmapClear_bit, ih (by omega), hPos, hRest, Bool.and_assoc]
      · rename_i hGe
        rw [ih (by omega), hRest, ← Bool.and_assoc]
        by_cases hk : k = start.toNat + n
        · -- the position is past the end: the bit was not set anyway
          set acc := (List.range n).foldl _ bmp with hacc
          have hAcc : acc.bit k = false := by
            apply Bitmap.bit_of_ge
            rw [hk, ← hPos]
            exact Nat.le_of_not_lt fun hlt => hGe (BitVec.lt_def.mpr hlt)
          rw [← ih (by omega), hAcc]
          rfl
        · simp [hk]

/-- `bitmap_set_range` adds the interval `[start, start + count)`, cut off at `size`. -/
theorem bitmapSetRange_bit (start count : U64) (k : Nat)
    (h : start.toNat + count.toNat ≤ 2 ^ 64) :
    (bitmapSetRange bmp start count).bit k =
      (bmp.bit k || decide (start.toNat ≤ k ∧ k < start.toNat + count.toNat ∧
        k < bmp.size.toNat)) := by
  suffices H : ∀ (n : Nat) (i : U64) (acc : Bitmap), start.toNat + i.toNat + n ≤ 2 ^ 64 →
      (bitmapSetRangeFrom start n i acc).bit k =
        (acc.bit k || decide (start.toNat + i.toNat ≤ k ∧ k < start.toNat + i.toNat + n ∧
          k < acc.size.toNat)) by
    simpa [bitmapSetRange] using H count.toNat 0#64 bmp (by simpa using h)
  intro n
  induction n with
  | zero =>
      intro i acc _
      have hEmpty : ¬ (start.toNat + i.toNat ≤ k ∧ k < start.toNat + i.toNat + 0 ∧
        k < acc.size.toNat) := by omega
      simp only [bitmapSetRangeFrom, hEmpty, decide_false, Bool.or_false]
  | succ n ih =>
      intro i acc hn
      have hPos : (start + i).toNat = start.toNat + i.toNat := by
        rw [BitVec.toNat_add]
        omega
      rw [bitmapSetRangeFrom]
      split
      · have hNext : n = 0 ∨ (i + 1#64).toNat = i.toNat + 1 := by
          have := i.isLt
          rw [BitVec.toNat_add, BitVec.toNat_ofNat]
          omega
        rcases hNext with hZero | hNext
        · subst hZero
          rw [bitmapSetRangeFrom, bitmapSet_bit, hPos]
          congr 1
          rw [decide_eq_decide]
          omega
        · rw [ih (i + 1#64) _ (by omega), bitmapSet_bit, bitmapSet_size, hPos, hNext,
            Bool.or_assoc, ← Bool.decide_or]
          congr 1
          rw [decide_eq_decide]
          omega
      · rename_i hGe
        have hSize : acc.size.toNat ≤ start.toNat + i.toNat := by
          rw [← hPos]
          exact Nat.le_of_not_lt fun hlt => hGe (BitVec.lt_def.mpr hlt)
        have hNone : ¬ (start.toNat + i.toNat ≤ k ∧ k < start.toNat + i.toNat + (n + 1) ∧
          k < acc.size.toNat) := by omega
        simp [hNone]

@[simp] theorem bitmapSetRange_size (start count : U64) :
    (bitmapSetRange bmp start count).size = bmp.size := by
  suffices H : ∀ (n : Nat) (i : U64) (acc : Bitmap),
      (bitmapSetRangeFrom start n i acc).size = acc.size from H _ _ _
  intro n
  induction n with
  | zero => intro i acc; rfl
  | succ n ih =>
      intro i acc
      rw [bitmapSetRangeFrom]
      split
      · rw [ih, bitmapSet_size]
      · rfl

/-! ## First fit -/

theorem bitmapRangeClear_iff (i count : U64) (h : i.toNat + count.toNat ≤ 2 ^ 64) :
    bitmapRangeClear bmp i count = true ↔ RangeFree bmp i.toNat count.toNat := by
  unfold bitmapRangeClear RangeFree
  simp only [List.all_eq_true, List.mem_range, Bool.not_eq_true', bitmapTest_eq_bit]
  constructor
  · intro hAll k hik hk
    have hBit := hAll (k - i.toNat) (by omega)
    rw [toNat_add_ofNat (by omega)] at hBit
    rwa [show i.toNat + (k - i.toNat) = k by omega] at hBit
  · intro hFree j hj
    rw [toNat_add_ofNat (by omega)]
    exact hFree _ (by omega) (by omega)

/-- The scan started at `i` returns the least fitting position from `i` on, or `-1`. -/
theorem bitmapAllocRangeFrom_cases (count : U64) (hpos : 0 < count.toNat)
    (hle : count.toNat ≤ bmp.size.toNat) :
    ∀ (fuel : Nat) (i : U64), bmp.size.toNat + 1 - i.toNat ≤ fuel → 0 < fuel →
      (∃ p : U64, i.toNat ≤ p.toNat ∧ p.toNat + count.toNat ≤ bmp.size.toNat ∧
          RangeFree bmp p.toNat count.toNat ∧
          (∀ k, i.toNat ≤ k → k < p.toNat → ¬ RangeFree bmp k count.toNat) ∧
          bitmapAllocRangeFrom bmp count fuel i =
            some (intOfSize p, bitmapSetRun bmp p count.toNat)) ∨
        ((∀ k, i.toNat ≤ k → k + count.toNat ≤ bmp.size.toNat →
            ¬ RangeFree bmp k count.toNat) ∧
          bitmapAllocRangeFrom bmp count fuel i = some (-1, bmp)) := by
  have hSize := bmp.size.isLt
  have hBound : (bmp.size - count).toNat = bmp.size.toNat - count.toNat := by
    rw [BitVec.toNat_sub]
    omega
  intro fuel
  induction fuel with
  | zero => intro i _ h; omega
  | succ fuel ih =>
      intro i hFuel _
      rw [bitmapAllocRangeFrom]
      by_cases hi : i ≤ bmp.size - count
      · have hi' : i.toNat + count.toNat ≤ bmp.size.toNat := by
          have := BitVec.le_def.mp hi
          omega
        simp only [hi, if_true]
        by_cases hClear : bitmapRangeClear bmp i count = true
        · left
          refine ⟨i, le_refl _, hi', ?_, fun k hk hk' => by omega, by rw [if_pos hClear]⟩
          exact (bitmapRangeClear_iff bmp i count (by omega)).mp hClear
        · rw [if_neg hClear]
          have hNot : ¬ RangeFree bmp i.toNat count.toNat := fun hFree =>
            hClear ((bitmapRangeClear_iff bmp i count (by omega)).mpr hFree)
          have hNext : (i + 1#64).toNat = i.toNat + 1 := by
            rw [BitVec.toNat_add, BitVec.toNat_ofNat]
            omega
          rcases ih (i + 1#64) (by omega) (by omega) with
            ⟨p, hip, hp, hFree, hLeast, hEq⟩ | ⟨hNone, hEq⟩
          · left
            refine ⟨p, by omega, hp, hFree, ?_, hEq⟩
            intro k hk hkp
            by_cases hki : k = i.toNat
            · rw [hki]; exact hNot
            · exact hLeast k (by omega) hkp
          · right
            refine ⟨?_, hEq⟩
            intro k hk hkn
            by_cases hki : k = i.toNat
            · rw [hki]; exact hNot
            · exact hNone k (by omega) hkn
      · right
        have hi' : bmp.size.toNat < i.toNat + count.toNat := by
          have : ¬ i.toNat ≤ (bmp.size - count).toNat := fun h => hi (BitVec.le_def.mpr h)
          omega
        refine ⟨fun k hk hkn => by omega, by rw [if_neg hi]⟩

/-- `bitmap_alloc_range` is first fit from `start` on. -/
theorem bitmapAllocRange_cases (count start : U64) (hpos : 0 < count.toNat)
    (hle : count.toNat ≤ bmp.size.toNat) :
    (∃ p : U64, start.toNat ≤ p.toNat ∧ p.toNat + count.toNat ≤ bmp.size.toNat ∧
        RangeFree bmp p.toNat count.toNat ∧
        (∀ k, start.toNat ≤ k → k < p.toNat → ¬ RangeFree bmp k count.toNat) ∧
        bitmapAllocRange bmp count start =
          some (intOfSize p, bitmapSetRun bmp p count.toNat)) ∨
      ((∀ k, start.toNat ≤ k → k + count.toNat ≤ bmp.size.toNat →
          ¬ RangeFree bmp k count.toNat) ∧
        bitmapAllocRange bmp count start = some (-1, bmp)) := by
  have hne : count ≠ 0#64 := by
    intro h
    simp [h] at hpos
  have hSize := bmp.size.isLt
  unfold bitmapAllocRange
  rw [if_neg hne]
  exact bitmapAllocRangeFrom_cases bmp count hpos hle (2 ^ 64) start (by omega) (by decide)

/-! ## The word-skipping search -/

/-- Bit `j` of the word with index `i`, as a member of the set. -/
theorem bit_eq_word_bit {i j : Nat} (hj : j < 64) (h : i * 64 + j < bmp.size.toNat) :
    bmp.bit (i * 64 + j) = (bmp.word i).getLsbD j := by
  unfold Bitmap.bit
  rw [show (i * 64 + j) / 64 = i by omega, show (i * 64 + j) % 64 = j by omega]
  simp [h]

/-- The inner loop finds the least bit of the wanted value from position `j` of word `i` on. -/
theorem bitmapFindInWord_cases (want : Bool) (i : U64) (hi : i.toNat * 64 + 64 ≤ 2 ^ 64) :
    ∀ (n j : Nat), j + n = 64 →
      (∃ p : U64, i.toNat * 64 + j ≤ p.toNat ∧ p.toNat < i.toNat * 64 + 64 ∧
          p.toNat < bmp.size.toNat ∧ bmp.bit p.toNat = want ∧
          (∀ k, i.toNat * 64 + j ≤ k → k < p.toNat → bmp.bit k ≠ want) ∧
          bitmapFindInWord bmp want (bmp.word i.toNat) i n j = some p) ∨
        ((∀ k, i.toNat * 64 + j ≤ k → k < i.toNat * 64 + 64 → k < bmp.size.toNat →
            bmp.bit k ≠ want) ∧
          bitmapFindInWord bmp want (bmp.word i.toNat) i n j = none) := by
  intro n
  induction n with
  | zero =>
      intro j hj
      right
      exact ⟨fun k hk hk' _ => by omega, rfl⟩
  | succ n ih =>
      intro j hj
      have hPos : (i * 64#64 + BitVec.ofNat 64 j).toNat = i.toNat * 64 + j := by
        rw [BitVec.toNat_add, BitVec.toNat_mul, BitVec.toNat_ofNat, BitVec.toNat_ofNat]
        omega
      rw [bitmapFindInWord]
      by_cases hEnd : bmp.size ≤ i * 64#64 + BitVec.ofNat 64 j
      · right
        have hEnd' := BitVec.le_def.mp hEnd
        rw [hPos] at hEnd'
        exact ⟨fun k hk hk' hks => by omega, by simp only [hEnd, if_true]⟩
      · have hIn : i.toNat * 64 + j < bmp.size.toNat := by
          rw [← hPos]
          exact Nat.lt_of_not_le fun h => hEnd (BitVec.le_def.mpr h)
        have hBit : (bmp.word i.toNat &&& (1#64 <<< j) != 0#64) =
            bmp.bit (i.toNat * 64 + j) := by
          rw [bit_eq_word_bit bmp (by omega) hIn, Bool.eq_iff_iff, bne_iff_ne, ne_eq,
            and_shiftLeft_one_eq_zero_iff _ (by omega)]
          simp
        simp only [hEnd, if_false, hBit]
        by_cases hHit : bmp.bit (i.toNat * 64 + j) = want
        · left
          refine ⟨i * 64#64 + BitVec.ofNat 64 j, by omega, by omega, by omega, ?_, ?_, ?_⟩
          · rw [hPos]; exact hHit
          · intro k hk hk'
            omega
          · simp [hHit]
        · simp only [hHit, if_false]
          rcases ih (j + 1) (by omega) with
            ⟨p, hjp, hp, hps, hWant, hLeast, hEq⟩ | ⟨hNone, hEq⟩
          · left
            refine ⟨p, by omega, hp, hps, hWant, ?_, hEq⟩
            intro k hk hkp
            by_cases hkj : k = i.toNat * 64 + j
            · rw [hkj]; exact hHit
            · exact hLeast k (by omega) hkp
          · right
            refine ⟨?_, hEq⟩
            intro k hk hk' hks
            by_cases hkj : k = i.toNat * 64 + j
            · rw [hkj]; exact hHit
            · exact hNone k (by omega) hk' hks

/-- The outer loop, entered at word `i`; `lo` is the first position it still has to look at. -/
theorem bitmapFindFrom_cases (want : Bool) (skip wordStart : U64) (bitStart : Nat)
    (hSkip : ∀ j, j < 64 → skip.getLsbD j = !want) (hBit : bitStart < 64)
    (hSize : bmp.size.toNat < 2 ^ 31) :
    ∀ (n : Nat) (i : U64) (lo : Nat), i.toNat + n = (bmp.size.toNat + 63) / 64 →
      lo = i.toNat * 64 + (if i = wordStart then bitStart else 0) →
      (i ≠ wordStart → wordStart.toNat < i.toNat) →
      (∃ p : Nat, lo ≤ p ∧ p < bmp.size.toNat ∧ bmp.bit p = want ∧
          (∀ k, lo ≤ k → k < p → bmp.bit k ≠ want) ∧
          bitmapFindFrom bmp want skip wordStart bitStart n i = p) ∨
        ((∀ k, lo ≤ k → k < bmp.size.toNat → bmp.bit k ≠ want) ∧
          bitmapFindFrom bmp want skip wordStart bitStart n i = -1) := by
  intro n
  induction n with
  | zero =>
      intro i lo hn hlo _
      right
      exact ⟨fun k hk hks => by omega, rfl⟩
  | succ n ih =>
      intro i lo hn hlo hAfter
      have hNext : (i + 1#64).toNat = i.toNat + 1 := by
        rw [BitVec.toNat_add, BitVec.toNat_ofNat]
        omega
      have hNe : i + 1#64 ≠ wordStart := by
        intro h
        rw [← h] at hAfter
        by_cases hi : i = i + 1#64
        · have := congrArg BitVec.toNat hi
          omega
        · have := hAfter hi
          omega
      have hRest := ih (i + 1#64) ((i.toNat + 1) * 64) (by omega)
        (by rw [if_neg hNe, hNext]; omega)
        (fun _ => by
          rw [hNext]
          by_cases hi : i = wordStart
          · rw [hi]; omega
          · have := hAfter hi
            omega)
      have hLo : lo ≤ i.toNat * 64 + 64 := by
        split at hlo <;> omega
      -- a search that finds nothing in this word goes on to the next one
      have hGoOn : (∀ k, lo ≤ k → k < (i.toNat + 1) * 64 → k < bmp.size.toNat →
            bmp.bit k ≠ want) →
          (∃ p : Nat, lo ≤ p ∧ p < bmp.size.toNat ∧ bmp.bit p = want ∧
              (∀ k, lo ≤ k → k < p → bmp.bit k ≠ want) ∧
              bitmapFindFrom bmp want skip wordStart bitStart n (i + 1#64) = p) ∨
            ((∀ k, lo ≤ k → k < bmp.size.toNat → bmp.bit k ≠ want) ∧
              bitmapFindFrom bmp want skip wordStart bitStart n (i + 1#64) = -1) := by
        intro hHere
        rcases hRest with ⟨p, hlop, hps, hWant, hLeast, hEq⟩ | ⟨hNone, hEq⟩
        · left
          refine ⟨p, by omega, hps, hWant, ?_, hEq⟩
          intro k hk hkp
          by_cases hkw : k < (i.toNat + 1) * 64
          · exact hHere k hk hkw (by omega)
          · exact hLeast k (by omega) hkp
        · right
          refine ⟨?_, hEq⟩
          intro k hk hks
          by_cases hkw : k < (i.toNat + 1) * 64
          · exact hHere k hk hkw hks
          · exact hNone k (by omega) hks
      rw [bitmapFindFrom]
      simp only
      by_cases hWord : bmp.word i.toNat = skip
      · rw [if_pos hWord]
        apply hGoOn
        intro k hk hkw hks
        have hDiv : k = i.toNat * 64 + k % 64 := by
          split at hlo <;> omega
        rw [hDiv, bit_eq_word_bit bmp (Nat.mod_lt _ (by decide)) (by omega), hWord,
          hSkip _ (Nat.mod_lt _ (by decide))]
        cases want <;> simp
      · rw [if_neg hWord]
        have hj : (if i = wordStart then bitStart else 0) ≤ 64 := by
          split <;> omega
        rcases bitmapFindInWord_cases bmp want i (by omega)
            (64 - (if i = wordStart then bitStart else 0))
            (if i = wordStart then bitStart else 0) (by omega) with
          ⟨p, hjp, hp, hps, hWant, hLeast, hEq⟩ | ⟨hNone, hEq⟩
        · left
          rw [hEq]
          refine ⟨p.toNat, by omega, hps, hWant, ?_, intOfSize_of_lt (by omega)⟩
          intro k hk hkp
          exact hLeast k (by omega) hkp
        · rw [hEq]
          apply hGoOn
          intro k hk hkw hks
          exact hNone k (by omega) (by omega) hks

/-- The search returns the least bit of the wanted value at or after `start`, or `-1`. -/
theorem bitmapFindFirst_cases (want : Bool) (skip start : U64)
    (hSkip : ∀ j, j < 64 → skip.getLsbD j = !want) (hSize : bmp.size.toNat < 2 ^ 31) :
    (∃ p : Nat, start.toNat ≤ p ∧ p < bmp.size.toNat ∧ bmp.bit p = want ∧
        (∀ k, start.toNat ≤ k → k < p → bmp.bit k ≠ want) ∧
        bitmapFindFirst want skip bmp start = p) ∨
      ((∀ k, start.toNat ≤ k → k < bmp.size.toNat → bmp.bit k ≠ want) ∧
        bitmapFindFirst want skip bmp start = -1) := by
  have hWords : ((bmp.size + 63#64) / 64#64).toNat = (bmp.size.toNat + 63) / 64 := by
    rw [BitVec.toNat_udiv, BitVec.toNat_add, BitVec.toNat_ofNat, BitVec.toNat_ofNat,
      Nat.mod_eq_of_lt (by omega), Nat.mod_eq_of_lt (by decide), Nat.mod_eq_of_lt (by decide)]
  have hStart : (start / 64#64).toNat = start.toNat / 64 := by
    rw [BitVec.toNat_udiv, BitVec.toNat_ofNat]
  unfold bitmapFindFirst
  simp only [hWords, hStart]
  by_cases hIn : start.toNat / 64 ≤ (bmp.size.toNat + 63) / 64
  · refine bitmapFindFrom_cases bmp want skip (start / 64#64) (start.toNat % 64) hSkip
      (Nat.mod_lt _ (by decide)) hSize _ (start / 64#64) start.toNat (by omega) ?_
      (fun h => absurd rfl h)
    simp only [if_true]
    omega
  · right
    refine ⟨fun k hk hks => by omega, ?_⟩
    rw [show (bmp.size.toNat + 63) / 64 - start.toNat / 64 = 0 by omega]
    rfl

/-- `bitmap_find_first_zero` returns the least clear bit at or after `start`, or `-1`. -/
theorem bitmapFindFirstZero_cases (start : U64) (hSize : bmp.size.toNat < 2 ^ 31) :
    (∃ p : Nat, start.toNat ≤ p ∧ p < bmp.size.toNat ∧ bmp.bit p = false ∧
        (∀ k, start.toNat ≤ k → k < p → bmp.bit k = true) ∧
        bitmapFindFirstZero bmp start = p) ∨
      ((∀ k, start.toNat ≤ k → k < bmp.size.toNat → bmp.bit k = true) ∧
        bitmapFindFirstZero bmp start = -1) := by
  have h := bitmapFindFirst_cases bmp false (BitVec.allOnes 64) start
    (fun j hj => by rw [BitVec.getLsbD_allOnes]; simpa using hj) hSize
  simp only [ne_eq, Bool.not_eq_false] at h
  exact h

end Rayos
