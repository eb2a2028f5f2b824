import Mathlib.Order.Bounds.Basic
import Rayos.Mem.BitmapSpec

/-!
# The bitmap in memory as a set of numbers (`bitmap.c`)

`Bitmap` owns its words, so no operation on it can reach another word.  Here `map` is the address of the
first word and the operations store to memory: a word is a number of words from `map` on, in the array or
behind it.  The operations on memory simulate the operations on `Bitmap`, and leave every bit from `size` on
as it was, in the last word and behind the array.
-/

namespace Rayos

/-- `bitmap_t` with the memory behind `map`. -/
structure BitmapAt where
  size : U64
  map : Nat → U64

/-- `bitmap_init`; the bits and the address are those of the caller. -/
def bitmapInitAt (data : Nat → U64) (numBits : U64) : BitmapAt where
  size := numBits
  map := (List.range ((numBits + 63#64) / 64#64).toNat).foldl (fun data i => Function.update data i 0#64) data

/-- `bitmap_set`. -/
def bitmapSetAt (bmp : BitmapAt) (bit : U64) : BitmapAt :=
  if bmp.size ≤ bit then bmp
  else
    let wordIdx := bit.toNat / 64
    let bitIdx := bit.toNat % 64
    { bmp with map := Function.update bmp.map wordIdx (bmp.map wordIdx ||| (1#64 <<< bitIdx)) }

/-- `bitmap_clear`. -/
def bitmapClearAt (bmp : BitmapAt) (bit : U64) : BitmapAt :=
  if bmp.size ≤ bit then bmp
  else
    let wordIdx := bit.toNat / 64
    let bitIdx := bit.toNat % 64
    { bmp with map := Function.update bmp.map wordIdx (bmp.map wordIdx &&& ~~~(1#64 <<< bitIdx)) }

/-- `bitmap_test`. -/
def bitmapTestAt (bmp : BitmapAt) (bit : U64) : Bool :=
  if bmp.size ≤ bit then false
  else
    let wordIdx := bit.toNat / 64
    let bitIdx := bit.toNat % 64
    bmp.map wordIdx &&& (1#64 <<< bitIdx) != 0#64

/-- The loop of `bitmap_set_range` and `bitmap_clear_range`; `change` is `bitmap_set` or `bitmap_clear`. -/
def bitmapRangeFromAt (change : BitmapAt → U64 → BitmapAt) (start : U64) : Nat → U64 → BitmapAt → BitmapAt
  | 0, _, bmp => bmp
  | n + 1, i, bmp =>
      if start + i < bmp.size then bitmapRangeFromAt change start n (i + 1#64) (change bmp (start + i)) else bmp

/-- `bitmap_set_range`. -/
def bitmapSetRangeAt (bmp : BitmapAt) (start count : U64) : BitmapAt :=
  bitmapRangeFromAt bitmapSetAt start count.toNat 0#64 bmp

/-- `bitmap_clear_range`. -/
def bitmapClearRangeAt (bmp : BitmapAt) (start count : U64) : BitmapAt :=
  bitmapRangeFromAt bitmapClearAt start count.toNat 0#64 bmp

/-- The checking loop of `bitmap_alloc_range`. -/
def bitmapRangeClearAt (bmp : BitmapAt) (i count : U64) : Bool :=
  (List.range count.toNat).all fun j => !bitmapTestAt bmp (i + BitVec.ofNat 64 j)

/-- The setting loop of `bitmap_alloc_range`. -/
def bitmapSetRunAt (bmp : BitmapAt) (i : U64) (count : Nat) : BitmapAt :=
  (List.range count).foldl (fun acc j => bitmapSetAt acc (i + BitVec.ofNat 64 j)) bmp

/-- The scanning loop of `bitmap_alloc_range`, `none` when it never ends. -/
def bitmapAllocRangeFromAt (bmp : BitmapAt) (count : U64) : Nat → U64 → Option (Int × BitmapAt)
  | 0, _ => none
  | fuel + 1, i =>
      if i ≤ bmp.size - count then
        if bitmapRangeClearAt bmp i count then
          some (intOfSize i, bitmapSetRunAt bmp i count.toNat)
        else bitmapAllocRangeFromAt bmp count fuel (i + 1#64)
      else some (-1, bmp)

/-- `bitmap_alloc_range`. -/
def bitmapAllocRangeAt (bmp : BitmapAt) (count start : U64) : Option (Int × BitmapAt) :=
  if count = 0#64 then some (-1, bmp)
  else bitmapAllocRangeFromAt bmp count (2 ^ 64) start

/-- `bitmap_free_range`. -/
def bitmapFreeRangeAt (bmp : BitmapAt) (start count : U64) : BitmapAt :=
  (List.range count.toNat).foldl
    (fun acc i =>
      let pos := start + BitVec.ofNat 64 i
      if pos < acc.size then bitmapClearAt acc pos else acc) bmp

/-- A call of an operation that changes the bitmap. -/
inductive BitmapOp where
  | set (bit : U64)
  | clear (bit : U64)
  | setRange (start count : U64)
  | clearRange (start count : U64)
  | allocRange (count start : U64)
  | freeRange (start count : U64)

/-- What the callers keep to, on a bitmap of `n` bits. -/
def BitmapOp.Valid (n : Nat) : BitmapOp → Prop
  | .set _ | .clear _ => True
  | .setRange start count | .clearRange start count | .freeRange start count =>
      start.toNat + count.toNat ≤ 2 ^ 64 - 1
  | .allocRange count start => 1 ≤ count.toNat ∧ count.toNat ≤ n ∧ start.toNat + count.toNat ≤ 2 ^ 64 - 1

/-- The bitmap after the call. -/
def bitmapApply (bmp : BitmapAt) : BitmapOp → Option BitmapAt
  | .set bit => some (bitmapSetAt bmp bit)
  | .clear bit => some (bitmapClearAt bmp bit)
  | .setRange start count => some (bitmapSetRangeAt bmp start count)
  | .clearRange start count => some (bitmapClearRangeAt bmp start count)
  | .allocRange count start => (bitmapAllocRangeAt bmp count start).map Prod.snd
  | .freeRange start count => some (bitmapFreeRangeAt bmp start count)

/-- The bitmap after a sequence of calls. -/
def bitmapRun (ops : List BitmapOp) (bmp : BitmapAt) : Option BitmapAt := ops.foldlM bitmapApply bmp

/-! ## The set -/

/-- The numbers from `i` on, `count` of them. -/
def Run (i count : Nat) : Set Nat := {k | i ≤ k ∧ k < i + count}

/-- A run of `count` numbers below `n` that are not in the set, at `start` or later. -/
def RunFits (n : Nat) (S : Set Nat) (count start i : Nat) : Prop :=
  start ≤ i ∧ i + count ≤ n ∧ ∀ k ∈ Run i count, k ∉ S

/-- The operations on a set of numbers below `n`; an allocation takes the least run that fits. -/
def setApply (n : Nat) (S : Set Nat) : BitmapOp → Set Nat
  | .set bit => S ∪ {k | k = bit.toNat ∧ k < n}
  | .clear bit => S \ {bit.toNat}
  | .setRange start count => S ∪ {k | k ∈ Run start.toNat count.toNat ∧ k < n}
  | .clearRange start count => S \ Run start.toNat count.toNat
  | .allocRange count start =>
      S ∪ {k | ∃ i, IsLeast {i | RunFits n S count.toNat start.toNat i} i ∧ k ∈ Run i count.toNat}
  | .freeRange start count => S \ Run start.toNat count.toNat

namespace BitmapAt

/-- Bit `k` of the memory behind `map`. -/
def memBit (bmp : BitmapAt) (k : Nat) : Bool := (bmp.map (k / 64)).getLsbD (k % 64)

/-- The bitmap without the memory behind it. -/
def words (bmp : BitmapAt) : Bitmap where
  size := bmp.size
  map := (List.range ((bmp.size.toNat + 63) / 64)).map bmp.map
  map_length := by rw [List.length_map, List.length_range]

/-- The set that the bitmap represents. -/
def members (bmp : BitmapAt) : Set Nat := {k | bmp.words.bit k = true}

/-- Nothing but bits below `size` differs. -/
structure Frame (bmp bmp' : BitmapAt) : Prop where
  size : bmp'.size = bmp.size
  bits : ∀ k, bmp.size.toNat ≤ k → bmp'.memBit k = bmp.memBit k

theorem Frame.refl (bmp : BitmapAt) : Frame bmp bmp := ⟨rfl, fun _ _ => rfl⟩

theorem Frame.trans {a b c : BitmapAt} (h : Frame a b) (h' : Frame b c) : Frame a c := by
  constructor
  · rw [h'.size, h.size]
  · intro k hk
    rw [h'.bits k (by rw [h.size]; exact hk), h.bits k hk]

/-- A loop of calls. -/
theorem Frame.foldl {α : Type} {f : BitmapAt → α → BitmapAt} (hf : ∀ bmp a, Frame bmp (f bmp a)) (l : List α)
    (bmp : BitmapAt) : Frame bmp (l.foldl f bmp) := by
  induction l generalizing bmp with
  | nil => exact Frame.refl bmp
  | cons a l ih => exact (hf bmp a).trans (ih (f bmp a))

/-- The words behind the array are the same. -/
theorem Frame.word {bmp bmp' : BitmapAt} (h : Frame bmp bmp') {i : Nat} (hi : (bmp.size.toNat + 63) / 64 ≤ i) :
    bmp'.map i = bmp.map i := by
  apply BitVec.eq_of_getLsbD_eq
  intro j hj
  have hBit := h.bits (i * 64 + j) (by omega)
  unfold memBit at hBit
  rw [show (i * 64 + j) / 64 = i by omega, show (i * 64 + j) % 64 = j by omega] at hBit
  exact hBit

variable {bmp : BitmapAt}

@[simp] theorem words_size : bmp.words.size = bmp.size := rfl

theorem words_word {i : Nat} (hi : i < (bmp.size.toNat + 63) / 64) : bmp.words.word i = bmp.map i := by
  unfold Bitmap.word words
  simp [List.getD_eq_getElem?_getD, hi]

/-- A store to a word of the array. -/
theorem words_update {i : Nat} {w : U64} :
    words { bmp with map := Function.update bmp.map i w } = bmp.words.setWord i w := by
  unfold words Bitmap.setWord
  congr 1
  apply List.ext_getElem
  · simp
  · intro j hj hj'
    rw [List.getElem_set]
    by_cases hij : i = j
    · simp [hij]
    · simp [hij, Ne.symm hij]

/-- A store that changes one bit below `size` of a word. -/
theorem frame_update {bit : U64} {w : U64} (hBit : ¬ bmp.size ≤ bit)
    (hw : ∀ j, j < 64 → j ≠ bit.toNat % 64 → w.getLsbD j = (bmp.map (bit.toNat / 64)).getLsbD j) :
    Frame bmp { bmp with map := Function.update bmp.map (bit.toNat / 64) w } := by
  have hLt : bit.toNat < bmp.size.toNat := Nat.lt_of_not_le fun hle => hBit (BitVec.le_def.mpr hle)
  refine ⟨rfl, fun k hk => ?_⟩
  show (Function.update bmp.map (bit.toNat / 64) w (k / 64)).getLsbD (k % 64) = _
  by_cases hWord : k / 64 = bit.toNat / 64
  · rw [hWord, Function.update_self, hw (k % 64) (Nat.mod_lt k (by decide)) (by omega)]
    unfold memBit
    rw [hWord]
  · rw [Function.update_of_ne hWord]
    rfl

end BitmapAt

open BitmapAt

section Simulation

variable {bmp : BitmapAt}

/-- The word of a bit below `size`. -/
theorem bitIndex_lt {bit : U64} (h : ¬ bmp.size ≤ bit) : bit.toNat / 64 < (bmp.size.toNat + 63) / 64 := by
  have hLt : bit.toNat < bmp.size.toNat := Nat.lt_of_not_le fun hle => h (BitVec.le_def.mpr hle)
  omega

theorem bitmapSetAt_words (bit : U64) : (bitmapSetAt bmp bit).words = bitmapSet bmp.words bit := by
  unfold bitmapSetAt bitmapSet
  by_cases h : bmp.size ≤ bit
  · rw [if_pos h, if_pos (show bmp.words.size ≤ bit from h)]
  · rw [if_neg h, if_neg (show ¬ bmp.words.size ≤ bit from h)]
    simp only
    rw [words_update, words_word (bitIndex_lt h)]

theorem bitmapClearAt_words (bit : U64) : (bitmapClearAt bmp bit).words = bitmapClear bmp.words bit := by
  unfold bitmapClearAt bitmapClear
  by_cases h : bmp.size ≤ bit
  · rw [if_pos h, if_pos (show bmp.words.size ≤ bit from h)]
  · rw [if_neg h, if_neg (show ¬ bmp.words.size ≤ bit from h)]
    simp only
    rw [words_update, words_word (bitIndex_lt h)]

theorem bitmapTestAt_words (bit : U64) : bitmapTestAt bmp bit = bitmapTest bmp.words bit := by
  unfold bitmapTestAt bitmapTest
  by_cases h : bmp.size ≤ bit
  · rw [if_pos h, if_pos (show bmp.words.size ≤ bit from h)]
  · rw [if_neg h, if_neg (show ¬ bmp.words.size ≤ bit from h)]
    simp only
    rw [words_word (bitIndex_lt h)]

theorem bitmapSetAt_frame (bmp : BitmapAt) (bit : U64) : Frame bmp (bitmapSetAt bmp bit) := by
  unfold bitmapSetAt
  by_cases h : bmp.size ≤ bit
  · rw [if_pos h]
    exact Frame.refl bmp
  · rw [if_neg h]
    apply frame_update h
    intro j hj hNe
    rw [BitVec.getLsbD_or, getLsbD_shiftLeft_one hj, decide_eq_false hNe, Bool.or_false]

theorem bitmapClearAt_frame (bmp : BitmapAt) (bit : U64) : Frame bmp (bitmapClearAt bmp bit) := by
  unfold bitmapClearAt
  by_cases h : bmp.size ≤ bit
  · rw [if_pos h]
    exact Frame.refl bmp
  · rw [if_neg h]
    apply frame_update h
    intro j hj hNe
    rw [BitVec.getLsbD_and, BitVec.getLsbD_not, getLsbD_shiftLeft_one hj, decide_eq_false hNe]
    simp [hj]

/-- The loop of `bitmap_set_range` and `bitmap_clear_range`. -/
theorem bitmapRangeFromAt_frame {change : BitmapAt → U64 → BitmapAt}
    (hChange : ∀ bmp bit, Frame bmp (change bmp bit)) (start : U64) (n : Nat) (i : U64) (bmp : BitmapAt) :
    Frame bmp (bitmapRangeFromAt change start n i bmp) := by
  induction n generalizing i bmp with
  | zero => exact Frame.refl bmp
  | succ n ih =>
      unfold bitmapRangeFromAt
      split
      · exact (hChange bmp (start + i)).trans (ih (i + 1#64) _)
      · exact Frame.refl bmp

theorem bitmapSetRunAt_frame (bmp : BitmapAt) (i : U64) (count : Nat) : Frame bmp (bitmapSetRunAt bmp i count) :=
  Frame.foldl (fun bmp j => bitmapSetAt_frame bmp (i + BitVec.ofNat 64 j)) _ bmp

theorem bitmapFreeRangeAt_frame (bmp : BitmapAt) (start count : U64) :
    Frame bmp (bitmapFreeRangeAt bmp start count) := by
  apply Frame.foldl
  intro bmp i
  simp only
  split
  · exact bitmapClearAt_frame bmp _
  · exact Frame.refl bmp

theorem bitmapAllocRangeFromAt_frame (count : U64) {fuel : Nat} {i : U64} {r : Int × BitmapAt}
    (h : bitmapAllocRangeFromAt bmp count fuel i = some r) : Frame bmp r.2 := by
  induction fuel generalizing i with
  | zero => cases h
  | succ fuel ih =>
      unfold bitmapAllocRangeFromAt at h
      split at h
      · split at h
        · cases h
          exact bitmapSetRunAt_frame bmp i count.toNat
        · exact ih h
      · cases h
        exact Frame.refl bmp

theorem bitmapAllocRangeAt_frame {count start : U64} {r : Int × BitmapAt}
    (h : bitmapAllocRangeAt bmp count start = some r) : Frame bmp r.2 := by
  unfold bitmapAllocRangeAt at h
  split at h
  · cases h
    exact Frame.refl bmp
  · exact bitmapAllocRangeFromAt_frame count h

theorem bitmapSetRangeAt_words (start count : U64) :
    (bitmapSetRangeAt bmp start count).words = bitmapSetRange bmp.words start count := by
  unfold bitmapSetRangeAt bitmapSetRange
  generalize count.toNat = n
  generalize 0#64 = i
  induction n generalizing i bmp with
  | zero => rfl
  | succ n ih =>
      unfold bitmapRangeFromAt bitmapSetRangeFrom
      rw [words_size]
      split
      · rw [ih, bitmapSetAt_words]
      · rfl

theorem bitmapSetRunAt_words (i : U64) (count : Nat) :
    (bitmapSetRunAt bmp i count).words = bitmapSetRun bmp.words i count := by
  unfold bitmapSetRunAt bitmapSetRun
  symm
  apply List.foldl_hom words
  intro bmp j
  exact (bitmapSetAt_words (i + BitVec.ofNat 64 j)).symm

theorem bitmapFreeRangeAt_words (start count : U64) :
    (bitmapFreeRangeAt bmp start count).words = bitmapFreeRange bmp.words start count := by
  unfold bitmapFreeRangeAt bitmapFreeRange
  symm
  apply List.foldl_hom words
  intro bmp i
  simp only
  by_cases hIn : start + BitVec.ofNat 64 i < bmp.size
  · rw [if_pos (show _ < bmp.words.size from hIn), if_pos hIn, bitmapClearAt_words]
  · rw [if_neg (show ¬ _ < bmp.words.size from hIn), if_neg hIn]

theorem bitmapRangeClearAt_words (i count : U64) :
    bitmapRangeClearAt bmp i count = bitmapRangeClear bmp.words i count := by
  unfold bitmapRangeClearAt bitmapRangeClear
  simp only [bitmapTestAt_words]

theorem bitmapAllocRangeAt_words (bmp : BitmapAt) (count start : U64) :
    (bitmapAllocRangeAt bmp count start).map (Prod.map id words) = bitmapAllocRange bmp.words count start := by
  unfold bitmapAllocRangeAt bitmapAllocRange
  by_cases hCount : count = 0#64
  · rw [if_pos hCount, if_pos hCount]
    rfl
  · rw [if_neg hCount, if_neg hCount]
    generalize 2 ^ 64 = fuel
    induction fuel generalizing start with
    | zero => rfl
    | succ fuel ih =>
        unfold bitmapAllocRangeFromAt bitmapAllocRangeFrom
        rw [words_size, bitmapRangeClearAt_words]
        split
        · split
          · rw [← bitmapSetRunAt_words]
            rfl
          · exact ih (start + 1#64)
        · rfl

/-- `bitmap_clear_range` removes the interval `[start, start + count)`, as `bitmap_free_range` does. -/
theorem bitmapClearRangeAt_bit (start count : U64) (k : Nat) (h : start.toNat + count.toNat ≤ 2 ^ 64 - 1) :
    (bitmapClearRangeAt bmp start count).words.bit k =
      (bmp.words.bit k && decide (¬ (start.toNat ≤ k ∧ k < start.toNat + count.toNat))) := by
  suffices H : ∀ (n : Nat) (i : U64) (acc : BitmapAt), start.toNat + i.toNat + n ≤ 2 ^ 64 - 1 →
      (bitmapRangeFromAt bitmapClearAt start n i acc).words.bit k =
        (acc.words.bit k && decide (¬ (start.toNat + i.toNat ≤ k ∧ k < start.toNat + i.toNat + n))) by
    simpa [bitmapClearRangeAt] using H count.toNat 0#64 bmp (by simpa using h)
  intro n
  induction n with
  | zero =>
      intro i acc _
      have hEmpty : ¬ (start.toNat + i.toNat ≤ k ∧ k < start.toNat + i.toNat + 0) := by omega
      simp only [bitmapRangeFromAt, hEmpty, not_false_eq_true, decide_true, Bool.and_true]
  | succ n ih =>
      intro i acc hn
      have hPos : (start + i).toNat = start.toNat + i.toNat := by
        rw [BitVec.toNat_add]
        omega
      have hNext : (i + 1#64).toNat = i.toNat + 1 := by
        rw [BitVec.toNat_add, BitVec.toNat_ofNat]
        omega
      unfold bitmapRangeFromAt
      split
      · rw [ih (i + 1#64) _ (by omega), bitmapClearAt_words, bitmapClear_bit, hPos, hNext, Bool.and_assoc,
          ← Bool.decide_and]
        congr 1
        rw [decide_eq_decide]
        omega
      · rename_i hGe
        by_cases hk : start.toNat + i.toNat ≤ k
        · -- every position from here on is past the end
          have hPast : acc.words.bit k = false := by
            apply Bitmap.bit_of_ge
            have hEnd : acc.size.toNat ≤ (start + i).toNat :=
              Nat.le_of_not_lt fun hlt => hGe (BitVec.lt_def.mpr hlt)
            rw [words_size]
            omega
          rw [hPast, Bool.false_and]
        · have hOut : ¬ (start.toNat + i.toNat ≤ k ∧ k < start.toNat + i.toNat + (n + 1)) := fun hIn => hk hIn.1
          simp only [hOut, not_false_eq_true, decide_true, Bool.and_true]

end Simulation

/-! ## Sequences of calls -/

theorem mem_members {bmp : BitmapAt} {k : Nat} : k ∈ bmp.members ↔ bmp.words.bit k = true := Iff.rfl

/-- A member is below `size`. -/
theorem members_lt {bmp : BitmapAt} {k : Nat} (h : k ∈ bmp.members) : k < bmp.size.toNat := by
  by_contra hGe
  rw [mem_members, Bitmap.bit_of_ge bmp.words (Nat.le_of_not_lt hGe)] at h
  cases h

theorem runFits_iff {bmp : BitmapAt} {n count start i : Nat} :
    RunFits n bmp.members count start i ↔ start ≤ i ∧ i + count ≤ n ∧ RangeFree bmp.words i count := by
  unfold RunFits RangeFree
  constructor
  · rintro ⟨hStart, hEnd, hFree⟩
    refine ⟨hStart, hEnd, fun k hk hk' => ?_⟩
    have hOut := hFree k ⟨hk, hk'⟩
    rw [mem_members, Bool.not_eq_true] at hOut
    exact hOut
  · rintro ⟨hStart, hEnd, hFree⟩
    refine ⟨hStart, hEnd, fun k hk hIn => ?_⟩
    rw [mem_members, hFree k hk.1 hk.2] at hIn
    cases hIn

/-- `bitmap_alloc_range` adds the least free run, if there is one. -/
theorem bitmapAllocRangeAt_members (bmp : BitmapAt) {count start : U64} (hPos : 1 ≤ count.toNat)
    (hLe : count.toNat ≤ bmp.size.toNat) :
    ∃ r, bitmapAllocRangeAt bmp count start = some r ∧
      r.2.members = setApply bmp.size.toNat bmp.members (.allocRange count start) := by
  have hSim := bitmapAllocRangeAt_words bmp count start
  rcases bitmapAllocRange_cases bmp.words count start hPos hLe with
    ⟨p, hStart, hEnd, hFree, hLeast, hEq⟩ | ⟨hNone, hEq⟩
  · -- the run taken is the least one that fits
    rw [hEq] at hSim
    obtain ⟨⟨ret, bmp'⟩, hCall, hPair⟩ := Option.map_eq_some_iff.mp hSim
    have hWords : bmp'.words = bitmapSetRun bmp.words p count.toNat := congrArg Prod.snd hPair
    have hIsLeast : IsLeast {i | RunFits bmp.size.toNat bmp.members count.toNat start.toNat i} p.toNat := by
      constructor
      · exact runFits_iff.mpr ⟨hStart, hEnd, hFree⟩
      · intro i hi
        obtain ⟨hFrom, -, hClear⟩ := runFits_iff.mp hi
        by_contra hLt
        exact hLeast i hFrom (Nat.lt_of_not_le hLt) hClear
    refine ⟨(ret, bmp'), hCall, ?_⟩
    ext k
    rw [mem_members, hWords, bitmapSetRun_bit _ _ _ _ (by omega), Bool.or_eq_true, decide_eq_true_iff]
    have hSize : bmp.words.size = bmp.size := rfl
    rw [hSize] at hEnd ⊢
    constructor
    · rintro (hIn | ⟨hGe, hLt, -⟩)
      · exact Or.inl hIn
      · exact Or.inr ⟨p.toNat, hIsLeast, hGe, hLt⟩
    · rintro (hIn | ⟨i, hi, hGe, hLt⟩)
      · exact Or.inl hIn
      · rw [hi.unique hIsLeast] at hGe hLt
        exact Or.inr ⟨hGe, hLt, by omega⟩
  · -- no run fits, so the set that the runs add is empty
    rw [hEq] at hSim
    obtain ⟨⟨ret, bmp'⟩, hCall, hPair⟩ := Option.map_eq_some_iff.mp hSim
    have hWords : bmp'.words = bmp.words := congrArg Prod.snd hPair
    refine ⟨(ret, bmp'), hCall, ?_⟩
    ext k
    rw [mem_members, hWords]
    constructor
    · intro hIn
      exact Or.inl hIn
    · rintro (hIn | ⟨i, hi, -⟩)
      · exact hIn
      · obtain ⟨hFrom, hTo, hClear⟩ := runFits_iff.mp hi.1
        exact absurd hClear (hNone i hFrom hTo)

/-- One call. -/
theorem bitmapApply_members (bmp : BitmapAt) {op : BitmapOp} (hOp : op.Valid bmp.size.toNat) :
    ∃ bmp', bitmapApply bmp op = some bmp' ∧ Frame bmp bmp' ∧
      bmp'.members = setApply bmp.size.toNat bmp.members op := by
  cases op with
  | set bit =>
      refine ⟨_, rfl, bitmapSetAt_frame bmp bit, ?_⟩
      ext k
      rw [mem_members, bitmapSetAt_words, bitmapSet_bit, Bool.or_eq_true, decide_eq_true_iff]
      rfl
  | clear bit =>
      refine ⟨_, rfl, bitmapClearAt_frame bmp bit, ?_⟩
      ext k
      rw [mem_members, bitmapClearAt_words, bitmapClear_bit, Bool.and_eq_true, decide_eq_true_iff]
      rfl
  | setRange start count =>
      have hBound : start.toNat + count.toNat ≤ 2 ^ 64 - 1 := hOp
      refine ⟨_, rfl, bitmapRangeFromAt_frame bitmapSetAt_frame start _ _ bmp, ?_⟩
      ext k
      show (bitmapSetRangeAt bmp start count).words.bit k = true ↔ _
      rw [bitmapSetRangeAt_words, bitmapSetRange_bit _ _ _ _ (by omega), Bool.or_eq_true, decide_eq_true_iff,
        ← and_assoc]
      rfl
  | clearRange start count =>
      refine ⟨_, rfl, bitmapRangeFromAt_frame bitmapClearAt_frame start _ _ bmp, ?_⟩
      ext k
      show (bitmapClearRangeAt bmp start count).words.bit k = true ↔ _
      rw [bitmapClearRangeAt_bit _ _ _ hOp, Bool.and_eq_true, decide_eq_true_iff]
      rfl
  | allocRange count start =>
      obtain ⟨hPos, hLe, -⟩ := hOp
      obtain ⟨r, hCall, hMembers⟩ := bitmapAllocRangeAt_members bmp hPos hLe
      refine ⟨r.2, ?_, bitmapAllocRangeAt_frame hCall, hMembers⟩
      show (bitmapAllocRangeAt bmp count start).map Prod.snd = some r.2
      rw [hCall]
      rfl
  | freeRange start count =>
      have hBound : start.toNat + count.toNat ≤ 2 ^ 64 - 1 := hOp
      refine ⟨_, rfl, bitmapFreeRangeAt_frame bmp start count, ?_⟩
      ext k
      rw [mem_members, bitmapFreeRangeAt_words, bitmapFreeRange_bit _ _ _ _ (by omega), Bool.and_eq_true,
        decide_eq_true_iff]
      rfl

/-- **The bitmap is a set of numbers below `n`.**  After any sequence of calls `bitmap_test` is membership in
the set that the same operations make of the first one; no bit from `n` on has changed, in the last word or
behind it, and so no word behind the array. -/
theorem bitmapRun_members (ops : List BitmapOp) (bmp : BitmapAt)
    (hOps : ∀ op ∈ ops, op.Valid bmp.size.toNat) :
    ∃ bmp', bitmapRun ops bmp = some bmp' ∧
      (∀ b : U64, bitmapTestAt bmp' b = true ↔ b.toNat ∈ ops.foldl (setApply bmp.size.toNat) bmp.members) ∧
      (∀ k ∈ ops.foldl (setApply bmp.size.toNat) bmp.members, k < bmp.size.toNat) ∧
      (∀ k, bmp.size.toNat ≤ k → bmp'.memBit k = bmp.memBit k) ∧
      ∀ i, (bmp.size.toNat + 63) / 64 ≤ i → bmp'.map i = bmp.map i := by
  suffices H : ∃ bmp', bitmapRun ops bmp = some bmp' ∧ Frame bmp bmp' ∧
      bmp'.members = ops.foldl (setApply bmp.size.toNat) bmp.members by
    obtain ⟨bmp', hRun, hFrame, hMembers⟩ := H
    refine ⟨bmp', hRun, ?_, ?_, hFrame.bits, fun i hi => hFrame.word hi⟩
    · intro b
      rw [← hMembers, mem_members, bitmapTestAt_words, bitmapTest_eq_bit]
    · intro k hk
      rw [← hMembers] at hk
      rw [← hFrame.size]
      exact members_lt hk
  induction ops generalizing bmp with
  | nil => exact ⟨bmp, rfl, Frame.refl bmp, rfl⟩
  | cons op ops ih =>
      obtain ⟨hOp, hRest⟩ := List.forall_mem_cons.mp hOps
      obtain ⟨mid, hCall, hFrame, hMembers⟩ := bitmapApply_members bmp hOp
      rw [← hFrame.size] at hRest
      obtain ⟨bmp', hRun, hFrame', hMembers'⟩ := ih mid hRest
      refine ⟨bmp', ?_, hFrame.trans hFrame', ?_⟩
      · show (bitmapApply bmp op).bind (bitmapRun ops) = some bmp'
        rw [hCall]
        exact hRun
      · rw [hMembers', hMembers, hFrame.size]
        rfl

/-- Calls on seventy bits: a run across the two words, one past the end, and a run that is taken. -/
theorem bitmapRun_members_seventy :
    ∃ bmp', bitmapRun [.setRange 60#64 8#64, .clear 63#64, .clearRange 68#64 9#64, .allocRange 2#64 59#64]
        ⟨70#64, fun _ => 0#64⟩ = some bmp' ∧ ∀ i, 2 ≤ i → bmp'.map i = 0#64 := by
  have hOps : ∀ op ∈ [BitmapOp.setRange 60#64 8#64, .clear 63#64, .clearRange 68#64 9#64, .allocRange 2#64 59#64],
      op.Valid 70 := by
    intro op hOp
    simp only [List.mem_cons, List.not_mem_nil, or_false] at hOp
    rcases hOp with rfl | rfl | rfl | rfl <;> simp [BitmapOp.Valid]
  obtain ⟨bmp', hRun, -, -, -, hWords⟩ := bitmapRun_members _ ⟨70#64, fun _ => 0#64⟩ hOps
  exact ⟨bmp', hRun, hWords⟩

/-- `bitmap_init` leaves the empty set, and the words behind the array as they were. -/
theorem bitmapInitAt_members (data : Nat → U64) (numBits : U64) (hBits : numBits.toNat + 63 < 2 ^ 64) :
    (bitmapInitAt data numBits).members = ∅ ∧
      ∀ i, (numBits.toNat + 63) / 64 ≤ i → (bitmapInitAt data numBits).map i = data i := by
  have hWords : ((numBits + 63#64) / 64#64).toNat = (numBits.toNat + 63) / 64 := by
    rw [BitVec.toNat_udiv, BitVec.toNat_add, BitVec.toNat_ofNat, BitVec.toNat_ofNat,
      Nat.mod_eq_of_lt (show 63 < 2 ^ 64 by decide), Nat.mod_eq_of_lt hBits, Nat.mod_eq_of_lt (by decide)]
  have hMap : ∀ n i, (List.range n).foldl (fun data i => Function.update data i 0#64) data i =
      if i < n then 0#64 else data i := by
    intro n i
    induction n with
    | zero => rfl
    | succ n ih =>
        rw [List.range_succ, List.foldl_append, List.foldl_cons, List.foldl_nil, Function.update_apply, ih]
        split_ifs <;> first | rfl | omega
  have hInit : ∀ i, (bitmapInitAt data numBits).map i = if i < (numBits.toNat + 63) / 64 then 0#64 else data i := by
    intro i
    rw [← hWords]
    exact hMap _ i
  constructor
  · apply Set.eq_empty_of_forall_notMem
    intro k hk
    have hLt : k < numBits.toNat := members_lt hk
    rw [mem_members, Bitmap.bit, words_word (show k / 64 < (numBits.toNat + 63) / 64 by omega), hInit,
      if_pos (by omega)] at hk
    simp at hk
  · intro i hi
    rw [hInit, if_neg (by omega)]

end Rayos
