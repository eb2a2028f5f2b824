import Rayos.Lib.Program
import Rayos.Mem.PageAlloc
import Mathlib.Logic.Relation

/-!
# Concurrent calls of `alloc_pages` (`page.c`, `bitmap.c`)

`kmalloc` calls `alloc_pages` under `mm_spinlock` and `make_elf64_task` under `run_process_spinlock`, so
that nothing orders the two calls.  Here any number of callers are inside `alloc_pages`, and one step is
one `bitmap_test`, one `bitmap_set`, or the search for the first zero bit.

`bitmap_alloc_range` tests a whole run of bits and only then sets them: two callers that have both tested
a bit before one of them sets it both take the frame.  `Unseen` excludes the steps that set a bit which
another caller has already seen clear in the run that it is testing or setting, and `AllocInv` is the
invariant of the runs that are left.
-/

namespace Rayos

/-- Where a call of `alloc_pages` is. -/
inductive AllocPc where
  /-- Before `bitmap_find_first_zero`. -/
  | call
  /-- Before `bitmap_test(bmp, i + j)`. -/
  | test (i j : U64)
  /-- Before `bitmap_set(bmp, i + j)`. -/
  | set (i j : U64)
  /-- `bitmap_alloc_range` has returned. -/
  | returned (ret : Int)
  deriving DecidableEq

/-- The head of the scanning loop of `bitmap_alloc_range`. -/
def scanFrom (bmp : Bitmap) (count i : U64) : AllocPc :=
  if i ≤ bmp.size - count then .test i 0#64 else .returned (-1)

/-- A step of `alloc_pages(order)`. -/
def allocStep (bmp : Bitmap) (order : U64) : AllocPc → Option (Bitmap × AllocPc)
  | .call =>
      if orderToPages order = 0#64 then some (bmp, .returned (-1))
      else some (bmp, scanFrom bmp (orderToPages order) (sizeOfInt (bitmapFindFirstZero bmp 0#64)))
  | .test i j =>
      if bitmapTest bmp (i + j) then some (bmp, scanFrom bmp (orderToPages order) (i + 1#64))
      else some (bmp, if j + 1#64 < orderToPages order then .test i (j + 1#64) else .set i 0#64)
  | .set i j =>
      some (bitmapSet bmp (i + j),
        if j + 1#64 < orderToPages order then .set i (j + 1#64) else .returned (intOfSize i))
  | .returned _ => none

/-- The bitmap, and where each caller is. -/
structure AllocRace (Caller : Type) where
  bitmap : Bitmap
  pc : Caller → AllocPc

/-! ## A call that is alone -/

/-- A step of a call that nothing interferes with. -/
def AllocAlone (order : U64) (a b : Bitmap × AllocPc) : Prop := allocStep a.1 order a.2 = some b

/-- The checking loop from position `j` on, after all positions below have been found clear. -/
theorem testLoop_alone {bmp : Bitmap} {order i : U64} :
    ∀ (n : Nat) (j : U64), j.toNat + (n + 1) = (orderToPages order).toNat →
      Relation.ReflTransGen (AllocAlone order) (bmp, .test i j)
        (bmp, if (List.range' j.toNat (n + 1)).all fun j => !bitmapTest bmp (i + BitVec.ofNat 64 j)
          then .set i 0#64 else scanFrom bmp (orderToPages order) (i + 1#64)) := by
  intro n
  induction n with
  | zero =>
      intro j hj
      refine .single ?_
      have hLast : ¬ j + 1#64 < orderToPages order := by
        rw [BitVec.lt_def, BitVec.toNat_add, BitVec.toNat_ofNat]
        have := (orderToPages order).isLt
        omega
      simp only [AllocAlone, allocStep, hLast, if_false]
      cases hTest : bitmapTest bmp (i + j) <;> simp [hTest]
  | succ n ih =>
      intro j hj
      have hLt := (orderToPages order).isLt
      have hNext : (j + 1#64).toNat = j.toNat + 1 := by
        rw [BitVec.toNat_add, BitVec.toNat_ofNat]
        omega
      have hMore : j + 1#64 < orderToPages order := by
        rw [BitVec.lt_def, hNext]
        omega
      cases hTest : bitmapTest bmp (i + j) with
      | true =>
          refine .single ?_
          simp [AllocAlone, allocStep, hTest, List.range'_succ]
      | false =>
          refine .head (b := (bmp, .test i (j + 1#64))) ?_ ?_
          · simp [AllocAlone, allocStep, hTest, hMore]
          · have hRest := ih (j + 1#64) (by omega)
            rw [hNext] at hRest
            rw [List.range'_succ]
            simpa only [List.all_cons, BitVec.ofNat_toNat, BitVec.setWidth_eq, hTest, Bool.not_false,
              Bool.true_and] using hRest

/-- The setting loop from position `j` on. -/
theorem setLoop_alone {order i : U64} :
    ∀ (n : Nat) (j : U64) (bmp : Bitmap), j.toNat + (n + 1) = (orderToPages order).toNat →
      Relation.ReflTransGen (AllocAlone order) (bmp, .set i j)
        ((List.range' j.toNat (n + 1)).foldl
          (fun acc j => bitmapSet acc (i + BitVec.ofNat 64 j)) bmp, .returned (intOfSize i)) := by
  intro n
  induction n with
  | zero =>
      intro j bmp hj
      refine .single ?_
      have hLast : ¬ j + 1#64 < orderToPages order := by
        rw [BitVec.lt_def, BitVec.toNat_add, BitVec.toNat_ofNat]
        have := (orderToPages order).isLt
        omega
      simp [AllocAlone, allocStep, hLast]
  | succ n ih =>
      intro j bmp hj
      have hLt := (orderToPages order).isLt
      have hNext : (j + 1#64).toNat = j.toNat + 1 := by
        rw [BitVec.toNat_add, BitVec.toNat_ofNat]
        omega
      have hMore : j + 1#64 < orderToPages order := by
        rw [BitVec.lt_def, hNext]
        omega
      refine .head (b := (bitmapSet bmp (i + j), .set i (j + 1#64))) ?_ ?_
      · simp [AllocAlone, allocStep, hMore]
      · have hRest := ih (j + 1#64) (bitmapSet bmp (i + j)) (by omega)
        rw [hNext] at hRest
        rw [List.range'_succ]
        simpa only [List.foldl_cons, BitVec.ofNat_toNat, BitVec.setWidth_eq] using hRest

/-- The steps of a call that is alone compute `bitmap_alloc_range`. -/
theorem allocRange_alone {order : U64} {ret : Int} {bmp bmp' : Bitmap}
    (hPos : 0 < (orderToPages order).toNat) :
    ∀ (fuel : Nat) (i : U64),
      bitmapAllocRangeFrom bmp (orderToPages order) fuel i = some (ret, bmp') →
        Relation.ReflTransGen (AllocAlone order)
          (bmp, scanFrom bmp (orderToPages order) i) (bmp', .returned ret) := by
  intro fuel
  induction fuel with
  | zero =>
      intro i h
      cases h
  | succ fuel ih =>
      intro i h
      rw [bitmapAllocRangeFrom] at h
      obtain ⟨n, hn⟩ : ∃ n, (orderToPages order).toNat = n + 1 := ⟨_, (Nat.succ_pred_eq_of_pos hPos).symm⟩
      split at h
      · rename_i hLe
        rw [scanFrom, if_pos hLe]
        have hTests := @testLoop_alone bmp order i n 0#64 (by simpa using hn.symm)
        have hRange : bitmapRangeClear bmp i (orderToPages order) =
            (List.range' 0 (n + 1)).all fun j => !bitmapTest bmp (i + BitVec.ofNat 64 j) := by
          rw [bitmapRangeClear, hn, List.range_eq_range']
        rw [show (0#64).toNat = 0 from rfl, ← hRange] at hTests
        split at h
        · rename_i hClear
          cases h
          rw [if_pos hClear] at hTests
          have hSets := setLoop_alone (i := i) n 0#64 bmp (by simpa using hn.symm)
          apply hTests.trans
          rw [bitmapSetRun, hn, List.range_eq_range']
          exact hSets
        · rename_i hTaken
          rw [if_neg hTaken] at hTests
          exact hTests.trans (ih _ h)
      · rename_i hEnd
        cases h
        rw [scanFrom, if_neg hEnd]

/-- **The steps are those of `alloc_pages`.**  A call that is alone returns what `alloc_pages` returns
and leaves its bitmap. -/
theorem allocPages_alone {order pa : U64} {bmp bmp' : Bitmap}
    (h : allocPages bmp order = some (pa, bmp')) :
    ∃ ret, Relation.ReflTransGen (AllocAlone order) (bmp, .call) (bmp', .returned ret) ∧
      pa = if ret < 0 then sizeOfInt ret else sizeOfInt ret * pageSize := by
  unfold allocPages at h
  simp only at h
  split at h
  · cases h
  · rename_i ret bmp'' hRange
    have hPa : pa = (if ret < 0 then sizeOfInt ret else sizeOfInt ret * pageSize) ∧ bmp'' = bmp' := by
      split at h <;> cases h <;> simp_all
    obtain ⟨hPa, rfl⟩ := hPa
    refine ⟨ret, ?_, hPa⟩
    unfold bitmapAllocRange at hRange
    split at hRange
    · rename_i hZero
      cases hRange
      exact .single (by simp [AllocAlone, allocStep, hZero])
    · rename_i hZero
      refine .head (b := (bmp, scanFrom bmp (orderToPages order)
        (sizeOfInt (bitmapFindFirstZero bmp 0#64)))) ?_ ?_
      · simp [AllocAlone, allocStep, hZero]
      · refine allocRange_alone (Nat.pos_of_ne_zero fun hEq => hZero ?_) _ _ hRange
        exact BitVec.eq_of_toNat_eq (by simpa using hEq)

/-! ## Interleavings -/

section Race

variable {Caller : Type} [DecidableEq Caller] (order : Caller → U64)

/-- One step of the caller `c`. -/
def raceStep (s : AllocRace Caller) (c : Caller) : Option (AllocRace Caller) :=
  (allocStep s.bitmap (order c) (s.pc c)).map fun r => ⟨r.1, Function.update s.pc c r.2⟩

/-- A step of some caller that `Allowed` admits. -/
def RaceNext (Allowed : AllocRace Caller → Caller → Prop) (s s' : AllocRace Caller) : Prop :=
  ∃ c, Allowed s c ∧ raceStep order s c = some s'

/-- The states that interleavings of admitted steps reach. -/
abbrev RaceReachable (Allowed : AllocRace Caller → Caller → Prop) :
    AllocRace Caller → AllocRace Caller → Prop :=
  Relation.ReflTransGen (RaceNext order Allowed)

/-- The block that a call has returned: `ret * PAGE_SIZE`, unless `ret` is negative. -/
def AllocPc.block? (order : U64) : AllocPc → Option Block
  | .returned ret => if ret < 0 then none else some ⟨sizeOfInt ret * pageSize, order⟩
  | _ => none

/-- No two callers have been given overlapping blocks. -/
def NoOverlap (s : AllocRace Caller) : Prop :=
  ∀ c d b b', c ≠ d → (s.pc c).block? (order c) = some b → (s.pc d).block? (order d) = some b' →
    b.Disjoint b'

/-- The bits that a call has seen clear in the run of `count` bits that it is testing or setting. -/
def AllocPc.Seen (count k : Nat) : AllocPc → Prop
  | .test i j => i.toNat ≤ k ∧ k < i.toNat + j.toNat
  | .set i _ => i.toNat ≤ k ∧ k < i.toNat + count
  | _ => False

/-- The steps that set no bit that another caller has already seen clear. -/
def Unseen (s : AllocRace Caller) (c : Caller) : Prop :=
  ∀ i j, s.pc c = .set i j → ∀ d, d ≠ c → ¬ (s.pc d).Seen (orderToPages (order d)).toNat (i + j).toNat

/-! ## The invariant -/

/-- The bits that a call has set. -/
def AllocPc.Owned (count k : Nat) : AllocPc → Prop
  | .set i j => i.toNat ≤ k ∧ k < i.toNat + j.toNat
  | .returned ret => 0 ≤ ret ∧ ret ≤ k ∧ (k : Int) < ret + count
  | _ => False

/-- The run that a call is at lies in the bitmap. -/
def AllocPc.Inside (size count : Nat) : AllocPc → Prop
  | .test i j | .set i j => i.toNat + count ≤ size ∧ j.toNat < count
  | .returned ret => 0 ≤ ret → ret + count ≤ size
  | .call => True

/-- Every call is inside the bitmap, what a call has set is set, and no other call has seen it clear. -/
structure AllocInv (s : AllocRace Caller) : Prop where
  inside : ∀ c, (s.pc c).Inside s.bitmap.size.toNat (orderToPages (order c)).toNat
  owned : ∀ c k, (s.pc c).Owned (orderToPages (order c)).toNat k → s.bitmap.bit k = true
  apart : ∀ c d k, c ≠ d → (s.pc c).Owned (orderToPages (order c)).toNat k →
    ¬ (s.pc d).Seen (orderToPages (order d)).toNat k ∧ ¬ (s.pc d).Owned (orderToPages (order d)).toNat k

/-- The bits that the calls ask for fit the bitmap, and an `int` holds every position. -/
structure AllocFits (bmp : Bitmap) : Prop where
  size : bmp.size.toNat < 2 ^ 31
  pages : ∀ c, 2 ^ (order c).toNat ≤ bmp.size.toNat

variable {order} {s s' : AllocRace Caller} {c : Caller}

theorem scanFrom_spec {bmp : Bitmap} {count i : U64} (hPos : 0 < count.toNat)
    (hCount : count.toNat ≤ bmp.size.toNat) :
    (scanFrom bmp count i).Inside bmp.size.toNat count.toNat ∧
      ∀ n k, ¬ (scanFrom bmp count i).Seen n k ∧ ¬ (scanFrom bmp count i).Owned n k := by
  have hBound : (bmp.size - count).toNat = bmp.size.toNat - count.toNat := by
    have hSize := bmp.size.isLt
    rw [BitVec.toNat_sub]
    omega
  unfold scanFrom
  split
  · rename_i hLe
    have hLe' := BitVec.le_def.mp hLe
    refine ⟨⟨by omega, by simpa using hPos⟩, fun n k => ⟨?_, id⟩⟩
    simp only [AllocPc.Seen, BitVec.toNat_ofNat]
    omega
  · exact ⟨fun h => absurd h (by decide), fun n k => ⟨id, fun h => absurd h.1 (by decide)⟩⟩

/-- What one step of a call does. -/
structure AllocStepSpec (bmp bmp' : Bitmap) (count : Nat) (pc pc' : AllocPc) : Prop where
  size : bmp'.size = bmp.size
  inside : pc'.Inside bmp.size.toNat count
  kept : ∀ k, bmp.bit k = true → bmp'.bit k = true
  seen : ∀ k, pc'.Seen count k → pc.Seen count k ∨ bmp.bit k = false
  /-- A bit is set only in a run whose bits have all been seen clear. -/
  owned : ∀ k, pc'.Owned count k → pc.Owned count k ∨
    bmp'.bit k = true ∧ pc.Seen count k ∧ ∃ i j, pc = .set i j ∧ k = (i + j).toNat

theorem allocStep_spec {bmp : Bitmap} {o : U64} {pc : AllocPc} {r : Bitmap × AllocPc}
    (hSize : bmp.size.toNat < 2 ^ 31) (hPos : 0 < (orderToPages o).toNat)
    (hCount : (orderToPages o).toNat ≤ bmp.size.toNat)
    (hInside : pc.Inside bmp.size.toNat (orderToPages o).toNat)
    (hStep : allocStep bmp o pc = some r) :
    AllocStepSpec bmp r.1 (orderToPages o).toNat pc r.2 := by
  have hScan := fun i => scanFrom_spec (i := i) hPos hCount
  cases pc with
  | call =>
      simp only [allocStep] at hStep
      split at hStep
      · rename_i hZero
        simp [hZero] at hPos
      · cases hStep
        exact ⟨rfl, (hScan _).1, fun _ => id, fun k hk => absurd hk ((hScan _).2 _ k).1,
          fun k hk => absurd hk ((hScan _).2 _ k).2⟩
  | test i j =>
      obtain ⟨hFit, hj⟩ := hInside
      have hNext : (j + 1#64).toNat = j.toNat + 1 := by
        rw [BitVec.toNat_add, BitVec.toNat_ofNat]
        omega
      have hBit : (i + j).toNat = i.toNat + j.toNat := by
        rw [BitVec.toNat_add]
        omega
      simp only [allocStep] at hStep
      split at hStep
      · cases hStep
        exact ⟨rfl, (hScan _).1, fun _ => id, fun k hk => absurd hk ((hScan _).2 _ k).1,
          fun k hk => absurd hk ((hScan _).2 _ k).2⟩
      · rename_i hClear
        rw [bitmapTest_eq_bit, hBit, Bool.not_eq_true] at hClear
        cases hStep
        -- the bit that has just been tested
        have hLast : ∀ k, i.toNat ≤ k → k < i.toNat + (j.toNat + 1) →
            (AllocPc.test i j).Seen (orderToPages o).toNat k ∨ bmp.bit k = false := by
          intro k hk hk'
          by_cases hEq : k = i.toNat + j.toNat
          · rw [hEq]
            exact Or.inr hClear
          · exact Or.inl ⟨hk, by omega⟩
        by_cases hMore : j + 1#64 < orderToPages o
        · have hMore' := BitVec.lt_def.mp hMore
          rw [if_pos hMore]
          refine ⟨rfl, ⟨hFit, hMore'⟩, fun _ => id, ?_, fun k hk => absurd hk id⟩
          rintro k ⟨hk, hk'⟩
          exact hLast k hk (by omega)
        · have hMore' : ¬ (j + 1#64).toNat < (orderToPages o).toNat :=
            fun h => hMore (BitVec.lt_def.mpr h)
          rw [if_neg hMore]
          refine ⟨rfl, ⟨hFit, by simpa using hPos⟩, fun _ => id, ?_, ?_⟩
          · rintro k ⟨hk, hk'⟩
            exact hLast k hk (by omega)
          · rintro k ⟨hk, hk'⟩
            simp at hk'
            omega
  | set i j =>
      obtain ⟨hFit, hj⟩ := hInside
      have hNext : (j + 1#64).toNat = j.toNat + 1 := by
        rw [BitVec.toNat_add, BitVec.toNat_ofNat]
        omega
      have hBit : (i + j).toNat = i.toNat + j.toNat := by
        rw [BitVec.toNat_add]
        omega
      cases hStep
      have hKept : ∀ k, bmp.bit k = true → (bitmapSet bmp (i + j)).bit k = true := by
        intro k hk
        rw [bitmapSet_bit, hk, Bool.true_or]
      -- the bit that has just been set
      have hLast : ∀ k, i.toNat ≤ k → k < i.toNat + (j.toNat + 1) →
          (AllocPc.set i j).Owned (orderToPages o).toNat k ∨
            (bitmapSet bmp (i + j)).bit k = true ∧
              (AllocPc.set i j).Seen (orderToPages o).toNat k ∧
              ∃ i' j', AllocPc.set i j = .set i' j' ∧ k = (i' + j').toNat := by
        intro k hk hk'
        by_cases hEq : k = i.toNat + j.toNat
        · refine Or.inr ⟨?_, ⟨hk, by omega⟩, i, j, rfl, by rw [hBit]; exact hEq⟩
          rw [bitmapSet_bit, hBit, hEq]
          simp
          omega
        · exact Or.inl ⟨hk, by omega⟩
      by_cases hMore : j + 1#64 < orderToPages o
      · have hMore' := BitVec.lt_def.mp hMore
        rw [if_pos hMore]
        refine ⟨bitmapSet_size bmp _, ⟨hFit, hMore'⟩, hKept, fun k hk => Or.inl hk, ?_⟩
        rintro k ⟨hk, hk'⟩
        exact hLast k hk (by omega)
      · have hMore' : ¬ (j + 1#64).toNat < (orderToPages o).toNat :=
          fun h => hMore (BitVec.lt_def.mpr h)
        have hInt : intOfSize i = i.toNat := intOfSize_of_lt (by omega)
        rw [if_neg hMore]
        refine ⟨bitmapSet_size bmp _, fun _ => by rw [hInt]; omega, hKept, fun k hk => absurd hk id, ?_⟩
        rintro k ⟨-, hk, hk'⟩
        rw [hInt] at hk hk'
        exact hLast k (by omega) (by omega)
  | returned ret => cases hStep

omit [DecidableEq Caller] in
theorem AllocFits.count (h : AllocFits order s.bitmap) (c : Caller) :
    (orderToPages (order c)).toNat = 2 ^ (order c).toNat := by
  have hLt := order_lt_of_pow_le (h.pages c) h.size
  exact orderToPages_toNat (by omega)

theorem allocInv_step (hFits : AllocFits order s.bitmap) (h : AllocInv order s)
    (hUnseen : Unseen order s c) (hStep : raceStep order s c = some s') :
    AllocInv order s' ∧ s'.bitmap.size = s.bitmap.size := by
  simp only [raceStep, Option.map_eq_some_iff] at hStep
  obtain ⟨r, hr, rfl⟩ := hStep
  have hCount := hFits.count c
  have hSpec := allocStep_spec hFits.size (by rw [hCount]; exact Nat.pow_pos (by decide))
    (by rw [hCount]; exact hFits.pages c) (h.inside c) hr
  refine ⟨⟨?_, ?_, ?_⟩, hSpec.size⟩
  · intro d
    rw [hSpec.size]
    by_cases hd : d = c
    · subst hd
      simpa using hSpec.inside
    · simpa [hd] using h.inside d
  · intro d k hOwned
    by_cases hd : d = c
    · subst hd
      rcases hSpec.owned k (by simpa using hOwned) with hOld | ⟨hBit, -⟩
      · exact hSpec.kept k (h.owned d k hOld)
      · exact hBit
    · exact hSpec.kept k (h.owned d k (by simpa [hd] using hOwned))
  · intro d e k hde hOwned
    by_cases hd : d = c
    · -- the caller has set the bit
      subst hd
      simp only [Function.update_of_ne hde.symm]
      rcases hSpec.owned k (by simpa using hOwned) with hOld | ⟨-, hSeen, i, j, hPc, rfl⟩
      · exact h.apart d e k hde hOld
      · exact ⟨hUnseen i j hPc e hde.symm, fun hOther => (h.apart e d _ hde.symm hOther).1 hSeen⟩
    · simp only [Function.update_of_ne hd] at hOwned
      by_cases he : e = c
      · -- another one has
        subst he
        obtain ⟨hNotSeen, hNotOwned⟩ := h.apart d e k hde hOwned
        simp only [Function.update_self]
        constructor
        · intro hSeen
          rcases hSpec.seen k hSeen with hOld | hClear
          · exact hNotSeen hOld
          · rw [h.owned d k hOwned] at hClear
            cases hClear
        · intro hNew
          rcases hSpec.owned k hNew with hOld | ⟨-, hSeen, -⟩
          · exact hNotOwned hOld
          · exact hNotSeen hSeen
      · simp only [Function.update_of_ne he]
        exact h.apart d e k hde hOwned

/-- Every caller is at the beginning of `alloc_pages`. -/
def AllocStart (s : AllocRace Caller) : Prop := ∀ c, s.pc c = .call

omit [DecidableEq Caller] in
theorem allocInv_start (h : AllocStart s) : AllocInv order s := by
  refine ⟨fun c => ?_, fun c k hOwned => ?_, fun c d k _ hOwned => ?_⟩
  · rw [h c]
    trivial
  · rw [h c] at hOwned
    exact absurd hOwned id
  · rw [h c] at hOwned
    exact absurd hOwned id

theorem allocInv_of_reachable {s0 : AllocRace Caller} (hStart : AllocStart s0)
    (hFits : AllocFits order s0.bitmap) (hReach : RaceReachable order (Unseen order) s0 s) :
    AllocInv order s ∧ s.bitmap.size = s0.bitmap.size := by
  induction hReach with
  | refl => exact ⟨allocInv_start hStart, rfl⟩
  | tail _ hNext ih =>
      obtain ⟨c, hUnseen, hStep⟩ := hNext
      obtain ⟨hInv, hSize⟩ := ih
      have hFits' : AllocFits order _ := ⟨by rw [hSize]; exact hFits.size, by rw [hSize]; exact hFits.pages⟩
      obtain ⟨hInv', hSize'⟩ := allocInv_step hFits' hInv hUnseen hStep
      exact ⟨hInv', hSize'.trans hSize⟩

omit [DecidableEq Caller] in
/-- The frames of a block that has been returned are those that the call has set. -/
theorem AllocInv.owned_of_block (h : AllocInv order s) (hFits : AllocFits order s.bitmap) {b : Block}
    (hBlock : (s.pc c).block? (order c) = some b) {k : Nat} (hk : b.Has k) :
    (s.pc c).Owned (orderToPages (order c)).toNat k := by
  have hInside := h.inside c
  have hSize := hFits.size
  rw [hFits.count c] at hInside ⊢
  cases hPc : s.pc c with
  | call | test | set => simp [hPc, AllocPc.block?] at hBlock
  | returned ret =>
      rw [hPc] at hBlock hInside
      simp only [AllocPc.block?] at hBlock
      split at hBlock
      · cases hBlock
      · rename_i hNeg
        cases hBlock
        obtain ⟨n, rfl⟩ := Int.eq_ofNat_of_zero_le (Int.not_lt.mp hNeg)
        have hLe : n + 2 ^ (order c).toNat ≤ s.bitmap.size.toNat := by
          exact_mod_cast hInside (Int.natCast_nonneg n)
        have hLt : n < 2 ^ 31 := lt_of_le_of_lt ((Nat.le_add_right _ _).trans hLe) hSize
        have hFrame : (sizeOfInt (n : Int) * pageSize).toNat / 4096 = n := by
          rw [BitVec.toNat_mul, sizeOfInt_natCast_toNat (by omega), pageSize, BitVec.toNat_ofNat]
          omega
        simp only [Block.Has, Block.frame, Block.pages, hFrame] at hk
        exact ⟨Int.natCast_nonneg n, by exact_mod_cast hk.1, by exact_mod_cast hk.2⟩

end Race

/-- The two callers of `alloc_pages` that hold different locks. -/
inductive FrameCaller where
  /-- `kmalloc`, under `mm_spinlock`. -/
  | kmalloc
  /-- `make_elf64_task`, under `run_process_spinlock`. -/
  | makeElf64Task
  deriving DecidableEq

/-- Both callers are about to ask for one frame of an empty bitmap. -/
def twoCallers : AllocRace FrameCaller := ⟨bitmapInit 8#64, fun _ => .call⟩

/-- A given interleaving. -/
def raceRun {Caller : Type} [DecidableEq Caller] (order : Caller → U64) (s : AllocRace Caller) :
    List Caller → Option (AllocRace Caller)
  | [] => some s
  | c :: rest =>
      match raceStep order s c with
      | none => none
      | some s' => raceRun order s' rest

theorem raceReachable_of_run {Caller : Type} [DecidableEq Caller] {order : Caller → U64}
    {Allowed : AllocRace Caller → Caller → Prop} (hAllowed : ∀ s c, Allowed s c)
    {steps : List Caller} {s s' : AllocRace Caller} (h : raceRun order s steps = some s') :
    RaceReachable order Allowed s s' := by
  refine Program.reflTransGen_of_run (raceStep order) (fun _ => rfl) (fun s c rest => ?_)
    (fun s c t hStep => ⟨c, hAllowed s c, hStep⟩) h
  rw [raceRun]
  cases raceStep order s c <;> rfl

end Rayos
