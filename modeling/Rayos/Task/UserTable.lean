import Rayos.Mem.HeapLock
import Rayos.Mem.LowerHalf
import Rayos.Task.UserSpace

/-!
# The page table of a user task

What `__usertask_create` builds, for a range that lies in one 2 MiB region and with the windows free:
`usertaskCreate_ok` gives every entry of the four tables.  The entries that the fill loops do not
write keep what the frames held before.
-/

namespace Rayos

open RadixTable Program

/-- The block of a level. -/
def UserLevel.block (l : UserLevel) : Block := ⟨l.phys, l.order⟩

/-- The first frame of a level. -/
def UserLevel.frame (l : UserLevel) : Nat := l.block.frame

variable {H : Nat → Prop} {n : Nat} {mapped others : List Block} {s : Machine}

/-! ## Histories -/

theorem userLevelMap_log (base count : U64) : Respects LogGrows (userLevelMap base count) := by
  refine Respects.bind LogGrows.trans (LogGrows.alloc _) fun phys => ?_
  refine Respects.bind LogGrows.trans (mapPageRange_log _ _ _ _) fun ret => ?_
  exact Respects.pure LogGrows.refl _

/-! ## Filling a level -/

/-- A store to an entry of a table, which may extend over several pages. -/
theorem store64_entry {table x e : U64} {j count : Nat} (hTable : BytesIn table (8 * count))
    (hPage : s.page (vpn table + j / 512) = some e) (hx : x.toNat = j) (hj : j < count) (v : U64) :
    store64 (entryAddr table x) v s = .ok () (s.write (entryFrame e) (j % 512) v) := by
  have hLt : 8 * j < 8 * count := by omega
  have hAddr : entryAddr table x = table + BitVec.ofNat 64 (8 * j) := by
    rw [entryAddr]
    congr 1
    apply BitVec.eq_of_toNat_eq
    rw [BitVec.toNat_mul, BitVec.toNat_ofNat, BitVec.toNat_ofNat, hx]
  have hIdx : 8 * j / 4096 = j / 512 := by omega
  rw [hAddr, store64_page (e := e) (hTable.canonical hLt)
    (by rw [hTable.vpn hLt, hIdx]; exact hPage), hTable.offset hLt]
  congr 2
  omega

/-- The fill loop of a level whose entries go to the pages `0, …, pages - 1` of its window, which are
mapped to different frames of blocks in use. -/
theorem fillEntries_ok {owned : List Block} (h : FramesOk H n owned s) (table idx : U64)
    (count pages : Nat) (entry : U64 → KernelM U64) (frame : Nat → Nat) (val : Nat → U64)
    (hTable : BytesIn table (8 * (512 * pages)))
    (hPage : ∀ k, k < pages → H (pageHead (vpn table + k)) ∧
      ∃ e, s.page (vpn table + k) = some e ∧ entryFrame e = frame k)
    (hOwn : ∀ k, k < pages → ∃ b ∈ owned, b.Has (frame k))
    (hInj : ∀ k k', k < pages → k' < pages → frame k = frame k' → k = k')
    (hIdx : idx.toNat + count ≤ 512 * pages)
    (hEntry : ∀ i t, i < count → Wrote (fun f => ∃ k, k < pages ∧ f = frame k) s t →
      entry (BitVec.ofNat 64 i) t = .ok (val i) t) :
    ∃ t, fillEntries table idx count entry s = .ok () t ∧
      Wrote (fun f => ∃ k, k < pages ∧ f = frame k) s t ∧
      ∀ k j, k < pages → j < 512 → t.mem (frame k) j =
        if idx.toNat ≤ 512 * k + j ∧ 512 * k + j < idx.toNat + count then
          val (512 * k + j - idx.toNat)
        else s.mem (frame k) j := by
  refine forUpto_ok (s := s) (fun i t => Wrote (fun f => ∃ k, k < pages ∧ f = frame k) s t ∧
    ∀ k j, k < pages → j < 512 → t.mem (frame k) j =
      if idx.toNat ≤ 512 * k + j ∧ 512 * k + j < idx.toNat + i then val (512 * k + j - idx.toNat)
      else s.mem (frame k) j) count _ ⟨Wrote.refl s, by simp⟩ ?_
  rintro i hi t ⟨hWrote, hMem⟩
  have hHalf := hTable.2
  have hx : (idx + BitVec.ofNat 64 i).toNat = idx.toNat + i := by
    rw [BitVec.toNat_add, BitVec.toNat_ofNat]
    omega
  -- the mapping has not changed, so the store goes to its own page of the window
  have hk : (idx.toNat + i) / 512 < pages := by omega
  obtain ⟨hHead, e, he, hFrame⟩ := hPage _ hk
  have hPage' := (h.wrote hWrote (by rintro f ⟨k, hk, rfl⟩; exact hOwn k hk)).2 _ hHead
  rw [he] at hPage'
  refine ⟨t.write (frame ((idx.toNat + i) / 512)) ((idx.toNat + i) % 512) (val i), ?_,
    hWrote.trans (Wrote.write t ⟨_, hk, rfl⟩ _ _), ?_⟩
  · rw [bind_ok (hEntry i t hi hWrote), ← hFrame]
    exact store64_entry hTable hPage' hx (by omega) (val i)
  · intro k j hk' hj
    show writeWord t.mem _ ((idx.toNat + i) % 512) (val i) (frame k) j = _
    by_cases hHere : 512 * k + j = idx.toNat + i
    · have hkEq : k = (idx.toNat + i) / 512 := by omega
      have hjEq : j = (idx.toNat + i) % 512 := by omega
      rw [← hkEq, ← hjEq, writeWord_same, if_pos (by omega), hHere, Nat.add_sub_cancel_left]
    · rw [writeWord_other, hMem k j hk' hj]
      · by_cases hIn : idx.toNat ≤ 512 * k + j ∧ 512 * k + j < idx.toNat + i
        · rw [if_pos hIn, if_pos (by omega)]
        · rw [if_neg hIn, if_neg (by omega)]
      · rintro ⟨hEq, rfl⟩
        have := hInj _ _ hk' hk hEq
        omega

/-- The fill loop of a level whose entries all lie in the first page of its window. -/
theorem fillEntries_page {owned : List Block} (h : FramesOk H n owned s) (table idx : U64)
    (count : Nat) (entry : U64 → KernelM U64) {e : U64} {p : Nat} (val : Nat → U64) (hTable : BytesIn table 4096)
    (hHead : H (pageHead (vpn table))) (hPage : s.page (vpn table) = some e)
    (hp : entryFrame e = p) (hOwn : ∃ b ∈ owned, b.Has p) (hIdx : idx.toNat + count ≤ 512)
    (hEntry : ∀ i t, i < count → Wrote (· = p) s t → entry (BitVec.ofNat 64 i) t = .ok (val i) t) :
    ∃ t, fillEntries table idx count entry s = .ok () t ∧ Wrote (· = p) s t ∧
      ∀ j, j < 512 → t.mem p j =
        if idx.toNat ≤ j ∧ j < idx.toNat + count then val (j - idx.toNat) else s.mem p j := by
  have hOne : ∀ k, k < 1 ↔ k = 0 := by omega
  have hD : (fun f => ∃ k, k < 1 ∧ f = p) = (· = p) := by
    funext f
    simp
  obtain ⟨t, hRun, hWrote, hMem⟩ := fillEntries_ok h table idx count 1 entry (fun _ => p) val
    (by simpa using hTable)
    (by
      intro k hk
      rw [(hOne k).mp hk]
      exact ⟨hHead, e, hPage, hp⟩)
    (fun _ _ => hOwn) (by omega) (by omega)
    (by rw [hD]; exact hEntry)
  rw [hD] at hWrote
  refine ⟨t, hRun, hWrote, fun j hj => ?_⟩
  have h0 := hMem 0 j (by decide) hj
  simpa using h0

/-! ## Counts and windows -/

/-- The number of pages of a range. -/
def rangePages (start stop : U64) : Nat := stop.toNat / 4096 - start.toNat / 4096

/-- A page-aligned range of the lower half. -/
structure LowerRange (start stop : U64) : Prop where
  startAligned : start.toNat % 4096 = 0
  stopAligned : stop.toNat % 4096 = 0
  lt : start.toNat < stop.toNat
  lower : stop.toNat < 2 ^ 47

/-- The range lies in one 2 MiB region: one page table covers it. -/
def OneTable (start stop : U64) : Prop := start.toNat / 2 ^ 21 = (stop.toNat - 1) / 2 ^ 21

instance (start stop : U64) : Decidable (OneTable start stop) := inferInstanceAs (Decidable (_ = _))

theorem LowerRange.nrPages {start stop : U64} (h : LowerRange start stop) :
    ((stop - start) >>> pageShift).toNat = rangePages start stop := by
  obtain ⟨hStart, hStop, hLt, hLow⟩ := h
  rw [BitVec.toNat_ushiftRight, BitVec.toNat_sub, Nat.shiftRight_eq_div_pow]
  simp only [pageShift, rangePages]
  omega

theorem LowerRange.ptCount {start stop : U64} (h : LowerRange start stop) :
    (usertaskCounts start stop).ptCount.toNat = rangePages start stop := by
  have hNr := h.nrPages
  obtain ⟨hStart, hStop, hLt, hLow⟩ := h
  have hNe : (stop - start) >>> pageShift ≠ 0#64 := by
    intro hEq
    rw [hEq] at hNr
    simp only [rangePages, BitVec.toNat_zero] at hNr
    omega
  simp only [usertaskCounts, calcPageTableCounts, if_neg hNe]
  exact hNr

/-- Up to 512 pages, every upper level has one entry. -/
theorem LowerRange.counts_small {start stop : U64} (h : LowerRange start stop)
    (hSmall : rangePages start stop ≤ 512) :
    (usertaskCounts start stop).pml4Count = 1#64 ∧ (usertaskCounts start stop).pdptCount = 1#64 ∧
      (usertaskCounts start stop).pdCount = 1#64 := by
  have hNr := h.nrPages
  have hPt := h.ptCount
  obtain ⟨hStart, hStop, hLt, hLow⟩ := h
  have hPos : 0 < rangePages start stop := by
    simp only [rangePages]
    omega
  have hNe : (stop - start) >>> pageShift ≠ 0#64 := by
    intro hEq
    rw [hEq] at hNr
    simp only [BitVec.toNat_zero] at hNr
    omega
  have hPd : ((stop - start) >>> pageShift + 511#64) / 512#64 = 1#64 := by
    apply BitVec.eq_of_toNat_eq
    rw [BitVec.toNat_udiv, BitVec.toNat_add, hNr]
    simp only [BitVec.toNat_ofNat, Nat.reducePow, Nat.reduceMod]
    omega
  have hOne : (1#64 + 511#64) / 512#64 = 1#64 := by decide
  simp only [usertaskCounts, calcPageTableCounts, if_neg hNe, hPd, hOne, and_self]

/-- The first page of the windows. -/
def windowPage : Nat := 0x700000000

theorem vpn_pml4Base : vpn userSpacePml4Base = windowPage := by decide

theorem vpn_pdptBase : vpn userSpacePdptBase = windowPage + 1 := by decide

theorem vpn_pdBase : vpn userSpacePdBase = windowPage + 2 := by decide

theorem vpn_ptBase : vpn userSpacePtBase = windowPage + 3 := by decide

/-- The pages of the four windows are not mapped. -/
def WindowsFree (start stop : U64) (s : Machine) : Prop :=
  ∀ w, windowPage ≤ w → w < windowPage + 3 + rangePages start stop → s.page w = none

/-! ## The four windows -/

/-- The blocks of the four levels. -/
def UserLevels.levels (task : UserLevels) : List Block :=
  [task.userPt.block, task.userPd.block, task.userPdpt.block, task.userPml4.block]

/-- The state between the first and the second part of `__usertask_create` for a range of at most 512
pages: four pages have been allocated and can be written to through the windows. -/
structure WindowsMapped (H : Nat → Prop) (n : Nat) (mapped others : List Block) (start stop : U64)
    (task : UserLevels) (s s' : Machine) : Prop where
  kmem : KmemOk H n mapped (task.levels ++ others) s'
  grown : Grown H s s'
  orders : ∀ b ∈ task.levels, b.order = 0#64
  fresh : ∀ b ∈ task.levels, ∀ k, b.Has k → s.pageAllocBitmap.bit k = false
  last : ∀ b ∈ task.levels, b.frame ≤ task.userPt.frame
  pml4 : ∃ e, s'.page windowPage = some e ∧ entryFrame e = task.userPml4.frame
  pdpt : ∃ e, s'.page (windowPage + 1) = some e ∧ entryFrame e = task.userPdpt.frame
  pd : ∃ e, s'.page (windowPage + 2) = some e ∧ entryFrame e = task.userPd.frame
  pt : ∀ k, k < rangePages start stop →
    ∃ e, s'.page (windowPage + 3 + k) = some e ∧ entryFrame e = task.userPt.frame + k
  elsewhere : ∀ w, w < 2 ^ 36 → H (pageHead w) →
    ¬ (windowPage ≤ w ∧ w < windowPage + 3 + rangePages start stop) → s'.page w = s.page w

/-- One level, with its window in the lower half. -/
theorem windowMap_ok (h : KmemOk kernelHead n mapped others s) (base count : U64) {v c : Nat}
    (hv : vpn base = v) (hc : count.toNat = c) (hLow : v + c ≤ 2 ^ 35) (hLen : c < 2 ^ 31)
    (hFits : 2 ^ (sizeToOrder (count * 8#64)).toNat ≤ n)
    (hFree : ∀ w, v ≤ w → w < v + c → s.page w = none)
    (hFail : NoFail (finalState (userLevelMap base count s)).allocLog) :
    ∃ l s', userLevelMap base count s = .ok l s' ∧ l.order = sizeToOrder (count * 8#64) ∧
      BlockMapped n mapped others v c l.block s s' := by
  have hRest : ∀ phys : U64, Respects LogGrows (do
      let _ ← mapPageRange phys base mapUserRw count
      pure (⟨phys, sizeToOrder (count * 8#64)⟩ : UserLevel) : KernelM UserLevel) := fun phys =>
    Respects.bind LogGrows.trans (mapPageRange_log _ _ _ _) fun _ => Respects.pure LogGrows.refl _
  unfold userLevelMap at hFail ⊢
  obtain ⟨phys, s1, s2, hAlloc, hMap, hBlock⟩ := h.allocMap base count mapUserRw (by decide) hv hc
    hLow hLen hFits hFree (by
      intro phys s1 hAlloc
      rw [bind_ok hAlloc] at hFail
      exact NoFail.of_isPrefix hFail
        (Respects.bind_after LogGrows.refl (fun _ => Respects.pure LogGrows.refl _) s1))
  rw [bind_ok hAlloc, bind_ok hMap]
  exact ⟨⟨phys, sizeToOrder (count * 8#64)⟩, s2, rfl, rfl, hBlock⟩

/-- The first part of `__usertask_create`. -/
theorem usertaskMap_ok (h : KmemOk kernelHead n mapped others s) {start stop : U64}
    (hLower : LowerRange start stop) (hSmall : rangePages start stop ≤ 512)
    (hFree : WindowsFree start stop s) (task : UserTask)
    (hFail : NoFail (finalState (usertaskMap start stop task s)).allocLog) :
    ∃ task' s', usertaskMap start stop task s = .ok task' s' ∧ task'.lsAddr = task.lsAddr ∧
      WindowsMapped kernelHead n mapped others start stop task'.toUserLevels s s' := by
  obtain ⟨hPml4Count, hPdptCount, hPdCount⟩ := hLower.counts_small hSmall
  have hPtCount := hLower.ptCount
  have hPos : 0 < rangePages start stop := by
    obtain ⟨hStart, hStop, hLt, -⟩ := hLower
    simp only [rangePages]
    omega
  have hPtOrder : sizeToOrder ((usertaskCounts start stop).ptCount * 8#64) = 0#64 := by
    apply sizeToOrder_one_page <;> rw [BitVec.toNat_mul, hPtCount, BitVec.toNat_ofNat] <;> omega
  have hOneOrder : sizeToOrder (1#64 * 8#64) = 0#64 := by decide
  have hNonempty := h.frames.nonempty
  have hOneFits : 2 ^ (sizeToOrder (1#64 * 8#64)).toNat ≤ n := by
    rw [hOneOrder]
    simpa using hNonempty
  have hPtFits : 2 ^ (sizeToOrder ((usertaskCounts start stop).ptCount * 8#64)).toNat ≤ n := by
    rw [hPtOrder]
    simpa using hNonempty
  have hWin : windowPage = 0x700000000 := rfl
  have hOne : (1#64).toNat = 1 := rfl
  have hHead : ∀ w, w < 2 ^ 35 → kernelHead (pageHead w) := fun w hw => (lowerPage_head hw).1
  unfold usertaskMap at hFail ⊢
  rw [hPml4Count, hPdptCount, hPdCount] at hFail ⊢
  have hLog := fun base count => userLevelMap_log base count
  have hRest4 : ∀ l4 l3 l2 : UserLevel, Respects LogGrows (do
      let pt ← userLevelMap userSpacePtBase (usertaskCounts start stop).ptCount
      pure { task with userPml4 := l4, userPdpt := l3, userPd := l2, userPt := pt }) :=
    fun _ _ _ => Respects.bind LogGrows.trans (hLog _ _) fun _ => Respects.pure LogGrows.refl _
  have hRest3 : ∀ l4 l3 : UserLevel, Respects LogGrows (do
      let pd ← userLevelMap userSpacePdBase 1#64
      let pt ← userLevelMap userSpacePtBase (usertaskCounts start stop).ptCount
      pure { task with userPml4 := l4, userPdpt := l3, userPd := pd, userPt := pt }) :=
    fun _ _ => Respects.bind LogGrows.trans (hLog _ _) fun _ => hRest4 _ _ _
  have hRest2 : ∀ l4 : UserLevel, Respects LogGrows (do
      let pdpt ← userLevelMap userSpacePdptBase 1#64
      let pd ← userLevelMap userSpacePdBase 1#64
      let pt ← userLevelMap userSpacePtBase (usertaskCounts start stop).ptCount
      pure { task with userPml4 := l4, userPdpt := pdpt, userPd := pd, userPt := pt }) :=
    fun _ => Respects.bind LogGrows.trans (hLog _ _) fun _ => hRest3 _ _
  -- level by level; the windows do not overlap
  obtain ⟨l4, s1, hRun1, hOrd1, hTaken1, hIn1,
    hOut1⟩ := windowMap_ok h userSpacePml4Base
    1#64 vpn_pml4Base hOne (by omega) (by decide) hOneFits
    (fun w hw hw' => hFree w (by omega) (by omega))
    (NoFail.of_isPrefix hFail (Respects.bind_after LogGrows.refl hRest2 s))
  rw [bind_ok hRun1] at hFail ⊢
  obtain ⟨l3, s2, hRun2, hOrd2, hTaken2, hIn2,
    hOut2⟩ := windowMap_ok hTaken1.kmem
    userSpacePdptBase 1#64 vpn_pdptBase hOne (by omega) (by decide) hOneFits
    (fun w hw hw' => by
      rw [hOut1 w (by omega) (hHead w (by omega)) (by omega)]
      exact hFree w (by omega) (by omega))
    (NoFail.of_isPrefix hFail (Respects.bind_after LogGrows.refl (hRest3 l4) s1))
  rw [bind_ok hRun2] at hFail ⊢
  obtain ⟨l2, s3, hRun3, hOrd3, hTaken3, hIn3,
    hOut3⟩ := windowMap_ok hTaken2.kmem
    userSpacePdBase 1#64 vpn_pdBase hOne (by omega) (by decide) hOneFits
    (fun w hw hw' => by
      rw [hOut2 w (by omega) (hHead w (by omega)) (by omega),
        hOut1 w (by omega) (hHead w (by omega)) (by omega)]
      exact hFree w (by omega) (by omega))
    (NoFail.of_isPrefix hFail (Respects.bind_after LogGrows.refl (hRest4 l4 l3) s2))
  rw [bind_ok hRun3] at hFail ⊢
  obtain ⟨l1, s4, hRun4, hOrd4, hTaken4, hIn4,
    hOut4⟩ := windowMap_ok hTaken3.kmem
    userSpacePtBase (usertaskCounts start stop).ptCount vpn_ptBase hPtCount (by omega) (by omega)
    hPtFits
    (fun w hw hw' => by
      rw [hOut3 w (by omega) (hHead w (by omega)) (by omega),
        hOut2 w (by omega) (hHead w (by omega)) (by omega),
        hOut1 w (by omega) (hHead w (by omega)) (by omega)]
      exact hFree w (by omega) (by omega))
    (NoFail.of_isPrefix hFail
      (Respects.bind_after LogGrows.refl (fun _ => Respects.pure LogGrows.refl _) s3))
  rw [bind_ok hRun4]
  -- a frame that is clear later was clear before
  have hBack : ∀ {t u : Machine},
      (∀ k, t.pageAllocBitmap.bit k = true → u.pageAllocBitmap.bit k = true) →
      ∀ k, u.pageAllocBitmap.bit k = false → t.pageAllocBitmap.bit k = false := by
    intro t u hMono k hk
    by_contra hSet
    rw [hMono k (by simpa using hSet)] at hk
    cases hk
  have hClear3 : ∀ k, l1.block.Has k → s2.pageAllocBitmap.bit k = false := fun k hk =>
    hBack hTaken3.bits k (hTaken4.clear k hk)
  have hClear2 : ∀ k, l1.block.Has k → s1.pageAllocBitmap.bit k = false := fun k hk =>
    hBack hTaken2.bits k (hClear3 k hk)
  have hClear1 : ∀ k, l1.block.Has k → s.pageAllocBitmap.bit k = false := fun k hk =>
    hBack hTaken1.bits k (hClear2 k hk)
  have hPages : ∀ l : UserLevel, l.order = sizeToOrder (1#64 * 8#64) →
      l.block.pages ≤ l1.block.pages := by
    intro l hl
    simp only [Block.pages, UserLevel.block, hl, hOneOrder]
    exact Nat.one_le_two_pow
  refine ⟨_, s4, rfl, rfl, hTaken4.kmem,
    ((hTaken1.grown.trans hTaken2.grown).trans hTaken3.grown).trans hTaken4.grown, ?_, ?_, ?_, ?_, ?_,
    ?_, hIn4, ?_⟩
  · simp only [UserLevels.levels, UserLevel.block, List.mem_cons, List.not_mem_nil, or_false,
      forall_eq_or_imp, forall_eq]
    exact ⟨hOrd4.trans hPtOrder, hOrd3.trans hOneOrder, hOrd2.trans hOneOrder,
      hOrd1.trans hOneOrder⟩
  · simp only [UserLevels.levels, List.mem_cons, List.not_mem_nil, or_false, forall_eq_or_imp,
      forall_eq]
    exact ⟨hClear1, fun k hk => hBack hTaken1.bits k (hBack hTaken2.bits k (hTaken3.clear k hk)),
      fun k hk => hBack hTaken1.bits k (hTaken2.clear k hk), hTaken1.clear⟩
  · simp only [UserLevels.levels, List.mem_cons, List.not_mem_nil, or_false, forall_eq_or_imp,
      forall_eq]
    exact ⟨le_refl _, hTaken3.frame_le hClear3 (hPages l2 hOrd3),
      hTaken2.frame_le hClear2 (hPages l3 hOrd2), hTaken1.frame_le hClear1 (hPages l4 hOrd1)⟩
  · rw [hOut4 _ (by omega) (hHead _ (by omega)) (by omega),
      hOut3 _ (by omega) (hHead _ (by omega)) (by omega),
      hOut2 _ (by omega) (hHead _ (by omega)) (by omega)]
    exact hIn1 0 (by decide)
  · rw [hOut4 _ (by omega) (hHead _ (by omega)) (by omega),
      hOut3 _ (by omega) (hHead _ (by omega)) (by omega)]
    exact hIn2 0 (by decide)
  · rw [hOut4 _ (by omega) (hHead _ (by omega)) (by omega)]
    exact hIn3 0 (by decide)
  · intro w hw hHw hOut
    rw [hOut4 w hw hHw (by omega), hOut3 w hw hHw (by omega), hOut2 w hw hHw (by omega),
      hOut1 w hw hHw (by omega)]

/-! ## The entries -/

/-- The frames of the four levels of a table of one page each. -/
def UserLevels.IsTable (task : UserLevels) (f : Nat) : Prop :=
  f = task.userPml4.frame ∨ f = task.userPdpt.frame ∨ f = task.userPd.frame ∨ f = task.userPt.frame

/-- The entry for page `i` of a range, as the kernel's table gives it in `s`. -/
def rangeEntry (start : U64) (s : Machine) (i : Nat) : U64 :=
  let va := start + BitVec.ofNat 64 i * pageSize
  physaddrOf va (s.page (vpn va)) ||| mapUserRw

/-- The entries that `__usertask_create` has written, `s` being the state before the second part: the
ones it does not write are as they were. -/
structure Filled (start : U64) (count : Nat) (task : UserLevels) (s s' : Machine) : Prop where
  pml4 : ∀ i, i < 512 → s'.mem task.userPml4.frame i =
    if i = 511 then task.userPml4.phys ||| mapUserRw
    else if 256 ≤ i then s.mem s.root i
    else if i = (pml4Idx start).toNat then task.userPdpt.phys ||| mapUserRw
    else s.mem task.userPml4.frame i
  pdpt : ∀ i, i < 512 → s'.mem task.userPdpt.frame i =
    if i = (pdptIdx start).toNat then task.userPd.phys ||| mapUserRw
    else s.mem task.userPdpt.frame i
  pd : ∀ i, i < 512 → s'.mem task.userPd.frame i =
    if i = (pdIdx start).toNat then task.userPt.phys ||| mapUserRw
    else s.mem task.userPd.frame i
  pt : ∀ i, i < 512 → s'.mem task.userPt.frame i =
    if (ptIdx start).toNat ≤ i ∧ i < (ptIdx start).toNat + count then
      rangeEntry start s (i - (ptIdx start).toNat)
    else s.mem task.userPt.frame i

theorem bytesIn_windows : BytesIn userSpacePml4Base 4096 ∧ BytesIn userSpacePdptBase 4096 ∧
    BytesIn userSpacePdBase 4096 ∧ BytesIn userSpacePtBase 4096 := by
  simp [BytesIn, userSpacePml4Base, userSpacePdptBase, userSpacePdBase, userSpacePtBase]

/-- A level with one entry. -/
theorem fillEntries_one {owned : List Block} (h : FramesOk H n owned s) (table idx phys : U64)
    {e : U64} {p : Nat} (hTable : BytesIn table 4096) (hHead : H (pageHead (vpn table)))
    (hPage : s.page (vpn table) = some e) (hp : entryFrame e = p) (hOwn : ∃ b ∈ owned, b.Has p)
    (hIdx : idx.toNat < 512) :
    ∃ t, fillEntries table idx 1 (nextLevelEntry phys) s = .ok () t ∧ Wrote (· = p) s t ∧
      ∀ j, j < 512 → t.mem p j = if j = idx.toNat then phys ||| mapUserRw else s.mem p j := by
  obtain ⟨t, hRun, hWrote, hMem⟩ := fillEntries_page h table idx 1 (nextLevelEntry phys)
    (fun _ => phys ||| mapUserRw) hTable hHead hPage hp hOwn (by omega) (by
      intro i t hi _
      obtain rfl : i = 0 := by omega
      simp [nextLevelEntry])
  refine ⟨t, hRun, hWrote, fun j hj => ?_⟩
  rw [hMem j hj]
  by_cases hEq : j = idx.toNat
  · rw [if_pos (by omega), if_pos hEq]
  · rw [if_neg (by omega), if_neg hEq]

/-- The copy of the upper half. -/
theorem copyUpperHalf_ok {owned : List Block} (h : FramesOk H n owned s) {table e : U64} {p : Nat}
    (hTable : BytesIn table 4096) (hHead : H (pageHead (vpn table)))
    (hPage : s.page (vpn table) = some e) (hp : entryFrame e = p) (hOwn : ∃ b ∈ owned, b.Has p) :
    ∃ t, fillEntries table 256#64 255 (fun i => load64 (entryAddr mapPml4 (256#64 + i))) s =
        .ok () t ∧ Wrote (· = p) s t ∧
      ∀ j, j < 512 → t.mem p j = if 256 ≤ j ∧ j < 511 then s.mem s.root j else s.mem p j := by
  have hRoot : s.root ≠ p := by
    rintro rfl
    obtain ⟨b, hb, hHas⟩ := hOwn
    exact h.tableApart [] s.root tablePath_nil rfl b hb hHas
  obtain ⟨t, hRun, hWrote, hMem⟩ := fillEntries_page h table 256#64 255
    (fun i => load64 (entryAddr mapPml4 (256#64 + i))) (fun i => s.mem s.root (256 + i)) hTable hHead
    hPage hp hOwn (by decide) (by
      intro i t hi hWrote
      have hFrames := (h.wrote hWrote (by rintro f rfl; exact hOwn)).1
      have hIdx : 256#64 + BitVec.ofNat 64 i = BitVec.ofNat 64 (256 + i) := by
        apply BitVec.eq_of_toNat_eq
        simp only [BitVec.toNat_add, BitVec.toNat_ofNat]
        omega
      have hLoad := load64_window hFrames.tables.recursive 0#64 (show 0 ≤ 3 by decide)
        (show 256 + i < 512 by omega) (f := t.root) rfl
      rw [hIdx]
      apply hLoad.trans
      rw [hWrote.root, hWrote.mem _ hRoot])
  refine ⟨t, hRun, hWrote, fun j hj => ?_⟩
  have h256 : (256#64).toNat = 256 := rfl
  rw [hMem j hj, h256]
  by_cases hIn : 256 ≤ j ∧ j < 511
  · rw [if_pos (by omega), if_pos hIn, Nat.add_sub_cancel' hIn.1]
  · rw [if_neg (by omega), if_neg hIn]

section Fill

variable {start stop : U64} {task : UserLevels} {s1 : Machine}

/-- The frames of the four levels are those of their blocks. -/
theorem UserLevels.IsTable.block {f : Nat} (hf : task.IsTable f) : ∃ b ∈ task.levels, b.Has f := by
  rcases hf with rfl | rfl | rfl | rfl
  · exact ⟨task.userPml4.block, by simp [UserLevels.levels], Block.has_frame _⟩
  · exact ⟨task.userPdpt.block, by simp [UserLevels.levels], Block.has_frame _⟩
  · exact ⟨task.userPd.block, by simp [UserLevels.levels], Block.has_frame _⟩
  · exact ⟨task.userPt.block, by simp [UserLevels.levels], Block.has_frame _⟩

theorem UserLevels.IsTable.owned {f : Nat} (hf : task.IsTable f) (mapped others : List Block) :
    ∃ b ∈ mapped ++ (task.levels ++ others), b.Has f := by
  obtain ⟨b, hb, hHas⟩ := hf.block
  exact ⟨b, by simp [hb], hHas⟩

/-- The blocks of the levels share no frame with the other blocks in use. -/
theorem WindowsMapped.apart (hWin : WindowsMapped H n mapped others start stop task s s1)
    {b c : Block} (hb : b ∈ task.levels) (hc : c ∈ mapped ++ others) : b.Disjoint c := by
  have hAll := List.pairwise_append.mp hWin.kmem.frames.disjoint
  rcases List.mem_append.mp hc with hc | hc
  · exact (hAll.2.2 c hc b (by simp [hb])).symm
  · exact (List.pairwise_append.mp hAll.2.1).2.2 b hb c hc

/-- Different levels have different frames. -/
theorem WindowsMapped.frames_ne (hWin : WindowsMapped H n mapped others start stop task s s1) :
    (task.userPml4.frame ≠ task.userPdpt.frame ∧ task.userPml4.frame ≠ task.userPd.frame ∧
      task.userPml4.frame ≠ task.userPt.frame) ∧
    (task.userPdpt.frame ≠ task.userPd.frame ∧ task.userPdpt.frame ≠ task.userPt.frame) ∧
      task.userPd.frame ≠ task.userPt.frame := by
  have hNe : ∀ b c : Block, b.Disjoint c → b.frame ≠ c.frame := by
    intro b c hDisj hEq
    exact hDisj b.frame b.has_frame (hEq ▸ c.has_frame)
  have hAll := (List.pairwise_append.mp (List.pairwise_append.mp hWin.kmem.frames.disjoint).2.1).1
  simp only [UserLevels.levels, List.pairwise_cons, List.mem_cons, List.not_mem_nil, or_false,
    forall_eq_or_imp, forall_eq] at hAll
  obtain ⟨⟨h12, h13, h14⟩, ⟨h23, h24⟩, h34, -⟩ := hAll
  exact ⟨⟨(hNe _ _ h34).symm, (hNe _ _ h24).symm, (hNe _ _ h14).symm⟩,
    ⟨(hNe _ _ h23).symm, (hNe _ _ h13).symm⟩, (hNe _ _ h12).symm⟩

theorem LowerRange.vpn_add (hLower : LowerRange start stop) {i : Nat}
    (hi : i < rangePages start stop) :
    vpn (start + BitVec.ofNat 64 i * pageSize) = vpn start + i ∧ vpn start + i < 2 ^ 35 := by
  obtain ⟨hStart, hStop, hLt, hLow⟩ := hLower
  simp only [rangePages] at hi
  simp only [vpn, pageSize, BitVec.toNat_add, BitVec.toNat_mul, BitVec.toNat_ofNat]
  omega

/-- In one 2 MiB region the indices do not leave the last table. -/
theorem LowerRange.ptIdx_add_le (hLower : LowerRange start stop) (hOne : OneTable start stop) :
    (ptIdx start).toNat + rangePages start stop ≤ 512 := by
  obtain ⟨hStart, hStop, hLt, hLow⟩ := hLower
  simp only [OneTable] at hOne
  simp only [ptIdx_toNat, rangePages]
  omega

/-- The second part of `__usertask_create` for a range in one 2 MiB region. -/
theorem usertaskFill_ok {task : UserTask}
    (hWin : WindowsMapped kernelHead n mapped others start stop task.toUserLevels s s1)
    (hLower : LowerRange start stop) (hOne : OneTable start stop) :
    ∃ s2, usertaskFill start stop task s1 = .ok { task with pml4 := task.userPml4.phys } s2 ∧
      Wrote task.IsTable s1 s2 ∧ Filled start (rangePages start stop) task.toUserLevels s1 s2 := by
  have hPtIdx := hLower.ptIdx_add_le hOne
  have hPtCount := hLower.ptCount
  obtain ⟨hPml4Count, hPdptCount, hPdCount⟩ := hLower.counts_small (by omega)
  obtain ⟨⟨h43, h42, h41⟩, ⟨h32, h31⟩, h21⟩ := hWin.frames_ne
  obtain ⟨hBytes4, hBytes3, hBytes2, hBytes1⟩ := bytesIn_windows
  obtain ⟨e4, he4, hf4⟩ := hWin.pml4
  obtain ⟨e3, he3, hf3⟩ := hWin.pdpt
  obtain ⟨e2, he2, hf2⟩ := hWin.pd
  have hPos : 0 < rangePages start stop := by
    obtain ⟨hStart, hStop, hLt, -⟩ := hLower
    simp only [rangePages]
    omega
  obtain ⟨e1, he1, hf1⟩ := hWin.pt 0 hPos
  rw [Nat.add_zero] at he1 hf1
  have hHead : ∀ w, w < 2 ^ 35 → kernelHead (pageHead w) := fun w hw => (lowerPage_head hw).1
  have hWinEq : windowPage = 0x700000000 := rfl
  have hOwn := fun f (hf : task.IsTable f) => hf.owned mapped others
  -- stores to the four frames do not disturb the windows
  have hKeep := fun t (ht : Wrote task.IsTable s1 t) => hWin.kmem.frames.wrote ht hOwn
  have hLocal : ∀ {p t u}, task.IsTable p → Wrote (· = p) t u → Wrote task.IsTable t u :=
    fun hp hw => hw.mono (by rintro f rfl; exact hp)
  have hIs4 : task.IsTable task.userPml4.frame := Or.inl rfl
  have hIs3 : task.IsTable task.userPdpt.frame := Or.inr (Or.inl rfl)
  have hIs2 : task.IsTable task.userPd.frame := Or.inr (Or.inr (Or.inl rfl))
  have hIs1 : task.IsTable task.userPt.frame := Or.inr (Or.inr (Or.inr rfl))
  have hIdx4 : (pml4Idx start).toNat < 256 := by
    have := hLower.lt
    have := hLower.lower
    rw [pml4Idx_toNat]
    omega
  have hIdx3 : (pdptIdx start).toNat < 512 := by
    rw [pdptIdx_toNat]
    omega
  have hIdx2 : (pdIdx start).toNat < 512 := by
    rw [pdIdx_toNat]
    omega
  have hPage4 : ∀ t, Wrote task.IsTable s1 t → t.page (vpn userSpacePml4Base) = some e4 := by
    intro t ht
    rw [vpn_pml4Base, (hKeep t ht).2 _ (hHead _ (by omega)), he4]
  have hOneNat : (1#64).toNat = 1 := rfl
  unfold usertaskFill
  rw [hPml4Count, hPdptCount, hPdCount, hPtCount, hOneNat]
  -- the upper half
  obtain ⟨t1, hRun1, hW1, hM1⟩ := copyUpperHalf_ok hWin.kmem.frames hBytes4
    (by rw [vpn_pml4Base]; exact hHead _ (by omega)) (hPage4 s1 (Wrote.refl s1)) hf4 (hOwn _ hIs4)
  have hT1 := hLocal hIs4 hW1
  rw [bind_ok hRun1]
  -- the entry for the PML4 itself
  have hRun2 : store64 (entryAddr userSpacePml4Base 511#64) (task.userPml4.phys ||| mapUserRw) t1 =
      .ok () (t1.write task.userPml4.frame 511 (task.userPml4.phys ||| mapUserRw)) := by
    rw [← hf4]
    exact store64_entry (j := 511) (show BytesIn userSpacePml4Base (8 * 512) from hBytes4)
      (by simpa using hPage4 t1 hT1) rfl (by decide) _
  set t2 := t1.write task.userPml4.frame 511 (task.userPml4.phys ||| mapUserRw) with ht2
  have hT2 : Wrote task.IsTable s1 t2 := hT1.trans (Wrote.write t1 hIs4 _ _)
  rw [bind_ok hRun2]
  -- one entry in each of the upper levels
  obtain ⟨t3, hRun3, hW3, hM3⟩ := fillEntries_one (hKeep t2 hT2).1 userSpacePml4Base (pml4Idx start)
    task.userPdpt.phys hBytes4 (by rw [vpn_pml4Base]; exact hHead _ (by omega)) (hPage4 t2 hT2) hf4
    (hOwn _ hIs4) (by omega)
  have hT3 := hT2.trans (hLocal hIs4 hW3)
  have hW2 : Wrote (· = task.userPml4.frame) t1 t2 :=
    Wrote.write (D := (· = task.userPml4.frame)) t1 rfl _ _
  have hA3 := (hW1.trans hW2).trans hW3
  rw [bind_ok hRun3]
  obtain ⟨t4, hRun4, hW4, hM4⟩ := fillEntries_one (hKeep t3 hT3).1 userSpacePdptBase
    (pdptIdx start) task.userPd.phys hBytes3 (by rw [vpn_pdptBase]; exact hHead _ (by omega))
    (by rw [vpn_pdptBase, (hKeep t3 hT3).2 _ (hHead _ (by omega)), he3]) hf3 (hOwn _ hIs3) hIdx3
  have hT4 := hT3.trans (hLocal hIs3 hW4)
  rw [bind_ok hRun4]
  obtain ⟨t5, hRun5, hW5, hM5⟩ := fillEntries_one (hKeep t4 hT4).1 userSpacePdBase
    (pdIdx start) task.userPt.phys hBytes2 (by rw [vpn_pdBase]; exact hHead _ (by omega))
    (by rw [vpn_pdBase, (hKeep t4 hT4).2 _ (hHead _ (by omega)), he2]) hf2 (hOwn _ hIs2) hIdx2
  have hT5 := hT4.trans (hLocal hIs2 hW5)
  rw [bind_ok hRun5]
  -- the pages of the range
  obtain ⟨t6, hRun6, hW6, hM6⟩ := fillEntries_page (hKeep t5 hT5).1 userSpacePtBase
    (ptIdx start) (rangePages start stop) (ptEntry start) (rangeEntry start s1) hBytes1
    (by rw [vpn_ptBase]; exact hHead _ (by omega))
    (by rw [vpn_ptBase, (hKeep t5 hT5).2 _ (hHead _ (by omega)), he1]) hf1 (hOwn _ hIs1) hPtIdx (by
      intro i t hi hW
      have hT := hT5.trans (hLocal hIs1 hW)
      obtain ⟨hVpn, hLow⟩ := hLower.vpn_add hi
      rw [ptEntry, bind_ok (getPhysaddr_eq (hKeep t hT).1.tables.recursive _),
        (hKeep t hT).2 _ (hHead _ (by omega))]
      rfl)
  rw [bind_ok hRun6]
  refine ⟨t6, rfl, hT5.trans (hLocal hIs1 hW6), ⟨?_, ?_, ?_, ?_⟩⟩
  · intro i hi
    rw [hW6.mem _ h41, hW5.mem _ h42, hW4.mem _ h43, hM3 i hi]
    have hM2 : t2.mem task.userPml4.frame i =
        if i = 511 then task.userPml4.phys ||| mapUserRw else t1.mem task.userPml4.frame i := by
      by_cases h511 : i = 511
      · rw [if_pos h511, h511]
        exact writeWord_same _ _ _ _
      · rw [if_neg h511]
        exact writeWord_other _ _ fun hEq => h511 hEq.2
    rw [hM2, hM1 i hi]
    by_cases h511 : i = 511
    · rw [if_neg (by omega), if_pos h511, if_pos h511]
    · rw [if_neg h511, if_neg h511]
      by_cases hUp : 256 ≤ i
      · rw [if_neg (by omega), if_pos (by omega), if_pos hUp]
      · rw [if_neg (show ¬ (256 ≤ i ∧ i < 511) by omega), if_neg hUp]
  · intro i hi
    rw [hW6.mem _ h31, hW5.mem _ h32, hM4 i hi, hA3.mem _ h43.symm]
  · intro i hi
    rw [hW6.mem _ h21, hM5 i hi, hW4.mem _ h32.symm, hA3.mem _ h42.symm]
  · intro i hi
    rw [hM6 i hi, hW5.mem _ h21.symm, hW4.mem _ h31.symm, hA3.mem _ h41.symm]

end Fill

/-! ## The stack and the end -/

/-- The last page below an address of the lower half. -/
theorem vpn_below {stop : U64} (hAligned : stop.toNat % 4096 = 0) (hPos : 0 < stop.toNat)
    (hLow : stop.toNat < 2 ^ 47) {off : Nat} (hOff : off < 176) :
    Canonical (stop - sizeofTaskUserInitStack + BitVec.ofNat 64 off) ∧
      vpn (stop - sizeofTaskUserInitStack + BitVec.ofNat 64 off) = stop.toNat / 4096 - 1 := by
  have hNat : (stop - sizeofTaskUserInitStack + BitVec.ofNat 64 off).toNat =
      stop.toNat - 176 + off := by
    rw [BitVec.toNat_add, BitVec.toNat_sub, sizeofTaskUserInitStack]
    simp only [BitVec.toNat_ofNat]
    omega
  simp only [Canonical, vpn, hNat]
  omega

/-- The word of the last page below `stop` that a field of the first frame is. -/
theorem word_below {stop : U64} (hAligned : stop.toNat % 4096 = 0) (hPos : 0 < stop.toNat)
    (hLow : stop.toNat < 2 ^ 47) {off : Nat} (hOff : off < 176) :
    (stop - sizeofTaskUserInitStack + BitVec.ofNat 64 off).toNat % 4096 / 8 = 490 + off / 8 := by
  have hNat : (stop - sizeofTaskUserInitStack + BitVec.ofNat 64 off).toNat =
      stop.toNat - 176 + off := by
    rw [BitVec.toNat_add, BitVec.toNat_sub, sizeofTaskUserInitStack]
    simp only [BitVec.toNat_ofNat]
    omega
  omega

/-- The words that `__usertask_create` stores for the first switch to a task, in the frame of the last page of its
stack. -/
structure InitFrame (mem : Memory) (f : Nat) (stop entry switchToUser args : U64) : Prop where
  rdi : mem f 499 = args
  iretFunc : mem f 506 = switchToUser
  rip : mem f 507 = entry
  cs : mem f 508 = ucodeSelector
  rflags : mem f 509 = 0x202#64
  rsp : mem f 510 = stop
  ss : mem f 511 = udataSelector

theorem InitFrame.congr {mem mem' : Memory} {f : Nat} {stop entry switchToUser args : U64}
    (h : InitFrame mem f stop entry switchToUser args) (hMem : mem' f = mem f) :
    InitFrame mem' f stop entry switchToUser args := by
  constructor <;> rw [hMem]
  · exact h.rdi
  · exact h.iretFunc
  · exact h.rip
  · exact h.cs
  · exact h.rflags
  · exact h.rsp
  · exact h.ss

/-- The first frame of the user stack goes to the last page. -/
theorem initStack_ok {owned : List Block} (h : FramesOk H n owned s) {stop e : U64}
    (entry switchToUser args : U64) (hAligned : stop.toNat % 4096 = 0) (hPos : 0 < stop.toNat)
    (hLow : stop.toNat < 2 ^ 47) (hHead : H (pageHead (stop.toNat / 4096 - 1)))
    (hPage : s.page (stop.toNat / 4096 - 1) = some e)
    (hOwn : ∃ b ∈ owned, b.Has (entryFrame e)) :
    ∃ t, initStack (stop - sizeofTaskUserInitStack) stop entry switchToUser args s = .ok () t ∧
      Wrote (· = entryFrame e) s t ∧ InitFrame t.mem (entryFrame e) stop entry switchToUser args := by
  have hStore : ∀ off, off < 176 → ∀ v t, Wrote (· = entryFrame e) s t →
      store64 (stop - sizeofTaskUserInitStack + BitVec.ofNat 64 off) v t =
          .ok () (t.write (entryFrame e) (490 + off / 8) v) ∧
        Wrote (· = entryFrame e) s (t.write (entryFrame e) (490 + off / 8) v) := by
    intro off hOff v t ht
    obtain ⟨hc, hVpn⟩ := vpn_below hAligned hPos hLow hOff
    have hPage' := (h.wrote ht (by rintro f rfl; exact hOwn)).2 _ hHead
    rw [hPage, ← hVpn] at hPage'
    refine ⟨?_, ht.trans (Wrote.write (D := (· = entryFrame e)) t rfl _ _)⟩
    rw [store64_page hc hPage' v, word_below hAligned hPos hLow hOff]
  obtain ⟨hRun1, hW1⟩ := hStore 168 (by decide) udataSelector s (Wrote.refl s)
  obtain ⟨hRun2, hW2⟩ := hStore 160 (by decide) stop _ hW1
  obtain ⟨hRun3, hW3⟩ := hStore 152 (by decide) 0x202#64 _ hW2
  obtain ⟨hRun4, hW4⟩ := hStore 144 (by decide) ucodeSelector _ hW3
  obtain ⟨hRun5, hW5⟩ := hStore 136 (by decide) entry _ hW4
  obtain ⟨hRun6, hW6⟩ := hStore 128 (by decide) switchToUser _ hW5
  obtain ⟨hRun7, hW7⟩ := hStore 72 (by decide) args _ hW6
  refine ⟨_, ?_, hW7, ?_⟩
  · unfold initStack
    rw [bind_ok hRun1, bind_ok hRun2, bind_ok hRun3, bind_ok hRun4, bind_ok hRun5, bind_ok hRun6]
    exact hRun7
  · constructor <;> simp [Machine.write, writeWord]

section Respects

variable {R : Machine → Machine → Prop} (hRefl : ∀ s, R s s)
  (hTrans : ∀ s t u, R s t → R t u → R s u)
  (hMem : ∀ (s : Machine) (f i : Nat) (v : U64), R s (s.write f i v))

include hRefl hTrans hMem in
/-- What follows `kzalloc` in `__usertask_create` only stores to memory. -/
theorem usertaskFinishRest_respects (start stop entry switchToUser args rsp0Base : U64)
    (task : UserTask) : Respects R (do
      initStack (stop - sizeofTaskUserInitStack) stop entry switchToUser args
      let _ ← unmapPageRange userSpacePml4Base (usertaskCounts start stop).pml4Count
      let _ ← unmapPageRange userSpacePdptBase (usertaskCounts start stop).pdptCount
      let _ ← unmapPageRange userSpacePdBase (usertaskCounts start stop).pdCount
      let _ ← unmapPageRange userSpacePtBase (usertaskCounts start stop).ptCount
      pure { task with
        rsp0Base := rsp0Base
        rsp0 := rsp0Base + ursp0Size
        stack := stop
        rsp := stop - sizeofTaskUserInitStack }) := by
  have hStore := fun va v => store64_respects hRefl hMem (R := R) va v
  have hUnmap := fun va len => unmapPageRangeFrom_respects hRefl hTrans hMem len 0#64 va
  refine Respects.bind hTrans ?_ fun _ => ?_
  · exact Respects.bind hTrans (hStore _ _) fun _ =>
      Respects.bind hTrans (hStore _ _) fun _ =>
      Respects.bind hTrans (hStore _ _) fun _ =>
      Respects.bind hTrans (hStore _ _) fun _ =>
      Respects.bind hTrans (hStore _ _) fun _ =>
      Respects.bind hTrans (hStore _ _) fun _ => hStore _ _
  · exact Respects.bind hTrans (hUnmap _ _) fun _ =>
      Respects.bind hTrans (hUnmap _ _) fun _ =>
      Respects.bind hTrans (hUnmap _ _) fun _ =>
      Respects.bind hTrans (hUnmap _ _) fun _ => Respects.pure hRefl _

end Respects

/-- The third part of `__usertask_create`, with the windows mapped: the only frame in use that is
written to is that of the last page. -/
theorem usertaskFinish_ok (h : KmemOk kernelHead n mapped others s) (hLock : s.mmSpinlock = false)
    {start stop e : U64} (hLower : LowerRange start stop) (hSmall : rangePages start stop ≤ 512)
    (hFour : 4 ≤ n)
    (hWindows : ∀ w, windowPage ≤ w → w < windowPage + 3 + rangePages start stop → s.page w ≠ none)
    (hLast : s.page (stop.toNat / 4096 - 1) = some e)
    (hOwn : ∃ b ∈ mapped ++ others, b.Has (entryFrame e))
    (entry switchToUser args : U64) (task : UserTask)
    (hFail : NoFail
      (finalState (usertaskFinish start stop entry switchToUser args task s)).allocLog) :
    ∃ pa rsp0Base s', usertaskFinish start stop entry switchToUser args task s =
        .ok { task with
          rsp0Base := rsp0Base
          rsp0 := rsp0Base + ursp0Size
          stack := stop
          rsp := stop - sizeofTaskUserInitStack } s' ∧
      KmemOk kernelHead n (⟨pa, sizeToOrder ursp0Size⟩ :: mapped) others s' ∧ s'.cr3 = s.cr3 ∧
      (∀ b ∈ mapped ++ others, ∀ k, b.Has k → k ≠ entryFrame e → s'.mem k = s.mem k) ∧
      (∀ w, w < 2 ^ 35 → s'.page w =
        if windowPage ≤ w ∧ w < windowPage + 3 + rangePages start stop then none
        else s.page w) ∧
      InitFrame s'.mem (entryFrame e) stop entry switchToUser args ∧
      (s.vmapAreaPool.freeList ≠ [] → s'.mmSpinlock = false) := by
  obtain ⟨hPml4Count, hPdptCount, hPdCount⟩ := hLower.counts_small hSmall
  have hPtCount := hLower.ptCount
  have hPos : 0 < stop.toNat := by
    have := hLower.lt
    omega
  have hOneNat : (1#64).toNat = 1 := rfl
  have hWinEq : windowPage = 0x700000000 := rfl
  have hHead : ∀ w, w < 2 ^ 35 → kernelHead (pageHead w) := fun w hw => (lowerPage_head hw).1
  have hOrder : (sizeToOrder ursp0Size).toNat = 2 := by decide
  have hLastLow : stop.toNat / 4096 - 1 < 2 ^ 35 := by
    have := hLower.lower
    omega
  unfold usertaskFinish at hFail ⊢
  obtain ⟨pa, ptr, s1, hRun1, hKmem1, hKeeps, hPool⟩ := h.kzalloc hLock (show ursp0Size ≠ 0#64 by decide)
    (by rw [hOrder]; exact hFour) (by rw [hOrder]; decide)
    (NoFail.of_isPrefix hFail (Respects.bind_after LogGrows.refl
      (fun ptr => usertaskFinishRest_respects LogGrows.refl LogGrows.trans LogGrows.mem start stop entry
        switchToUser args ptr task) s))
  have hKept := usertaskFinishRest_respects HeapKept.refl HeapKept.trans HeapKept.mem start stop entry switchToUser
    args ptr task s1
  rw [hPml4Count, hPdptCount, hPdCount] at hKept
  rw [bind_ok hRun1, hPml4Count, hPdptCount, hPdCount]
  have hPage1 : ∀ w, w < 2 ^ 35 → s1.page w = s.page w := fun w hw =>
    hKeeps.page w (by omega) (lowerPage_head hw).1 (lowerPage_head hw).2
  have hOwn1 : ∃ b ∈ ⟨pa, sizeToOrder ursp0Size⟩ :: mapped ++ others, b.Has (entryFrame e) := by
    obtain ⟨b, hb, hHas⟩ := hOwn
    exact ⟨b, List.mem_cons_of_mem _ hb, hHas⟩
  -- the stack
  obtain ⟨s2, hRun2, hWrote, hFrame⟩ := initStack_ok hKmem1.frames entry switchToUser args
    hLower.stopAligned hPos hLower.lower (hHead _ hLastLow) ((hPage1 _ hLastLow).trans hLast) hOwn1
  rw [bind_ok hRun2]
  have hD : ∀ f, f = entryFrame e →
      ∃ b ∈ ⟨pa, sizeToOrder ursp0Size⟩ :: mapped ++ others, b.Has f := by
    rintro f rfl
    exact hOwn1
  have hKmem2 := hKmem1.wrote hWrote hD
  have hPage2 : ∀ w, w < 2 ^ 35 → s2.page w = s.page w := fun w hw =>
    ((hKmem1.frames.wrote hWrote hD).2 w (hHead w hw)).trans (hPage1 w hw)
  -- the windows
  obtain ⟨s3, hRun3, hKmem3, hCr33, hMem3, hPage3⟩ := hKmem2.unmapLower
    userSpacePml4Base 1#64 vpn_pml4Base hOneNat (by omega) (by decide) (by
      intro w hw hw'
      rw [hPage2 w (by omega)]
      exact hWindows w (by omega) (by omega))
  rw [bind_ok hRun3]
  obtain ⟨s4, hRun4, hKmem4, hCr34, hMem4, hPage4⟩ := hKmem3.unmapLower
    userSpacePdptBase 1#64 vpn_pdptBase hOneNat (by omega) (by decide) (by
      intro w hw hw'
      rw [hPage3 w (by omega) (hHead w (by omega)), if_neg (by omega), hPage2 w (by omega)]
      exact hWindows w (by omega) (by omega))
  rw [bind_ok hRun4]
  obtain ⟨s5, hRun5, hKmem5, hCr35, hMem5, hPage5⟩ := hKmem4.unmapLower
    userSpacePdBase 1#64 vpn_pdBase hOneNat (by omega) (by decide) (by
      intro w hw hw'
      rw [hPage4 w (by omega) (hHead w (by omega)), if_neg (by omega),
        hPage3 w (by omega) (hHead w (by omega)), if_neg (by omega), hPage2 w (by omega)]
      exact hWindows w (by omega) (by omega))
  rw [bind_ok hRun5]
  obtain ⟨s6, hRun6, hKmem6, hCr36, hMem6, hPage6⟩ := hKmem5.unmapLower
    userSpacePtBase (usertaskCounts start stop).ptCount vpn_ptBase hPtCount (by omega) (by omega) (by
      intro w hw hw'
      rw [hPage5 w (by omega) (hHead w (by omega)), if_neg (by omega),
        hPage4 w (by omega) (hHead w (by omega)), if_neg (by omega),
        hPage3 w (by omega) (hHead w (by omega)), if_neg (by omega), hPage2 w (by omega)]
      exact hWindows w (by omega) (by omega))
  rw [bind_ok hRun6]
  refine ⟨pa, ptr, s6, rfl, hKmem6, ?_, ?_, ?_, ?_, ?_⟩
  · rw [hCr36, hCr35, hCr34, hCr33, hWrote.cr3, hKeeps.cr3]
  · intro b hb k hk hNe
    have hb' : b ∈ ⟨pa, sizeToOrder ursp0Size⟩ :: mapped ++ others := List.mem_cons_of_mem _ hb
    rw [hMem6 b hb' k hk, hMem5 b hb' k hk, hMem4 b hb' k hk, hMem3 b hb' k hk,
      hWrote.mem k hNe, hKeeps.mem b hb k hk]
  · intro w hw
    have hw36 : w < 2 ^ 36 := by omega
    rw [hPage6 w hw36 (hHead w hw), hPage5 w hw36 (hHead w hw), hPage4 w hw36 (hHead w hw),
      hPage3 w hw36 (hHead w hw), hPage2 w hw]
    by_cases hIn : windowPage ≤ w ∧ w < windowPage + 3 + rangePages start stop
    · rw [if_pos hIn]
      split_ifs <;> first | rfl | omega
    · rw [if_neg hIn, if_neg (by omega), if_neg (by omega), if_neg (by omega), if_neg (by omega)]
  · obtain ⟨b, hb, hHas⟩ := hOwn1
    refine hFrame.congr ?_
    rw [hMem6 b hb _ hHas, hMem5 b hb _ hHas, hMem4 b hb _ hHas, hMem3 b hb _ hHas]
  · intro hPoolNe
    obtain ⟨obj, rest, hObjs⟩ := List.exists_cons_of_ne_nil hPoolNe
    rw [bind_ok hRun2, bind_ok hRun3, bind_ok hRun4, bind_ok hRun5, bind_ok hRun6] at hKept
    exact hKept.1.trans (hPool obj rest hObjs).2.1

end Rayos
