import Rayos.Mem.Room
import Rayos.Task.UserTable

/-!
# What a new user task can reach
-/

namespace Rayos

open RadixTable Program

variable {n : Nat} {mapped others : List Block} {s : Machine} {start stop e : U64}

/-- What `__usertask_create` has done when the range lies in one 2 MiB region: `s1` is the state after
the windows have been mapped, `s2` the state after the table has been filled, `s'` the last one; `e`
is the entry of the page at the end of the range. -/
structure Created (n : Nat) (mapped others : List Block) (start stop e : U64) (task : UserLevels)
    (s s1 s2 s' : Machine) : Prop where
  windows : WindowsMapped kernelHead n mapped others start stop task s s1
  wrote : Wrote task.IsTable s1 s2
  filled : Filled start (rangePages start stop) task s1 s2
  kept : ∀ b ∈ mapped ++ (task.levels ++ others), ∀ k, b.Has k → k ≠ entryFrame e →
    s'.mem k = s2.mem k
  kmem : ∃ pa, KmemOk kernelHead n (⟨pa, sizeToOrder ursp0Size⟩ :: mapped) (task.levels ++ others) s'
  cr3 : s'.cr3 = s.cr3
  page : ∀ w, w < 2 ^ 35 → s'.page w = s.page w

theorem usertaskFill_log (start stop : U64) (task : UserTask) :
    Respects LogGrows (usertaskFill start stop task) := by
  have hLoad := fun va => load64_respects LogGrows.refl (R := LogGrows) va
  have hStore := fun va v => store64_respects LogGrows.refl LogGrows.mem (R := LogGrows) va v
  have hFill : ∀ (table idx : U64) (count : Nat) (entry : U64 → KernelM U64),
      (∀ i, Respects LogGrows (entry i)) → Respects LogGrows (fillEntries table idx count entry) :=
    fun table idx count entry hEntry => Respects.forUpto LogGrows.refl LogGrows.trans fun i =>
      Respects.bind LogGrows.trans (hEntry _) fun e => hStore _ _
  have hNext : ∀ phys i, Respects LogGrows (nextLevelEntry phys i) :=
    fun phys i => Respects.pure LogGrows.refl _
  have hPure : ∀ x : U64, Respects LogGrows (pure x : KernelM U64) :=
    fun x => Respects.pure LogGrows.refl x
  have hPhys : ∀ va, Respects LogGrows (getPhysaddr va) := fun va =>
    Respects.bind LogGrows.trans (hLoad _) fun _ => Respects.ite (hPure _) <|
    Respects.bind LogGrows.trans (hLoad _) fun _ => Respects.ite (hPure _) <|
    Respects.bind LogGrows.trans (hLoad _) fun _ => Respects.ite (hPure _) <|
    Respects.bind LogGrows.trans (hLoad _) fun _ => Respects.ite (hPure _) (hPure _)
  have hPt : ∀ i, Respects LogGrows (ptEntry start i) := fun i =>
    Respects.bind LogGrows.trans (hPhys _) fun _ => hPure _
  exact Respects.bind LogGrows.trans (hFill _ _ _ _ fun _ => hLoad _) fun _ =>
    Respects.bind LogGrows.trans (hStore _ _) fun _ =>
    Respects.bind LogGrows.trans (hFill _ _ _ _ (hNext _)) fun _ =>
    Respects.bind LogGrows.trans (hFill _ _ _ _ (hNext _)) fun _ =>
    Respects.bind LogGrows.trans (hFill _ _ _ _ (hNext _)) fun _ =>
    Respects.bind LogGrows.trans (hFill _ _ _ _ hPt) fun _ => Respects.pure LogGrows.refl _

theorem usertaskFinish_log (start stop entry switchToUser args : U64) (task : UserTask) :
    Respects LogGrows (usertaskFinish start stop entry switchToUser args task) :=
  Respects.bind LogGrows.trans (kzalloc_log _) fun ptr =>
    usertaskFinishRest_respects LogGrows.refl LogGrows.trans LogGrows.mem start stop entry switchToUser args
      ptr task

/-- Mapping the windows does not touch the data of the heap. -/
theorem usertaskMap_kept (start stop : U64) (task : UserTask) :
    Respects HeapKept (usertaskMap start stop task) := by
  have hLevel : ∀ base count, Respects HeapKept (userLevelMap base count) := fun base count =>
    Respects.bind HeapKept.trans (HeapKept.alloc _) fun _ =>
      Respects.bind HeapKept.trans (mapPageRange_kept _ _ _ _) fun _ => Respects.pure HeapKept.refl _
  exact Respects.bind HeapKept.trans (hLevel _ _) fun _ =>
    Respects.bind HeapKept.trans (hLevel _ _) fun _ =>
    Respects.bind HeapKept.trans (hLevel _ _) fun _ =>
    Respects.bind HeapKept.trans (hLevel _ _) fun _ => Respects.pure HeapKept.refl _

/-- `__usertask_create` for a range in one 2 MiB region, with the windows free and the last page mapped
to a block in use. -/
theorem usertaskCreate_run (h : KmemOk kernelHead n mapped others s) (hLock : s.mmSpinlock = false)
    (hFour : 4 ≤ n) (hLower : LowerRange start stop) (hOne : OneTable start stop)
    (hFree : WindowsFree start stop s) (hLast : s.page (stop.toNat / 4096 - 1) = some e)
    (hOwn : ∃ b ∈ mapped ++ others, b.Has (entryFrame e))
    (task : UserTask) (entry switchToUser args : U64)
    (hFail : NoFail
      (finalState (usertaskCreate task stop start entry switchToUser args s)).allocLog) :
    ∃ task1 s1 task2 s2 task' s', usertaskMap start stop task s = .ok task1 s1 ∧
      usertaskFill start stop task1 s1 = .ok task2 s2 ∧
      usertaskCreate task stop start entry switchToUser args s = .ok (0, task') s' ∧
      task'.toUserLevels = task1.toUserLevels ∧ task'.pml4 = task'.userPml4.phys ∧
      task'.lsAddr = task.lsAddr ∧
      Created n mapped others start stop e task'.toUserLevels s s1 s2 s' ∧
      task'.rsp = stop - sizeofTaskUserInitStack ∧
      InitFrame s'.mem (entryFrame e) stop entry switchToUser args ∧
      (s.vmapAreaPool.freeList ≠ [] → s'.mmSpinlock = false) := by
  have hSmall : rangePages start stop ≤ 512 := by
    have := hLower.ptIdx_add_le hOne
    omega
  have hWinEq : windowPage = 0x700000000 := rfl
  have hHead : ∀ w, w < 2 ^ 35 → kernelHead (pageHead w) := fun w hw => (lowerPage_head hw).1
  have hLastLow : stop.toNat / 4096 - 1 < 2 ^ 35 := by
    have := hLower.lower
    omega
  have hLastOut : ¬ (windowPage ≤ stop.toNat / 4096 - 1 ∧
      stop.toNat / 4096 - 1 < windowPage + 3 + rangePages start stop) := by
    rintro ⟨hLow, hHigh⟩
    rw [hFree _ hLow hHigh] at hLast
    cases hLast
  have hRest2 : ∀ t2 : UserTask, Respects LogGrows (do
      let task ← usertaskFinish start stop entry switchToUser args t2
      pure ((0, task) : Int × UserTask)) := fun t2 =>
    Respects.bind LogGrows.trans (usertaskFinish_log _ _ _ _ _ _) fun _ =>
      Respects.pure LogGrows.refl _
  have hRest1 : ∀ t1 : UserTask, Respects LogGrows (do
      let task ← usertaskFill start stop t1
      let task ← usertaskFinish start stop entry switchToUser args task
      pure ((0, task) : Int × UserTask)) := fun t1 =>
    Respects.bind LogGrows.trans (usertaskFill_log _ _ _) hRest2
  unfold usertaskCreate at hFail ⊢
  -- the windows
  obtain ⟨task1, s1, hRun1, hSeg, hWin⟩ := usertaskMap_ok h hLower hSmall hFree task
    (NoFail.of_isPrefix hFail (Respects.bind_after LogGrows.refl hRest1 s))
  rw [bind_ok hRun1] at hFail ⊢
  -- the table
  obtain ⟨s2, hRun2, hWrote, hFilled⟩ := usertaskFill_ok hWin hLower hOne
  rw [bind_ok hRun2] at hFail ⊢
  have hOwnT := fun f (hf : task1.IsTable f) => hf.owned mapped others
  have hKmem2 := hWin.kmem.wrote hWrote hOwnT
  have hPage2 : ∀ w, w < 2 ^ 35 → s2.page w = s1.page w := fun w hw =>
    (hWin.kmem.frames.wrote hWrote hOwnT).2 w (hHead w hw)
  have hSome : ∀ w e, s1.page w = some e → w < 2 ^ 35 → s2.page w ≠ none := by
    intro w e he hw
    rw [hPage2 w hw, he]
    simp
  have hWindows : ∀ w, windowPage ≤ w → w < windowPage + 3 + rangePages start stop →
      s2.page w ≠ none := by
    intro w hw hw'
    rcases (by omega : w = windowPage ∨ w = windowPage + 1 ∨ w = windowPage + 2 ∨
        windowPage + 3 ≤ w) with rfl | rfl | rfl | hPt
    · obtain ⟨e, he, -⟩ := hWin.pml4
      exact hSome _ e he (by omega)
    · obtain ⟨e, he, -⟩ := hWin.pdpt
      exact hSome _ e he (by omega)
    · obtain ⟨e, he, -⟩ := hWin.pd
      exact hSome _ e he (by omega)
    · obtain ⟨k, rfl⟩ := Nat.exists_eq_add_of_le hPt
      obtain ⟨e, he, -⟩ := hWin.pt k (by omega)
      exact hSome _ e he (by omega)
  -- the rest
  obtain ⟨pa, rsp0Base, s3, hRun3, hKmem3, hCr33, hMem3, hPage3, hFrame, hUnlocked⟩ := usertaskFinish_ok hKmem2
    (by rw [hWrote.lock, hWin.grown.lock, hLock]) hLower hSmall hFour hWindows
    (by rw [hPage2 _ hLastLow, hWin.elsewhere _ (by omega) (hHead _ hLastLow) hLastOut, hLast])
    (by
      obtain ⟨b, hb, hHas⟩ := hOwn
      refine ⟨b, ?_, hHas⟩
      rcases List.mem_append.mp hb with hb | hb <;> simp [hb])
    entry switchToUser args { task1 with pml4 := task1.userPml4.phys }
    (NoFail.of_isPrefix hFail
      (Respects.bind_after LogGrows.refl (fun _ => Respects.pure LogGrows.refl _) s2))
  rw [bind_ok hRun3]
  have hKept := Respects.of_ok (usertaskMap_kept start stop task) hRun1
  refine ⟨task1, s1, _, s2, _, s3, hRun1, hRun2, pure_apply _ _, rfl, rfl, hSeg, ⟨hWin, hWrote,
    hFilled, hMem3, ⟨pa, hKmem3⟩, ?_, ?_⟩, rfl, hFrame, ?_⟩
  · rw [hCr33, hWrote.cr3, hWin.grown.cr3]
  · intro w hw
    rw [hPage3 w hw]
    split
    · rename_i hIn
      exact (hFree w hIn.1 hIn.2).symm
    · rename_i hOut
      rw [hPage2 w hw, hWin.elsewhere w (by omega) (hHead w hw) hOut]
  · intro hPool
    apply hUnlocked
    rw [hWrote.pool, hKept.2.1]
    exact hPool

/-- The part of it that is about the table. -/
theorem usertaskCreate_ok (h : KmemOk kernelHead n mapped others s) (hLock : s.mmSpinlock = false)
    (hFour : 4 ≤ n) (hLower : LowerRange start stop) (hOne : OneTable start stop)
    (hFree : WindowsFree start stop s) (hLast : s.page (stop.toNat / 4096 - 1) = some e)
    (hOwn : ∃ b ∈ mapped ++ others, b.Has (entryFrame e))
    (task : UserTask) (entry switchToUser args : U64)
    (hFail : NoFail
      (finalState (usertaskCreate task stop start entry switchToUser args s)).allocLog) :
    ∃ task1 s1 task2 s2 task' s', usertaskMap start stop task s = .ok task1 s1 ∧
      usertaskFill start stop task1 s1 = .ok task2 s2 ∧
      usertaskCreate task stop start entry switchToUser args s = .ok (0, task') s' ∧
      task'.toUserLevels = task1.toUserLevels ∧ task'.pml4 = task'.userPml4.phys ∧
      task'.lsAddr = task.lsAddr ∧
      Created n mapped others start stop e task'.toUserLevels s s1 s2 s' := by
  obtain ⟨task1, s1, task2, s2, task', s', hMap, hFill, hRun, hLevels, hPml4, hLs, hCreated, -⟩ :=
    usertaskCreate_run h hLock hFour hLower hOne hFree hLast hOwn task entry switchToUser args hFail
  exact ⟨task1, s1, task2, s2, task', s', hMap, hFill, hRun, hLevels, hPml4, hLs, hCreated⟩

section Created

variable {task : UserLevels} {s1 s2 s' : Machine}

/-- The frames of the four levels keep their entries to the end. -/
theorem Created.table_kept (h : Created n mapped others start stop e task s s1 s2 s')
    (hOwn : ∃ b ∈ mapped ++ others, b.Has (entryFrame e)) {f : Nat} (hf : task.IsTable f) :
    s'.mem f = s2.mem f := by
  obtain ⟨b, hb, hHas⟩ := hf.block
  obtain ⟨c, hc, hHas'⟩ := hOwn
  refine h.kept b (by simp [hb]) f hHas ?_
  rintro rfl
  exact h.windows.apart hb hc _ hHas hHas'

/-- The blocks that were in use before keep their memory, but for the page at the end of the range. -/
theorem Created.mem_kept (h : Created n mapped others start stop e task s s1 s2 s') {b : Block}
    (hb : b ∈ mapped ++ others) {k : Nat} (hk : b.Has k) (hNe : k ≠ entryFrame e) :
    s'.mem k = s.mem k := by
  have hbAll : b ∈ mapped ++ (task.levels ++ others) := by
    rcases List.mem_append.mp hb with hb | hb <;> simp [hb]
  rw [h.kept b hbAll k hk hNe, h.wrote.mem k, h.windows.grown.frame k]
  · intro p hp hf
    exact h.windows.kmem.frames.tableApart p k hp hf b hbAll hk
  · intro hTable
    obtain ⟨c, hc, hHas⟩ := hTable.block
    exact h.windows.apart hc hb k hHas hk

end Created

/-! ## The kernel at the call -/

/-- The kernel at a call of `__usertask_create`: bitmap, tables and heap agree, the lock of the heap is
free, and every mapped page of the lower half is backed by a block in use. -/
structure KernelReady (n : Nat) (mapped others : List Block) (s : Machine) : Prop where
  kmem : KmemOk kernelHead n mapped others s
  unlocked : s.mmSpinlock = false
  enough : 4 ≤ n
  backed : ∀ w e, w < 2 ^ 35 → s.page w = some e → ∃ b ∈ mapped ++ others, b.Has (entryFrame e)

/-- Every page of the range is mapped. -/
def RangeMapped (start stop : U64) (s : Machine) : Prop :=
  ∀ v, start.toNat / 4096 ≤ v → v < stop.toNat / 4096 → s.page v ≠ none

theorem RangeMapped.last (hMapped : RangeMapped start stop s) (hLower : LowerRange start stop) :
    stop.toNat / 4096 - 1 < 2 ^ 35 ∧ ∃ e, s.page (stop.toNat / 4096 - 1) = some e := by
  obtain ⟨hStart, hStop, hLt, hLow⟩ := hLower
  exact ⟨by omega, Option.ne_none_iff_exists'.mp (hMapped _ (by omega) (by omega))⟩

/-- The memory `m` differs from that of `s` at most in frames that are not in use. -/
def StaleOf (s : Machine) (m : Memory) : Prop :=
  ∀ f, ¬ (f < s.pageAllocBitmap.size.toNat ∧ s.pageAllocBitmap.bit f = false) → m f = s.mem f

/-- What free frames hold does not matter to the kernel. -/
theorem KernelReady.stale (h : KernelReady n mapped others s) {m : Memory} (hm : StaleOf s m) :
    KernelReady n mapped others { s with mem := m } ∧
      ∀ w, w < 2 ^ 35 → Machine.page { s with mem := m } w = s.page w := by
  obtain ⟨hFrames, hPage⟩ := h.kmem.frames.data { s with mem := m } rfl rfl (by
    intro p f i hp hf _
    show m f i = s.mem f i
    rw [hm f]
    rintro ⟨hLt, hBit⟩
    rw [h.kmem.frames.tableUsed p f hp hf (by rw [← h.kmem.frames.size]; exact hLt)] at hBit
    cases hBit)
  have hLower : ∀ w, w < 2 ^ 35 → Machine.page { s with mem := m } w = s.page w :=
    fun w hw => hPage w (lowerPage_head hw).1
  refine ⟨⟨h.kmem.of_page hFrames fun f hf => hPage _ (h.kmem.head hf), h.unlocked, h.enough, ?_⟩,
    hLower⟩
  intro w e hw he
  exact h.backed w e hw ((hLower w hw).symm.trans he)

/-! ## Translation -/

theorem pteUser_or (x : U64) : pteUser (x ||| mapUserRw) = true := by
  rw [pteUser, bne_iff_ne]
  intro h
  have := congrArg (fun w => w.getLsbD 2) h
  simp [mapUserRw] at this

theorem entryChild_of_userChild {x : U64} {f : Nat} (h : userChild x = some f) :
    entryChild x = some f := by
  unfold userChild at h
  unfold entryChild
  split at h
  · rename_i hBits
    rw [Bool.and_eq_true] at hBits
    rw [if_pos hBits.1]
    exact h
  · cases h

theorem userChild_or {x : U64} (hx : x.toNat % 4096 = 0) :
    userChild (x ||| mapUserRw) = some (entryFrame x) := by
  have hNat : (x ||| mapUserRw).toNat = x.toNat + 7 := or_toNat_of_aligned hx (by decide)
  have hPresent : ptePresent (x ||| mapUserRw) = true := by
    rw [ptePresent_iff, hNat]
    omega
  have hFrame : entryFrame (x ||| mapUserRw) = entryFrame x := by
    simp only [entryFrame, hNat]
    omega
  simp [userChild, hPresent, pteUser_or, hFrame]

/-- In the table, every address of the range leads to the frame that `get_physaddr` gives in the
kernel's table of `s`, through entries that are all open to user code. -/
def TranslatesRange (start stop : U64) (s : Machine) (mem : Memory) (root : Nat) : Prop :=
  ∀ va : U64, start.toNat ≤ va.toNat → va.toNat < stop.toNat →
    ∃ pa, getPhysaddr va s = .ok pa s ∧ userWalk mem root (walkPath va) = some (entryFrame pa)

/-- The address that `get_physaddr` gives lies in the frame of the leaf entry. -/
theorem entryFrame_physaddrOf (va e : U64) : entryFrame (physaddrOf va (some e)) = entryFrame e := by
  have hLt := e.isLt
  simp only [physaddrOf, entryFrame]
  rw [BitVec.toNat_add, and_not_fff_toNat, and_fff_toNat]
  omega

/-- The frame of a level of one page. -/
theorem UserLevel.entryFrame_phys {owned : List Block} (h : FramesOk kernelHead n owned s)
    {l : UserLevel} (hl : l.block ∈ owned) :
    l.phys.toNat % 4096 = 0 ∧ entryFrame l.phys = l.frame := by
  have hAligned := h.aligned _ hl
  have hIn := h.inside _ hl
  have hSmall := h.small
  have hPa : l.phys.toNat = l.frame * 4096 := hAligned
  have hFrame : l.frame = l.block.frame := rfl
  simp only [entryFrame, hPa]
  omega

/-- The indices of an address of a range in one 2 MiB region: the upper ones are those of `start`. -/
theorem OneTable.indices (hOne : OneTable start stop) {va : U64} (hva : start.toNat ≤ va.toNat)
    (hva' : va.toNat < stop.toNat) :
    va.toNat / 2 ^ 39 % 512 = (pml4Idx start).toNat ∧ va.toNat / 2 ^ 30 % 512 = (pdptIdx start).toNat ∧
      va.toNat / 2 ^ 21 % 512 = (pdIdx start).toNat ∧
      va.toNat / 2 ^ 12 % 512 = (ptIdx start).toNat + (va.toNat / 4096 - start.toNat / 4096) := by
  have hRegion : va.toNat / 2 ^ 21 = start.toNat / 2 ^ 21 := by
    simp only [OneTable] at hOne
    omega
  rw [pml4Idx_toNat, pdptIdx_toNat, pdIdx_toNat, ptIdx_toNat]
  refine ⟨?_, ?_, ?_, ?_⟩ <;> omega

/-- The page of an address, counted from `start`. -/
theorem vpn_page {va : U64} (hStart : start.toNat % 4096 = 0) (hva : start.toNat ≤ va.toNat) :
    vpn (start + BitVec.ofNat 64 (va.toNat / 4096 - start.toNat / 4096) * pageSize) = vpn va := by
  simp only [vpn, pageSize, BitVec.toNat_add, BitVec.toNat_mul, BitVec.toNat_ofNat]
  omega

/-- A table whose entries are those of `Filled` translates the mapped pages of the range. -/
theorem Filled.userWalk {task : UserLevels} {s1 : Machine} {mem : Memory}
    (hWin : WindowsMapped kernelHead n mapped others start stop task s s1)
    (hFilled : ∃ s2, Filled start (rangePages start stop) task s1 s2 ∧
      ∀ f, task.IsTable f → mem f = s2.mem f)
    (hLower : LowerRange start stop) (hOne : OneTable start stop) {va : U64}
    (hva : start.toNat ≤ va.toNat) (hva' : va.toNat < stop.toNat) {e : U64}
    (he : s1.page (vpn va) = some e) :
    userWalk mem task.userPml4.frame (walkPath va) = some (entryFrame e) := by
  obtain ⟨s2, hFill, hMem⟩ := hFilled
  have hOwned := hWin.kmem.frames
  obtain ⟨hAl3, hFr3⟩ := UserLevel.entryFrame_phys hOwned (l := task.userPdpt)
    (by simp [UserLevels.levels])
  obtain ⟨hAl2, hFr2⟩ := UserLevel.entryFrame_phys hOwned (l := task.userPd)
    (by simp [UserLevels.levels])
  obtain ⟨hAl1, hFr1⟩ := UserLevel.entryFrame_phys hOwned (l := task.userPt)
    (by simp [UserLevels.levels])
  have hPtIdx := hLower.ptIdx_add_le hOne
  obtain ⟨h4, h3, h2, h1⟩ := hOne.indices hva hva'
  have hVpn := vpn_page hLower.startAligned hva
  obtain ⟨hStart, hStop, hLt, hLow⟩ := hLower
  set k := va.toNat / 4096 - start.toNat / 4096 with hk
  have hkLt : k < rangePages start stop := by
    simp only [rangePages]
    omega
  have hIdx4 : (pml4Idx start).toNat < 256 := by
    rw [pml4Idx_toNat]
    omega
  have hPage : rangeEntry start s1 k =
      physaddrOf (start + BitVec.ofNat 64 k * pageSize) (some e) ||| mapUserRw := by
    simp only [rangeEntry, hVpn, he]
  have hAl0 : (physaddrOf (start + BitVec.ofNat 64 k * pageSize) (some e)).toNat % 4096 = 0 := by
    have hLte := e.isLt
    simp only [physaddrOf]
    rw [BitVec.toNat_add, and_not_fff_toNat, and_fff_toNat]
    simp only [pageSize, BitVec.toNat_add, BitVec.toNat_mul, BitVec.toNat_ofNat]
    omega
  -- one entry after the other
  have hStep4 : userChild (mem task.userPml4.frame (pml4Idx start).toNat) =
      some task.userPdpt.frame := by
    rw [hMem _ (Or.inl rfl), hFill.pml4 _ (by omega), if_neg (by omega), if_neg (by omega),
      if_pos rfl, userChild_or hAl3, hFr3]
  have hStep3 : userChild (mem task.userPdpt.frame (pdptIdx start).toNat) =
      some task.userPd.frame := by
    rw [hMem _ (Or.inr (Or.inl rfl)), hFill.pdpt _ (by rw [pdptIdx_toNat]; omega), if_pos rfl,
      userChild_or hAl2, hFr2]
  have hStep2 : userChild (mem task.userPd.frame (pdIdx start).toNat) =
      some task.userPt.frame := by
    rw [hMem _ (Or.inr (Or.inr (Or.inl rfl))), hFill.pd _ (by rw [pdIdx_toNat]; omega), if_pos rfl,
      userChild_or hAl1, hFr1]
  have hStep1 : userChild (mem task.userPt.frame ((ptIdx start).toNat + k)) =
      some (entryFrame e) := by
    rw [hMem _ (Or.inr (Or.inr (Or.inr rfl))), hFill.pt _ (by omega), if_pos (by omega),
      Nat.add_sub_cancel_left, hPage, userChild_or hAl0, entryFrame_physaddrOf]
  rw [walkPath_eq, h4, h3, h2, h1, Rayos.userWalk, descend_cons_of_child hStep4,
    descend_cons_of_child hStep3, descend_cons_of_child hStep2, descend_cons_of_child hStep1,
    descend_nil]

/-- Any memory that has the entries of the four levels translates the range as the kernel's table did
before the call: the pages of the range are not those of the windows. -/
theorem Created.userWalk {task : UserLevels} {s1 s2 s' : Machine}
    (h : Created n mapped others start stop e task s s1 s2 s') (hLower : LowerRange start stop)
    (hOne : OneTable start stop) (hFree : WindowsFree start stop s)
    {mem : Memory} (hMem : ∀ f, task.IsTable f → mem f = s2.mem f) {va x : U64}
    (hva : start.toNat ≤ va.toNat) (hva' : va.toNat < stop.toNat) (hPage : s.page (vpn va) = some x) :
    userWalk mem task.userPml4.frame (walkPath va) = some (entryFrame x) := by
  have hLow := hLower.lower
  have hVpn : vpn va = va.toNat / 4096 := by
    simp only [vpn]
    omega
  have hOut : ¬ (windowPage ≤ vpn va ∧ vpn va < windowPage + 3 + rangePages start stop) := by
    rintro ⟨hIn, hIn'⟩
    rw [hFree _ hIn hIn'] at hPage
    cases hPage
  have hHere : s1.page (vpn va) = some x := by
    rw [h.windows.elsewhere _ (vpn_lt va) (lowerPage_head (by omega)).1 hOut, hPage]
  exact Filled.userWalk h.windows ⟨s2, h.filled, hMem⟩ hLower hOne hva hva' hHere

/-- What `__usertask_create` is for: the call returns 0; once the table is filled
and still at the end, it translates the range as the kernel's table did before the call; and filling
it has written to no frame but those of the four blocks that were allocated for it. -/
def BuildsUserTable (task : UserTask) (stop start entry switchToUser args : U64) (s : Machine) :
    Prop :=
  ∃ task1 s1 task2 s2 task' s', usertaskMap start stop task s = .ok task1 s1 ∧
    usertaskFill start stop task1 s1 = .ok task2 s2 ∧
    usertaskCreate task stop start entry switchToUser args s = .ok (0, task') s' ∧
    TranslatesRange start stop s s2.mem task1.userPml4.frame ∧
    TranslatesRange start stop s s'.mem task'.userPml4.frame ∧
    ∃ new, s2.storeLog = s1.storeLog ++ new ∧ ∀ f ∈ new, ∃ b ∈ task1.levels, b.Has f

/-- A range in one 2 MiB region, with the windows free. -/
theorem buildsUserTable_of_oneTable (h : KernelReady n mapped others s)
    (hLower : LowerRange start stop) (hMapped : RangeMapped start stop s)
    (hOne : OneTable start stop) (hFree : WindowsFree start stop s)
    (task : UserTask) (entry switchToUser args : U64)
    (hFail : NoFail
      (finalState (usertaskCreate task stop start entry switchToUser args s)).allocLog) :
    BuildsUserTable task stop start entry switchToUser args s := by
  have hLt := hLower.lt
  have hLow := hLower.lower
  have hStart := hLower.startAligned
  have hStop := hLower.stopAligned
  obtain ⟨hLast, e, he⟩ := hMapped.last hLower
  have hOwn := h.backed _ e hLast he
  obtain ⟨task1, s1, task2, s2, task', s', hRun1, hRun2, hRun, hLevels, -, -, hCreated⟩ :=
    usertaskCreate_ok h.kmem h.unlocked h.enough hLower hOne hFree he hOwn task entry switchToUser
      args hFail
  have hPage : ∀ va : U64, start.toNat ≤ va.toNat → va.toNat < stop.toNat →
      ∃ x, s.page (vpn va) = some x := by
    intro va hva hva'
    have hVpn : vpn va = va.toNat / 4096 := by
      simp only [vpn]
      omega
    exact Option.ne_none_iff_exists'.mp (hMapped (vpn va) (by omega) (by omega))
  have hTrans : ∀ mem : Memory, (∀ f, task'.IsTable f → mem f = s2.mem f) →
      TranslatesRange start stop s mem task'.userPml4.frame := by
    intro mem hMem va hva hva'
    obtain ⟨x, hx⟩ := hPage va hva hva'
    refine ⟨_, getPhysaddr_eq h.kmem.frames.tables.recursive va, ?_⟩
    rw [hx, entryFrame_physaddrOf]
    exact hCreated.userWalk hLower hOne hFree hMem hva hva' hx
  refine ⟨task1, s1, task2, s2, task', s', hRun1, hRun2, hRun, ?_,
    hTrans s'.mem fun _ hf => hCreated.table_kept hOwn hf, ?_⟩
  · rw [← hLevels]
    exact hTrans s2.mem fun _ _ => rfl
  · obtain ⟨new, hNew, hIn⟩ := hCreated.wrote.stores
    refine ⟨new, hNew, fun f hf => ?_⟩
    rw [← hLevels]
    exact (hIn f hf).block

/-! ## Enough frames for a call -/

/-- The frames that a level may take: its block, and up to three tables for each page of the window. -/
def levelCost (count : U64) : Nat := 2 ^ (sizeToOrder (count * 8#64)).toNat + 3 * count.toNat

/-- The frames that `__usertask_create` may take; 16 of them for the kernel stack. -/
def usertaskCost (start stop : U64) : Nat :=
  levelCost (usertaskCounts start stop).pml4Count + levelCost (usertaskCounts start stop).pdptCount +
    levelCost (usertaskCounts start stop).pdCount + levelCost (usertaskCounts start stop).ptCount + 16

theorem usertaskCreate_costs (task : UserTask) (stop start entry switchToUser args : U64) :
    Costs n (usertaskCost start stop) (usertaskCreate task stop start entry switchToUser args) := by
  have hLevel : ∀ base count, Costs n (levelCost count) (userLevelMap base count) :=
    fun base count => Costs.bind (Costs.allocPages _) fun phys =>
      Costs.bind (Costs.mapPageRange _ _ _ _) fun _ => Costs.pure _
  have hFill : ∀ (table idx : U64) (count : Nat) (entry : U64 → KernelM U64),
      (∀ i, Costs n 0 (entry i)) → Costs n 0 (fillEntries table idx count entry) :=
    fun table idx count entry hEntry =>
      (Costs.forUpto fun i => Costs.bind (hEntry _) fun e => Costs.store64 _ _).mono (by simp)
  have hNext : ∀ phys i, Costs n 0 (nextLevelEntry phys i) := fun phys i => Costs.pure _
  have hPt : ∀ i, Costs n 0 (ptEntry start i) :=
    fun i => Costs.bind (Costs.getPhysaddr _) fun _ => Costs.pure _
  have hMap : Costs n (levelCost (usertaskCounts start stop).pml4Count +
      (levelCost (usertaskCounts start stop).pdptCount +
      (levelCost (usertaskCounts start stop).pdCount +
      (levelCost (usertaskCounts start stop).ptCount + 0)))) (usertaskMap start stop task) :=
    Costs.bind (hLevel _ _) fun _ => Costs.bind (hLevel _ _) fun _ =>
      Costs.bind (hLevel _ _) fun _ => Costs.bind (hLevel _ _) fun _ => Costs.pure _
  have hFilled : ∀ task, Costs n 0 (usertaskFill start stop task) := fun task =>
    Costs.bind (hFill _ _ _ _ fun _ => Costs.load64 _) fun _ =>
    Costs.bind (Costs.store64 _ _) fun _ => Costs.bind (hFill _ _ _ _ (hNext _)) fun _ =>
    Costs.bind (hFill _ _ _ _ (hNext _)) fun _ => Costs.bind (hFill _ _ _ _ (hNext _)) fun _ =>
    Costs.bind (hFill _ _ _ _ hPt) fun _ => Costs.pure _
  have hStack : Costs n 0
      (initStack (stop - sizeofTaskUserInitStack) stop entry switchToUser args) :=
    Costs.bind (Costs.store64 _ _) fun _ => Costs.bind (Costs.store64 _ _) fun _ =>
    Costs.bind (Costs.store64 _ _) fun _ => Costs.bind (Costs.store64 _ _) fun _ =>
    Costs.bind (Costs.store64 _ _) fun _ => Costs.bind (Costs.store64 _ _) fun _ =>
    Costs.store64 _ _
  have hFinish : ∀ task, Costs n 16
      (usertaskFinish start stop entry switchToUser args task) := fun task =>
    (Costs.bind (Costs.kzalloc _) fun _ => Costs.bind hStack fun _ =>
      Costs.bind (Costs.unmapPageRange _ _) fun _ => Costs.bind (Costs.unmapPageRange _ _) fun _ =>
      Costs.bind (Costs.unmapPageRange _ _) fun _ => Costs.bind (Costs.unmapPageRange _ _) fun _ =>
      Costs.pure _).mono (by decide)
  refine Costs.mono (Costs.bind hMap fun _ => Costs.bind (hFilled _) fun _ =>
    Costs.bind (hFinish _) fun _ => Costs.pure _) ?_
  simp only [usertaskCost]
  omega

/-! ## A small machine -/

/-- A PML4 in frame 1 with tables for the first 4 MiB of the lower half; the pages 511 and 512 are
mapped to the frames 5 and 7. -/
def userMemory : Memory := fun f i =>
  if f = 1 ∧ i = 511 then 0x1003#64
  else if f = 1 ∧ i = 0 then 0x2007#64
  else if f = 2 ∧ i = 0 then 0x3007#64
  else if f = 3 ∧ i = 0 then 0x4007#64
  else if f = 3 ∧ i = 1 then 0x6007#64
  else if f = 4 ∧ i = 511 then 0x5007#64
  else if f = 6 ∧ i = 0 then 0x7007#64
  else 0#64

/-- A machine with 128 frames, of which the first eight are in use. -/
def userMachine : Machine where
  mem := userMemory
  cr3 := 0x1000#64
  pageAllocBitmap := { size := 128#64, map := [0xff#64, 0#64], map_length := by decide }
  allocLog := []
  storeLog := []
  vmapAreaPool := ⟨[], 40#64, 0#64, 0#64⟩
  vmapAreaList := []
  mmSpinlock := false

/-- The blocks that back the two pages. -/
def userBlocks : List Block := [⟨0x5000#64, 0#64⟩, ⟨0x7000#64, 0#64⟩]

/-- The PML4 holds the entries 0 and 511. -/
theorem userMemory_pml4 {i : Nat} (hFirst : i ≠ 0) (hLast : i ≠ 511) : userMemory 1 i = 0#64 := by
  simp [userMemory, hFirst, hLast]

theorem userMemory_child {f i g : Nat} (h : entryChild (userMemory f i) = some g) :
    f = 1 ∧ i = 511 ∧ g = 1 ∨ f = 1 ∧ i = 0 ∧ g = 2 ∨ f = 2 ∧ i = 0 ∧ g = 3 ∨
      f = 3 ∧ i = 0 ∧ g = 4 ∨ f = 3 ∧ i = 1 ∧ g = 6 ∨ f = 4 ∧ i = 511 ∧ g = 5 ∨
      f = 6 ∧ i = 0 ∧ g = 7 := by
  have hg : ∀ (e : U64) (k : Nat), entryChild e = some g → entryFrame e = k → g = k :=
    fun e k he hk => (entryChild_eq_some.mp he).2.symm.trans hk
  unfold userMemory at h
  split at h
  · rename_i hAt
    exact Or.inl ⟨hAt.1, hAt.2, hg 0x1003#64 1 h (by decide)⟩
  split at h
  · rename_i hAt
    exact Or.inr (Or.inl ⟨hAt.1, hAt.2, hg 0x2007#64 2 h (by decide)⟩)
  split at h
  · rename_i hAt
    exact Or.inr (Or.inr (Or.inl ⟨hAt.1, hAt.2, hg 0x3007#64 3 h (by decide)⟩))
  split at h
  · rename_i hAt
    exact Or.inr (Or.inr (Or.inr (Or.inl ⟨hAt.1, hAt.2, hg 0x4007#64 4 h (by decide)⟩)))
  split at h
  · rename_i hAt
    exact Or.inr (Or.inr (Or.inr (Or.inr (Or.inl ⟨hAt.1, hAt.2, hg 0x6007#64 6 h (by decide)⟩))))
  split at h
  · rename_i hAt
    exact Or.inr (Or.inr (Or.inr (Or.inr (Or.inr (Or.inl ⟨hAt.1, hAt.2, hg 0x5007#64 5 h (by decide)⟩)))))
  split at h
  · rename_i hAt
    exact Or.inr (Or.inr (Or.inr (Or.inr (Or.inr (Or.inr ⟨hAt.1, hAt.2, hg 0x7007#64 7 h (by decide)⟩)))))
  · cases h

/-- The path to a table of `userMemory`. -/
def userPath : Nat → List Nat
  | 2 => [0]
  | 3 => [0, 0]
  | 4 => [0, 0, 0]
  | 6 => [0, 0, 1]
  | _ => []

theorem userMachine_table {p : List Nat} {f : Nat} (hp : TablePath kernelHead p)
    (h : userMachine.table p = some f) :
    p = userPath f ∧ (f = 1 ∨ f = 2 ∨ f = 3 ∨ f = 4 ∨ f = 6) := by
  change descend entryChild userMemory 1 p = some f at h
  obtain ⟨hLen, -, hHead⟩ := hp
  match p, hLen, hHead with
  | [], _, _ =>
      cases h
      exact ⟨rfl, by decide⟩
  | i :: p, hLen, hHead =>
      have hi : i < 511 := (hHead i rfl).1
      obtain ⟨g, hg, h⟩ := descend_cons_eq_some.mp h
      obtain ⟨rfl, rfl⟩ : i = 0 ∧ g = 2 := by
        have := userMemory_child hg
        omega
      match p, hLen with
      | [], _ =>
          cases h
          exact ⟨rfl, by decide⟩
      | j :: p, hLen =>
          obtain ⟨g, hg, h⟩ := descend_cons_eq_some.mp h
          obtain ⟨rfl, rfl⟩ : j = 0 ∧ g = 3 := by
            have := userMemory_child hg
            omega
          match p, hLen with
          | [], _ =>
              cases h
              exact ⟨rfl, by decide⟩
          | k :: p, hLen =>
              obtain ⟨g, hg, h⟩ := descend_cons_eq_some.mp h
              obtain rfl : p = [] := by
                simp only [List.length_cons] at hLen
                exact List.eq_nil_of_length_eq_zero (by omega)
              cases h
              have hCase : k = 0 ∧ f = 4 ∨ k = 1 ∧ f = 6 := by
                have := userMemory_child hg
                omega
              rcases hCase with ⟨rfl, rfl⟩ | ⟨rfl, rfl⟩
              · exact ⟨rfl, by decide⟩
              · exact ⟨rfl, by decide⟩

/-- The two mapped pages. -/
theorem userMachine_page {w : Nat} {e : U64} (hw : w < 2 ^ 36) (hHead : kernelHead (pageHead w))
    (h : userMachine.page w = some e) :
    w = 511 ∧ e = 0x5007#64 ∨ w = 512 ∧ e = 0x7007#64 := by
  obtain ⟨f, hf, hEntry, hPresent⟩ := table_of_page h
  obtain ⟨hPath, hCase⟩ := userMachine_table (tablePath_pagePath hHead) hf
  have hChild : entryChild (userMemory f (w % 512)) = some (entryFrame e) :=
    entryChild_eq_some.mpr ⟨by rw [← hEntry] at hPresent; exact hPresent, by rw [← hEntry]; rfl⟩
  have hLeaf := userMemory_child hChild
  rcases hCase with rfl | rfl | rfl | rfl | rfl
  · simp [pagePath, userPath] at hPath
  · simp [pagePath, userPath] at hPath
  · simp [pagePath, userPath] at hPath
  · simp only [pagePath, userPath, List.cons.injEq, and_true] at hPath
    have hIdx : w % 512 = 511 := by omega
    refine Or.inl ⟨by omega, ?_⟩
    rw [← hEntry, hIdx]
    rfl
  · simp only [pagePath, userPath, List.cons.injEq, and_true] at hPath
    have hIdx : w % 512 = 0 := by omega
    refine Or.inr ⟨by omega, ?_⟩
    rw [← hEntry, hIdx]
    rfl

/-- A bitmap of which only the first byte is set holds the frames below 8. -/
theorem bit_of_firstByte {bmp : Bitmap} {words : Nat} (hMap : bmp.map = 0xff#64 :: List.replicate words 0#64)
    (hSize : 8 ≤ bmp.size.toNat) (k : Nat) : bmp.bit k = decide (k < 8) := by
  have hByte : ∀ j, j < 64 → (0xff#64).getLsbD j = decide (j < 8) := by decide
  unfold Bitmap.bit Bitmap.word
  rw [hMap]
  by_cases hFirst : k < 64
  · rw [Nat.div_eq_of_lt hFirst, Nat.mod_eq_of_lt hFirst]
    show (decide (k < bmp.size.toNat) && (0xff#64).getLsbD k) = decide (k < 8)
    rw [hByte k hFirst]
    by_cases hk : k < 8
    · simp [hk, Nat.lt_of_lt_of_le hk hSize]
    · simp [hk]
  · -- the words behind the first one are zero
    obtain ⟨i, hi⟩ : ∃ i, k / 64 = i + 1 := ⟨k / 64 - 1, by omega⟩
    have hZero : (0xff#64 :: List.replicate words 0#64).getD (i + 1) 0#64 = 0#64 := by
      rw [List.getD_eq_getElem?_getD, List.getElem?_cons_succ, List.getElem?_replicate]
      split <;> rfl
    rw [hi, hZero]
    simp
    omega

theorem userMachine_bit (k : Nat) : userMachine.pageAllocBitmap.bit k = decide (k < 8) :=
  bit_of_firstByte (show userMachine.pageAllocBitmap.map = 0xff#64 :: List.replicate 1 0#64 from rfl)
    (by decide) k

/-- The kernel with the tables of `userMachine` and any number of frames. -/
theorem userMachine_ready_of {bmp : Bitmap} {n : Nat} (hSize : bmp.size.toNat = n) (hn : 8 ≤ n)
    (hSmall : n < 2 ^ 31) (hBit : ∀ k, bmp.bit k = decide (k < 8)) (pool : MemPool) :
    KernelReady n [] userBlocks
      { userMachine with pageAllocBitmap := bmp, vmapAreaPool := pool } := by
  have hFrames : FramesOk kernelHead n ([] ++ userBlocks)
      { userMachine with pageAllocBitmap := bmp, vmapAreaPool := pool } := by
    have hRoot : entryFrame userMachine.cr3 = 1 := by decide
    have hRec : entryChild (userMachine.mem 1 511) = some 1 := by decide
    refine ⟨hSize, by omega, hSmall, ⟨?_, by simp [kernelHead], ?_⟩, ?_, ?_, ?_, ?_, ?_, ?_⟩
    · simp only [Machine.root, hRoot, hRec]
    · intro p q f hp hq hpf hqf
      exact (userMachine_table hp hpf).1.trans (userMachine_table hq hqf).1.symm
    · intro p f hp hf _
      show bmp.bit f = true
      rw [hBit, decide_eq_true_eq]
      have := (userMachine_table hp hf).2
      omega
    · intro p f hp hf b hb hHas
      have hCase := (userMachine_table hp hf).2
      simp only [userBlocks, List.nil_append, List.mem_cons, List.not_mem_nil, or_false] at hb
      rcases hb with rfl | rfl <;> simp [Block.Has, Block.frame, Block.pages] at hHas <;> omega
    · simp [userBlocks, Block.Disjoint, Block.Has, Block.frame, Block.pages]
      omega
    · simp [userBlocks, Block.frame, Block.pages]
      omega
    · simp [userBlocks, Block.frame]
    · intro b hb k hk
      show bmp.bit k = true
      rw [hBit, decide_eq_true_eq]
      simp only [userBlocks, List.nil_append, List.mem_cons, List.not_mem_nil, or_false] at hb
      rcases hb with rfl | rfl <;> simp [Block.Has, Block.frame, Block.pages] at hk <;> omega
  refine ⟨⟨?_, hFrames, by simp, ?_⟩, rfl, by omega, ?_⟩
  · intro i hi
    simp only [kmemHead] at hi
    simp only [kernelHead]
    omega
  · intro f hf _
    by_contra hSome
    obtain ⟨e, he⟩ := Option.ne_none_iff_exists'.mp hSome
    have hHead : kernelHead (pageHead (kmemPage f)) := by
      have := kmemPage_head hf
      simp only [kmemHead] at this
      simp only [kernelHead]
      omega
    have := userMachine_page (kmemPage_lt hf) hHead he
    simp only [kmemPage] at this
    omega
  · intro w e hw he
    rcases userMachine_page (by omega) (lowerPage_head hw).1 he with ⟨rfl, rfl⟩ | ⟨rfl, rfl⟩
    · exact ⟨⟨0x5000#64, 0#64⟩, by simp [userBlocks], by decide, by decide⟩
    · exact ⟨⟨0x7000#64, 0#64⟩, by simp [userBlocks], by decide, by decide⟩

theorem userMachine_ready : KernelReady 128 [] userBlocks userMachine :=
  userMachine_ready_of (show userMachine.pageAllocBitmap.size.toNat = 128 by decide) (by decide)
    (by decide) userMachine_bit userMachine.vmapAreaPool

theorem staleOf_self (s : Machine) : StaleOf s s.mem := fun _ _ => rfl

/-- The page 511 is a range that `__usertask_create` handles. -/
theorem userMachine_onePage : LowerRange 0x1ff000#64 0x200000#64 ∧
    RangeMapped 0x1ff000#64 0x200000#64 userMachine ∧ OneTable 0x1ff000#64 0x200000#64 ∧
    WindowsFree 0x1ff000#64 0x200000#64 userMachine := by
  refine ⟨⟨by decide, by decide, by decide, by decide⟩, ?_, by decide, ?_⟩
  · intro v hv hv'
    simp only [BitVec.toNat_ofNat] at hv hv'
    obtain rfl : v = 511 := by omega
    decide
  · intro w hw hw'
    have hPages : rangePages 0x1ff000#64 0x200000#64 = 1 := by decide
    have hWinEq : windowPage = 0x700000000 := rfl
    by_contra hSome
    obtain ⟨e, he⟩ := Option.ne_none_iff_exists'.mp hSome
    have := userMachine_page (by omega) (lowerPage_head (by omega)).1 he
    omega

theorem userMachine_room {m : Memory} : Room 128 8 { userMachine with mem := m } := by
  refine ⟨rfl, by decide, ?_, by simp [NoFail, userMachine]⟩
  intro k hk _
  show userMachine.pageAllocBitmap.bit k = false
  rw [userMachine_bit, decide_eq_false_iff_not]
  omega

/-- No allocation fails, whatever the free frames hold. -/
theorem userMachine_noFail {m : Memory} (_ : StaleOf userMachine m) :
    NoFail (finalState (usertaskCreate UserTask.zeroed 0x200000#64 0x1ff000#64 0x1ff000#64 0#64 0#64
      { userMachine with mem := m })).allocLog :=
  (usertaskCreate_costs (n := 128) UserTask.zeroed _ _ _ _ _).noFail userMachine_room (by decide)

/-! ## The upper half -/

/-- No address of the upper half is open to user code. -/
def KernelProtected (mem : Memory) (root : Nat) : Prop :=
  ∀ va : U64, 256 ≤ (pml4Idx va).toNat → userWalk mem root (walkPath va) = none

section Exposed

variable {task : UserLevels} {s1 s2 s' : Machine}

/-- The entry 511 of the new PML4 refers to the new PML4, with the user bit set. -/
theorem Created.recursive (h : Created n mapped others start stop e task s s1 s2 s')
    (hOwn : ∃ b ∈ mapped ++ others, b.Has (entryFrame e)) :
    s'.mem task.userPml4.frame 511 = task.userPml4.phys ||| mapUserRw ∧
      userChild (s'.mem task.userPml4.frame 511) = some task.userPml4.frame := by
  obtain ⟨hAligned, hFrame⟩ := UserLevel.entryFrame_phys h.windows.kmem.frames (l := task.userPml4)
    (by simp [UserLevels.levels])
  have hEntry : s'.mem task.userPml4.frame 511 = task.userPml4.phys ||| mapUserRw := by
    rw [h.table_kept hOwn (Or.inl rfl), h.filled.pml4 511 (by decide), if_pos rfl]
  exact ⟨hEntry, by rw [hEntry, userChild_or hAligned, hFrame]⟩

end Exposed

/-- Every call that builds a table makes the new PML4 reachable through itself. -/
theorem usertaskCreate_recursive (h : KernelReady n mapped others s)
    (hLower : LowerRange start stop) (hMapped : RangeMapped start stop s)
    (hOne : OneTable start stop) (hFree : WindowsFree start stop s)
    (task : UserTask) (entry switchToUser args : U64)
    (hFail : NoFail
      (finalState (usertaskCreate task stop start entry switchToUser args s)).allocLog) :
    ∃ task' s', usertaskCreate task stop start entry switchToUser args s = .ok (0, task') s' ∧
      userChild (s'.mem task'.userPml4.frame 511) = some task'.userPml4.frame := by
  obtain ⟨hLast, e, he⟩ := hMapped.last hLower
  have hOwn := h.backed _ e hLast he
  obtain ⟨-, s1, -, s2, task', s', -, -, hRun, -, -, -, hCreated⟩ :=
    usertaskCreate_ok h.kmem h.unlocked h.enough hLower hOne hFree he hOwn task entry switchToUser
      args hFail
  exact ⟨task', s', hRun, (hCreated.recursive hOwn).2⟩

/-- The address `PML4_BASE << 12` goes through the entry 511 four times. -/
theorem userWalk_mapPml4 {mem : Memory} {root : Nat} (hRec : userChild (mem root 511) = some root) :
    userWalk mem root (walkPath mapPml4) = some root := by
  rw [show walkPath mapPml4 = [511, 511, 511, 511] by decide, userWalk, descend_cons_of_child hRec,
    descend_cons_of_child hRec, descend_cons_of_child hRec, descend_cons_of_child hRec, descend_nil]

theorem not_kernelProtected {mem : Memory} {root : Nat}
    (hRec : userChild (mem root 511) = some root) : ¬ KernelProtected mem root := by
  intro hProtected
  have hWalk := userWalk_mapPml4 hRec
  rw [hProtected mapPml4 (by decide)] at hWalk
  cases hWalk

/-- The memory of `s` with other contents in the frames that are not in use. -/
def refillFree (s : Machine) (content : Nat → Nat → U64) : Memory := fun f i =>
  if f < s.pageAllocBitmap.size.toNat ∧ s.pageAllocBitmap.bit f = false then content f i
  else s.mem f i

theorem staleOf_refillFree (s : Machine) (content : Nat → Nat → U64) :
    StaleOf s (refillFree s content) := by
  intro f hf
  funext i
  exact if_neg hf

/-- A page of the lower half under another PML4 entry than that of `start`: its address goes through
the entries 511 of the three lower levels. -/
def strangerAddr (start : U64) : U64 :=
  if (pml4Idx start).toNat = 0 then 0x000000FFFFFFF000#64 else 0x0000007FFFFFF000#64

theorem walkPath_stranger (start : U64) : ∃ i, walkPath (strangerAddr start) = [i, 511, 511, 511] ∧
    i < 256 ∧ i ≠ (pml4Idx start).toNat := by
  unfold strangerAddr
  split
  · rename_i hZero
    exact ⟨1, by decide, by decide, by omega⟩
  · rename_i hNe
    exact ⟨0, by decide, by decide, fun h => hNe h.symm⟩

/-- The entries of the new PML4 for the lower half, but for that of `start`, are what its frame held
when it was free. -/
theorem Created.pml4_stale {task : UserLevels} {s1 s2 s' : Machine}
    (h : Created n mapped others start stop e task s s1 s2 s')
    (hOwn : ∃ b ∈ mapped ++ others, b.Has (entryFrame e)) {i : Nat} (hi : i < 256)
    (hNe : i ≠ (pml4Idx start).toNat) :
    s'.mem task.userPml4.frame i = s.mem task.userPml4.frame i ∧ task.userPml4.frame < n ∧
      s.pageAllocBitmap.bit task.userPml4.frame = false := by
  have hMem : task.userPml4.block ∈ task.levels := by simp [UserLevels.levels]
  have hHas : task.userPml4.block.Has task.userPml4.frame := Block.has_frame _
  have hFrames := h.windows.kmem.frames
  have hIn := hFrames.inside _ (List.mem_append_right mapped (List.mem_append_left others hMem))
  refine ⟨?_, ?_, h.windows.fresh _ hMem _ hHas⟩
  · rw [h.table_kept hOwn (Or.inl rfl), h.filled.pml4 i (by omega), if_neg (by omega),
      if_neg (by omega), if_neg hNe, h.windows.grown.frame]
    intro p hp hf
    exact hFrames.tableApart p _ hp hf _
      (List.mem_append_right mapped (List.mem_append_left others hMem)) hHas
  · have hPos : 0 < task.userPml4.block.pages := Nat.pow_pos (by decide)
    have hFrame : task.userPml4.frame = task.userPml4.block.frame := rfl
    omega

/-- Every content of the free frames leads to a table, and the entry of the new PML4 for a stranger's
page is what the content says. -/
theorem usertaskCreate_refill (h : KernelReady n mapped others s)
    (hLower : LowerRange start stop) (hMapped : RangeMapped start stop s)
    (hOne : OneTable start stop) (hFree : WindowsFree start stop s)
    (task : UserTask) (entry switchToUser args : U64) (content : Nat → Nat → U64)
    (hFail : NoFail (finalState (usertaskCreate task stop start entry switchToUser args
      { s with mem := refillFree s content })).allocLog)
    {i : Nat} (hi : i < 256) (hNe : i ≠ (pml4Idx start).toNat) :
    ∃ task' s', usertaskCreate task stop start entry switchToUser args
        { s with mem := refillFree s content } = .ok (0, task') s' ∧
      s'.mem task'.userPml4.frame i = content task'.userPml4.frame i ∧
      entryChild (s'.mem task'.userPml4.frame 511) = some task'.userPml4.frame ∧
      task'.userPml4.frame < 2 ^ 31 := by
  obtain ⟨hLast, e, he⟩ := hMapped.last hLower
  have hSmall : rangePages start stop ≤ 512 := by
    have := hLower.ptIdx_add_le hOne
    omega
  have hWinEq : windowPage = 0x700000000 := rfl
  obtain ⟨hReady, hPage⟩ := h.stale (staleOf_refillFree s content)
  have he' := (hPage _ hLast).trans he
  have hOwn := hReady.backed _ e hLast he'
  obtain ⟨-, s1, -, s2, task', s', -, -, hRun, -, -, -, hCreated⟩ :=
    usertaskCreate_ok hReady.kmem hReady.unlocked hReady.enough hLower hOne
      (fun w hw hw' => (hPage w (by omega)).trans (hFree w hw hw')) he' hOwn task entry
      switchToUser args hFail
  obtain ⟨hEntry, hLt, hBit⟩ := hCreated.pml4_stale hOwn hi hNe
  refine ⟨task', s', hRun, ?_, entryChild_of_userChild (hCreated.recursive hOwn).2, ?_⟩
  · rw [hEntry]
    exact if_pos ⟨by rw [h.kmem.frames.size]; exact hLt, hBit⟩
  · exact lt_of_lt_of_le hLt h.kmem.frames.small.le

/-- Frames that are full of entries for themselves. -/
def selfEntries (f : Nat) (_ : Nat) : U64 := BitVec.ofNat 64 (f * 4096) ||| mapUserRw

/-- A page of the lower half outside of a range in one 2 MiB region. -/
theorem strangerAddr_outside (hLower : LowerRange start stop) (hOne : OneTable start stop) :
    Canonical (strangerAddr start) ∧ (strangerAddr start).toNat < 2 ^ 47 ∧
      ¬ (start.toNat ≤ (strangerAddr start).toNat ∧ (strangerAddr start).toNat < stop.toNat) := by
  have hLt : (strangerAddr start).toNat < 2 ^ 47 := by
    unfold strangerAddr
    split <;> decide
  refine ⟨Or.inl hLt, hLt, ?_⟩
  obtain ⟨i, hPath, -, hNe⟩ := walkPath_stranger start
  rintro ⟨hLow, hHigh⟩
  have h4 : (strangerAddr start).toNat / 2 ^ 39 % 512 = i := by
    rw [walkPath_eq, List.cons.injEq] at hPath
    exact hPath.1
  have hLow' := hLower.lower
  simp only [OneTable] at hOne
  rw [pml4Idx_toNat] at hNe
  omega

/-- An entry of a PML4 for the PML4 itself makes a stranger's page present. -/
theorem mmuWalk_stranger {mem : Memory} {root i : Nat} {va : U64} (hCanonical : Canonical va)
    (hPath : walkPath va = [i, 511, 511, 511]) (hEntry : mem root i = selfEntries root i)
    (hRec : entryChild (mem root 511) = some root) (hLt : root < 2 ^ 31) :
    mmuWalk mem root va ≠ none := by
  have hNat : (BitVec.ofNat 64 (root * 4096)).toNat = root * 4096 := by
    rw [BitVec.toNat_ofNat]
    omega
  have hChild : entryChild (mem root i) = some root := by
    rw [hEntry, selfEntries]
    refine entryChild_of_userChild ((userChild_or (by omega)).trans ?_)
    simp only [entryFrame, hNat, Option.some.injEq]
    omega
  rw [mmuWalk, if_pos hCanonical, hPath, descend_cons_of_child hChild, descend_cons_of_child hRec,
    descend_cons_of_child hRec, descend_cons_of_child hRec]
  simp

end Rayos
