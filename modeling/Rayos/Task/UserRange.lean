import Rayos.Task.AddressSpace

/-!
# The ranges that a user table can be built for

`__usertask_create` counts the entries of each level from the number of pages alone and maps each
level as many pages wide as it has entries, with the four windows one page apart.
-/

namespace Rayos

open RadixTable Program

variable {H : Nat → Prop} {n : Nat} {mapped others : List Block} {s : Machine}

/-! ## What a finished fill loop tells -/

/-- The entries `idx, …, idx + count - 1` of the table at page `v` lie in mapped pages, whose frames are
in `D`. -/
def Hits (D : Nat → Prop) (s : Machine) (v idx count : Nat) : Prop :=
  ∀ j, idx ≤ j → j < idx + count → ∃ e, s.page (v + j / 512) = some e ∧ D (entryFrame e)

/-- The frames behind these entries. -/
def Behind (s : Machine) (v idx count f : Nat) : Prop :=
  ∃ j, idx ≤ j ∧ j < idx + count ∧ ∃ e, s.page (v + j / 512) = some e ∧ entryFrame e = f

/-- The page that entry `j` of a table lies in. -/
theorem vpn_entryAddr {table x : U64} {j count : Nat} (hTable : BytesIn table (8 * count))
    (hx : x.toNat = j) (hj : j < count) : vpn (entryAddr table x) = vpn table + j / 512 := by
  have hLt : 8 * j < 8 * count := by omega
  have hAddr : entryAddr table x = table + BitVec.ofNat 64 (8 * j) := by
    rw [entryAddr]
    congr 1
    apply BitVec.eq_of_toNat_eq
    rw [BitVec.toNat_mul, BitVec.toNat_ofNat, BitVec.toNat_ofNat, hx]
  rw [hAddr, hTable.vpn hLt]
  congr 1
  omega

/-- One round of a fill loop whose entries are computed without a side effect. -/
theorem fillEntries_succ {table idx : U64} {entry : U64 → KernelM U64}
    (hEntry : ∀ i t x u, entry i t = .ok x u → u = t) {count : Nat} {t : Machine}
    (hRun : fillEntries table idx (count + 1) entry s = .ok () t) :
    ∃ u x, fillEntries table idx count entry s = .ok () u ∧
      store64 (entryAddr table (idx + BitVec.ofNat 64 count)) x u = .ok () t := by
  obtain ⟨_, u, hFirst, hLast⟩ := bind_eq_ok.mp hRun
  obtain ⟨x, u', hEntryRun, hStore⟩ := bind_eq_ok.mp hLast
  obtain rfl := hEntry _ _ _ _ hEntryRun
  exact ⟨u', x, hFirst, hStore⟩

theorem fillEntries_grows {table idx : U64} {entry : U64 → KernelM U64}
    (hEntry : ∀ i t x u, entry i t = .ok x u → u = t) {count : Nat} {t : Machine}
    (hRun : fillEntries table idx count entry s = .ok () t) : StoresGrow s t := by
  induction count generalizing t with
  | zero =>
      cases hRun
      exact StoresGrow.refl s
  | succ count ih =>
      obtain ⟨u, x, hFirst, hStore⟩ := fillEntries_succ hEntry hRun
      obtain ⟨e, -, rfl⟩ := store64_eq_ok hStore
      exact StoresGrow.trans _ _ _ (ih hFirst) (StoresGrow.mem u _ _ _)

/-- A fill loop that has finished and has stored to frames in use only has found all its pages mapped,
and it has stored to the frames of these pages and to no others. -/
theorem fillEntries_back {owned : List Block} (h : FramesOk H n owned s) {D : Nat → Prop}
    (hD : ∀ f, D f → ∃ b ∈ owned, b.Has f) (table idx : U64) (entry : U64 → KernelM U64)
    (hEntry : ∀ i t x u, entry i t = .ok x u → u = t) {count : Nat}
    (hTable : BytesIn table (8 * (idx.toNat + count)))
    (hHead : ∀ j, j < idx.toNat + count → H (pageHead (vpn table + j / 512))) {t : Machine}
    (hRun : fillEntries table idx count entry s = .ok () t) (hStores : StoresIn D s t) :
    Hits D s (vpn table) idx.toNat count ∧ Wrote (Behind s (vpn table) idx.toNat count) s t := by
  induction count generalizing t with
  | zero =>
      cases hRun
      exact ⟨fun j hj hj' => absurd hj' (by omega), Wrote.refl s⟩
  | succ count ih =>
      obtain ⟨u, x, hFirst, hStore⟩ := fillEntries_succ hEntry hRun
      obtain ⟨e, hPage, rfl⟩ := store64_eq_ok hStore
      obtain ⟨hStores1, new, hNew, hLast⟩ :=
        hStores.split (fillEntries_grows hEntry hFirst) (StoresGrow.mem u _ _ _)
      obtain rfl : new = [entryFrame e] := (List.append_cancel_left hNew).symm
      have hBytes : BytesIn table (8 * (idx.toNat + count)) := by
        obtain ⟨hAligned, hHalf⟩ := hTable
        exact ⟨hAligned, by omega⟩
      obtain ⟨hHits, hWrote⟩ := ih hBytes (fun j hj => hHead j (by omega)) hFirst hStores1
      -- the rounds before have not changed the mapping
      have hOwn : ∀ f, Behind s (vpn table) idx.toNat count f → ∃ b ∈ owned, b.Has f := by
        rintro f ⟨j, hj, hj', e', he', rfl⟩
        obtain ⟨e'', he'', hDf⟩ := hHits j hj hj'
        rw [he'] at he''
        cases he''
        exact hD _ hDf
      have hx : (idx + BitVec.ofNat 64 count).toNat = idx.toNat + count := by
        have := hTable.2
        rw [BitVec.toNat_add, BitVec.toNat_ofNat]
        omega
      rw [vpn_entryAddr hTable hx (by omega),
        (h.wrote hWrote hOwn).2 _ (hHead _ (by omega))] at hPage
      constructor
      · intro j hj hj'
        by_cases hHere : j = idx.toNat + count
        · subst hHere
          exact ⟨e, hPage, hLast _ (by simp)⟩
        · exact hHits j hj (by omega)
      · refine (hWrote.mono ?_).trans (Wrote.write u ⟨idx.toNat + count, by omega, by omega, e, hPage,
          rfl⟩ _ _)
        rintro f ⟨j, hj, hj', hf⟩
        exact ⟨j, hj, by omega, hf⟩

/-- The same for a loop that starts after other stores to frames in use. -/
theorem fillEntries_hits {owned : List Block} (h : FramesOk H n owned s) {D : Nat → Prop}
    (hD : ∀ f, D f → ∃ b ∈ owned, b.Has f) (table idx : U64) (entry : U64 → KernelM U64)
    (hEntry : ∀ i t x u, entry i t = .ok x u → u = t) {count : Nat}
    (hTable : BytesIn table (8 * (idx.toNat + count)))
    (hHead : ∀ j, j < idx.toNat + count → H (pageHead (vpn table + j / 512))) {t u : Machine}
    (hWrote : Wrote D s t) (hRun : fillEntries table idx count entry t = .ok () u)
    (hStores : StoresIn D t u) :
    Hits D s (vpn table) idx.toNat count ∧ Wrote D s u := by
  obtain ⟨hFrames, hPage⟩ := h.wrote hWrote hD
  obtain ⟨hHits, hBehind⟩ := fillEntries_back hFrames hD table idx entry hEntry hTable hHead hRun hStores
  refine ⟨fun j hj hj' => ?_, hWrote.trans (hBehind.mono ?_)⟩
  · obtain ⟨e, he, hDe⟩ := hHits j hj hj'
    exact ⟨e, by rw [← hPage _ (hHead j hj')]; exact he, hDe⟩
  · rintro f ⟨j, hj, hj', e, he, rfl⟩
    obtain ⟨e', he', hDe⟩ := hHits j hj hj'
    rw [he] at he'
    cases he'
    exact hDe

/-! ## The whole second part -/

variable {start stop : U64}

/-- The numbers of entries of the upper levels. -/
theorem LowerRange.counts (h : LowerRange start stop) :
    (usertaskCounts start stop).pdCount.toNat = (rangePages start stop + 511) / 512 ∧
    (usertaskCounts start stop).pdptCount.toNat =
      ((rangePages start stop + 511) / 512 + 511) / 512 ∧
    (usertaskCounts start stop).pml4Count.toNat =
      (((rangePages start stop + 511) / 512 + 511) / 512 + 511) / 512 := by
  have hNr := h.nrPages
  obtain ⟨hStart, hStop, hLt, hLow⟩ := h
  have hPos : 0 < rangePages start stop := by
    simp only [rangePages]
    omega
  have hTop : rangePages start stop < 2 ^ 35 := by
    simp only [rangePages]
    omega
  have hNe : (stop - start) >>> pageShift ≠ 0#64 := by
    intro hEq
    rw [hEq, BitVec.toNat_zero] at hNr
    omega
  have h511 : (511#64).toNat = 511 := rfl
  have h512 : (512#64).toNat = 512 := rfl
  simp only [usertaskCounts, calcPageTableCounts, if_neg hNe, BitVec.toNat_udiv, BitVec.toNat_add, hNr,
    h511, h512]
  omega

/-- The second part of `__usertask_create`, when it has finished and has stored to frames in `D` only:
every page of the windows that it writes to is mapped to a frame in `D`. -/
theorem usertaskFill_hits {owned : List Block} (h : FramesOk kernelHead n owned s) {D : Nat → Prop}
    (hD : ∀ f, D f → ∃ b ∈ owned, b.Has f) (hLower : LowerRange start stop) {task task' : UserTask}
    {s' : Machine} (hRun : usertaskFill start stop task s = .ok task' s') (hStores : StoresIn D s s') :
    Hits D s windowPage 256 255 ∧
    Hits D s (windowPage + 1) (pdptIdx start).toNat (usertaskCounts start stop).pdptCount.toNat ∧
    Hits D s (windowPage + 2) (pdIdx start).toNat (usertaskCounts start stop).pdCount.toNat ∧
    Hits D s (windowPage + 3) (ptIdx start).toNat (usertaskCounts start stop).ptCount.toNat := by
  obtain ⟨hPd, hPdpt, hPml4⟩ := hLower.counts
  have hPt := hLower.ptCount
  have hTop : rangePages start stop < 2 ^ 35 := by
    have := hLower.lower
    simp only [rangePages]
    omega
  have hIdx4 : (pml4Idx start).toNat < 512 := by
    rw [pml4Idx_toNat]
    omega
  have hIdx3 : (pdptIdx start).toNat < 512 := by
    rw [pdptIdx_toNat]
    omega
  have hIdx2 : (pdIdx start).toNat < 512 := by
    rw [pdIdx_toNat]
    omega
  have hIdx1 : (ptIdx start).toNat < 512 := by
    rw [ptIdx_toNat]
    omega
  have hWin : windowPage = 0x700000000 := rfl
  have hBytes : ∀ table : U64, ∀ count, table.toNat % 4096 = 0 → vpn table ≤ windowPage + 3 →
      table.toNat < 2 ^ 47 → count < 2 ^ 36 → BytesIn table (8 * count) := by
    intro table count hAligned hPage hLow hCount
    simp only [vpn] at hPage
    exact ⟨hAligned, by omega⟩
  have hHead : ∀ v count, v ≤ windowPage + 3 → count < 2 ^ 36 →
      ∀ j, j < count → kernelHead (pageHead (v + j / 512)) := fun v count hv hCount j hj =>
    (lowerPage_head (by omega)).1
  -- the entries are computed without a side effect
  have hLoad : ∀ i t x u, load64 (entryAddr mapPml4 (256#64 + i)) t = .ok x u → u = t := by
    intro i t x u hLoad
    exact Respects.of_ok (load64_respects (R := fun s t => t = s) (fun _ => rfl) _) hLoad
  have hNext : ∀ phys i t x u, nextLevelEntry phys i t = .ok x u → u = t := by
    intro phys i t x u hEntry
    cases hEntry
    rfl
  have hPtEntry : ∀ i t x u, ptEntry start i t = .ok x u → u = t := by
    intro i t x u hEntry
    obtain ⟨pa, v, hPhys, hEntry⟩ := bind_eq_ok.mp hEntry
    cases hEntry
    exact Respects.of_ok (getPhysaddr_respects (R := fun s t => t = s) (fun _ => rfl)
      (fun _ _ _ h h' => h'.trans h) _) hPhys
  simp only [usertaskFill, bind_eq_ok] at hRun
  obtain ⟨_, t1, hRun1, _, t2, hRun2, _, t3, hRun3, _, t4, hRun4, _, t5, hRun5, _, t6, hRun6, hRun⟩ := hRun
  cases hRun
  obtain ⟨e, hPage2, rfl⟩ := store64_eq_ok hRun2
  -- the stores of the six steps
  have hGrow6 := fillEntries_grows hPtEntry hRun6
  have hGrow5 := StoresGrow.trans _ _ _ (fillEntries_grows (hNext _) hRun5) hGrow6
  have hGrow4 := StoresGrow.trans _ _ _ (fillEntries_grows (hNext _) hRun4) hGrow5
  have hGrow3 := StoresGrow.trans _ _ _ (fillEntries_grows (hNext _) hRun3) hGrow4
  have hGrow2 := StoresGrow.trans _ _ _ (StoresGrow.mem t1 (entryFrame e) _ _) hGrow3
  obtain ⟨hIn1, hStores⟩ := hStores.split (fillEntries_grows hLoad hRun1) hGrow2
  obtain ⟨⟨new, hNew, hIn2⟩, hStores⟩ := hStores.split (StoresGrow.mem t1 (entryFrame e) _ _) hGrow3
  obtain ⟨hIn3, hStores⟩ := hStores.split (fillEntries_grows (hNext _) hRun3) hGrow4
  obtain ⟨hIn4, hStores⟩ := hStores.split (fillEntries_grows (hNext _) hRun4) hGrow5
  obtain ⟨hIn5, hIn6⟩ := hStores.split (fillEntries_grows (hNext _) hRun5) hGrow6
  obtain rfl : new = [entryFrame e] := (List.append_cancel_left hNew).symm
  -- step by step
  have h256 : (256#64).toNat = 256 := rfl
  obtain ⟨hHits1, hW1⟩ := fillEntries_hits h hD _ _ _ hLoad
    (hBytes _ _ (by decide) (by decide) (by decide) (by decide))
    (hHead _ _ (by decide) (by decide)) (Wrote.refl s) hRun1 hIn1
  have hSelf : D (entryFrame e) := hIn2 _ (by simp)
  obtain ⟨-, hW3⟩ := fillEntries_hits h hD _ _ _ (hNext _)
    (hBytes _ _ (by decide) (by decide) (by decide) (by omega))
    (hHead _ _ (by decide) (by omega)) (hW1.trans (Wrote.write t1 hSelf _ _)) hRun3 hIn3
  obtain ⟨hHits4, hW4⟩ := fillEntries_hits h hD _ _ _ (hNext _)
    (hBytes _ _ (by decide) (by decide) (by decide) (by omega))
    (hHead _ _ (by decide) (by omega)) hW3 hRun4 hIn4
  obtain ⟨hHits5, hW5⟩ := fillEntries_hits h hD _ _ _ (hNext _)
    (hBytes _ _ (by decide) (by decide) (by decide) (by omega))
    (hHead _ _ (by decide) (by omega)) hW4 hRun5 hIn5
  obtain ⟨hHits6, -⟩ := fillEntries_hits h hD _ _ _ hPtEntry
    (hBytes _ _ (by decide) (by decide) (by decide) (by omega))
    (hHead _ _ (by decide) (by omega)) hW5 hRun6 hIn6
  rw [vpn_pml4Base, h256] at hHits1
  rw [vpn_pdptBase] at hHits4
  rw [vpn_pdBase] at hHits5
  rw [vpn_ptBase] at hHits6
  exact ⟨hHits1, hHits4, hHits5, hHits6⟩

/-! ## Ranges over a 2 MiB boundary -/

/-- The blocks of the four levels are single pages, so that the second page of the last window lies
behind all of them. -/
theorem WindowsMapped.not_levels {task : UserLevels} {s' : Machine}
    (h : WindowsMapped H n mapped others start stop task s s') :
    ¬ ∃ b ∈ task.levels, b.Has (task.userPt.frame + 1) := by
  rintro ⟨b, hb, hLow, hHigh⟩
  have hLast := h.last b hb
  have hPages : b.pages = 1 := by
    rw [Block.pages, h.orders b hb]
    rfl
  omega

/-- A range of at most 512 pages that `__usertask_create` handles, with the windows free, lies in one
2 MiB region: otherwise the entries after the last one of the table go to the frame behind it. -/
theorem oneTable_of_builds (h : KernelReady n mapped others s) (hLower : LowerRange start stop)
    (hFree : WindowsFree start stop s) (hSmall : rangePages start stop ≤ 512) (task : UserTask)
    (entry switchToUser args : U64)
    (hFail : NoFail
      (finalState (usertaskCreate task stop start entry switchToUser args s)).allocLog)
    (hBuilds : BuildsUserTable task stop start entry switchToUser args s) : OneTable start stop := by
  obtain ⟨task1, s1, task2, s2, -, -, hRun1, hRun2, -, -, -, hStores⟩ := hBuilds
  -- the windows
  have hRest : ∀ t1 : UserTask, Respects LogGrows (do
      let task ← usertaskFill start stop t1
      let task ← usertaskFinish start stop entry switchToUser args task
      pure ((0, task) : Int × UserTask)) := fun t1 =>
    Respects.bind LogGrows.trans (usertaskFill_log _ _ _) fun t2 =>
      Respects.bind LogGrows.trans (usertaskFinish_log _ _ _ _ _ _) fun _ =>
        Respects.pure LogGrows.refl _
  obtain ⟨task1', s1', hRun1', -, hWin⟩ := usertaskMap_ok h.kmem hLower hSmall hFree task
    (NoFail.of_isPrefix hFail (Respects.bind_after LogGrows.refl hRest s))
  rw [hRun1] at hRun1'
  cases hRun1'
  -- the pages that the loop for the last level writes to
  obtain ⟨-, -, -, hHits⟩ := usertaskFill_hits hWin.kmem.frames
    (D := fun f => ∃ b ∈ task1.levels, b.Has f)
    (by
      rintro f ⟨b, hb, hHas⟩
      exact ⟨b, by simp [hb], hHas⟩) hLower hRun2 hStores
  rw [hLower.ptCount] at hHits
  by_contra hCross
  have hIdx := ptIdx_toNat start
  have hOver : 512 < (ptIdx start).toNat + rangePages start stop := by
    obtain ⟨hStart, hStop, hLt, hLow⟩ := hLower
    simp only [OneTable, rangePages] at *
    omega
  obtain ⟨e, he, hIn⟩ := hHits 512 (by omega) hOver
  obtain ⟨e', he', hFrame⟩ := hWin.pt 1 (by omega)
  have hPage : windowPage + 3 + 512 / 512 = windowPage + 3 + 1 := by norm_num
  rw [hPage, he'] at he
  cases he
  rw [hFrame] at hIn
  exact hWin.not_levels hIn

end Rayos
