import Rayos.Mem.MapRollback

/-!
# `map_page_range` without free frames

`alloc_page` returns `-1` when no frame is left, and `map_page_range` or-s the result into the entry of the
table without looking at it: the entry has all bits set and points to the last frame of the address space.

* `mapPageRangeTraced` is `map_page_range` with a record of the table entries that it stores.
* `MapRefused` is what is expected of a call that cannot get a table.
-/

namespace Rayos

open Program

/-! ## The entries that are stored -/

/-- `ensureTable` with the entries that it stores. -/
def ensureTableTraced (table idx next flags : U64) : KernelM (List U64) := do
  let e ← load64 (entryAddr table idx)
  if ptePresent e then pure []
  else do
    let pa ← Kernel.allocPages 0#64
    store64 (entryAddr table idx) (pa ||| flags ||| 1#64)
    forUpto 512 fun j => store64 (entryAddr next (BitVec.ofNat 64 j)) 0#64
    pure [pa ||| flags ||| 1#64]

/-- The loop of `map_page_range` with the table entries that it stores. -/
def mapPageRangeFromTraced (virtaddr flags : U64) :
    Nat → U64 → U64 → U64 → KernelM (Int × List U64)
  | 0, i, _, _ => pure (intOfSize i, [])
  | n + 1, i, va, pa => do
      let pml4s ← ensureTableTraced mapPml4 (pml4Idx va) (mapPdpt va) flags
      let pdpts ← ensureTableTraced (mapPdpt va) (pdptIdx va) (mapPd va) flags
      let pds ← ensureTableTraced (mapPd va) (pdIdx va) (mapPt va) flags
      let pte ← load64 (entryAddr (mapPt va) (ptIdx va))
      if ptePresent pte then do
        let _ ← unmapPageRange virtaddr i
        pure (-mapErrExist, pml4s ++ pdpts ++ pds)
      else do
        store64 (entryAddr (mapPt va) (ptIdx va)) ((pa &&& ~~~0xfff#64) ||| flags ||| 1#64)
        let r ← mapPageRangeFromTraced virtaddr flags n (i + 1#64) (va + 0x1000#64) (pa + 0x1000#64)
        pure (r.1, pml4s ++ pdpts ++ pds ++ r.2)

/-- `map_page_range` with the table entries that it stores. -/
def mapPageRangeTraced (physaddr virtaddr flags len : U64) : KernelM (Int × List U64) :=
  mapPageRangeFromTraced virtaddr flags len.toNat 0#64 virtaddr physaddr

theorem ensureTableTraced_iff {table idx next flags : U64} {s t : Machine} :
    ensureTable table idx next flags s = .ok () t ↔
      ∃ stored, ensureTableTraced table idx next flags s = .ok stored t := by
  rw [ensureTable, ensureTableTraced]
  constructor
  · intro h
    obtain ⟨e, s₁, hLoad, h⟩ := bind_eq_ok.mp h
    rw [bind_ok hLoad]
    split at h
    · case isTrue hPresent =>
        cases h
        exact ⟨[], by rw [if_pos hPresent]; rfl⟩
    · case isFalse hPresent =>
        obtain ⟨pa, s₂, hAlloc, h⟩ := bind_eq_ok.mp h
        obtain ⟨_, s₃, hStore, h⟩ := bind_eq_ok.mp h
        refine ⟨[pa ||| flags ||| 1#64], ?_⟩
        rw [if_neg hPresent, bind_ok hAlloc, bind_ok hStore, bind_ok h]
        rfl
  · rintro ⟨stored, h⟩
    obtain ⟨e, s₁, hLoad, h⟩ := bind_eq_ok.mp h
    rw [bind_ok hLoad]
    split at h
    · case isTrue hPresent =>
        cases h
        rw [if_pos hPresent]
        rfl
    · case isFalse hPresent =>
        obtain ⟨pa, s₂, hAlloc, h⟩ := bind_eq_ok.mp h
        obtain ⟨_, s₃, hStore, h⟩ := bind_eq_ok.mp h
        obtain ⟨_, s₄, hClear, h⟩ := bind_eq_ok.mp h
        cases h
        rw [if_neg hPresent, bind_ok hAlloc]
        exact (bind_ok hStore).trans hClear

/-- The record changes nothing. -/
theorem mapPageRangeFromTraced_iff {virtaddr flags : U64} {r : Int} {t : Machine} :
    ∀ {n : Nat} {i va pa : U64} {s : Machine},
      mapPageRangeFrom virtaddr flags n i va pa s = .ok r t ↔
        ∃ stored, mapPageRangeFromTraced virtaddr flags n i va pa s = .ok (r, stored) t := by
  intro n
  induction n with
  | zero =>
      intro i va pa s
      constructor
      · intro h
        cases h
        exact ⟨[], rfl⟩
      · rintro ⟨stored, h⟩
        cases h
        rfl
  | succ n ih =>
      intro i va pa s
      rw [mapPageRangeFrom, mapPageRangeFromTraced]
      constructor
      · intro h
        obtain ⟨_, s₁, h₁, h⟩ := bind_eq_ok.mp h
        obtain ⟨_, s₂, h₂, h⟩ := bind_eq_ok.mp h
        obtain ⟨_, s₃, h₃, h⟩ := bind_eq_ok.mp h
        obtain ⟨pte, s₄, hLoad, h⟩ := bind_eq_ok.mp h
        obtain ⟨pml4s, h₁⟩ := ensureTableTraced_iff.mp h₁
        obtain ⟨pdpts, h₂⟩ := ensureTableTraced_iff.mp h₂
        obtain ⟨pds, h₃⟩ := ensureTableTraced_iff.mp h₃
        rw [bind_ok h₁, bind_ok h₂, bind_ok h₃, bind_ok hLoad]
        split at h
        · case isTrue hPresent =>
            obtain ⟨_, s₅, hUnmap, h⟩ := bind_eq_ok.mp h
            cases h
            exact ⟨pml4s ++ pdpts ++ pds, by rw [if_pos hPresent, bind_ok hUnmap]; rfl⟩
        · case isFalse hPresent =>
            obtain ⟨_, s₅, hStore, h⟩ := bind_eq_ok.mp h
            obtain ⟨stored, hRest⟩ := ih.mp h
            exact ⟨pml4s ++ pdpts ++ pds ++ stored, by
              rw [if_neg hPresent, bind_ok hStore, bind_ok hRest]
              rfl⟩
      · rintro ⟨stored, h⟩
        obtain ⟨pml4s, s₁, h₁, h⟩ := bind_eq_ok.mp h
        obtain ⟨pdpts, s₂, h₂, h⟩ := bind_eq_ok.mp h
        obtain ⟨pds, s₃, h₃, h⟩ := bind_eq_ok.mp h
        obtain ⟨pte, s₄, hLoad, h⟩ := bind_eq_ok.mp h
        rw [bind_ok (ensureTableTraced_iff.mpr ⟨_, h₁⟩), bind_ok (ensureTableTraced_iff.mpr ⟨_, h₂⟩),
          bind_ok (ensureTableTraced_iff.mpr ⟨_, h₃⟩), bind_ok hLoad]
        split at h
        · case isTrue hPresent =>
            obtain ⟨_, s₅, hUnmap, h⟩ := bind_eq_ok.mp h
            cases h
            rw [if_pos hPresent, bind_ok hUnmap]
            rfl
        · case isFalse hPresent =>
            obtain ⟨_, s₅, hStore, h⟩ := bind_eq_ok.mp h
            obtain ⟨⟨r', stored'⟩, s₆, hRest, h⟩ := bind_eq_ok.mp h
            cases h
            rw [if_neg hPresent, bind_ok hStore]
            exact ih.mpr ⟨stored', hRest⟩

/-! ## The entries and the history of `alloc_page` -/

/-- The entries are made of what `alloc_page` has returned since. -/
def StoredFrom (flags : U64) (s : Machine) (stored : List U64) (t : Machine) : Prop :=
  ∃ log, t.allocLog = s.allocLog ++ log ∧ stored = log.map (fun b => b.pa ||| flags ||| 1#64) ∧
    ∀ b ∈ log, ∃ bmp bmp', allocPages bmp 0#64 = some (b.pa, bmp')

theorem StoredFrom.same {flags : U64} {s t : Machine} (h : t.allocLog = s.allocLog) :
    StoredFrom flags s [] t := ⟨[], by rw [h, List.append_nil], rfl, fun _ hb => absurd hb List.not_mem_nil⟩

theorem StoredFrom.trans {flags : U64} {s t u : Machine} {stored stored' : List U64}
    (h : StoredFrom flags s stored t) (h' : StoredFrom flags t stored' u) :
    StoredFrom flags s (stored ++ stored') u := by
  obtain ⟨log, hLog, hStored, hFrom⟩ := h
  obtain ⟨log', hLog', hStored', hFrom'⟩ := h'
  refine ⟨log ++ log', by rw [hLog', hLog, List.append_assoc], ?_, fun b hb => ?_⟩
  · rw [hStored, hStored', List.map_append]
  · exact (List.mem_append.mp hb).elim (hFrom b) (hFrom' b)

/-- The history of `alloc_pages` is as before. -/
def LogKept (s t : Machine) : Prop := t.allocLog = s.allocLog

theorem LogKept.refl (s : Machine) : LogKept s s := rfl

theorem LogKept.trans (s t u : Machine) (h : LogKept s t) (h' : LogKept t u) : LogKept s u :=
  Eq.trans h' h

theorem LogKept.mem (s : Machine) (f i : Nat) (v : U64) : LogKept s (s.write f i v) := rfl

/-- A finished run of a program that leaves the history alone. -/
theorem logKept_of_ok {α : Type} {x : KernelM α} {a : α} {s t : Machine} (hx : Respects LogKept x)
    (h : x s = .ok a t) : t.allocLog = s.allocLog :=
  hx.of_ok h

theorem load64_logKept (va : U64) : Respects LogKept (load64 va) := load64_respects LogKept.refl va

theorem store64_logKept (va v : U64) : Respects LogKept (store64 va v) :=
  store64_respects LogKept.refl LogKept.mem va v

theorem unmapPageRange_logKept (virtaddr len : U64) : Respects LogKept (unmapPageRange virtaddr len) :=
  unmapPageRangeFrom_respects LogKept.refl LogKept.trans LogKept.mem _ _ _

theorem ensureTableTraced_stored {table idx next flags : U64} {s t : Machine} {stored : List U64}
    (h : ensureTableTraced table idx next flags s = .ok stored t) : StoredFrom flags s stored t := by
  rw [ensureTableTraced] at h
  obtain ⟨e, s₁, hLoad, h⟩ := bind_eq_ok.mp h
  have hLog := logKept_of_ok (load64_logKept _) hLoad
  split at h
  · cases h
    exact .same hLog
  · obtain ⟨pa, s₂, hAlloc, h⟩ := bind_eq_ok.mp h
    obtain ⟨_, s₃, hStore, h⟩ := bind_eq_ok.mp h
    obtain ⟨_, s₄, hClear, h⟩ := bind_eq_ok.mp h
    cases h
    have hKept := logKept_of_ok (store64_logKept _ _) hStore
    have hKept' := logKept_of_ok
      (Respects.forUpto LogKept.refl LogKept.trans fun _ => store64_logKept _ _) hClear
    rw [Kernel.allocPages] at hAlloc
    split at hAlloc
    · cases hAlloc
    · case h_2 pa' bmp hPages =>
        cases hAlloc
        refine ⟨[⟨pa, 0#64⟩], ?_, rfl, fun b hb => ?_⟩
        · rw [hKept', hKept, ← hLog]
        · cases List.mem_singleton.mp hb
          exact ⟨_, _, hPages⟩

theorem mapPageRangeFromTraced_stored {virtaddr flags : U64} {r : Int} {t : Machine} :
    ∀ {n : Nat} {i va pa : U64} {s : Machine} {stored : List U64},
      mapPageRangeFromTraced virtaddr flags n i va pa s = .ok (r, stored) t →
      StoredFrom flags s stored t := by
  intro n
  induction n with
  | zero =>
      intro i va pa s stored h
      cases h
      exact .same rfl
  | succ n ih =>
      intro i va pa s stored h
      rw [mapPageRangeFromTraced] at h
      obtain ⟨pml4s, s₁, h₁, h⟩ := bind_eq_ok.mp h
      obtain ⟨pdpts, s₂, h₂, h⟩ := bind_eq_ok.mp h
      obtain ⟨pds, s₃, h₃, h⟩ := bind_eq_ok.mp h
      obtain ⟨pte, s₄, hLoad, h⟩ := bind_eq_ok.mp h
      have hTables := ((ensureTableTraced_stored h₁).trans (ensureTableTraced_stored h₂)).trans
        (ensureTableTraced_stored h₃)
      have hLog := logKept_of_ok (load64_logKept _) hLoad
      split at h
      · obtain ⟨_, s₅, hUnmap, h⟩ := bind_eq_ok.mp h
        cases h
        have hKept := logKept_of_ok (unmapPageRange_logKept _ _) hUnmap
        have hAll := hTables.trans (.same (hKept.trans hLog))
        rw [List.append_nil] at hAll
        exact hAll
      · obtain ⟨_, s₅, hStore, h⟩ := bind_eq_ok.mp h
        obtain ⟨⟨r', stored'⟩, s₆, hRest, h⟩ := bind_eq_ok.mp h
        cases h
        have hKept := logKept_of_ok (store64_logKept _ _) hStore
        have hAll := (hTables.trans (.same (hKept.trans hLog))).trans (ih hRest)
        rw [List.append_nil] at hAll
        exact hAll

/-! ## A call that cannot get a table -/

/-- What `alloc_pages` has returned between two states. -/
def newBlocks (s t : Machine) : List Block := t.allocLog.drop s.allocLog.length

/-- `alloc_page` has no frame left for one of the tables of the range. -/
def RunsOut (s : Machine) (physaddr virtaddr flags len : U64) : Prop :=
  ⟨sizeOfInt (-1), 0#64⟩ ∈ newBlocks s (finalState (mapPageRange physaddr virtaddr flags len s))

/-- The call returns a negative code, has stored no table entry that points to a frame that `alloc_page`
has not returned, and leaves every translation as it was. -/
def MapRefused (s : Machine) (physaddr virtaddr flags len : U64) : Prop :=
  ∃ r stored t, mapPageRangeTraced physaddr virtaddr flags len s = .ok (r, stored) t ∧ r < 0 ∧
    (∀ e ∈ stored, ∃ b ∈ newBlocks s t, ¬ b.pa.toInt < 0 ∧ entryFrame e = b.pa.toNat / 4096) ∧
    ∀ x, value? (getPhysaddr x t) = value? (getPhysaddr x s)

/-- The entry that is made of `-1` points to the last frame. -/
theorem entryFrame_neg (flags : U64) : entryFrame (sizeOfInt (-1) ||| flags ||| 1#64) = 2 ^ 40 - 1 := by
  have hNeg : sizeOfInt (-1) = BitVec.allOnes 64 := by decide
  rw [hNeg, BitVec.allOnes_or, BitVec.allOnes_or]
  decide

/-- Whenever `alloc_page` runs out, on whatever table and range, the call is not refused as expected: it has
stored the entry that is made of `-1`. -/
theorem not_mapRefused_of_runsOut (s : Machine) (physaddr virtaddr flags len : U64)
    (h : RunsOut s physaddr virtaddr flags len) : ¬ MapRefused s physaddr virtaddr flags len := by
  rintro ⟨r, stored, t, hRun, -, hPoints, -⟩
  obtain ⟨log, hLog, hStored, hFrom⟩ := mapPageRangeFromTraced_stored hRun
  have hMap : mapPageRange physaddr virtaddr flags len s = .ok r t :=
    mapPageRangeFromTraced_iff.mpr ⟨stored, hRun⟩
  have hNew : newBlocks s t = log := by
    rw [newBlocks, hLog, List.drop_left]
  rw [RunsOut, hMap, finalState_ok, hNew] at h
  rw [hNew] at hPoints
  have hMem : sizeOfInt (-1) ||| flags ||| 1#64 ∈ stored := by
    rw [hStored]
    exact List.mem_map_of_mem h
  obtain ⟨b, hb, hOk, hFrame⟩ := hPoints _ hMem
  obtain ⟨bmp, bmp', hAlloc⟩ := hFrom b hb
  have hBound := (allocPages_aligned hAlloc hOk).2
  rw [entryFrame_neg] at hFrame
  omega

/-! ## A machine without a free frame -/

/-- `chainMachine` with all 64 frames in use. -/
def fullMachine : Machine :=
  { chainMachine with pageAllocBitmap := ⟨64#64, [0xffffffffffffffff#64], by decide⟩ }

/-- A page for which there is no page table. -/
def tablelessPage : U64 := 0xffff900000200000#64

/-- The machine with the entry that is made of `-1`, after the frame that it points to has been cleared. -/
def fullEntered : Machine :=
  fullMachine.entered 3 1 (BitVec.allOnes 64) (BitVec.allOnes 64) fullMachine.pageAllocBitmap (2 ^ 40 - 1)

theorem fullEntered_run :
    ensureTable (mapPd tablelessPage) (pdIdx tablelessPage) (mapPt tablelessPage) 3#64 fullMachine =
      .ok () fullEntered := by
  have hAlloc : allocPages fullMachine.pageAllocBitmap 0#64 =
      some (BitVec.allOnes 64, fullMachine.pageAllocBitmap) := by
    decide
  refine ensureTable_entered (f := 3) (ν := 2 ^ 40 - 1) (by decide) tablelessPage 3#64 2 (by decide)
    (by decide) (by decide) hAlloc (by decide) fun k hk => ?_
  interval_cases k <;> decide

/-- The run over the page, up to the page table. -/
theorem full_run :
    mapPageRange 0x20000#64 tablelessPage 3#64 1#64 fullMachine =
      (do
        let pte ← load64 (entryAddr (mapPt tablelessPage) (ptIdx tablelessPage))
        if ptePresent pte then do
          let _ ← unmapPageRange tablelessPage 0#64
          pure (-mapErrExist)
        else do
          store64 (entryAddr (mapPt tablelessPage) (ptIdx tablelessPage))
            ((0x20000#64 &&& ~~~0xfff#64) ||| 3#64 ||| 1#64)
          pure (intOfSize (0#64 + 1#64)) : KernelM Int) fullEntered := by
  have hFirst : ensureTable mapPml4 (pml4Idx tablelessPage) (mapPdpt tablelessPage) 3#64 fullMachine =
      .ok () fullMachine := by
    rfl
  have hSecond : ensureTable (mapPdpt tablelessPage) (pdptIdx tablelessPage) (mapPd tablelessPage) 3#64
      fullMachine = .ok () fullMachine := by
    rfl
  show mapPageRangeFrom tablelessPage 3#64 1 0#64 tablelessPage 0x20000#64 fullMachine = _
  rw [mapPageRangeFrom, bind_ok hFirst, bind_ok hSecond, bind_ok fullEntered_run]
  rfl

theorem fullMachine_runsOut : RunsOut fullMachine 0x20000#64 tablelessPage 3#64 1#64 := by
  have hLog : (finalState (mapPageRange 0x20000#64 tablelessPage 3#64 1#64 fullMachine)).allocLog =
      [⟨sizeOfInt (-1), 0#64⟩] := by
    rw [full_run]
    decide
  rw [RunsOut, newBlocks, hLog]
  exact List.mem_singleton_self _

/-- On the machine without a free frame. -/
theorem not_mapRefused_of_runsOut_full :
    RunsOut fullMachine 0x20000#64 tablelessPage 3#64 1#64 ∧
      ¬ MapRefused fullMachine 0x20000#64 tablelessPage 3#64 1#64 :=
  ⟨fullMachine_runsOut, not_mapRefused_of_runsOut _ _ _ _ _ fullMachine_runsOut⟩

/-- The call returns 1, and the page is mapped through a frame that does not exist. -/
theorem full_mapped :
    RunsOut fullMachine 0x20000#64 tablelessPage 3#64 1#64 ∧
      (∃ t, mapPageRange 0x20000#64 tablelessPage 3#64 1#64 fullMachine = .ok 1 t ∧
        entryFrame (t.mem 3 1) = 2 ^ 40 - 1 ∧ value? (getPhysaddr tablelessPage t) = some 0x20000#64) ∧
      ¬ MapRefused fullMachine 0x20000#64 tablelessPage 3#64 1#64 := by
  have hRun : value? (mapPageRange 0x20000#64 tablelessPage 3#64 1#64 fullMachine) = some 1 ∧
      entryFrame ((finalState (mapPageRange 0x20000#64 tablelessPage 3#64 1#64 fullMachine)).mem 3 1) =
        2 ^ 40 - 1 ∧
      value? (getPhysaddr tablelessPage
        (finalState (mapPageRange 0x20000#64 tablelessPage 3#64 1#64 fullMachine))) =
        some 0x20000#64 := by
    rw [full_run]
    decide
  obtain ⟨hValue, hEntry, hPhys⟩ := hRun
  refine ⟨fullMachine_runsOut, ⟨_, eq_ok_of_value hValue, hEntry, hPhys⟩, ?_⟩
  rintro ⟨r, stored, t, hTraced, hNeg, -⟩
  have hMap : mapPageRange 0x20000#64 tablelessPage 3#64 1#64 fullMachine = .ok r t :=
    mapPageRangeFromTraced_iff.mpr ⟨stored, hTraced⟩
  rw [hMap] at hValue
  cases hValue
  exact absurd hNeg (by decide)

end Rayos
