import Rayos.Mem.PageMap

/-!
# A conflict in `map_page_range`

When `map_page_range` meets a page that is mapped it unmaps what it has mapped and returns
`-MAP_ERR_EXIST`; the intermediate tables that it has entered stay, and map nothing.  The flags are or-ed
into the entries of the tables as well, so this takes flags whose address bits are clear: others make the
new entry point to a frame that `alloc_page` has not returned.
-/

namespace Rayos

open RadixTable Program

/-- A page of the range is mapped, in the terms of the table. -/
theorem page_of_mapped {s : Machine} {virtaddr x : U64} {n : Nat} (hHalf : InHalf virtaddr n)
    (hx : Canonical x) (hIn : InRange virtaddr n x) (hMapped : mmuWalk s.mem s.root x ≠ none) :
    ∃ w, vpn virtaddr ≤ w ∧ w < vpn virtaddr + n ∧ s.page w ≠ none := by
  obtain ⟨hLow, hHigh⟩ := (hHalf.inRange_iff hx).mp hIn
  refine ⟨vpn x, hLow, hHigh, fun hNone => hMapped ?_⟩
  rw [mmuWalk_eq_page hx, hNone]
  rfl

/-- `chainMachine` with the first page from `KMEM_BASE` on mapped to frame 32. -/
def mappedMachine : Machine := chainMachine.write 4 0 0x20003#64

theorem mappedMachine_grown : Grown (· < 511) chainMachine mappedMachine := by
  have hLeaf := (grown_leaf chainMachine_tableOk (v := 288 * 2 ^ 27) (f := 4) (by decide) (by decide)
    (by decide) 0x20003#64).1
  have hIndex : 288 * 2 ^ 27 % 512 = 0 := by decide
  rw [hIndex] at hLeaf
  exact hLeaf

theorem mappedMachine_tableOk : TableOk (· < 511) mappedMachine := mappedMachine_grown.ok

/-- The tables are in frames 1 to 4. -/
theorem mappedMachine_table {p : List Nat} {f : Nat} (hp : TablePath (· < 511) p)
    (h : mappedMachine.table p = some f) : 1 ≤ f ∧ f < 5 := by
  obtain ⟨new, hLog, hTables⟩ := mappedMachine_grown.log
  have hNew : new = [] := (List.append_eq_nil_iff.mp hLog.symm).2
  have hOld : chainMachine.table p = some f := by
    rcases hTables p f hp h with hOld | ⟨b, hb, -⟩
    · exact hOld
    · rw [hNew] at hb
      cases hb
  obtain ⟨hPath, hLt⟩ := chainMachine_table hp hOld
  refine ⟨?_, hLt⟩
  by_contra hZero
  have hf : f = 0 := by omega
  rw [hPath, hf] at hOld
  cases hOld

theorem mappedMachine_walk :
    mmuWalk mappedMachine.mem mappedMachine.root 0xffff900000000000#64 ≠ none := by
  decide

/-- `mappedMachine` with frame 0 free. -/
def flaggedMachine : Machine :=
  { mappedMachine with pageAllocBitmap := ⟨64#64, [0xfe#64], by decide⟩ }

/-- The first page of the range, the last one below `KMEM_BASE`. -/
def flaggedPage : U64 := 0xffff8ffffffff000#64

theorem flaggedWords_length : [0xff#64].length = ((64#64 : U64).toNat + 63) / 64 := rfl

/-- The frame that `alloc_page` returns for the first table is 0, and the entry points to frame 4, the
last table of the page that is mapped. -/
def flaggedFirst : Machine :=
  flaggedMachine.entered 1 287 0x4001#64 0x0#64 ⟨64#64, [0xff#64], flaggedWords_length⟩ 4

/-- The machine with the second table. -/
def flaggedSecond : Machine :=
  flaggedFirst.entered 4 511 0xc001#64 0x8000#64 ⟨64#64, [0x1ff#64], by decide⟩ 12

/-- The machine with the third table. -/
def flaggedThird : Machine :=
  flaggedSecond.entered 12 511 0xd001#64 0x9000#64 ⟨64#64, [0x3ff#64], by decide⟩ 13

theorem flaggedFirst_run :
    ensureTable mapPml4 (pml4Idx flaggedPage) (mapPdpt flaggedPage) 0x4000#64 flaggedMachine =
      .ok () flaggedFirst := by
  have hAlloc : allocPages flaggedMachine.pageAllocBitmap 0#64 =
      some (0#64, ⟨64#64, [0xff#64], flaggedWords_length⟩) := by
    decide
  refine ensureTable_entered (f := 1) (ν := 4) (by decide) flaggedPage 0x4000#64 0 (by decide)
    (by decide) (by decide) hAlloc (by decide) fun k hk => ?_
  interval_cases k
  decide

theorem flaggedSecond_run :
    ensureTable (mapPdpt flaggedPage) (pdptIdx flaggedPage) (mapPd flaggedPage) 0x4000#64 flaggedFirst =
      .ok () flaggedSecond := by
  have hAlloc : allocPages flaggedFirst.pageAllocBitmap 0#64 =
      some (0x8000#64, ⟨64#64, [0x1ff#64], by decide⟩) := by
    decide
  refine ensureTable_entered (f := 4) (ν := 12) (by decide) flaggedPage 0x4000#64 1 (by decide)
    (by decide) (by decide) hAlloc (by decide) fun k hk => ?_
  interval_cases k <;> decide

theorem flaggedThird_run :
    ensureTable (mapPd flaggedPage) (pdIdx flaggedPage) (mapPt flaggedPage) 0x4000#64 flaggedSecond =
      .ok () flaggedThird := by
  have hAlloc : allocPages flaggedSecond.pageAllocBitmap 0#64 =
      some (0x9000#64, ⟨64#64, [0x3ff#64], by decide⟩) := by
    decide
  refine ensureTable_entered (f := 12) (ν := 13) (by decide) flaggedPage 0x4000#64 2 (by decide)
    (by decide) (by decide) hAlloc (by decide) fun k hk => ?_
  interval_cases k <;> decide

/-- The run over the two pages, up to the third table. -/
theorem flagged_run :
    mapPageRange 0x30000#64 flaggedPage 0x4000#64 2#64 flaggedMachine =
      (do
        let pte ← load64 (entryAddr (mapPt flaggedPage) (ptIdx flaggedPage))
        if ptePresent pte then do
          let _ ← unmapPageRange flaggedPage 0#64
          pure (-mapErrExist)
        else do
          store64 (entryAddr (mapPt flaggedPage) (ptIdx flaggedPage))
            ((0x30000#64 &&& ~~~0xfff#64) ||| 0x4000#64 ||| 1#64)
          mapPageRangeFrom flaggedPage 0x4000#64 1 (0#64 + 1#64) (flaggedPage + 0x1000#64)
            (0x30000#64 + 0x1000#64) : KernelM Int) flaggedThird := by
  show mapPageRangeFrom flaggedPage 0x4000#64 2 0#64 flaggedPage 0x30000#64 flaggedMachine = _
  rw [mapPageRangeFrom, bind_ok flaggedFirst_run, bind_ok flaggedSecond_run, bind_ok flaggedThird_run]

end Rayos
