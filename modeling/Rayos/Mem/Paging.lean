import Rayos.Machine.State

/-!
# Page mapping through the recursive window (`page.c`)

`map_page_range`, `unmap_page_range` and `get_physaddr` reach the page tables through the entry 511
of the PML4, which points back to the PML4 itself.  The pointers `map_pml4`, `map_pdpt`, `map_pd` and
`map_pt` are 64-bit sums of shifted copies of `PML4_BASE` whose upper bits are lost on purpose.

`mmuWalk_window` is the correctness of this window: walked by the hardware, the pointer of a level
plus an index denotes that entry of the table which the address walked belongs to.
-/

namespace Rayos

open RadixTable Program

/-- `PML4_BASE`. -/
def pml4Base : U64 := 0xFFFFFFFFFFFFF#64

/-- `map_pml4`. -/
def mapPml4 : U64 := pml4Base <<< 12

/-- `map_pdpt`. -/
def mapPdpt (va : U64) : U64 := (pml4Base <<< 21) + (pml4Idx va <<< 12)

/-- `map_pd`. -/
def mapPd (va : U64) : U64 := (pml4Base <<< 30) + (pml4Idx va <<< 21) + (pdptIdx va <<< 12)

/-- `map_pt`. -/
def mapPt (va : U64) : U64 :=
  (pml4Base <<< 39) + (pml4Idx va <<< 30) + (pdptIdx va <<< 21) + (pdIdx va <<< 12)

/-- The address of `table[idx]`, `table` an array of `uint64_t`. -/
def entryAddr (table idx : U64) : U64 := table + 8#64 * idx

/-- `MAP_ERR_EXIST`. -/
def mapErrExist : Int := 17

/-- `MAP_ERR_NOTMAPPED`. -/
def mapErrNotmapped : Int := 100

/-- The step `map_page_range` repeats for each level above the last: where `table[idx]` is not
present, a new frame is entered there and cleared through `next`. -/
def ensureTable (table idx next flags : U64) : KernelM Unit := do
  let e ← load64 (entryAddr table idx)
  if ptePresent e then pure ()
  else do
    let pa ← Kernel.allocPages 0#64
    store64 (entryAddr table idx) (pa ||| flags ||| 1#64)
    forUpto 512 fun j => store64 (entryAddr next (BitVec.ofNat 64 j)) 0#64

/-- The loop of `unmap_page_range`, `i` pages done, `va` the next one. -/
def unmapPageRangeFrom : Nat → U64 → U64 → KernelM Int
  | 0, i, _ => pure (intOfSize i)
  | n + 1, i, va => do
      let pml4e ← load64 (entryAddr mapPml4 (pml4Idx va))
      if !ptePresent pml4e then pure (intOfSize i)
      else do
        let pdpte ← load64 (entryAddr (mapPdpt va) (pdptIdx va))
        if !ptePresent pdpte then pure (intOfSize i)
        else do
          let pde ← load64 (entryAddr (mapPd va) (pdIdx va))
          if !ptePresent pde then pure (intOfSize i)
          else do
            let pte ← load64 (entryAddr (mapPt va) (ptIdx va))
            if ptePresent pte then do
              store64 (entryAddr (mapPt va) (ptIdx va)) 0#64
              unmapPageRangeFrom n (i + 1#64) (va + 0x1000#64)
            else pure (intOfSize i)

/-- `unmap_page_range`. -/
def unmapPageRange (virtaddr len : U64) : KernelM Int :=
  unmapPageRangeFrom len.toNat 0#64 virtaddr

/-- The loop of `map_page_range`, `i` pages done, `va` and `pa` the next ones. -/
def mapPageRangeFrom (virtaddr flags : U64) : Nat → U64 → U64 → U64 → KernelM Int
  | 0, i, _, _ => pure (intOfSize i)
  | n + 1, i, va, pa => do
      ensureTable mapPml4 (pml4Idx va) (mapPdpt va) flags
      ensureTable (mapPdpt va) (pdptIdx va) (mapPd va) flags
      ensureTable (mapPd va) (pdIdx va) (mapPt va) flags
      let pte ← load64 (entryAddr (mapPt va) (ptIdx va))
      if ptePresent pte then do
        let _ ← unmapPageRange virtaddr i
        pure (-mapErrExist)
      else do
        store64 (entryAddr (mapPt va) (ptIdx va)) ((pa &&& ~~~0xfff#64) ||| flags ||| 1#64)
        mapPageRangeFrom virtaddr flags n (i + 1#64) (va + 0x1000#64) (pa + 0x1000#64)

/-- `map_page_range`. -/
def mapPageRange (physaddr virtaddr flags len : U64) : KernelM Int :=
  mapPageRangeFrom virtaddr flags len.toNat 0#64 virtaddr physaddr

/-- `get_physaddr`. -/
def getPhysaddr (virtaddr : U64) : KernelM U64 := do
  let pml4e ← load64 (entryAddr mapPml4 (pml4Idx virtaddr))
  if !ptePresent pml4e then pure (sizeOfInt (-mapErrNotmapped))
  else do
    let pdpte ← load64 (entryAddr (mapPdpt virtaddr) (pdptIdx virtaddr))
    if !ptePresent pdpte then pure (sizeOfInt (-mapErrNotmapped))
    else do
      let pde ← load64 (entryAddr (mapPd virtaddr) (pdIdx virtaddr))
      if !ptePresent pde then pure (sizeOfInt (-mapErrNotmapped))
      else do
        let pte ← load64 (entryAddr (mapPt virtaddr) (ptIdx virtaddr))
        if ptePresent pte then
          pure ((pte &&& ~~~0xfff#64) + (virtaddr &&& 0xfff#64))
        else pure (sizeOfInt (-mapErrNotmapped))

/-! ## The window denotes the tables -/

/-- The window pointer of the level that a path of zero to three indices leads to. -/
def windowBase (va : U64) : Nat → U64
  | 0 => mapPml4
  | 1 => mapPdpt va
  | 2 => mapPd va
  | _ => mapPt va

/-- The index of `va` in the table of a level. -/
def levelIdx (va : U64) : Nat → U64
  | 0 => pml4Idx va
  | 1 => pdptIdx va
  | 2 => pdIdx va
  | _ => ptIdx va

/-- The indices that lead to the table of a level, from the PML4 (level 0) to the PT (level 3). -/
def tablePath (va : U64) (level : Nat) : List Nat := (walkPath va).take level

/-- No bit of an index is lost where it is shifted into a window address. -/
theorem shiftLeft_idx_toNat {x : U64} {k : Nat} (hx : x.toNat < 512) (hk : k ≤ 30) :
    (x <<< k).toNat = x.toNat * 2 ^ k := by
  have hPow : 2 ^ k ≤ 2 ^ 30 := Nat.pow_le_pow_right (by decide) hk
  rw [BitVec.toNat_shiftLeft, Nat.shiftLeft_eq, Nat.mod_eq_of_lt]
  calc x.toNat * 2 ^ k ≤ 511 * 2 ^ 30 := Nat.mul_le_mul (by omega) hPow
    _ < 2 ^ 64 := by decide

/-- The window addresses as numbers: no bit of the indices is lost. -/
theorem windowBase_toNat (va : U64) {level j : Nat} (hl : level ≤ 3) (hj : j < 512) :
    (entryAddr (windowBase va level) (BitVec.ofNat 64 j)).toNat =
      (match level with
        | 0 => 0xFFFFFFFFFFFFF000
        | 1 => 0xFFFFFFFFFFE00000 + va.toNat / 2 ^ 39 % 512 * 2 ^ 12
        | 2 => 0xFFFFFFFFC0000000 + va.toNat / 2 ^ 39 % 512 * 2 ^ 21 +
            va.toNat / 2 ^ 30 % 512 * 2 ^ 12
        | _ => 0xFFFFFF8000000000 + va.toNat / 2 ^ 39 % 512 * 2 ^ 30 +
            va.toNat / 2 ^ 30 % 512 * 2 ^ 21 + va.toNat / 2 ^ 21 % 512 * 2 ^ 12) + 8 * j := by
  have h4 : (pml4Idx va).toNat < 512 := by
    rw [pml4Idx_toNat]
    exact Nat.mod_lt _ (by decide)
  have h3 : (pdptIdx va).toNat < 512 := by
    rw [pdptIdx_toNat]
    exact Nat.mod_lt _ (by decide)
  have h2 : (pdIdx va).toNat < 512 := by
    rw [pdIdx_toNat]
    exact Nat.mod_lt _ (by decide)
  have hOff : (8#64 * BitVec.ofNat 64 j).toNat = 8 * j := by
    rw [BitVec.toNat_mul, BitVec.toNat_ofNat, BitVec.toNat_ofNat]
    omega
  rw [← pml4Idx_toNat, ← pdptIdx_toNat, ← pdIdx_toNat]
  rw [entryAddr, BitVec.toNat_add, hOff]
  have hLevel : level = 0 ∨ level = 1 ∨ level = 2 ∨ level = 3 := by omega
  rcases hLevel with rfl | rfl | rfl | rfl
  · have hBase : mapPml4.toNat = 0xFFFFFFFFFFFFF000 := by decide
    rw [windowBase, hBase]
    simp only []
    omega
  · have hBase : (pml4Base <<< 21).toNat = 0xFFFFFFFFFFE00000 := by decide
    rw [windowBase, mapPdpt, BitVec.toNat_add, hBase, shiftLeft_idx_toNat h4 (by decide)]
    simp only []
    omega
  · have hBase : (pml4Base <<< 30).toNat = 0xFFFFFFFFC0000000 := by decide
    rw [windowBase, mapPd, BitVec.toNat_add, BitVec.toNat_add, hBase,
      shiftLeft_idx_toNat h4 (by decide), shiftLeft_idx_toNat h3 (by decide)]
    simp only []
    omega
  · have hBase : (pml4Base <<< 39).toNat = 0xFFFFFF8000000000 := by decide
    show ((mapPt va).toNat + 8 * j) % 2 ^ 64 = _
    rw [mapPt, BitVec.toNat_add, BitVec.toNat_add, BitVec.toNat_add, hBase,
      shiftLeft_idx_toNat h4 (by decide), shiftLeft_idx_toNat h3 (by decide),
      shiftLeft_idx_toNat h2 (by decide)]
    simp only []
    omega

/-- Walking a window address goes through entry 511 and then down the path of the table. -/
theorem walkPath_window (va : U64) {level j : Nat} (hl : level ≤ 3) (hj : j < 512) :
    walkPath (entryAddr (windowBase va level) (BitVec.ofNat 64 j)) =
      List.replicate (4 - level) 511 ++ tablePath va level := by
  have h4 : va.toNat / 2 ^ 39 % 512 < 512 := Nat.mod_lt _ (by decide)
  have h3 : va.toNat / 2 ^ 30 % 512 < 512 := Nat.mod_lt _ (by decide)
  have h2 : va.toNat / 2 ^ 21 % 512 < 512 := Nat.mod_lt _ (by decide)
  rw [walkPath_eq, windowBase_toNat va hl hj, tablePath, walkPath_eq]
  match level, hl with
  | 0, _ | 1, _ | 2, _ | 3, _ =>
      simp only [List.replicate, List.take, List.cons_append, List.nil_append, List.cons.injEq,
        and_true]
      omega

theorem canonical_window (va : U64) {level j : Nat} (hl : level ≤ 3) (hj : j < 512) :
    Canonical (entryAddr (windowBase va level) (BitVec.ofNat 64 j)) := by
  right
  rw [windowBase_toNat va hl hj]
  match level, hl with
  | 0, _ | 1, _ | 2, _ | 3, _ =>
      simp only
      omega

variable {mem : Memory} {root : Nat}

/-- Going round the recursive entry stays at the root. -/
theorem descend_replicate_recursive (hRec : entryChild (mem root 511) = some root)
    (k : Nat) (p : List Nat) :
    descend entryChild mem root (List.replicate k 511 ++ p) = descend entryChild mem root p := by
  induction k with
  | zero => rfl
  | succ k ih =>
      rw [List.replicate_succ, List.cons_append, descend_cons_of_child hRec, ih]

/-- The hardware walk on a window address, for any index of the table. -/
theorem mmuWalk_window (hRec : entryChild (mem root 511) = some root) (va : U64)
    {level j : Nat} (hl : level ≤ 3) (hj : j < 512) :
    mmuWalk mem root (entryAddr (windowBase va level) (BitVec.ofNat 64 j)) =
      (descend entryChild mem root (tablePath va level)).map fun f => (f, 8 * j) := by
  have hOff : (entryAddr (windowBase va level) (BitVec.ofNat 64 j)).toNat % 4096 = 8 * j := by
    rw [windowBase_toNat va hl hj]
    match level, hl with
    | 0, _ | 1, _ | 2, _ | 3, _ =>
        simp only
        omega
  unfold mmuWalk
  rw [if_pos (canonical_window va hl hj), walkPath_window va hl hj,
    descend_replicate_recursive hRec, hOff]

theorem levelIdx_lt (va : U64) (level : Nat) : (levelIdx va level).toNat < 512 := by
  match level with
  | 0 | 1 | 2 | n + 3 =>
      simp only [levelIdx, pml4Idx_toNat, pdptIdx_toNat, pdIdx_toNat, ptIdx_toNat]
      exact Nat.mod_lt _ (by decide)

/-- The walk on the address of `va`'s own entry of a level. -/
theorem mmuWalk_window_own (hRec : entryChild (mem root 511) = some root) (va : U64)
    {level : Nat} (hl : level ≤ 3) :
    mmuWalk mem root (entryAddr (windowBase va level) (levelIdx va level)) =
      (descend entryChild mem root (tablePath va level)).map
        fun f => (f, 8 * (levelIdx va level).toNat) := by
  have h := mmuWalk_window hRec va hl (levelIdx_lt va level)
  rwa [BitVec.ofNat_toNat, BitVec.setWidth_eq] at h

/-- **The recursive window.**  For every memory whose PML4 entry 511 points to the PML4 itself and
every 64-bit address, the hardware walk on the addresses the source computes reaches the address's
own PML4E, and, as far as the levels above are present, its own PDPTE, PDE and PTE. -/
theorem recursiveWindow_reaches_entries (mem : Memory) (root : Nat)
    (hPresent : ptePresent (mem root 511) = true) (hSelf : entryFrame (mem root 511) = root)
    (va : U64) :
    mmuWalk mem root (entryAddr mapPml4 (pml4Idx va)) = some (root, 8 * (pml4Idx va).toNat) ∧
    ∀ pdpt, entryChild (mem root (pml4Idx va).toNat) = some pdpt →
      mmuWalk mem root (entryAddr (mapPdpt va) (pdptIdx va)) =
        some (pdpt, 8 * (pdptIdx va).toNat) ∧
      ∀ pd, entryChild (mem pdpt (pdptIdx va).toNat) = some pd →
        mmuWalk mem root (entryAddr (mapPd va) (pdIdx va)) = some (pd, 8 * (pdIdx va).toNat) ∧
        ∀ pt, entryChild (mem pd (pdIdx va).toNat) = some pt →
          mmuWalk mem root (entryAddr (mapPt va) (ptIdx va)) =
            some (pt, 8 * (ptIdx va).toNat) := by
  have hRec : entryChild (mem root 511) = some root := entryChild_eq_some.mpr ⟨hPresent, hSelf⟩
  have hWalk := fun (level : Nat) (hl : level ≤ 3) => mmuWalk_window_own hRec va hl
  refine ⟨hWalk 0 (by decide), fun pdpt hPdpt => ⟨?_, fun pd hPd => ⟨?_, fun pt hPt => ?_⟩⟩⟩
  · refine (hWalk 1 (by decide)).trans ?_
    simp only [tablePath, walkPath, List.take, descend, hPdpt]
    rfl
  · refine (hWalk 2 (by decide)).trans ?_
    simp only [tablePath, walkPath, List.take, descend, hPdpt, hPd]
    rfl
  · refine (hWalk 3 (by decide)).trans ?_
    simp only [tablePath, walkPath, List.take, descend, hPdpt, hPd, hPt]
    rfl

/-- A PML4 in frame 1 with the recursive entry, and one chain of tables for index 288. -/
def chainMemory : Memory := fun f i =>
  if f = 1 ∧ i = 511 then 0x1003#64
  else if f = 1 ∧ i = 288 then 0x2003#64
  else if f = 2 ∧ i = 0 then 0x3003#64
  else if f = 3 ∧ i = 0 then 0x4003#64
  else 0#64

theorem recursiveWindow_reaches_entries_chain :
    mmuWalk chainMemory 1 (entryAddr (mapPt 0xffff900000003000#64) (ptIdx 0xffff900000003000#64)) =
      some (4, 24) :=
  (((recursiveWindow_reaches_entries chainMemory 1 (by decide) (by decide)
    0xffff900000003000#64).2 2 (by decide)).2 3 (by decide)).2 4 (by decide)

end Rayos
