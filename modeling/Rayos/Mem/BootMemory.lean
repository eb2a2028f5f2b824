import Rayos.Mem.LowerHalf

/-!
# The memory at boot (`head.S`, `page.c`)

`head.S` builds the page tables that the kernel starts with: the first 128 megabytes, at their own addresses and, with
the same tables, in the upper half.  `page_init` builds the frame bitmap behind the kernel image and unmaps pages behind
it.  What the other files take for granted of this state is proved here from the code.

* `headTables_boot` — the tables that `head.S` writes;
* `unmapPageRangeFrom_boot` — what `unmap_page_range` makes of them;
* `pageInit_boot` — the pages that are mapped after `page_init`, and that `mm_init` finds the state it relies on.
-/

namespace Rayos

open RadixTable Program

/-! ## `head.S` -/

/-- A quadword with one of its halves replaced. -/
def setHalf (w : U64) (high : Bool) (v : BitVec 32) : U64 :=
  if high then v.setWidth 64 <<< 32 ||| (w.setWidth 32).setWidth 64
  else (w >>> 32) <<< 32 ||| v.setWidth 64

/-- A store of a doubleword, before paging is switched on. -/
def storeDword (mem : Memory) (a v : BitVec 32) : Memory :=
  let f := a.toNat / 4096
  let i := a.toNat % 4096 / 8
  writeWord mem f i (setHalf (mem f i) (a.getLsbD 2) v)

/-- A load of a doubleword, before paging is switched on. -/
def loadDword (mem : Memory) (a : BitVec 32) : BitVec 32 :=
  let w := mem (a.toNat / 4096) (a.toNat % 4096 / 8)
  if a.getLsbD 2 then (w >>> 32).setWidth 32 else w.setWidth 32

/-- `rep stosl`, for `ecx` doublewords. -/
def repStosl (eax : BitVec 32) : Nat → BitVec 32 → Memory → Memory
  | 0, _, mem => mem
  | ecx + 1, edi, mem => repStosl eax ecx (edi + 4#32) (storeDword mem edi eax)

/-- The loop at the first label `0`: the entries of the page directory. -/
def headPd (edi : BitVec 32) : Nat → BitVec 32 → BitVec 32 → Memory → Memory
  | 0, _, _, mem => mem
  | ecx + 1, eax, edx, mem =>
      headPd edi ecx (eax + 0x1000#32) (edx + 1#32) (storeDword mem (edi + edx * 8#32) eax)

/-- The loop at the label `1`: the entries of the page tables. -/
def headPt : Nat → BitVec 32 → BitVec 32 → Memory → Memory
  | 0, _, _, mem => mem
  | ecx + 1, eax, edi, mem =>
      headPt ecx (eax + 0x1000#32) (edi + 8#32) (storeDword (storeDword mem edi eax) (edi + 4#32) 0#32)

/-- `NUM_PT`. -/
def numPt : Nat := 64

/-- The entries of the PML4, where the last one is the PML4 itself, and the one entry of the PDPT. -/
def headTop (bootPml4 : BitVec 32) (mem : Memory) : Memory :=
  let bootPdpt := bootPml4 + 0x1000#32
  let bootPd := bootPml4 + 0x2000#32
  let mem := storeDword mem bootPml4 (bootPdpt ||| 3#32)
  let mem := storeDword mem (bootPml4 + 256#32 * 8#32) (bootPdpt ||| 3#32)
  let mem := storeDword mem (bootPml4 + 511#32 * 8#32) bootPml4
  let mem := storeDword mem (bootPml4 + 511#32 * 8#32) (loadDword mem (bootPml4 + 511#32 * 8#32) + 3#32)
  storeDword mem bootPdpt (bootPd ||| 3#32)

/-- The page tables that `_start` builds, at the physical address of `_boot_pml4`; `_boot_pdpt`, `_boot_pd` and
`_boot_pt` lie behind it. -/
def headTables (bootPml4 : BitVec 32) (mem : Memory) : Memory :=
  let bootPd := bootPml4 + 0x2000#32
  let bootPt := bootPml4 + 0x3000#32
  let mem := repStosl 0#32 (4096 * 4 / 4) bootPml4 mem
  let mem := headTop bootPml4 mem
  let mem := headPd bootPd numPt (bootPt ||| 3#32) 0#32 mem
  headPt (512 * numPt) 3#32 bootPt mem

/-! ## Quadwords in a row -/

/-- Quadword `q` of physical memory. -/
def quad (mem : Memory) (q : Nat) : U64 := mem (q / 512) (q % 512)

/-- The entry for a frame, present and writable. -/
def bootEntry (f : Nat) : U64 := BitVec.ofNat 64 (f * 4096 + 3)

section Stores

variable {mem : Memory} {q r n : Nat}

theorem storeDword_low (hq : q < 2 ^ 29) (v : BitVec 32) :
    quad (storeDword mem (BitVec.ofNat 32 (8 * q)) v) r =
      if r = q then setHalf (quad mem q) false v else quad mem r := by
  have hNat : (BitVec.ofNat 32 (8 * q)).toNat = 8 * q := by
    rw [BitVec.toNat_ofNat, Nat.mod_eq_of_lt (by omega)]
  have hBit : (BitVec.ofNat 32 (8 * q)).getLsbD 2 = false := by
    rw [BitVec.getLsbD, hNat, Nat.testBit_eq_decide_div_mod_eq, decide_eq_false_iff_not]
    omega
  have hPlace : r / 512 = 8 * q / 4096 ∧ r % 512 = 8 * q % 4096 / 8 ↔ r = q := by
    omega
  unfold quad storeDword writeWord
  simp only [hNat, hBit, hPlace]
  rw [show 8 * q / 4096 = q / 512 by omega, show 8 * q % 4096 / 8 = q % 512 by omega]

theorem storeDword_high (hq : q < 2 ^ 29) (v : BitVec 32) :
    quad (storeDword mem (BitVec.ofNat 32 (8 * q) + 4#32) v) r =
      if r = q then setHalf (quad mem q) true v else quad mem r := by
  have hNat : (BitVec.ofNat 32 (8 * q) + 4#32).toNat = 8 * q + 4 := by
    rw [BitVec.toNat_add, BitVec.toNat_ofNat, BitVec.toNat_ofNat]
    omega
  have hBit : (BitVec.ofNat 32 (8 * q) + 4#32).getLsbD 2 = true := by
    rw [BitVec.getLsbD, hNat, Nat.testBit_eq_decide_div_mod_eq, decide_eq_true_eq]
    omega
  have hPlace : r / 512 = (8 * q + 4) / 4096 ∧ r % 512 = (8 * q + 4) % 4096 / 8 ↔ r = q := by
    omega
  unfold quad storeDword writeWord
  simp only [hNat, hBit, hPlace]
  rw [show (8 * q + 4) / 4096 = q / 512 by omega, show (8 * q + 4) % 4096 / 8 = q % 512 by omega]

theorem loadDword_low (hq : q < 2 ^ 29) : loadDword mem (BitVec.ofNat 32 (8 * q)) = (quad mem q).setWidth 32 := by
  have hNat : (BitVec.ofNat 32 (8 * q)).toNat = 8 * q := by
    rw [BitVec.toNat_ofNat, Nat.mod_eq_of_lt (by omega)]
  have hBit : (BitVec.ofNat 32 (8 * q)).getLsbD 2 = false := by
    rw [BitVec.getLsbD, hNat, Nat.testBit_eq_decide_div_mod_eq, decide_eq_false_iff_not]
    omega
  unfold loadDword quad
  simp only [hNat, hBit]
  rw [show 8 * q / 4096 = q / 512 by omega, show 8 * q % 4096 / 8 = q % 512 by omega]
  rfl

/-- Both halves of a quadword. -/
theorem setHalf_both (w : U64) (v : BitVec 32) : setHalf (setHalf w false v) true 0#32 = v.setWidth 64 := by
  unfold setHalf
  apply BitVec.eq_of_getLsbD_eq
  intro k hk
  by_cases hLow : k < 32
  · simp [hLow, hk]
  · have hTop : v.getLsbD k = false := BitVec.getLsbD_of_ge v k (by omega)
    simp [hk, hTop]

theorem setHalf_low (w : U64) (v : BitVec 32) (hw : w >>> 32 = 0#64) : setHalf w false v = v.setWidth 64 := by
  simp [setHalf, hw]

theorem setWidth_shift (v : BitVec 32) : v.setWidth 64 >>> 32 = 0#64 := by
  apply BitVec.eq_of_getLsbD_eq
  intro k hk
  simp

theorem repStosl_quad (hn : q + n ≤ 2 ^ 29) :
    quad (repStosl 0#32 (2 * n) (BitVec.ofNat 32 (8 * q)) mem) r = if q ≤ r ∧ r < q + n then 0#64 else quad mem r := by
  induction n generalizing q mem with
  | zero => rw [if_neg (by omega)]; rfl
  | succ n ih =>
      have hNext : BitVec.ofNat 32 (8 * q) + 4#32 + 4#32 = BitVec.ofNat 32 (8 * (q + 1)) := by
        rw [BitVec.add_assoc, Nat.mul_succ, BitVec.ofNat_add]
        rfl
      rw [show 2 * (n + 1) = 2 * n + 1 + 1 by omega, repStosl, repStosl, hNext, ih (by omega),
        storeDword_high (by omega), storeDword_low (by omega), if_pos rfl, setHalf_both]
      by_cases hEq : r = q
      · subst hEq
        rw [if_pos rfl, if_neg (by omega), if_pos (by omega)]
        rfl
      · rw [if_neg hEq, storeDword_low (by omega), if_neg hEq]
        by_cases hIn : q + 1 ≤ r ∧ r < q + 1 + n
        · rw [if_pos hIn, if_pos (by omega)]
        · rw [if_neg hIn, if_neg (by omega)]

/-- An entry as 32 bits. -/
theorem entry_setWidth {f : Nat} (hf : f < 2 ^ 20) : (BitVec.ofNat 32 (f * 4096 + 3)).setWidth 64 = bootEntry f := by
  apply BitVec.eq_of_toNat_eq
  unfold bootEntry
  rw [BitVec.toNat_setWidth, BitVec.toNat_ofNat, BitVec.toNat_ofNat]
  omega

theorem entry_next (f : Nat) : BitVec.ofNat 32 (f * 4096 + 3) + 0x1000#32 = BitVec.ofNat 32 ((f + 1) * 4096 + 3) := by
  rw [show (f + 1) * 4096 + 3 = f * 4096 + 3 + 4096 by omega]
  exact (BitVec.ofNat_add _ _).symm

theorem headPd_quad {f k : Nat} (hn : q + k + n ≤ 2 ^ 29) (hf : f + n ≤ 2 ^ 20)
    (hClear : ∀ r, q + k ≤ r → r < q + k + n → quad mem r = 0#64) :
    quad (headPd (BitVec.ofNat 32 (8 * q)) n (BitVec.ofNat 32 (f * 4096 + 3)) (BitVec.ofNat 32 k) mem) r =
      if q + k ≤ r ∧ r < q + k + n then bootEntry (f + (r - (q + k))) else quad mem r := by
  induction n generalizing f k mem with
  | zero => rw [if_neg (by omega)]; rfl
  | succ n ih =>
      have hPlace : BitVec.ofNat 32 (8 * q) + BitVec.ofNat 32 k * 8#32 = BitVec.ofNat 32 (8 * (q + k)) := by
        rw [show 8 * (q + k) = 8 * q + k * 8 by omega, BitVec.ofNat_add, BitVec.ofNat_mul k 8]
      have hIndex : BitVec.ofNat 32 k + 1#32 = BitVec.ofNat 32 (k + 1) := by rw [BitVec.ofNat_add]
      have hStore : ∀ r, quad (storeDword mem (BitVec.ofNat 32 (8 * (q + k))) (BitVec.ofNat 32 (f * 4096 + 3))) r =
          if r = q + k then bootEntry f else quad mem r := by
        intro r
        rw [storeDword_low (by omega), hClear (q + k) (by omega) (by omega), setHalf_low _ _ (by decide),
          entry_setWidth (by omega)]
      rw [headPd, hPlace, entry_next, hIndex, ih (by omega) (by omega) (fun r hr hr' => by
        rw [hStore, if_neg (by omega)]
        exact hClear r (by omega) (by omega)), hStore]
      by_cases hEq : r = q + k
      · subst hEq
        rw [if_pos rfl, if_neg (by omega), if_pos (by omega), Nat.sub_self, Nat.add_zero]
      · rw [if_neg hEq]
        by_cases hIn : q + (k + 1) ≤ r ∧ r < q + (k + 1) + n
        · rw [if_pos hIn, if_pos (by omega)]
          congr 1
          omega
        · rw [if_neg hIn, if_neg (by omega)]

theorem headPt_quad {f : Nat} (hn : q + n ≤ 2 ^ 29) (hf : f + n ≤ 2 ^ 20) :
    quad (headPt n (BitVec.ofNat 32 (f * 4096 + 3)) (BitVec.ofNat 32 (8 * q)) mem) r =
      if q ≤ r ∧ r < q + n then bootEntry (f + (r - q)) else quad mem r := by
  induction n generalizing f q mem with
  | zero => rw [if_neg (by omega)]; rfl
  | succ n ih =>
      have hNext : BitVec.ofNat 32 (8 * q) + 8#32 = BitVec.ofNat 32 (8 * (q + 1)) := by
        rw [Nat.mul_succ, BitVec.ofNat_add]
      rw [headPt, hNext, entry_next, ih (by omega) (by omega), storeDword_high (by omega), storeDword_low (by omega),
        if_pos rfl, setHalf_both, entry_setWidth (by omega)]
      by_cases hEq : r = q
      · subst hEq
        rw [if_pos rfl, if_neg (by omega), if_pos (by omega), Nat.sub_self, Nat.add_zero]
      · rw [if_neg hEq, storeDword_low (by omega), if_neg hEq]
        by_cases hIn : q + 1 ≤ r ∧ r < q + 1 + n
        · rw [if_pos hIn, if_pos (by omega)]
          congr 1
          omega
        · rw [if_neg hIn, if_neg (by omega)]

end Stores

/-! ## The boot tables -/

/-- The tables of the boot code, the PML4 at frame `p`, in which the pages from `a` to `b` have been unmapped. -/
structure BootTables (p a b : Nat) (mem : Memory) : Prop where
  pml4 : ∀ i, i < 512 →
    mem p i = if i = 0 ∨ i = 256 then bootEntry (p + 1) else if i = 511 then bootEntry p else 0#64
  pdpt : ∀ i, i < 512 → mem (p + 1) i = if i = 0 then bootEntry (p + 2) else 0#64
  pd : ∀ i, i < 512 → mem (p + 2) i = if i < 64 then bootEntry (p + 3 + i) else 0#64
  pt : ∀ x, x < 32768 → mem (p + 3 + x / 512) (x % 512) = if a ≤ x ∧ x < b then 0#64 else bootEntry x

theorem quad_frame (mem : Memory) (f : Nat) {i : Nat} (hi : i < 512) : quad mem (512 * f + i) = mem f i := by
  unfold quad
  rw [show (512 * f + i) / 512 = f by omega, show (512 * f + i) % 512 = i by omega]

/-- The address of an entry of the table at frame `p + k`. -/
theorem table_address (p k i : Nat) :
    BitVec.ofNat 32 (4096 * p) + BitVec.ofNat 32 (4096 * k + 8 * i) = BitVec.ofNat 32 (8 * (512 * (p + k) + i)) := by
  rw [← BitVec.ofNat_add]
  congr 1
  omega

/-- The flags of an entry. -/
theorem entry_or {f : Nat} (hf : f < 2 ^ 20) :
    BitVec.ofNat 32 (8 * (512 * f)) ||| 3#32 = BitVec.ofNat 32 (f * 4096 + 3) := by
  apply BitVec.eq_of_toNat_eq
  rw [BitVec.toNat_or, BitVec.toNat_ofNat, BitVec.toNat_ofNat, BitVec.toNat_ofNat, Nat.mod_eq_of_lt (by omega),
    Nat.mod_eq_of_lt (by omega), Nat.mod_eq_of_lt (by omega), show 8 * (512 * f) = 2 ^ 12 * f by omega,
    ← Nat.two_pow_add_eq_or_of_lt (by decide) f]
  omega

/-- An entry is stored where the upper half is zero. -/
theorem store_entry {mem : Memory} {q f r : Nat} (hq : q < 2 ^ 29) (hf : f < 2 ^ 20)
    (hZero : quad mem q >>> 32 = 0#64) :
    quad (storeDword mem (BitVec.ofNat 32 (8 * q)) (BitVec.ofNat 32 (f * 4096 + 3))) r =
      if r = q then bootEntry f else quad mem r := by
  rw [storeDword_low hq, setHalf_low _ _ hZero, entry_setWidth hf]

theorem headTop_quad {p : Nat} (hp : p + 67 ≤ 2 ^ 20) {mem : Memory}
    (hClear : ∀ r, 512 * p ≤ r → r < 512 * (p + 4) → quad mem r = 0#64) (r : Nat) :
    quad (headTop (BitVec.ofNat 32 (4096 * p)) mem) r =
      if r = 512 * p ∨ r = 512 * p + 256 then bootEntry (p + 1)
      else if r = 512 * p + 511 then bootEntry p
      else if r = 512 * (p + 1) then bootEntry (p + 2) else quad mem r := by
  have hPml4 : BitVec.ofNat 32 (4096 * p) = BitVec.ofNat 32 (8 * (512 * p)) := by
    congr 1
    omega
  have hHigh : BitVec.ofNat 32 (4096 * p) + 256#32 * 8#32 = BitVec.ofNat 32 (8 * (512 * p + 256)) :=
    table_address p 0 256
  have hLast : BitVec.ofNat 32 (4096 * p) + 511#32 * 8#32 = BitVec.ofNat 32 (8 * (512 * p + 511)) :=
    table_address p 0 511
  have hPdpt : BitVec.ofNat 32 (4096 * p) + 0x1000#32 = BitVec.ofNat 32 (8 * (512 * (p + 1))) := table_address p 1 0
  have hPd : BitVec.ofNat 32 (4096 * p) + 0x2000#32 = BitVec.ofNat 32 (8 * (512 * (p + 2))) := table_address p 2 0
  have hSelf : BitVec.ofNat 32 (4096 * p) + 3#32 = BitVec.ofNat 32 (p * 4096 + 3) := by
    rw [← BitVec.ofNat_add]
    congr 1
    omega
  unfold headTop
  simp only [hHigh, hLast, hPdpt, hPd, entry_or (show p + 1 < 2 ^ 20 by omega), entry_or (show p + 2 < 2 ^ 20 by omega)]
  have hZero : (0#64) >>> 32 = 0#64 := by decide
  -- the five stores, one after the other
  have h1 : ∀ r, quad (storeDword mem (BitVec.ofNat 32 (4096 * p)) (BitVec.ofNat 32 ((p + 1) * 4096 + 3))) r =
      if r = 512 * p then bootEntry (p + 1) else quad mem r := by
    intro r
    rw [hPml4, store_entry (by omega) (by omega) (by rw [hClear _ (by omega) (by omega)]; exact hZero)]
  generalize storeDword mem (BitVec.ofNat 32 (4096 * p)) (BitVec.ofNat 32 ((p + 1) * 4096 + 3)) = m1 at h1 ⊢
  have h2 : ∀ r, quad (storeDword m1 (BitVec.ofNat 32 (8 * (512 * p + 256))) (BitVec.ofNat 32 ((p + 1) * 4096 + 3))) r =
      if r = 512 * p + 256 then bootEntry (p + 1) else quad m1 r := by
    intro r
    rw [store_entry (by omega) (by omega) (by
      rw [h1, if_neg (by omega), hClear _ (by omega) (by omega)]
      exact hZero)]
  generalize storeDword m1 (BitVec.ofNat 32 (8 * (512 * p + 256))) (BitVec.ofNat 32 ((p + 1) * 4096 + 3)) = m2 at h2 ⊢
  have hLast2 : quad m2 (512 * p + 511) = 0#64 := by
    rw [h2, if_neg (by omega), h1, if_neg (by omega), hClear _ (by omega) (by omega)]
  have h3 : ∀ r, quad (storeDword m2 (BitVec.ofNat 32 (8 * (512 * p + 511))) (BitVec.ofNat 32 (4096 * p))) r =
      if r = 512 * p + 511 then (BitVec.ofNat 32 (4096 * p)).setWidth 64 else quad m2 r := by
    intro r
    rw [storeDword_low (by omega), hLast2, setHalf_low _ _ hZero]
  generalize storeDword m2 (BitVec.ofNat 32 (8 * (512 * p + 511))) (BitVec.ofNat 32 (4096 * p)) = m3 at h3 ⊢
  have hLoad : loadDword m3 (BitVec.ofNat 32 (8 * (512 * p + 511))) = BitVec.ofNat 32 (4096 * p) := by
    rw [loadDword_low (by omega), h3, if_pos rfl, BitVec.setWidth_setWidth_of_le _ (by decide), BitVec.setWidth_eq]
  rw [hLoad, hSelf]
  have h4 : ∀ r, quad (storeDword m3 (BitVec.ofNat 32 (8 * (512 * p + 511))) (BitVec.ofNat 32 (p * 4096 + 3))) r =
      if r = 512 * p + 511 then bootEntry p else quad m3 r := by
    intro r
    rw [store_entry (by omega) (by omega) (by rw [h3, if_pos rfl]; exact setWidth_shift _)]
  generalize storeDword m3 (BitVec.ofNat 32 (8 * (512 * p + 511))) (BitVec.ofNat 32 (p * 4096 + 3)) = m4 at h4 ⊢
  rw [store_entry (by omega) (by omega) (by
    rw [h4, if_neg (by omega), h3, if_neg (by omega), h2, if_neg (by omega), h1, if_neg (by omega),
      hClear _ (by omega) (by omega)]
    exact hZero), h4, h3, h2, h1]
  split_ifs <;> first | omega | rfl

/-- **The page tables of the boot code.** -/
theorem headTables_boot {p : Nat} (hp : p + 67 ≤ 2 ^ 20) (mem : Memory) (a : Nat) :
    BootTables p a a (headTables (BitVec.ofNat 32 (4096 * p)) mem) := by
  have hPml4 : BitVec.ofNat 32 (4096 * p) = BitVec.ofNat 32 (8 * (512 * p)) := by
    congr 1
    omega
  have hPd : BitVec.ofNat 32 (4096 * p) + 0x2000#32 = BitVec.ofNat 32 (8 * (512 * (p + 2))) := table_address p 2 0
  have hPt : BitVec.ofNat 32 (4096 * p) + 0x3000#32 = BitVec.ofNat 32 (8 * (512 * (p + 3))) := table_address p 3 0
  have hStosl : ∀ r, 512 * p ≤ r → r < 512 * (p + 4) →
      quad (repStosl 0#32 (4096 * 4 / 4) (BitVec.ofNat 32 (4096 * p)) mem) r = 0#64 := by
    intro r hr hr'
    rw [hPml4, show 4096 * 4 / 4 = 2 * 2048 by decide, repStosl_quad (by omega), if_pos (by omega)]
  have hTop := headTop_quad hp hStosl
  have hQuad : ∀ r, quad (headTables (BitVec.ofNat 32 (4096 * p)) mem) r =
      if 512 * (p + 3) ≤ r ∧ r < 512 * (p + 3) + 32768 then bootEntry (r - 512 * (p + 3))
      else if 512 * (p + 2) ≤ r ∧ r < 512 * (p + 2) + 64 then bootEntry (p + 3 + (r - 512 * (p + 2)))
      else quad (headTop (BitVec.ofNat 32 (4096 * p))
        (repStosl 0#32 (4096 * 4 / 4) (BitVec.ofNat 32 (4096 * p)) mem)) r := by
    intro r
    unfold headTables
    simp only [hPd, hPt, entry_or (show p + 3 < 2 ^ 20 by omega)]
    rw [show 512 * numPt = 32768 from rfl, show numPt = 64 from rfl,
      show 3#32 = BitVec.ofNat 32 (0 * 4096 + 3) from rfl,
      headPt_quad (by omega) (by omega), Nat.zero_add,
      headPd_quad (k := 0) (by omega) (by omega) (fun r hr hr' => by
        rw [hTop, if_neg (by omega), if_neg (by omega), if_neg (by omega)]
        exact hStosl r (by omega) (by omega))]
    rfl
  generalize hMem : headTables (BitVec.ofNat 32 (4096 * p)) mem = tables at hQuad ⊢
  refine ⟨fun i hi => ?_, fun i hi => ?_, fun i hi => ?_, fun x hx => ?_⟩
  · rw [← quad_frame tables p hi, hQuad, if_neg (by omega), if_neg (by omega), hTop, hStosl _ (by omega) (by omega)]
    split_ifs <;> first | omega | rfl
  · rw [← quad_frame tables (p + 1) hi, hQuad, if_neg (by omega), if_neg (by omega), hTop,
      hStosl _ (by omega) (by omega)]
    split_ifs <;> first | omega | rfl
  · rw [← quad_frame tables (p + 2) hi, hQuad, if_neg (by omega)]
    by_cases hLow : i < 64
    · rw [if_pos (by omega), if_pos hLow]
      exact congrArg bootEntry (by omega)
    · rw [if_neg (by omega), if_neg hLow, hTop, if_neg (by omega), if_neg (by omega), if_neg (by omega),
        hStosl _ (by omega) (by omega)]
  · rw [← quad_frame tables (p + 3 + x / 512) (Nat.mod_lt x (by decide)), hQuad, if_pos (by omega), if_neg (by omega)]
    exact congrArg bootEntry (by omega)

/-! ## The mapping -/

theorem entryChild_bootEntry {f : Nat} (hf : f < 2 ^ 40) : entryChild (bootEntry f) = some f := by
  have hNat : (bootEntry f).toNat = f * 4096 + 3 := by
    rw [bootEntry, BitVec.toNat_ofNat, Nat.mod_eq_of_lt (by omega)]
  refine entryChild_eq_some.mpr ⟨(ptePresent_iff _).mpr (by omega), ?_⟩
  rw [entryFrame, hNat]
  omega

/-- A machine that runs on the boot tables. -/
structure BootMachine (p a b : Nat) (s : Machine) : Prop where
  fits : p + 67 ≤ 2 ^ 20
  root : s.root = p
  tables : BootTables p a b s.mem

namespace BootMachine

variable {p a b : Nat} {s : Machine}

theorem recursive (h : BootMachine p a b s) : entryChild (s.mem s.root 511) = some s.root := by
  have hFits := h.fits
  rw [h.root, h.tables.pml4 511 (by decide), if_neg (by decide), if_pos rfl, entryChild_bootEntry (by omega)]

/-- The PML4 entries 0 and 256 lead to the same PDPT, and the others but the last one nowhere. -/
theorem pml4_child (h : BootMachine p a b s) {i : Nat} (hi : i < 511) :
    entryChild (s.mem p i) = if i = 0 ∨ i = 256 then some (p + 1) else none := by
  have hFits := h.fits
  rw [h.tables.pml4 i (by omega), if_neg (show ¬ i = 511 by omega)]
  split
  · exact entryChild_bootEntry (by omega)
  · rfl

theorem pdpt_child (h : BootMachine p a b s) {i : Nat} (hi : i < 512) :
    entryChild (s.mem (p + 1) i) = if i = 0 then some (p + 2) else none := by
  have hFits := h.fits
  rw [h.tables.pdpt i hi]
  split
  · exact entryChild_bootEntry (by omega)
  · rfl

theorem pd_child (h : BootMachine p a b s) {i : Nat} (hi : i < 512) :
    entryChild (s.mem (p + 2) i) = if i < 64 then some (p + 3 + i) else none := by
  have hFits := h.fits
  rw [h.tables.pd i hi]
  split
  · exact entryChild_bootEntry (by omega)
  · rfl

/-- The tables, by their paths. -/
theorem table_cases (h : BootMachine p a b s) {q : List Nat} {f : Nat} (hLen : q.length ≤ 3) (hIdx : ∀ i ∈ q, i < 512)
    (hHead : ∀ i ∈ q.head?, i < 511) (hf : s.table q = some f) :
    q = [] ∧ f = p ∨ ∃ i, (i = 0 ∨ i = 256) ∧ (q = [i] ∧ f = p + 1 ∨ q = [i, 0] ∧ f = p + 2 ∨
      ∃ k, k < 64 ∧ q = [i, 0, k] ∧ f = p + 3 + k) := by
  rw [Machine.table, h.root] at hf
  cases q with
  | nil => exact .inl ⟨rfl, (Option.some.inj hf).symm⟩
  | cons i q =>
      obtain ⟨g1, hg1, hf1⟩ := descend_cons_eq_some.mp hf
      rw [h.pml4_child (hHead i rfl), Option.ite_none_right_eq_some] at hg1
      obtain ⟨hi, hg1⟩ := hg1
      cases hg1
      refine .inr ⟨i, hi, ?_⟩
      cases q with
      | nil => exact .inl ⟨rfl, (Option.some.inj hf1).symm⟩
      | cons j q =>
          obtain ⟨g2, hg2, hf2⟩ := descend_cons_eq_some.mp hf1
          rw [h.pdpt_child (hIdx j (by simp)), Option.ite_none_right_eq_some] at hg2
          obtain ⟨hj, hg2⟩ := hg2
          cases hg2
          subst hj
          cases q with
          | nil => exact .inr (.inl ⟨rfl, (Option.some.inj hf2).symm⟩)
          | cons k q =>
              obtain ⟨g3, hg3, hf3⟩ := descend_cons_eq_some.mp hf2
              rw [h.pd_child (hIdx k (by simp)), Option.ite_none_right_eq_some] at hg3
              obtain ⟨hk, hg3⟩ := hg3
              cases hg3
              obtain rfl : q = [] := by
                cases q with
                | nil => rfl
                | cons l q =>
                    simp only [List.length_cons] at hLen
                    omega
              exact .inr (.inr ⟨k, hk, rfl, (Option.some.inj hf3).symm⟩)

/-- The page table of a page of the first 128 megabytes, in one of the halves. -/
theorem table_low (h : BootMachine p a b s) {v x : Nat} (hv : v = x ∨ v = 256 * 2 ^ 27 + x) (hx : x < 32768) :
    s.table (pagePath v) = some (p + 3 + x / 512) := by
  have hPath : pagePath v = [v / 2 ^ 27 % 512, 0, x / 512] := by
    simp only [pagePath, List.cons.injEq, and_true, true_and]
    omega
  rw [Machine.table, h.root, hPath, descend_cons_of_child (g := p + 1) (by
      rw [h.pml4_child (by omega), if_pos (by omega)]),
    descend_cons_of_child (g := p + 2) (by rw [h.pdpt_child (by decide), if_pos rfl]),
    descend_cons_of_child (g := p + 3 + x / 512) (by rw [h.pd_child (by omega), if_pos (by omega)]), descend_nil]

/-- The pages that are mapped: the first 128 megabytes but for those of the gap, in both halves. -/
theorem page_eq (h : BootMachine p a b s) {v x : Nat} (hv : v = x ∨ v = 256 * 2 ^ 27 + x) (hx : x < 2 ^ 27) :
    s.page v = if x < 32768 ∧ ¬ (a ≤ x ∧ x < b) then some (bootEntry x) else none := by
  by_cases hLow : x < 32768
  · have hPresent : ptePresent (bootEntry x) = true := (entryChild_eq_some.mp (entryChild_bootEntry (by omega))).1
    rw [page_eq_of_table (h.table_low hv hLow), show v % 512 = x % 512 by omega, h.tables.pt x hLow]
    by_cases hGap : a ≤ x ∧ x < b
    · rw [if_pos hGap, if_neg (show ¬ (x < 32768 ∧ ¬ (a ≤ x ∧ x < b)) from fun hNot => hNot.2 hGap)]
      rfl
    · rw [if_neg hGap, if_pos hPresent, if_pos ⟨hLow, hGap⟩]
  · rw [if_neg (fun hNot => hLow hNot.1)]
    refine page_eq_none_of_table ?_
    cases hf : s.table (pagePath v) with
    | none => rfl
    | some f =>
        exfalso
        rcases h.table_cases (by simp [pagePath])
          (fun i hi => (tablePath_pagePath (H := fun _ => True) trivial).2.1 i hi) (fun i hi => by
            simp only [pagePath, List.head?_cons, Option.mem_def, Option.some.injEq] at hi
            omega) hf with
          ⟨hPath, -⟩ | ⟨i, -, ⟨hPath, -⟩ | ⟨hPath, -⟩ | ⟨k, hk, hPath, -⟩⟩
        · simp [pagePath] at hPath
        · simp [pagePath] at hPath
        · simp [pagePath] at hPath
        · simp only [pagePath, List.cons.injEq, and_true] at hPath
          omega

/-- Nothing else is mapped below the last PML4 entry. -/
theorem page_none (h : BootMachine p a b s) {v : Nat} (hHead : pageHead v < 511) (h0 : pageHead v ≠ 0)
    (h256 : pageHead v ≠ 256) : s.page v = none := by
  refine page_eq_none_of_table ?_
  rw [Machine.table, h.root, pagePath]
  refine descend_cons_of_none ?_
  have hChild := h.pml4_child hHead
  rwa [if_neg (not_or.mpr ⟨h0, h256⟩)] at hChild

/-- Unmapping the first page behind the gap. -/
theorem unmap (h : BootMachine p a b s) (hab : a ≤ b) (hb : b < 32768) :
    BootMachine p a (b + 1) (s.write (p + 3 + b / 512) (b % 512) 0#64) where
  fits := h.fits
  root := h.root
  tables := by
    refine ⟨fun i hi => ?_, fun i hi => ?_, fun i hi => ?_, fun x hx => ?_⟩
    · exact (writeWord_other _ _ (by omega)).trans (h.tables.pml4 i hi)
    · exact (writeWord_other _ _ (by omega)).trans (h.tables.pdpt i hi)
    · exact (writeWord_other _ _ (by omega)).trans (h.tables.pd i hi)
    · show writeWord s.mem _ _ _ _ _ = _
      by_cases hEq : x = b
      · subst hEq
        rw [writeWord_same, if_pos (by omega)]
      · rw [writeWord_other _ _ (by omega), h.tables.pt x hx]
        by_cases hIn : a ≤ x ∧ x < b
        · rw [if_pos hIn, if_pos (by omega)]
        · rw [if_neg hIn, if_neg (by omega)]

end BootMachine

/-- Between the two states only memory has been written to. -/
def OnlyMemory (s s' : Machine) : Prop := s' = { s with mem := s'.mem, storeLog := s'.storeLog }

theorem OnlyMemory.trans {s t u : Machine} (h : OnlyMemory s t) (h' : OnlyMemory t u) : OnlyMemory s u := by
  unfold OnlyMemory at h h' ⊢
  rw [h', h]

/-- A round of `unmap_page_range` at a mapped page clears its entry and goes on. -/
theorem unmapPageRangeFrom_some {s : Machine} (hRec : entryChild (s.mem s.root 511) = some s.root) (n : Nat)
    (i va : U64) {e : U64} {f : Nat} (hPage : s.page (vpn va) = some e) (hTable : s.table (pagePath (vpn va)) = some f) :
    unmapPageRangeFrom (n + 1) i va s =
      unmapPageRangeFrom n (i + 1#64) (va + 0x1000#64) (s.write f (vpn va % 512) 0#64) := by
  obtain ⟨f', hf', hEntry, hPresent⟩ := table_of_page hPage
  obtain rfl : f' = f := Option.some.inj (hf'.symm.trans hTable)
  have hf3 : s.table (tablePath va 3) = some f' := by
    rw [tablePath_three]
    exact hTable
  -- every level on the way to a mapped page is present
  have hLevel : ∀ level, level ≤ 2 → ∃ t, s.table (tablePath va level) = some t ∧
      ptePresent (s.mem t (levelIdx va level).toNat) = true := by
    intro level hl
    obtain ⟨t, ht⟩ := descend_isPrefix
      (List.take_prefix_take_left (l := walkPath va) (show level ≤ 3 by omega)) hf3
    obtain ⟨u, hu⟩ := descend_isPrefix
      (List.take_prefix_take_left (l := walkPath va) (show level + 1 ≤ 3 by omega)) hf3
    refine ⟨t, ht, ?_⟩
    have hNext := table_next va hl ht
    rw [Machine.table, tablePath, hu] at hNext
    exact (entryChild_eq_some.mp hNext.symm).1
  obtain ⟨t0, ht0, hp0⟩ := hLevel 0 (by decide)
  obtain ⟨t1, ht1, hp1⟩ := hLevel 1 (by decide)
  obtain ⟨t2, ht2, hp2⟩ := hLevel 2 (by decide)
  rw [← ptIdx_eq] at hEntry ⊢
  rw [unmapPageRangeFrom, bind_ok (load64_pml4e hRec va ht0)]
  simp only [hp0, Bool.not_true, Bool.false_eq_true, if_false]
  rw [bind_ok (load64_pdpte hRec va ht1)]
  simp only [hp1, Bool.not_true, Bool.false_eq_true, if_false]
  rw [bind_ok (load64_pde hRec va ht2)]
  simp only [hp2, Bool.not_true, Bool.false_eq_true, if_false]
  rw [bind_ok (load64_pte hRec va hf3)]
  simp only [show s.mem f' (levelIdx va 3).toNat = e from hEntry, hPresent, if_true]
  exact bind_ok (store64_level hRec va 0#64 3 (by decide) hf3)

/-- The loop of `unmap_page_range` on the boot tables, from the end of the gap on: it stops at the end of the 128
megabytes at the latest. -/
theorem unmapPageRangeFrom_boot {p a : Nat} :
    ∀ (n : Nat) (i va : U64) (s : Machine) (b : Nat), BootMachine p a b s → a ≤ b → b ≤ 32768 →
      vpn va = 256 * 2 ^ 27 + b →
      ∃ ret s', unmapPageRangeFrom n i va s = .ok ret s' ∧ BootMachine p a (min (b + n) 32768) s' ∧ OnlyMemory s s' := by
  intro n
  induction n with
  | zero =>
      intro i va s b h _ hb _
      refine ⟨intOfSize i, s, rfl, ?_, rfl⟩
      rw [Nat.add_zero, Nat.min_eq_left hb]
      exact h
  | succ n ih =>
      intro i va s b h hab hb hva
      by_cases hEnd : b = 32768
      · have hNone : s.page (vpn va) = none := by
          rw [h.page_eq (.inr hva) (by omega), if_neg (by omega)]
        refine ⟨intOfSize i, s, unmapPageRangeFrom_none h.recursive n i va hNone, ?_, rfl⟩
        rw [Nat.min_eq_right (by omega), ← hEnd]
        exact h
      · have hLow : b < 32768 := by omega
        have hPage : s.page (vpn va) = some (bootEntry b) := by
          rw [h.page_eq (.inr hva) (by omega), if_pos (by omega)]
        have hTable := h.table_low (.inr hva) hLow
        obtain ⟨s1, hStep, hMachine, hOnly⟩ : ∃ s1,
            unmapPageRangeFrom (n + 1) i va s = unmapPageRangeFrom n (i + 1#64) (va + 0x1000#64) s1 ∧
              BootMachine p a (b + 1) s1 ∧ OnlyMemory s s1 := by
          refine ⟨_, unmapPageRangeFrom_some h.recursive n i va hPage hTable, ?_, rfl⟩
          rw [hva, show (256 * 2 ^ 27 + b) % 512 = b % 512 by omega]
          exact h.unmap hab hLow
        obtain ⟨ret, s', hRun, hBoot, hRest⟩ := ih (i + 1#64) (va + 0x1000#64) s1 (b + 1) hMachine (by omega)
          (by omega) (by rw [vpn_next (by omega), hva]; omega)
        refine ⟨ret, s', hStep.trans hRun, ?_, hOnly.trans hRest⟩
        rw [show b + (n + 1) = b + 1 + n by omega]
        exact hBoot

/-! ## `page_init` -/

/-- `VIRT_OFFSET`. -/
def virtOffset : U64 := 0xffff800000000000#64

/-- `_kernel_virt_end_aligned`. -/
def KernelImage.kernelVirtEndAligned (image : KernelImage) : U64 := image.kernelPhysEndAligned + virtOffset

/-- `BOOTMAP_LEN`: 16 megabytes, where `head.S` maps 128. -/
def bootmapLen : U64 := 0x1000000#64

/-- `page_init`. -/
def pageInit (image : KernelImage) (totalMem : U64) : KernelM Unit := do
  let bitmapBytes := bitmapDataBytes (pageInitBits totalMem)
  modify fun s => { s with pageAllocBitmap := pageInitBitmap image totalMem }
  let _ ← unmapPageRange (image.kernelVirtEndAligned + bitmapBytes)
    ((bootmapLen - image.kernelPhysEndAligned - bitmapBytes) >>> pageShift)

/-- The path to a table in the lower half, by its number. -/
def bootPath : Nat → List Nat
  | 0 => []
  | 1 => [0]
  | 2 => [0, 0]
  | k + 3 => [0, 0, k]

/-- Below the PML4 entries other than 256 there is one path to each table. -/
theorem BootMachine.table_path {p a b : Nat} {s : Machine} (h : BootMachine p a b s) {q : List Nat} {f : Nat}
    (hq : TablePath kernelHead q) (hf : s.table q = some f) : q = bootPath (f - p) := by
  rcases h.table_cases hq.1 hq.2.1 (fun i hi => (hq.2.2 i hi).1) hf with ⟨rfl, rfl⟩ | ⟨i, hi, hTable⟩
  · rw [Nat.sub_self]
    rfl
  · have hLow : ∀ l, q = i :: l → i = 0 := by
      rintro l rfl
      exact hi.resolve_right (hq.2.2 i rfl).2
    rcases hTable with ⟨hPath, rfl⟩ | ⟨hPath, rfl⟩ | ⟨k, hk, hPath, rfl⟩
    · rw [Nat.add_sub_cancel_left, hPath, hLow _ hPath]
      rfl
    · rw [Nat.add_sub_cancel_left, hPath, hLow _ hPath]
      rfl
    · rw [show p + 3 + k - p = k + 3 by omega, hPath, hLow _ hPath]
      rfl

theorem BootMachine.tableOk {p a b : Nat} {s : Machine} (h : BootMachine p a b s) : TableOk kernelHead s where
  recursive := h.recursive
  notRecursive := fun hHead => absurd hHead.1 (by decide)
  tree := fun _ _ _ hq hq' hf hf' => (h.table_path hq hf).trans (h.table_path hq' hf').symm

/-- The frames of the tables. -/
theorem BootMachine.table_lt {p a b : Nat} {s : Machine} (h : BootMachine p a b s) {q : List Nat} {f : Nat}
    (hq : TablePath (· < 511) q) (hf : s.table q = some f) : f < p + 67 := by
  rcases h.table_cases hq.1 hq.2.1 hq.2.2 hf with ⟨-, hEq⟩ | ⟨i, -, ⟨-, hEq⟩ | ⟨-, hEq⟩ | ⟨k, hk, -, hEq⟩⟩ <;> omega

theorem kernelHead_of_kmem (i : Nat) (hi : kmemHead i) : kernelHead i := by
  unfold kernelHead kmemHead at *
  omega

/-- What `mm_init` relies on, from the boot tables. -/
theorem BootMachine.kernelBoot {p a b : Nat} {s : Machine} (h : BootMachine p a b s) {image : KernelImage}
    {totalMem : U64}
    (hBitmap : s.pageAllocBitmap = pageInitBitmap image totalMem) (hSmall : (pageInitBits totalMem).toNat < 2 ^ 31)
    (hReserved : p + 67 ≤ reservedFrames image totalMem) (hLog : s.allocLog = []) (hAreas : s.vmapAreaList = []) :
    KernelBoot image totalMem s ∧ KmemOk kernelHead (pageInitBits totalMem).toNat [] [] s := by
  have hEnough : reservedFrames image totalMem ≤ (pageInitBits totalMem).toNat := Nat.min_le_left _ _
  have hBelow : ∀ i, kernelHead i → i < 511 := fun i hi => hi.1
  have hTable : ∀ q f, TablePath kernelHead q → s.table q = some f → f < reservedFrames image totalMem := by
    intro q f hq hf
    exact lt_of_lt_of_le (h.table_lt (hq.mono hBelow) hf) hReserved
  have hUnmapped : ∀ f, f < 2 ^ 31 → s.page (kmemPage f) = none := by
    intro f hf
    have hHead := kmemPage_head hf
    unfold kmemHead at hHead
    exact h.page_none (by omega) (by omega) (by omega)
  refine ⟨⟨hBitmap, hSmall, by omega, ⟨h.recursive, fun hHead => absurd hHead.2 (by decide), ?_⟩, ?_, hUnmapped, hLog,
    hAreas⟩, ⟨kernelHead_of_kmem, ⟨?_, by omega, hSmall, h.tableOk, ?_, by simp, by simp, by simp, by simp, by simp⟩,
    by simp, fun f hf _ => hUnmapped f hf⟩⟩
  · intro q q' f hq hq'
    exact h.tableOk.tree q q' f (hq.mono kernelHead_of_kmem) (hq'.mono kernelHead_of_kmem)
  · intro q f hq hf
    exact hTable q f (hq.mono kernelHead_of_kmem) hf
  · rw [hBitmap, pageInitBitmap_size]
  · intro q f hq hf _
    rw [hBitmap, pageInitBitmap_bit, decide_eq_true_eq]
    exact hTable q f hq hf

/-- The end of the bitmap, in pages. -/
theorem pageInitUsed_small (image : KernelImage) {totalMem : U64}
    (hFits : image.kernelPhysEndAligned.toNat + (bitmapDataBytes (pageInitBits totalMem)).toNat ≤ 0x8000000) :
    (pageInitBits totalMem).toNat < 2 ^ 31 ∧ (bitmapDataBytes (pageInitBits totalMem)).toNat % 4096 = 0 ∧
      (pageInitUsed image totalMem).toNat * 4096 =
        image.kernelPhysEndAligned.toNat + (bitmapDataBytes (pageInitBits totalMem)).toNat ∧
      ((pageInitBits totalMem).toNat + 63) / 64 * 8 ≤ (bitmapDataBytes (pageInitBits totalMem)).toNat := by
  have hAligned := image.aligned
  have hBits : (pageInitBits totalMem).toNat < 2 ^ 52 := by
    have hLt := (alignUp totalMem pageSize).isLt
    rw [pageInitBits, BitVec.toNat_ushiftRight, pageShift, Nat.shiftRight_eq_div_pow]
    omega
  have hShift : (pageInitBits totalMem >>> 3).toNat = (pageInitBits totalMem).toNat / 8 := by
    rw [BitVec.toNat_ushiftRight, Nat.shiftRight_eq_div_pow]
  have hBytes : (bitmapDataBytes (pageInitBits totalMem)).toNat =
      ((pageInitBits totalMem).toNat / 8 / 4096 + 1) * 4096 := by
    rw [bitmapDataBytes, alignUp_page_toNat (by rw [hShift]; omega), hShift]
  have hSmall : (pageInitBits totalMem).toNat < 2 ^ 31 := by omega
  refine ⟨hSmall, by omega, ?_, by omega⟩
  rw [pageInitUsed_toNat image hSmall]
  omega

/-- A machine whose table frames hold what `head.S` has written. -/
theorem bootMachine_start {p : Nat} (hp : p + 67 ≤ 2 ^ 20) {s : Machine} {mem : Memory}
    (hTables : ∀ f, p ≤ f → f < p + 67 → s.mem f = headTables (BitVec.ofNat 32 (4096 * p)) mem f)
    (hCr3 : s.cr3 = BitVec.ofNat 64 (4096 * p)) (a : Nat) : BootMachine p a a s := by
  have hHead := headTables_boot hp mem a
  refine ⟨hp, ?_, fun i hi => ?_, fun i hi => ?_, fun i hi => ?_, fun x hx => ?_⟩
  · rw [Machine.root, hCr3, entryFrame, BitVec.toNat_ofNat]
    omega
  · exact (congrFun (hTables p (by omega) (by omega)) i).trans (hHead.pml4 i hi)
  · exact (congrFun (hTables (p + 1) (by omega) (by omega)) i).trans (hHead.pdpt i hi)
  · exact (congrFun (hTables (p + 2) (by omega) (by omega)) i).trans (hHead.pd i hi)
  · exact (congrFun (hTables (p + 3 + x / 512) (by omega) (by omega)) (x % 512)).trans (hHead.pt x hx)

/-- `page_init` returns, with the tables of `head.S` less the pages behind the bitmap. -/
theorem pageInit_run {image : KernelImage} {totalMem : U64} {s : Machine} {p : Nat} {mem : Memory}
    (hTables : ∀ f, p ≤ f → f < p + 67 → s.mem f = headTables (BitVec.ofNat 32 (4096 * p)) mem f)
    (hCr3 : s.cr3 = BitVec.ofNat 64 (4096 * p))
    (hImage : (p + 67) * 4096 ≤ image.kernelPhysEndAligned.toNat)
    (hMemory : image.kernelPhysEndAligned.toNat ≤ (pageInitBits totalMem).toNat * 4096)
    (hFits : image.kernelPhysEndAligned.toNat + (bitmapDataBytes (pageInitBits totalMem)).toNat ≤ 0x8000000)
    (hLog : s.allocLog = []) (hAreas : s.vmapAreaList = []) :
    ∃ s', pageInit image totalMem s = .ok () s' ∧ KernelBoot image totalMem s' ∧
      KmemOk kernelHead (pageInitBits totalMem).toNat [] [] s' ∧
      BootMachine p (pageInitUsed image totalMem).toNat
        (if (pageInitUsed image totalMem).toNat ≤ 4096 then 4096 else 32768) s' := by
  obtain ⟨hSmall, hPages, hUsed, -⟩ := pageInitUsed_small image hFits
  have hAligned := image.aligned
  generalize hEnd : (pageInitUsed image totalMem).toNat = e at hUsed ⊢
  have hp : p + 67 ≤ 2 ^ 20 := by omega
  let s0 : Machine := { s with pageAllocBitmap := pageInitBitmap image totalMem }
  have hStart : BootMachine p e e s0 := @bootMachine_start p hp s0 mem hTables hCr3 e
  have hVpn : vpn (image.kernelVirtEndAligned + bitmapDataBytes (pageInitBits totalMem)) = 256 * 2 ^ 27 + e := by
    rw [vpn, KernelImage.kernelVirtEndAligned, virtOffset, BitVec.toNat_add, BitVec.toNat_add, BitVec.toNat_ofNat]
    omega
  have hLen : ((bootmapLen - image.kernelPhysEndAligned - bitmapDataBytes (pageInitBits totalMem)) >>>
      pageShift).toNat = if e ≤ 4096 then 4096 - e else 2 ^ 52 - (e - 4096) := by
    rw [BitVec.toNat_ushiftRight, pageShift, Nat.shiftRight_eq_div_pow, BitVec.toNat_sub, BitVec.toNat_sub, bootmapLen,
      BitVec.toNat_ofNat]
    split <;> omega
  have hGap : min (e + ((bootmapLen - image.kernelPhysEndAligned - bitmapDataBytes (pageInitBits totalMem)) >>>
      pageShift).toNat) 32768 = if e ≤ 4096 then 4096 else 32768 := by
    rw [hLen]
    split
    · rw [Nat.min_eq_left (by omega)]
      omega
    · exact Nat.min_eq_right (by omega)
  obtain ⟨ret, s', hRun, hBoot, hOnly⟩ := unmapPageRangeFrom_boot
    ((bootmapLen - image.kernelPhysEndAligned - bitmapDataBytes (pageInitBits totalMem)) >>> pageShift).toNat 0#64
    (image.kernelVirtEndAligned + bitmapDataBytes (pageInitBits totalMem)) s0 e hStart le_rfl (by omega) hVpn
  rw [hGap] at hBoot
  have hBitmap : s'.pageAllocBitmap = pageInitBitmap image totalMem := by rw [hOnly]
  have hReserved : p + 67 ≤ reservedFrames image totalMem := by
    rw [reservedFrames, hEnd]
    omega
  obtain ⟨hKernel, hKmem⟩ := hBoot.kernelBoot hBitmap hSmall hReserved (by rw [hOnly]; exact hLog) (by
    rw [hOnly]
    exact hAreas)
  refine ⟨s', ?_, hKernel, hKmem, hBoot⟩
  have hSet : (modify fun s => { s with pageAllocBitmap := pageInitBitmap image totalMem } : KernelM Unit) s =
      .ok () s0 := rfl
  have hUnmap : unmapPageRange (image.kernelVirtEndAligned + bitmapDataBytes (pageInitBits totalMem))
      ((bootmapLen - image.kernelPhysEndAligned - bitmapDataBytes (pageInitBits totalMem)) >>> pageShift) s0 =
        .ok ret s' := hRun
  unfold pageInit
  rw [bind_ok hSet, bind_ok hUnmap]
  rfl

/-- **From `head.S` to `mm_init`.**  The kernel runs on the page tables that `head.S` has written into its image, and
the bitmap fits the memory that they map.  Then `page_init` returns, `mm_init` and the address spaces find the state that
they rely on, and the pages that are mapped are known.  They are the same in both halves: those up to the end of the
bitmap, and behind `BOOTMAP_LEN` those up to 128 megabytes, unless the bitmap ends behind `BOOTMAP_LEN`, where the
length to unmap wraps and all of them go. -/
theorem pageInit_boot {image : KernelImage} {totalMem : U64} {s : Machine} {p : Nat} {mem : Memory}
    (hTables : ∀ f, p ≤ f → f < p + 67 → s.mem f = headTables (BitVec.ofNat 32 (4096 * p)) mem f)
    (hCr3 : s.cr3 = BitVec.ofNat 64 (4096 * p))
    (hImage : (p + 67) * 4096 ≤ image.kernelPhysEndAligned.toNat)
    (hMemory : image.kernelPhysEndAligned.toNat ≤ (pageInitBits totalMem).toNat * 4096)
    (hFits : image.kernelPhysEndAligned.toNat + (bitmapDataBytes (pageInitBits totalMem)).toNat ≤ 0x8000000)
    (hLog : s.allocLog = []) (hAreas : s.vmapAreaList = []) :
    ∃ s', pageInit image totalMem s = .ok () s' ∧ KernelBoot image totalMem s' ∧
      KmemOk kernelHead (pageInitBits totalMem).toNat [] [] s' ∧
      image.kernelPhysEndAligned.toNat + ((pageInitBits totalMem).toNat + 63) / 64 * 8 ≤
        (pageInitUsed image totalMem).toNat * 4096 ∧
      (∀ x v, x < 2 ^ 27 → v = x ∨ v = 256 * 2 ^ 27 + x →
        s'.page v = if x < (pageInitUsed image totalMem).toNat ∨
            (pageInitUsed image totalMem).toNat ≤ 4096 ∧ 4096 ≤ x ∧ x < 32768 then some (bootEntry x) else none) ∧
      ∀ v, pageHead v < 511 → pageHead v ≠ 0 → pageHead v ≠ 256 → s'.page v = none := by
  obtain ⟨-, -, hUsed, hWords⟩ := pageInitUsed_small image hFits
  obtain ⟨s', hRun, hKernel, hKmem, hBoot⟩ := pageInit_run hTables hCr3 hImage hMemory hFits hLog hAreas
  refine ⟨s', hRun, hKernel, hKmem, by omega, fun x v hx hv => ?_, fun v => hBoot.page_none⟩
  rw [hBoot.page_eq hv hx]
  refine if_congr ?_ rfl rfl
  split
  · omega
  · omega

/-- An image of three megabytes. -/
def bootImage : KernelImage := ⟨0x300000#64, by decide, by decide⟩

/-- A machine on the tables of `head.S`, which lie behind the first megabyte. -/
def headMachine : Machine :=
  { chainMachine with
    mem := headTables (BitVec.ofNat 32 (4096 * 0x101)) fun _ _ => 0#64
    cr3 := BitVec.ofNat 64 (4096 * 0x101) }

/-- 64 megabytes of memory: the page behind the bitmap is unmapped, and that at 16 megabytes is not. -/
theorem pageInit_boot_64 : ∃ s', pageInit bootImage 0x3fff000#64 headMachine = .ok () s' ∧
    KernelBoot bootImage 0x3fff000#64 s' ∧ s'.page 0x300 = some (bootEntry 0x300) ∧ s'.page 0x301 = none ∧
      s'.page 0x1000 = some (bootEntry 0x1000) := by
  have hMem : headMachine.mem = headTables (BitVec.ofNat 32 (4096 * 0x101)) fun _ _ => 0#64 := by
    simp only [headMachine]
  obtain ⟨s', hRun, hBoot, -, -, hPages, -⟩ := @pageInit_boot bootImage 0x3fff000#64 headMachine 0x101 (fun _ _ => 0#64)
    (fun f _ _ => congrFun hMem f) rfl (by decide) (by decide) (by decide) rfl rfl
  have hUsed : (pageInitUsed bootImage 0x3fff000#64).toNat = 0x301 := by decide
  rw [hUsed] at hPages
  exact ⟨s', hRun, hBoot, (hPages 0x300 0x300 (by decide) (.inl rfl)).trans (if_pos (by decide)),
    (hPages 0x301 0x301 (by decide) (.inl rfl)).trans (if_neg (by decide)),
    (hPages 0x1000 0x1000 (by decide) (.inl rfl)).trans (if_pos (by decide))⟩

end Rayos
