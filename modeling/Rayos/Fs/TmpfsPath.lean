import Mathlib.Data.List.TakeWhile
import Rayos.Fs.TmpfsSpec

/-!
# Paths

The loops over a path stand at a boundary: the part of the path before them ends with a slash, or the part
after them is used up or begins with one.  From there they take the next component, a block of bytes
between slashes.  The length of a component is converted to `int`; `IntSized` is the condition under which
a length that is not refused as too long is the length of the component.
-/

namespace Rayos

open Program CString

namespace Tmpfs

variable {s : Tmpfs}

/-- The number of bytes before the first slash. -/
def blockLen (p : Str) : Nat := (strchr p slash).getD p.length

theorem componentLen_eq (p : Str) : componentLen p = intOfLength (blockLen p) := by
  unfold componentLen blockLen
  cases strchr p slash <;> rfl

/-- The first block has no slash, and a slash or the end of the path follows it. -/
theorem blockLen_spec (p : Str) : blockLen p ≤ p.length ∧ slash ∉ p.take (blockLen p) ∧
    (p.drop (blockLen p) = [] ∨ (p.drop (blockLen p)).head? = some slash) := by
  unfold blockLen
  cases h : strchr p slash with
  | none =>
      rw [Option.getD_none, List.take_length, List.drop_length]
      exact ⟨le_refl _, strchr_eq_none h, Or.inl rfl⟩
  | some i =>
      obtain ⟨hNot, hHead⟩ := strchr_eq_some h
      refine ⟨?_, hNot, Or.inr hHead⟩
      by_contra hLt
      rw [Option.getD_some, not_le] at hLt
      rw [List.drop_eq_nil_of_le hLt.le] at hHead
      cases hHead

theorem blockLen_pos {p : Str} (hp : p ≠ []) (hHead : p.head? ≠ some slash) : 0 < blockLen p := by
  obtain ⟨-, -, hRest⟩ := blockLen_spec p
  by_contra hZero
  rw [Nat.eq_zero_of_not_pos hZero, List.drop_zero] at hRest
  rcases hRest with hNil | hSlash
  · exact hp hNil
  · exact hHead hSlash

/-! ## Lengths as `int` -/

theorem intOfLength_toNat {n : Nat} (h : 0 ≤ intOfLength n) : (intOfLength n).toNat = n % 2 ^ 32 := by
  unfold intOfLength at *
  rw [BitVec.toInt_eq_toNat_cond, BitVec.toNat_ofNat] at *
  split at h
  · rename_i hSmall
    rw [if_pos hSmall, Int.toNat_natCast]
  · have := Nat.mod_lt n (Nat.two_pow_pos 32)
    omega

/-- The length is below `2 ^ 32`, or it is too long for a name also as an `int`. -/
def IntSized (n : Nat) : Prop := n < 2 ^ 32 ∨ fsNameMax.toNat < n % 2 ^ 32

theorem IntSized.intOfLength {n : Nat} (h : IntSized n) (hNonneg : 0 ≤ intOfLength n)
    (hShort : intOfLength n ≤ fsNameMax) : intOfLength n = n := by
  have hMod := intOfLength_toNat hNonneg
  have hLe : n % 2 ^ 32 ≤ fsNameMax.toNat := by omega
  have hSmall : n < 2 ^ 32 := h.resolve_right (by omega)
  rw [Nat.mod_eq_of_lt hSmall] at hMod
  omega

/-! ## Boundaries -/

/-- `b` is a component of the path. -/
def IsComponent (path b : Str) : Prop :=
  slash ∉ b ∧ ∃ before after, path = before ++ b ++ after ∧ before.getLast? = some slash ∧
    (after = [] ∨ after.head? = some slash)

/-- A loop over `path` with `p` before it stands between two components. -/
def AtBoundary (path p : Str) : Prop :=
  ∃ before, path = before ++ p ∧ (before.getLast? = some slash ∨ p = [] ∨ p.head? = some slash)

theorem path_of_badPath {path : Str} (h : badPath path = false) :
    path.head? = some slash ∧ path = slash :: path.drop 1 ∧ path.drop 1 ≠ [] := by
  cases path with
  | nil => simp [badPath] at h
  | cons x p =>
      have hx : x = slash := by
        by_contra hne
        simp [badPath, hne] at h
      refine ⟨by rw [hx]; rfl, by rw [hx]; rfl, ?_⟩
      rintro hp
      rw [List.drop_succ_cons, List.drop_zero] at hp
      simp [badPath, hp] at h

theorem atBoundary_start {path : Str} (h : badPath path = false) : AtBoundary path (path.drop 1) :=
  ⟨[slash], (path_of_badPath h).2.1, Or.inl rfl⟩

theorem skipSlashes_cut (p : Str) :
    ∃ slashes, p = slashes ++ skipSlashes p ∧ skipSlashes slashes = [] ∧
      (slashes = [] ∨ slashes.getLast? = some slash) := by
  have hAll := List.all_eq_true.mp (List.all_takeWhile (l := p) (p := (· == slash)))
  refine ⟨p.takeWhile (· == slash), List.takeWhile_append_dropWhile.symm,
    List.dropWhile_eq_nil_iff.mpr hAll, ?_⟩
  cases hLast : (p.takeWhile (· == slash)).getLast? with
  | none => exact Or.inl (List.getLast?_eq_none_iff.mp hLast)
  | some c =>
      rw [beq_iff_eq.mp (hAll c (List.mem_of_getLast? hLast))]
      exact Or.inr rfl

/-- After the slashes have been skipped, a slash is just before the loop. -/
theorem getLast_skip {before p slashes : Str}
    (hEdge : before.getLast? = some slash ∨ p = [] ∨ p.head? = some slash)
    (hCut : p = slashes ++ skipSlashes p) (hSlashes : slashes = [] ∨ slashes.getLast? = some slash)
    (hp : skipSlashes p ≠ []) : (before ++ slashes).getLast? = some slash := by
  rcases hSlashes with rfl | hLast
  · rw [List.nil_append] at hCut
    rw [List.append_nil]
    rcases hEdge with hSlash | hNil | hHead
    · exact hSlash
    · rw [← hCut] at hp
      exact absurd hNil hp
    · rw [hCut] at hHead
      exact absurd hHead (skipSlashes_head p)
  · rw [List.getLast?_append, hLast]
    rfl

theorem AtBoundary.skip {path p : Str} (h : AtBoundary path p) (hp : skipSlashes p ≠ []) :
    ∃ before, path = before ++ skipSlashes p ∧ before.getLast? = some slash := by
  obtain ⟨before, rfl, hEdge⟩ := h
  obtain ⟨slashes, hCut, -, hSlashes⟩ := skipSlashes_cut p
  exact ⟨before ++ slashes, by rw [List.append_assoc, ← hCut],
    getLast_skip hEdge hCut hSlashes hp⟩

/-- The next block is a component. -/
theorem AtBoundary.isComponent {path p : Str} (h : AtBoundary path p) (hp : skipSlashes p ≠ []) :
    IsComponent path ((skipSlashes p).take (blockLen (skipSlashes p))) := by
  obtain ⟨before, hPath, hLast⟩ := h.skip hp
  obtain ⟨-, hNot, hRest⟩ := blockLen_spec (skipSlashes p)
  refine ⟨hNot, before, (skipSlashes p).drop (blockLen (skipSlashes p)), ?_, hLast, hRest⟩
  rw [List.append_assoc, List.take_append_drop]
  exact hPath

/-- After a component the loop is at a boundary again. -/
theorem AtBoundary.next {path p : Str} (h : AtBoundary path p) (hp : skipSlashes p ≠ []) :
    AtBoundary path ((skipSlashes p).drop (blockLen (skipSlashes p))) := by
  obtain ⟨before, hPath, -⟩ := h.skip hp
  obtain ⟨-, -, hRest⟩ := blockLen_spec (skipSlashes p)
  refine ⟨before ++ (skipSlashes p).take (blockLen (skipSlashes p)), ?_, Or.inr hRest⟩
  rw [List.append_assoc, List.take_append_drop]
  exact hPath

/-- Every component of the path has a length that the conversion to `int` does not make a short one. -/
def ComponentsIntSized (path : Str) : Prop := ∀ b, IsComponent path b → IntSized b.length

theorem componentsIntSized_of_length {path : Str} (h : path.length < 2 ^ 32) :
    ComponentsIntSized path := by
  rintro b ⟨-, before, after, rfl, -⟩
  simp only [List.length_append] at h
  exact Or.inl (by omega)

theorem ComponentsIntSized.componentLen {path p : Str} (h : ComponentsIntSized path)
    (hEdge : AtBoundary path p) (hp : skipSlashes p ≠ [])
    (hNonneg : 0 ≤ componentLen (skipSlashes p)) (hShort : componentLen (skipSlashes p) ≤ fsNameMax) :
    componentLen (skipSlashes p) = blockLen (skipSlashes p) := by
  have hSized := h _ (hEdge.isComponent hp)
  rw [List.length_take, Nat.min_eq_left (blockLen_spec _).1] at hSized
  rw [componentLen_eq] at hNonneg hShort ⊢
  exact hSized.intOfLength hNonneg hShort

/-! ## Looking up a path in two parts -/

theorem skipSlashes_append {p q : Str} (h : skipSlashes p ≠ []) :
    skipSlashes (p ++ q) = skipSlashes p ++ q := by
  unfold skipSlashes at *
  rw [List.dropWhile_append, if_neg (by simpa using h)]

theorem skipSlashes_append_nil {p q : Str} (h : skipSlashes p = []) :
    skipSlashes (p ++ q) = skipSlashes q := by
  unfold skipSlashes at *
  rw [List.dropWhile_append, if_pos (by simpa using h)]

theorem skipSlashes_of_head {p : Str} (h : p.head? ≠ some slash) : skipSlashes p = p := by
  cases p with
  | nil => rfl
  | cons x p => exact List.dropWhile_cons_of_neg (by simpa using h)

/-- There is a boundary between the two parts of a path. -/
def CutAtSlash (before rest : Str) : Prop :=
  before = [] ∨ before.getLast? = some slash ∨ rest = [] ∨ rest.head? = some slash

theorem CutAtSlash.drop {p rest : Str} (h : CutAtSlash p rest) (n : Nat) :
    CutAtSlash (p.drop n) rest := by
  by_cases hLt : n < p.length
  · rcases h with rfl | hLast | hRest
    · exact Or.inl (by simp)
    · refine Or.inr (Or.inl ?_)
      rw [List.getLast?_drop, if_neg (by omega)]
      exact hLast
    · exact Or.inr (Or.inr hRest)
  · exact Or.inl (List.drop_eq_nil_of_le (by omega))

theorem CutAtSlash.skip {p rest : Str} (h : CutAtSlash p rest) : CutAtSlash (skipSlashes p) rest := by
  obtain ⟨slashes, hCut, -, -⟩ := skipSlashes_cut p
  have hDrop : skipSlashes p = p.drop slashes.length := by
    conv_rhs => rw [hCut]
    rw [List.drop_left]
  rw [hDrop]
  exact h.drop _

/-- The first block of a path does not depend on what follows a boundary. -/
theorem blockLen_append {p rest : Str} (hp : p ≠ []) (hCut : CutAtSlash p rest) :
    blockLen (p ++ rest) = blockLen p := by
  unfold blockLen
  cases hFound : strchr p slash with
  | some i => rw [strchr_append hFound, Option.getD_some, Option.getD_some]
  | none =>
      have hNot := strchr_eq_none hFound
      rw [strchr_append_of_not_mem hNot, Option.getD_none]
      rcases hCut with hNil | hLast | hRest | hHead
      · exact absurd hNil hp
      · exact absurd (List.mem_of_getLast? hLast) hNot
      · rw [hRest, List.append_nil]
        rfl
      · cases rest with
        | nil => cases hHead
        | cons x rest =>
            rw [List.head?_cons, Option.some.injEq] at hHead
            rw [strchr, if_pos hHead]
            simp

theorem componentLen_toNat_le (p : Str) : (componentLen p).toNat ≤ p.length := by
  rw [componentLen_eq]
  have hLe := (blockLen_spec p).1
  by_cases hNonneg : 0 ≤ intOfLength (blockLen p)
  · rw [intOfLength_toNat hNonneg]
    exact le_trans (Nat.mod_le _ _) hLe
  · omega

theorem findChild_append {cur : Nat} {p rest : Str} {len : Int} (h : len.toNat ≤ p.length) :
    s.findChild cur (p ++ rest) len = s.findChild cur p len := by
  have hName : s.hasName (p ++ rest) len = s.hasName p len := by
    funext x
    simp only [hasName, List.take_append_of_le_length h]
  simp only [findChild, hName]

/-- One round of `tmpfs_lookup` that finds a child. -/
theorem lookupFrom_child {cur child : Nat} {p : Str} (fuel : Nat) (hp : skipSlashes p ≠ [])
    (hShort : componentLen (skipSlashes p) ≤ fsNameMax)
    (hFind : s.findChild cur (skipSlashes p) (componentLen (skipSlashes p)) = some child) :
    s.lookupFrom (fuel + 1) cur p =
      s.lookupFrom fuel child ((skipSlashes p).drop (componentLen (skipSlashes p)).toNat) := by
  rw [lookupFrom]
  simp only [if_neg hp, if_neg (not_lt.mpr hShort), hFind]

/-- A block that is the name of a child is looked up. -/
theorem lookupFrom_block {cur child : Nat} {p : Str} (hp : p ≠ []) (hHead : p.head? ≠ some slash)
    (hLen : componentLen p = blockLen p) (hShort : componentLen p ≤ fsNameMax)
    (hFind : s.findChild cur p (componentLen p) = some child) :
    s.lookupFrom 2 cur (p.take (blockLen p)) = some (some child) := by
  obtain ⟨hLe, hSlash, hAfter⟩ := blockLen_spec p
  have hPos := blockLen_pos hp hHead
  have hLength : (p.take (blockLen p)).length = blockLen p := by
    rw [List.length_take, Nat.min_eq_left hLe]
  have hSkip : skipSlashes (p.take (blockLen p)) = p.take (blockLen p) :=
    skipSlashes_of_head fun hEq => hSlash (List.mem_of_head? hEq)
  have hNe : p.take (blockLen p) ≠ [] := by
    intro hNil
    rw [hNil, List.length_nil] at hLength
    omega
  have hSame : componentLen (p.take (blockLen p)) = componentLen p := by
    have hBlock : blockLen (p.take (blockLen p) ++ p.drop (blockLen p)) = _ :=
      blockLen_append hNe (Or.inr (Or.inr hAfter))
    rw [List.take_append_drop] at hBlock
    rw [componentLen_eq, ← hBlock, ← componentLen_eq]
  have hToNat : (componentLen p).toNat = blockLen p := by omega
  have hFound : s.findChild cur (p.take (blockLen p)) (componentLen p) = some child := by
    rw [← findChild_append (by omega), List.take_append_drop]
    exact hFind
  have hRound := lookupFrom_child (s := s) (p := p.take (blockLen p)) 1
    (by rw [hSkip]; exact hNe) (by rw [hSkip, hSame]; exact hShort) (by rw [hSkip, hSame]; exact hFound)
  rw [hRound, hSkip, hSame, hToNat, List.drop_eq_nil_of_le (by omega)]
  rfl

/-- A path in two parts is looked up part by part. -/
theorem lookupFrom_append {f f2 cur td : Nat} {before rest : Str} {r : Option Nat}
    (h : s.lookupFrom f cur before = some (some td)) (hCut : CutAtSlash before rest)
    (hRest : s.lookupFrom f2 td rest = some r) :
    s.lookupFrom (f + f2) cur (before ++ rest) = some r := by
  induction f generalizing cur before with
  | zero => cases h
  | succ f ih =>
      rw [lookupFrom] at h
      simp only at h
      by_cases hp : skipSlashes before = []
      · rw [if_pos hp, Option.some.injEq, Option.some.injEq] at h
        subst h
        have hMore := lookupFrom_mono hRest (show f2 ≤ f + f2 + 1 by omega)
        rw [show f + 1 + f2 = f + f2 + 1 by omega]
        rw [lookupFrom] at hMore ⊢
        rw [skipSlashes_append_nil hp]
        exact hMore
      rw [if_neg hp] at h
      split at h
      · cases h
      rename_i hShort
      have hLen : componentLen (skipSlashes before ++ rest) = componentLen (skipSlashes before) := by
        rw [componentLen_eq, componentLen_eq, blockLen_append hp hCut.skip]
      have hToNat := componentLen_toNat_le (skipSlashes before)
      cases hFind : s.findChild cur (skipSlashes before) (componentLen (skipSlashes before)) with
      | none =>
          simp only [hFind] at h
          cases h
      | some child =>
          simp only [hFind] at h
          have hNext := ih h (hCut.skip.drop _)
          rw [← List.drop_append_of_le_length hToNat] at hNext
          rw [show f + 1 + f2 = f + f2 + 1 by omega, lookupFrom_child]
          · rw [skipSlashes_append hp, hLen]
            exact hNext
          · rw [skipSlashes_append hp]
            simp [hp]
          · rw [skipSlashes_append hp, hLen]
            omega
          · rw [skipSlashes_append hp, hLen, findChild_append hToNat]
            exact hFind

theorem lookup_append {f f2 td : Nat} {before rest : Str} {r : Option Nat}
    (h : s.lookup f before = some (some td)) (hCut : CutAtSlash before rest)
    (hRest : s.lookupFrom f2 td rest = some r) : ∃ f', s.lookup f' (before ++ rest) = some r := by
  unfold lookup at h
  split at h
  · cases h
  rename_i hHead
  have hHead := not_not.mp hHead
  cases before with
  | nil => cases hHead
  | cons x p =>
      have hPath : ∀ f', ¬ (x :: p ++ rest).length = 1 → s.lookup f' (x :: p ++ rest) =
          s.lookupFrom f' tmpfsRoot (p ++ rest) := by
        intro f' hLength
        rw [lookup, if_neg (by simpa using hHead), if_neg hLength]
        rfl
      have hCutP : CutAtSlash p rest := hCut.drop 1
      have hFrom : ∃ f', s.lookupFrom f' tmpfsRoot (p ++ rest) = some r := by
        by_cases hOne : (x :: p).length = 1
        · rw [if_pos hOne, Option.some.injEq, Option.some.injEq] at h
          have hp : p = [] := List.length_eq_zero_iff.mp (by simpa using hOne)
          subst hp h
          exact ⟨f2, hRest⟩
        · rw [if_neg hOne] at h
          exact ⟨f + f2, lookupFrom_append h hCutP hRest⟩
      obtain ⟨f', hf'⟩ := hFrom
      by_cases hLength : (x :: p ++ rest).length = 1
      · -- the path is a slash and nothing follows it
        have hNil : p ++ rest = [] := by
          rw [List.cons_append, List.length_cons] at hLength
          exact List.length_eq_zero_iff.mp (by omega)
        refine ⟨f', ?_⟩
        rw [lookup, if_neg (by simpa using hHead), if_pos hLength]
        rw [hNil] at hf'
        cases f' with
        | zero => cases hf'
        | succ f' => exact hf'
      · exact ⟨f', (hPath f' hLength).trans hf'⟩

end Tmpfs

end Rayos
