import Mathlib.Data.List.Find
import Rayos.Fs.TmpfsNames
import Rayos.Fs.TmpfsTree
import Rayos.Fs.TmpfsTypes
import Rayos.Lib.NameTree

/-!
# What a path of the memory file system means

A path means the list of its non-empty components, and a list of names means the node that a walk along it
from the root ends at (`reach`).  `lookupFrom_eq` says that the scanner of `tmpfs_lookup` computes this, for
every spelling of a path and every length of its components: a component that is too long for a name is the
name of no node, whatever length the conversion to `int` gives it.
-/

namespace Rayos

open Program CString Tmpfs NameTree

variable {s s' : Tmpfs}

/-- The non-empty components of a path. -/
def pathNames (path : Str) : List Str := (path.splitOn slash).filter (· ≠ [])

namespace Tmpfs

/-- The child of `p` with the name `b`. -/
def childNamed (s : Tmpfs) (p : Nat) (b : Str) : Option Nat :=
  match s.node p with
  | some d => d.children.find? fun x => (s.node x).any fun e => e.name == b
  | none => none

/-- The node at the end of a walk from the root. -/
def reach (s : Tmpfs) (names : List Str) : Option Nat := follow s.childNamed tmpfsRoot names

/-- The node that a path leads to. -/
def resolve (s : Tmpfs) (path : Str) : Option Nat := s.reach (pathNames path)

end Tmpfs

theorem childNamed_congr (hNode : s'.node = s.node) : s'.childNamed = s.childNamed := by
  funext p b
  simp only [childNamed, hNode]

theorem reach_congr (hNode : s'.node = s.node) (names : List Str) : s'.reach names = s.reach names := by
  rw [reach, reach, childNamed_congr hNode]

/-- Nothing is below a node without children. -/
theorem follow_childless {cur x : Nat} {d : TmpfsDentry} {names : List Str} (hd : s.node cur = some d)
    (hChildren : d.children = []) (h : follow s.childNamed cur names = some x) : names = [] := by
  cases names with
  | nil => rfl
  | cons b names =>
      rw [follow_cons, childNamed, hd] at h
      simp only [hChildren, List.find?_nil, Option.bind_none] at h
      cases h

/-- A tree whose nodes have names that keep them apart. -/
structure NamedTree (s : Tmpfs) : Prop where
  tree : TreeInv s
  names : NameInv s

/-- A file system as it should be: a tree with proper names, in which only directories have children and
only files have data. -/
structure WellFormed (s : Tmpfs) : Prop extends NamedTree s where
  types : TypeInv s

theorem wellFormed_empty (memory : Nat → Bool) : WellFormed (tmpfsEmpty memory) :=
  ⟨⟨treeInv_empty memory, nameInv_empty memory⟩, typeInv_empty memory⟩

theorem WellFormed.mkdir {fuel : Nat} {path : Str} {r : Int} (h : WellFormed s)
    (hSized : ComponentsIntSized path) (hCall : tmpfsMkdir fuel path s = .ok r s') : WellFormed s' :=
  ⟨⟨h.tree.mkdir hCall, h.names.mkdir hSized hCall⟩, h.types.mkdir hCall⟩

theorem NamedTree.quiet (h : NamedTree s) (hQuiet : Quiet s s') : NamedTree s' :=
  ⟨h.tree.quiet hQuiet, h.names.quiet hQuiet⟩

/-! ## Components -/

theorem pathNames_nil : pathNames [] = [] := by
  rw [pathNames, List.splitOn_nil]
  rfl

theorem pathNames_append (p q : Str) : pathNames (p ++ slash :: q) = pathNames p ++ pathNames q := by
  rw [pathNames, List.splitOn_append_cons_self, List.filter_append]
  rfl

theorem pathNames_cons_slash (p : Str) : pathNames (slash :: p) = pathNames p := by
  have h := pathNames_append [] p
  rwa [pathNames_nil, List.nil_append, List.nil_append] at h

theorem pathNames_single {b : Str} (hNe : b ≠ []) (hSlash : slash ∉ b) : pathNames b = [b] := by
  rw [pathNames, List.splitOn_eq_singleton hSlash, List.filter_cons_of_pos (by simpa using hNe),
    List.filter_nil]

theorem pathNames_skipSlashes (p : Str) : pathNames (skipSlashes p) = pathNames p := by
  induction p with
  | nil => rfl
  | cons x p ih =>
      by_cases hx : x = slash
      · rw [hx, pathNames_cons_slash, ← ih]
        rfl
      · rw [skipSlashes_of_head]
        rw [List.head?_cons, ne_eq, Option.some.injEq]
        exact hx

/-- The first component, where the path does not begin with a slash. -/
theorem pathNames_block {p : Str} (hp : p ≠ []) (hHead : p.head? ≠ some slash) :
    pathNames p = p.take (blockLen p) :: pathNames (p.drop (blockLen p)) := by
  obtain ⟨hLe, hSlash, hRest⟩ := blockLen_spec p
  have hPos := blockLen_pos hp hHead
  have hNe : p.take (blockLen p) ≠ [] := by
    intro hNil
    have hLength := congrArg List.length hNil
    rw [List.length_take, Nat.min_eq_left hLe, List.length_nil] at hLength
    omega
  conv_lhs => rw [← List.take_append_drop (blockLen p) p]
  rcases hRest with hNil | hSome
  · rw [hNil, List.append_nil, pathNames_nil, pathNames_single hNe hSlash]
  · obtain ⟨rest, hDrop⟩ : ∃ rest, p.drop (blockLen p) = slash :: rest := by
      cases hDrop : p.drop (blockLen p) with
      | nil =>
          rw [hDrop] at hSome
          cases hSome
      | cons x rest =>
          rw [hDrop, List.head?_cons, Option.some.injEq] at hSome
          exact ⟨rest, by rw [hSome]⟩
    rw [hDrop, pathNames_append, pathNames_single hNe hSlash, pathNames_cons_slash]
    rfl

/-- Bytes without a slash are part of the block before which they stand. -/
theorem blockLen_append_of_not_mem {p q : Str} (h : slash ∉ p) :
    blockLen (p ++ q) = p.length + blockLen q := by
  unfold blockLen
  rw [strchr_append_of_not_mem h]
  cases strchr q slash with
  | none => rw [Option.map_none, Option.getD_none, Option.getD_none, List.length_append]
  | some i =>
      rw [Option.map_some, Option.getD_some, Option.getD_some]
      omega

/-! ## Children by name -/

namespace NamedTree

theorem good_child (h : NamedTree s) {p x : Nat} {d e : TmpfsDentry} (hd : s.node p = some d)
    (hx : x ∈ d.children) (he : s.node x = some e) : GoodName e.name := by
  refine (h.names.names.good x e he fun hRoot => ?_).1
  exact h.tree.tmpfsTree.rootFree p ⟨d, hd, hRoot ▸ hx⟩

theorem childNamed_eq_some (h : NamedTree s) {p x : Nat} {b : Str} :
    s.childNamed p b = some x ↔
      ∃ d e, s.node p = some d ∧ x ∈ d.children ∧ s.node x = some e ∧ e.name = b := by
  unfold childNamed
  cases hd : s.node p with
  | none => simp
  | some d =>
      constructor
      · intro hFind
        have hMem := List.mem_of_find?_eq_some hFind
        have hName := List.find?_some hFind
        obtain ⟨e, he, -⟩ := h.tree.lists.child p d x hd hMem
        rw [he, Option.any_some, beq_iff_eq] at hName
        exact ⟨d, e, rfl, hMem, he, hName⟩
      · rintro ⟨d', e, hEq, hMem, he, hName⟩
        cases hEq
        have hThis : ((s.node x).any fun c => c.name == b) = true := by
          rw [he, Option.any_some, beq_iff_eq]
          exact hName
        cases hFind : d.children.find? fun y => (s.node y).any fun c => c.name == b with
        | none =>
            exact absurd hThis (by simpa using List.find?_eq_none.mp hFind x hMem)
        | some y =>
            have hMemY := List.mem_of_find?_eq_some hFind
            have hNameY := List.find?_some hFind
            obtain ⟨ey, hey, -⟩ := h.tree.lists.child p d y hd hMemY
            rw [hey, Option.any_some, beq_iff_eq] at hNameY
            show (d.children.find? fun y => (s.node y).any fun c => c.name == b) = some x
            rw [hFind, Option.some.injEq]
            -- two children with one name are one child
            by_contra hne
            exact h.names.names.distinct p d y x ey e hd hMemY hMem hne hey he
              (hNameY.trans hName.symm)

theorem live_child (h : NamedTree s) {p x : Nat} {b : Str} (hFind : s.childNamed p b = some x) :
    s.Live x := by
  obtain ⟨-, e, -, -, he, -⟩ := h.childNamed_eq_some.mp hFind
  exact live_iff.mpr ⟨e, he⟩

theorem live_of_reach (h : NamedTree s) {names : List Str} {x : Nat} (hReach : s.reach names = some x) :
    s.Live x :=
  follow_closed (fun _ _ _ _ hy => h.live_child hy) h.tree.lists.rootLive hReach

/-- No child has a name that is too long or empty. -/
theorem childNamed_none (h : NamedTree s) {p : Nat} {b : Str} (hb : ¬ GoodName b) :
    s.childNamed p b = none := by
  cases hFind : s.childNamed p b with
  | none => rfl
  | some x =>
      obtain ⟨d, e, hd, hx, he, rfl⟩ := h.childNamed_eq_some.mp hFind
      exact absurd (h.good_child hd hx he) hb

/-- What the loops search for is the child with the name. -/
theorem findChild_eq (h : NamedTree s) {cur : Nat} {p : Str} {len : Int}
    (hLen : 0 ≤ len ∧ len.toNat ≤ p.length) :
    s.findChild cur p len = s.childNamed cur (p.take len.toNat) := by
  unfold findChild childNamed
  cases hd : s.node cur with
  | none => rfl
  | some d =>
      refine List.find?_congr fun x hx => ?_
      obtain ⟨e, he, -⟩ := h.tree.lists.child cur d x hd hx
      rw [Bool.eq_iff_iff, h.names.hasName_iff he hLen, he, Option.any_some, beq_iff_eq]

/-- No child is found for a length of zero. -/
theorem findChild_zero (h : NamedTree s) (cur : Nat) (p : Str) : s.findChild cur p 0 = none := by
  rw [h.findChild_eq ⟨le_refl _, Nat.zero_le _⟩]
  exact h.childNamed_none fun hGood => hGood.nonempty rfl

end NamedTree

/-! ## The scanner -/

/-- Where the length of a component is not the number it is as an `int`, what is left after that many bytes
has the length 0. -/
theorem componentLen_left {p : Str} (hNonneg : 0 ≤ componentLen p)
    (hNe : componentLen p ≠ blockLen p) :
    p.drop (componentLen p).toNat ≠ [] ∧ (p.drop (componentLen p).toNat).head? ≠ some slash ∧
      componentLen (p.drop (componentLen p).toNat) = 0 := by
  obtain ⟨hLe, hSlash, -⟩ := blockLen_spec p
  rw [componentLen_eq] at hNonneg hNe ⊢
  have hMod := intOfLength_toNat hNonneg
  have hModLe := Nat.mod_le (blockLen p) (2 ^ 32)
  have hLt : (intOfLength (blockLen p)).toNat < blockLen p := by omega
  generalize hk : (intOfLength (blockLen p)).toNat = k at hMod hLt ⊢
  -- the component goes on after `k` bytes
  have hTake : slash ∉ p.take k := fun hMem =>
    hSlash ((List.take_subset_take_left p hLt.le) hMem)
  have hBlock : blockLen p = k + blockLen (p.drop k) := by
    have hCut := blockLen_append_of_not_mem (q := p.drop k) hTake
    rwa [List.take_append_drop, List.length_take, Nat.min_eq_left (by omega)] at hCut
  have hZero : blockLen (p.drop k) % 2 ^ 32 = 0 := by omega
  refine ⟨fun hNil => ?_, fun hHead => ?_, ?_⟩
  · have hLength := congrArg List.length hNil
    rw [List.length_drop, List.length_nil] at hLength
    omega
  · have hNone : blockLen (p.drop k) = 0 := by
      cases hDrop : p.drop k with
      | nil => rfl
      | cons x rest =>
          rw [hDrop, List.head?_cons, Option.some.injEq] at hHead
          rw [blockLen, strchr, if_pos hHead]
          rfl
    omega
  · rw [componentLen_eq, intOfLength, BitVec.toInt_eq_toNat_cond, BitVec.toNat_ofNat, hZero]
    rfl

theorem skipSlashes_length (p : Str) : (skipSlashes p).length ≤ p.length := by
  obtain ⟨slashes, hCut, -, -⟩ := skipSlashes_cut p
  have hLength := congrArg List.length hCut
  rw [List.length_append] at hLength
  omega

/-- The loop of `tmpfs_lookup` follows the components, with as much fuel as the path has bytes. -/
theorem NamedTree.lookupFrom_eq (h : NamedTree s) :
    ∀ {fuel cur : Nat} {p : Str}, p.length < fuel →
      s.lookupFrom fuel cur p = some (follow s.childNamed cur (pathNames p)) := by
  intro fuel
  induction fuel with
  | zero =>
      intro cur p hFuel
      exact absurd hFuel (Nat.not_lt_zero _)
  | succ fuel ih =>
      intro cur p hFuel
      have hSkipLe := skipSlashes_length p
      rw [← pathNames_skipSlashes, lookupFrom]
      simp only
      have hHead := skipSlashes_head p
      generalize skipSlashes p = q at hHead hSkipLe ⊢
      by_cases hq : q = []
      · rw [if_pos hq, hq, pathNames_nil]
        rfl
      rw [if_neg hq, pathNames_block hq hHead, follow_cons]
      obtain ⟨hLe, hSlash, -⟩ := blockLen_spec q
      have hPos := blockLen_pos hq hHead
      have hTakeLength : (q.take (blockLen q)).length = blockLen q := by
        rw [List.length_take, Nat.min_eq_left hLe]
      have hMax : fsNameMax = 255 := rfl
      by_cases hLen : componentLen q = blockLen q
      · have hToNat : (componentLen q).toNat = blockLen q := by omega
        by_cases hLong : componentLen q > fsNameMax
        · rw [if_pos hLong, h.childNamed_none fun hGood => ?_]
          · rfl
          · have hShort := hGood.short
            omega
        · rw [if_neg hLong, h.findChild_eq ⟨by omega, by omega⟩, hToNat]
          cases s.childNamed cur (q.take (blockLen q)) with
          | none => rfl
          | some child =>
              rw [Option.bind_some]
              apply ih
              rw [List.length_drop]
              omega
      · -- the length has changed in the conversion: no child has such a name, and none is found
        have hBig : 2 ^ 31 ≤ blockLen q := by
          by_contra hSmall
          apply hLen
          rw [componentLen_eq, intOfLength, BitVec.toInt_eq_toNat_cond, BitVec.toNat_ofNat,
            Nat.mod_eq_of_lt (by omega), if_pos (by omega)]
        rw [h.childNamed_none fun hGood => ?_, Option.bind_none]
        · split
          · rfl
          cases hFind : s.findChild cur q (componentLen q) with
          | none => rfl
          | some child =>
              have hNonneg := h.tree.lists.componentLen_nonneg hFind
              obtain ⟨hNe, hHead', hZero⟩ := componentLen_left hNonneg hLen
              obtain ⟨fuel, rfl⟩ : ∃ k, fuel = k + 1 := ⟨fuel - 1, by omega⟩
              simp only [lookupFrom, skipSlashes_of_head hHead', if_neg hNe, hZero, h.findChild_zero,
                ite_self]
        · have hShort := hGood.short
          omega

/-- `tmpfs_lookup` of a path that begins with a slash. -/
theorem NamedTree.lookup_eq (h : NamedTree s) {fuel : Nat} {path : Str}
    (hSlash : path.head? = some slash) (hFuel : path.length ≤ fuel) :
    s.lookup fuel path = some (s.resolve path) := by
  cases path with
  | nil => cases hSlash
  | cons x p =>
      rw [List.head?_cons, Option.some.injEq] at hSlash
      rw [hSlash, resolve, reach, pathNames_cons_slash, lookup, if_neg (by simp)]
      by_cases hOne : (slash :: p).length = 1
      · have hp : p = [] := List.length_eq_zero_iff.mp (by simpa using hOne)
        rw [if_pos hOne, hp, pathNames_nil]
        rfl
      · rw [if_neg hOne, List.drop_succ_cons, List.drop_zero]
        apply h.lookupFrom_eq
        rw [List.length_cons] at hFuel
        omega

theorem NamedTree.lookup_ok (h : NamedTree s) {fuel : Nat} {path : Str}
    (hSlash : path.head? = some slash) (hFuel : path.length ≤ fuel) :
    tmpfsLookup fuel path s = .ok (s.resolve path) s := by
  rw [tmpfsLookup, bind_ok (get_apply s)]
  simp only [h.lookup_eq hSlash hFuel]
  rfl

/-- **`tmpfs_lookup` follows components.**  In a well-formed file system the call returns, for every path
that begins with a slash, the node that its non-empty components lead to from the root, and NULL if there is
none.  Paths with the same components are looked up alike, and the test for `"/"` changes nothing. -/
theorem tmpfsLookup_follows (h : WellFormed s) {path : Str} (hSlash : path.head? = some slash)
    {fuel : Nat} (hFuel : path.length ≤ fuel) :
    tmpfsLookup fuel path s = .ok (s.resolve path) s ∧
      (∀ path' : Str, path'.head? = some slash → path'.length ≤ fuel →
        pathNames path' = pathNames path → tmpfsLookup fuel path' s = tmpfsLookup fuel path s) ∧
      s.lookupFrom fuel tmpfsRoot (path.drop 1) = s.lookup fuel path := by
  refine ⟨h.lookup_ok hSlash hFuel, fun path' hSlash' hFuel' hNames => ?_, ?_⟩
  · rw [h.lookup_ok hSlash' hFuel', h.lookup_ok hSlash hFuel, resolve, resolve, hNames]
  · rw [h.lookup_eq hSlash hFuel]
    cases path with
    | nil => cases hSlash
    | cons x p =>
        rw [List.head?_cons, Option.some.injEq] at hSlash
        rw [List.length_cons] at hFuel
        rw [List.drop_succ_cons, List.drop_zero, h.lookupFrom_eq (by omega), resolve, hSlash,
          pathNames_cons_slash]
        rfl

theorem wellFormed_tmpfsAB : WellFormed tmpfsAB := by
  have hCall : tmpfsMkdir 5 pathAB (tmpfsEmpty fun _ => true) = .ok 0 tmpfsAB := eq_ok_of_value (by decide)
  exact (wellFormed_empty _).mkdir (componentsIntSized_of_length (by decide)) hCall

/-- `//a/b/` is looked up. -/
theorem tmpfsLookup_follows_spelled :
    tmpfsLookup 6 (slash :: pathAB ++ [slash]) tmpfsAB = .ok (some 3) tmpfsAB := by
  have hFound : tmpfsAB.resolve (slash :: pathAB ++ [slash]) = some 3 := by decide
  rw [← hFound]
  exact (tmpfsLookup_follows wellFormed_tmpfsAB rfl (by decide)).1

end Rayos
