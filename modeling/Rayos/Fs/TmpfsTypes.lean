import Rayos.Fs.TmpfsPath
import Rayos.Fs.TmpfsRun

/-!
# Files and directories of the memory file system

Only directories have children and only files have data (`TypeInv`), and then no path leads through a file.
`tmpfs_mkdir` and `tmpfs_rename` look at the type of the node below which they put another one.
`tmpfs_creat` does not: it keeps the types when its path does not lead through a file (`KeepsTypes`).
-/

namespace Rayos

open Program CString Tmpfs

variable {s s' : Tmpfs}

/-- The nodes have what their types allow, and a path that goes on after the name of a file is not
found. -/
structure TmpfsTypes (s : Tmpfs) : Prop where
  children : ∀ x d, s.node x = some d → d.children ≠ [] → d.type = .dir
  data : ∀ x d, s.node x = some d → d.data ≠ none → d.type = .file
  through : ∀ fuel fuel' before rest td d x, s.lookup fuel before = some (some td) →
    s.node td = some d → d.type = .file → CutAtSlash before rest → skipSlashes rest ≠ [] →
    s.lookup fuel' (before ++ rest) ≠ some (some x)

/-! ## The invariant -/

/-- Only directories have children and only files have data. -/
structure TypeInv (s : Tmpfs) : Prop where
  lists : ListInv s
  rootDir : ∀ d, s.node tmpfsRoot = some d → d.type = .dir
  children : ∀ x d, s.node x = some d → d.type = .file → d.children = []
  data : ∀ x d, s.node x = some d → d.type = .dir → d.data = none

theorem DentryType.ne_file {type : DentryType} : type ≠ .file ↔ type = .dir := by
  cases type <;> simp

/-- Nothing is found below a node without children. -/
theorem lookupFrom_childless {td : Nat} {d : TmpfsDentry} {p : Str} (hd : s.node td = some d)
    (hChildren : d.children = []) (hp : skipSlashes p ≠ []) : s.lookupFrom 1 td p = some none := by
  have hFind : s.findChild td (skipSlashes p) (componentLen (skipSlashes p)) = none := by
    simp only [findChild, hd, hChildren, List.find?_nil]
  rw [lookupFrom]
  simp only [if_neg hp, hFind, ite_self]

theorem TypeInv.tmpfsTypes (h : TypeInv s) : TmpfsTypes s := by
  refine ⟨fun x d hd hne => ?_, fun x d hd hne => ?_, ?_⟩
  · exact DentryType.ne_file.mp fun hFile => hne (h.children x d hd hFile)
  · by_contra hFile
    exact hne (h.data x d hd (DentryType.ne_file.mp hFile))
  · intro fuel fuel' before rest td d x hBefore hd hFile hCut hRest hFound
    obtain ⟨f, hNone⟩ :=
      lookup_append hBefore hCut (lookupFrom_childless hd (h.children td d hd hFile) hRest)
    cases lookup_unique hFound hNone

theorem typeInv_empty (memory : Nat → Bool) : TypeInv (tmpfsEmpty memory) := by
  refine ⟨listInv_empty memory, fun d h => ?_, fun x d h _ => ?_, fun x d h _ => ?_⟩
  · rw [(tmpfsEmpty_node h).2]
    rfl
  · rw [(tmpfsEmpty_node h).2]
    rfl
  · rw [(tmpfsEmpty_node h).2]
    rfl

theorem TypeInv.quiet (h : TypeInv s) (hQuiet : Quiet s s') : TypeInv s' := by
  refine ⟨h.lists.quiet hQuiet, ?_, ?_, ?_⟩
  · rw [hQuiet.node]
    exact h.rootDir
  · rw [hQuiet.node]
    exact h.children
  · rw [hQuiet.node]
    exact h.data

theorem TypeInv.alloc {cur td : Nat} {p : Str} {type : DentryType} (h : TypeInv s)
    (hStep : AllocStep s s' cur p type td) (hDir : ∀ d, s.node cur = some d → d.type = .dir) :
    TypeInv s' := by
  have hFree : s.node td = none := by rw [hStep.fresh]; exact h.lists.free
  have hNode := fun i e => hStep.node_eq_some (i := i) (e := e) hFree
  refine ⟨h.lists.alloc hStep, fun e he => ?_, fun x e he hType => ?_, fun x e he hType => ?_⟩
  · rcases (hNode _ e).mp he with ⟨hRoot, -⟩ | ⟨d, hd, rfl⟩
    · obtain ⟨d, hd⟩ := Option.isSome_iff_exists.mp h.lists.rootLive
      rw [hRoot, hFree] at hd
      cases hd
    · exact h.rootDir d hd
  · rcases (hNode x e).mp he with ⟨-, rfl⟩ | ⟨d, hd, rfl⟩
    · rfl
    · have hx : x ≠ cur := by
        rintro rfl
        exact absurd hType (by simp [hDir d hd])
      simp only [if_neg hx, List.append_nil]
      exact h.children x d hd hType
  · rcases (hNode x e).mp he with ⟨-, rfl⟩ | ⟨d, hd, rfl⟩
    · rfl
    · exact h.data x d hd hType

theorem TypeInv.remove {td : Nat} {d : TmpfsDentry} (h : TypeInv s) (hStep : RemoveStep s s' td d) :
    TypeInv s' := by
  have hNode := fun i e => hStep.node_eq_some (i := i) (e := e)
  refine ⟨h.lists.remove hStep, fun e he => ?_, fun x e he hType => ?_, fun x e he hType => ?_⟩
  · obtain ⟨-, c, hc, rfl⟩ := (hNode _ e).mp he
    exact h.rootDir c hc
  · obtain ⟨-, c, hc, rfl⟩ := (hNode x e).mp he
    simp only [h.children x c hc hType, List.filter_nil]
  · obtain ⟨-, c, hc, rfl⟩ := (hNode x e).mp he
    exact h.data x c hc hType

theorem TypeInv.move {src dir : Nat} {name : Str} (h : TypeInv s) (hStep : MoveStep s s' src dir name)
    (hDir : ∀ d, s.node dir = some d → d.type = .dir) : TypeInv s' := by
  have hNode := fun i e => hStep.node_eq_some (i := i) (e := e)
  refine ⟨h.lists.move hStep, fun e he => ?_, fun x e he hType => ?_, fun x e he hType => ?_⟩
  · obtain ⟨c, hc, rfl⟩ := (hNode _ e).mp he
    exact h.rootDir c hc
  · obtain ⟨c, hc, rfl⟩ := (hNode x e).mp he
    have hx : x ≠ dir := by
      rintro rfl
      exact absurd hType (by simp [movedNode, hDir c hc])
    simp only [movedNode, h.children x c hc hType, List.filter_nil, if_neg hx, List.append_nil]
  · obtain ⟨c, hc, rfl⟩ := (hNode x e).mp he
    exact h.data x c hc hType

theorem TypeInv.write {td : Nat} {data : Option (List (BitVec 8))} {size : Nat} (h : TypeInv s)
    (hStep : WriteStep s s' td data size) : TypeInv s' := by
  have hNode : ∀ x e, s'.node x = some e → ∃ c, s.node x = some c ∧ e.type = c.type ∧
      e.children = c.children ∧ (x ≠ td → e.data = c.data) := by
    intro x e he
    obtain ⟨c, hc, rfl⟩ := hStep.node_eq_some.mp he
    refine ⟨c, hc, ?_⟩
    split
    · rename_i hx
      exact ⟨rfl, rfl, fun hne => absurd hx hne⟩
    · exact ⟨rfl, rfl, fun _ => rfl⟩
  refine ⟨h.lists.write hStep, fun e he => ?_, fun x e he hType => ?_, fun x e he hType => ?_⟩
  · obtain ⟨c, hc, hSame, -⟩ := hNode _ e he
    rw [hSame]
    exact h.rootDir c hc
  · obtain ⟨c, hc, hSame, hList, -⟩ := hNode x e he
    rw [hList]
    exact h.children x c hc (hSame ▸ hType)
  · obtain ⟨c, hc, hSame, -, hData⟩ := hNode x e he
    -- the data of a file have been set
    have hx : x ≠ td := by
      rintro rfl
      obtain ⟨d, hd, hFile⟩ := hStep.found
      cases hc.symm.trans hd
      rw [hSame, hFile] at hType
      cases hType
    rw [hData hx]
    exact h.data x c hc (hSame ▸ hType)

/-! ## The loop of `tmpfs_creat` -/

/-- No part of the path that ends with a slash names a file, if a component that is not too long for a
name comes next. -/
def AvoidsFiles (s : Tmpfs) (path : Str) : Prop :=
  ∀ before b after fuel td d, path = before ++ b ++ after → before.getLast? = some slash →
    (after = [] ∨ after.head? = some slash) → slash ∉ b → b ≠ [] → b.length ≤ 255 →
    s.lookup fuel before = some (some td) → s.node td = some d → d.type = .dir

/-- The loop of `tmpfs_creat` over `path`, called in the state `s₀`, is at the node `cur` with `p` before
it: as long as nothing has been added, `cur` is what the path before `p` names, and after that it is the
new node. -/
structure TypesAt (s₀ : Tmpfs) (path : Str) (s : Tmpfs) (cur : Nat) (p : Str) : Prop where
  inv : TypeInv s
  live : (s.node cur).isSome
  place : ∃ before, path = before ++ p ∧
    (before.getLast? = some slash ∨ p = [] ∨ p.head? = some slash) ∧
    ((s.node = s₀.node ∧ ∃ fuel, s.lookup fuel before = some (some cur)) ∨
      ∃ d, s.node cur = some d ∧ d.children = [] ∧ (d.type = .file → p = []))

theorem TypesAt.edge {s₀ : Tmpfs} {path p : Str} {cur : Nat} (h : TypesAt s₀ path s cur p) :
    AtBoundary path p := by
  obtain ⟨before, hPath, hEdge, -⟩ := h.place
  exact ⟨before, hPath, hEdge⟩

/-- The same after the slashes have been skipped. -/
theorem TypesAt.skip {s₀ : Tmpfs} {path p : Str} {cur : Nat} (h : TypesAt s₀ path s cur p)
    (hp : skipSlashes p ≠ []) :
    ∃ before, path = before ++ skipSlashes p ∧ before.getLast? = some slash ∧
      ((s.node = s₀.node ∧ ∃ fuel, s.lookup fuel before = some (some cur)) ∨
        ∃ d, s.node cur = some d ∧ d.children = [] ∧ d.type = .dir) := by
  obtain ⟨before, hPath, hEdge, hPlace⟩ := h.place
  obtain ⟨slashes, hp', hSkip, hSlashes⟩ := skipSlashes_cut p
  have hCut : CutAtSlash before slashes := by
    rcases hEdge with hLast | hNil | hHead
    · exact Or.inr (Or.inl hLast)
    · rw [hNil] at hp
      exact absurd rfl hp
    · refine Or.inr (Or.inr ?_)
      cases slashes with
      | nil => exact Or.inl rfl
      | cons x slashes =>
          rw [hp'] at hHead
          exact Or.inr hHead
  refine ⟨before ++ slashes, ?_, getLast_skip hEdge hp' hSlashes hp, ?_⟩
  · rw [List.append_assoc, ← hp']
    exact hPath
  · rcases hPlace with ⟨hSame, fuel, hFound⟩ | ⟨d, hd, hChildren, hFile⟩
    · have hEnd : s.lookupFrom 1 cur slashes = some (some cur) := by
        rw [lookupFrom]
        simp only [if_pos hSkip]
      exact Or.inl ⟨hSame, lookup_append hFound hCut hEnd⟩
    · refine Or.inr ⟨d, hd, hChildren, DentryType.ne_file.mp fun hType => hp ?_⟩
      rw [hFile hType]
      rfl

/-- The node below which the loop adds another one is a directory. -/
theorem TypesAt.curDir {s₀ : Tmpfs} {path p : Str} {cur : Nat} (h : TypesAt s₀ path s cur p)
    (hSized : ComponentsIntSized path) (hAvoids : AvoidsFiles s₀ path) (hp : skipSlashes p ≠ [])
    (hNonneg : 0 ≤ componentLen (skipSlashes p)) (hShort : componentLen (skipSlashes p) ≤ fsNameMax) :
    ∀ d, s.node cur = some d → d.type = .dir := by
  intro d hd
  obtain ⟨before, hPath, hLast, ⟨hSame, fuel, hFound⟩ | ⟨d', hd', -, hDir⟩⟩ := h.skip hp
  · obtain ⟨hLe, hSlash, hAfter⟩ := blockLen_spec (skipSlashes p)
    have hLen := hSized.componentLen h.edge hp hNonneg hShort
    have hPos := blockLen_pos hp (skipSlashes_head p)
    have hLength : ((skipSlashes p).take (blockLen (skipSlashes p))).length =
        blockLen (skipSlashes p) := by
      rw [List.length_take, Nat.min_eq_left hLe]
    have hMax : fsNameMax = 255 := rfl
    refine hAvoids before _ ((skipSlashes p).drop (blockLen (skipSlashes p))) fuel cur d ?_ hLast hAfter
      hSlash (fun hNil => ?_) (by omega) ?_ ?_
    · rw [List.append_assoc, List.take_append_drop]
      exact hPath
    · rw [hNil, List.length_nil] at hLength
      omega
    · rw [lookup_congr hSame.symm]
      exact hFound
    · rw [← hSame]
      exact hd
  · cases hd.symm.trans hd'
    exact hDir

theorem TypesAt.new {s₀ : Tmpfs} {path p : Str} {cur td : Nat} (h : TypesAt s₀ path s cur p)
    (hSized : ComponentsIntSized path) (hAvoids : AvoidsFiles s₀ path)
    (hStep : AllocStep s s' cur (skipSlashes p)
      (if strchr (skipSlashes p) slash = none then .file else .dir) td) :
    TypesAt s₀ path s' td ((skipSlashes p).drop (componentLen (skipSlashes p)).toNat) := by
  have hp := hStep.starts.1
  have hDir := h.curDir hSized hAvoids hp hStep.fits.1 hStep.short
  have hFree : s.node td = none := by rw [hStep.fresh]; exact h.inv.lists.free
  have hNew := (hStep.node_eq_some hFree).mpr (Or.inl ⟨rfl, rfl⟩)
  have hLen := hSized.componentLen h.edge hp hStep.fits.1 hStep.short
  have hToNat : (componentLen (skipSlashes p)).toNat = blockLen (skipSlashes p) := by omega
  refine ⟨h.inv.alloc hStep hDir, Option.isSome_iff_exists.mpr ⟨_, hNew⟩, ?_⟩
  rw [hToNat]
  obtain ⟨before, hPath, hEdge⟩ := h.edge.next hp
  refine ⟨before, hPath, hEdge, Or.inr ⟨_, hNew, rfl, fun hFile => ?_⟩⟩
  -- a new file is the last component
  have hLast : strchr (skipSlashes p) slash = none := by
    by_contra hMore
    simp [addedNode, hMore] at hFile
  rw [blockLen, hLast]
  exact List.drop_length

theorem TypesAt.old {s₀ : Tmpfs} {path p : Str} {cur child : Nat} {d : TmpfsDentry}
    (h : TypesAt s₀ path s cur p) (hSized : ComponentsIntSized path) (hp : skipSlashes p ≠ [])
    (hShort : componentLen (skipSlashes p) ≤ fsNameMax)
    (hFind : s.findChild cur (skipSlashes p) (componentLen (skipSlashes p)) = some child)
    (hd : s.node child = some d) :
    TypesAt s₀ path s child ((skipSlashes p).drop (componentLen (skipSlashes p)).toNat) := by
  have hLen := hSized.componentLen h.edge hp (h.inv.lists.componentLen_nonneg hFind) hShort
  have hToNat : (componentLen (skipSlashes p)).toNat = blockLen (skipSlashes p) := by omega
  refine ⟨h.inv, Option.isSome_iff_exists.mpr ⟨d, hd⟩, ?_⟩
  rw [hToNat]
  obtain ⟨before, hPath, hLast, ⟨hSame, fuel, hFound⟩ | ⟨d', hd', hChildren, -⟩⟩ := h.skip hp
  · obtain ⟨-, -, hAfter⟩ := blockLen_spec (skipSlashes p)
    have hBlock := lookupFrom_block hp (skipSlashes_head p) hLen hShort hFind
    refine ⟨before ++ (skipSlashes p).take (blockLen (skipSlashes p)), ?_, Or.inr hAfter,
      Or.inl ⟨hSame, lookup_append hFound (Or.inr (Or.inl hLast)) hBlock⟩⟩
    rw [List.append_assoc, List.take_append_drop]
    exact hPath
  · simp only [findChild, hd', hChildren, List.find?_nil] at hFind
    cases hFind

/-! ## The calls -/

/-- A call that keeps the types: the path of `tmpfs_creat` does not lead through a file, and no component
of it gets a short length by the conversion to `int`. -/
def KeepsTypes (s : Tmpfs) : TmpfsCall → Prop
  | .creat path => ComponentsIntSized path ∧ AvoidsFiles s path
  | _ => True

theorem TypeInv.creat {fuel : Nat} {path : Str} {r : Int} (h : TypeInv s)
    (hSized : ComponentsIntSized path) (hAvoids : AvoidsFiles s path)
    (hCall : tmpfsCreat fuel path s = .ok r s') : TypeInv s' := by
  unfold tmpfsCreat at hCall
  split at hCall
  · cases hCall
    exact h
  rename_i hPath
  have hCut := (path_of_badPath (Bool.eq_false_of_not_eq_true hPath)).2.1
  have hStart : TypesAt s path s tmpfsRoot (path.drop 1) :=
    ⟨h, h.lists.rootLive, [slash], hCut, Or.inl rfl, Or.inl ⟨rfl, 0, rfl⟩⟩
  refine creatFrom_induct (J := TypesAt s path) (I := TypeInv) ?_ ?_ ?_ ?_ fuel tmpfsRoot _ s s' r hCall
    hStart
  · exact fun s s' cur p hJ hQuiet => hJ.inv.quiet hQuiet
  · exact fun s s' cur p td hJ hStep => hJ.new hSized hAvoids hStep
  · exact fun s cur p child d hJ hp hShort hFind hd _ => hJ.old hSized hp hShort hFind hd
  · exact fun s cur p hJ => hJ.live

theorem TypeInv.mkdir {fuel : Nat} {path : Str} {r : Int} (h : TypeInv s)
    (hCall : tmpfsMkdir fuel path s = .ok r s') : TypeInv s' := by
  unfold tmpfsMkdir at hCall
  split at hCall
  · cases hCall
    exact h
  -- the loop only goes on from a directory
  refine mkdirFrom_induct (J := fun s cur _ => TypeInv s ∧ ∃ d, s.node cur = some d ∧ d.type = .dir)
    (I := TypeInv) ?_ ?_ ?_ ?_ fuel tmpfsRoot _ s s' r hCall ?_
  · exact fun s s' cur p hJ hQuiet => hJ.1.quiet hQuiet
  · rintro s s' cur p td ⟨hInv, d, hd, hDir⟩ hStep
    have hFree : s.node td = none := by rw [hStep.fresh]; exact hInv.lists.free
    refine ⟨hInv.alloc hStep fun d' hd' => ?_, _, (hStep.node_eq_some hFree).mpr (Or.inl ⟨rfl, rfl⟩), rfl⟩
    cases hd.symm.trans hd'
    exact hDir
  · exact fun s cur p child d hJ _ _ _ hd hDir => ⟨hJ.1, d, hd, hDir⟩
  · exact fun s cur p ⟨_, d, hd, _⟩ => Option.isSome_iff_exists.mpr ⟨d, hd⟩
  · obtain ⟨d, hd⟩ := Option.isSome_iff_exists.mp h.lists.rootLive
    exact ⟨h, d, hd, h.rootDir d hd⟩

theorem TypeInv.rename {fuel : Nat} {oldpath newpath : Str} {r : Int} (h : TypeInv s)
    (hCall : tmpfsRename fuel oldpath newpath s = .ok r s') : TypeInv s' := by
  rcases tmpfsRename_eq_ok hCall with ⟨-, hQuiet, -⟩ | ⟨src, dir, name, t, -, hQuiet, -, -, -, hOutcome⟩
  · exact h.quiet hQuiet
  have ht := h.quiet hQuiet
  cases hOutcome with
  | same _ hQuiet' => exact ht.quiet hQuiet'
  | moved _ hDir _ hMove =>
      obtain ⟨d, hd, hType⟩ := hDir
      refine ht.move hMove fun d' hd' => ?_
      cases hd.symm.trans hd'
      exact hType
  | removed u e d _ _ _ hRemove hQuiet' => exact (ht.remove hRemove).quiet hQuiet'
  | replaced u e d _ _ hReplaces hRemove hMove =>
      obtain ⟨d, hd, hType⟩ := hReplaces.isDir
      refine (ht.remove hRemove).move hMove fun d' hd' => ?_
      obtain ⟨-, c, hc, rfl⟩ := hRemove.node_eq_some.mp hd'
      cases hd.symm.trans hc
      exact hType

theorem TypeInv.call {fuel : Nat} {call : TmpfsCall} {r : Int} (h : TypeInv s)
    (hKeeps : KeepsTypes s call) (hCall : tmpfsCall fuel call s = .ok r s') : TypeInv s' := by
  cases call with
  | creat path => exact h.creat hKeeps.1 hKeeps.2 hCall
  | mkdir path => exact h.mkdir hCall
  | unlink path =>
      rcases tmpfsUnlink_eq_ok hCall with ⟨rfl, -⟩ | ⟨-, -, td, d, -, hStep⟩
      · exact h
      · exact h.remove hStep
  | rename oldpath newpath => exact h.rename hCall
  | read td len =>
      simp only [tmpfsCall, bind_eq_ok] at hCall
      obtain ⟨_, s1, hRead, hCall⟩ := hCall
      cases hCall
      rw [tmpfsRead_eq_ok hRead]
      exact h
  | write td buf =>
      rcases tmpfsWrite_eq_ok hCall with ⟨-, hQuiet, -⟩ | ⟨-, td, -, hStep⟩
      · exact h.quiet hQuiet
      · exact h.write hStep

theorem typeInv_run {memory : Nat → Bool}
    (h : Relation.ReflTransGen (TmpfsNext KeepsTypes) (tmpfsEmpty memory) s) : TypeInv s := by
  induction h with
  | refl => exact typeInv_empty memory
  | tail _ hNext ih =>
      obtain ⟨call, fuel, r, hKeeps, hCall⟩ := hNext
      exact ih.call hKeeps hCall

/-- The path `/d/f`. -/
def pathDF : Str := [0x2f#8, 0x64#8, 0x2f#8, 0x66#8]

/-- The file system after `tmpfs_creat("/d/f")`. -/
def tmpfsDF : Tmpfs := finalState (tmpfsCall 5 (.creat pathDF) (tmpfsEmpty fun _ => true))

/-- There are no files yet. -/
theorem avoidsFiles_empty (memory : Nat → Bool) (path : Str) : AvoidsFiles (tmpfsEmpty memory) path := by
  intro before b after fuel td d _ _ _ _ _ _ _ hd
  rw [(tmpfsEmpty_node hd).2]
  rfl

/-- The file system after `tmpfs_creat("/f")`. -/
def tmpfsF : Tmpfs := finalState (tmpfsCall 3 (.creat [0x2f#8, 0x66#8]) (tmpfsEmpty fun _ => true))

/-- `tmpfs_creat("/f/g")`. -/
def creatFG : TmpfsCall := .creat [0x2f#8, 0x66#8, 0x2f#8, 0x67#8]

end Rayos
