import Rayos.Fs.TmpfsRun
import Rayos.Lib.ParentTree

/-!
# The memory file system as a tree

`TreeInv` says that the links to the parents form a tree and that every node is on the list of its parent.
A new node, a node without children that is removed, and a node that is moved to a parent outside its own
subtree keep it.  `tmpfs_unlink` and `tmpfs_rename` look at the children of a directory only, and
`tmpfs_rename` does not look where the new parent lies; `KeepsTree` says when this does no harm.
-/

namespace Rayos

open Program CString Tmpfs ParentTree

variable {s s' : Tmpfs}

namespace Tmpfs

/-- A node in use. -/
def Live (s : Tmpfs) (x : Nat) : Prop := (s.node x).isSome

/-- The parent field of a node. -/
def parentOf (s : Tmpfs) (x : Nat) : Option Nat := (s.node x).bind (·.parent)

/-- `x` is on the list of children of `p`. -/
def ChildOf (s : Tmpfs) (p x : Nat) : Prop := ∃ d, s.node p = some d ∧ x ∈ d.children

theorem live_iff {x : Nat} : s.Live x ↔ ∃ d, s.node x = some d := Option.isSome_iff_exists

theorem parentOf_eq_some {x p : Nat} :
    s.parentOf x = some p ↔ ∃ d, s.node x = some d ∧ d.parent = some p := by
  simp only [parentOf, Option.bind_eq_some_iff]

theorem parentOf_of_node {x : Nat} {d : TmpfsDentry} (h : s.node x = some d) :
    s.parentOf x = d.parent := by
  simp only [parentOf, h, Option.bind_some]

end Tmpfs

/-- A chain of links to children, from the root to `x`. -/
def ChildChain (s : Tmpfs) (x : Nat) (l : List Nat) : Prop :=
  l.head? = some tmpfsRoot ∧ l.getLast? = some x ∧ l.IsChain s.ChildOf

/-- The file system is a tree. -/
structure TmpfsTree (s : Tmpfs) : Prop where
  chain : ∀ x, s.Live x → ∃! l, ChildChain s x l
  once : ∀ p d, s.node p = some d → d.children.Nodup
  parentField : ∀ x, s.Live x → x ≠ tmpfsRoot → ∃ p, s.parentOf x = some p ∧ ∀ q, s.ChildOf q x ↔ q = p
  toRoot : ∀ x, s.Live x → Below s.parentOf x tmpfsRoot
  rootParent : s.parentOf tmpfsRoot = none
  rootFree : ∀ p, ¬ s.ChildOf p tmpfsRoot

/-! ## The invariant -/

/-- The links to the parents form a tree, and every node is on the list of its parent. -/
structure TreeInv (s : Tmpfs) : Prop where
  lists : ListInv s
  tree : IsTree s.Live tmpfsRoot s.parentOf
  hangs : ∀ x p, s.parentOf x = some p → s.ChildOf p x

theorem TreeInv.childOf_iff (h : TreeInv s) {p x : Nat} :
    s.ChildOf p x ↔ s.Live p ∧ s.Live x ∧ s.parentOf x = some p := by
  constructor
  · rintro ⟨d, hd, hx⟩
    obtain ⟨e, he, hParent⟩ := h.lists.child p d x hd hx
    exact ⟨live_iff.mpr ⟨d, hd⟩, live_iff.mpr ⟨e, he⟩, (parentOf_of_node he).trans hParent⟩
  · rintro ⟨-, -, hUp⟩
    exact h.hangs x p hUp

theorem TreeInv.tmpfsTree (h : TreeInv s) : TmpfsTree s := by
  have hChain : s.ChildOf = fun p y => s.Live p ∧ s.Live y ∧ s.parentOf y = some p := by
    funext p y
    exact propext h.childOf_iff
  refine ⟨fun x hx => ?_, h.lists.nodup, fun x hx hne => ?_, h.tree.toRoot, h.tree.rootParent,
    fun p hp => ?_⟩
  · simp only [ChildChain, hChain]
    exact existsUnique_chain h.tree hx
  · obtain ⟨p, hUp, hp⟩ := h.tree.exists_parent hx hne
    refine ⟨p, hUp, fun q => ⟨fun hq => ?_, fun hq => ?_⟩⟩
    · have hUp' := (h.childOf_iff.mp hq).2.2
      rw [hUp] at hUp'
      exact (Option.some.inj hUp').symm
    · rw [hq]
      exact h.hangs x p hUp
  · have hUp := (h.childOf_iff.mp hp).2.2
    rw [h.tree.rootParent] at hUp
    cases hUp

theorem treeInv_empty (memory : Nat → Bool) : TreeInv (tmpfsEmpty memory) := by
  have hNone : ∀ x, (tmpfsEmpty memory).parentOf x = none := by
    intro x
    cases hUp : (tmpfsEmpty memory).parentOf x with
    | none => rfl
    | some p =>
        obtain ⟨d, hd, hParent⟩ := parentOf_eq_some.mp hUp
        obtain ⟨-, rfl⟩ := tmpfsEmpty_node hd
        cases hParent
  refine ⟨listInv_empty memory, ⟨rfl, hNone _, fun x p _ hUp => ?_, fun x hx => ?_⟩,
    fun x p hUp => ?_⟩
  · rw [hNone] at hUp
    cases hUp
  · obtain ⟨d, hd⟩ := live_iff.mp hx
    rw [(tmpfsEmpty_node hd).1]
    exact .refl
  · rw [hNone] at hUp
    cases hUp

theorem TreeInv.quiet (h : TreeInv s) (hQuiet : Quiet s s') : TreeInv s' := by
  have hLive : s'.Live = s.Live := by
    funext x
    simp only [Live, hQuiet.node]
  have hParent : s'.parentOf = s.parentOf := by
    funext x
    simp only [parentOf, hQuiet.node]
  refine ⟨h.lists.quiet hQuiet, ?_, ?_⟩
  · rw [hLive, hParent]
    exact h.tree
  · intro x p hUp
    rw [hParent] at hUp
    obtain ⟨d, hd, hx⟩ := h.hangs x p hUp
    exact ⟨d, by rw [hQuiet.node]; exact hd, hx⟩

theorem TreeInv.alloc {cur td : Nat} {p : Str} {type : DentryType} (h : TreeInv s)
    (hStep : AllocStep s s' cur p type td) : TreeInv s' := by
  have hFree : s.node td = none := by rw [hStep.fresh]; exact h.lists.free
  have hNode := fun i e => hStep.node_eq_some (i := i) (e := e) hFree
  have hOld : ∀ x, s.Live x → x ≠ td := by
    rintro x hx rfl
    simp [Live, hFree] at hx
  have hNew : s'.node td = some (addedNode cur p type) := (hNode td _).mpr (Or.inl ⟨rfl, rfl⟩)
  have hLive : ∀ x, s'.Live x ↔ s.Live x ∨ x = td := by
    intro x
    simp only [live_iff, hNode]
    constructor
    · rintro ⟨e, ⟨rfl, -⟩ | ⟨d, hd, -⟩⟩
      · exact Or.inr rfl
      · exact Or.inl ⟨d, hd⟩
    · rintro (⟨d, hd⟩ | rfl)
      · exact ⟨_, Or.inr ⟨d, hd, rfl⟩⟩
      · exact ⟨_, Or.inl ⟨rfl, rfl⟩⟩
  have hSame : ∀ x, x ≠ td → s'.parentOf x = s.parentOf x := by
    intro x hx
    cases hd : s.node x with
    | some d =>
        rw [parentOf_of_node hd, parentOf_of_node ((hNode x _).mpr (Or.inr ⟨d, hd, rfl⟩))]
    | none =>
        have hNone : s'.node x = none := by
          cases he : s'.node x with
          | none => rfl
          | some e =>
              rcases (hNode x e).mp he with ⟨hEq, -⟩ | ⟨d, hd', -⟩
              · exact absurd hEq hx
              · rw [hd] at hd'
                cases hd'
        simp only [parentOf, hd, hNone]
  have hChild : ∀ q x, s.ChildOf q x → s'.ChildOf q x := by
    rintro q x ⟨d, hd, hx⟩
    exact ⟨_, (hNode q _).mpr (Or.inr ⟨d, hd, rfl⟩), List.mem_append_left _ hx⟩
  refine ⟨h.lists.alloc hStep, ?_, fun x q hUp => ?_⟩
  · refine h.tree.addLeaf (x := td) (p := cur) ?_ hStep.curLive hLive ?_ hSame
    · simp [Live, hFree]
    · rw [parentOf_of_node hNew]
      rfl
  · by_cases hx : x = td
    · rw [hx, parentOf_of_node hNew] at hUp
      cases hUp
      obtain ⟨d, hd⟩ := live_iff.mp hStep.curLive
      refine ⟨_, (hNode cur _).mpr (Or.inr ⟨d, hd, rfl⟩), ?_⟩
      simp [hx]
    · rw [hSame x hx] at hUp
      exact hChild q x (h.hangs x q hUp)

/-- A node without children is removed. -/
theorem TreeInv.remove {td : Nat} {d : TmpfsDentry} (h : TreeInv s)
    (hStep : RemoveStep s s' td d) (hLeaf : d.children = []) : TreeInv s' := by
  have hNode := fun i e => hStep.node_eq_some (i := i) (e := e)
  have hLive : ∀ x, s'.Live x ↔ s.Live x ∧ x ≠ td := by
    intro x
    simp only [live_iff, hNode]
    constructor
    · rintro ⟨e, hne, c, hc, -⟩
      exact ⟨⟨c, hc⟩, hne⟩
    · rintro ⟨⟨c, hc⟩, hne⟩
      exact ⟨_, hne, c, hc, rfl⟩
  have hSame : ∀ x, x ≠ td → s'.parentOf x = s.parentOf x := by
    intro x hx
    rw [parentOf, hStep.node]
    simp only [dropNode, listDel, if_neg hx, parentOf]
    cases s.node x <;> rfl
  have hNone : s'.parentOf td = none := by
    rw [parentOf, hStep.node]
    simp [dropNode]
  refine ⟨h.lists.remove hStep, ?_, fun x q hUp => ?_⟩
  · refine h.tree.removeLeaf hStep.notRoot (fun x hx hUp => ?_) hLive hSame
    obtain ⟨e, he, hMem⟩ := h.hangs x td hUp
    cases he.symm.trans hStep.found
    rw [hLeaf] at hMem
    cases hMem
  · have hx : x ≠ td := by
      rintro rfl
      rw [hNone] at hUp
      cases hUp
    rw [hSame x hx] at hUp
    obtain ⟨e, he, hMem⟩ := h.hangs x q hUp
    have hq : q ≠ td := by
      rintro rfl
      cases he.symm.trans hStep.found
      rw [hLeaf] at hMem
      cases hMem
    exact ⟨_, (hNode q _).mpr ⟨hq, e, he, rfl⟩, List.mem_filter.mpr ⟨hMem, by simpa using hx⟩⟩

/-- A node is moved to a parent outside its subtree. -/
theorem TreeInv.move {src dir : Nat} {name : Str} (h : TreeInv s) (hStep : MoveStep s s' src dir name)
    (hRoot : src ≠ tmpfsRoot) (hAvoids : ¬ Below s.parentOf dir src) : TreeInv s' := by
  have hNode := fun i e => hStep.node_eq_some (i := i) (e := e)
  have hLive : s'.Live = s.Live := by
    funext x
    apply propext
    simp only [live_iff, hNode]
    exact ⟨fun ⟨_, c, hc, _⟩ => ⟨c, hc⟩, fun ⟨c, hc⟩ => ⟨_, c, hc, rfl⟩⟩
  have hNew : s'.parentOf src = some dir := by
    obtain ⟨c, hc⟩ := live_iff.mp hStep.srcLive
    rw [parentOf_of_node ((hNode src _).mpr ⟨c, hc, rfl⟩)]
    exact if_pos rfl
  have hSame : ∀ x, x ≠ src → s'.parentOf x = s.parentOf x := by
    intro x hx
    cases hc : s.node x with
    | some c =>
        rw [parentOf_of_node hc, parentOf_of_node ((hNode x _).mpr ⟨c, hc, rfl⟩)]
        exact if_neg hx
    | none =>
        have hNone : s'.node x = none := by
          cases he : s'.node x with
          | none => rfl
          | some e =>
              obtain ⟨c, hc', -⟩ := (hNode x e).mp he
              rw [hc] at hc'
              cases hc'
        simp only [parentOf, hc, hNone]
  refine ⟨h.lists.move hStep, ?_, fun x q hUp => ?_⟩
  · rw [hLive]
    exact h.tree.move hRoot hStep.dirLive hAvoids hNew hSame
  · by_cases hx : x = src
    · rw [hx, hNew] at hUp
      cases hUp
      obtain ⟨c, hc⟩ := live_iff.mp hStep.dirLive
      refine ⟨_, (hNode dir _).mpr ⟨c, hc, rfl⟩, ?_⟩
      simp [movedNode, hx]
    · rw [hSame x hx] at hUp
      obtain ⟨e, he, hMem⟩ := h.hangs x q hUp
      exact ⟨_, (hNode q _).mpr ⟨e, he, rfl⟩,
        List.mem_append_left _ (List.mem_filter.mpr ⟨hMem, by simpa using hx⟩)⟩

theorem TreeInv.write {td : Nat} {data : Option (List (BitVec 8))} {size : Nat} (h : TreeInv s)
    (hStep : WriteStep s s' td data size) : TreeInv s' := by
  have hLive : s'.Live = s.Live := by
    funext x
    simp only [Live, hStep.node, setNode]
    split <;> simp
  have hParent : s'.parentOf = s.parentOf := by
    funext x
    simp only [parentOf, hStep.node, setNode]
    split
    · cases s.node x <;> rfl
    · rfl
  refine ⟨h.lists.write hStep, ?_, fun x q hUp => ?_⟩
  · rw [hLive, hParent]
    exact h.tree
  · rw [hParent] at hUp
    obtain ⟨e, he, hMem⟩ := h.hangs x q hUp
    refine ⟨_, (hStep.node_eq_some (i := q)).mpr ⟨e, he, rfl⟩, ?_⟩
    split <;> exact hMem

/-! ## The calls -/

/-- The node with the name `name` below `dir` may be overwritten. -/
def Overwritable (s : Tmpfs) (dir : Nat) (name : Str) : Prop :=
  ∀ e d, s.findChild dir name (intOfLength name.length) = some e → s.node e = some d →
    d.type = .dir → d.children = []

/-- A call that keeps the tree.  The node that `tmpfs_unlink` removes is not a file with children.  The
node that `tmpfs_rename` overwrites is not a file with children and not the node that is moved, and that
node is not the root and not above its new parent. -/
def KeepsTree (s : Tmpfs) : TmpfsCall → Prop
  | .unlink path =>
      ∀ fuel td d, s.lookup fuel path = some (some td) → s.node td = some d → d.type = .file →
        d.children = []
  | .rename oldpath newpath =>
      ∀ fuel src dir name, Renames s fuel oldpath newpath src dir name →
        (∃ d, s.node dir = some d ∧ d.type = .dir) → Overwritable s dir name →
        (∀ e d, s.findChild dir name (intOfLength name.length) = some e → s.node e = some d →
          d.type = .file → d.children = []) ∧
        s.findChild dir name (intOfLength name.length) ≠ some src ∧ src ≠ tmpfsRoot ∧
        ¬ Below s.parentOf dir src
  | _ => True

/-- Links that have been taken out lead nowhere. -/
theorem below_of_remove {td x y : Nat} {d : TmpfsDentry} (hStep : RemoveStep s s' td d)
    (h : Below s'.parentOf x y) : Below s.parentOf x y := by
  refine Relation.ReflTransGen.mono (fun a b hUp => ?_) _ _ h
  obtain ⟨e, he, hParent⟩ := parentOf_eq_some.mp hUp
  obtain ⟨-, c, hc, rfl⟩ := hStep.node_eq_some.mp he
  exact (parentOf_of_node hc).trans hParent

/-- What is removed has no children when it is not a file with children. -/
theorem Tmpfs.RemoveStep.leaf {td : Nat} {d : TmpfsDentry} (hStep : RemoveStep s s' td d)
    (hFile : d.type = .file → d.children = []) : d.children = [] := by
  cases hType : d.type with
  | dir => exact hStep.empty hType
  | file => exact hFile hType

theorem Tmpfs.RemoveStep.overwritable {e dir : Nat} {d : TmpfsDentry} {name : Str}
    (hStep : RemoveStep s s' e d)
    (hFind : s.findChild dir name (intOfLength name.length) = some e) : Overwritable s dir name := by
  intro e' d' hFind' hd'
  cases hFind.symm.trans hFind'
  cases hStep.found.symm.trans hd'
  exact hStep.empty

theorem TreeInv.creat {fuel : Nat} {path : Str} {r : Int} (h : TreeInv s)
    (hCall : tmpfsCreat fuel path s = .ok r s') : TreeInv s' := by
  unfold tmpfsCreat at hCall
  split at hCall
  · cases hCall
    exact h
  refine creatFrom_induct (J := fun s cur _ => TreeInv s ∧ s.Live cur) (I := TreeInv) ?_ ?_ ?_ ?_
    fuel tmpfsRoot _ s s' r hCall ⟨h, h.lists.rootLive⟩
  · exact fun s s' cur p hJ hQuiet => hJ.1.quiet hQuiet
  · intro s s' cur p td hJ hStep
    have hNew := (hStep.node_eq_some (i := td) (by rw [hStep.fresh]; exact hJ.1.lists.free)).mpr
      (Or.inl ⟨rfl, rfl⟩)
    exact ⟨hJ.1.alloc hStep, live_iff.mpr ⟨_, hNew⟩⟩
  · exact fun s cur p child d hJ _ _ _ hd _ => ⟨hJ.1, live_iff.mpr ⟨d, hd⟩⟩
  · exact fun s cur p hJ => hJ.2

theorem TreeInv.mkdir {fuel : Nat} {path : Str} {r : Int} (h : TreeInv s)
    (hCall : tmpfsMkdir fuel path s = .ok r s') : TreeInv s' := by
  unfold tmpfsMkdir at hCall
  split at hCall
  · cases hCall
    exact h
  refine mkdirFrom_induct (J := fun s cur _ => TreeInv s ∧ s.Live cur) (I := TreeInv) ?_ ?_ ?_ ?_
    fuel tmpfsRoot _ s s' r hCall ⟨h, h.lists.rootLive⟩
  · exact fun s s' cur p hJ hQuiet => hJ.1.quiet hQuiet
  · intro s s' cur p td hJ hStep
    have hNew := (hStep.node_eq_some (i := td) (by rw [hStep.fresh]; exact hJ.1.lists.free)).mpr
      (Or.inl ⟨rfl, rfl⟩)
    exact ⟨hJ.1.alloc hStep, live_iff.mpr ⟨_, hNew⟩⟩
  · exact fun s cur p child d hJ _ _ _ hd _ => ⟨hJ.1, live_iff.mpr ⟨d, hd⟩⟩
  · exact fun s cur p hJ => hJ.2

theorem TreeInv.unlink {fuel : Nat} {path : Str} {r : Int} (h : TreeInv s)
    (hKeeps : KeepsTree s (.unlink path)) (hCall : tmpfsUnlink fuel path s = .ok r s') :
    TreeInv s' := by
  rcases tmpfsUnlink_eq_ok hCall with ⟨rfl, -⟩ | ⟨-, -, td, d, hFound, hStep⟩
  · exact h
  exact h.remove hStep (hStep.leaf (hKeeps fuel td d hFound hStep.found))

theorem TreeInv.rename {fuel : Nat} {oldpath newpath : Str} {r : Int} (h : TreeInv s)
    (hKeeps : KeepsTree s (.rename oldpath newpath))
    (hCall : tmpfsRename fuel oldpath newpath s = .ok r s') : TreeInv s' := by
  rcases tmpfsRename_eq_ok hCall with ⟨-, hQuiet, -⟩ | ⟨src, dir, name, t, hRenames, hQuiet, -, -, -, hOutcome⟩
  · exact h.quiet hQuiet
  have hKeeps := hKeeps fuel src dir name hRenames
  -- the condition, in the state after the copy of the parent path has been made
  have hSame : s.parentOf = t.parentOf := by
    funext x
    simp only [parentOf, hQuiet.node]
  simp only [Overwritable, ← findChild_congr hQuiet.node, ← hQuiet.node, hSame] at hKeeps
  have ht := h.quiet hQuiet
  cases hOutcome with
  | same _ hQuiet' => exact ht.quiet hQuiet'
  | moved _ hDir hAbsent hMove =>
      obtain ⟨-, -, hRoot, hAvoids⟩ := hKeeps hDir fun e d hFind => by
        rw [hAbsent] at hFind
        cases hFind
      exact ht.move hMove hRoot hAvoids
  | removed u e d _ _ hReplaces hRemove hQuiet' =>
      obtain ⟨hFile, -, -, -⟩ := hKeeps hReplaces.isDir (hRemove.overwritable hReplaces.find)
      have hLeaf := hRemove.leaf (hFile e d hReplaces.find hRemove.found)
      exact (ht.remove hRemove hLeaf).quiet hQuiet'
  | replaced u e d _ _ hReplaces hRemove hMove =>
      obtain ⟨hFile, -, hRoot, hAvoids⟩ := hKeeps hReplaces.isDir (hRemove.overwritable hReplaces.find)
      have hLeaf := hRemove.leaf (hFile e d hReplaces.find hRemove.found)
      exact (ht.remove hRemove hLeaf).move hMove hRoot fun hBelow =>
        hAvoids (below_of_remove hRemove hBelow)

theorem TreeInv.call {fuel : Nat} {call : TmpfsCall} {r : Int} (h : TreeInv s)
    (hKeeps : KeepsTree s call) (hCall : tmpfsCall fuel call s = .ok r s') : TreeInv s' := by
  cases call with
  | creat path => exact h.creat hCall
  | mkdir path => exact h.mkdir hCall
  | unlink path => exact h.unlink hKeeps hCall
  | rename oldpath newpath => exact h.rename hKeeps hCall
  | read td len =>
      simp only [tmpfsCall, bind_eq_ok] at hCall
      obtain ⟨_, s1, hRead, hCall⟩ := hCall
      cases hCall
      rw [tmpfsRead_eq_ok hRead]
      exact h
  | write td buf =>
      rcases tmpfsWrite_eq_ok hCall with ⟨-, hQuiet, -⟩ | ⟨-, td, -, hStep⟩
      · exact h.quiet hQuiet
      · exact h.write hStep

theorem treeInv_run {memory : Nat → Bool}
    (h : Relation.ReflTransGen (TmpfsNext KeepsTree) (tmpfsEmpty memory) s) : TreeInv s := by
  induction h with
  | refl => exact treeInv_empty memory
  | tail _ hNext ih =>
      obtain ⟨call, fuel, r, hKeeps, hCall⟩ := hNext
      exact ih.call hKeeps hCall

/-- After any calls that keep the tree, the file system is a tree. -/
theorem tmpfsRun_tree {memory : Nat → Bool}
    (h : Relation.ReflTransGen (TmpfsNext KeepsTree) (tmpfsEmpty memory) s) : TmpfsTree s :=
  (treeInv_run h).tmpfsTree

/-- The path `/a/b`. -/
def pathAB : Str := [0x2f#8, 0x61#8, 0x2f#8, 0x62#8]

/-- The file system after `tmpfs_mkdir("/a/b")`. -/
def tmpfsAB : Tmpfs := finalState (tmpfsCall 5 (.mkdir pathAB) (tmpfsEmpty fun _ => true))

theorem tmpfsAB_next (allowed : Tmpfs → TmpfsCall → Prop)
    (h : allowed (tmpfsEmpty fun _ => true) (.mkdir pathAB)) :
    TmpfsNext allowed (tmpfsEmpty fun _ => true) tmpfsAB :=
  ⟨.mkdir pathAB, 5, 0, h, eq_ok_of_value (by decide)⟩

/-- `tmpfs_rename("/a/b", "/c")`. -/
def renameBC : TmpfsCall := .rename pathAB [0x2f#8, 0x63#8]

theorem keepsTree_renameBC : KeepsTree tmpfsAB renameBC := by
  intro fuel src dir name hRenames _ _
  obtain ⟨i, hCut, hDir, rfl⟩ := hRenames.cut
  have hSrc : src = 3 :=
    Option.some.inj (lookup_unique hRenames.source (show tmpfsAB.lookup 5 pathAB = _ by decide))
  have hi : i = 0 := Option.some.inj (hCut.symm.trans (by decide))
  subst hi
  have hRoot : dir = tmpfsRoot := (Option.some.inj (Option.some.inj hDir)).symm
  have hLength : tmpfsAB.findChild tmpfsRoot (List.drop (0 + 1) [0x2f#8, 0x63#8])
      (intOfLength (List.drop (0 + 1) [0x2f#8, 0x63#8]).length) = none := by decide
  subst hSrc hRoot
  rw [hLength]
  refine ⟨fun e d hFind => ?_, nofun, by decide, fun hBelow => ?_⟩
  · cases hFind
  rcases Relation.ReflTransGen.cases_head hBelow with hEq | ⟨p, hUp, -⟩
  · exact absurd hEq (by decide)
  · have hParent : tmpfsAB.parentOf tmpfsRoot = none := by decide
    rw [Up, hParent] at hUp
    cases hUp

/-- Making `/a/b` and moving `/a/b` to `/c`. -/
theorem tmpfsRun_tree_moved :
    TmpfsTree (finalState (tmpfsCall 5 renameBC tmpfsAB)) := by
  have hRun : Relation.ReflTransGen (TmpfsNext KeepsTree) (tmpfsEmpty fun _ => true)
      (finalState (tmpfsCall 5 renameBC tmpfsAB)) :=
    .tail (.tail .refl (tmpfsAB_next _ trivial))
      ⟨renameBC, 5, 0, keepsTree_renameBC, eq_ok_of_value (by decide)⟩
  exact tmpfsRun_tree hRun

/-- `tmpfs_rename("/a", "/a/b/c")`. -/
def renameUnderItself : TmpfsCall := .rename [0x2f#8, 0x61#8] (pathAB ++ [0x2f#8, 0x63#8])

/-- `tmpfs_rename` moves a directory below itself. -/
theorem tmpfs_rename_cycle :
    ¬ ∀ memory s, Relation.ReflTransGen (TmpfsNext fun _ _ => True) (tmpfsEmpty memory) s →
      TmpfsTree s := by
  intro hAll
  have hTree := hAll (fun _ => true) (finalState (tmpfsCall 5 renameUnderItself tmpfsAB))
    (.tail (.tail .refl (tmpfsAB_next _ trivial))
      ⟨renameUnderItself, 5, 0, trivial, eq_ok_of_value (by decide)⟩)
  have hLive : (finalState (tmpfsCall 5 renameUnderItself tmpfsAB)).Live 1 := by
    simp only [Live]
    decide
  have hUp1 : (finalState (tmpfsCall 5 renameUnderItself tmpfsAB)).parentOf 1 = some 3 := by decide
  have hUp3 : (finalState (tmpfsCall 5 renameUnderItself tmpfsAB)).parentOf 3 = some 1 := by decide
  -- the two directories are each other's parent
  have hStay : ∀ y, Below (finalState (tmpfsCall 5 renameUnderItself tmpfsAB)).parentOf 1 y →
      y = 1 ∨ y = 3 := by
    intro y hBelow
    induction hBelow with
    | refl => exact Or.inl rfl
    | tail _ hUp ih =>
        rcases ih with rfl | rfl
        · exact Or.inr (Option.some.inj (hUp.symm.trans hUp1))
        · exact Or.inl (Option.some.inj (hUp.symm.trans hUp3))
  exact absurd (hStay tmpfsRoot (hTree.toRoot 1 hLive)) (by decide)

end Rayos
