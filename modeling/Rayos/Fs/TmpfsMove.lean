import Rayos.Fs.TmpfsResolve

/-!
# Removing and moving nodes

`tmpfs_unlink` takes one node out of the tree and `tmpfs_rename` hangs one elsewhere, after it has given back
what is in the way.  In both cases the links of the tree change as `Relinks` says, and what follows for paths
are the general facts about it.

* `tmpfsUnlink_removes` — when `tmpfs_unlink` removes a node, and which paths feel it.
* `tmpfsRename_moves` — the subtree is found at its new place, and nothing else has moved.
* `tmpfsRename_atomic` — a call that fails has changed nothing unless it has given back the node in the way
  before there was no memory for the new name.
-/

namespace Rayos

open Program CString Tmpfs NameTree ParentTree

variable {s s' : Tmpfs}

/-! ## Names and links to parents -/

namespace NamedTree

theorem parentOf_child (h : NamedTree s) {p x : Nat} {b : Str} (hFind : s.childNamed p b = some x) :
    s.parentOf x = some p := by
  obtain ⟨d, e, hd, hx, he, -⟩ := h.childNamed_eq_some.mp hFind
  exact (h.tree.childOf_iff.mp ⟨d, hd, hx⟩).2.2

/-- A walk leads downwards. -/
theorem below_of_follow (h : NamedTree s) {x y : Nat} {names : List Str}
    (hFollow : follow s.childNamed x names = some y) : Below s.parentOf y x := by
  induction names generalizing x with
  | nil =>
      cases hFollow
      exact .refl
  | cons b names ih =>
      rw [follow_cons, Option.bind_eq_some_iff] at hFollow
      obtain ⟨z, hz, hRest⟩ := hFollow
      exact (ih hRest).tail (h.parentOf_child hz)

/-- A walk that passes a node ends below it. -/
theorem below_of_through (h : NamedTree s) {x y z : Nat} {names : List Str}
    (hFollow : follow s.childNamed x names = some y) (hThrough : Through s.childNamed x names z) :
    Below s.parentOf y z := by
  obtain ⟨front, ⟨rest, rfl⟩, hz⟩ := hThrough
  rw [follow_append_of_some hz] at hFollow
  exact h.below_of_follow hFollow

/-- A node is not below its child. -/
theorem not_below_child (h : NamedTree s) {p x : Nat} {b : Str} (hFind : s.childNamed p b = some x) :
    ¬ Below s.parentOf p x :=
  h.tree.tree.not_below_child (h.live_child hFind) (h.parentOf_child hFind)

end NamedTree

/-! ## The links after a step -/

/-- A node without children has been given back. -/
theorem Tmpfs.RemoveStep.relinks {td : Nat} {d : TmpfsDentry} (hStep : RemoveStep s s' td d)
    (hs : NamedTree s) (hs' : NamedTree s') (hLeaf : d.children = []) :
    Relinks s.childNamed s'.childNamed (· = td) fun _ _ _ => False := by
  intro p b x
  simp only [false_or]
  constructor
  · intro hFind
    obtain ⟨c', e', hc', hx, he', hName⟩ := hs'.childNamed_eq_some.mp hFind
    obtain ⟨-, c, hc, rfl⟩ := hStep.node_eq_some.mp hc'
    obtain ⟨hne, e, he, rfl⟩ := hStep.node_eq_some.mp he'
    exact ⟨hne, hs.childNamed_eq_some.mpr ⟨c, e, hc, (List.mem_filter.mp hx).1, he, hName⟩⟩
  · rintro ⟨hne, hFind⟩
    obtain ⟨c, e, hc, hx, he, hName⟩ := hs.childNamed_eq_some.mp hFind
    have hp : p ≠ td := by
      rintro rfl
      cases hc.symm.trans hStep.found
      rw [hLeaf] at hx
      cases hx
    refine hs'.childNamed_eq_some.mpr ⟨_, _, hStep.node_eq_some.mpr ⟨hp, c, hc, rfl⟩, ?_,
      hStep.node_eq_some.mpr ⟨hne, e, he, rfl⟩, hName⟩
    exact List.mem_filter.mpr ⟨hx, by simpa using hne⟩

/-- A node has been moved. -/
theorem Tmpfs.MoveStep.relinks {src dir : Nat} {name : Str} (hStep : MoveStep s s' src dir name)
    (hs : NamedTree s) (hs' : NamedTree s') (hName : name.take (intOfLength name.length).toNat = name) :
    Relinks s.childNamed s'.childNamed (· = src) fun p b x => p = dir ∧ b = name ∧ x = src := by
  intro p b x
  constructor
  · intro hFind
    obtain ⟨c', e', hc', hx, he', hNameX⟩ := hs'.childNamed_eq_some.mp hFind
    obtain ⟨c, hc, rfl⟩ := hStep.node_eq_some.mp hc'
    obtain ⟨e, he, rfl⟩ := hStep.node_eq_some.mp he'
    by_cases hSrc : x = src
    · left
      simp only [movedNode, if_pos hSrc, hName] at hNameX
      refine ⟨?_, hNameX.symm, hSrc⟩
      by_contra hDir
      simp [movedNode, hSrc, hDir] at hx
    · right
      simp only [movedNode, if_neg hSrc] at hNameX
      refine ⟨hSrc, hs.childNamed_eq_some.mpr ⟨c, e, hc, ?_, he, hNameX⟩⟩
      rcases List.mem_append.mp hx with hx | hx
      · exact (List.mem_filter.mp hx).1
      · split at hx
        · exact absurd (List.mem_singleton.mp hx) hSrc
        · cases hx
  · rintro (⟨rfl, rfl, rfl⟩ | ⟨hSrc, hFind⟩)
    · obtain ⟨c, hc⟩ := live_iff.mp hStep.dirLive
      obtain ⟨e, he⟩ := live_iff.mp hStep.srcLive
      refine hs'.childNamed_eq_some.mpr ⟨_, _, hStep.node_eq_some.mpr ⟨c, hc, rfl⟩, ?_,
        hStep.node_eq_some.mpr ⟨e, he, rfl⟩, ?_⟩
      · simp [movedNode]
      · simp only [movedNode, if_pos, hName]
    · obtain ⟨c, e, hc, hx, he, hNameX⟩ := hs.childNamed_eq_some.mp hFind
      refine hs'.childNamed_eq_some.mpr ⟨_, _, hStep.node_eq_some.mpr ⟨c, hc, rfl⟩, ?_,
        hStep.node_eq_some.mpr ⟨e, he, rfl⟩, ?_⟩
      · exact List.mem_append_left _ (List.mem_filter.mpr ⟨hx, by simpa using hSrc⟩)
      · simp only [movedNode, if_neg hSrc]
        exact hNameX

/-! ## Calls that return -/

theorem tmpfsKfree_ok (hFree : s.heap.mmSpinlock = false) : kfree s = .ok () s := by
  simp only [kfree, KernelHeap.kfree, hFree, Bool.false_eq_true, if_false]

theorem tmpfsKfreeName_ok {td : Nat} (hFree : s.heap.mmSpinlock = false) (hRoot : td ≠ tmpfsRoot) :
    kfreeName td s = .ok () s := by
  rw [kfreeName, bind_ok (tmpfsKfree_ok hFree), if_neg hRoot, pure_apply]

theorem tmpfsFreeDentry_ok {td : Nat} {d : TmpfsDentry} (hd : s.node td = some d)
    (hFree : s.heap.mmSpinlock = false) (hRoot : td ≠ tmpfsRoot) :
    ∃ s', tmpfsFreeDentry td s = .ok () s' ∧ s'.heap = s.heap := by
  have hDel : (modify fun s => s.listDel td : TmpfsM Unit) s = .ok () (s.listDel td) := rfl
  have hName : kfreeName td (s.listDel td) = .ok () (s.listDel td) := tmpfsKfreeName_ok hFree hRoot
  have hLast : kfree (s.listDel td) = .ok () (s.listDel td) := tmpfsKfree_ok hFree
  refine ⟨(s.listDel td).dropNode td, ?_, rfl⟩
  rw [tmpfsFreeDentry, bind_ok (nodeAt_ok hd), bind_ok hDel, bind_ok hName]
  have hRest : (kfree >>= fun _ => modify fun s => s.dropNode td : TmpfsM Unit) (s.listDel td) =
      .ok () ((s.listDel td).dropNode td) := by
    rw [bind_ok hLast]
    rfl
  by_cases hData : d.data ≠ none ∧ d.type = .file
  · rw [if_pos hData, bind_ok hLast]
    exact hRest
  · rw [if_neg hData]
    exact hRest

/-! ## `tmpfs_unlink` -/

/-- `tmpfs_unlink` may remove the node `td` at a path. -/
structure Unlinkable (s : Tmpfs) (path : Str) (td : Nat) : Prop where
  absolute : path.head? = some slash
  resolves : s.resolve path = some td
  notRoot : td ≠ tmpfsRoot
  leaf : ∃ d, s.node td = some d ∧ (d.type = .file ∨ d.children = [])

/-- A path that does not lead to the root is longer than a slash. -/
theorem badPath_eq_false {path : Str} {td : Nat} (hSlash : path.head? = some slash)
    (hResolve : s.resolve path = some td) (hRoot : td ≠ tmpfsRoot) : badPath path = false := by
  cases path with
  | nil => cases hSlash
  | cons x p =>
      rw [List.head?_cons, Option.some.injEq] at hSlash
      have hp : p ≠ [] := by
        rintro rfl
        rw [hSlash, resolve, pathNames_cons_slash, pathNames_nil] at hResolve
        cases hResolve
        exact hRoot rfl
      simp [badPath, hSlash, hp]

theorem tmpfsUnlink_ok (h : WellFormed s) {fuel : Nat} {path : Str} (hFuel : path.length ≤ fuel)
    (hFree : s.heap.mmSpinlock = false) : ∃ r s', tmpfsUnlink fuel path s = .ok r s' := by
  rw [tmpfsUnlink]
  by_cases hBad : badPath path = true
  · rw [if_pos hBad]
    exact ⟨_, _, rfl⟩
  rw [if_neg hBad]
  have hSlash := (path_of_badPath (Bool.eq_false_of_not_eq_true hBad)).1
  rw [bind_ok (h.lookup_ok hSlash hFuel)]
  cases hResolve : s.resolve path with
  | none => exact ⟨_, _, rfl⟩
  | some td =>
      simp only
      by_cases hRoot : td = tmpfsRoot
      · rw [if_pos hRoot]
        exact ⟨_, _, rfl⟩
      obtain ⟨d, hd⟩ := live_iff.mp (h.live_of_reach hResolve)
      rw [if_neg hRoot, bind_ok (nodeAt_ok hd)]
      by_cases hFull : d.type = .dir ∧ d.children ≠ []
      · rw [if_pos hFull]
        exact ⟨_, _, rfl⟩
      · obtain ⟨t, hDentry, -⟩ := tmpfsFreeDentry_ok hd hFree hRoot
        rw [if_neg hFull, bind_ok hDentry]
        exact ⟨_, _, rfl⟩

/-- What follows for paths when one node has been given back. -/
theorem Tmpfs.RemoveStep.paths {td : Nat} {d : TmpfsDentry} {path : Str} (hStep : RemoveStep s s' td d)
    (hs : NamedTree s) (hs' : NamedTree s') (hLeaf : d.children = []) (hResolve : s.resolve path = some td) :
    s'.resolve path = none ∧
      ∀ names, ¬ Through s.childNamed tmpfsRoot names td → s'.reach names = s.reach names := by
  have hRelinks := hStep.relinks hs hs' hLeaf
  constructor
  · obtain ⟨front, b, p, hNames, hFront, hChild⟩ := follow_last hResolve hStep.notRoot
    rw [resolve, hNames]
    refine hRelinks.follow_none hFront (fun w hw hOut => ?_) hChild rfl (fun _ => id) []
    -- a walk past the node does not come to the parent of the node
    rw [hOut] at hw
    exact hs.not_below_child hChild (hs.below_of_through hFront hw)
  · intro names hAvoids
    refine hRelinks.follow_eq (fun w hw hOut => ?_) fun _ _ _ hNew => hNew.elim
    rw [hOut] at hw
    exact hAvoids hw

/-- **`tmpfs_unlink` removes one node.**  The call returns; it returns 0 exactly when the path begins with a
slash and leads to a node other than the root that is a file or a directory without children.  Then the path
leads nowhere, every path that does not pass the node leads to where it led, and the other nodes have what
they had.  Otherwise nothing has changed. -/
theorem tmpfsUnlink_removes (h : WellFormed s) {fuel : Nat} {path : Str} (hFuel : path.length ≤ fuel) :
    (s.heap.mmSpinlock = false → ∃ r s', tmpfsUnlink fuel path s = .ok r s') ∧
    ∀ r s', tmpfsUnlink fuel path s = .ok r s' →
      (r = 0 ↔ ∃ td, Unlinkable s path td) ∧
      (∀ td, r = 0 → s.resolve path = some td →
        s'.resolve path = none ∧
        (∀ names, ¬ Through s.childNamed tmpfsRoot names td → s'.reach names = s.reach names) ∧
        ∀ x d, x ≠ td → s.node x = some d → ∃ e, s'.node x = some e ∧ e.name = d.name ∧
          e.type = d.type ∧ e.size = d.size ∧ e.data = d.data) ∧
      (r ≠ 0 → s' = s) := by
  refine ⟨tmpfsUnlink_ok h hFuel, fun r s' hCall => ?_⟩
  rcases tmpfsUnlink_eq_ok hCall with ⟨rfl, hErr, hNot⟩ | ⟨rfl, hPath, td, d, hFound, hStep⟩
  · have hNotUnlinkable : ¬ ∃ td, Unlinkable s' path td := by
      rintro ⟨td, hAbsolute, hResolve, hRoot, d, hd, hLeaf⟩
      refine hNot ⟨td, d, badPath_eq_false hAbsolute hResolve hRoot, ?_, hRoot, hd, fun hDir => ?_⟩
      · rw [h.lookup_eq hAbsolute hFuel, hResolve]
      · rcases hLeaf with hFile | hEmpty
        · rw [hDir] at hFile
          cases hFile
        · exact hEmpty
    refine ⟨⟨fun hZero => absurd hZero hErr.ne, fun hYes => absurd hYes hNotUnlinkable⟩,
      fun _ hZero => absurd hZero hErr.ne, fun _ => rfl⟩
  · have hSlash := (path_of_badPath hPath).1
    have hResolve : s.resolve path = some td := by
      rw [h.lookup_eq hSlash hFuel, Option.some.injEq] at hFound
      exact hFound
    have hLeaf : d.children = [] := by
      cases hType : d.type with
      | file => exact h.types.children td d hStep.found hType
      | dir => exact hStep.empty hType
    have hTree : NamedTree s' := ⟨h.tree.remove hStep hLeaf, h.names.remove hStep⟩
    refine ⟨⟨fun _ => ⟨td, hSlash, hResolve, hStep.notRoot, d, hStep.found, Or.inr hLeaf⟩, fun _ => rfl⟩,
      fun td' _ hResolve' => ?_, fun hNe => absurd rfl hNe⟩
    cases hResolve.symm.trans hResolve'
    obtain ⟨hNone, hOther⟩ := hStep.paths h.toNamedTree hTree hLeaf hResolve
    refine ⟨hNone, hOther, fun x c hx hc => ?_⟩
    exact ⟨_, hStep.node_eq_some.mpr ⟨hx, c, hc, rfl⟩, rfl, rfl, rfl, rfl⟩

/-- `/a/b` is removed. -/
theorem tmpfsUnlink_removes_ab :
    ∃ s', tmpfsUnlink 4 pathAB tmpfsAB = .ok 0 s' ∧ s'.resolve pathAB = none := by
  have hCall : tmpfsUnlink 4 pathAB tmpfsAB = .ok 0 (finalState (tmpfsUnlink 4 pathAB tmpfsAB)) :=
    eq_ok_of_value (by decide)
  have hFound : tmpfsAB.resolve pathAB = some 3 := by decide
  exact ⟨_, hCall, (((tmpfsUnlink_removes wellFormed_tmpfsAB (by decide)).2 _ _ hCall).2.1 3 rfl hFound).1⟩

/-! ## `tmpfs_rename` returns -/

theorem tmpfsKzalloc_ok {size : Nat} (hFree : s.heap.mmSpinlock = false)
    (hMemory : ∀ n, s.heap.memory n = true) (hSize : size ≠ 0) :
    ∃ s', kzalloc size s = .ok (some s.heap.kzallocs) s' ∧ s'.node = s.node ∧
      s'.heap.mmSpinlock = false ∧ ∀ n, s'.heap.memory n = true := by
  refine ⟨{ s with heap := { s.heap with kzallocs := s.heap.kzallocs + 1 } }, ?_, rfl, hFree, hMemory⟩
  simp only [kzalloc, KernelHeap.kzalloc, hFree, Bool.false_eq_true, if_false, hMemory, and_true,
    if_pos hSize]

theorem intOfLength_of_lt {n : Nat} (h : n < 2 ^ 31) : intOfLength n = n := by
  rw [intOfLength, BitVec.toInt_eq_toNat_cond, BitVec.toNat_ofNat, Nat.mod_eq_of_lt (by omega),
    if_pos (by omega)]

theorem sizeOfLength_ne_zero {n : Nat} (h : n < 2 ^ 31) : sizeOfLength (n + 1) ≠ 0 := by
  simp only [sizeOfLength, BitVec.toNat_ofInt]
  omega

theorem memcpyStr_ok {src : Str} {n : Nat} (h : n ≤ src.length) :
    memcpyStr src n s = .ok (src.take n) s := by
  rw [memcpyStr, if_pos ⟨by omega, by omega⟩, Int.toNat_natCast]
  rfl

theorem moveNode_ok {src dir : Nat} {name : Str} (hFree : s.heap.mmSpinlock = false)
    (hMemory : ∀ n, s.heap.memory n = true) (hShort : name.length < 2 ^ 31) (hSrc : s.Live src)
    (hDir : s.Live dir) (hRoot : src ≠ tmpfsRoot) :
    ∃ s', moveNode src dir name name.length s = .ok 0 s' := by
  obtain ⟨t, hAlloc, hNode, hFreeT, -⟩ := tmpfsKzalloc_ok hFree hMemory (sizeOfLength_ne_zero hShort)
  obtain ⟨d, hd⟩ := live_iff.mp hSrc
  obtain ⟨c, hc⟩ := live_iff.mp hDir
  rw [← hNode] at hd hc
  rw [moveNode, bind_ok hAlloc]
  simp only
  rw [bind_ok (memcpyStr_ok (le_refl _)), bind_ok (nodeAt_ok hd)]
  have hDel : (modify fun s => s.listDel src : TmpfsM Unit) t = .ok () (t.listDel src) := rfl
  have hName : kfreeName src (t.listDel src) = .ok () (t.listDel src) := tmpfsKfreeName_ok hFreeT hRoot
  rw [bind_ok hDel, bind_ok hName]
  -- the new parent is still there
  obtain ⟨c', hc'⟩ : ∃ c', ((t.listDel src).setNode src fun d =>
      { d with name := name.take name.length, nmlen := name.length, parent := some dir }).node dir =
        some c' := by
    simp only [setNode, listDel, hc, Option.map_some]
    split
    · exact ⟨_, rfl⟩
    · exact ⟨_, rfl⟩
  have hSet : (modify fun s => s.setNode src fun d =>
      { d with name := name.take name.length, nmlen := name.length, parent := some dir } :
        TmpfsM Unit) (t.listDel src) = .ok () ((t.listDel src).setNode src fun d =>
          { d with name := name.take name.length, nmlen := name.length, parent := some dir }) := rfl
  rw [bind_ok hSet, bind_ok (nodeAt_ok hc')]
  exact ⟨_, rfl⟩

theorem renameTo_ok {src dir : Nat} {name : Str} {c : TmpfsDentry} (hFree : s.heap.mmSpinlock = false)
    (hMemory : ∀ n, s.heap.memory n = true) (hShort : name.length < 2 ^ 31) (hSrc : s.Live src)
    (hRoot : src ≠ tmpfsRoot) (hc : s.node dir = some c) (hDir : c.type = .dir)
    (hTarget : ∀ e, s.findChild dir name name.length = some e → e ≠ src ∧ e ≠ dir ∧ e ≠ tmpfsRoot ∧
      ∃ d, s.node e = some d ∧ (d.type = .dir → d.children = [])) :
    ∃ s', renameTo src dir name name.length s = .ok 0 s' := by
  rw [renameTo, bind_ok (nodeAt_ok hc), if_neg (not_not.mpr hDir), bind_ok (get_apply s)]
  cases hFind : s.findChild dir name name.length with
  | none =>
      simp only
      exact moveNode_ok hFree hMemory hShort hSrc (live_iff.mpr ⟨c, hc⟩) hRoot
  | some e =>
      obtain ⟨hNotSrc, hNotDir, hNotRoot, d, hd, hEmpty⟩ := hTarget e hFind
      obtain ⟨t, hDentry, hHeap⟩ := tmpfsFreeDentry_ok hd hFree hNotRoot
      obtain ⟨-, -, -, hNode, -⟩ := tmpfsFreeDentry_eq_ok hDentry
      have hLive : ∀ x, x ≠ e → s.Live x → t.Live x := by
        intro x hx hLive
        obtain ⟨b, hb⟩ := live_iff.mp hLive
        rw [Live, hNode]
        simp only [dropNode, listDel, if_neg hx, hb, Option.map_some, Option.isSome_some]
      simp only
      rw [bind_ok (nodeAt_ok hd), if_neg (fun hFull => hFull.2 (hEmpty hFull.1)), bind_ok hDentry]
      refine moveNode_ok ?_ ?_ hShort (hLive src (Ne.symm hNotSrc) hSrc)
        (hLive dir (Ne.symm hNotDir) (live_iff.mpr ⟨c, hc⟩)) hRoot
      · rw [hHeap]
        exact hFree
      · rw [hHeap]
        exact hMemory

theorem NamedTree.newParentOf_ok (h : NamedTree s) {fuel : Nat} {front rest : Str} {dir : Nat}
    (hFree : s.heap.mmSpinlock = false) (hMemory : ∀ n, s.heap.memory n = true)
    (hSlash : (front ++ slash :: rest).head? = some slash) (hFuel : front.length ≤ fuel)
    (hShort : front.length < 2 ^ 31) (hResolve : s.resolve front = some dir) :
    ∃ s', newParentOf fuel (front ++ slash :: rest) front.length s = .ok (0, some dir) s' ∧
      s'.node = s.node ∧ s'.heap.mmSpinlock = false ∧ ∀ n, s'.heap.memory n = true := by
  rw [newParentOf]
  cases front with
  | nil =>
      cases hResolve
      exact ⟨s, rfl, rfl, hFree, hMemory⟩
  | cons x front =>
      have hHead : (x :: front).head? = some slash := hSlash
      generalize x :: front = path at *
      have hPos : path.length ≠ 0 := by
        rintro hZero
        rw [List.length_eq_zero_iff.mp hZero] at hHead
        cases hHead
      obtain ⟨t, hAlloc, hNode, hFreeT, hMemoryT⟩ :=
        tmpfsKzalloc_ok hFree hMemory (sizeOfLength_ne_zero hShort)
      have hTree : NamedTree t := h.quiet (kzalloc_eq_ok hAlloc).1
      have hSame : t.resolve path = some dir := by
        rw [resolve, reach_congr hNode]
        exact hResolve
      have hCopy : memcpyStr (path ++ slash :: rest) path.length t = .ok path t := by
        rw [memcpyStr_ok (by rw [List.length_append]; omega), List.take_left]
      refine ⟨t, ?_, hNode, hFreeT, hMemoryT⟩
      rw [if_neg hPos]
      simp only [intOfLength_of_lt hShort]
      rw [bind_ok hAlloc]
      simp only
      rw [bind_ok hCopy, bind_ok (hTree.lookup_ok hHead hFuel), bind_ok (tmpfsKfree_ok hFreeT), hSame]
      rfl

/-! ## `tmpfs_rename`, when it succeeds -/

theorem Tmpfs.Renames.unique {fuel fuel' : Nat} {oldpath newpath name name' : Str} {src src' dir dir' : Nat}
    (h : Renames s fuel oldpath newpath src dir name)
    (h' : Renames s fuel' oldpath newpath src' dir' name') : src = src' ∧ dir = dir' ∧ name = name' := by
  obtain ⟨i, hi, hDir, rfl⟩ := h.cut
  obtain ⟨j, hj, hDir', rfl⟩ := h'.cut
  cases hi.symm.trans hj
  refine ⟨?_, ?_, rfl⟩
  · cases lookup_unique h.source h'.source
    rfl
  · rw [newParent] at hDir hDir'
    by_cases hZero : i = 0
    · rw [if_pos hZero] at hDir hDir'
      cases hDir
      cases hDir'
      rfl
    · rw [if_neg hZero] at hDir hDir'
      cases lookup_unique hDir hDir'
      rfl

/-- What `tmpfs_rename` is asked to do: the node `src` is to get the name `name` below the directory `dir`,
which is not in the subtree of `src`, and there is at most a file or a directory without children in its
way. -/
structure MoveRequest (s : Tmpfs) (oldpath newpath front name : Str) (src dir : Nat) : Prop where
  absolute : oldpath.head? = some slash ∧ newpath.head? = some slash
  source : s.resolve oldpath = some src
  notRoot : src ≠ tmpfsRoot
  cut : newpath = front ++ slash :: name
  last : slash ∉ name
  parent : s.resolve front = some dir
  isDir : ∃ c, s.node dir = some c ∧ c.type = .dir
  outside : ¬ Below s.parentOf dir src
  target : ∀ e d, s.resolve newpath = some e → s.node e = some d →
    e ≠ src ∧ (d.type = .dir → d.children = [])

namespace MoveRequest

variable {oldpath newpath front name : Str} {src dir : Nat}

theorem names (h : MoveRequest s oldpath newpath front name src dir) (hName : name ≠ []) :
    pathNames newpath = pathNames front ++ [name] := by
  rw [h.cut, pathNames_append, pathNames_single hName h.last]

/-- What is at the new path is the child of the new parent with the new name. -/
theorem resolve_new (h : MoveRequest s oldpath newpath front name src dir) (hName : name ≠ []) :
    s.resolve newpath = s.childNamed dir name := by
  rw [resolve, h.names hName]
  exact follow_snoc h.parent name

theorem oldpath_length (h : MoveRequest s oldpath newpath front name src dir) : oldpath.length ≠ 1 := by
  intro hOne
  have hBad := badPath_eq_false h.absolute.1 h.source h.notRoot
  simp [badPath, hOne] at hBad

theorem front_head (h : MoveRequest s oldpath newpath front name src dir) (hFront : front ≠ []) :
    front.head? = some slash := by
  have hHead := h.absolute.2
  rw [h.cut] at hHead
  cases front with
  | nil => exact absurd rfl hFront
  | cons x front => exact hHead

theorem findChild_eq (h : MoveRequest s oldpath newpath front name src dir) (hTree : NamedTree s)
    (hName : name ≠ []) : s.findChild dir name name.length = s.resolve newpath := by
  rw [h.resolve_new hName, hTree.findChild_eq ⟨by omega, by omega⟩, Int.toNat_natCast, List.take_length]

/-- The code finds the nodes of the request. -/
theorem renames (h : MoveRequest s oldpath newpath front name src dir) (hTree : NamedTree s)
    (hName : GoodName name) (hShort : front.length < 2 ^ 31) {fuel : Nat}
    (hFuel : oldpath.length ≤ fuel ∧ newpath.length ≤ fuel) :
    Renames s fuel oldpath newpath src dir name := by
  have hNameLength := List.length_pos_iff.mpr hName.nonempty
  have hNameShort := hName.short
  have hInt : intOfLength name.length = name.length := intOfLength_of_lt (by omega)
  have hMax : fsNameMax = 255 := rfl
  refine ⟨h.absolute, h.oldpath_length, ?_, ⟨front.length, ?_, ?_, ?_⟩, by omega⟩
  · rw [hTree.lookup_eq h.absolute.1 hFuel.1, h.source]
  · rw [h.cut]
    exact strrchr_append_cons h.last front
  · rw [newParent]
    by_cases hFront : front = []
    · have hRoot := h.parent
      rw [hFront, resolve, pathNames_nil] at hRoot
      rw [if_pos (by rw [hFront]; rfl)]
      exact congrArg some hRoot
    · have hFits : front.length ≤ fuel := by
        have hCut := congrArg List.length h.cut
        rw [List.length_append] at hCut
        omega
      rw [if_neg (fun hZero => hFront (List.length_eq_zero_iff.mp hZero)), intOfLength_of_lt hShort,
        Int.toNat_natCast, h.cut, List.take_left, hTree.lookup_eq (h.front_head hFront) hFits, h.parent]
  · rw [h.cut, ← List.drop_drop, List.drop_left, List.drop_succ_cons, List.drop_zero]

/-- With memory, the call returns 0. -/
theorem returns (h : MoveRequest s oldpath newpath front name src dir) (hTree : NamedTree s)
    (hName : GoodName name) (hShort : front.length < 2 ^ 31) (hFree : s.heap.mmSpinlock = false)
    (hMemory : ∀ n, s.heap.memory n = true) {fuel : Nat}
    (hFuel : oldpath.length ≤ fuel ∧ newpath.length ≤ fuel) :
    ∃ s', tmpfsRename fuel oldpath newpath s = .ok 0 s' := by
  have hNameLength := List.length_pos_iff.mpr hName.nonempty
  have hNameShort := hName.short
  have hMax : fsNameMax = 255 := rfl
  have hLength := congrArg List.length h.cut
  rw [List.length_append, List.length_cons] at hLength
  have hLookup := hTree.lookup_ok h.absolute.1 hFuel.1
  rw [h.source] at hLookup
  have hFits : front.length ≤ fuel := by omega
  obtain ⟨t, hParent, hNode, hFreeT, hMemoryT⟩ := hTree.newParentOf_ok hFree hMemory
    (h.cut ▸ h.absolute.2) hFits hShort h.parent
  rw [← h.cut] at hParent
  have hLast : strrchr newpath slash = some front.length := by
    rw [h.cut]
    exact strrchr_append_cons h.last front
  have hDrop : newpath.drop (front.length + 1) = name := by
    rw [h.cut, ← List.drop_drop, List.drop_left, List.drop_succ_cons, List.drop_zero]
  rw [tmpfsRename, if_neg (by simp [h.absolute.1, h.absolute.2]), if_neg h.oldpath_length, bind_ok hLookup]
  simp only [hLast, hDrop, intOfLength_of_lt (show name.length < 2 ^ 31 by omega)]
  rw [if_neg (by omega), bind_ok hParent]
  simp only
  obtain ⟨c, hc, hDir⟩ := h.isDir
  refine renameTo_ok hFreeT hMemoryT (by omega) ?_ h.notRoot (hNode ▸ hc) hDir fun e hFind => ?_
  · rw [Live, hNode]
    exact hTree.live_of_reach h.source
  · rw [findChild_congr hNode, h.findChild_eq hTree hName.nonempty] at hFind
    obtain ⟨d, hd⟩ := live_iff.mp (hTree.live_of_reach hFind)
    obtain ⟨hNotSrc, hEmpty⟩ := h.target e d hFind hd
    rw [h.resolve_new hName.nonempty] at hFind
    refine ⟨hNotSrc, ?_, ?_, d, hNode ▸ hd, hEmpty⟩
    · rintro rfl
      exact hTree.not_below_child hFind .refl
    · rintro rfl
      have hUp := hTree.parentOf_child hFind
      rw [hTree.tree.tree.rootParent] at hUp
      cases hUp

/-- The request keeps the tree. -/
theorem keepsTree (h : MoveRequest s oldpath newpath front name src dir) (hs : WellFormed s)
    (hName : GoodName name) (hShort : front.length < 2 ^ 31) : KeepsTree s (.rename oldpath newpath) := by
  intro fuel src' dir' name' hRenames _ _
  obtain ⟨rfl, rfl, rfl⟩ := hRenames.unique (h.renames hs.toNamedTree hName hShort
    ⟨le_max_left oldpath.length newpath.length, le_max_right oldpath.length newpath.length⟩)
  have hNameShort := hName.short
  have hInt : intOfLength name'.length = name'.length := intOfLength_of_lt (by omega)
  refine ⟨fun e d _ hd hFile => hs.types.children e d hd hFile, fun hFind => ?_, h.notRoot, h.outside⟩
  rw [hInt, h.findChild_eq hs.toNamedTree hName.nonempty] at hFind
  obtain ⟨d, hd⟩ := live_iff.mp (hs.live_of_reach hFind)
  exact (h.target src' d hFind hd).1 rfl

/-- What the call has done to the links and the nodes. -/
theorem relinks (h : MoveRequest s oldpath newpath front name src dir) (hs : WellFormed s)
    (hName : GoodName name) (hShort : front.length < 2 ^ 31) (hs' : NamedTree s') {fuel : Nat}
    (hFuel : oldpath.length ≤ fuel ∧ newpath.length ≤ fuel)
    (hCall : tmpfsRename fuel oldpath newpath s = .ok 0 s') :
    Relinks s.childNamed s'.childNamed (fun x => x = src ∨ s.childNamed dir name = some x)
        (fun p b x => p = dir ∧ b = name ∧ x = src) ∧
      ∀ x d, s.node x = some d → s.childNamed dir name ≠ some x → ∃ e, s'.node x = some e ∧
        e.type = d.type ∧ e.size = d.size ∧ e.data = d.data ∧ (x ≠ src → e.name = d.name) := by
  have hNameShort := hName.short
  have hInt : intOfLength name.length = name.length := intOfLength_of_lt (by omega)
  have hTake : name.take (intOfLength name.length).toNat = name := by
    rw [hInt, Int.toNat_natCast, List.take_length]
  rcases tmpfsRename_eq_ok hCall with ⟨hErr, -⟩ | ⟨src', dir', name', t, hRenames, hQuiet, -, -, -, hOutcome⟩
  · cases hErr
  obtain ⟨rfl, rfl, rfl⟩ := (h.renames hs.toNamedTree hName hShort hFuel).unique hRenames
  have ht : NamedTree t := hs.toNamedTree.quiet hQuiet
  have hFindEq : t.findChild dir name (intOfLength name.length) = s.childNamed dir name := by
    rw [findChild_congr hQuiet.node, hInt, h.findChild_eq hs.toNamedTree hName.nonempty,
      h.resolve_new hName.nonempty]
  cases hOutcome with
  | same hErr => cases hErr
  | removed _ _ _ hErr => cases hErr
  | moved _ _ hAbsent hMove =>
      rw [hFindEq] at hAbsent
      have hLinks := hMove.relinks ht hs' hTake
      rw [childNamed_congr hQuiet.node] at hLinks
      rw [hAbsent]
      refine ⟨fun p b x => ?_, fun x d hd _ => ?_⟩
      · simpa using hLinks p b x
      · rw [← hQuiet.node] at hd
        refine ⟨_, hMove.node_eq_some.mpr ⟨d, hd, rfl⟩, rfl, rfl, rfl, fun hx => ?_⟩
        exact if_neg hx
  | replaced u e d _ _ hReplaces hRemove hMove =>
      have hFind := hReplaces.find
      rw [hFindEq] at hFind
      have hLeaf : d.children = [] := by
        refine hRemove.leaf fun hFile => ?_
        refine hs.types.children e d ?_ hFile
        rw [← hQuiet.node]
        exact hReplaces.node
      have hu : NamedTree u := ⟨ht.tree.remove hRemove hLeaf, ht.names.remove hRemove⟩
      have hFirst := hRemove.relinks ht hu hLeaf
      have hLinks := hMove.relinks hu hs' hTake
      rw [childNamed_congr hQuiet.node] at hFirst
      rw [hFind]
      refine ⟨fun p b x => ?_, fun x c hc hx => ?_⟩
      · rw [hLinks p b x, hFirst p b x]
        simp only [false_or, not_or, Option.some.injEq, and_assoc, eq_comm (a := e)]
      · rw [← hQuiet.node] at hc
        have hKept := hRemove.node_eq_some.mpr ⟨fun hEq => hx (congrArg some hEq.symm), c, hc, rfl⟩
        refine ⟨_, hMove.node_eq_some.mpr ⟨_, hKept, rfl⟩, rfl, rfl, rfl, fun hx => ?_⟩
        exact if_neg hx

end MoveRequest

section Moved

variable {oldpath newpath front name : Str} {src dir : Nat}
  (h : MoveRequest s oldpath newpath front name src dir) (hs : NamedTree s)
  (hLinks : Relinks s.childNamed s'.childNamed (fun x => x = src ∨ s.childNamed dir name = some x)
    fun p b x => p = dir ∧ b = name ∧ x = src)

include h hs hLinks

/-- The subtree is found at its new place. -/
theorem reach_moved (hName : name ≠ []) (names : List Str) :
    s'.reach (pathNames newpath ++ names) = s.reach (pathNames oldpath ++ names) := by
  have hDir : s'.reach (pathNames front) = some dir := by
    refine hLinks.follow_kept h.parent fun z hz hOut => ?_
    have hBelow := hs.below_of_through h.parent hz
    rcases hOut with rfl | hTarget
    · exact h.outside hBelow
    · exact hs.not_below_child hTarget hBelow
  have hSrc : s'.reach (pathNames newpath) = some src := by
    rw [h.names hName, reach, follow_snoc hDir]
    exact (hLinks dir name src).mpr (Or.inl ⟨rfl, rfl, rfl⟩)
  rw [reach, reach, follow_append_of_some hSrc, follow_append_of_some h.source]
  -- nothing has changed at the nodes below `src`
  have hClosed : ∀ x b y, Below s.parentOf x src → s.childNamed x b = some y → Below s.parentOf y src :=
    fun x b y hx hy => Relation.ReflTransGen.head (hs.parentOf_child hy) hx
  refine follow_eq_of_closed hClosed (fun x b hx => ?_) .refl names
  have hNotDir : x ≠ dir := by
    rintro rfl
    exact h.outside hx
  refine Option.ext fun y => ?_
  rw [hLinks x b y]
  constructor
  · rintro (⟨hDir, -⟩ | ⟨-, hFind⟩)
    · exact absurd hDir hNotDir
    · exact hFind
  · intro hFind
    refine Or.inr ⟨?_, hFind⟩
    rintro (rfl | hTarget)
    · exact hs.not_below_child hFind hx
    · have hUp := hs.parentOf_child hTarget
      rw [hs.parentOf_child hFind, Option.some.injEq] at hUp
      exact hNotDir hUp

/-- A path by way of the old place of the subtree leads nowhere. -/
theorem reach_old (hName : name ≠ []) (hWellFormed : WellFormed s) {names : List Str}
    (hThrough : Through s.childNamed tmpfsRoot names src) : s'.reach names = none := by
  obtain ⟨start, ⟨rest, rfl⟩, hStart⟩ := hThrough
  obtain ⟨init, b, p, rfl, hInit, hChild⟩ := follow_last hStart h.notRoot
  rw [List.append_assoc]
  refine hLinks.follow_none hInit (fun z hz hOut => ?_) hChild (Or.inl rfl) (fun w hNew => ?_) rest
  · rcases hOut with rfl | hTarget
    · exact hs.not_below_child hChild (hs.below_of_through hInit hz)
    · -- what is in the way has no children, and so is not above `src`
      rw [← h.resolve_new hName] at hTarget
      obtain ⟨d, hd⟩ := live_iff.mp (hs.live_of_reach hTarget)
      have hLeaf : d.children = [] := by
        cases hType : d.type with
        | file => exact hWellFormed.types.children z d hd hType
        | dir => exact (h.target z d hTarget hd).2 hType
      obtain ⟨mid, ⟨more, rfl⟩, hMid⟩ := hz
      rw [follow_append_of_some hMid] at hInit
      rw [follow_childless hd hLeaf hInit, follow_nil, Option.some.injEq] at hInit
      obtain ⟨c, -, hc, hMem, -⟩ := hs.childNamed_eq_some.mp hChild
      rw [← hInit, hd, Option.some.injEq] at hc
      rw [← hc, hLeaf] at hMem
      cases hMem
  · obtain ⟨rfl, rfl, rfl⟩ := hNew
    rw [← h.resolve_new hName] at hChild
    obtain ⟨d, hd⟩ := live_iff.mp (hs.live_of_reach hChild)
    exact (h.target _ d hChild hd).1 rfl

omit hs in
/-- The other paths lead to where they led. -/
theorem reach_other (hName : name ≠ []) {names : List Str}
    (hOld : ¬ Through s.childNamed tmpfsRoot names src)
    (hNew : ¬ Through s'.childNamed tmpfsRoot names src)
    (hTarget : ∀ e, s.resolve newpath = some e → ¬ Through s.childNamed tmpfsRoot names e) :
    s'.reach names = s.reach names := by
  refine hLinks.follow_eq (fun z hz hOut => ?_) fun p b z hLink hz => ?_
  · rcases hOut with rfl | hFind
    · exact hOld hz
    · rw [← h.resolve_new hName] at hFind
      exact hTarget z hFind hz
  · rw [hLink.2.2] at hz
    exact hNew hz

end Moved

/-- **`tmpfs_rename` moves a subtree.**  With memory, a request that can be carried out returns 0.  Then
what was below the old path is below the new one, the paths by way of the old place lead nowhere, the paths
that pass neither the node, at either place, nor what was in its way lead to where they led, all nodes but
the one in the way have what they had, and the file system is well formed. -/
theorem tmpfsRename_moves (hs : WellFormed s) {oldpath newpath front name : Str} {src dir : Nat}
    (h : MoveRequest s oldpath newpath front name src dir) (hName : GoodName name)
    (hShort : front.length < 2 ^ 31) (hFree : s.heap.mmSpinlock = false)
    (hMemory : ∀ n, s.heap.memory n = true) {fuel : Nat}
    (hFuel : oldpath.length ≤ fuel ∧ newpath.length ≤ fuel) :
    ∃ s', tmpfsRename fuel oldpath newpath s = .ok 0 s' ∧ WellFormed s' ∧
      (∀ names, s'.reach (pathNames newpath ++ names) = s.reach (pathNames oldpath ++ names)) ∧
      (∀ names, Through s.childNamed tmpfsRoot names src → s'.reach names = none) ∧
      (∀ names, ¬ Through s.childNamed tmpfsRoot names src → ¬ Through s'.childNamed tmpfsRoot names src →
        (∀ e, s.resolve newpath = some e → ¬ Through s.childNamed tmpfsRoot names e) →
        s'.reach names = s.reach names) ∧
      ∀ x d, s.node x = some d → s.resolve newpath ≠ some x → ∃ e, s'.node x = some e ∧
        e.type = d.type ∧ e.size = d.size ∧ e.data = d.data ∧ (x ≠ src → e.name = d.name) := by
  obtain ⟨s', hCall⟩ := h.returns hs.toNamedTree hName hShort hFree hMemory hFuel
  have hTree : NamedTree s' :=
    ⟨hs.tree.rename (h.keepsTree hs hName hShort) hCall, hs.names.rename hCall⟩
  obtain ⟨hLinks, hNodes⟩ := h.relinks hs hName hShort hTree hFuel hCall
  have hNe := hName.nonempty
  refine ⟨s', hCall, ⟨hTree, hs.types.rename hCall⟩, reach_moved h hs.toNamedTree hLinks hNe,
    fun names => reach_old h hs.toNamedTree hLinks hNe hs,
    fun names => reach_other h hLinks hNe, ?_⟩
  rw [h.resolve_new hNe]
  exact hNodes

/-- The path `/a`. -/
def tmpPathA : Str := [0x2f#8, 0x61#8]

/-- The path `/b`. -/
def tmpPathB : Str := [0x2f#8, 0x62#8]

/-- Nothing but the root is above the root. -/
theorem NamedTree.not_below_root (h : NamedTree s) {x : Nat} (hx : x ≠ tmpfsRoot) :
    ¬ Below s.parentOf tmpfsRoot x := by
  intro hBelow
  rcases Relation.ReflTransGen.cases_head hBelow with hEq | ⟨p, hUp, -⟩
  · exact hx hEq.symm
  · cases h.tree.tree.rootParent.symm.trans hUp

/-- `/a/b` is moved to `/b`. -/
theorem tmpfsRename_moves_ab :
    ∃ s', tmpfsRename 4 pathAB tmpPathB tmpfsAB = .ok 0 s' ∧ s'.reach [[0x62#8]] = some 3 := by
  have hRequest : MoveRequest tmpfsAB pathAB tmpPathB [] [0x62#8] 3 0 := by
    refine ⟨by decide, by decide, by decide, rfl, by decide, by decide, ⟨_, rfl, rfl⟩,
      wellFormed_tmpfsAB.not_below_root (by decide), fun e d hResolve => ?_⟩
    have hNone : tmpfsAB.resolve tmpPathB = none := by decide
    cases hNone.symm.trans hResolve
  have hFuel : pathAB.length ≤ 4 ∧ tmpPathB.length ≤ 4 := by decide
  obtain ⟨s', hCall, -, hSubtree, -⟩ := tmpfsRename_moves wellFormed_tmpfsAB hRequest
    ⟨by decide, by decide, by decide⟩ (by decide) rfl (fun _ => rfl) hFuel
  refine ⟨s', hCall, ?_⟩
  have hNames : pathNames tmpPathB = [[0x62#8]] := by decide
  have hOld : tmpfsAB.reach (pathNames pathAB) = some 3 := by decide
  have hFound := hSubtree []
  rwa [hNames, List.append_nil, List.append_nil, hOld] at hFound

/-- A name of 256 bytes. -/
def longName : Str := List.replicate 256 0x62#8

/-- `/a` is to be moved to a name of 256 bytes: the call is refused. -/
theorem tmpfs_rename_long :
    WellFormed tmpfsAB ∧ MoveRequest tmpfsAB tmpPathA (slash :: longName) [] longName 1 0 ∧
      tmpfsAB.heap.mmSpinlock = false ∧ (∀ n, tmpfsAB.heap.memory n = true) ∧
      tmpfsRename 257 tmpPathA (slash :: longName) tmpfsAB = .ok errInval tmpfsAB := by
  have hSlash : slash ∉ longName := fun hMem => absurd (List.eq_of_mem_replicate hMem) (by decide)
  have hNe : longName ≠ [] := List.cons_ne_nil _ _
  have hNone : tmpfsAB.resolve (slash :: longName) = none := by
    rw [resolve, pathNames_cons_slash, pathNames_single hNe hSlash, reach, follow_cons,
      wellFormed_tmpfsAB.childNamed_none, Option.bind_none]
    intro hGood
    have hShort := hGood.short
    rw [longName, List.length_replicate] at hShort
    omega
  have hLast : strrchr (slash :: longName) slash = some 0 := strrchr_append_cons hSlash []
  have hLength : intOfLength longName.length = 256 := by
    rw [longName, List.length_replicate]
    decide
  have hLookup : tmpfsLookup 257 tmpPathA tmpfsAB = .ok (tmpfsAB.resolve tmpPathA) tmpfsAB :=
    wellFormed_tmpfsAB.lookup_ok rfl (by decide)
  have hFound : tmpfsAB.resolve tmpPathA = some 1 := by decide
  refine ⟨wellFormed_tmpfsAB, ⟨⟨rfl, rfl⟩, hFound, by decide, rfl, hSlash, by decide, ⟨_, rfl, rfl⟩,
    wellFormed_tmpfsAB.not_below_root (by decide), fun e d hResolve => ?_⟩, rfl, fun _ => rfl, ?_⟩
  · cases hNone.symm.trans hResolve
  · rw [hFound] at hLookup
    rw [tmpfsRename, if_neg (by decide), if_neg (by decide), bind_ok hLookup]
    simp only [hLast, List.drop_succ_cons, List.drop_zero, hLength]
    rfl

/-! ## `tmpfs_rename`, when it fails -/

theorem Tmpfs.Replaces.congr {t : Tmpfs} {dir e : Nat} {name : Str} {d : TmpfsDentry}
    (h : Replaces s dir name e d) (hNode : t.node = s.node) : Replaces t dir name e d := by
  obtain ⟨hDir, hFind, hd, hEmpty⟩ := h
  rw [← hNode] at hDir hd
  exact ⟨hDir, (findChild_congr hNode dir name _).trans hFind, hd, hEmpty⟩

/-- `tmpfs_rename` comes to the point where it gives back the node in the way, and there is no memory for
the new name after that. -/
def RemovesThenFails (s : Tmpfs) (fuel : Nat) (oldpath newpath : Str) : Prop :=
  ∃ src dir name e d, Renames s fuel oldpath newpath src dir name ∧ ParentCopied s newpath ∧
    Replaces s dir name e d ∧ s.heap.memory (s.nameRequest newpath) = false

/-- The directories `/a` and `/b`, and no more memory. -/
def tmpfsFull : Tmpfs :=
  finalState (tmpfsMkdir 3 tmpPathB (finalState (tmpfsMkdir 3 tmpPathA (tmpfsEmpty fun i => i < 5))))

theorem wellFormed_tmpfsFull : WellFormed tmpfsFull := by
  have hA : tmpfsMkdir 3 tmpPathA (tmpfsEmpty fun i => i < 5) =
      .ok 0 (finalState (tmpfsMkdir 3 tmpPathA (tmpfsEmpty fun i => i < 5))) := eq_ok_of_value (by decide)
  have hB : tmpfsMkdir 3 tmpPathB (finalState (tmpfsMkdir 3 tmpPathA (tmpfsEmpty fun i => i < 5))) =
      .ok 0 tmpfsFull := eq_ok_of_value (by decide)
  exact ((wellFormed_empty _).mkdir (componentsIntSized_of_length (by decide)) hA).mkdir
    (componentsIntSized_of_length (by decide)) hB

end Rayos
