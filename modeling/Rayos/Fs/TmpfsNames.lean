import Rayos.Fs.TmpfsPath
import Rayos.Fs.TmpfsRun

/-!
# The names of the memory file system

`NameInv` says that names are non-empty, short and without slashes, that `nmlen` is the length, and that
the children of a node have different names.  The calls that add a node look for its name first, and so
does `tmpfs_rename`, which removes the node it finds.  The names are what they should be as long as the
conversion of a length to `int` does not turn a long component into a short one (`KeepsNames`).
-/

namespace Rayos

open Program CString Tmpfs

variable {s s' : Tmpfs}

/-- A name that a node other than the root may have. -/
structure GoodName (name : Str) : Prop where
  nonempty : name ≠ []
  short : name.length ≤ 255
  noSlash : slash ∉ name

/-- The names are those that the file system is meant to have. -/
structure TmpfsNames (s : Tmpfs) : Prop where
  good : ∀ x d, s.node x = some d → x ≠ tmpfsRoot → GoodName d.name ∧ d.nmlen = d.name.length
  distinct : ∀ p d x y dx dy, s.node p = some d → x ∈ d.children → y ∈ d.children → x ≠ y →
    s.node x = some dx → s.node y = some dy → dx.name ≠ dy.name

/-! ## The invariant -/

/-- The names are as they should be, and `nmlen` is the length of the name also for the root. -/
structure NameInv (s : Tmpfs) : Prop where
  lists : ListInv s
  nmlen : ∀ x d, s.node x = some d → d.nmlen = d.name.length
  names : TmpfsNames s

theorem nameInv_empty (memory : Nat → Bool) : NameInv (tmpfsEmpty memory) := by
  refine ⟨listInv_empty memory, fun x d h => ?_, fun x d h hx => ?_, fun p d x y dx dy h hx => ?_⟩
  · rw [(tmpfsEmpty_node h).2]
    rfl
  · exact absurd (tmpfsEmpty_node h).1 hx
  · rw [(tmpfsEmpty_node h).2] at hx
    cases hx

theorem NameInv.quiet (h : NameInv s) (hQuiet : Quiet s s') : NameInv s' := by
  refine ⟨h.lists.quiet hQuiet, ?_, ?_, ?_⟩
  · rw [hQuiet.node]
    exact h.nmlen
  · rw [hQuiet.node]
    exact h.names.good
  · rw [hQuiet.node]
    exact h.names.distinct

/-- Which nodes have the first bytes of `p` as their name. -/
theorem NameInv.hasName_iff (h : NameInv s) {x : Nat} {d : TmpfsDentry} {p : Str} {len : Int}
    (hd : s.node x = some d) (hLen : 0 ≤ len ∧ len.toNat ≤ p.length) :
    s.hasName p len x = true ↔ d.name = p.take len.toNat := by
  have hNmlen := h.nmlen x d hd
  simp only [hasName, hd, decide_eq_true_eq]
  constructor
  · rintro ⟨hEq, hTake⟩
    rw [← hTake, List.take_of_length_le (by omega)]
  · intro hName
    have hLength := congrArg List.length hName
    rw [List.length_take, Nat.min_eq_left hLen.2] at hLength
    refine ⟨by omega, ?_⟩
    rw [hName, List.take_take, Nat.min_self]

/-- A name that is not found is the name of no child. -/
theorem NameInv.absent (h : NameInv s) {cur x : Nat} {d dx : TmpfsDentry} {p : Str} {len : Int}
    (hLen : 0 ≤ len ∧ len.toNat ≤ p.length) (hFind : s.findChild cur p len = none)
    (hd : s.node cur = some d) (hx : x ∈ d.children) (hdx : s.node x = some dx) :
    dx.name ≠ p.take len.toNat := by
  intro hName
  simp only [findChild, hd, List.find?_eq_none] at hFind
  exact hFind x hx ((h.hasName_iff hdx hLen).mpr hName)

/-- The node that is found has the name. -/
theorem NameInv.found (h : NameInv s) {cur e : Nat} {d de : TmpfsDentry} {p : Str} {len : Int}
    (hLen : 0 ≤ len ∧ len.toNat ≤ p.length) (hFind : s.findChild cur p len = some e)
    (hd : s.node cur = some d) (hde : s.node e = some de) :
    e ∈ d.children ∧ de.name = p.take len.toNat := by
  simp only [findChild, hd] at hFind
  exact ⟨List.mem_of_find?_eq_some hFind, (h.hasName_iff hde hLen).mp (List.find?_some hFind)⟩

theorem NameInv.alloc {cur td : Nat} {p : Str} {type : DentryType} (h : NameInv s)
    (hStep : AllocStep s s' cur p type td) (hGood : GoodName (p.take (componentLen p).toNat)) :
    NameInv s' := by
  have hFree : s.node td = none := by rw [hStep.fresh]; exact h.lists.free
  have hNode := fun i e => hStep.node_eq_some (i := i) (e := e) hFree
  have hNmlen : (addedNode cur p type).nmlen = (addedNode cur p type).name.length := by
    have hFits := hStep.fits
    simp only [addedNode, List.length_take]
    omega
  refine ⟨h.lists.alloc hStep, fun x e he => ?_, fun x e he hx => ?_,
    fun q e x y ex ey he hx hy hne hex hey => ?_⟩
  · rcases (hNode x e).mp he with ⟨-, rfl⟩ | ⟨d, hd, rfl⟩
    · exact hNmlen
    · exact h.nmlen x d hd
  · rcases (hNode x e).mp he with ⟨-, rfl⟩ | ⟨d, hd, rfl⟩
    · exact ⟨hGood, hNmlen⟩
    · exact h.names.good x d hd hx
  · rcases (hNode q e).mp he with ⟨-, rfl⟩ | ⟨d, hd, rfl⟩
    · cases hx
    -- a child is an old one, or the new node below `cur`
    have hChild : ∀ z ez, z ∈ d.children ++ (if q = cur then [td] else []) → s'.node z = some ez →
        (∃ dz, z ∈ d.children ∧ s.node z = some dz ∧ ez.name = dz.name) ∨
          (z = td ∧ q = cur ∧ ez.name = p.take (componentLen p).toNat) := by
      intro z ez hz hez
      rcases List.mem_append.mp hz with hz | hz
      · obtain ⟨dz, hdz, -⟩ := h.lists.child q d z hd hz
        rcases (hNode z ez).mp hez with ⟨rfl, -⟩ | ⟨dz', hdz', rfl⟩
        · rw [hFree] at hdz
          cases hdz
        · exact Or.inl ⟨dz', hz, hdz', rfl⟩
      · split at hz
        · rename_i hq
          obtain rfl := List.mem_singleton.mp hz
          rcases (hNode z ez).mp hez with ⟨-, rfl⟩ | ⟨dz, hdz, -⟩
          · exact Or.inr ⟨rfl, hq, rfl⟩
          · rw [hFree] at hdz
            cases hdz
        · cases hz
    rcases hChild x ex hx hex with ⟨dx, hxOld, hdx, hNameX⟩ | ⟨hxNew, hq, hNameX⟩
    · rcases hChild y ey hy hey with ⟨dy, hyOld, hdy, hNameY⟩ | ⟨-, hq, hNameY⟩
      · rw [hNameX, hNameY]
        exact h.names.distinct q d x y dx dy hd hxOld hyOld hne hdx hdy
      · rw [hNameX, hNameY]
        exact h.absent hStep.fits hStep.absent (hq ▸ hd) hxOld hdx
    · rcases hChild y ey hy hey with ⟨dy, hyOld, hdy, hNameY⟩ | ⟨hyNew, -, -⟩
      · rw [hNameX, hNameY]
        exact Ne.symm (h.absent hStep.fits hStep.absent (hq ▸ hd) hyOld hdy)
      · exact absurd (hxNew.trans hyNew.symm) hne

theorem NameInv.remove {td : Nat} {d : TmpfsDentry} (h : NameInv s) (hStep : RemoveStep s s' td d) :
    NameInv s' := by
  have hNode := fun i e => hStep.node_eq_some (i := i) (e := e)
  refine ⟨h.lists.remove hStep, fun x e he => ?_, fun x e he hx => ?_,
    fun q e x y ex ey he hx hy hne hex hey => ?_⟩
  · obtain ⟨-, c, hc, rfl⟩ := (hNode x e).mp he
    exact h.nmlen x c hc
  · obtain ⟨-, c, hc, rfl⟩ := (hNode x e).mp he
    exact h.names.good x c hc hx
  · obtain ⟨-, c, hc, rfl⟩ := (hNode q e).mp he
    obtain ⟨-, cx, hcx, rfl⟩ := (hNode x ex).mp hex
    obtain ⟨-, cy, hcy, rfl⟩ := (hNode y ey).mp hey
    exact h.names.distinct q c x y cx cy hc (List.mem_filter.mp hx).1 (List.mem_filter.mp hy).1 hne
      hcx hcy

/-- A node is moved to a list on which no other node has its new name. -/
theorem NameInv.move {src dir : Nat} {name : Str} (h : NameInv s) (hStep : MoveStep s s' src dir name)
    (hSlash : slash ∉ name)
    (hOther : ∀ d x dx, s.node dir = some d → x ∈ d.children → x ≠ src → s.node x = some dx →
      dx.name ≠ name.take (intOfLength name.length).toNat) : NameInv s' := by
  have hNode := fun i e => hStep.node_eq_some (i := i) (e := e)
  have hFits := hStep.fits
  have hLength := hStep.nonempty
  have hMoved : ∀ x c, (movedNode src dir name x c).name =
      if x = src then name.take (intOfLength name.length).toNat else c.name := fun _ _ => rfl
  have hNmlen : intOfLength name.length = (name.take (intOfLength name.length).toNat).length := by
    rw [List.length_take]
    omega
  have hGood : GoodName (name.take (intOfLength name.length).toNat) := by
    refine ⟨fun hNil => ?_, ?_, fun hMem => hSlash (List.mem_of_mem_take hMem)⟩
    · rw [hNil, List.length_nil] at hNmlen
      exact hLength.1 hNmlen
    · have hMax : fsNameMax = 255 := rfl
      omega
  refine ⟨h.lists.move hStep, fun x e he => ?_, fun x e he hx => ?_,
    fun q e x y ex ey he hx hy hne hex hey => ?_⟩
  · obtain ⟨c, hc, rfl⟩ := (hNode x e).mp he
    simp only [movedNode]
    split
    · exact hNmlen
    · exact h.nmlen x c hc
  · obtain ⟨c, hc, rfl⟩ := (hNode x e).mp he
    simp only [movedNode]
    split
    · exact ⟨hGood, hNmlen⟩
    · exact h.names.good x c hc hx
  · obtain ⟨c, hc, rfl⟩ := (hNode q e).mp he
    obtain ⟨cx, hcx, rfl⟩ := (hNode x ex).mp hex
    obtain ⟨cy, hcy, rfl⟩ := (hNode y ey).mp hey
    -- a child is an old one, or the node that has been moved to `dir`
    have hChild : ∀ z, z ∈ (movedNode src dir name q c).children →
        (z ∈ c.children ∧ z ≠ src) ∨ (z = src ∧ q = dir) := by
      intro z hz
      rcases List.mem_append.mp hz with hz | hz
      · obtain ⟨hz, hneSrc⟩ := List.mem_filter.mp hz
        exact Or.inl ⟨hz, by simpa using hneSrc⟩
      · split at hz
        · rename_i hq
          exact Or.inr ⟨List.mem_singleton.mp hz, hq⟩
        · cases hz
    rw [hMoved, hMoved]
    rcases hChild x hx with ⟨hx, hxs⟩ | ⟨hxs, hq⟩
    · rcases hChild y hy with ⟨hy, hys⟩ | ⟨hys, hq⟩
      · rw [if_neg hxs, if_neg hys]
        exact h.names.distinct q c x y cx cy hc hx hy hne hcx hcy
      · rw [if_neg hxs, if_pos hys]
        exact hOther c x cx (hq ▸ hc) hx hxs hcx
    · rcases hChild y hy with ⟨hy, hys⟩ | ⟨hys, -⟩
      · rw [if_pos hxs, if_neg hys]
        exact Ne.symm (hOther c y cy (hq ▸ hc) hy hys hcy)
      · exact absurd (hxs.trans hys.symm) hne

theorem NameInv.write {td : Nat} {data : Option (List (BitVec 8))} {size : Nat} (h : NameInv s)
    (hStep : WriteStep s s' td data size) : NameInv s' := by
  have hNode : ∀ x e, s'.node x = some e → ∃ c, s.node x = some c ∧ e.name = c.name ∧
      e.nmlen = c.nmlen ∧ e.children = c.children := by
    intro x e he
    obtain ⟨c, hc, rfl⟩ := hStep.node_eq_some.mp he
    refine ⟨c, hc, ?_⟩
    split <;> exact ⟨rfl, rfl, rfl⟩
  refine ⟨h.lists.write hStep, fun x e he => ?_, fun x e he hx => ?_,
    fun q e x y ex ey he hx hy hne hex hey => ?_⟩
  · obtain ⟨c, hc, hName, hNmlen, -⟩ := hNode x e he
    rw [hName, hNmlen]
    exact h.nmlen x c hc
  · obtain ⟨c, hc, hName, hNmlen, -⟩ := hNode x e he
    rw [hName, hNmlen]
    exact h.names.good x c hc hx
  · obtain ⟨c, hc, -, -, hList⟩ := hNode q e he
    obtain ⟨cx, hcx, hNameX, -, -⟩ := hNode x ex hex
    obtain ⟨cy, hcy, hNameY, -, -⟩ := hNode y ey hey
    rw [hList] at hx hy
    rw [hNameX, hNameY]
    exact h.names.distinct q c x y cx cy hc hx hy hne hcx hcy

/-! ## The loops -/

/-- The loops of `tmpfs_creat` and `tmpfs_mkdir` over `path` are at the node `cur`, with `p` before
them. -/
structure NamesAt (path : Str) (s : Tmpfs) (cur : Nat) (p : Str) : Prop where
  inv : NameInv s
  live : (s.node cur).isSome
  edge : AtBoundary path p

theorem NamesAt.new {path p : Str} {cur td : Nat} {type : DentryType} (h : NamesAt path s cur p)
    (hSized : ComponentsIntSized path) (hStep : AllocStep s s' cur (skipSlashes p) type td) :
    NamesAt path s' td ((skipSlashes p).drop (componentLen (skipSlashes p)).toNat) := by
  have hp := hStep.starts.1
  have hLen := hSized.componentLen h.edge hp hStep.fits.1 hStep.short
  have hToNat : (componentLen (skipSlashes p)).toNat = blockLen (skipSlashes p) := by omega
  obtain ⟨hLe, hSlash, -⟩ := blockLen_spec (skipSlashes p)
  have hPos := blockLen_pos hp hStep.starts.2
  have hLength : ((skipSlashes p).take (blockLen (skipSlashes p))).length = blockLen (skipSlashes p) := by
    rw [List.length_take, Nat.min_eq_left hLe]
  have hGood : GoodName ((skipSlashes p).take (componentLen (skipSlashes p)).toNat) := by
    rw [hToNat]
    refine ⟨fun hNil => ?_, ?_, hSlash⟩
    · rw [hNil, List.length_nil] at hLength
      omega
    · have hShort := hStep.short
      have hMax : fsNameMax = 255 := rfl
      omega
  have hFree : s.node td = none := by rw [hStep.fresh]; exact h.inv.lists.free
  refine ⟨h.inv.alloc hStep hGood, ?_, ?_⟩
  · exact Option.isSome_iff_exists.mpr ⟨_, (hStep.node_eq_some hFree).mpr (Or.inl ⟨rfl, rfl⟩)⟩
  · rw [hToNat]
    exact h.edge.next hp

theorem NamesAt.old {path p : Str} {cur child : Nat} {d : TmpfsDentry} (h : NamesAt path s cur p)
    (hSized : ComponentsIntSized path) (hp : skipSlashes p ≠ [])
    (hShort : componentLen (skipSlashes p) ≤ fsNameMax)
    (hFind : s.findChild cur (skipSlashes p) (componentLen (skipSlashes p)) = some child)
    (hd : s.node child = some d) :
    NamesAt path s child ((skipSlashes p).drop (componentLen (skipSlashes p)).toNat) := by
  have hLen := hSized.componentLen h.edge hp (h.inv.lists.componentLen_nonneg hFind) hShort
  have hToNat : (componentLen (skipSlashes p)).toNat = blockLen (skipSlashes p) := by omega
  refine ⟨h.inv, Option.isSome_iff_exists.mpr ⟨d, hd⟩, ?_⟩
  rw [hToNat]
  exact h.edge.next hp

/-! ## The calls -/

/-- A call that keeps the names: no component of a path along which nodes are added gets a short length by
the conversion to `int`. -/
def KeepsNames (_ : Tmpfs) : TmpfsCall → Prop
  | .creat path => ComponentsIntSized path
  | .mkdir path => ComponentsIntSized path
  | _ => True

theorem NameInv.creat {fuel : Nat} {path : Str} {r : Int} (h : NameInv s)
    (hSized : ComponentsIntSized path) (hCall : tmpfsCreat fuel path s = .ok r s') : NameInv s' := by
  unfold tmpfsCreat at hCall
  split at hCall
  · cases hCall
    exact h
  rename_i hPath
  refine creatFrom_induct (J := NamesAt path) (I := NameInv) ?_ ?_ ?_ ?_ fuel tmpfsRoot _ s s' r hCall
    ⟨h, h.lists.rootLive, atBoundary_start (by simpa using hPath)⟩
  · exact fun s s' cur p hJ hQuiet => hJ.inv.quiet hQuiet
  · exact fun s s' cur p td hJ hStep => hJ.new hSized hStep
  · exact fun s cur p child d hJ hp hShort hFind hd _ => hJ.old hSized hp hShort hFind hd
  · exact fun s cur p hJ => hJ.live

theorem NameInv.mkdir {fuel : Nat} {path : Str} {r : Int} (h : NameInv s)
    (hSized : ComponentsIntSized path) (hCall : tmpfsMkdir fuel path s = .ok r s') : NameInv s' := by
  unfold tmpfsMkdir at hCall
  split at hCall
  · cases hCall
    exact h
  rename_i hPath
  refine mkdirFrom_induct (J := NamesAt path) (I := NameInv) ?_ ?_ ?_ ?_ fuel tmpfsRoot _ s s' r hCall
    ⟨h, h.lists.rootLive, atBoundary_start (by simpa using hPath)⟩
  · exact fun s s' cur p hJ hQuiet => hJ.inv.quiet hQuiet
  · exact fun s s' cur p td hJ hStep => hJ.new hSized hStep
  · exact fun s cur p child d hJ hp hShort hFind hd _ => hJ.old hSized hp hShort hFind hd
  · exact fun s cur p hJ => hJ.live

theorem NameInv.rename {fuel : Nat} {oldpath newpath : Str} {r : Int} (h : NameInv s)
    (hCall : tmpfsRename fuel oldpath newpath s = .ok r s') : NameInv s' := by
  rcases tmpfsRename_eq_ok hCall with ⟨-, hQuiet, -⟩ | ⟨src, dir, name, t, hRenames, hQuiet, -, -, -, hOutcome⟩
  · exact h.quiet hQuiet
  have hSlash : slash ∉ name := by
    obtain ⟨i, hCut, -, rfl⟩ := hRenames.cut
    obtain ⟨rest, hPath, hNot⟩ := strrchr_eq_some hCut
    have hDrop : newpath.drop (i + 1) = rest := by
      have hLt := strrchr_lt hCut
      rw [hPath, List.drop_append, List.length_take, Nat.min_eq_left hLt.le,
        List.drop_eq_nil_of_le (by rw [List.length_take]; omega), List.nil_append,
        show i + 1 - i = 1 by omega, List.drop_succ_cons, List.drop_zero]
    rw [hDrop]
    exact hNot
  have ht := h.quiet hQuiet
  cases hOutcome with
  | same _ hQuiet' => exact ht.quiet hQuiet'
  | moved _ _ hAbsent hMove =>
      exact ht.move hMove hSlash fun d x dx hd hx _ hdx => ht.absent hMove.fits hAbsent hd hx hdx
  | removed u e d _ _ _ hRemove hQuiet' => exact (ht.remove hRemove).quiet hQuiet'
  | replaced u e d _ _ hReplaces hRemove hMove =>
      refine (ht.remove hRemove).move hMove hSlash fun c x cx hc hx _ hcx => ?_
      -- only the node that has been removed had the name
      obtain ⟨-, dd, hdd, rfl⟩ := hRemove.node_eq_some.mp hc
      obtain ⟨hxe, dx, hdx, rfl⟩ := hRemove.node_eq_some.mp hcx
      obtain ⟨heMem, heName⟩ := ht.found hMove.fits hReplaces.find hdd hRemove.found
      rw [← heName]
      exact ht.names.distinct dir dd x e dx d hdd (List.mem_filter.mp hx).1 heMem hxe hdx hRemove.found

theorem NameInv.call {fuel : Nat} {call : TmpfsCall} {r : Int} (h : NameInv s)
    (hKeeps : KeepsNames s call) (hCall : tmpfsCall fuel call s = .ok r s') : NameInv s' := by
  cases call with
  | creat path => exact h.creat hKeeps hCall
  | mkdir path => exact h.mkdir hKeeps hCall
  | unlink path =>
      rcases tmpfsUnlink_eq_ok hCall with ⟨rfl, -⟩ | ⟨-, -, td, d, -, hStep⟩
      · exact h
      · exact h.remove hStep
  | rename oldpath newpath => exact h.rename hCall
  | read td len =>
      simp only [tmpfsCall, bind_eq_ok] at hCall
      obtain ⟨_, s1, hRead, hCall⟩ := hCall
      cases hCall
      rw [tmpfsRead_eq_ok hRead]
      exact h
  | write td buf =>
      rcases tmpfsWrite_eq_ok hCall with ⟨-, hQuiet, -⟩ | ⟨-, td, -, hStep⟩
      · exact h.quiet hQuiet
      · exact h.write hStep

theorem nameInv_run {memory : Nat → Bool}
    (h : Relation.ReflTransGen (TmpfsNext KeepsNames) (tmpfsEmpty memory) s) : NameInv s := by
  induction h with
  | refl => exact nameInv_empty memory
  | tail _ hNext ih =>
      obtain ⟨call, fuel, r, hKeeps, hCall⟩ := hNext
      exact ih.call hKeeps hCall

/-- The file system after `tmpfs_creat("/a")`. -/
def tmpfsA : Tmpfs := finalState (tmpfsCall 3 (.creat [0x2f#8, 0x61#8]) (tmpfsEmpty fun _ => true))

/-- The path that is a slash and `n` times the byte `a`. -/
def longPath (n : Nat) : Str := slash :: List.replicate n 0x61#8

/-- A heap with memory for one node and its name. -/
def oneNode : Nat → Bool := fun i => i < 3

/-- The node without a name that `tmpfs_creat` leaves. -/
def unnamed : TmpfsDentry := ⟨[], 0, .file, 0, some tmpfsRoot, [], none⟩

/-- A component whose length is a multiple of `2 ^ 32` gets the length 0. -/
theorem creat_unnamed {n : Nat} (hPos : 0 < n) (hMod : n % 2 ^ 32 = 0) :
    ∃ s, tmpfsCall 2 (.creat (longPath n)) (tmpfsEmpty oneNode) = .ok errNomem s ∧
      s.node 1 = some unnamed := by
  generalize hp : List.replicate n 0x61#8 = p
  have hLength : p.length = n := by rw [← hp, List.length_replicate]
  have hSlash : slash ∉ p := by
    rw [← hp]
    intro hMem
    exact absurd (List.eq_of_mem_replicate hMem) (by decide)
  have hNil : p ≠ [] := by
    intro hNil
    rw [hNil] at hLength
    exact absurd hLength.symm (by simpa using hPos.ne')
  have hSkip : skipSlashes p = p := skipSlashes_of_head fun hEq => hSlash (List.mem_of_head? hEq)
  have hLast : strchr p slash = none := by
    cases hFound : strchr p slash with
    | none => rfl
    | some i =>
        have hHead := (strchr_eq_some hFound).2
        exact absurd (List.mem_of_mem_drop (List.mem_of_head? hHead)) hSlash
  have hLen : componentLen p = 0 := by
    rw [componentLen, hLast]
    simp only [hLength, intOfLength, BitVec.toInt_eq_toNat_cond, BitVec.toNat_ofNat, hMod]
    rfl
  have hCopy : ∀ s, memcpyStr p 0 s = .ok [] s := by
    intro s
    simp [memcpyStr]
  have hBad : badPath (longPath n) = false := by
    simp [badPath, longPath]
    omega
  -- the first round adds a node, the second one finds no memory
  let s0 := tmpfsEmpty oneNode
  let s1 : Tmpfs := { s0 with heap := ⟨oneNode, 2, false⟩ }
  let s2 : Tmpfs := { s0 with heap := ⟨oneNode, 3, false⟩ }
  let s3 : Tmpfs := (s2.newNode 1 unnamed).listAddTail 1 tmpfsRoot
  let s4 : Tmpfs := { s3 with heap := ⟨oneNode, 4, true⟩ }
  have hAlloc : tmpfsAllocDentry tmpfsRoot p 0 .file s0 = .ok (some 1) s3 := by
    have hNode : kzalloc 72 s0 = .ok (some 1) s1 := rfl
    have hName : kzalloc (sizeOfLength (0 + 1)) s1 = .ok (some 2) s2 := rfl
    simp only [tmpfsAllocDentry, bind_ok hNode, bind_ok hName, bind_ok (hCopy s2)]
    rfl
  have hFull : tmpfsAllocDentry 1 p 0 .file s3 = .ok none s4 := by
    have hNode : kzalloc 72 s3 = .ok none s4 := rfl
    simp only [tmpfsAllocDentry, bind_ok hNode]
    rfl
  have hSecond : creatFrom 1 1 p s3 = .ok errNomem s4 := by
    have hFind : s3.findChild 1 p 0 = none := rfl
    rw [creatFrom]
    simp only [hSkip, if_neg hNil, hLen, hLast, bind_ok (get_apply s3), hFind, bind_ok hFull, if_true,
      if_neg (show ¬ (0 : Int) > fsNameMax by decide)]
    rfl
  refine ⟨s4, ?_, rfl⟩
  have hFind : s0.findChild tmpfsRoot p 0 = none := rfl
  show tmpfsCreat 2 (longPath n) s0 = _
  rw [tmpfsCreat, if_neg (by rw [hBad]; decide), longPath, List.drop_succ_cons, List.drop_zero, hp,
    creatFrom]
  simp only [hSkip, if_neg hNil, hLen, hLast, bind_ok (get_apply s0), hFind, bind_ok hAlloc, if_true,
    if_neg (show ¬ (0 : Int) > fsNameMax by decide), Int.toNat_zero, List.drop_zero]
  exact hSecond

end Rayos
