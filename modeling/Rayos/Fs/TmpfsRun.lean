import Rayos.Fs.TmpfsSpec

/-!
# Runs of the memory file system

The calls follow one another in any order.  In every state of every run the lists of children are lists of
nodes in use, each on at most one list, and `ListInv` says so; what further holds depends on the calls that
are made.
-/

namespace Rayos

open Program CString Tmpfs

variable {s s' : Tmpfs}

/-- A call of the memory file system.  `read` and `write` are given the node in `private_data`. -/
inductive TmpfsCall where
  | creat (path : Str)
  | mkdir (path : Str)
  | unlink (path : Str)
  | rename (oldpath newpath : Str)
  | read (td : Option Nat) (len : Nat)
  | write (td : Option Nat) (buf : List (BitVec 8))

/-- The call, with the number it returns. -/
def tmpfsCall (fuel : Nat) : TmpfsCall → TmpfsM Int
  | .creat path => tmpfsCreat fuel path
  | .mkdir path => tmpfsMkdir fuel path
  | .unlink path => tmpfsUnlink fuel path
  | .rename oldpath newpath => tmpfsRename fuel oldpath newpath
  | .read td len => do
      let r ← tmpfsRead td len
      pure r.1
  | .write td buf => tmpfsWrite td buf

/-- One call that `allowed` admits and that returns. -/
def TmpfsNext (allowed : Tmpfs → TmpfsCall → Prop) (s s' : Tmpfs) : Prop :=
  ∃ call fuel r, allowed s call ∧ tmpfsCall fuel call s = .ok r s'

/-- `tmpfs_root` as it is initialised. -/
def rootDentry : TmpfsDentry := ⟨[slash], 1, .dir, 0, none, [], none⟩

/-- The empty file system.  The root has the number 0, so that the heap gives out numbers from 1 on. -/
def tmpfsEmpty (memory : Nat → Bool) : Tmpfs :=
  ⟨fun i => if i = tmpfsRoot then some rootDentry else none, ⟨memory, 1, false⟩⟩

theorem tmpfsEmpty_node {memory : Nat → Bool} {i : Nat} {d : TmpfsDentry}
    (h : (tmpfsEmpty memory).node i = some d) : i = tmpfsRoot ∧ d = rootDentry := by
  simp only [tmpfsEmpty, Option.ite_none_right_eq_some, Option.some.injEq] at h
  exact ⟨h.1, h.2.symm⟩

/-! ## The nodes after a step -/

/-- The node that an allocation adds. -/
def addedNode (cur : Nat) (p : Str) (type : DentryType) : TmpfsDentry :=
  ⟨p.take (componentLen p).toNat, componentLen p, type, 0, some cur, [], none⟩

theorem Tmpfs.AllocStep.node_eq_some {cur td i : Nat} {p : Str} {type : DentryType}
    {e : TmpfsDentry} (h : AllocStep s s' cur p type td) (hFree : s.node td = none) :
    s'.node i = some e ↔
      (i = td ∧ e = addedNode cur p type) ∨
        ∃ d, s.node i = some d ∧
          e = { d with children := d.children ++ if i = cur then [td] else [] } := by
  have hCur : cur ≠ td := by
    rintro rfl
    simpa [hFree] using h.curLive
  rw [h.node]
  simp only [newNode, listAddTail, setNode, addedNode]
  by_cases hi : i = td
  · subst hi
    simp [Ne.symm hCur, hFree, eq_comm]
  · by_cases hc : i = cur
    · subst hc
      simp [hi, eq_comm]
    · simp [hi, hc, eq_comm]

theorem Tmpfs.RemoveStep.node_eq_some {td i : Nat} {d e : TmpfsDentry}
    (h : RemoveStep s s' td d) :
    s'.node i = some e ↔ i ≠ td ∧
      ∃ d, s.node i = some d ∧ e = { d with children := d.children.filter (· ≠ td) } := by
  rw [h.node]
  simp only [dropNode, listDel]
  by_cases hi : i = td
  · simp [hi]
  · simp [hi, eq_comm]

/-- What a move does to the node `i`. -/
def movedNode (src dir : Nat) (name : Str) (i : Nat) (d : TmpfsDentry) : TmpfsDentry :=
  { d with
    name := if i = src then name.take (intOfLength name.length).toNat else d.name
    nmlen := if i = src then intOfLength name.length else d.nmlen
    parent := if i = src then some dir else d.parent
    children := d.children.filter (· ≠ src) ++ if i = dir then [src] else [] }

theorem Tmpfs.MoveStep.node_eq_some {src dir i : Nat} {name : Str} {e : TmpfsDentry}
    (h : MoveStep s s' src dir name) :
    s'.node i = some e ↔ ∃ d, s.node i = some d ∧ e = movedNode src dir name i d := by
  rw [h.node]
  simp only [listAddTail, setNode, listDel, movedNode]
  cases hd : s.node i with
  | none => simp
  | some d =>
      simp only [Option.map_some, Option.some.injEq, exists_eq_left']
      by_cases hi : i = dir
      · by_cases hs : i = src
        · simp only [if_pos hi, if_pos hs, Option.map_some, Option.some.injEq]
          exact eq_comm
        · simp only [if_pos hi, if_neg hs, Option.map_some, Option.some.injEq]
          exact eq_comm
      · by_cases hs : i = src
        · simp only [if_neg hi, if_pos hs, Option.some.injEq, List.append_nil]
          exact eq_comm
        · simp only [if_neg hi, if_neg hs, Option.some.injEq, List.append_nil]
          exact eq_comm

theorem Tmpfs.WriteStep.node_eq_some {td i : Nat} {data : Option (List (BitVec 8))} {size : Nat}
    {e : TmpfsDentry} (h : WriteStep s s' td data size) :
    s'.node i = some e ↔ ∃ d, s.node i = some d ∧
      e = if i = td then { d with data := data, size := size } else d := by
  rw [h.node]
  simp only [setNode]
  by_cases hi : i = td <;> simp [hi, eq_comm]

/-! ## Lists of nodes in use -/

/-- What holds in every state of every run. -/
structure ListInv (s : Tmpfs) : Prop where
  rootLive : (s.node tmpfsRoot).isSome
  bound : ∀ i d, s.node i = some d → i < s.heap.kzallocs
  child : ∀ p d x, s.node p = some d → x ∈ d.children → ∃ e, s.node x = some e ∧ e.parent = some p
  nodup : ∀ p d, s.node p = some d → d.children.Nodup
  nmlen : ∀ x d, s.node x = some d → 0 ≤ d.nmlen

theorem listInv_empty (memory : Nat → Bool) : ListInv (tmpfsEmpty memory) := by
  refine ⟨rfl, fun i d h => ?_, fun p d x h hx => ?_, fun p d h => ?_, fun x d h => ?_⟩
  · obtain ⟨rfl, -⟩ := tmpfsEmpty_node h
    exact Nat.one_pos
  · obtain ⟨-, rfl⟩ := tmpfsEmpty_node h
    exact absurd hx (by simp [rootDentry])
  · obtain ⟨-, rfl⟩ := tmpfsEmpty_node h
    exact List.nodup_nil
  · obtain ⟨-, rfl⟩ := tmpfsEmpty_node h
    exact Int.one_nonneg

theorem ListInv.quiet (h : ListInv s) (hQuiet : Tmpfs.Quiet s s') : ListInv s' := by
  refine ⟨?_, ?_, ?_, ?_, ?_⟩
  · rw [hQuiet.node]
    exact h.rootLive
  · rw [hQuiet.node]
    exact fun i d hd => lt_of_lt_of_le (h.bound i d hd) hQuiet.kzallocs
  · rw [hQuiet.node]
    exact h.child
  · rw [hQuiet.node]
    exact h.nodup
  · rw [hQuiet.node]
    exact h.nmlen

/-- The number of a new node is not in use. -/
theorem ListInv.free (h : ListInv s) : s.node s.heap.kzallocs = none := by
  cases hd : s.node s.heap.kzallocs with
  | none => rfl
  | some d => exact absurd (h.bound _ d hd) (lt_irrefl _)

theorem ListInv.alloc {cur td : Nat} {p : Str} {type : DentryType} (h : ListInv s)
    (hStep : AllocStep s s' cur p type td) : ListInv s' := by
  have hFree : s.node td = none := by rw [hStep.fresh]; exact h.free
  have hNode := fun i e => hStep.node_eq_some (i := i) (e := e) hFree
  have hOld : ∀ i d, s.node i = some d → i ≠ td := by
    rintro i d hd rfl
    rw [hFree] at hd
    cases hd
  refine ⟨?_, fun i e he => ?_, fun q e x he hx => ?_, fun q e he => ?_, fun x e he => ?_⟩
  · obtain ⟨d, hd⟩ := Option.isSome_iff_exists.mp h.rootLive
    exact Option.isSome_iff_exists.mpr ⟨_, (hNode _ _).mpr (Or.inr ⟨d, hd, rfl⟩)⟩
  · have := hStep.kzallocs
    rcases (hNode i e).mp he with ⟨rfl, -⟩ | ⟨d, hd, -⟩
    · rw [hStep.fresh]
      exact this
    · exact lt_trans (h.bound i d hd) this
  · rcases (hNode q e).mp he with ⟨rfl, rfl⟩ | ⟨d, hd, rfl⟩
    · exact absurd hx (by simp [addedNode])
    · rcases List.mem_append.mp hx with hx | hx
      · obtain ⟨c, hc, hParent⟩ := h.child q d x hd hx
        exact ⟨_, (hNode x _).mpr (Or.inr ⟨c, hc, rfl⟩), hParent⟩
      · split at hx
        · rename_i hq
          rw [List.mem_singleton.mp hx, hq]
          exact ⟨_, (hNode td _).mpr (Or.inl ⟨rfl, rfl⟩), rfl⟩
        · exact absurd hx (by simp)
  · rcases (hNode q e).mp he with ⟨rfl, rfl⟩ | ⟨d, hd, rfl⟩
    · exact List.nodup_nil
    · refine List.nodup_append.mpr ⟨h.nodup q d hd, by split <;> simp, ?_⟩
      rintro x hx y hy rfl
      split at hy
      · obtain ⟨c, hc, -⟩ := h.child q d x hd hx
        exact hOld x c hc (List.mem_singleton.mp hy)
      · exact absurd hy (by simp)
  · rcases (hNode x e).mp he with ⟨-, rfl⟩ | ⟨d, hd, rfl⟩
    · exact hStep.fits.1
    · exact h.nmlen x d hd

theorem ListInv.remove {td : Nat} {d : TmpfsDentry} (h : ListInv s)
    (hStep : RemoveStep s s' td d) : ListInv s' := by
  have hNode := fun i e => hStep.node_eq_some (i := i) (e := e)
  refine ⟨?_, fun i e he => ?_, fun q e x he hx => ?_, fun q e he => ?_, fun x e he => ?_⟩
  · obtain ⟨c, hc⟩ := Option.isSome_iff_exists.mp h.rootLive
    exact Option.isSome_iff_exists.mpr ⟨_, (hNode _ _).mpr ⟨Ne.symm hStep.notRoot, c, hc, rfl⟩⟩
  · obtain ⟨-, c, hc, -⟩ := (hNode i e).mp he
    exact lt_of_lt_of_le (h.bound i c hc) hStep.kzallocs
  · obtain ⟨-, c, hc, rfl⟩ := (hNode q e).mp he
    obtain ⟨hx, hne⟩ := List.mem_filter.mp hx
    obtain ⟨c', hc', hParent⟩ := h.child q c x hc hx
    exact ⟨_, (hNode x _).mpr ⟨by simpa using hne, c', hc', rfl⟩, hParent⟩
  · obtain ⟨-, c, hc, rfl⟩ := (hNode q e).mp he
    exact (h.nodup q c hc).filter _
  · obtain ⟨-, c, hc, rfl⟩ := (hNode x e).mp he
    exact h.nmlen x c hc

theorem ListInv.move {src dir : Nat} {name : Str} (h : ListInv s)
    (hStep : MoveStep s s' src dir name) : ListInv s' := by
  have hNode := fun i e => hStep.node_eq_some (i := i) (e := e)
  refine ⟨?_, fun i e he => ?_, fun q e x he hx => ?_, fun q e he => ?_, fun x e he => ?_⟩
  · obtain ⟨c, hc⟩ := Option.isSome_iff_exists.mp h.rootLive
    exact Option.isSome_iff_exists.mpr ⟨_, (hNode _ _).mpr ⟨c, hc, rfl⟩⟩
  · obtain ⟨c, hc, -⟩ := (hNode i e).mp he
    exact lt_of_lt_of_le (h.bound i c hc) hStep.kzallocs
  · obtain ⟨c, hc, rfl⟩ := (hNode q e).mp he
    rcases List.mem_append.mp hx with hx | hx
    · obtain ⟨hx, hne⟩ := List.mem_filter.mp hx
      obtain ⟨c', hc', hParent⟩ := h.child q c x hc hx
      refine ⟨_, (hNode x _).mpr ⟨c', hc', rfl⟩, ?_⟩
      exact (if_neg (by simpa using hne)).trans hParent
    · split at hx
      · rename_i hq
        obtain ⟨c', hc'⟩ := Option.isSome_iff_exists.mp hStep.srcLive
        rw [List.mem_singleton.mp hx, hq]
        exact ⟨_, (hNode src _).mpr ⟨c', hc', rfl⟩, if_pos rfl⟩
      · exact absurd hx (by simp)
  · obtain ⟨c, hc, rfl⟩ := (hNode q e).mp he
    refine List.nodup_append.mpr ⟨(h.nodup q c hc).filter _, by split <;> simp, ?_⟩
    rintro x hx y hy rfl
    split at hy
    · rw [List.mem_singleton.mp hy] at hx
      exact absurd (List.mem_filter.mp hx).2 (by simp)
    · exact absurd hy (by simp)
  · obtain ⟨c, hc, rfl⟩ := (hNode x e).mp he
    simp only [movedNode]
    split
    · exact hStep.fits.1
    · exact h.nmlen x c hc

theorem ListInv.write {td : Nat} {data : Option (List (BitVec 8))} {size : Nat} (h : ListInv s)
    (hStep : WriteStep s s' td data size) : ListInv s' := by
  have hNode := fun i e => hStep.node_eq_some (i := i) (e := e)
  refine ⟨?_, fun i e he => ?_, fun q e x he hx => ?_, fun q e he => ?_, fun x e he => ?_⟩
  · obtain ⟨c, hc⟩ := Option.isSome_iff_exists.mp h.rootLive
    exact Option.isSome_iff_exists.mpr ⟨_, (hNode _ _).mpr ⟨c, hc, rfl⟩⟩
  · obtain ⟨c, hc, -⟩ := (hNode i e).mp he
    exact lt_of_lt_of_le (h.bound i c hc) hStep.kzallocs
  · obtain ⟨c, hc, rfl⟩ := (hNode q e).mp he
    have hx' : x ∈ c.children := by
      split at hx <;> exact hx
    obtain ⟨c', hc', hParent⟩ := h.child q c x hc hx'
    refine ⟨_, (hNode x _).mpr ⟨c', hc', rfl⟩, ?_⟩
    split <;> exact hParent
  · obtain ⟨c, hc, rfl⟩ := (hNode q e).mp he
    split <;> exact h.nodup q c hc
  · obtain ⟨c, hc, rfl⟩ := (hNode x e).mp he
    split <;> exact h.nmlen x c hc

/-- What is found has a length that is not negative. -/
theorem ListInv.componentLen_nonneg (h : ListInv s) {cur child : Nat} {p : Str} {len : Int}
    (hFind : s.findChild cur p len = some child) : 0 ≤ len := by
  unfold findChild at hFind
  cases hc : s.node cur with
  | none =>
      rw [hc] at hFind
      cases hFind
  | some c =>
      rw [hc] at hFind
      have hName := List.find?_some hFind
      unfold hasName at hName
      cases hd : s.node child with
      | none => simp [hd] at hName
      | some d =>
          simp only [hd, decide_eq_true_eq] at hName
          rw [← hName.1]
          exact h.nmlen child d hd

end Rayos
