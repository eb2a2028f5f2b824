import Rayos.Fs.TmpfsResolve

/-!
# The data of a file

What `tmpfs_write` has written is what `tmpfs_stat` and `tmpfs_read` see, for every buffer that is not empty.
A buffer of no bytes leaves the file without a block, and `tmpfs_read` takes this for a file that cannot be
read.
-/

namespace Rayos

open Program CString Tmpfs NameTree

variable {s s' : Tmpfs}

/-- A write leaves names and lists alone. -/
theorem Tmpfs.WriteStep.reach_eq {td : Nat} {data : Option (List (BitVec 8))} {size : Nat}
    (hStep : WriteStep s s' td data size) (names : List Str) : s'.reach names = s.reach names := by
  have hName : ∀ b x, ((s'.node x).any fun e => e.name == b) = (s.node x).any fun e => e.name == b := by
    intro b x
    rw [hStep.node]
    simp only [setNode]
    split
    · cases s.node x <;> rfl
    · rfl
  have hChild : s'.childNamed = s.childNamed := by
    funext p b
    rw [childNamed, childNamed]
    simp only [hName]
    rw [hStep.node]
    simp only [setNode]
    by_cases hp : p = td
    · rw [if_pos hp]
      cases s.node p <;> rfl
    · rw [if_neg hp]
  rw [reach, reach, hChild]

/-- What a file system is after a write to the node `td` that has returned `r`: a success is seen by
`tmpfs_stat` and `tmpfs_read` and by nothing else, and an error has changed nothing. -/
structure WriteSeen (s s' : Tmpfs) (td : Nat) (buf : List (BitVec 8)) (r : Int) : Prop where
  stat : r = buf.length → ∀ fuel path st, path.head? = some slash → path.length ≤ fuel →
    s.resolve path = some td → tmpfsStat fuel path (some st) s' = .ok (0, some buf.length) s'
  read : r = buf.length → ∀ n, tmpfsRead (some td) n s' =
    .ok ((min n buf.length : Nat), buf.take (min n buf.length)) s'
  others : r = buf.length → ∀ x, x ≠ td → s'.node x = s.node x
  error : r < 0 → s'.node = s.node

theorem Tmpfs.WriteStep.node_self {td : Nat} {data : Option (List (BitVec 8))} {size : Nat}
    (hStep : WriteStep s s' td data size) :
    ∃ d, s'.node td = some d ∧ d.type = .file ∧ d.data = data ∧ d.size = size := by
  obtain ⟨d, hd, hFile⟩ := hStep.found
  refine ⟨_, hStep.node_eq_some.mpr ⟨d, hd, rfl⟩, ?_⟩
  rw [if_pos rfl]
  exact ⟨hFile, rfl, rfl⟩

/-- `tmpfs_stat` sees the size of what has been written. -/
theorem Tmpfs.WriteStep.stat {td : Nat} {data : Option (List (BitVec 8))} {size : Nat}
    (hStep : WriteStep s s' td data size) (h : NamedTree s) {fuel st : Nat} {path : Str}
    (hSlash : path.head? = some slash) (hFuel : path.length ≤ fuel) (hResolve : s.resolve path = some td) :
    tmpfsStat fuel path (some st) s' = .ok (0, some size) s' := by
  have hTree : NamedTree s' := ⟨h.tree.write hStep, h.names.write hStep⟩
  obtain ⟨d, hd, -, -, hSize⟩ := hStep.node_self
  have hSame : s'.resolve path = some td := (hStep.reach_eq _).trans hResolve
  rw [tmpfsStat, bind_ok (hTree.lookup_ok hSlash hFuel), hSame]
  simp only
  rw [bind_ok (nodeAt_ok hd), hSize]
  rfl

/-- `tmpfs_read` sees what has been written. -/
theorem Tmpfs.WriteStep.read {td : Nat} {buf : List (BitVec 8)}
    (hStep : WriteStep s s' td (some buf) buf.length) (n : Nat) :
    tmpfsRead (some td) n s' = .ok ((min n buf.length : Nat), buf.take (min n buf.length)) s' := by
  obtain ⟨d, hd, hFile, hData, hSize⟩ := hStep.node_self
  have hMin : (if n > d.size then d.size else n) = min n buf.length := by
    rw [hSize]
    split <;> omega
  rw [tmpfsRead, bind_ok (nodeAt_ok hd)]
  simp only [hData, hFile, ne_eq, not_true_eq_false, if_false, hMin]
  rfl

/-- A file without a block cannot be read. -/
theorem Tmpfs.WriteStep.read_null {td size : Nat} (hStep : WriteStep s s' td none size) (n : Nat) :
    tmpfsRead (some td) n s' = .ok (errInval, []) s' := by
  obtain ⟨d, hd, -, hData, -⟩ := hStep.node_self
  rw [tmpfsRead, bind_ok (nodeAt_ok hd)]
  simp only [hData]
  rfl

/-- **`tmpfs_write` and then `tmpfs_read`.**  For every file, whatever has been written to it before, what a
write does is seen as it should be exactly when the buffer is not empty. -/
theorem tmpfsWrite_seen (h : WellFormed s) {td : Nat} {d : TmpfsDentry} (hd : s.node td = some d)
    (hFile : d.type = .file) {buf : List (BitVec 8)} {r : Int}
    (hCall : tmpfsWrite (some td) buf s = .ok r s') : WriteSeen s s' td buf r ↔ 0 < buf.length := by
  rcases tmpfsWrite_eq_ok hCall with ⟨hErr, hQuiet, hNe⟩ | ⟨rfl, x, hx, hStep⟩
  · have hSeen : WriteSeen s s' td buf r :=
      ⟨fun hLen => by omega, fun hLen => by omega, fun hLen => by omega, fun _ => hQuiet.node⟩
    exact ⟨fun _ => List.length_pos_iff.mpr (hNe td d rfl hd hFile), fun _ => hSeen⟩
  · cases hx
    constructor
    · intro hSeen
      apply List.length_pos_iff.mpr
      rintro rfl
      have hRead := (hStep.read_null 0).symm.trans (hSeen.read rfl 0)
      cases hRead
    · intro hPos
      have hData : writtenData buf = some buf := if_neg (List.length_pos_iff.mp hPos)
      rw [hData] at hStep
      refine ⟨fun _ fuel path st hSlash hFuel hResolve => ?_, fun _ n => hStep.read n, fun _ x hx => ?_,
        fun hNeg => by omega⟩
      · exact hStep.stat h.toNamedTree hSlash hFuel hResolve
      · rw [hStep.node]
        exact if_neg hx

theorem wellFormed_tmpfsDF : WellFormed tmpfsDF := by
  have hCall : tmpfsCreat 5 pathDF (tmpfsEmpty fun _ => true) = .ok 0 tmpfsDF := eq_ok_of_value (by decide)
  have hSized : ComponentsIntSized pathDF := componentsIntSized_of_length (by decide)
  exact ⟨⟨(treeInv_empty _).creat hCall, (nameInv_empty _).creat hSized hCall⟩,
    (typeInv_empty _).creat hSized (avoidsFiles_empty _ _) hCall⟩

/-- Three bytes are written to the file `/d/f`, and read. -/
theorem tmpfsWrite_seen_three :
    ∃ s', tmpfsWrite (some 3) [1#8, 2#8, 3#8] tmpfsDF = .ok 3 s' ∧
      tmpfsRead (some 3) 2 s' = .ok (2, [1#8, 2#8]) s' := by
  have hCall : tmpfsWrite (some 3) [1#8, 2#8, 3#8] tmpfsDF =
      .ok 3 (finalState (tmpfsWrite (some 3) [1#8, 2#8, 3#8] tmpfsDF)) := eq_ok_of_value (by decide)
  refine ⟨_, hCall, ?_⟩
  exact ((tmpfsWrite_seen wellFormed_tmpfsDF rfl rfl hCall).mpr (by decide)).read rfl 2

/-- No bytes are written to the file `/d/f`: the write succeeds, and a read then fails. -/
theorem tmpfs_write_nothing :
    WellFormed tmpfsDF ∧ ∃ s', tmpfsWrite (some 3) [] tmpfsDF = .ok 0 s' ∧
      tmpfsRead (some 3) 1 s' = .ok (errInval, []) s' := by
  exact ⟨wellFormed_tmpfsDF, _, rfl, rfl⟩

end Rayos
