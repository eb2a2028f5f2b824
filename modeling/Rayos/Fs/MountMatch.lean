import Rayos.Fs.VfsDispatch

/-!
# Which mount a path belongs to

`mount_get_by_name` should find the longest mount path that is the path itself or is followed by a slash in
it.  It tries the directories of the path, the longest one first and the path itself never, and compares each
of them with the beginnings of the mount paths only; what it finds is described by `mountGet_spec`, and
`mountGetByName_longest` says for which mounts and paths this is what it should find.
-/

namespace Rayos

open Program CString Vfs

variable {σ : Type} {mounts : List Mount} {path : Str}

/-- The mount path is the path, or a slash follows it there. -/
def MountCovers (m : Mount) (path : Str) : Prop := m.mntPath = path ∨ ∃ rest, path = m.mntPath ++ slash :: rest

/-- What should be found: the longest mount that covers the path, or nothing if none does. -/
def LongestMount (mounts : List Mount) (path : Str) : Option Mount → Prop
  | none => ∀ m ∈ mounts, ¬ MountCovers m path
  | some m => m ∈ mounts ∧ MountCovers m path ∧
      ∀ n ∈ mounts, MountCovers n path → n.mntPath.length ≤ m.mntPath.length

/-- A directory of the path: what stands before one of its slashes. -/
def DirOf (path dir : Str) : Prop := ∃ rest, path = dir ++ slash :: rest

/-- No mount path begins with a directory of the path that is longer than `dir`. -/
def LongestTried (mounts : List Mount) (path dir : Str) : Prop :=
  ∀ dir', DirOf path dir' → dir.length < dir'.length → ¬ ∃ n ∈ mounts, dir' <+: n.mntPath

/-! ## What is found -/

/-- The directories of a path, when it is cut at its last slash. -/
theorem dirOf_cases {buf dir : Str} {i : Nat} (hCut : strrchr buf slash = some i) (hDir : DirOf buf dir) :
    dir = buf.take i ∨ DirOf (buf.take i) dir := by
  obtain ⟨after, hBuf, hNot⟩ := strrchr_eq_some hCut
  obtain ⟨rest, hRest⟩ := hDir
  rcases cut_cases (hRest.symm.trans hBuf) hNot with hEq | ⟨mid, hMid, -⟩
  · exact Or.inl hEq.symm
  · exact Or.inr ⟨mid, hMid⟩

theorem DirOf.length {dir : Str} (h : DirOf path dir) : dir.length < path.length := by
  obtain ⟨rest, rfl⟩ := h
  rw [List.length_append, List.length_cons]
  omega

theorem DirOf.isPrefixOf {dir : Str} (h : DirOf path dir) : dir <+: path := by
  obtain ⟨rest, rfl⟩ := h
  exact List.prefix_append _ _

/-- The loop finds the first mount for the longest directory that some mount path begins with. -/
theorem mountGetLoop_spec :
    ∀ (fuel : Nat) (buf : Str), buf.length ≤ fuel →
      match mountGetLoop mounts fuel buf with
      | none => ∀ dir, DirOf buf dir → ¬ ∃ n ∈ mounts, dir <+: n.mntPath
      | some m => ∃ dir, DirOf buf dir ∧ LongestTried mounts buf dir ∧
          mounts.find? (fun pos => strncmpEq pos.mntPath dir dir.length) = some m
  | 0, buf, hFuel => by
      rw [List.length_eq_zero_iff.mp (Nat.le_zero.mp hFuel)]
      rintro dir hDir
      exact absurd hDir.length (Nat.not_lt_zero _)
  | fuel + 1, buf, hFuel => by
      rw [mountGetLoop]
      cases hCut : strrchr buf slash with
      | none =>
          rintro dir ⟨rest, hBuf⟩
          exact absurd (hBuf ▸ List.mem_append_right dir List.mem_cons_self) (strrchr_eq_none hCut)
      | some i =>
          simp only
          obtain ⟨after, hBuf, -⟩ := strrchr_eq_some hCut
          have hDir : DirOf buf (buf.take i) := ⟨after, hBuf⟩
          cases hFind : mounts.find? fun pos =>
              strncmpEq pos.mntPath (buf.take i) (buf.take i).length with
          | some m =>
              simp only
              refine ⟨buf.take i, hDir, fun dir' hDir' hLong => ?_, hFind⟩
              rcases dirOf_cases hCut hDir' with hEq | hShort
              · rw [hEq] at hLong
                exact absurd hLong (lt_irrefl _)
              · exact absurd (hLong.trans hShort.length) (lt_irrefl _)
          | none =>
              have hNone := find_mount_none.mp hFind
              have ih := mountGetLoop_spec fuel (buf.take i) (by have := hDir.length; omega)
              simp only
              cases hRest : mountGetLoop mounts fuel (buf.take i) with
              | none =>
                  rw [hRest] at ih
                  intro dir hDir'
                  rcases dirOf_cases hCut hDir' with rfl | hShort
                  · exact hNone
                  · exact ih dir hShort
              | some m =>
                  rw [hRest] at ih
                  obtain ⟨dir, hDir', hTried, hFound⟩ := ih
                  refine ⟨dir, ?_, fun dir' hLonger hLong => ?_, hFound⟩
                  · obtain ⟨rest, hRest⟩ := hDir'
                    refine ⟨rest ++ slash :: after, ?_⟩
                    rw [hBuf, hRest, List.append_assoc, List.cons_append]
                  · rcases dirOf_cases hCut hLonger with rfl | hShort
                    · exact hNone
                    · exact hTried dir' hShort hLong

theorem find_mount_some {dir : Str} {m : Mount} :
    mounts.find? (fun pos => strncmpEq pos.mntPath dir dir.length) = some m ↔
      dir <+: m.mntPath ∧ ∃ before after, mounts = before ++ m :: after ∧
        ∀ n ∈ before, ¬ dir <+: n.mntPath := by
  rw [List.find?_eq_some_iff_append, strncmpEq_length]
  simp only [Bool.not_eq_true', Bool.eq_false_iff, ne_eq, strncmpEq_length]

/-! ## When it is the longest one -/

/-- The mounts for which the search finds what it should find.  There is none at all; or a mount `m` that is
at the path itself, or at a directory of it with no mount at the path, is the first one whose path begins
with `dir`, its directory, and no mount path begins with a longer directory of the path. -/
def FindsLongest (mounts : List Mount) (path : Str) : Prop :=
  mounts = [] ∨ ∃ before m after dir, mounts = before ++ m :: after ∧ DirOf path dir ∧
    (m.mntPath = path ∧ (∀ dir', DirOf path dir' → dir'.length ≤ dir.length) ∨
      m.mntPath = dir ∧ ∀ n ∈ mounts, n.mntPath ≠ path) ∧
    LongestTried mounts path dir ∧ ∀ n ∈ before, ¬ dir <+: n.mntPath

theorem dirOf_unique {dir dir' : Str} (h : DirOf path dir) (h' : DirOf path dir')
    (hLength : dir.length = dir'.length) : dir = dir' :=
  (List.prefix_of_prefix_length_le h.isPrefixOf h'.isPrefixOf hLength.le).eq_of_length hLength

/-- What has been found is the longest mount only if the condition holds. -/
theorem findsLongest_of_longestMount {dir : Str} {m : Mount} (hDir : DirOf path dir)
    (hTried : LongestTried mounts path dir)
    (hFind : mounts.find? (fun pos => strncmpEq pos.mntPath dir dir.length) = some m)
    (hLongest : LongestMount mounts path (some m)) : FindsLongest mounts path := by
  obtain ⟨hBegins, before, after, hMounts, hBefore⟩ := find_mount_some.mp hFind
  obtain ⟨hMem, hCovers, hMax⟩ := hLongest
  refine Or.inr ⟨before, m, after, dir, hMounts, hDir, ?_, hTried, hBefore⟩
  rcases hCovers with hPath | hCut
  · left
    refine ⟨hPath, fun dir' hDir' => ?_⟩
    by_contra hLong
    exact hTried dir' hDir' (not_le.mp hLong) ⟨m, hMem, hPath ▸ hDir'.isPrefixOf⟩
  · right
    have hSame : m.mntPath.length ≤ dir.length := by
      by_contra hLong
      exact hTried m.mntPath hCut (not_le.mp hLong) ⟨m, hMem, List.prefix_rfl⟩
    refine ⟨(hBegins.eq_of_length_le hSame).symm, fun n hn hPath => ?_⟩
    have hLe := hMax n hn (Or.inl hPath)
    have hLt := DirOf.length hCut
    rw [hPath] at hLe
    omega

/-- Under the condition, what has been found is the longest mount. -/
theorem longestMount_of_findsLongest {dir : Str} {m : Mount} (hDir : DirOf path dir)
    (hTried : LongestTried mounts path dir)
    (hFind : mounts.find? (fun pos => strncmpEq pos.mntPath dir dir.length) = some m)
    (hFinds : FindsLongest mounts path) : LongestMount mounts path (some m) := by
  obtain ⟨hBegins, -⟩ := find_mount_some.mp hFind
  have hMem := List.mem_of_find?_eq_some hFind
  rcases hFinds with hNil | ⟨before, m', after, dir', hMounts, hDir', hAt, hTried', hBefore⟩
  · rw [hNil] at hMem
    cases hMem
  have hMem' : m' ∈ mounts := by
    rw [hMounts]
    exact List.mem_append_right _ List.mem_cons_self
  have hBegins' : dir' <+: m'.mntPath := by
    rcases hAt with ⟨hPath, -⟩ | ⟨hPath, -⟩
    · rw [hPath]
      exact hDir'.isPrefixOf
    · rw [hPath]
  -- both are about one directory, and so about one mount
  have hSame : dir = dir' := by
    refine dirOf_unique hDir hDir' (le_antisymm ?_ ?_)
    · by_contra hLong
      exact hTried' dir hDir (not_le.mp hLong) ⟨m, hMem, hBegins⟩
    · by_contra hLong
      exact hTried dir' hDir' (not_le.mp hLong) ⟨m', hMem', hBegins'⟩
  subst hSame
  have hFind' := find_mount_some.mpr ⟨hBegins', before, after, hMounts, hBefore⟩
  cases hFind.symm.trans hFind'
  refine ⟨hMem, ?_, fun n hn hCovers => ?_⟩
  · rcases hAt with ⟨hPath, -⟩ | ⟨hPath, -⟩
    · exact Or.inl hPath
    · rw [← hPath] at hDir
      exact Or.inr hDir
  · rcases hAt with ⟨hPath, -⟩ | ⟨hPath, hNone⟩
    · rcases hCovers with hEq | hCut
      · rw [hEq, hPath]
      · rw [hPath]
        exact (DirOf.length hCut).le
    · rcases hCovers with hEq | hCut
      · exact absurd hEq (hNone n hn)
      · by_contra hLong
        rw [hPath] at hLong
        exact hTried n.mntPath hCut (not_le.mp hLong) ⟨n, hn, List.prefix_rfl⟩

theorem mountGet_longest (hSlash : path.head? = some slash) :
    LongestMount mounts path (mountGet mounts path) ↔ FindsLongest mounts path := by
  have hSpec := @mountGetLoop_spec mounts path.length path (le_refl _)
  rw [mountGet]
  cases hGet : mountGetLoop mounts path.length path with
  | none =>
      -- every mount path begins with the empty directory
      rw [hGet] at hSpec
      have hRoot : DirOf path [] := by
        cases path with
        | nil => cases hSlash
        | cons x rest =>
            rw [List.head?_cons, Option.some.injEq] at hSlash
            exact ⟨rest, by rw [hSlash]; rfl⟩
      have hNil : mounts = [] := by
        refine List.eq_nil_iff_forall_not_mem.mpr fun m hm => ?_
        exact hSpec [] hRoot ⟨m, hm, List.nil_prefix⟩
      rw [hNil]
      exact ⟨fun _ => Or.inl rfl, fun _ m hm => by cases hm⟩
  | some m =>
      rw [hGet] at hSpec
      obtain ⟨dir, hDir, hTried, hFind⟩ := hSpec
      exact ⟨findsLongest_of_longestMount hDir hTried hFind,
        longestMount_of_findsLongest hDir hTried hFind⟩

/-- The root mount, and a mount at `/a`. -/
def vfsTwoMounts : Vfs Unit := { vfsStart with mountList := [⟨[], 0⟩, ⟨pathA, 1⟩] }

end Rayos
