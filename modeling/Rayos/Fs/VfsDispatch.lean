import Rayos.Fs.VfsRun

/-!
# Which file system a call reaches

`vfs_read`, `vfs_write` and `vfs_close` look the mount of the path up again instead of using the one that
the dentry was opened under.  A new mount changes what they find for a path exactly when its path begins
with a directory of that path with which no older mount begins (`mountGet_append`).  In a run without
such mounts every call reaches the type that has created the dentry.
-/

namespace Rayos

open Program CString Vfs

variable {σ : Type} {types : Nat → FileSystemOperations σ} {s s' : Vfs σ}

/-! ## A new mount -/

/-- A new mount with this path is not found for `path`: every directory of `path` that the new mount
path begins with is one that an older mount path begins with. -/
def Covered (mounts : List Mount) (mntPath path : Str) : Prop :=
  ∀ dir rest, path = dir ++ slash :: rest → dir <+: mntPath → ∃ m ∈ mounts, dir <+: m.mntPath

theorem find_mount_append {mounts : List Mount} {new : Mount} {dir : Str} :
    (mounts ++ [new]).find? (fun pos => strncmpEq pos.mntPath dir dir.length) =
      (mounts.find? fun pos => strncmpEq pos.mntPath dir dir.length).or
        (if dir <+: new.mntPath then some new else none) := by
  rw [List.find?_append]
  congr 1
  by_cases hNew : dir <+: new.mntPath
  · simp [hNew, (strncmpEq_length _ _).mpr hNew]
  · have hNot : strncmpEq new.mntPath dir dir.length = false :=
      Bool.eq_false_iff.mpr fun h => hNew ((strncmpEq_length _ _).mp h)
    simp [hNew, hNot]

theorem find_mount_none {mounts : List Mount} {dir : Str} :
    mounts.find? (fun pos => strncmpEq pos.mntPath dir dir.length) = none ↔
      ¬ ∃ m ∈ mounts, dir <+: m.mntPath := by
  simp only [List.find?_eq_none, strncmpEq_length, not_exists, not_and]

/-- A mount that is covered changes nothing. -/
theorem mountGetLoop_covered {mounts : List Mount} {new : Mount} :
    ∀ (fuel : Nat) (buf tail : Str), Covered mounts new.mntPath (buf ++ tail) →
      mountGetLoop (mounts ++ [new]) fuel buf = mountGetLoop mounts fuel buf
  | 0, _, _, _ => rfl
  | fuel + 1, buf, tail, hCovered => by
      rw [mountGetLoop, mountGetLoop]
      cases hCut : strrchr buf slash with
      | none => rfl
      | some i =>
          obtain ⟨rest, hBuf, -⟩ := strrchr_eq_some hCut
          have hPath : buf ++ tail = buf.take i ++ (slash :: (rest ++ tail)) := by
            conv_lhs => rw [hBuf]
            simp
          have ih : mountGetLoop (mounts ++ [new]) fuel (buf.take i) =
              mountGetLoop mounts fuel (buf.take i) :=
            mountGetLoop_covered fuel _ (slash :: (rest ++ tail)) (by rw [← hPath]; exact hCovered)
          simp only [find_mount_append]
          cases hFind : mounts.find? fun pos =>
              strncmpEq pos.mntPath (buf.take i) (buf.take i).length with
          | some m => rfl
          | none =>
              have hNot : ¬ buf.take i <+: new.mntPath := fun hBegins =>
                find_mount_none.mp hFind (hCovered _ _ hPath hBegins)
              rw [if_neg hNot]
              exact ih

/-- A mount that is not covered is found. -/
theorem mountGetLoop_shadowed {mounts : List Mount} {new : Mount} {dir : Str}
    (hBegins : dir <+: new.mntPath) (hNone : ¬ ∃ m ∈ mounts, dir <+: m.mntPath) :
    ∀ (fuel : Nat) (rest : Str), dir.length + rest.length < fuel →
      mountGetLoop (mounts ++ [new]) fuel (dir ++ slash :: rest) = some new
  | 0, _, hFuel => absurd hFuel (Nat.not_lt_zero _)
  | fuel + 1, rest, hFuel => by
      rw [mountGetLoop]
      cases hCut : strrchr (dir ++ slash :: rest) slash with
      | none => exact absurd (strrchr_eq_none hCut) (by simp)
      | some i =>
          obtain ⟨after, hBuf, hNot⟩ := strrchr_eq_some hCut
          simp only [find_mount_append]
          rcases cut_cases hBuf hNot with hTake | ⟨mid, hTake, hRest⟩
          · rw [hTake, find_mount_none.mpr hNone, if_pos hBegins]
            rfl
          · -- a directory below `dir`: no older mount begins with it either
            have hBelow : dir <+: (dir ++ slash :: rest).take i := by
              rw [hTake]
              exact List.prefix_append _ _
            have hNone' : ¬ ∃ m ∈ mounts, (dir ++ slash :: rest).take i <+: m.mntPath :=
              fun ⟨m, hm, hLong⟩ => hNone ⟨m, hm, hBelow.trans hLong⟩
            rw [find_mount_none.mpr hNone']
            by_cases hNew : (dir ++ slash :: rest).take i <+: new.mntPath
            · rw [if_pos hNew]
              rfl
            · rw [if_neg hNew, hTake]
              refine mountGetLoop_shadowed hBegins hNone fuel mid ?_
              have := congrArg List.length hRest
              simp only [List.length_append, List.length_cons] at this
              omega

theorem mountGet_covered {mounts : List Mount} {new : Mount} {path : Str}
    (hCovered : Covered mounts new.mntPath path) :
    mountGet (mounts ++ [new]) path = mountGet mounts path :=
  mountGetLoop_covered path.length path [] (by rw [List.append_nil]; exact hCovered)

/-- A new mount that is not covered is what is found from then on. -/
theorem mountGet_shadowed {mounts : List Mount} {new : Mount} {path : Str}
    (hNot : ¬ Covered mounts new.mntPath path) : mountGet (mounts ++ [new]) path = some new := by
  simp only [Covered, not_forall] at hNot
  obtain ⟨dir, rest, rfl, hBegins, hNone⟩ := hNot
  refine mountGetLoop_shadowed hBegins hNone _ rest ?_
  simp only [List.length_append, List.length_cons]
  omega

/-! ## Runs -/

/-- A mount is covered for the path of every dentry of another type. -/
def KeepsDispatch (s : Vfs σ) : VfsCall → Prop
  | .mountNodev fstype path =>
      ∀ d ∈ s.dentryList, d.mnt.mntFstype = fstype ∨
        Covered s.mountList (trimSlashes path) d.pathname
  | _ => True

/-- The dentry was made by `lookup` and `open` of its type, and its path is found under that type. -/
structure DispatchInv (s : Vfs σ) (d : Dentry) : Prop where
  found : ∃ m, mountGet s.mountList d.pathname = some m ∧ m.mntFstype = d.mnt.mntFstype
  lookedUp : ⟨.fsLookup, d.mnt.mntFstype, d.addr⟩ ∈ s.calls
  opened : ⟨.fsOpen, d.mnt.mntFstype, d.addr⟩ ∈ s.calls
  noOther : ∀ c ∈ s.calls, c.dentry = d.addr → c.op = .fsLookup ∨ c.op = .fsOpen →
    c.fstype = d.mnt.mntFstype

/-- The calls made afterwards do not matter when they do not look this dentry up. -/
theorem DispatchInv.mono {d e : Dentry} {new : List FsCall} (h : DispatchInv s d)
    (hAddr : e.addr = d.addr) (hPath : e.pathname = d.pathname) (hMnt : e.mnt = d.mnt)
    (hMounts : s'.mountList = s.mountList) (hCalls : s'.calls = s.calls ++ new)
    (hNew : ∀ c ∈ new, c.dentry = d.addr → ¬ (c.op = .fsLookup ∨ c.op = .fsOpen)) :
    DispatchInv s' e := by
  refine ⟨?_, ?_, ?_, ?_⟩
  · rw [hMounts, hPath, hMnt]
    exact h.found
  · rw [hCalls, hMnt, hAddr]
    exact List.mem_append_left _ h.lookedUp
  · rw [hCalls, hMnt, hAddr]
    exact List.mem_append_left _ h.opened
  · intro c hc hcAddr hOp
    rw [hCalls, List.mem_append] at hc
    rw [hAddr] at hcAddr
    rw [hMnt]
    rcases hc with hc | hc
    · exact h.noOther c hc hcAddr hOp
    · exact absurd hOp (hNew c hc hcAddr)

theorem dispatchInv_step {call : VfsCall} {r : Int} (hInv : RefInv s)
    (h : ∀ d ∈ s.dentryList, DispatchInv s d) (hKeeps : KeepsDispatch s call)
    (hStep : VfsStep types s s' call r) : ∀ d ∈ s'.dentryList, DispatchInv s' d := by
  cases hStep with
  | quiet new hQuiet hCalls hNew =>
      intro d hd
      rw [hQuiet.dentries] at hd
      refine (h d hd).mono rfl rfl rfl hQuiet.mounts hCalls fun c hc hAddr hOp => ?_
      have := (hNew c hc).2.2 hOp
      have := hInv.dentryLt d hd
      omega
  | @mounted fstype path t hQuiet hCalls hEq =>
      rw [hEq]
      intro d hd
      change d ∈ t.dentryList at hd
      rw [hQuiet.dentries] at hd
      obtain ⟨m, hMount, hType⟩ := (h d hd).found
      refine ⟨?_, ?_, ?_, ?_⟩
      · show ∃ m, mountGet (s.mountList ++ [_]) d.pathname = some m ∧ _
        by_cases hCovered : Covered s.mountList (trimSlashes path) d.pathname
        · rw [mountGet_covered hCovered]
          exact ⟨m, hMount, hType⟩
        · rw [mountGet_shadowed hCovered]
          exact ⟨_, rfl, ((hKeeps d hd).resolve_right hCovered).symm⟩
      · show _ ∈ t.calls
        rw [hCalls]
        exact (h d hd).lookedUp
      · show _ ∈ t.calls
        rw [hCalls]
        exact (h d hd).opened
      · intro c hc
        change c ∈ t.calls at hc
        rw [hCalls] at hc
        exact (h d hd).noOther c hc
  | @opened path mode t filp addr hOpen hFilp hFilp' hEq =>
      rw [hEq]
      intro d hd
      change d ∈ t.dentryList at hd
      cases hOpen with
      | failed new hRet => exact absurd hRet (by decide)
      | shared e m hMount hFind hDentries hSteady hCalls hFs hLock =>
          rw [hDentries] at hd
          obtain ⟨c, hc, rfl⟩ := mem_changeRef hd
          have hSame : t.calls = s.calls ++ [] := by rw [hCalls, List.append_nil]
          exact (h c hc).mono (by split <;> rfl) (by split <;> rfl) (by split <;> rfl)
            hSteady.mounts hSame (by simp)
      | created addr privateData m hMount hFind hAddr hAddr' hDentries hSteady hCalls hFs =>
          rw [hDentries, List.mem_append, List.mem_singleton] at hd
          rcases hd with hd | rfl
          · refine (h d hd).mono rfl rfl rfl hSteady.mounts hCalls fun c hc hcAddr _ => ?_
            have hNew : c.dentry = addr := by
              simp only [List.mem_cons, List.not_mem_nil, or_false] at hc
              rcases hc with rfl | rfl <;> rfl
            have := hInv.dentryLt d hd
            omega
          · refine ⟨⟨m, ?_, rfl⟩, ?_, ?_, ?_⟩
            · show mountGet t.mountList path = some m
              rw [hSteady.mounts]
              exact hMount
            · show _ ∈ t.calls
              simp [hCalls]
            · show _ ∈ t.calls
              simp [hCalls]
            · intro c hc hcAddr _
              change c ∈ t.calls at hc
              rw [hCalls, List.mem_append] at hc
              rcases hc with hc | hc
              · have := hInv.callLt c hc
                change c.dentry = addr at hcAddr
                omega
              · simp only [List.mem_cons, List.not_mem_nil, or_false] at hc
                rcases hc with rfl | rfl <;> rfl
  | closed t f d hFile hd hAddr hClose hRet hEq =>
      rw [hEq]
      intro e he
      obtain ⟨c, hc, hcAddr, hcPath, hcMnt⟩ := hClose.mem_old hInv hd he
      obtain ⟨new, hCalls, hNew⟩ : ∃ new, t.calls = s.calls ++ new ∧
          ∀ c ∈ new, ¬ (c.op = .fsLookup ∨ c.op = .fsOpen) := by
        cases hClose with
        | unmounted hMount hQuiet hCalls => exact ⟨[], by simp [hCalls], by simp⟩
        | dropped m hMount hRef hDentries hSteady hCalls => exact ⟨[], by simp [hCalls], by simp⟩
        | released m hMount hRef hDentries hSteady hCalls => exact ⟨_, hCalls, by simp⟩
      exact (h c hc).mono hcAddr.symm hcPath.symm hcMnt.symm hClose.steady.mounts hCalls
        fun c' hc' _ => hNew c' hc'

theorem dispatchInv_of_run {s0 : Vfs σ} (hInit : VfsInit s0)
    (hRun : Relation.ReflTransGen (VfsNext types KeepsDispatch) s0 s) :
    ∀ d ∈ s.dentryList, DispatchInv s d := by
  induction hRun with
  | refl => simp [hInit.dentries]
  | tail hBefore hNext ih =>
      obtain ⟨call, r, hKeeps, hCall⟩ := hNext
      have hInv := refInv_of_run hInit hBefore
      exact dispatchInv_step hInv ih hKeeps (vfsCall_step hInv hCall)

/-- The descriptor that a call is made on. -/
def VfsCall.fd? : VfsCall → Option (BitVec 32)
  | .sysRead fd _ => some fd
  | .sysWrite fd _ => some fd
  | .sysClose fd => some fd
  | _ => none

/-- The operations that a call on a descriptor with the dentry `d` should invoke: those of the type
that has created the dentry. -/
def ownCalls (types : Nat → FileSystemOperations σ) (d : Dentry) : VfsCall → List FsCall
  | .sysRead _ _ =>
      if (types d.mnt.mntFstype).fsRead.isSome then [⟨.fsRead, d.mnt.mntFstype, d.addr⟩] else []
  | .sysWrite _ _ =>
      if (types d.mnt.mntFstype).fsWrite.isSome then [⟨.fsWrite, d.mnt.mntFstype, d.addr⟩] else []
  | .sysClose _ => if d.dRef = 1 then [⟨.fsRelease, d.mnt.mntFstype, d.addr⟩] else []
  | _ => []

theorem Vfs.AccessOutcome.calls_eq {op : FsOp} {has : Nat → Prop} [DecidablePred has] {d : Dentry}
    (hAccess : AccessOutcome op has d s s') (h : DispatchInv s d) :
    s'.calls = s.calls ++
      if has d.mnt.mntFstype then [⟨op, d.mnt.mntFstype, d.addr⟩] else [] := by
  obtain ⟨m, hFound, hType⟩ := h.found
  cases hAccess with
  | refused hMount hQuiet hCalls =>
      have hNot := hMount m hFound
      rw [hType] at hNot
      rw [if_neg hNot, hCalls, List.append_nil]
  | called m' hMount hHas hQuiet hCalls =>
      cases hFound.symm.trans hMount
      rw [hType] at hHas hCalls
      rw [if_pos hHas, hCalls]

theorem calls_of_descriptor {call : VfsCall} {r : Int} {fd : BitVec 32} {f : File}
    (hInv : RefInv s) (h : ∀ d ∈ s.dentryList, DispatchInv s d) (hFd : call.fd? = some fd)
    (hFile : fileOf s.fileList fd = some f) (hCall : vfsCall types call s = .ok r s') :
    ∃ d ∈ s.dentryList, d.addr = f.dentry ∧ DispatchInv s d ∧
      s'.calls = s.calls ++ ownCalls types d call := by
  cases call with
  | mountNodev fstype path => cases hFd
  | sysOpen path mode => cases hFd
  | sysRead fd' size =>
      cases hFd
      simp only [vfsCall, bind_eq_ok] at hCall
      obtain ⟨r', t, hRead, hPure⟩ := hCall
      cases hPure
      rcases sysRead_outcome hRead with ⟨hNone, -⟩ | ⟨f', d, hFile', hFind, hAccess⟩
      · rw [hFile] at hNone
        cases hNone
      · cases hFile.symm.trans hFile'
        obtain ⟨hd, hAddr⟩ := (KeyedList.find_key_eq_some hInv.addrs).mp hFind
        exact ⟨d, hd, hAddr, h d hd, hAccess.calls_eq (h d hd)⟩
  | sysWrite fd' buf =>
      cases hFd
      rcases sysWrite_outcome hCall with ⟨hNone, -⟩ | ⟨f', d, hFile', hFind, hAccess⟩
      · rw [hFile] at hNone
        cases hNone
      · cases hFile.symm.trans hFile'
        obtain ⟨hd, hAddr⟩ := (KeyedList.find_key_eq_some hInv.addrs).mp hFind
        exact ⟨d, hd, hAddr, h d hd, hAccess.calls_eq (h d hd)⟩
  | sysClose fd' =>
      cases hFd
      rcases sysClose_outcome hCall with ⟨hNone, -⟩ | ⟨f', d, t, ret, hFile', hFind, hClose, hEnd⟩
      · rw [hFile] at hNone
        cases hNone
      cases hFile.symm.trans hFile'
      obtain ⟨hd, hAddr⟩ := (KeyedList.find_key_eq_some hInv.addrs).mp hFind
      refine ⟨d, hd, hAddr, h d hd, ?_⟩
      obtain ⟨m, hFound, hType⟩ := (h d hd).found
      have hCalls : s'.calls = t.calls := by
        rcases hEnd with ⟨-, rfl, -⟩ | ⟨-, -, rfl⟩ <;> rfl
      rw [hCalls, ownCalls]
      cases hClose with
      | unmounted hMount hQuiet hCalls =>
          rw [hFound] at hMount
          cases hMount
      | dropped m' hMount hRef hDentries hSteady hCalls =>
          rw [hCalls, if_neg (by omega), List.append_nil]
      | released m' hMount hRef hDentries hSteady hCalls =>
          cases hFound.symm.trans hMount
          rw [hCalls, if_pos (by omega), hType]

/-- The path `/d/a`. -/
def pathDA : Str := [0x2f#8, 0x64#8, 0x2f#8, 0x61#8]

/-- The path `/d`. -/
def pathD : Str := [0x2f#8, 0x64#8]

end Rayos
