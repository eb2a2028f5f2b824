import Rayos.Fs.Descriptors
import Rayos.Fs.Fatfs

/-!
# Two descriptors on one FAT file

Two opens of one path share the dentry, and with it the file object and its position.  `Sharing` says
so of a state; every `sys_read` on either descriptor then reads from the common position
(`sysRead_sharing`), so that a sequence of reads is a sequence of reads of one cursor.
-/

namespace Rayos

open Program CString Vfs SharedCursor

variable {types : Nat → FileSystemOperations Fatfs} {s s' : Vfs Fatfs} {fd1 fd2 : BitVec 32}
  {path : Str} {mode : BitVec 32} {pos : Nat}

/-- Both descriptors are open on the path, with one file object at the position `pos`. -/
structure Sharing (types : Nat → FileSystemOperations Fatfs) (s : Vfs Fatfs) (fd1 fd2 : BitVec 32)
    (path : Str) (mode : BitVec 32) (pos : Nat) : Prop where
  mount : ∃ m, mountGet s.mountList path = some m ∧ types m.mntFstype = Fatfs.fsOps
  dentry : ∃ d, d.pathname = path ∧
    s.fs.dentries[d.privateData]? = some ⟨path, some ⟨path, mode, pos⟩⟩ ∧
    ∀ fd, fd = fd1 ∨ fd = fd2 → ∃ f, fileOf s.fileList fd = some f ∧
      s.dentryList.find? (fun d => d.addr == f.dentry) = some d

/-- What a read asks of the file object: nothing when it was not opened for reading. -/
def asked (mode : BitVec 32) (r : BitVec 32 × Nat) : BitVec 32 × Nat :=
  (r.1, if mode &&& faRead = 0#32 then 0 else uintOfSize r.2)

theorem fatfsRead_eq {fs : Fatfs} {fd : Nat} (r : BitVec 32 × Nat)
    (hData : fs.dentries[fd]? = some ⟨path, some ⟨path, mode, pos⟩⟩) :
    let got := ((fs.volume.content path).drop pos).take (asked mode r).2
    (Fatfs.fatfsRead fd r.2 fs).1.2 = got ∧
      (Fatfs.fatfsRead fd r.2 fs).2.volume = fs.volume ∧
      (Fatfs.fatfsRead fd r.2 fs).2.dentries[fd]? =
        some ⟨path, some ⟨path, mode, pos + got.length⟩⟩ := by
  simp only [Fatfs.fatfsRead, hData, Option.bind_some, asked]
  by_cases hFlag : mode &&& faRead = 0#32
  · simp [hFlag, hData]
  · simp [hFlag, Fatfs.setData, hData]

/-- A read takes from the common position. -/
theorem sysRead_sharing {fd : BitVec 32} {size : Nat} {r : Int × List (BitVec 8)}
    (h : Sharing types s fd1 fd2 path mode pos) (hFd : fd = fd1 ∨ fd = fd2)
    (hRun : sysRead types fd size s = .ok r s') :
    r.2 = ((s.fs.volume.content path).drop pos).take (asked mode (fd, size)).2 ∧
      s'.fs.volume = s.fs.volume ∧ Sharing types s' fd1 fd2 path mode (pos + r.2.length) := by
  obtain ⟨m, hMount, hType⟩ := h.mount
  obtain ⟨d, rfl, hData, hFiles⟩ := h.dentry
  obtain ⟨f, hFile, hFind⟩ := hFiles fd hFd
  have hRead : (types m.mntFstype).fsRead = some Fatfs.fatfsRead := by rw [hType]; rfl
  obtain ⟨hGot, hFs, hQuiet⟩ := sysRead_eq_ok hFile hFind hMount hRead hRun
  obtain ⟨hBytes, hVolume, hNext⟩ := fatfsRead_eq (fd, size) hData
  rw [← hFs] at hVolume hNext
  rw [← hGot] at hBytes
  refine ⟨hBytes, hVolume, ?_, d, rfl, by rw [hBytes]; exact hNext, fun fd' hFd' => ?_⟩
  · rw [hQuiet.mounts]
    exact ⟨m, hMount, hType⟩
  · rw [hQuiet.files, hQuiet.dentries]
    exact hFiles fd' hFd'

/-- The reads one after another, with the bytes that each has returned. -/
def readAll (types : Nat → FileSystemOperations Fatfs) :
    List (BitVec 32 × Nat) → VfsM Fatfs (List (BitVec 32 × List (BitVec 8)))
  | [] => pure []
  | (fd, size) :: rest => do
      let r ← sysRead types fd size
      let out ← readAll types rest
      pure ((fd, r.2) :: out)

/-- Reads through two descriptors are reads of one cursor. -/
theorem readAll_sharing :
    ∀ (l : List (BitVec 32 × Nat)) (s : Vfs Fatfs) (pos : Nat),
      Sharing types s fd1 fd2 path mode pos → (∀ r ∈ l, r.1 = fd1 ∨ r.1 = fd2) →
      ∀ out, readAll types l s = .ok out s' →
        out = reads (s.fs.volume.content path) pos (l.map (asked mode))
  | [], _, _, _, _, _, hRun => by
      cases hRun
      rfl
  | (fd, size) :: rest, s, pos, h, hOnly, out, hRun => by
      simp only [readAll, bind_eq_ok] at hRun
      obtain ⟨r, t, hRead, out', s2, hRest, hPure⟩ := hRun
      cases hPure
      obtain ⟨hGot, hVolume, hNext⟩ := sysRead_sharing h (hOnly _ List.mem_cons_self) hRead
      have ih := readAll_sharing rest t _ hNext (fun r hr => hOnly r (List.mem_cons_of_mem _ hr))
        out' hRest
      rw [List.map_cons, reads, ih, hVolume, hGot]
      rfl

/-- With memory for the lookups, reads return. -/
theorem readAll_ok (hFits : PathFits path) :
    ∀ (l : List (BitVec 32 × Nat)) (s : Vfs Fatfs) (pos : Nat),
      Sharing types s fd1 fd2 path mode pos → (∀ r ∈ l, r.1 = fd1 ∨ r.1 = fd2) →
      s.heap.mmSpinlock = false → (∀ i, s.heap.memory i = true) →
      ∃ out s', readAll types l s = .ok out s'
  | [], s, _, _, _, _, _ => ⟨[], s, rfl⟩
  | (fd, size) :: rest, s, pos, h, hOnly, hLock, hMemory => by
      obtain ⟨m, hMount, hType⟩ := h.mount
      obtain ⟨d, hPath, hData, hFiles⟩ := h.dentry
      have hFd := hOnly _ List.mem_cons_self
      obtain ⟨f, hFile, hFind⟩ := hFiles fd hFd
      obtain ⟨r, t, hRead, hHeap⟩ : ∃ r t, sysRead types fd size s = .ok r t ∧
          t.heap = { s.heap with kzallocs := s.heap.kzallocs + 1 } := by
        have hAt : dentryAt f.dentry s = .ok d s := by
          unfold dentryAt
          rw [bind_ok (get_apply s)]
          simp only [hFind]
          rfl
        have hGet := mountGetByName_ok (s := s) hFits hLock (hMemory _)
        unfold sysRead
        rw [bind_ok (get_apply s)]
        simp only [hFile, vfsRead]
        rw [bind_ok hAt, hPath, bind_ok hGet]
        simp only [hMount, hType, Fatfs.fsOps]
        exact ⟨_, _, rfl, rfl⟩
      obtain ⟨-, -, hNext⟩ := sysRead_sharing h hFd hRead
      obtain ⟨out, s2, hRest⟩ := readAll_ok hFits rest t _ hNext
        (fun r hr => hOnly r (List.mem_cons_of_mem _ hr)) (by rw [hHeap]; exact hLock)
        (by rw [hHeap]; exact hMemory)
      exact ⟨(fd, r.2) :: out, s2, by rw [readAll, bind_ok hRead, bind_ok hRest]; rfl⟩

/-! ## Opening twice -/

theorem fatfs_opened {fs : Fatfs} {fd : Nat} (hLookup : (Fatfs.fatfsLookup path fs).1 = some fd)
    (hOpen : 0 ≤ (Fatfs.fatfsOpen fd mode (Fatfs.fatfsLookup path fs).2).1) :
    (Fatfs.fatfsOpen fd mode (Fatfs.fatfsLookup path fs).2).2.dentries[fd]? =
      some ⟨path, some ⟨path, mode, 0⟩⟩ := by
  unfold Fatfs.fatfsLookup at hLookup hOpen ⊢
  by_cases hStat : fs.volume.fStat path
  · by_cases hMemory : fs.memory fs.kzallocs
    · simp only [hStat, if_true, Fatfs.kzalloc, hMemory, Option.some.injEq] at hLookup hOpen ⊢
      subst hLookup
      unfold Fatfs.fatfsOpen at hOpen ⊢
      simp only [Fatfs.kzalloc, List.getElem?_concat_length] at hOpen ⊢
      by_cases hMemory' : fs.memory (fs.kzallocs + 1)
      · by_cases hOpens : fs.volume.fOpen path mode
        · simp [hMemory', hOpens, Fatfs.setData]
        · simp [hMemory', hOpens] at hOpen
      · simp [hMemory'] at hOpen
    · simp [hStat, Fatfs.kzalloc, hMemory] at hLookup
  · simp [hStat] at hLookup

/-- A successful open has found room for its path. -/
theorem pathFits_of_sysOpen {σ : Type} {types : Nat → FileSystemOperations σ} {s s' : Vfs σ}
    {r : Int} (hOpen : sysOpen types path mode s = .ok r s') (hr : 0 ≤ r) : PathFits path := by
  simp only [sysOpen, bind_eq_ok] at hOpen
  obtain ⟨ptr, s1, hAlloc, h⟩ := hOpen
  cases ptr with
  | none =>
      cases h
      exact absurd hr (by decide)
  | some filp =>
      simp only [vfsOpen, bind_eq_ok] at h
      obtain ⟨_, _, ⟨_, _, hGet, -⟩, -⟩ := h
      exact pathFits_of_mountGetByName hGet

/-- Opening a path twice that is not open yet: one file object, at position 0. -/
theorem sharing_of_two_opens {s1 s2 : Vfs Fatfs} {mode' : BitVec 32} {r1 r2 : Int}
    (hInv : RefInv s) (hFdInv : FdInv s) (hClosed : ∀ d ∈ s.dentryList, d.pathname ≠ path)
    (hFat : ∀ m, mountGet s.mountList path = some m → types m.mntFstype = Fatfs.fsOps)
    (hOpen1 : sysOpen types path mode s = .ok r1 s1)
    (hOpen2 : sysOpen types path mode' s1 = .ok r2 s2) (hr1 : 0 ≤ r1) (hr2 : 0 ≤ r2) :
    Sharing types s2 (BitVec.ofInt 32 r1) (BitVec.ofInt 32 r2) path mode 0 ∧
      BitVec.ofInt 32 r1 ≠ BitVec.ofInt 32 r2 ∧ s2.heap.mmSpinlock = false ∧
      s2.heap.memory = s.heap.memory := by
  have hStep1 : VfsStep types s s1 (.sysOpen path mode) r1 := vfsCall_step hInv hOpen1
  have hInv1 := refInv_step hInv hStep1
  have hStep2 : VfsStep types s1 s2 (.sysOpen path mode') r2 := vfsCall_step hInv1 hOpen2
  rcases sysOpen_outcome hOpen1 with ⟨hNeg, -⟩ | ⟨t1, filp1, addr1, hOut1, -, -, hEq1, hNum1⟩
  · omega
  rcases sysOpen_outcome hOpen2 with ⟨hNeg, -⟩ | ⟨t2, filp2, addr2, hOut2, -, -, hEq2, hNum2⟩
  · omega
  have hLow (v : BitVec 32) (hv : 0 ≤ v.toInt) : v.toNat < 2 ^ 31 := by
    rw [BitVec.toInt_eq_toNat_cond] at hv
    split at hv <;> omega
  have hLow1 : LowDescriptor s (.sysOpen path mode) := hLow _ (by rw [← hNum1]; exact hr1)
  have hLow2 : LowDescriptor s1 (.sysOpen path mode') := hLow _ (by rw [← hNum2]; exact hr2)
  have hFdInv1 : FdInv s1 := fdInv_step hFdInv hLow1 hStep1
  have hFdInv2 : FdInv s2 := fdInv_step hFdInv1 hLow2 hStep2
  rw [hNum1, hNum2, BitVec.ofInt_toInt, BitVec.ofInt_toInt]
  cases hOut1 with
  | failed new hRet => exact absurd hRet (by decide)
  | shared d m hMount hFind hDentries hSteady hCalls hFs hLock =>
      exact absurd (by simpa using List.find?_some hFind)
        (hClosed d (List.mem_of_find?_eq_some hFind))
  | created addr1 privateData m hMount hFind hAddr hAddr' hDentries hSteady hCalls hFs =>
      have hDentries1 : s1.dentryList = s.dentryList ++ [⟨addr1, path, m, 1, privateData⟩] := by
        rw [hEq1]
        exact hDentries
      have hFind1 : s1.dentryList.find? (fun d => d.pathname == path) =
          some ⟨addr1, path, m, 1, privateData⟩ := by
        rw [hDentries1, List.find?_append, hFind]
        simp
      have hMounts1 : s1.mountList = s.mountList := by
        rw [hEq1]
        exact hSteady.mounts
      have hFs1 : s1.fs = t1.fs := by rw [hEq1]
      have hMemory1 : s1.heap.memory = s.heap.memory := by
        rw [hEq1]
        exact hSteady.memory
      have hFiles1 : s1.fileList = s.fileList ++ [⟨filp1, s.fdCount, addr1⟩] := by rw [hEq1]
      cases hOut2 with
      | failed new hRet => exact absurd hRet (by decide)
      | created addr2 privateData' m' hMount' hFind' =>
          rw [hFind1] at hFind'
          cases hFind'
      | shared d m' hMount' hFind' hDentries' hSteady' hCalls' hFs' hLock' =>
          rw [hFind1] at hFind'
          cases hFind'
          refine ⟨⟨?_, ⟨addr1, path, m, 1 + 1, privateData⟩, rfl, ?_, ?_⟩, ?_, ?_, ?_⟩
          · rw [hEq2]
            show ∃ m, mountGet t2.mountList path = some m ∧ _
            rw [hSteady'.mounts, hMounts1]
            exact ⟨m, hMount, hFat m hMount⟩
          · rw [hEq2]
            show t2.fs.dentries[privateData]? = _
            obtain ⟨lookup, hLookup, hFound, hOpens, hFsEq⟩ := hFs
            rw [hFat m hMount] at hLookup hOpens hFsEq
            cases hLookup
            rw [hFs', hFs1, hFsEq]
            exact fatfs_opened hFound hOpens
          · -- both descriptors find a file with the new dentry
            have hDentry : s2.dentryList.find? (fun d => d.addr == addr1) =
                some ⟨addr1, path, m, 1 + 1, privateData⟩ := by
              rw [hEq2]
              show t2.dentryList.find? _ = _
              have hOld : s1.dentryList.find? (fun d => d.addr == addr1) =
                  some ⟨addr1, path, m, 1, privateData⟩ :=
                (KeyedList.find_key_eq_some hInv1.addrs).mpr ⟨by simp [hDentries1], rfl⟩
              rw [hDentries']
              exact find_changeRef 1 hOld
            have hFiles2 : s2.fileList = s1.fileList ++ [⟨filp2, s1.fdCount, addr1⟩] := by
              rw [hEq2]
            rintro fd (rfl | rfl)
            · refine ⟨⟨filp1, s.fdCount, addr1⟩, ?_, hDentry⟩
              exact (KeyedList.find_key_eq_some hFdInv2.nodup).mpr ⟨by simp [hFiles2, hFiles1], rfl⟩
            · refine ⟨⟨filp2, s1.fdCount, addr1⟩, ?_, hDentry⟩
              exact (KeyedList.find_key_eq_some hFdInv2.nodup).mpr ⟨by simp [hFiles2], rfl⟩
          · exact hFdInv1.ne_counter (f := ⟨filp1, s.fdCount, addr1⟩) (by simp [hFiles1])
          · rw [hEq2]
            exact hLock'
          · rw [hEq2]
            exact hSteady'.memory.trans hMemory1

/-! ## Whose bytes -/

/-- The file at `path` holds `content`. -/
def withContent (s : Vfs Fatfs) (path : Str) (content : List (BitVec 8)) : Vfs Fatfs :=
  { s with fs := { s.fs with volume := { s.fs.volume with
      content := Function.update s.fs.volume.content path content } } }

theorem Sharing.withContent (h : Sharing types s fd1 fd2 path mode pos)
    (content : List (BitVec 8)) :
    Sharing types (withContent s path content) fd1 fd2 path mode pos :=
  ⟨h.mount, h.dentry⟩

/-- What the descriptor `fd` has returned is a beginning of the file, and the same as if the other
reads had not been made. -/
def OwnOffset (types : Nat → FileSystemOperations Fatfs) (s : Vfs Fatfs) (path : Str)
    (l : List (BitVec 32 × Nat)) (fd : BitVec 32) : Prop :=
  ∀ out s', readAll types l s = .ok out s' →
    taken fd out <+: s.fs.volume.content path ∧
      ∀ out' s'', readAll types (l.filter fun r => r.1 = fd) s = .ok out' s'' →
        taken fd out = taken fd out'

/-- The descriptor `fd` asks for no bytes. -/
def AsksNothing (mode : BitVec 32) (l : List (BitVec 32 × Nat)) (fd : BitVec 32) : Prop :=
  ∀ r ∈ l, r.1 = fd → mode &&& faRead = 0#32 ∨ r.2 % 2 ^ 32 = 0

theorem asksNothing_iff {l : List (BitVec 32 × Nat)} {fd : BitVec 32} :
    AsksNothing mode l fd ↔ ∀ r ∈ l.map (asked mode), r.1 = fd → r.2 = 0 := by
  simp only [AsksNothing, List.forall_mem_map, asked, uintOfSize]
  refine forall₂_congr fun r hr => imp_congr_right fun _ => ?_
  by_cases hMode : mode &&& faRead = 0#32 <;> simp [hMode]

/-- A descriptor that nobody else reads beside has its own offset. -/
theorem ownOffset_of_zero {l : List (BitVec 32 × Nat)} {fd other : BitVec 32}
    (h : Sharing types s fd1 fd2 path mode 0) (hOnly : ∀ r ∈ l, r.1 = fd1 ∨ r.1 = fd2)
    (hTwo : ∀ r ∈ l, r.1 = fd ∨ r.1 = other)
    (hZero : AsksNothing mode l fd ∨ AsksNothing mode l other) : OwnOffset types s path l fd := by
  intro out s' hRun
  have hOut := readAll_sharing l s 0 h hOnly out hRun
  have hOnly' : ∀ r ∈ l.filter (fun r => r.1 = fd), r.1 = fd1 ∨ r.1 = fd2 := fun r hr =>
    hOnly r (List.mem_filter.mp hr).1
  rw [asksNothing_iff, asksNothing_iff] at hZero
  rw [hOut]
  rcases hZero with hNone | hOthers
  · rw [taken_of_zero _ _ hNone]
    refine ⟨List.nil_prefix, fun out' s'' hRun' => ?_⟩
    rw [readAll_sharing _ s 0 h hOnly' out' hRun', taken_of_zero]
    intro r hr
    obtain ⟨r', hr', rfl⟩ := List.mem_map.mp hr
    exact hNone _ (List.mem_map.mpr ⟨r', (List.mem_filter.mp hr').1, rfl⟩)
  · have hOthers' : ∀ r ∈ l.map (asked mode), r.1 ≠ fd → r.2 = 0 := by
      intro r hr hne
      obtain ⟨r', hr', rfl⟩ := List.mem_map.mp hr
      exact hOthers _ hr ((hTwo r' hr').resolve_left hne)
    rw [taken_of_others_zero _ _ hOthers']
    refine ⟨List.take_prefix _ _, fun out' s'' hRun' => ?_⟩
    rw [readAll_sharing _ s 0 h hOnly' out' hRun', taken_of_others_zero]
    · rw [total_filter _ hOthers', List.filter_map]
      rfl
    · intro r hr hne
      obtain ⟨r', hr', rfl⟩ := List.mem_map.mp hr
      have hFd : r'.1 = fd := by simpa using (List.mem_filter.mp hr').2
      exact absurd hFd hne

/-- **Offsets of two descriptors.**  A path that is not open is opened twice, and the two descriptors
are read in any order.  If one of them asks for no bytes, each has returned a beginning of the file that
does not depend on the other's reads, whatever the file holds.  Otherwise there is a content for which
one of them has not. -/
theorem offsets_own_iff (types : Nat → FileSystemOperations Fatfs) (s0 s s1 s2 : Vfs Fatfs)
    (path : Str) (mode mode' : BitVec 32) (r1 r2 : Int) (hInit : VfsInit s0)
    (hRun : Relation.ReflTransGen (VfsNext types LowDescriptor) s0 s)
    (hClosed : ∀ d ∈ s.dentryList, d.pathname ≠ path)
    (hFat : ∀ m, mountGet s.mountList path = some m → types m.mntFstype = Fatfs.fsOps)
    (hOpen1 : sysOpen types path mode s = .ok r1 s1)
    (hOpen2 : sysOpen types path mode' s1 = .ok r2 s2) (hr1 : 0 ≤ r1) (hr2 : 0 ≤ r2)
    (l : List (BitVec 32 × Nat))
    (hOnly : ∀ r ∈ l, r.1 = BitVec.ofInt 32 r1 ∨ r.1 = BitVec.ofInt 32 r2) :
    (AsksNothing mode l (BitVec.ofInt 32 r1) ∨ AsksNothing mode l (BitVec.ofInt 32 r2) →
      ∀ content, OwnOffset types (withContent s2 path content) path l (BitVec.ofInt 32 r1) ∧
        OwnOffset types (withContent s2 path content) path l (BitVec.ofInt 32 r2)) ∧
    ((∀ i, s.heap.memory i = true) →
      (∀ content, OwnOffset types (withContent s2 path content) path l (BitVec.ofInt 32 r1) ∧
        OwnOffset types (withContent s2 path content) path l (BitVec.ofInt 32 r2)) →
      AsksNothing mode l (BitVec.ofInt 32 r1) ∨ AsksNothing mode l (BitVec.ofInt 32 r2)) := by
  obtain ⟨hSharing, hNe, hLock, hMemory⟩ := sharing_of_two_opens (refInv_of_run hInit hRun)
    (fdInv_of_run hInit hRun) hClosed hFat hOpen1 hOpen2 hr1 hr2
  refine ⟨fun hZero content => ?_, fun hFull hOwn => ?_⟩
  · exact ⟨ownOffset_of_zero (hSharing.withContent content) hOnly hOnly hZero,
      ownOffset_of_zero (hSharing.withContent content) hOnly (fun r hr => (hOnly r hr).symm)
        hZero.symm⟩
  · rw [asksNothing_iff, asksNothing_iff]
    refine (begins_iff (α := BitVec 8) (by decide : 0#8 ≠ 1#8) hNe ?_).mp fun content => ?_
    · intro r hr
      obtain ⟨r', hr', rfl⟩ := List.mem_map.mp hr
      exact hOnly r' hr'
    · have hShare := hSharing.withContent content
      obtain ⟨out, s3, hRead⟩ := readAll_ok (pathFits_of_sysOpen hOpen1 hr1) l
        (withContent s2 path content) 0 hShare hOnly hLock (by rw [← hMemory] at hFull; exact hFull)
      have hOut := readAll_sharing l _ 0 hShare hOnly out hRead
      have hContent : (withContent s2 path content).fs.volume.content path = content := by
        simp [withContent]
      obtain ⟨hOwn1, hOwn2⟩ := hOwn content
      have hBegins1 := (hOwn1 out s3 hRead).1
      have hBegins2 := (hOwn2 out s3 hRead).1
      rw [hOut, hContent] at hBegins1 hBegins2
      exact ⟨hBegins1, hBegins2⟩

/-- A volume with one file, `/a`. -/
def fatfsStart : Vfs Fatfs :=
  ⟨[⟨[], 0⟩], [], [], 0#32, ⟨⟨fun p => p == pathA, fun p _ => p == pathA, fun _ => []⟩, [],
    fun _ => true, 0⟩, ⟨fun _ => true, 2, false⟩, []⟩

/-- The file `/a` opened twice for reading; only the first descriptor is read. -/
theorem offsets_own_iff_single :
    ∃ s1 s2, sysOpen (fun _ => Fatfs.fsOps) pathA faRead fatfsStart = .ok 0 s1 ∧
      sysOpen (fun _ => Fatfs.fsOps) pathA faRead s1 = .ok 1 s2 ∧
      ∀ content, OwnOffset (fun _ => Fatfs.fsOps) (withContent s2 pathA content) pathA
        [(0#32, 2)] 0#32 :=
  ⟨_, _, rfl, rfl, fun content =>
    ((offsets_own_iff (fun _ => Fatfs.fsOps) fatfsStart fatfsStart _ _ pathA faRead faRead 0 1
      ⟨rfl, rfl, rfl, rfl⟩ .refl (by simp [fatfsStart]) (fun _ _ => rfl) rfl rfl (by decide)
      (by decide) [(0#32, 2)] (by simp)).1 (Or.inr (by simp [AsksNothing])) content).1⟩

/-- The file `/a` with the bytes 1, 2 is opened twice, and each descriptor is read once, for one byte.
The second one returns the byte 2. -/
theorem offsets_shared :
    ∃ s1 s2 s3 out, sysOpen (fun _ => Fatfs.fsOps) pathA faRead fatfsStart = .ok 0 s1 ∧
      sysOpen (fun _ => Fatfs.fsOps) pathA faRead s1 = .ok 1 s2 ∧
      readAll (fun _ => Fatfs.fsOps) [(0#32, 1), (1#32, 1)]
        (withContent s2 pathA [1#8, 2#8]) = .ok out s3 ∧
      taken 1#32 out = [2#8] ∧ ¬ taken 1#32 out <+: [1#8, 2#8] := by
  obtain ⟨s1, s2, hOpen1, hOpen2⟩ :
      ∃ s1 s2, sysOpen (fun _ => Fatfs.fsOps) pathA faRead fatfsStart = .ok 0 s1 ∧
        sysOpen (fun _ => Fatfs.fsOps) pathA faRead s1 = .ok 1 s2 := ⟨_, _, rfl, rfl⟩
  have hInit : VfsInit fatfsStart := ⟨rfl, rfl, rfl, rfl⟩
  obtain ⟨hSharing, -, hLock, hMemory⟩ := sharing_of_two_opens (refInv_init hInit)
    (fdInv_init hInit) (by simp [fatfsStart]) (fun _ _ => rfl) hOpen1 hOpen2 (by decide) (by decide)
  have hShare := hSharing.withContent [1#8, 2#8]
  have hOnly : ∀ r ∈ [((0#32 : BitVec 32), 1), (1#32, 1)],
      r.1 = BitVec.ofInt 32 0 ∨ r.1 = BitVec.ofInt 32 1 := by decide
  obtain ⟨out, s3, hRead⟩ := readAll_ok (pathFits_of_sysOpen hOpen1 (by decide)) _ _ 0 hShare hOnly
    hLock (fun i => congrFun hMemory i)
  have hOut := readAll_sharing _ _ 0 hShare hOnly out hRead
  have hContent : (withContent s2 pathA [1#8, 2#8]).fs.volume.content pathA = [1#8, 2#8] := by
    simp [withContent]
  rw [hContent] at hOut
  have hTaken : taken 1#32 out = [2#8] := by
    rw [hOut]
    decide
  exact ⟨s1, s2, s3, out, hOpen1, hOpen2, hRead, hTaken, by rw [hTaken]; decide⟩

end Rayos
