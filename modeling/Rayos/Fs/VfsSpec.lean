import Rayos.Fs.Vfs

/-!
# What the calls of the virtual file system do

One statement for each call, about every run of it that returns: `OpenOutcome`, `CloseOutcome` and
`AccessOutcome` list the ways in which it can end, with the lists afterwards.  The proofs about whole
runs only look at these.
-/

namespace Rayos

open Program CString

namespace Vfs

variable {σ : Type} {s s' : Vfs σ} {types : Nat → FileSystemOperations σ}

/-! ## Steps that leave the lists alone -/

/-- The mounts and the files are as before. -/
structure Steady (s s' : Vfs σ) : Prop where
  mounts : s'.mountList = s.mountList
  files : s'.fileList = s.fileList
  fds : s'.fdCount = s.fdCount
  memory : s'.heap.memory = s.heap.memory
  kzallocs : s.heap.kzallocs ≤ s'.heap.kzallocs

/-- Only the heap and the file systems may have been used. -/
structure Quiet (s s' : Vfs σ) : Prop extends Steady s s' where
  dentries : s'.dentryList = s.dentryList

theorem Steady.trans {t : Vfs σ} (h : Steady s t) (h' : Steady t s') : Steady s s' :=
  ⟨h'.mounts.trans h.mounts, h'.files.trans h.files, h'.fds.trans h.fds, h'.memory.trans h.memory,
    le_trans h.kzallocs h'.kzallocs⟩

theorem Quiet.trans {t : Vfs σ} (h : Quiet s t) (h' : Quiet t s') : Quiet s s' :=
  ⟨h.toSteady.trans h'.toSteady, h'.dentries.trans h.dentries⟩

theorem kzalloc_eq_ok {size : Nat} {ptr : Option Nat} (h : kzalloc size s = .ok ptr s') :
    Quiet s s' ∧ s'.calls = s.calls ∧ s'.fs = s.fs ∧
      (ptr = none ∧ s'.heap.mmSpinlock = true ∨
        ptr = some s.heap.kzallocs ∧ s'.heap.kzallocs = s.heap.kzallocs + 1) := by
  unfold kzalloc at h
  cases hRun : s.heap.kzalloc size with
  | error e =>
      rw [hRun] at h
      cases h
  | ok r =>
      obtain ⟨ptr', heap⟩ := r
      rw [hRun] at h
      cases h
      obtain ⟨-, hMemory, hCount, hPtr⟩ := KernelHeap.kzalloc_eq_ok hRun
      refine ⟨⟨⟨rfl, rfl, rfl, hMemory, ?_⟩, rfl⟩, rfl, rfl, ?_⟩
      · show s.heap.kzallocs ≤ heap.kzallocs
        omega
      · rcases hPtr with ⟨rfl, hLock⟩ | ⟨rfl, -⟩
        · exact Or.inl ⟨rfl, hLock⟩
        · exact Or.inr ⟨rfl, hCount⟩

theorem kfree_eq_ok {u : Unit} (h : kfree s = .ok u s') :
    s' = s ∧ s.heap.mmSpinlock = false := by
  unfold kfree at h
  cases hRun : s.heap.kfree with
  | error e =>
      rw [hRun] at h
      cases h
  | ok heap =>
      rw [hRun] at h
      cases h
      obtain ⟨rfl, hLock⟩ := KernelHeap.kfree_eq_ok hRun
      exact ⟨rfl, hLock⟩

theorem storeBlock_eq_ok {ptr : Option Nat} {size len : Nat} {u : Unit}
    (h : storeBlock ptr size len s = .ok u s') :
    s' = s ∧ ptr ≠ none ∧ len ≤ KernelHeap.blockBytes size := by
  cases ptr with
  | none => cases h
  | some a =>
      simp only [storeBlock, KernelHeap.storeBlock] at h
      split at h
      · rename_i hEq
        split at hEq
        · rename_i hLe
          cases h
          exact ⟨rfl, by simp, hLe⟩
        · cases hEq
      · cases h

theorem kzalloc_zero {ptr : Option Nat} (h : kzalloc 0 s = .ok ptr s') : ptr = none := by
  unfold kzalloc KernelHeap.kzalloc at h
  by_cases hLock : s.heap.mmSpinlock
  · simp [hLock] at h
  · simp only [hLock, Bool.false_eq_true, if_false, ne_eq, not_true_eq_false, false_and] at h
    cases h
    rfl

theorem mountGetByName_eq_ok {path : Str} {r : Option Mount}
    (h : mountGetByName path s = .ok r s') :
    Quiet s s' ∧ s'.calls = s.calls ∧ s'.fs = s.fs ∧
      r = mountGet s.mountList path := by
  simp only [mountGetByName, bind_eq_ok] at h
  obtain ⟨ptr, s1, hAlloc, _, s2, hStore, _, s3, hGet, _, s4, hFree, h⟩ := h
  obtain ⟨hQuiet, hCalls, hFs, -⟩ := kzalloc_eq_ok hAlloc
  obtain ⟨rfl, -⟩ := storeBlock_eq_ok hStore
  cases hGet
  obtain ⟨rfl, -⟩ := kfree_eq_ok hFree
  cases h
  exact ⟨hQuiet, hCalls, hFs, by rw [hQuiet.mounts]⟩

/-- The buffer of a lookup that returns had room for the path. -/
def PathFits (path : Str) : Prop :=
  path.length ≠ 0 ∧ path.length + 1 ≤ KernelHeap.blockBytes path.length

theorem pathFits_of_mountGetByName {path : Str} {r : Option Mount}
    (h : mountGetByName path s = .ok r s') : PathFits path := by
  simp only [mountGetByName, bind_eq_ok] at h
  obtain ⟨ptr, s1, hAlloc, _, s2, hStore, -⟩ := h
  obtain ⟨-, hSome, hLe⟩ := storeBlock_eq_ok hStore
  refine ⟨fun hZero => hSome ?_, hLe⟩
  rw [hZero] at hAlloc
  exact kzalloc_zero hAlloc

/-- With memory, the lock free and room for the path, the lookup returns. -/
theorem mountGetByName_ok {path : Str} (hFits : PathFits path)
    (hLock : s.heap.mmSpinlock = false) (hMemory : s.heap.memory s.heap.kzallocs = true) :
    mountGetByName path s = .ok (mountGet s.mountList path)
      { s with heap := { s.heap with kzallocs := s.heap.kzallocs + 1 } } := by
  have hAlloc : kzalloc path.length s = .ok (some s.heap.kzallocs)
      { s with heap := { s.heap with kzallocs := s.heap.kzallocs + 1 } } := by
    simp [kzalloc, KernelHeap.kzalloc, hLock, hMemory, hFits.1]
  have hStore (t : Vfs σ) : storeBlock (some s.heap.kzallocs) path.length (path.length + 1) t =
      .ok () t := by
    simp [storeBlock, KernelHeap.storeBlock, hFits.2]
  have hFree (t : Vfs σ) (ht : t.heap.mmSpinlock = false) : kfree t = .ok () t := by
    simp [kfree, KernelHeap.kfree, ht]
  unfold mountGetByName
  rw [bind_ok hAlloc, bind_ok (hStore _), bind_ok (get_apply _)]
  exact bind_ok (hFree { s with heap := { s.heap with kzallocs := s.heap.kzallocs + 1 } } hLock)

theorem dentryAt_eq_ok {addr : Nat} {d : Dentry} (h : dentryAt addr s = .ok d s') :
    s' = s ∧ s.dentryList.find? (fun d => d.addr == addr) = some d := by
  simp only [dentryAt, bind_eq_ok] at h
  obtain ⟨_, s1, hGet, h⟩ := h
  cases hGet
  cases hFind : s.dentryList.find? (fun d => d.addr == addr) with
  | none =>
      simp only [hFind] at h
      cases h
  | some e =>
      simp only [hFind] at h
      cases h
      exact ⟨rfl, rfl⟩

/-! ## `sys_open` -/

/-- The releases among the calls into file systems. -/
def releases (calls : List FsCall) : List Nat :=
  (calls.filter fun c => c.op = .fsRelease).map FsCall.dentry

/-- `val` is added to the reference count of the dentry at `addr`. -/
def changeRef (dentries : List Dentry) (addr : Nat) (val : Int) : List Dentry :=
  dentries.map fun d => if d.addr = addr then { d with dRef := d.dRef + val } else d

/-- What `vfs_open` has done when it returns `ret` and the dentry at `addr`. -/
inductive OpenOutcome (types : Nat → FileSystemOperations σ) (path : Str) (mode : BitVec 32)
    (s s' : Vfs σ) : Int → Nat → Prop where
  /-- It has failed; `lookup` and `open` of the mount's type may have been called. -/
  | failed {ret : Int} (new : List FsCall) (hRet : ret < 0) (hQuiet : Quiet s s')
      (hCalls : s'.calls = s.calls ++ new)
      (hNew : ∀ c ∈ new, (c.op = .fsLookup ∨ c.op = .fsOpen) ∧ s.heap.kzallocs ≤ c.dentry ∧
        c.dentry < s'.heap.kzallocs ∧
        ∃ m, mountGet s.mountList path = some m ∧ c.fstype = m.mntFstype) :
      OpenOutcome types path mode s s' ret 0
  /-- The path has a dentry, which has one reference more. -/
  | shared (d : Dentry) (m : Mount) (hMount : mountGet s.mountList path = some m)
      (hFind : s.dentryList.find? (fun d => d.pathname == path) = some d)
      (hDentries : s'.dentryList = changeRef s.dentryList d.addr 1)
      (hSteady : Steady s s') (hCalls : s'.calls = s.calls)
      (hFs : s'.fs = s.fs) (hLock : s'.heap.mmSpinlock = false) :
      OpenOutcome types path mode s s' 0 d.addr
  /-- The path has a new dentry with one reference. -/
  | created (addr privateData : Nat) (m : Mount) (hMount : mountGet s.mountList path = some m)
      (hFind : s.dentryList.find? (fun d => d.pathname == path) = none)
      (hAddr : s.heap.kzallocs ≤ addr) (hAddr' : addr < s'.heap.kzallocs)
      (hDentries : s'.dentryList = s.dentryList ++ [⟨addr, path, m, 1, privateData⟩])
      (hSteady : Steady s s')
      (hCalls : s'.calls =
        s.calls ++ [⟨.fsLookup, m.mntFstype, addr⟩, ⟨.fsOpen, m.mntFstype, addr⟩])
      (hFs : ∃ lookup, (types m.mntFstype).fsLookup = some lookup ∧
        (lookup path s.fs).1 = some privateData ∧
        0 ≤ ((types m.mntFstype).fsOpen privateData mode (lookup path s.fs).2).1 ∧
        s'.fs = ((types m.mntFstype).fsOpen privateData mode (lookup path s.fs).2).2) :
      OpenOutcome types path mode s s' 0 addr

/-- What a quiet beginning adds to. -/
theorem OpenOutcome.of_quiet {path : Str} {mode : BitVec 32} {t : Vfs σ} {ret : Int} {addr : Nat}
    (h : OpenOutcome types path mode t s' ret addr) (hQuiet : Quiet s t) (hCalls : t.calls = s.calls)
    (hFs : t.fs = s.fs) : OpenOutcome types path mode s s' ret addr := by
  cases h with
  | failed new hRet hQuiet' hCalls' hNew =>
      refine .failed new hRet (hQuiet.trans hQuiet') (by rw [hCalls', hCalls]) fun c hc => ?_
      obtain ⟨hOp, hAddr, hAddr', m, hMount, hType⟩ := hNew c hc
      exact ⟨hOp, le_trans hQuiet.kzallocs hAddr, hAddr', m, by rw [← hQuiet.mounts]; exact hMount,
        hType⟩
  | shared d m hMount hFind hDentries hSteady hCalls' hFs' hLock =>
      exact .shared d m (by rw [← hQuiet.mounts]; exact hMount)
        (by rw [← hQuiet.dentries]; exact hFind) (by rw [hDentries, hQuiet.dentries])
        (hQuiet.toSteady.trans hSteady) (hCalls'.trans hCalls) (hFs'.trans hFs) hLock
  | created addr privateData m hMount hFind hAddr hAddr' hDentries hSteady hCalls' hFs' =>
      exact .created addr privateData m (by rw [← hQuiet.mounts]; exact hMount)
        (by rw [← hQuiet.dentries]; exact hFind) (le_trans hQuiet.kzallocs hAddr) hAddr'
        (by rw [hDentries, hQuiet.dentries]) (hQuiet.toSteady.trans hSteady)
        (by rw [hCalls', hCalls]) (by rw [← hFs]; exact hFs')

/-- A negative result means that the lists are as before. -/
theorem OpenOutcome.of_neg {path : Str} {mode : BitVec 32} {ret : Int} {addr : Nat}
    (h : OpenOutcome types path mode s s' ret addr) (hNeg : ret < 0) :
    ∃ new, Quiet s s' ∧ s'.calls = s.calls ++ new ∧
      ∀ c ∈ new, (c.op = .fsLookup ∨ c.op = .fsOpen) ∧ s.heap.kzallocs ≤ c.dentry ∧
        c.dentry < s'.heap.kzallocs ∧
        ∃ m, mountGet s.mountList path = some m ∧ c.fstype = m.mntFstype := by
  cases h with
  | failed new hRet hQuiet hCalls hNew => exact ⟨new, hQuiet, hCalls, hNew⟩
  | shared => exact absurd hNeg (by decide)
  | created => exact absurd hNeg (by decide)

theorem vfsOpenNew_outcome {m : Mount} {path : Str} {mode : BitVec 32} {ret : Int} {addr : Nat}
    (hMount : mountGet s.mountList path = some m)
    (hFind : s.dentryList.find? (fun d => d.pathname == path) = none)
    (h : vfsOpenNew types m path mode s = .ok (ret, addr) s') :
    OpenOutcome types path mode s s' ret addr := by
  simp only [vfsOpenNew, bind_eq_ok] at h
  obtain ⟨ptr, s1, hAlloc, h⟩ := h
  obtain ⟨hQuiet1, hCalls1, hFs1, hPtr⟩ := kzalloc_eq_ok hAlloc
  rcases hPtr with ⟨rfl, -⟩ | ⟨rfl, hNext⟩
  · cases h
    exact .failed [] (by decide) hQuiet1 (by simp [hCalls1]) (by simp)
  simp only at h
  cases hLookup : (types m.mntFstype).fsLookup with
  | none =>
      simp only [hLookup, bind_eq_ok] at h
      obtain ⟨_, s2, hFree, h⟩ := h
      obtain ⟨rfl, -⟩ := kfree_eq_ok hFree
      cases h
      exact .failed [] (by decide) hQuiet1 (by simp [hCalls1]) (by simp)
  | some lookup =>
      simp only [hLookup, bind_eq_ok] at h
      obtain ⟨found, s2, hCall, h⟩ := h
      cases hCall
      cases hFound : (lookup path s1.fs).1 with
      | none =>
          simp only [hFound, bind_eq_ok] at h
          obtain ⟨_, s3, hFree, h⟩ := h
          obtain ⟨rfl, -⟩ := kfree_eq_ok hFree
          cases h
          refine .failed [⟨.fsLookup, m.mntFstype, s.heap.kzallocs⟩] (by decide) ?_ (by simp [hCalls1]) ?_
          · exact hQuiet1.trans ⟨⟨rfl, rfl, rfl, rfl, le_refl _⟩, rfl⟩
          · simp [hMount, hNext]
      | some privateData =>
          simp only [hFound, bind_eq_ok] at h
          obtain ⟨ret', s3, hCall, h⟩ := h
          cases hCall
          split at h
          · rename_i hRet
            simp only [bind_eq_ok] at h
            obtain ⟨_, s4, hFree, _, s5, hFree', h⟩ := h
            obtain ⟨rfl, -⟩ := kfree_eq_ok hFree
            obtain ⟨rfl, -⟩ := kfree_eq_ok hFree'
            cases h
            refine .failed [⟨.fsLookup, m.mntFstype, s.heap.kzallocs⟩, ⟨.fsOpen, m.mntFstype, s.heap.kzallocs⟩]
              hRet ?_ (by simp [hCalls1]) ?_
            · exact hQuiet1.trans ⟨⟨rfl, rfl, rfl, rfl, le_refl _⟩, rfl⟩
            · simp [hMount, hNext]
          · rename_i hRet
            simp only [bind_eq_ok] at h
            obtain ⟨_, s4, hModify, h⟩ := h
            cases hModify
            cases h
            refine .created s.heap.kzallocs privateData m hMount hFind (le_refl _) ?_ ?_ ?_ ?_
              ⟨lookup, hLookup, by rw [← hFs1]; exact hFound, ?_, by rw [← hFs1]⟩
            · show s.heap.kzallocs < s1.heap.kzallocs
              omega
            · show s1.dentryList ++ _ = _
              rw [hQuiet1.dentries]
            · exact hQuiet1.toSteady.trans ⟨rfl, rfl, rfl, rfl, le_refl _⟩
            · simp [hCalls1]
            · rw [← hFs1]
              exact not_lt.mp hRet

/-- The mount is found before anything else. -/
theorem vfsOpen_outcome {path : Str} {mode : BitVec 32} {ret : Int} {addr : Nat}
    (h : vfsOpen types path mode s = .ok (ret, addr) s') :
    OpenOutcome types path mode s s' ret addr := by
  simp only [vfsOpen, bind_eq_ok] at h
  obtain ⟨r, s1, hGet, h⟩ := h
  obtain ⟨hQuiet1, hCalls1, hFs1, rfl⟩ := mountGetByName_eq_ok hGet
  cases hMount : mountGet s.mountList path with
  | none =>
      simp only [hMount] at h
      cases h
      exact .failed [] (by decide) hQuiet1 (by simp [hCalls1]) (by simp)
  | some m =>
      simp only [hMount, bind_eq_ok] at h
      obtain ⟨ptr, s2, hAlloc, h⟩ := h
      obtain ⟨hQuiet2, hCalls2, hFs2, hPtr⟩ := kzalloc_eq_ok hAlloc
      have hQuiet := hQuiet1.trans hQuiet2
      rcases hPtr with ⟨rfl, hLock⟩ | ⟨rfl, -⟩
      · -- no memory for the path: the lock is held, so that `kfree` spins
        simp only [bind_eq_ok] at h
        obtain ⟨_, s3, hFree, -⟩ := h
        have := (kfree_eq_ok hFree).2
        rw [hLock] at this
        cases this
      simp only [bind_eq_ok] at h
      obtain ⟨_, s3, hState, h⟩ := h
      cases hState
      have hFindEq : s2.dentryList.find? (fun d => d.pathname == path) =
          s.dentryList.find? (fun d => d.pathname == path) := by rw [hQuiet.dentries]
      cases hFind : s.dentryList.find? (fun d => d.pathname == path) with
      | some d =>
          simp only [hFindEq, hFind, bind_eq_ok] at h
          obtain ⟨_, s3, hFree, _, s4, hRef, h⟩ := h
          obtain ⟨rfl, hLock⟩ := kfree_eq_ok hFree
          cases hRef
          cases h
          refine .shared d m hMount hFind ?_ (hQuiet.toSteady.trans ⟨rfl, rfl, rfl, rfl, le_refl _⟩)
            (hCalls2.trans hCalls1) (hFs2.trans hFs1) hLock
          show changeRef s3.dentryList d.addr 1 = _
          rw [hQuiet.dentries]
      | none =>
          simp only [hFindEq, hFind] at h
          exact (vfsOpenNew_outcome (by rw [hQuiet.mounts]; exact hMount) (hFindEq.trans hFind)
            h).of_quiet hQuiet (hCalls2.trans hCalls1) (hFs2.trans hFs1)

/-- `sys_open` has failed, or it has put a new file at the end of `file_list`. -/
theorem sysOpen_outcome {path : Str} {mode : BitVec 32} {r : Int}
    (h : sysOpen types path mode s = .ok r s') :
    r < 0 ∧ OpenOutcome types path mode s s' r 0 ∨
      ∃ t filp addr, OpenOutcome types path mode s t 0 addr ∧
        s.heap.kzallocs ≤ filp ∧ filp < t.heap.kzallocs ∧
        s' = { t with
          fdCount := s.fdCount + 1#32
          fileList := s.fileList ++ [⟨filp, s.fdCount, addr⟩] } ∧ r = s.fdCount.toInt := by
  simp only [sysOpen, bind_eq_ok] at h
  obtain ⟨ptr, s1, hAlloc, h⟩ := h
  obtain ⟨hQuiet1, hCalls1, hFs1, hPtr⟩ := kzalloc_eq_ok hAlloc
  rcases hPtr with ⟨rfl, -⟩ | ⟨rfl, hNext⟩
  · cases h
    exact Or.inl ⟨by decide, .failed [] (by decide) hQuiet1 (by simp [hCalls1]) (by simp)⟩
  simp only [bind_eq_ok] at h
  obtain ⟨⟨ret, addr⟩, t, hOpen, h⟩ := h
  have hOutcome := (vfsOpen_outcome hOpen).of_quiet hQuiet1 hCalls1 hFs1
  simp only at h
  split at h
  · rename_i hRet
    simp only [bind_eq_ok] at h
    obtain ⟨_, s3, hFree, h⟩ := h
    obtain ⟨rfl, -⟩ := kfree_eq_ok hFree
    cases h
    refine Or.inl ⟨hRet, ?_⟩
    cases hOutcome with
    | failed new hRet' hQuiet hCalls hNew => exact .failed new hRet' hQuiet hCalls hNew
    | shared => omega
    | created => omega
  · rename_i hRet
    simp only [bind_eq_ok] at h
    obtain ⟨_, s3, hState, _, s4, hSet, h⟩ := h
    cases hState
    cases hSet
    cases h
    have hSteady : Steady s1 t := by
      cases vfsOpen_outcome hOpen with
      | failed new hRet' hQuiet hCalls hNew => exact hQuiet.toSteady
      | shared d m hMount hFind hDentries hSteady hCalls hFs hLock => exact hSteady
      | created addr privateData m hMount hFind hAddr hAddr' hDentries hSteady hCalls hFs =>
          exact hSteady
    have hFds : t.fdCount = s.fdCount := hSteady.fds.trans hQuiet1.fds
    have hFiles : t.fileList = s.fileList := hSteady.files.trans hQuiet1.files
    obtain rfl : ret = 0 := by
      cases hOutcome with
      | failed new hRet' => exact absurd hRet' hRet
      | shared => rfl
      | created => rfl
    refine Or.inr ⟨t, s.heap.kzallocs, addr, hOutcome, le_refl _, ?_, by rw [← hFds, ← hFiles], by
      rw [hFds]⟩
    have := hSteady.kzallocs
    omega

/-! ## `sys_close` -/

/-- What `vfs_close` has done with the dentry `d` of the file when it returns `ret`. -/
inductive CloseOutcome (d : Dentry) (s s' : Vfs σ) : Int → Prop where
  /-- The path has no mount. -/
  | unmounted (hMount : mountGet s.mountList d.pathname = none) (hQuiet : Quiet s s')
      (hCalls : s'.calls = s.calls) : CloseOutcome d s s' (-enodev)
  /-- Other references are left. -/
  | dropped (m : Mount) (hMount : mountGet s.mountList d.pathname = some m) (hRef : d.dRef + -1 ≠ 0)
      (hDentries : s'.dentryList = changeRef s.dentryList d.addr (-1)) (hSteady : Steady s s')
      (hCalls : s'.calls = s.calls) : CloseOutcome d s s' 0
  /-- It was the last reference: the dentry is released and removed. -/
  | released (m : Mount) (hMount : mountGet s.mountList d.pathname = some m)
      (hRef : d.dRef + -1 = 0)
      (hDentries : s'.dentryList =
        (changeRef s.dentryList d.addr (-1)).eraseP fun e => e.addr == d.addr)
      (hSteady : Steady s s') (hCalls : s'.calls = s.calls ++ [⟨.fsRelease, m.mntFstype, d.addr⟩]) :
      CloseOutcome d s s' 0

theorem find_changeRef {dentries : List Dentry} {addr : Nat} {d : Dentry} (val : Int)
    (hFind : dentries.find? (fun e => e.addr == addr) = some d) :
    (changeRef dentries addr val).find? (fun e => e.addr == addr) =
      some { d with dRef := d.dRef + val } := by
  have hAddr : d.addr = addr := by simpa using List.find?_some hFind
  have hPred : ((fun e : Dentry => e.addr == addr) ∘ fun e : Dentry =>
      if e.addr = addr then { e with dRef := e.dRef + val } else e) = fun e => e.addr == addr := by
    funext e
    by_cases he : e.addr = addr <;> simp [he]
  rw [changeRef, List.find?_map, hPred, hFind, Option.map_some, if_pos hAddr]

theorem vfsClose_outcome {filp : File} {ret : Int} (h : vfsClose types filp s = .ok ret s') :
    ∃ d, s.dentryList.find? (fun d => d.addr == filp.dentry) = some d ∧
      CloseOutcome d s s' ret := by
  simp only [vfsClose, bind_eq_ok] at h
  obtain ⟨d, s1, hAt, r, s2, hGet, h⟩ := h
  obtain ⟨rfl, hFind⟩ := dentryAt_eq_ok hAt
  obtain ⟨hQuiet, hCalls, hFs, rfl⟩ := mountGetByName_eq_ok hGet
  have hAddr : d.addr = filp.dentry := by simpa using List.find?_some hFind
  refine ⟨d, hFind, ?_⟩
  cases hMount : mountGet s1.mountList d.pathname with
  | none =>
      simp only [hMount] at h
      cases h
      exact .unmounted hMount hQuiet hCalls
  | some m =>
      simp only [hMount, bind_eq_ok] at h
      obtain ⟨_, s3, hState, h⟩ := h
      cases hState
      -- the dentry itself is on the list
      obtain ⟨pos, hPos⟩ : ∃ pos, s2.dentryList.find? (fun e => e.pathname == d.pathname) = some pos := by
        rw [hQuiet.dentries]
        refine Option.isSome_iff_exists.mp (List.find?_isSome.mpr ⟨d, List.mem_of_find?_eq_some hFind, ?_⟩)
        simp
      simp only [hPos, bind_eq_ok] at h
      obtain ⟨_, s4, hRef, left, s5, hLeftRun, h⟩ := h
      cases hRef
      obtain ⟨rfl, hLeft⟩ := dentryAt_eq_ok hLeftRun
      have hDrop := find_changeRef (-1) hFind
      rw [← hAddr] at hDrop
      change (changeRef s2.dentryList d.addr (-1)).find? _ = _ at hLeft
      rw [hQuiet.dentries, ← hAddr, hDrop] at hLeft
      cases hLeft
      simp only at h
      split at h
      · rename_i hZero
        simp only [bind_eq_ok] at h
        obtain ⟨_, s6, hCall, _, s7, hErase, _, s8, hFree, _, s9, hFree', h⟩ := h
        cases hCall
        cases hErase
        obtain ⟨rfl, -⟩ := kfree_eq_ok hFree
        obtain ⟨rfl, -⟩ := kfree_eq_ok hFree'
        cases h
        refine .released m hMount hZero ?_ (hQuiet.toSteady.trans ⟨rfl, rfl, rfl, rfl, le_refl _⟩)
          (by simp [hCalls])
        show (changeRef s2.dentryList d.addr (-1)).eraseP _ = _
        rw [hQuiet.dentries]
      · rename_i hNe
        cases h
        refine .dropped m hMount hNe ?_ (hQuiet.toSteady.trans ⟨rfl, rfl, rfl, rfl, le_refl _⟩) hCalls
        show changeRef s2.dentryList d.addr (-1) = _
        rw [hQuiet.dentries]

/-- `sys_close` of an unknown descriptor does nothing; otherwise `vfs_close` decides. -/
theorem sysClose_outcome {fd : BitVec 32} {r : Int} (h : sysClose types fd s = .ok r s') :
    fileOf s.fileList fd = none ∧ s' = s ∧ r = -ebadf ∨
      ∃ filp d t ret, fileOf s.fileList fd = some filp ∧
        s.dentryList.find? (fun d => d.addr == filp.dentry) = some d ∧
        CloseOutcome d s t ret ∧
        (ret < 0 ∧ s' = t ∧ r = ret ∨
          ret = 0 ∧ r = 0 ∧
            s' = { t with fileList := s.fileList.eraseP fun f => f.addr == filp.addr }) := by
  simp only [sysClose, bind_eq_ok] at h
  obtain ⟨_, s1, hState, h⟩ := h
  cases hState
  cases hFile : fileOf s.fileList fd with
  | none =>
      simp only [hFile] at h
      cases h
      exact Or.inl ⟨rfl, rfl, rfl⟩
  | some filp =>
      simp only [hFile, bind_eq_ok] at h
      obtain ⟨ret, t, hClose, h⟩ := h
      obtain ⟨d, hFind, hOutcome⟩ := vfsClose_outcome hClose
      refine Or.inr ⟨filp, d, t, ret, rfl, hFind, hOutcome, ?_⟩
      split at h
      · rename_i hNeg
        cases h
        exact Or.inl ⟨hNeg, rfl, rfl⟩
      · rename_i hNonneg
        simp only [bind_eq_ok] at h
        obtain ⟨_, s2, hErase, _, s3, hFree, h⟩ := h
        cases hErase
        obtain ⟨rfl, -⟩ := kfree_eq_ok hFree
        cases h
        cases hOutcome with
        | unmounted => exact absurd (by decide) hNonneg
        | dropped m hMount hRef hDentries hSteady =>
            exact Or.inr ⟨rfl, rfl, by simp only [hSteady.files]⟩
        | released m hMount hRef hDentries hSteady =>
            exact Or.inr ⟨rfl, rfl, by simp only [hSteady.files]⟩

/-! ## `sys_read` and `sys_write` -/

/-- What `vfs_read` or `vfs_write` has done with the dentry `d`; `has` says which types implement the
operation `op`. -/
inductive AccessOutcome (op : FsOp) (has : Nat → Prop) (d : Dentry) (s s' : Vfs σ) : Prop where
  /-- The path has no mount, or its type does not implement the operation. -/
  | refused (hMount : ∀ m, mountGet s.mountList d.pathname = some m → ¬ has m.mntFstype)
      (hQuiet : Quiet s s') (hCalls : s'.calls = s.calls) : AccessOutcome op has d s s'
  /-- The operation of the mount's type has been called. -/
  | called (m : Mount) (hMount : mountGet s.mountList d.pathname = some m) (hHas : has m.mntFstype)
      (hQuiet : Quiet s s') (hCalls : s'.calls = s.calls ++ [⟨op, m.mntFstype, d.addr⟩]) :
      AccessOutcome op has d s s'

theorem callFs_eq_ok {α : Type} {call : FsCall} {f : σ → α × σ} {a : α}
    (h : callFs call f s = .ok a s') : Quiet s s' ∧ s'.calls = s.calls ++ [call] := by
  cases h
  exact ⟨⟨⟨rfl, rfl, rfl, rfl, le_refl _⟩, rfl⟩, rfl⟩

theorem vfsRead_outcome {filp : File} {len : Nat} {r : Int × List (BitVec 8)}
    (h : vfsRead types filp len s = .ok r s') :
    ∃ d, s.dentryList.find? (fun d => d.addr == filp.dentry) = some d ∧
      AccessOutcome .fsRead (fun type => (types type).fsRead.isSome) d s s' := by
  simp only [vfsRead, bind_eq_ok] at h
  obtain ⟨d, s1, hAt, r', s2, hGet, h⟩ := h
  obtain ⟨rfl, hFind⟩ := dentryAt_eq_ok hAt
  obtain ⟨hQuiet, hCalls, -, rfl⟩ := mountGetByName_eq_ok hGet
  refine ⟨d, hFind, ?_⟩
  cases hMount : mountGet s1.mountList d.pathname with
  | none =>
      simp only [hMount] at h
      cases h
      exact .refused (by simp [hMount]) hQuiet hCalls
  | some m =>
      simp only [hMount] at h
      cases hRead : (types m.mntFstype).fsRead with
      | none =>
          simp only [hRead] at h
          cases h
          refine .refused (fun m' hm' => ?_) hQuiet hCalls
          cases hMount.symm.trans hm'
          simp [hRead]
      | some read =>
          simp only [hRead, bind_eq_ok] at h
          obtain ⟨_, s3, hCall, h⟩ := h
          cases h
          obtain ⟨hQuiet', hCalls'⟩ := callFs_eq_ok hCall
          exact .called m hMount (by simp [hRead]) (hQuiet.trans hQuiet') (by rw [hCalls', hCalls])

theorem vfsWrite_outcome {filp : File} {buf : List (BitVec 8)} {r : Int}
    (h : vfsWrite types filp buf s = .ok r s') :
    ∃ d, s.dentryList.find? (fun d => d.addr == filp.dentry) = some d ∧
      AccessOutcome .fsWrite (fun type => (types type).fsWrite.isSome) d s s' := by
  simp only [vfsWrite, bind_eq_ok] at h
  obtain ⟨d, s1, hAt, r', s2, hGet, h⟩ := h
  obtain ⟨rfl, hFind⟩ := dentryAt_eq_ok hAt
  obtain ⟨hQuiet, hCalls, -, rfl⟩ := mountGetByName_eq_ok hGet
  refine ⟨d, hFind, ?_⟩
  cases hMount : mountGet s1.mountList d.pathname with
  | none =>
      simp only [hMount] at h
      cases h
      exact .refused (by simp [hMount]) hQuiet hCalls
  | some m =>
      simp only [hMount] at h
      cases hWrite : (types m.mntFstype).fsWrite with
      | none =>
          simp only [hWrite] at h
          cases h
          refine .refused (fun m' hm' => ?_) hQuiet hCalls
          cases hMount.symm.trans hm'
          simp [hWrite]
      | some write =>
          simp only [hWrite, bind_eq_ok] at h
          obtain ⟨_, s3, hCall, h⟩ := h
          cases h
          obtain ⟨hQuiet', hCalls'⟩ := callFs_eq_ok hCall
          exact .called m hMount (by simp [hWrite]) (hQuiet.trans hQuiet') (by rw [hCalls', hCalls])

/-- `sys_read` of an unknown descriptor does nothing; otherwise `vfs_read` decides. -/
theorem sysRead_outcome {fd : BitVec 32} {size : Nat} {r : Int × List (BitVec 8)}
    (h : sysRead types fd size s = .ok r s') :
    fileOf s.fileList fd = none ∧ s' = s ∨
      ∃ filp d, fileOf s.fileList fd = some filp ∧
        s.dentryList.find? (fun d => d.addr == filp.dentry) = some d ∧
        AccessOutcome .fsRead (fun type => (types type).fsRead.isSome) d s s' := by
  simp only [sysRead, bind_eq_ok] at h
  obtain ⟨_, s1, hState, h⟩ := h
  cases hState
  cases hFile : fileOf s.fileList fd with
  | none =>
      simp only [hFile] at h
      cases h
      exact Or.inl ⟨rfl, rfl⟩
  | some filp =>
      simp only [hFile] at h
      obtain ⟨d, hFind, hOutcome⟩ := vfsRead_outcome h
      exact Or.inr ⟨filp, d, rfl, hFind, hOutcome⟩

/-- The result of a `sys_read` that reaches a file system. -/
theorem sysRead_eq_ok {fd : BitVec 32} {size : Nat} {r : Int × List (BitVec 8)} {filp : File}
    {d : Dentry} {m : Mount} {read : Nat → Nat → σ → (Int × List (BitVec 8)) × σ}
    (hFile : fileOf s.fileList fd = some filp)
    (hFind : s.dentryList.find? (fun d => d.addr == filp.dentry) = some d)
    (hMount : mountGet s.mountList d.pathname = some m)
    (hRead : (types m.mntFstype).fsRead = some read) (h : sysRead types fd size s = .ok r s') :
    r.2 = (read d.privateData size s.fs).1.2 ∧ s'.fs = (read d.privateData size s.fs).2 ∧
      Quiet s s' := by
  simp only [sysRead, bind_eq_ok] at h
  obtain ⟨_, s1, hState, h⟩ := h
  cases hState
  simp only [hFile, vfsRead, bind_eq_ok] at h
  obtain ⟨d', s2, hAt, r', s3, hGet, h⟩ := h
  obtain ⟨rfl, hFind'⟩ := dentryAt_eq_ok hAt
  cases hFind.symm.trans hFind'
  obtain ⟨hQuiet, -, hFs, rfl⟩ := mountGetByName_eq_ok hGet
  simp only [hMount, hRead, bind_eq_ok] at h
  obtain ⟨_, s4, hCall, h⟩ := h
  cases h
  cases hCall
  rw [hFs]
  exact ⟨rfl, rfl, hQuiet.trans ⟨⟨rfl, rfl, rfl, rfl, le_refl _⟩, rfl⟩⟩

/-- `sys_write` of an unknown descriptor does nothing; otherwise `vfs_write` decides. -/
theorem sysWrite_outcome {fd : BitVec 32} {buf : List (BitVec 8)} {r : Int}
    (h : sysWrite types fd buf s = .ok r s') :
    fileOf s.fileList fd = none ∧ s' = s ∨
      ∃ filp d, fileOf s.fileList fd = some filp ∧
        s.dentryList.find? (fun d => d.addr == filp.dentry) = some d ∧
        AccessOutcome .fsWrite (fun type => (types type).fsWrite.isSome) d s s' := by
  simp only [sysWrite, bind_eq_ok] at h
  obtain ⟨_, s1, hState, h⟩ := h
  cases hState
  cases hFile : fileOf s.fileList fd with
  | none =>
      simp only [hFile] at h
      cases h
      exact Or.inl ⟨rfl, rfl⟩
  | some filp =>
      simp only [hFile] at h
      obtain ⟨d, hFind, hOutcome⟩ := vfsWrite_outcome h
      exact Or.inr ⟨filp, d, rfl, hFind, hOutcome⟩

/-! ## `mount_nodev` -/

/-- `mount_nodev` has failed, or there is one mount more at the end of the list. -/
theorem mountNodev_outcome {fstype : Nat} {path : Str} {r : Int}
    (h : mountNodev fstype path s = .ok r s') :
    r = -1 ∧ Quiet s s' ∧ s'.calls = s.calls ∨
      r = 0 ∧ ∃ t, Quiet s t ∧ t.calls = s.calls ∧
        s' = { t with mountList := s.mountList ++ [⟨trimSlashes path, fstype⟩] } := by
  simp only [mountNodev, bind_eq_ok] at h
  obtain ⟨ptr, s1, hAlloc, h⟩ := h
  obtain ⟨hQuiet1, hCalls1, -, hPtr⟩ := kzalloc_eq_ok hAlloc
  rcases hPtr with ⟨rfl, -⟩ | ⟨rfl, -⟩
  · cases h
    exact Or.inl ⟨rfl, hQuiet1, hCalls1⟩
  simp only [bind_eq_ok] at h
  obtain ⟨ptr', s2, hAlloc', _, s3, hStore, _, s4, hModify, h⟩ := h
  obtain ⟨hQuiet2, hCalls2, -, -⟩ := kzalloc_eq_ok hAlloc'
  obtain ⟨rfl, -⟩ := storeBlock_eq_ok hStore
  cases hModify
  cases h
  have hQuiet := hQuiet1.trans hQuiet2
  refine Or.inr ⟨rfl, s3, hQuiet, hCalls2.trans hCalls1, ?_⟩
  simp only [hQuiet.mounts]

end Vfs

end Rayos
