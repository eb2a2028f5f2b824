import Rayos.Fs.VfsSpec
import Rayos.Lib.KeyedList

/-!
# Runs of the virtual file system

The calls of `vfs.c` follow one another in any order.  `RefInv` is what every state of a run has: the
dentries on `dentry_list` have different paths, every file points to one of them, and `d_ref` counts
the files that point to it.  A dentry that is not on the list any more has been released once.
-/

namespace Rayos

open Program CString Vfs

variable {σ : Type} {types : Nat → FileSystemOperations σ} {s s' : Vfs σ}

/-- A call of the virtual file system. -/
inductive VfsCall where
  | mountNodev (fstype : Nat) (path : Str)
  | sysOpen (path : Str) (mode : BitVec 32)
  | sysRead (fd : BitVec 32) (size : Nat)
  | sysWrite (fd : BitVec 32) (buf : List (BitVec 8))
  | sysClose (fd : BitVec 32)

/-- The call, with the number it returns. -/
def vfsCall (types : Nat → FileSystemOperations σ) : VfsCall → VfsM σ Int
  | .mountNodev fstype path => mountNodev fstype path
  | .sysOpen path mode => sysOpen types path mode
  | .sysRead fd size => do
      let r ← sysRead types fd size
      pure r.1
  | .sysWrite fd buf => sysWrite types fd buf
  | .sysClose fd => sysClose types fd

/-- One call that `allowed` admits and that returns. -/
def VfsNext (types : Nat → FileSystemOperations σ) (allowed : Vfs σ → VfsCall → Prop)
    (s s' : Vfs σ) : Prop :=
  ∃ call r, allowed s call ∧ vfsCall types call s = .ok r s'

/-- Nothing has been opened yet. -/
structure VfsInit (s : Vfs σ) : Prop where
  dentries : s.dentryList = []
  files : s.fileList = []
  fds : s.fdCount = 0#32
  calls : s.calls = []

/-! ## Reference counts -/

/-- The number of files that point to the dentry at `addr`. -/
def users (files : List File) (addr : Nat) : Nat := files.countP fun f => f.dentry == addr

theorem users_append (files : List File) (f : File) (addr : Nat) :
    users (files ++ [f]) addr = users files addr + if f.dentry = addr then 1 else 0 := by
  simp only [users, List.countP_append, List.countP_singleton, beq_iff_eq]

theorem users_eraseP {files : List File} {f : File} (hNodup : (files.map File.addr).Nodup)
    (hf : f ∈ files) (addr : Nat) :
    users files addr =
      users (files.eraseP fun e => e.addr == f.addr) addr + if f.dentry = addr then 1 else 0 := by
  rw [users, (KeyedList.eraseP_key_perm hNodup hf).countP_eq, List.countP_cons]
  simp only [users, beq_iff_eq]

theorem users_pos {files : List File} {f : File} (hf : f ∈ files) : 0 < users files f.dentry :=
  List.countP_pos_iff.mpr ⟨f, hf, by simp⟩

/-- What holds in every state of a run. -/
structure RefInv (s : Vfs σ) : Prop where
  paths : (s.dentryList.map Dentry.pathname).Nodup
  addrs : (s.dentryList.map Dentry.addr).Nodup
  fileAddrs : (s.fileList.map File.addr).Nodup
  dentryLt : ∀ d ∈ s.dentryList, d.addr < s.heap.kzallocs
  fileLt : ∀ f ∈ s.fileList, f.addr < s.heap.kzallocs
  callLt : ∀ c ∈ s.calls, c.dentry < s.heap.kzallocs
  files : ∀ f ∈ s.fileList, ∃ d ∈ s.dentryList, d.addr = f.dentry
  refs : ∀ d ∈ s.dentryList, d.dRef = users s.fileList d.addr
  used : ∀ d ∈ s.dentryList, 1 ≤ d.dRef
  once : (releases s.calls).Nodup
  gone : ∀ d ∈ s.dentryList, d.addr ∉ releases s.calls

theorem refInv_init (h : VfsInit s) : RefInv s where
  paths := by simp [h.dentries]
  addrs := by simp [h.dentries]
  fileAddrs := by simp [h.files]
  dentryLt := by simp [h.dentries]
  fileLt := by simp [h.files]
  callLt := by simp [h.calls]
  files := by simp [h.files]
  refs := by simp [h.dentries]
  used := by simp [h.dentries]
  once := by simp [h.calls, releases]
  gone := by simp [h.dentries]

theorem releases_append (calls new : List FsCall) :
    releases (calls ++ new) = releases calls ++ releases new := by
  simp [releases]

theorem releases_eq_nil {new : List FsCall} (h : ∀ c ∈ new, c.op ≠ .fsRelease) :
    releases new = [] := by
  simpa [releases] using h

theorem mem_releases {calls : List FsCall} {addr : Nat} (h : addr ∈ releases calls) :
    ∃ c ∈ calls, c.dentry = addr := by
  obtain ⟨c, hc, rfl⟩ := List.mem_map.mp h
  exact ⟨c, (List.mem_filter.mp hc).1, rfl⟩

/-- A step that leaves the lists alone and releases nothing. -/
theorem RefInv.quiet (h : RefInv s) (hQuiet : Quiet s s') {new : List FsCall}
    (hCalls : s'.calls = s.calls ++ new)
    (hNew : ∀ c ∈ new, c.op ≠ .fsRelease ∧ c.dentry < s'.heap.kzallocs) : RefInv s' := by
  have hReleases : releases s'.calls = releases s.calls := by
    rw [hCalls, releases_append, releases_eq_nil fun c hc => (hNew c hc).1, List.append_nil]
  have hLe := hQuiet.kzallocs
  refine ⟨?_, ?_, ?_, ?_, ?_, ?_, ?_, ?_, ?_, ?_, ?_⟩
  · rw [hQuiet.dentries]; exact h.paths
  · rw [hQuiet.dentries]; exact h.addrs
  · rw [hQuiet.files]; exact h.fileAddrs
  · rw [hQuiet.dentries]; exact fun d hd => lt_of_lt_of_le (h.dentryLt d hd) hLe
  · rw [hQuiet.files]; exact fun f hf => lt_of_lt_of_le (h.fileLt f hf) hLe
  · intro c hc
    rw [hCalls] at hc
    rcases List.mem_append.mp hc with hc | hc
    · exact lt_of_lt_of_le (h.callLt c hc) hLe
    · exact (hNew c hc).2
  · rw [hQuiet.files, hQuiet.dentries]; exact h.files
  · rw [hQuiet.files, hQuiet.dentries]; exact h.refs
  · rw [hQuiet.dentries]; exact h.used
  · rw [hReleases]; exact h.once
  · rw [hReleases, hQuiet.dentries]; exact h.gone

/-! ### Changing a count -/

theorem changeRef_map {β : Type} (g : Dentry → β) (dentries : List Dentry) (addr : Nat) (val : Int)
    (hg : ∀ d n, g { d with dRef := n } = g d) :
    (changeRef dentries addr val).map g = dentries.map g := by
  rw [changeRef, List.map_map]
  refine List.map_congr_left fun d _ => ?_
  rw [Function.comp_apply]
  split
  · exact hg d _
  · rfl

/-- A dentry after the change is one from before, up to its count. -/
theorem mem_changeRef {dentries : List Dentry} {addr : Nat} {val : Int} {e : Dentry}
    (he : e ∈ changeRef dentries addr val) :
    ∃ d ∈ dentries, e = if d.addr = addr then { d with dRef := d.dRef + val } else d := by
  obtain ⟨d, hd, rfl⟩ := List.mem_map.mp he
  exact ⟨d, hd, rfl⟩

theorem exists_mem_changeRef {dentries : List Dentry} {d : Dentry} (hd : d ∈ dentries) (addr : Nat)
    (val : Int) : ∃ e ∈ changeRef dentries addr val, e.addr = d.addr := by
  refine ⟨_, List.mem_map.mpr ⟨d, hd, rfl⟩, ?_⟩
  by_cases hAddr : d.addr = addr <;> simp [hAddr]

/-- Without the dentry whose count has changed, the list is as before. -/
theorem mem_changeRef_eraseP {dentries : List Dentry} {d e : Dentry} {val : Int}
    (hNodup : (dentries.map Dentry.addr).Nodup) (hd : d ∈ dentries) :
    e ∈ (changeRef dentries d.addr val).eraseP (fun e => e.addr == d.addr) ↔
      e ∈ dentries ∧ e.addr ≠ d.addr := by
  have hNodup' : ((changeRef dentries d.addr val).map Dentry.addr).Nodup := by
    rw [changeRef_map _ _ _ _ fun _ _ => rfl]
    exact hNodup
  obtain ⟨d', hd', hAddr⟩ := exists_mem_changeRef hd d.addr val
  have hErase := KeyedList.mem_eraseP_key (y := e) hNodup' hd'
  rw [hAddr] at hErase
  rw [hErase]
  constructor
  · rintro ⟨he, hNe⟩
    obtain ⟨c, hc, rfl⟩ := mem_changeRef he
    by_cases hcAddr : c.addr = d.addr
    · simp [hcAddr] at hNe
    · rw [if_neg hcAddr]
      exact ⟨hc, hcAddr⟩
  · rintro ⟨he, hNe⟩
    exact ⟨List.mem_map.mpr ⟨e, he, if_neg hNe⟩, hNe⟩

/-- A step that changes the count of one dentry and nothing else of the list, and releases nothing. -/
theorem RefInv.recounted (h : RefInv s) {addr : Nat} {val : Int}
    (hDentries : s'.dentryList = changeRef s.dentryList addr val) (hCalls : s'.calls = s.calls)
    (hLe : s.heap.kzallocs ≤ s'.heap.kzallocs) (hFileAddrs : (s'.fileList.map File.addr).Nodup)
    (hFileLt : ∀ f ∈ s'.fileList, f.addr < s'.heap.kzallocs)
    (hFiles : ∀ f ∈ s'.fileList, ∃ d ∈ s.dentryList, d.addr = f.dentry)
    (hRefs : ∀ d ∈ s.dentryList, d.dRef + (if d.addr = addr then val else 0) = users s'.fileList d.addr)
    (hUsed : ∀ d ∈ s.dentryList, 1 ≤ d.dRef + if d.addr = addr then val else 0) : RefInv s' := by
  -- every dentry is an old one, up to its count
  have hOld : ∀ e ∈ s'.dentryList, ∃ c ∈ s.dentryList, c.addr = e.addr ∧
      e.dRef = c.dRef + if c.addr = addr then val else 0 := by
    intro e he
    rw [hDentries] at he
    obtain ⟨c, hc, rfl⟩ := mem_changeRef he
    refine ⟨c, hc, ?_⟩
    by_cases hAddr : c.addr = addr <;> simp [hAddr]
  refine ⟨?_, ?_, hFileAddrs, ?_, hFileLt, ?_, ?_, ?_, ?_, ?_, ?_⟩
  · rw [hDentries, changeRef_map _ _ _ _ fun _ _ => rfl]
    exact h.paths
  · rw [hDentries, changeRef_map _ _ _ _ fun _ _ => rfl]
    exact h.addrs
  · intro e he
    obtain ⟨c, hc, hAddr, -⟩ := hOld e he
    rw [← hAddr]
    exact lt_of_lt_of_le (h.dentryLt c hc) hLe
  · intro c hc
    rw [hCalls] at hc
    exact lt_of_lt_of_le (h.callLt c hc) hLe
  · intro f hf
    obtain ⟨c, hc, hAddr⟩ := hFiles f hf
    rw [hDentries, ← hAddr]
    exact exists_mem_changeRef hc _ _
  · intro e he
    obtain ⟨c, hc, hAddr, hRef⟩ := hOld e he
    rw [hRef, ← hAddr]
    exact hRefs c hc
  · intro e he
    obtain ⟨c, hc, -, hRef⟩ := hOld e he
    rw [hRef]
    exact hUsed c hc
  · rw [hCalls]
    exact h.once
  · intro e he
    obtain ⟨c, hc, hAddr, -⟩ := hOld e he
    rw [hCalls, ← hAddr]
    exact h.gone c hc

/-! ### One call -/

/-- The state after a successful `sys_open`. -/
def withFile (t : Vfs σ) (fdCount : BitVec 32) (files : List File) (f : File) : Vfs σ :=
  { t with fdCount := fdCount, fileList := files ++ [f] }

theorem refInv_open {path : Str} {mode : BitVec 32} {t : Vfs σ} {filp addr : Nat} (h : RefInv s)
    (hOpen : OpenOutcome types path mode s t 0 addr) (hFilp : s.heap.kzallocs ≤ filp)
    (hFilp' : filp < t.heap.kzallocs) (fd fdCount : BitVec 32) :
    RefInv (withFile t fdCount s.fileList ⟨filp, fd, addr⟩) := by
  have hFileAddrs : ((s.fileList ++ [(⟨filp, fd, addr⟩ : File)]).map File.addr).Nodup := by
    refine KeyedList.nodup_append h.fileAddrs fun f hf => ?_
    have := h.fileLt f hf
    show f.addr ≠ filp
    omega
  have hFileLt : ∀ f ∈ s.fileList ++ [(⟨filp, fd, addr⟩ : File)], f.addr < t.heap.kzallocs := by
    intro f hf
    rcases List.mem_append.mp hf with hf | hf
    · have := h.fileLt f hf
      omega
    · rw [List.mem_singleton.mp hf]
      exact hFilp'
  cases hOpen with
  | failed new hRet => exact absurd hRet (by decide)
  | shared d m hMount hFind hDentries hSteady hCalls hFs hLock =>
      have hd : d ∈ s.dentryList := List.mem_of_find?_eq_some hFind
      refine h.recounted hDentries hCalls hSteady.kzallocs hFileAddrs hFileLt ?_ ?_ ?_
      · intro f hf
        rcases List.mem_append.mp hf with hf | hf
        · exact h.files f hf
        · rw [List.mem_singleton.mp hf]
          exact ⟨d, hd, rfl⟩
      · -- the new file is one more user of `d`
        intro c hc
        show _ = ((users (s.fileList ++ [_]) c.addr : Nat) : Int)
        rw [users_append, h.refs c hc, Nat.cast_add, Nat.cast_ite]
        simp only [eq_comm (a := c.addr)]
        rfl
      · intro c hc
        have := h.used c hc
        split <;> omega
  | created addr privateData m hMount hFind hAddr hAddr' hDentries hSteady hCalls hFs =>
      have hPath : ∀ d ∈ s.dentryList, d.pathname ≠ path := by
        intro d hd
        simpa using List.find?_eq_none.mp hFind d hd
      have hFresh : ∀ d ∈ s.dentryList, d.addr ≠ addr := by
        intro d hd
        have := h.dentryLt d hd
        omega
      have hReleases : releases t.calls = releases s.calls := by
        rw [hCalls, releases_append]
        exact List.append_nil _
      have hNoUser : users s.fileList addr = 0 := by
        refine List.countP_eq_zero.mpr fun f hf => ?_
        obtain ⟨d, hd, hdAddr⟩ := h.files f hf
        have := hFresh d hd
        simp only [beq_iff_eq]
        omega
      refine ⟨?_, ?_, hFileAddrs, ?_, hFileLt, ?_, ?_, ?_, ?_, ?_, ?_⟩
      · show (t.dentryList.map _).Nodup
        rw [hDentries]
        exact KeyedList.nodup_append h.paths hPath
      · show (t.dentryList.map _).Nodup
        rw [hDentries]
        exact KeyedList.nodup_append h.addrs hFresh
      · intro e he
        change e ∈ t.dentryList at he
        rw [hDentries, List.mem_append, List.mem_singleton] at he
        rcases he with he | rfl
        · exact lt_of_lt_of_le (h.dentryLt e he) hSteady.kzallocs
        · exact hAddr'
      · intro c hc
        change c ∈ t.calls at hc
        rw [hCalls, List.mem_append] at hc
        rcases hc with hc | hc
        · exact lt_of_lt_of_le (h.callLt c hc) hSteady.kzallocs
        · show c.dentry < t.heap.kzallocs
          have hc' : c.dentry = addr := by
            simp only [List.mem_cons, List.not_mem_nil, or_false] at hc
            rcases hc with rfl | rfl <;> rfl
          omega
      · intro f hf
        show ∃ e ∈ t.dentryList, _
        rw [hDentries]
        rcases List.mem_append.mp hf with hf | hf
        · obtain ⟨c, hc, hcAddr⟩ := h.files f hf
          exact ⟨c, List.mem_append_left _ hc, hcAddr⟩
        · rw [List.mem_singleton.mp hf]
          exact ⟨_, List.mem_append_right _ (List.mem_singleton_self _), rfl⟩
      · intro e he
        change e ∈ t.dentryList at he
        show e.dRef = (users (s.fileList ++ [_]) e.addr : Nat)
        rw [users_append]
        rw [hDentries, List.mem_append, List.mem_singleton] at he
        rcases he with he | rfl
        · rw [h.refs e he, if_neg (Ne.symm (hFresh e he)), Nat.add_zero]
        · simp [hNoUser]
      · intro e he
        change e ∈ t.dentryList at he
        rw [hDentries, List.mem_append, List.mem_singleton] at he
        rcases he with he | rfl
        · exact h.used e he
        · exact le_refl _
      · show (releases t.calls).Nodup
        rw [hReleases]
        exact h.once
      · intro e he
        show e.addr ∉ releases t.calls
        change e ∈ t.dentryList at he
        rw [hReleases]
        rw [hDentries, List.mem_append, List.mem_singleton] at he
        rcases he with he | rfl
        · exact h.gone e he
        · intro hMem
          obtain ⟨c, hc, hcAddr⟩ := mem_releases hMem
          have := h.callLt c hc
          change c.dentry = addr at hcAddr
          omega

/-- The state after a successful `sys_close` of the file `f`. -/
def withoutFile (t : Vfs σ) (files : List File) (f : File) : Vfs σ :=
  { t with fileList := files.eraseP fun e => e.addr == f.addr }

theorem refInv_close {f : File} {d : Dentry} {t : Vfs σ} {ret : Int} (h : RefInv s)
    (hf : f ∈ s.fileList) (hd : d ∈ s.dentryList) (hAddr : d.addr = f.dentry)
    (hClose : CloseOutcome d s t ret) (hRet : ret = 0) : RefInv (withoutFile t s.fileList f) := by
  have hMem : ∀ e, e ∈ s.fileList.eraseP (fun e => e.addr == f.addr) ↔
      e ∈ s.fileList ∧ e.addr ≠ f.addr := fun e => KeyedList.mem_eraseP_key h.fileAddrs hf
  have hUsers := users_eraseP h.fileAddrs hf
  have hFileLt (hLe : s.heap.kzallocs ≤ t.heap.kzallocs) :
      ∀ e ∈ s.fileList.eraseP (fun e => e.addr == f.addr), e.addr < t.heap.kzallocs := fun e he =>
    lt_of_lt_of_le (h.fileLt e ((hMem e).mp he).1) hLe
  cases hClose with
  | unmounted => exact absurd hRet (by decide)
  | dropped m hMount hRef hDentries hSteady hCalls =>
      refine h.recounted hDentries hCalls hSteady.kzallocs (KeyedList.nodup_eraseP h.fileAddrs)
        (hFileLt hSteady.kzallocs) ?_ ?_ ?_
      · exact fun e he => h.files e ((hMem e).mp he).1
      · -- the file was one of the users of `d`
        intro c hc
        show _ = ((users (s.fileList.eraseP _) c.addr : Nat) : Int)
        have hOne := hUsers c.addr
        rw [← hAddr] at hOne
        rw [h.refs c hc]
        by_cases hEq : c.addr = d.addr
        · rw [if_pos hEq.symm] at hOne
          rw [if_pos hEq]
          omega
        · rw [if_neg (Ne.symm hEq)] at hOne
          rw [if_neg hEq]
          omega
      · intro c hc
        have hUsed := h.used c hc
        split
        · -- the count of `d` itself was not one
          rename_i hEq
          have hcd : c = d := KeyedList.eq_of_key h.addrs hc hd hEq
          rw [hcd] at hUsed ⊢
          omega
        · omega
  | released m hMount hRef hDentries hSteady hCalls =>
      have hOld : ∀ e, e ∈ t.dentryList ↔ e ∈ s.dentryList ∧ e.addr ≠ d.addr := by
        intro e
        rw [hDentries]
        exact mem_changeRef_eraseP h.addrs hd
      have hReleases : releases t.calls = releases s.calls ++ [d.addr] := by
        rw [hCalls, releases_append]
        rfl
      -- `f` was the only file that pointed to `d`
      have hOne : users s.fileList d.addr = 1 := by
        have := h.refs d hd
        omega
      have hNone : users (s.fileList.eraseP fun e => e.addr == f.addr) d.addr = 0 := by
        have := hUsers d.addr
        rw [if_pos hAddr.symm] at this
        omega
      refine ⟨?_, ?_, KeyedList.nodup_eraseP h.fileAddrs, ?_, hFileLt hSteady.kzallocs, ?_, ?_, ?_,
        ?_, ?_, ?_⟩
      · show (t.dentryList.map _).Nodup
        rw [hDentries]
        apply KeyedList.nodup_eraseP
        rw [changeRef_map _ _ _ _ fun _ _ => rfl]
        exact h.paths
      · show (t.dentryList.map _).Nodup
        rw [hDentries]
        apply KeyedList.nodup_eraseP
        rw [changeRef_map _ _ _ _ fun _ _ => rfl]
        exact h.addrs
      · intro e he
        exact lt_of_lt_of_le (h.dentryLt e ((hOld e).mp he).1) hSteady.kzallocs
      · intro c hc
        change c ∈ t.calls at hc
        rw [hCalls, List.mem_append, List.mem_singleton] at hc
        rcases hc with hc | rfl
        · exact lt_of_lt_of_le (h.callLt c hc) hSteady.kzallocs
        · exact lt_of_lt_of_le (h.dentryLt d hd) hSteady.kzallocs
      · intro e he
        obtain ⟨c, hc, hcAddr⟩ := h.files e ((hMem e).mp he).1
        refine ⟨c, (hOld c).mpr ⟨hc, fun hEq => ?_⟩, hcAddr⟩
        have hPos := users_pos he
        rw [← hcAddr, hEq] at hPos
        exact absurd hNone (Nat.ne_of_gt hPos)
      · intro e he
        obtain ⟨heOld, heNe⟩ := (hOld e).mp he
        show e.dRef = (users (s.fileList.eraseP _) e.addr : Nat)
        have := hUsers e.addr
        rw [if_neg (by rw [← hAddr]; exact Ne.symm heNe), Nat.add_zero] at this
        rw [h.refs e heOld, this]
      · exact fun e he => h.used e ((hOld e).mp he).1
      · show (releases t.calls).Nodup
        rw [hReleases, List.nodup_append]
        refine ⟨h.once, by simp, ?_⟩
        rintro a ha b hb rfl
        rw [List.mem_singleton.mp hb] at ha
        exact h.gone d hd ha
      · intro e he
        obtain ⟨heOld, heNe⟩ := (hOld e).mp he
        show e.addr ∉ releases t.calls
        rw [hReleases, List.mem_append, List.mem_singleton]
        rintro (hGone | hEq)
        · exact h.gone e heOld hGone
        · exact heNe hEq

/-! ### Every call -/

/-- What a call that returns `r` has done. -/
inductive VfsStep (types : Nat → FileSystemOperations σ) (s s' : Vfs σ) :
    VfsCall → Int → Prop where
  /-- The lists are as before; operations of file systems may have been called. -/
  | quiet {call : VfsCall} {r : Int} (new : List FsCall) (hQuiet : Quiet s s')
      (hCalls : s'.calls = s.calls ++ new)
      (hNew : ∀ c ∈ new, c.op ≠ .fsRelease ∧ c.dentry < s'.heap.kzallocs ∧
        (c.op = .fsLookup ∨ c.op = .fsOpen → s.heap.kzallocs ≤ c.dentry)) : VfsStep types s s' call r
  | mounted {fstype : Nat} {path : Str} (t : Vfs σ) (hQuiet : Quiet s t)
      (hCalls : t.calls = s.calls)
      (hEq : s' = { t with mountList := s.mountList ++ [⟨trimSlashes path, fstype⟩] }) :
      VfsStep types s s' (.mountNodev fstype path) 0
  | opened {path : Str} {mode : BitVec 32} (t : Vfs σ) (filp addr : Nat)
      (hOpen : OpenOutcome types path mode s t 0 addr) (hFilp : s.heap.kzallocs ≤ filp)
      (hFilp' : filp < t.heap.kzallocs)
      (hEq : s' = withFile t (s.fdCount + 1#32) s.fileList ⟨filp, s.fdCount, addr⟩) :
      VfsStep types s s' (.sysOpen path mode) s.fdCount.toInt
  | closed {fd : BitVec 32} {ret : Int} (t : Vfs σ) (f : File) (d : Dentry)
      (hFile : fileOf s.fileList fd = some f) (hd : d ∈ s.dentryList) (hAddr : d.addr = f.dentry)
      (hClose : CloseOutcome d s t ret) (hRet : ret = 0)
      (hEq : s' = withoutFile t s.fileList f) : VfsStep types s s' (.sysClose fd) 0

theorem VfsStep.same {call : VfsCall} {r : Int} : VfsStep types s s call r :=
  .quiet [] ⟨⟨rfl, rfl, rfl, rfl, le_refl _⟩, rfl⟩ (by simp) (by simp)

theorem VfsStep.of_access {op : FsOp} {has : Nat → Prop} {d : Dentry} {call : VfsCall} {r : Int}
    (h : RefInv s) (hd : d ∈ s.dentryList) (hOp : op = .fsRead ∨ op = .fsWrite)
    (hAccess : AccessOutcome op has d s s') : VfsStep types s s' call r := by
  cases hAccess with
  | refused hMount hQuiet hCalls => exact .quiet [] hQuiet (by simp [hCalls]) (by simp)
  | called m hMount hHas hQuiet hCalls =>
      refine .quiet _ hQuiet hCalls fun c hc => ?_
      rw [List.mem_singleton.mp hc]
      have hLt := lt_of_lt_of_le (h.dentryLt d hd) hQuiet.kzallocs
      rcases hOp with rfl | rfl <;> exact ⟨by simp, hLt, by simp⟩

theorem vfsCall_step {call : VfsCall} {r : Int} (h : RefInv s)
    (hCall : vfsCall types call s = .ok r s') : VfsStep types s s' call r := by
  cases call with
  | mountNodev fstype path =>
      rcases mountNodev_outcome hCall with ⟨-, hQuiet, hCalls⟩ | ⟨rfl, t, hQuiet, hCalls, hEq⟩
      · exact .quiet [] hQuiet (by simp [hCalls]) (by simp)
      · exact .mounted t hQuiet hCalls hEq
  | sysOpen path mode =>
      rcases sysOpen_outcome hCall with ⟨hNeg, hOpen⟩ | ⟨t, filp, addr, hOpen, hLe, hLt, hEq, rfl⟩
      · obtain ⟨new, hQuiet, hCalls, hNew⟩ := hOpen.of_neg hNeg
        refine .quiet new hQuiet hCalls fun c hc => ?_
        obtain ⟨hOp, hFrom, hTo, -⟩ := hNew c hc
        exact ⟨by rcases hOp with hOp | hOp <;> simp [hOp], hTo, fun _ => hFrom⟩
      · exact .opened t filp addr hOpen hLe hLt hEq
  | sysRead fd size =>
      simp only [vfsCall, bind_eq_ok] at hCall
      obtain ⟨r', t, hRead, hPure⟩ := hCall
      cases hPure
      rcases sysRead_outcome hRead with ⟨-, rfl⟩ | ⟨f, d, hFile, hFind, hAccess⟩
      · exact .same
      · exact .of_access h (List.mem_of_find?_eq_some hFind) (Or.inl rfl) hAccess
  | sysWrite fd buf =>
      rcases sysWrite_outcome hCall with ⟨-, rfl⟩ | ⟨f, d, hFile, hFind, hAccess⟩
      · exact .same
      · exact .of_access h (List.mem_of_find?_eq_some hFind) (Or.inr rfl) hAccess
  | sysClose fd =>
      rcases sysClose_outcome hCall with ⟨-, rfl, -⟩ | ⟨f, d, t, ret, hFile, hFind, hClose, hEnd⟩
      · exact .same
      · obtain ⟨hd, hAddr⟩ := (KeyedList.find_key_eq_some h.addrs).mp hFind
        rcases hEnd with ⟨hNeg, rfl, rfl⟩ | ⟨hZero, rfl, hEq⟩
        · cases hClose with
          | unmounted hMount hQuiet hCalls => exact .quiet [] hQuiet (by simp [hCalls]) (by simp)
          | dropped => exact absurd hNeg (by decide)
          | released => exact absurd hNeg (by decide)
        · exact .closed t f d hFile hd hAddr hClose hZero hEq

theorem refInv_step {call : VfsCall} {r : Int} (h : RefInv s) (hStep : VfsStep types s s' call r) :
    RefInv s' := by
  cases hStep with
  | quiet new hQuiet hCalls hNew =>
      exact h.quiet hQuiet hCalls fun c hc => ⟨(hNew c hc).1, (hNew c hc).2.1⟩
  | mounted t hQuiet hCalls hEq =>
      have hInv : RefInv t := h.quiet hQuiet (by simp [hCalls] : t.calls = s.calls ++ []) (by simp)
      rw [hEq]
      exact ⟨hInv.paths, hInv.addrs, hInv.fileAddrs, hInv.dentryLt, hInv.fileLt, hInv.callLt,
        hInv.files, hInv.refs, hInv.used, hInv.once, hInv.gone⟩
  | opened t filp addr hOpen hFilp hFilp' hEq =>
      rw [hEq]
      exact refInv_open h hOpen hFilp hFilp' _ _
  | closed t f d hFile hd hAddr hClose hRet hEq =>
      rw [hEq]
      exact refInv_close h (List.mem_of_find?_eq_some hFile) hd hAddr hClose hRet

theorem refInv_of_run {allowed : Vfs σ → VfsCall → Prop} {s0 : Vfs σ} (hInit : VfsInit s0)
    (hRun : Relation.ReflTransGen (VfsNext types allowed) s0 s) : RefInv s := by
  induction hRun with
  | refl => exact refInv_init hInit
  | tail _ hNext ih =>
      obtain ⟨call, r, -, hCall⟩ := hNext
      exact refInv_step ih (vfsCall_step ih hCall)

/-! ### Opening and closing under a fixed mount table -/

/-- Only `sys_open` and `sys_close` are called. -/
def OpenClose (_ : Vfs σ) : VfsCall → Prop
  | .sysOpen _ _ => True
  | .sysClose _ => True
  | _ => False

/-- Every dentry is under the mount that it was opened under. -/
def Mounted (s : Vfs σ) : Prop := ∀ d ∈ s.dentryList, mountGet s.mountList d.pathname = some d.mnt

/-- Every dentry after a close is one from before, up to its count. -/
theorem Vfs.CloseOutcome.mem_old {d e : Dentry} {ret : Int} (h : RefInv s) (hd : d ∈ s.dentryList)
    (hClose : CloseOutcome d s s' ret) (he : e ∈ s'.dentryList) :
    ∃ c ∈ s.dentryList, c.addr = e.addr ∧ c.pathname = e.pathname ∧ c.mnt = e.mnt := by
  cases hClose with
  | unmounted hMount hQuiet hCalls =>
      rw [hQuiet.dentries] at he
      exact ⟨e, he, rfl, rfl, rfl⟩
  | dropped m hMount hRef hDentries hSteady hCalls =>
      rw [hDentries] at he
      obtain ⟨c, hc, rfl⟩ := mem_changeRef he
      exact ⟨c, hc, by split <;> rfl, by split <;> rfl, by split <;> rfl⟩
  | released m hMount hRef hDentries hSteady hCalls =>
      rw [hDentries, mem_changeRef_eraseP h.addrs hd] at he
      exact ⟨e, he.1, rfl, rfl, rfl⟩

theorem Vfs.CloseOutcome.steady {d : Dentry} {ret : Int} (hClose : CloseOutcome d s s' ret) :
    Steady s s' := by
  cases hClose with
  | unmounted hMount hQuiet hCalls => exact hQuiet.toSteady
  | dropped m hMount hRef hDentries hSteady hCalls => exact hSteady
  | released m hMount hRef hDentries hSteady hCalls => exact hSteady

theorem mounted_step {call : VfsCall} {r : Int} (h : RefInv s) (hMounted : Mounted s)
    (hOpenClose : OpenClose s call) (hStep : VfsStep types s s' call r) : Mounted s' := by
  cases hStep with
  | quiet new hQuiet hCalls hNew =>
      intro d hd
      rw [hQuiet.dentries] at hd
      rw [hQuiet.mounts]
      exact hMounted d hd
  | mounted => exact absurd hOpenClose id
  | opened t filp addr hOpen hFilp hFilp' hEq =>
      rw [hEq]
      intro d hd
      change d ∈ t.dentryList at hd
      show mountGet t.mountList d.pathname = some d.mnt
      cases hOpen with
      | failed new hRet => exact absurd hRet (by decide)
      | shared e m hMount hFind hDentries hSteady hCalls hFs hLock =>
          rw [hSteady.mounts]
          rw [hDentries] at hd
          obtain ⟨c, hc, rfl⟩ := mem_changeRef hd
          have := hMounted c hc
          split <;> exact this
      | created addr privateData m hMount hFind hAddr hAddr' hDentries hSteady hCalls hFs =>
          rw [hSteady.mounts]
          rw [hDentries, List.mem_append, List.mem_singleton] at hd
          rcases hd with hd | rfl
          · exact hMounted d hd
          · exact hMount
  | closed t f d hFile hd hAddr hClose hRet hEq =>
      rw [hEq]
      intro e he
      obtain ⟨c, hc, -, hPath, hMnt⟩ := hClose.mem_old h hd he
      show mountGet t.mountList e.pathname = some e.mnt
      rw [hClose.steady.mounts, ← hPath, ← hMnt]
      exact hMounted c hc

theorem mounted_of_run {s0 : Vfs σ} (hInit : VfsInit s0)
    (hRun : Relation.ReflTransGen (VfsNext types OpenClose) s0 s) : Mounted s := by
  induction hRun with
  | refl => simp [Mounted, hInit.dentries]
  | tail hBefore hNext ih =>
      obtain ⟨call, r, hOpenClose, hCall⟩ := hNext
      have hInv := refInv_of_run hInit hBefore
      exact mounted_step hInv ih hOpenClose (vfsCall_step hInv hCall)

/-- A close releases the dentry exactly when the file is its last one. -/
theorem sysClose_releases {fd : BitVec 32} {r : Int} (h : RefInv s) (hMounted : Mounted s)
    (hCall : sysClose types fd s = .ok r s') :
    releases s'.calls = releases s.calls ++
      match fileOf s.fileList fd with
      | some f => if users s.fileList f.dentry = 1 then [f.dentry] else []
      | none => [] := by
  rcases sysClose_outcome hCall with ⟨hNone, rfl, -⟩ | ⟨f, d, t, ret, hFile, hFind, hClose, hEnd⟩
  · simp [hNone]
  obtain ⟨hd, hAddr⟩ := (KeyedList.find_key_eq_some h.addrs).mp hFind
  have hRefs := h.refs d hd
  have hCalls : s'.calls = t.calls := by
    rcases hEnd with ⟨-, rfl, -⟩ | ⟨-, -, rfl⟩ <;> rfl
  rw [hCalls]
  simp only [hFile]
  rw [← hAddr]
  cases hClose with
  | unmounted hMount hQuiet hCalls =>
      rw [hMounted d hd] at hMount
      cases hMount
  | dropped m hMount hRef hDentries hSteady hCalls =>
      rw [hCalls, if_neg (by omega), List.append_nil]
  | released m hMount hRef hDentries hSteady hCalls =>
      rw [hCalls, if_pos (by omega), releases_append]
      rfl

/-- A dentry stays on the list until it is released, and stays released. -/
theorem kept_step {call : VfsCall} {r : Int} {addr : Nat} (h : RefInv s)
    (hStep : VfsStep types s s' call r)
    (hKept : addr ∈ s.dentryList.map Dentry.addr ∨ addr ∈ releases s.calls) :
    addr ∈ s'.dentryList.map Dentry.addr ∨ addr ∈ releases s'.calls := by
  cases hStep with
  | quiet new hQuiet hCalls hNew =>
      rw [hQuiet.dentries, hCalls, releases_append, List.mem_append]
      exact hKept.imp_right Or.inl
  | mounted t hQuiet hCalls hEq =>
      rw [hEq]
      show addr ∈ t.dentryList.map _ ∨ addr ∈ releases t.calls
      rw [hQuiet.dentries, hCalls]
      exact hKept
  | opened t filp a hOpen hFilp hFilp' hEq =>
      rw [hEq]
      show addr ∈ t.dentryList.map _ ∨ addr ∈ releases t.calls
      cases hOpen with
      | failed new hRet => exact absurd hRet (by decide)
      | shared e m hMount hFind hDentries hSteady hCalls hFs hLock =>
          rw [hDentries, changeRef_map _ _ _ _ fun _ _ => rfl, hCalls]
          exact hKept
      | created a privateData m hMount hFind hAddr hAddr' hDentries hSteady hCalls hFs =>
          rw [hDentries, hCalls, releases_append, List.map_append, List.mem_append, List.mem_append]
          exact hKept.imp Or.inl Or.inl
  | closed t f d hFile hd hAddr hClose hRet hEq =>
      rw [hEq]
      show addr ∈ t.dentryList.map _ ∨ addr ∈ releases t.calls
      cases hClose with
      | unmounted => exact absurd hRet (by decide)
      | dropped m hMount hRef hDentries hSteady hCalls =>
          rw [hDentries, changeRef_map _ _ _ _ fun _ _ => rfl, hCalls]
          exact hKept
      | released m hMount hRef hDentries hSteady hCalls =>
          rw [hDentries, hCalls, releases_append, List.mem_append]
          rcases hKept with hOn | hGone
          · obtain ⟨c, hc, rfl⟩ := List.mem_map.mp hOn
            by_cases hEq : c.addr = d.addr
            · exact Or.inr (Or.inr (by simp [releases, hEq]))
            · refine Or.inl (List.mem_map.mpr ⟨c, ?_, rfl⟩)
              exact (mem_changeRef_eraseP h.addrs hd).mpr ⟨hc, hEq⟩
          · exact Or.inr (Or.inl hGone)

theorem kept_of_run {allowed : Vfs σ → VfsCall → Prop} {t : Vfs σ} {d : Dentry} (h : RefInv t)
    (hd : d ∈ t.dentryList) (hRun : Relation.ReflTransGen (VfsNext types allowed) t s) :
    RefInv s ∧ (d.addr ∈ s.dentryList.map Dentry.addr ∨ d.addr ∈ releases s.calls) := by
  induction hRun with
  | refl => exact ⟨h, Or.inl (List.mem_map.mpr ⟨d, hd, rfl⟩)⟩
  | tail _ hNext ih =>
      obtain ⟨call, r, -, hCall⟩ := hNext
      have hStep := vfsCall_step ih.1 hCall
      exact ⟨refInv_step ih.1 hStep, kept_step ih.1 hStep ih.2⟩

/-- A file system that finds every path and keeps no data. -/
def plainFs : FileSystemOperations Unit where
  fsLookup := some fun _ fs => (some 0, fs)
  fsOpen := fun _ _ fs => (0, fs)
  fsRelease := fun _ fs => fs
  fsRead := some fun _ _ fs => ((0, []), fs)
  fsWrite := some fun _ _ fs => (0, fs)

/-- The state after `vfs_init`: type 0 is mounted as the root. -/
def vfsStart : Vfs Unit where
  mountList := [⟨[], 0⟩]
  dentryList := []
  fileList := []
  fdCount := 0#32
  fs := ()
  heap := ⟨fun _ => true, 2, false⟩
  calls := []

theorem vfsInit_start : VfsInit vfsStart := ⟨rfl, rfl, rfl, rfl⟩

/-- The path `/a`. -/
def pathA : Str := [0x2f#8, 0x61#8]

end Rayos
