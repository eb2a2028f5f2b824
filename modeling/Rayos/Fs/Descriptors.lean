import Rayos.Fs.VfsRun

/-!
# Descriptor numbers

`sys_open` numbers the files with the 32-bit counter `fd_count`, which is never reused, and returns the
number as an `int`.  As long as every open starts below `2 ^ 31`, the numbers of the open files are below
the counter, so that a number names one file.  From `2 ^ 31` on a successful open returns a negative
number.
-/

namespace Rayos

open Program CString Vfs

variable {σ : Type} {types : Nat → FileSystemOperations σ} {s s' : Vfs σ}

/-- An open finds the counter below `2 ^ 31`. -/
def LowDescriptor (s : Vfs σ) : VfsCall → Prop
  | .sysOpen _ _ => s.fdCount.toNat < 2 ^ 31
  | _ => True

/-- The numbers of the open files are below the counter, and different. -/
structure FdInv (s : Vfs σ) : Prop where
  counter : s.fdCount.toNat ≤ 2 ^ 31
  below : ∀ f ∈ s.fileList, f.fd.toNat < s.fdCount.toNat
  nodup : (s.fileList.map File.fd).Nodup

theorem fdInv_init (h : VfsInit s) : FdInv s :=
  ⟨by simp [h.fds], by simp [h.files], by simp [h.files]⟩

theorem FdInv.steady (h : FdInv s) (hSteady : Steady s s') : FdInv s' := by
  refine ⟨?_, ?_, ?_⟩
  · rw [hSteady.fds]
    exact h.counter
  · rw [hSteady.fds, hSteady.files]
    exact h.below
  · rw [hSteady.files]
    exact h.nodup

theorem FdInv.ne_counter (h : FdInv s) {f : File} (hf : f ∈ s.fileList) : f.fd ≠ s.fdCount := by
  intro hEq
  have := h.below f hf
  rw [hEq] at this
  omega

theorem fdInv_step {call : VfsCall} {r : Int} (h : FdInv s) (hLow : LowDescriptor s call)
    (hStep : VfsStep types s s' call r) : FdInv s' := by
  cases hStep with
  | quiet new hQuiet hCalls hNew => exact h.steady hQuiet.toSteady
  | mounted t hQuiet hCalls hEq =>
      have hInv := h.steady hQuiet.toSteady
      rw [hEq]
      exact ⟨hInv.counter, hInv.below, hInv.nodup⟩
  | opened t filp addr hOpen hFilp hFilp' hEq =>
      rw [hEq]
      have hLt : s.fdCount.toNat < 2 ^ 31 := hLow
      have hNext : (s.fdCount + 1#32).toNat = s.fdCount.toNat + 1 := by
        rw [BitVec.toNat_add, Nat.mod_eq_of_lt (by simp; omega)]
        rfl
      refine ⟨?_, fun f hf => ?_, ?_⟩
      · show (s.fdCount + 1#32).toNat ≤ _
        omega
      · show f.fd.toNat < (s.fdCount + 1#32).toNat
        rcases List.mem_append.mp hf with hf | hf
        · have := h.below f hf
          omega
        · rw [List.mem_singleton.mp hf]
          show s.fdCount.toNat < _
          omega
      · exact KeyedList.nodup_append h.nodup fun f hf => h.ne_counter hf
  | closed t f d hFile hd hAddr hClose hRet hEq =>
      rw [hEq]
      have hFds : t.fdCount = s.fdCount := hClose.steady.fds
      refine ⟨?_, fun e he => ?_, KeyedList.nodup_eraseP h.nodup⟩
      · show t.fdCount.toNat ≤ _
        rw [hFds]
        exact h.counter
      · show e.fd.toNat < t.fdCount.toNat
        rw [hFds]
        exact h.below e (List.mem_of_mem_eraseP he)

theorem fdInv_of_run {s0 : Vfs σ} (hInit : VfsInit s0)
    (hRun : Relation.ReflTransGen (VfsNext types LowDescriptor) s0 s) : FdInv s := by
  induction hRun with
  | refl => exact fdInv_init hInit
  | tail hBefore hNext ih =>
      obtain ⟨call, r, hLow, hCall⟩ := hNext
      exact fdInv_step ih hLow (vfsCall_step (refInv_of_run hInit hBefore) hCall)

/-- An open that adds a file has numbered it with the counter and returns that number. -/
theorem sysOpen_number {path : Str} {mode : BitVec 32} {r : Int} {f : File}
    (hCall : sysOpen types path mode s = .ok r s') (hFile : s'.fileList = s.fileList ++ [f]) :
    f.fd = s.fdCount ∧ r = s.fdCount.toInt := by
  rcases sysOpen_outcome hCall with ⟨hNeg, hOpen⟩ | ⟨t, filp, addr, -, -, -, rfl, hEq⟩
  · obtain ⟨-, hQuiet, -, -⟩ := hOpen.of_neg hNeg
    rw [hQuiet.files] at hFile
    exact absurd (congrArg List.length hFile) (by simp)
  · have hNew := List.append_cancel_left hFile
    rw [List.cons.injEq] at hNew
    rw [← hNew.1]
    exact ⟨rfl, hEq⟩

/-- A close of another number leaves the file open. -/
theorem sysClose_other {fd : BitVec 32} {r : Int} {f : File} (h : RefInv s) (hFd : FdInv s)
    (hCall : sysClose types fd s = .ok r s') (hf : f ∈ s.fileList) (hNe : f.fd ≠ fd) :
    f ∈ s'.fileList := by
  have hStep : VfsStep types s s' (.sysClose fd) r := vfsCall_step h hCall
  cases hStep with
  | quiet new hQuiet hCalls hNew =>
      rw [hQuiet.files]
      exact hf
  | closed t g d hFile hd hAddr hClose hRet hEq =>
      rw [hEq]
      obtain ⟨hg, hgFd⟩ := (KeyedList.find_key_eq_some hFd.nodup).mp hFile
      refine (KeyedList.mem_eraseP_key h.fileAddrs hg).mpr ⟨hf, fun hAddr => hNe ?_⟩
      rw [KeyedList.eq_of_key h.fileAddrs hf hg hAddr, hgFd]

/-- Nothing is open, after any number of calls. -/
def vfsIdle (fdCount : BitVec 32) (kzallocs : Nat) (calls : List FsCall) : Vfs Unit :=
  { vfsStart with
    fdCount := fdCount
    heap := ⟨fun _ => true, kzallocs, false⟩
    calls := calls }

/-- The path `/a` is open. -/
def vfsBusy (fdCount : BitVec 32) (kzallocs : Nat) (calls : List FsCall) : Vfs Unit :=
  { vfsStart with
    dentryList := [⟨kzallocs + 3, pathA, ⟨[], 0⟩, 1, 0⟩]
    fileList := [⟨kzallocs, fdCount, kzallocs + 3⟩]
    fdCount := fdCount + 1#32
    heap := ⟨fun _ => true, kzallocs + 4, false⟩
    calls := calls ++ [⟨.fsLookup, 0, kzallocs + 3⟩] ++ [⟨.fsOpen, 0, kzallocs + 3⟩] }

theorem sysOpen_idle (fdCount : BitVec 32) (kzallocs : Nat) (calls : List FsCall) :
    sysOpen (fun _ => plainFs) pathA 1#32 (vfsIdle fdCount kzallocs calls) =
      .ok fdCount.toInt (vfsBusy fdCount kzallocs calls) := rfl

theorem vfsClose_busy (fdCount : BitVec 32) (kzallocs : Nat) (calls : List FsCall) :
    vfsClose (fun _ => plainFs) ⟨kzallocs, fdCount, kzallocs + 3⟩ (vfsBusy fdCount kzallocs calls) =
      .ok 0 { vfsBusy fdCount kzallocs calls with
        dentryList := []
        heap := ⟨fun _ => true, kzallocs + 5, false⟩
        calls := (vfsBusy fdCount kzallocs calls).calls ++ [⟨.fsRelease, 0, kzallocs + 3⟩] } := by
  have hAt (s : Vfs Unit) (d : Dentry) (hd : s.dentryList = [d]) : dentryAt d.addr s = .ok d s := by
    unfold dentryAt
    rw [bind_ok (get_apply s)]
    simp [hd]
  have hMount : mountGetByName pathA (vfsBusy fdCount kzallocs calls) =
      .ok (some ⟨[], 0⟩) { vfsBusy fdCount kzallocs calls with
        heap := ⟨fun _ => true, kzallocs + 5, false⟩ } := rfl
  have hRef : addRef (kzallocs + 3) (-1) { vfsBusy fdCount kzallocs calls with
        heap := ⟨fun _ => true, kzallocs + 5, false⟩ } =
      .ok () { vfsBusy fdCount kzallocs calls with
        dentryList := [⟨kzallocs + 3, pathA, ⟨[], 0⟩, 0, 0⟩]
        heap := ⟨fun _ => true, kzallocs + 5, false⟩ } := by
    apply congrArg (EStateM.Result.ok ())
    simp [vfsBusy]
  unfold vfsClose
  rw [bind_ok (hAt _ ⟨kzallocs + 3, pathA, ⟨[], 0⟩, 1, 0⟩ rfl), bind_ok hMount]
  refine (bind_ok (get_apply _)).trans ?_
  refine (bind_ok hRef).trans ?_
  refine (bind_ok (hAt _ ⟨kzallocs + 3, pathA, ⟨[], 0⟩, 0, 0⟩ rfl)).trans ?_
  rw [if_pos rfl]
  have hErase : List.eraseP (fun d : Dentry => d.addr == kzallocs + 3)
      [⟨kzallocs + 3, pathA, ⟨[], 0⟩, 0, 0⟩] = [] := by simp
  exact congrArg (fun dentries => EStateM.Result.ok (0 : Int)
    ({ vfsBusy fdCount kzallocs calls with
      dentryList := dentries
      heap := ⟨fun _ => true, kzallocs + 5, false⟩
      calls := (vfsBusy fdCount kzallocs calls).calls ++ [⟨.fsRelease, 0, kzallocs + 3⟩] } :
      Vfs Unit)) hErase

theorem sysClose_busy (fdCount : BitVec 32) (kzallocs : Nat) (calls : List FsCall) :
    sysClose (fun _ => plainFs) fdCount (vfsBusy fdCount kzallocs calls) =
      .ok 0 (vfsIdle (fdCount + 1#32) (kzallocs + 5)
        ((vfsBusy fdCount kzallocs calls).calls ++ [⟨.fsRelease, 0, kzallocs + 3⟩])) := by
  have hFile : fileOf (vfsBusy fdCount kzallocs calls).fileList fdCount =
      some ⟨kzallocs, fdCount, kzallocs + 3⟩ := by simp [fileOf, vfsBusy]
  have hErase : List.eraseP (fun f : File => f.addr == kzallocs)
      [⟨kzallocs, fdCount, kzallocs + 3⟩] = [] := by simp
  unfold sysClose
  rw [bind_ok (get_apply _)]
  simp only [hFile]
  rw [bind_ok (vfsClose_busy fdCount kzallocs calls), if_neg (by decide)]
  exact congrArg (fun files => EStateM.Result.ok (0 : Int)
    ({ vfsIdle (fdCount + 1#32) (kzallocs + 5)
        ((vfsBusy fdCount kzallocs calls).calls ++ [⟨.fsRelease, 0, kzallocs + 3⟩]) with
      fileList := files } : Vfs Unit)) hErase

/-- Opening and closing `n` times brings the counter to `n`. -/
theorem fdCount_after_pairs (n : Nat) : ∃ kzallocs calls,
    Relation.ReflTransGen (VfsNext (fun _ => plainFs) OpenClose) vfsStart
      (vfsIdle (BitVec.ofNat 32 n) kzallocs calls) := by
  induction n with
  | zero => exact ⟨2, [], .refl⟩
  | succ n ih =>
      obtain ⟨kzallocs, calls, hRun⟩ := ih
      have hNext : BitVec.ofNat 32 n + 1#32 = BitVec.ofNat 32 (n + 1) := by
        rw [BitVec.ofNat_add]
      rw [← hNext]
      exact ⟨_, _, (hRun.tail ⟨.sysOpen pathA 1#32, _, trivial, sysOpen_idle _ _ _⟩).tail
        ⟨.sysClose (BitVec.ofNat 32 n), _, trivial, sysClose_busy _ _ _⟩⟩

end Rayos
