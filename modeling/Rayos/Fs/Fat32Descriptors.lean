import Rayos.Fs.Fat32Create
import Rayos.Fs.Fat32File

/-!
# The life of a FAT32 descriptor (`fat32_open`, `fat32_close`)

`fat32_open` puts a record with a new number at the end of the list.  `fat32_close` frees the path of the
record and leaves the record in the list, so that the descriptor goes on being valid and a second close
frees the path again.

* A run is a list of calls with their results; the stack contents of each call are arbitrary.
* `LifeCycle` is what is expected of descriptors after a run, and `NotClosed` the condition on the state
  before a call under which runs meet it.
-/

namespace Rayos

open CString

/-- The driver's global state, with the drive. -/
structure OpenFiles where
  /-- `g_fat32_file_list`. -/
  files : List Fat32File
  /-- `g_fd_count`. -/
  fdCount : Nat
  /-- How many blocks `kzalloc` has returned for paths. -/
  blocks : Nat
  /-- The blocks of paths that `kfree` has been called with, the last one first. -/
  freed : List Nat
  disk : Disk

/-- Before the first call. -/
def OpenFiles.boot (disk : Disk) : OpenFiles := ⟨[], 0, 0, [], disk⟩

/-! ## The calls -/

/-- `fat32_get_parent`: what it leaves in `parent`. -/
def fat32GetParent (path : Str) : Str :=
  if path.length ≤ 1 then [slash]
  else
    match strrchr path slash with
    | none => path
    | some 0 => path.take 1
    | some i => path.take i

/-- The entry that stands for the root directory: the name `/` and the first cluster 2. -/
def rootEntry : DirEntry := ((DirEntry.setFirstCluster [] 2).set 0 slash)

/-- `fp->fs.parent_entry`.  A parent that is not found leaves the variable as it was. -/
def openParent (fuel : Nat) (junk : Junk) (disk : Disk) (path : Str) : Option DirEntry :=
  if fat32GetParent path = [slash] then some rootEntry
  else (fat32Lookup fuel junk disk (fat32GetParent path)).map fun r => r.2.getD junk.entry

/-- `fat32_open`. -/
def fat32Open (fuel : Nat) (junk : Junk) (s : OpenFiles) (path : Str) : Option (Int × OpenFiles) :=
  match fat32Lookup fuel junk s.disk path with
  | none => none
  | some (ret, found) =>
      let entry := found.getD junk.entry
      if ret < 0 then some (ret, s)
      else if entry.attr &&& attrDirectory ≠ 0#8 then some (-1, s)
      else
        (openParent fuel junk s.disk path).map fun parentEntry =>
          (s.fdCount,
            { s with
              files := s.files ++ [⟨s.fdCount, s.blocks, readBpb s.disk, entry, parentEntry⟩]
              fdCount := s.fdCount + 1
              blocks := s.blocks + 1 })

/-- `fat32_close`. -/
def fat32Close (s : OpenFiles) (fd : Int) : Int × OpenFiles :=
  match fat32FindFile s.files fd with
  | none => (-1, s)
  | some fp => (0, { s with freed := fp.path :: s.freed })

/-- The calls on files. -/
inductive FileCall where
  | open (path : Str)
  | read (fd : Int) (buf : Bytes) (size : Nat)
  | write (fd : Int) (buf : Bytes) (size : Nat)
  | close (fd : Int)

namespace FileCall

/-- The descriptor that a call is about. -/
def fd? : FileCall → Option Int
  | .open _ => none
  | .read fd _ _ => some fd
  | .write fd _ _ => some fd
  | .close fd => some fd

/-- A call: its result and the state after it. -/
def run (fuel : Nat) (junk : Junk) (s : OpenFiles) : FileCall → Option (Int × OpenFiles)
  | .open path => fat32Open fuel junk s path
  | .read fd buf size => (fat32Read fuel s.files s.disk fd buf size).map fun r => (r.1, s)
  | .write fd buf size =>
      (fat32Write fuel s.files s.disk fd buf size).map fun r =>
        (r.1, { s with files := r.2.1, disk := r.2.2 })
  | .close fd => some (fat32Close s fd)

end FileCall

/-- A call with its result. -/
abbrev FileEvent := FileCall × Int

/-- The calls of a run, in order, each in a state that meets `Cond`. -/
inductive FileRun (Cond : OpenFiles → FileCall → Prop) (s₀ : OpenFiles) :
    List FileEvent → OpenFiles → Prop
  | nil : FileRun Cond s₀ [] s₀
  | snoc {events : List FileEvent} {s s' : OpenFiles} {call : FileCall} {ret : Int} (fuel : Nat)
      (junk : Junk) (hRun : FileRun Cond s₀ events s) (hCond : Cond s call)
      (hCall : call.run fuel junk s = some (ret, s')) : FileRun Cond s₀ (events ++ [(call, ret)]) s'

/-! ## What is expected -/

/-- A descriptor has been closed. -/
def ClosedIn (events : List FileEvent) (fd : Int) : Prop := (FileCall.close fd, (0 : Int)) ∈ events

/-- The life of descriptors over a run. -/
structure LifeCycle (events : List FileEvent) (s : OpenFiles) : Prop where
  /-- A descriptor is valid from `fat32_open` to `fat32_close`. -/
  valid : ∀ path fd, (FileCall.open path, fd) ∈ events → 0 ≤ fd → ¬ ClosedIn events fd →
    (fat32FindFile s.files fd).isSome
  /-- A close of a valid descriptor succeeds. -/
  closes : ∀ before path fd ret after, events = before ++ (FileCall.close fd, ret) :: after →
    (FileCall.open path, fd) ∈ before → 0 ≤ fd → ¬ ClosedIn before fd → ret = 0
  /-- Calls on a closed descriptor are rejected. -/
  rejected : ∀ before call fd ret after, events = before ++ (call, ret) :: after →
    call.fd? = some fd → ClosedIn before fd → ret = -1
  /-- No path is freed twice. -/
  once : s.freed.Nodup
  /-- The path of a file is freed when its descriptor is closed. -/
  freed : ∀ fp ∈ s.files, fp.path ∈ s.freed ↔ ClosedIn events fp.fd

/-- The call is not about a descriptor whose path has been freed. -/
def NotClosed (s : OpenFiles) (call : FileCall) : Prop :=
  ∀ fd fp, call.fd? = some fd → fat32FindFile s.files fd = some fp → fp.path ∉ s.freed

/-! ## The list of files -/

/-- What identifies a record. -/
def Fat32File.key (fp : Fat32File) : Int × Nat := (fp.fd, fp.path)

/-- Records and paths are numbered by the successful opens. -/
structure Numbered (s : OpenFiles) : Prop where
  blocks : s.blocks = s.fdCount
  keys : s.files.map Fat32File.key = (List.range s.fdCount).map fun k : Nat => ((k : Int), k)

theorem Numbered.key_eq {s : OpenFiles} (h : Numbered s) {fp : Fat32File} (hMem : fp ∈ s.files) :
    fp.path < s.fdCount ∧ fp.fd = fp.path := by
  have hKey : fp.key ∈ s.files.map Fat32File.key := List.mem_map_of_mem hMem
  rw [h.keys] at hKey
  obtain ⟨k, hk, hEq⟩ := List.mem_map.mp hKey
  have hPath : k = fp.path := congrArg Prod.snd hEq
  have hFd : (k : Int) = fp.fd := congrArg Prod.fst hEq
  exact ⟨hPath ▸ List.mem_range.mp hk, by rw [← hFd, hPath]⟩

theorem fat32FindFile_mem {files : List Fat32File} {fd : Int} {fp : Fat32File}
    (h : fat32FindFile files fd = some fp) : fp ∈ files ∧ fp.fd = fd :=
  ⟨List.mem_of_find?_eq_some h, by simpa using List.find?_some h⟩

/-- Every number that has been given out is found. -/
theorem Numbered.findFile_isSome {s : OpenFiles} (h : Numbered s) {k : Nat} (hk : k < s.fdCount) :
    ∃ fp, fat32FindFile s.files k = some fp ∧ fp.path = k := by
  have hKey : ((k : Int), k) ∈ s.files.map Fat32File.key := by
    rw [h.keys]
    exact List.mem_map.mpr ⟨k, List.mem_range.mpr hk, rfl⟩
  obtain ⟨fp, hMem, hEq⟩ := List.mem_map.mp hKey
  have hSome : (fat32FindFile s.files k).isSome := by
    rw [fat32FindFile, List.find?_isSome]
    have hFd : fp.fd = k := congrArg Prod.fst hEq
    exact ⟨fp, hMem, by simpa using hFd⟩
  obtain ⟨found, hFound⟩ := Option.isSome_iff_exists.mp hSome
  obtain ⟨hIn, hFd⟩ := fat32FindFile_mem hFound
  have hNumber := (h.key_eq hIn).2
  exact ⟨found, hFound, by omega⟩

/-- Replacing a record by one with its number keeps the numbers. -/
theorem putFile_keys {fd : Int} {fp fp' : Fat32File} (hKey : fp'.key = fp.key) :
    ∀ {files : List Fat32File}, fat32FindFile files fd = some fp →
      (putFile files fd fp').map Fat32File.key = files.map Fat32File.key := by
  intro files
  induction files with
  | nil =>
      intro h
      cases h
  | cons f files ih =>
      intro h
      rw [fat32FindFile, List.find?_cons] at h
      rw [putFile]
      by_cases hFd : f.fd = fd
      · rw [if_pos hFd, List.map_cons, List.map_cons, hKey]
        simp only [hFd, decide_true] at h
        cases h
        rfl
      · rw [if_neg hFd, List.map_cons, List.map_cons]
        simp only [hFd, decide_false] at h
        rw [ih h]

theorem fat32WriteCluster_key {fuel size : Nat} {disk disk' : Disk} {fp fp' : Fat32File} {buf : Bytes}
    (h : fat32WriteCluster fuel disk fp buf size = some (fp', disk')) : fp'.key = fp.key := by
  rw [fat32WriteCluster] at h
  split at h
  · cases h
  · obtain ⟨disk₁, -, hEq⟩ := Option.map_eq_some_iff.mp h
    cases hEq
    rfl

/-! ## One call -/

/-- What a call does to the list of files and to the freed paths. -/
inductive CallEffect (s : OpenFiles) : FileCall → Int → OpenFiles → Prop
  | opened (path : Str) (s' : OpenFiles) (hNumbered : Numbered s') (hCount : s'.fdCount = s.fdCount + 1)
      (hFreed : s'.freed = s.freed) : CallEffect s (.open path) s.fdCount s'
  | notOpened (path : Str) (ret : Int) (hRet : ret < 0) : CallEffect s (.open path) ret s
  | used (call : FileCall) (ret : Int) (s' : OpenFiles) (hCall : call.fd?.isSome)
      (hNotClose : ∀ fd, call ≠ .close fd) (hNumbered : Numbered s') (hCount : s'.fdCount = s.fdCount)
      (hFreed : s'.freed = s.freed) : CallEffect s call ret s'
  | closed (fd : Int) (fp : Fat32File) (hFind : fat32FindFile s.files fd = some fp) :
      CallEffect s (.close fd) 0 { s with freed := fp.path :: s.freed }
  | notClosed (fd : Int) (hFind : fat32FindFile s.files fd = none) : CallEffect s (.close fd) (-1) s

theorem numbered_boot (disk : Disk) : Numbered (OpenFiles.boot disk) := ⟨rfl, rfl⟩

theorem fat32Open_effect {fuel : Nat} {junk : Junk} {s s' : OpenFiles} {path : Str} {ret : Int}
    (hs : Numbered s) (h : fat32Open fuel junk s path = some (ret, s')) :
    CallEffect s (.open path) ret s' := by
  rw [fat32Open] at h
  split at h
  · cases h
  · simp only at h
    split at h
    · case isTrue hRet =>
        cases h
        exact .notOpened path ret hRet
    · split at h
      · cases h
        exact .notOpened path (-1) (by decide)
      · obtain ⟨parentEntry, -, hEq⟩ := Option.map_eq_some_iff.mp h
        cases hEq
        refine .opened path _ ⟨?_, ?_⟩ rfl rfl
        · exact congrArg (· + 1) hs.blocks
        · rw [List.map_append, hs.keys, List.range_succ, List.map_append]
          simp [Fat32File.key, hs.blocks]

theorem fat32Write_effect {fuel size : Nat} {s : OpenFiles} {fd ret : Int} {buf : Bytes}
    {files : List Fat32File} {disk : Disk} (hs : Numbered s)
    (h : fat32Write fuel s.files s.disk fd buf size = some (ret, files, disk)) :
    Numbered { s with files := files, disk := disk } := by
  rw [fat32Write] at h
  split at h
  · cases h
    exact hs
  · case h_2 fp hFind =>
      obtain ⟨⟨fp', disk'⟩, hWrite, hEq⟩ := Option.map_eq_some_iff.mp h
      cases hEq
      exact ⟨hs.blocks, (putFile_keys (fat32WriteCluster_key hWrite) hFind).trans hs.keys⟩

/-- Every call has one of the effects. -/
theorem FileCall.run_effect {fuel : Nat} {junk : Junk} {s s' : OpenFiles} {call : FileCall} {ret : Int}
    (hs : Numbered s) (h : call.run fuel junk s = some (ret, s')) : CallEffect s call ret s' := by
  cases call with
  | «open» path => exact fat32Open_effect hs h
  | read fd buf size =>
      obtain ⟨r, -, hEq⟩ := Option.map_eq_some_iff.mp h
      cases hEq
      exact .used _ _ s rfl (by simp) hs rfl rfl
  | write fd buf size =>
      obtain ⟨⟨ret', files, disk⟩, hWrite, hEq⟩ := Option.map_eq_some_iff.mp h
      cases hEq
      exact .used _ _ _ rfl (by simp) (fat32Write_effect hs hWrite) rfl rfl
  | close fd =>
      rw [FileCall.run, Option.some.injEq, fat32Close] at h
      cases hFind : fat32FindFile s.files fd with
      | none =>
          rw [hFind] at h
          cases h
          exact .notClosed fd hFind
      | some fp =>
          rw [hFind] at h
          cases h
          exact .closed fd fp hFind

theorem CallEffect.numbered {s s' : OpenFiles} {call : FileCall} {ret : Int} (hs : Numbered s)
    (h : CallEffect s call ret s') : Numbered s' := by
  cases h with
  | opened _ _ hNumbered _ _ => exact hNumbered
  | notOpened _ _ _ => exact hs
  | used _ _ _ _ _ hNumbered _ _ => exact hNumbered
  | closed _ _ _ => exact ⟨hs.blocks, hs.keys⟩
  | notClosed _ _ => exact hs

/-! ## Runs -/

/-- What holds after every run of which no call is about a closed descriptor. -/
structure DescriptorInv (events : List FileEvent) (s : OpenFiles) : Prop where
  numbered : Numbered s
  opened : ∀ path fd, (FileCall.open path, fd) ∈ events → fd < s.fdCount
  closed : ∀ fd, ClosedIn events fd ↔ ∃ k ∈ s.freed, fd = (k : Int)
  bound : ∀ k ∈ s.freed, k < s.fdCount
  once : s.freed.Nodup

theorem closedIn_append {events : List FileEvent} {call : FileCall} {ret fd : Int} :
    ClosedIn (events ++ [(call, ret)]) fd ↔ ClosedIn events fd ∨ (call = .close fd ∧ ret = 0) := by
  simp [ClosedIn, eq_comm]

/-- One call, not about a closed descriptor, keeps the invariant. -/
theorem DescriptorInv.step {events : List FileEvent} {s s' : OpenFiles} {call : FileCall} {ret : Int}
    (hs : DescriptorInv events s) (hCond : NotClosed s call) (h : CallEffect s call ret s') :
    DescriptorInv (events ++ [(call, ret)]) s' := by
  have hNumbered := h.numbered hs.numbered
  cases h with
  | opened path _ _ hCount hFreed =>
      -- the number given out is the count, which no closed descriptor has
      refine ⟨hNumbered, ?_, ?_, ?_, ?_⟩
      · intro path' fd hMem
        rw [hCount]
        rcases List.mem_append.mp hMem with hOld | hNew
        · have := hs.opened path' fd hOld
          omega
        · cases List.mem_singleton.mp hNew
          omega
      · intro fd
        rw [closedIn_append, hFreed, ← hs.closed fd]
        simp
      · intro k hk
        rw [hFreed] at hk
        have := hs.bound k hk
        omega
      · rw [hFreed]
        exact hs.once
  | notOpened path _ hRet =>
      refine ⟨hNumbered, ?_, ?_, hs.bound, hs.once⟩
      · intro path' fd hMem
        rcases List.mem_append.mp hMem with hOld | hNew
        · exact hs.opened path' fd hOld
        · cases List.mem_singleton.mp hNew
          omega
      · intro fd
        rw [closedIn_append, ← hs.closed fd]
        simp
  | used _ _ _ hCall hNotClose _ hCount hFreed =>
      refine ⟨hNumbered, ?_, ?_, ?_, ?_⟩
      · intro path' fd hMem
        rw [hCount]
        rcases List.mem_append.mp hMem with hOld | hNew
        · exact hs.opened path' fd hOld
        · cases List.mem_singleton.mp hNew
          cases hCall
      · intro fd
        rw [closedIn_append, hFreed, ← hs.closed fd]
        simp [hNotClose fd]
      · rw [hFreed, hCount]
        exact hs.bound
      · rw [hFreed]
        exact hs.once
  | closed fd fp hFind =>
      -- the record stays in the list, so what is freed is its path, and the path is the number
      obtain ⟨hMem, hFd⟩ := fat32FindFile_mem hFind
      obtain ⟨hLt, hNumber⟩ := hs.numbered.key_eq hMem
      refine ⟨hNumbered, ?_, ?_, ?_, ?_⟩
      · intro path' fd' hMem'
        rcases List.mem_append.mp hMem' with hOld | hNew
        · exact hs.opened path' fd' hOld
        · cases List.mem_singleton.mp hNew
      · intro fd'
        rw [closedIn_append, hs.closed fd']
        constructor
        · rintro (⟨k, hk, hEq⟩ | ⟨hEq, -⟩)
          · exact ⟨k, List.mem_cons_of_mem _ hk, hEq⟩
          · cases hEq
            exact ⟨fp.path, List.mem_cons_self, by rw [← hFd, hNumber]⟩
        · rintro ⟨k, hk, hEq⟩
          rcases List.mem_cons.mp hk with hNew | hOld
          · exact Or.inr ⟨by rw [hEq, hNew, ← hFd, hNumber], rfl⟩
          · exact Or.inl ⟨k, hOld, hEq⟩
      · intro k hk
        rcases List.mem_cons.mp hk with hNew | hOld
        · exact hNew ▸ hLt
        · exact hs.bound k hOld
      · -- the condition: the path has not been freed before
        exact List.nodup_cons.mpr ⟨hCond fd fp rfl hFind, hs.once⟩
  | notClosed fd hFind =>
      refine ⟨hNumbered, ?_, ?_, hs.bound, hs.once⟩
      · intro path' fd' hMem
        rcases List.mem_append.mp hMem with hOld | hNew
        · exact hs.opened path' fd' hOld
        · cases List.mem_singleton.mp hNew
      · intro fd'
        rw [closedIn_append, ← hs.closed fd']
        simp

theorem descriptorInv_of_run {disk : Disk} {events : List FileEvent} {s : OpenFiles}
    (h : FileRun NotClosed (OpenFiles.boot disk) events s) : DescriptorInv events s := by
  induction h with
  | nil =>
      refine ⟨numbered_boot disk, ?_, ?_, ?_, List.nodup_nil⟩
      · intro path fd hMem
        cases hMem
      · intro fd
        simp [ClosedIn, OpenFiles.boot]
      · intro k hk
        cases hk
  | snoc fuel junk _ hCond hCall ih => exact ih.step hCond (FileCall.run_effect ih.numbered hCall)

/-- The last event of a history, or an earlier one. -/
theorem event_cases {events before after : List FileEvent} {e e' : FileEvent}
    (h : events ++ [e] = before ++ e' :: after) :
    (before = events ∧ e' = e) ∨ ∃ after', events = before ++ e' :: after' := by
  rcases List.eq_nil_or_concat after with rfl | ⟨after', last, rfl⟩
  · obtain ⟨hBefore, hLast⟩ := List.append_inj' h rfl
    cases hLast
    exact Or.inl ⟨hBefore.symm, rfl⟩
  · have hSplit : events ++ [e] = (before ++ e' :: after') ++ [last] := by
      rw [h, List.concat_eq_append, List.append_assoc, List.cons_append]
    exact Or.inr ⟨after', (List.append_inj' hSplit rfl).1⟩

/-- A call about a descriptor that has been opened finds its record. -/
theorem DescriptorInv.findFile {events : List FileEvent} {s : OpenFiles} (hs : DescriptorInv events s)
    {path : Str} {fd : Int} (hMem : (FileCall.open path, fd) ∈ events) (hFd : 0 ≤ fd) :
    ∃ fp, fat32FindFile s.files fd = some fp ∧ (fp.path : Int) = fd := by
  have hLt := hs.opened path fd hMem
  obtain ⟨fp, hFind, hPath⟩ := hs.numbered.findFile_isSome (show fd.toNat < s.fdCount by omega)
  rw [Int.toNat_of_nonneg hFd] at hFind
  exact ⟨fp, hFind, by omega⟩

/-- An empty file `A`. -/
def sampleFile : List (BitVec 8) := 0x41#8 :: List.replicate 10 spaceByte ++ [attrArchive]

/-- The sample volume with the file in its root directory. -/
def fileVolume : Disk := putBytes sampleVolume 1056 sampleFile

/-- The file is opened with the descriptor 0. -/
theorem fileVolume_open : ∃ s fp, fat32Open 3 sampleJunk (OpenFiles.boot fileVolume) [slash, 0x41#8] =
    some (0, s) ∧ s.freed = [] ∧ fat32FindFile s.files 0 = some fp ∧ fp.path = 0 := by
  have hRun : (fat32Open 3 sampleJunk (OpenFiles.boot fileVolume) [slash, 0x41#8]).map
      (fun r => (r.1, r.2.freed, (fat32FindFile r.2.files 0).map (·.path))) =
      some (0, [], some 0) := by
    decide +kernel
  obtain ⟨⟨ret, s⟩, hOpen, hEq⟩ := Option.map_eq_some_iff.mp hRun
  rw [Prod.mk.injEq, Prod.mk.injEq] at hEq
  obtain ⟨rfl, hFreed, hFind⟩ := hEq
  obtain ⟨fp, hFound, hPath⟩ := Option.map_eq_some_iff.mp hFind
  exact ⟨s, fp, hOpen, hFreed, hFound, hPath⟩

end Rayos
