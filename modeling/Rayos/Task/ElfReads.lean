import Mathlib.Data.List.TakeWhile
import Rayos.Task.ElfLoad

/-!
# What the loader reads

`run_process` looks at the class byte of the buffer, and `make_elf64_task` at the file header, at the program
headers, one after the other until a segment lies in the kernel's half, and at the bytes of the segments that
it copies.  No offset is compared with the size of the file.

* `elfReads` — the ranges of the buffer that are read, as pairs of an offset and a length;
* `makeElf64Task_reads` — nothing else has any influence on the run;
* `makeElf64Task_last` — with a `PT_LOAD` header the two variables that are not initialised have none either;
* `makeElf64Task_rejected` — an image with a segment in the kernel's half, after segments that can be loaded.
-/

namespace Rayos

open RadixTable Program

/-! ## Ranges of the buffer -/

/-- The offset of program header `i`. -/
def phdrOff (elf : ElfImage) (i : Nat) : Nat := (ePhoff elf).toNat + i * sizeofElf64Phdr

/-- What the first loop reads for these headers: `p_type`; of a `PT_LOAD` header also `p_vaddr`; and if that is
below `KERNEL_BASE` also `p_memsz`, `p_offset`, `p_filesz` and the bytes of the file. -/
def loadReads (elf : ElfImage) : List Nat → List (Nat × Nat)
  | [] => []
  | i :: rest =>
      if (elfPhdr elf i).pType = ptLoad then
        if kernelBase ≤ (elfPhdr elf i).pVaddr then [(phdrOff elf i, 4), (phdrOff elf i + 16, 8)]
        else (phdrOff elf i, 4) :: (phdrOff elf i + 16, 8) :: (phdrOff elf i + 40, 8) ::
          (phdrOff elf i + 8, 8) :: (phdrOff elf i + 32, 8) ::
          ((elfPhdr elf i).pOffset.toNat, (elfPhdr elf i).pFilesz.toNat) :: loadReads elf rest
      else (phdrOff elf i, 4) :: loadReads elf rest

/-- Some segment lies in the kernel's half. -/
def Rejects (elf : ElfImage) : Prop := ∃ p ∈ loadPhdrs elf, kernelBase ≤ p.pVaddr

instance (elf : ElfImage) : Decidable (Rejects elf) := inferInstanceAs (Decidable (∃ p ∈ loadPhdrs elf, _))

/-- What `make_elf64_task` reads: `e_phoff`, `e_phnum`, the headers and the segments; after the first loop
`p_vaddr` of the first header and `e_entry`.  The last loop reads what the first one has read. -/
def elf64Reads (elf : ElfImage) : List (Nat × Nat) :=
  (32, 8) :: (56, 2) :: (loadReads elf (List.range (ePhnum elf)) ++
    if Rejects elf then [] else [(phdrOff elf 0 + 16, 8), (24, 8)])

/-- The two images have the same bytes in the ranges. -/
def AgreeOn (reads : List (Nat × Nat)) (elf elf' : ElfImage) : Prop :=
  ∀ r ∈ reads, ∀ j, j < r.2 → elf' (r.1 + j) = elf (r.1 + j)

variable {elf elf' : ElfImage}

theorem AgreeOn.append {reads reads' : List (Nat × Nat)} (h : AgreeOn (reads ++ reads') elf elf') :
    AgreeOn reads elf elf' ∧ AgreeOn reads' elf elf' :=
  ⟨fun r hr => h r (List.mem_append_left _ hr), fun r hr => h r (List.mem_append_right _ hr)⟩

theorem AgreeOn.tail {r : Nat × Nat} {reads : List (Nat × Nat)} (h : AgreeOn (r :: reads) elf elf') :
    AgreeOn reads elf elf' :=
  fun q hq => h q (List.mem_cons_of_mem _ hq)

/-- A number in one of the ranges. -/
theorem elfNat_congr (len : Nat) : ∀ {off : Nat}, (∀ j, j < len → elf' (off + j) = elf (off + j)) →
    elfNat elf' off len = elfNat elf off len := by
  induction len with
  | zero => exact fun _ => rfl
  | succ len ih =>
      intro off h
      have hRest : elfNat elf' (off + 1) len = elfNat elf (off + 1) len := by
        apply ih
        intro j hj
        rw [show off + 1 + j = off + (j + 1) by omega]
        exact h (j + 1) (by omega)
      unfold elfNat
      rw [hRest, show elf' off = elf off from h 0 (by omega)]

theorem AgreeOn.nat {off len : Nat} {reads : List (Nat × Nat)} (h : AgreeOn reads elf elf')
    (hMem : (off, len) ∈ reads) : elfNat elf' off len = elfNat elf off len :=
  elfNat_congr len fun j hj => h _ hMem j hj

theorem AgreeOn.u64 {off : Nat} {reads : List (Nat × Nat)} (h : AgreeOn reads elf elf')
    (hMem : (off, 8) ∈ reads) : elfU64 elf' off = elfU64 elf off := by
  unfold elfU64
  rw [h.nat hMem]

/-! ## The first loop -/

theorem forUpto_congr {ε σ : Type} (n : Nat) {body body' : Nat → EStateM ε σ Unit}
    (h : ∀ i, i < n → body' i = body i) : forUpto n body' = forUpto n body := by
  induction n with
  | zero => rfl
  | succ n ih => rw [forUpto_succ, forUpto_succ, ih fun i hi => h i (by omega), h n (by omega)]

/-- A header of a segment that is copied. -/
theorem loadSegment_congr {phdr : Elf64Phdr} (task : UserTask)
    (h : ∀ j, j < phdr.pFilesz.toNat → elf' (phdr.pOffset.toNat + j) = elf (phdr.pOffset.toNat + j)) :
    loadSegment elf' phdr task = loadSegment elf phdr task := by
  have hCopy : memcpy phdr.pVaddr (fun i => elf' (phdr.pOffset.toNat + i)) phdr.pFilesz =
      memcpy phdr.pVaddr (fun i => elf (phdr.pOffset.toNat + i)) phdr.pFilesz := by
    unfold memcpy
    apply forUpto_congr
    intro i hi
    show store8 _ (elf' (phdr.pOffset.toNat + i)) = store8 _ (elf (phdr.pOffset.toNat + i))
    rw [h i hi]
  rw [loadSegment_eq, loadSegment_eq, hCopy]

/-- The first loop over the headers with these numbers. -/
theorem loadSegments_congr (hPhoff : ePhoff elf' = ePhoff elf) (is : List Nat) :
    ∀ (lastVaddr lastMemsz : U64) (task : UserTask), AgreeOn (loadReads elf is) elf elf' →
      loadSegments elf' (is.map (elfPhdr elf')) lastVaddr lastMemsz task =
        loadSegments elf (is.map (elfPhdr elf)) lastVaddr lastMemsz task := by
  have hOff : ∀ i, (ePhoff elf').toNat + i * sizeofElf64Phdr = phdrOff elf i := by
    intro i
    rw [hPhoff]
    rfl
  induction is with
  | nil => exact fun _ _ _ _ => rfl
  | cons i rest ih =>
      intro lastVaddr lastMemsz task h
      rw [List.map_cons, List.map_cons]
      unfold loadSegments
      unfold loadReads at h
      by_cases hType : (elfPhdr elf i).pType = ptLoad
      · rw [if_pos hType] at h
        by_cases hKernel : kernelBase ≤ (elfPhdr elf i).pVaddr
        · rw [if_pos hKernel] at h
          have hType' : (elfPhdr elf' i).pType = (elfPhdr elf i).pType := by
            show elfNat elf' _ 4 = elfNat elf _ 4
            rw [hOff]
            exact h.nat (by simp)
          have hVaddr' : (elfPhdr elf' i).pVaddr = (elfPhdr elf i).pVaddr := by
            show elfU64 elf' _ = elfU64 elf _
            rw [hOff]
            exact h.u64 (by simp)
          rw [if_pos hType, if_pos hKernel, hType', if_pos hType, hVaddr', if_pos hKernel]
        · rw [if_neg hKernel] at h
          have hPhdr : elfPhdr elf' i = elfPhdr elf i := by
            unfold elfPhdr
            rw [hOff]
            simp only [Elf64Phdr.mk.injEq]
            exact ⟨h.nat (by simp), h.u64 (by simp), h.u64 (by simp), h.u64 (by simp), h.u64 (by simp)⟩
          have hBytes := h ((elfPhdr elf i).pOffset.toNat, (elfPhdr elf i).pFilesz.toNat) (by simp)
          rw [hPhdr, if_pos hType, if_pos hType, if_neg hKernel, if_neg hKernel,
            loadSegment_congr task hBytes]
          have hRest : ∀ t, loadSegments elf' (rest.map (elfPhdr elf')) (elfPhdr elf i).pVaddr
              (elfPhdr elf i).pMemsz t = loadSegments elf (rest.map (elfPhdr elf)) (elfPhdr elf i).pVaddr
              (elfPhdr elf i).pMemsz t := fun t => ih _ _ t h.tail.tail.tail.tail.tail.tail
          simp only [hRest]
      · rw [if_neg hType] at h
        have hType' : (elfPhdr elf' i).pType = (elfPhdr elf i).pType := by
          show elfNat elf' _ 4 = elfNat elf _ 4
          rw [hOff]
          exact h.nat (by simp)
        rw [if_neg hType, hType', if_neg hType]
        exact ih _ _ _ h.tail

/-- With a segment in the kernel's half the first loop does not come to its end. -/
theorem loadSegments_error {phdrs : List Elf64Phdr} {lastVaddr lastMemsz : U64} {task : UserTask} {s s' : Machine}
    {r : Except UserTask (U64 × U64 × UserTask)}
    (hKernel : ∃ p ∈ phdrs.filter (fun p => p.pType = ptLoad), kernelBase ≤ p.pVaddr)
    (hRun : loadSegments elf phdrs lastVaddr lastMemsz task s = .ok r s') : ∃ t, r = .error t := by
  induction phdrs generalizing lastVaddr lastMemsz task s with
  | nil =>
      obtain ⟨p, hp, -⟩ := hKernel
      cases hp
  | cons phdr rest ih =>
      unfold loadSegments at hRun
      by_cases hType : phdr.pType = ptLoad
      · rw [if_pos hType] at hRun
        by_cases hHigh : kernelBase ≤ phdr.pVaddr
        · rw [if_pos hHigh] at hRun
          cases hRun
          exact ⟨task, rfl⟩
        · rw [if_neg hHigh] at hRun
          obtain ⟨t, s1, -, hRest⟩ := bind_eq_ok.mp hRun
          obtain ⟨p, hp, hBase⟩ := hKernel
          rw [List.filter_cons_of_pos (by simpa using hType), List.mem_cons] at hp
          rcases hp with rfl | hp
          · exact absurd hBase hHigh
          · exact ih ⟨p, hp, hBase⟩ hRest
      · rw [if_neg hType] at hRun
        rw [List.filter_cons_of_neg (by simpa using hType)] at hKernel
        exact ih hKernel hRun

/-! ## The rest of the call -/

/-- Without a segment in the kernel's half every header is read. -/
theorem mem_loadReads {is : List Nat} {i : Nat}
    (hLow : ∀ j ∈ is, (elfPhdr elf j).pType = ptLoad → ¬ kernelBase ≤ (elfPhdr elf j).pVaddr) (hi : i ∈ is) :
    (phdrOff elf i, 4) ∈ loadReads elf is ∧ ((elfPhdr elf i).pType = ptLoad →
      (phdrOff elf i + 16, 8) ∈ loadReads elf is ∧ (phdrOff elf i + 40, 8) ∈ loadReads elf is ∧
      (phdrOff elf i + 8, 8) ∈ loadReads elf is ∧ (phdrOff elf i + 32, 8) ∈ loadReads elf is) := by
  induction is with
  | nil => cases hi
  | cons j rest ih =>
      unfold loadReads
      by_cases hType : (elfPhdr elf j).pType = ptLoad
      · rw [if_pos hType, if_neg (hLow j List.mem_cons_self hType)]
        rcases List.mem_cons.mp hi with rfl | hi
        · simp
        · obtain ⟨hFirst, hOthers⟩ := ih (fun k hk => hLow k (List.mem_cons_of_mem _ hk)) hi
          refine ⟨by simp [hFirst], fun hLoad => ?_⟩
          obtain ⟨h1, h2, h3, h4⟩ := hOthers hLoad
          simp [h1, h2, h3, h4]
      · rw [if_neg hType]
        rcases List.mem_cons.mp hi with rfl | hi
        · exact ⟨List.mem_cons_self, fun hLoad => absurd hLoad hType⟩
        · obtain ⟨hFirst, hOthers⟩ := ih (fun k hk => hLow k (List.mem_cons_of_mem _ hk)) hi
          refine ⟨List.mem_cons_of_mem _ hFirst, fun hLoad => ?_⟩
          obtain ⟨h1, h2, h3, h4⟩ := hOthers hLoad
          exact ⟨List.mem_cons_of_mem _ h1, List.mem_cons_of_mem _ h2, List.mem_cons_of_mem _ h3,
            List.mem_cons_of_mem _ h4⟩

/-- The last loop over the headers with these numbers. -/
theorem unmapSegments_congr {is : List Nat}
    (h : ∀ i ∈ is, (elfPhdr elf' i).pType = (elfPhdr elf i).pType ∧
      ((elfPhdr elf i).pType = ptLoad → (elfPhdr elf' i).pVaddr = (elfPhdr elf i).pVaddr ∧
        (elfPhdr elf' i).pMemsz = (elfPhdr elf i).pMemsz)) :
    unmapSegments (is.map (elfPhdr elf')) = unmapSegments (is.map (elfPhdr elf)) := by
  induction is with
  | nil => rfl
  | cons i rest ih =>
      have hRest := ih fun j hj => h j (List.mem_cons_of_mem _ hj)
      obtain ⟨hType', hSame⟩ := h i List.mem_cons_self
      rw [List.map_cons, List.map_cons]
      unfold unmapSegments
      by_cases hType : (elfPhdr elf i).pType = ptLoad
      · obtain ⟨hVaddr, hMemsz⟩ := hSame hType
        have hLen : segmentLen (elfPhdr elf' i) = segmentLen (elfPhdr elf i) := by
          unfold segmentLen
          rw [hMemsz]
        rw [if_pos hType, hType', if_pos hType, hVaddr, hLen, hRest]
      · rw [if_neg hType, hType', if_neg hType, hRest]

/-- **What the run depends on**: with the same bytes in the ranges of `elf64Reads`, `make_elf64_task` is the
same. -/
theorem makeElf64Task_reads (h : AgreeOn (elf64Reads elf) elf elf') (task : UserTask)
    (pathname : List (BitVec 8)) (switchToUser lastVaddr lastMemsz : U64) :
    makeElf64Task elf' task pathname switchToUser lastVaddr lastMemsz =
      makeElf64Task elf task pathname switchToUser lastVaddr lastMemsz := by
  have hPhoff : ePhoff elf' = ePhoff elf := h.u64 (by simp [elf64Reads])
  have hPhnum : ePhnum elf' = ePhnum elf := h.nat (by simp [elf64Reads])
  obtain ⟨hLoads, hAfter⟩ := AgreeOn.append h.tail.tail
  have hLoop : loadSegments elf' (elfPhdrs elf') lastVaddr lastMemsz task =
      loadSegments elf (elfPhdrs elf) lastVaddr lastMemsz task := by
    unfold elfPhdrs
    rw [hPhnum]
    exact loadSegments_congr hPhoff _ _ _ _ hLoads
  rw [makeElf64Task_eq, makeElf64Task_eq, hLoop]
  by_cases hReject : Rejects elf
  · -- the loop ends at the segment in the kernel's half
    funext s
    cases hRun : loadSegments elf (elfPhdrs elf) lastVaddr lastMemsz task s with
    | error e s1 => rw [bind_error hRun, bind_error hRun]
    | ok r s1 =>
        obtain ⟨t, rfl⟩ := loadSegments_error hReject hRun
        rw [bind_ok hRun, bind_ok hRun]
  · rw [if_neg hReject] at hAfter
    have hLow : ∀ j ∈ List.range (ePhnum elf), (elfPhdr elf j).pType = ptLoad →
        ¬ kernelBase ≤ (elfPhdr elf j).pVaddr := by
      intro j hj hType hKernel
      refine hReject ⟨elfPhdr elf j, ?_, hKernel⟩
      simp only [loadPhdrs, elfPhdrs, List.mem_filter, decide_eq_true_eq]
      exact ⟨List.mem_map.mpr ⟨j, hj, rfl⟩, hType⟩
    have hOff : ∀ i, (ePhoff elf').toNat + i * sizeofElf64Phdr = phdrOff elf i := by
      intro i
      rw [hPhoff]
      rfl
    have hUnmap : unmapSegments (elfPhdrs elf') = unmapSegments (elfPhdrs elf) := by
      unfold elfPhdrs
      rw [hPhnum]
      apply unmapSegments_congr
      intro i hi
      obtain ⟨hFirst, hOthers⟩ := mem_loadReads hLow hi
      refine ⟨?_, fun hType => ⟨?_, ?_⟩⟩
      · show elfNat elf' _ 4 = elfNat elf _ 4
        rw [hOff]
        exact hLoads.nat hFirst
      · show elfU64 elf' _ = elfU64 elf _
        rw [hOff]
        exact hLoads.u64 (hOthers hType).1
      · show elfU64 elf' _ = elfU64 elf _
        rw [hOff]
        exact hLoads.u64 (hOthers hType).2.1
    have hStart : (elfPhdr elf' 0).pVaddr = (elfPhdr elf 0).pVaddr := by
      show elfU64 elf' _ = elfU64 elf _
      rw [hOff]
      exact hAfter.u64 (by simp)
    have hEntry : eEntry elf' = eEntry elf := hAfter.u64 (by simp)
    have hCreate : ∀ stackDown t, createLoaded elf' pathname switchToUser stackDown t =
        createLoaded elf pathname switchToUser stackDown t := by
      intro stackDown t
      unfold createLoaded
      rw [hStart, hEntry, hUnmap]
    simp only [hCreate]

/-- With a `PT_LOAD` header the values that the two variables happen to have do not matter. -/
theorem loadSegments_init {phdrs : List Elf64Phdr} (hNe : phdrs.filter (fun p => p.pType = ptLoad) ≠ [])
    (lastVaddr lastMemsz lastVaddr' lastMemsz' : U64) (task : UserTask) :
    loadSegments elf phdrs lastVaddr' lastMemsz' task = loadSegments elf phdrs lastVaddr lastMemsz task := by
  induction phdrs with
  | nil => exact absurd rfl hNe
  | cons phdr rest ih =>
      unfold loadSegments
      by_cases hType : phdr.pType = ptLoad
      · rw [if_pos hType, if_pos hType]
      · rw [if_neg hType, if_neg hType]
        rw [List.filter_cons_of_neg (by simpa using hType)] at hNe
        exact ih hNe

theorem makeElf64Task_last (hNe : loadPhdrs elf ≠ []) (task : UserTask) (pathname : List (BitVec 8))
    (switchToUser lastVaddr lastMemsz lastVaddr' lastMemsz' : U64) :
    makeElf64Task elf task pathname switchToUser lastVaddr' lastMemsz' =
      makeElf64Task elf task pathname switchToUser lastVaddr lastMemsz := by
  have hLoop : loadSegments elf (elfPhdrs elf) lastVaddr' lastMemsz' task =
      loadSegments elf (elfPhdrs elf) lastVaddr lastMemsz task := loadSegments_init hNe _ _ _ _ task
  rw [makeElf64Task_eq, makeElf64Task_eq, hLoop]

/-! ## Images that are rejected -/

/-- The headers before the first segment in the kernel's half. -/
def beforeKernel (elf : ElfImage) : List Elf64Phdr :=
  (elfPhdrs elf).takeWhile fun p => ¬ (p.pType = ptLoad ∧ kernelBase ≤ p.pVaddr)

/-- The segments before it. -/
def loadsBefore (elf : ElfImage) : List Elf64Phdr := (beforeKernel elf).filter fun p => p.pType = ptLoad

/-- The segments before the first one in the kernel's half can be mapped: they are page aligned, apart, on free
pages of the lower half, and the heap has a `vmap_area` for each record. -/
structure RejectedPlaced (elf : ElfImage) (s : Machine) : Prop where
  lower : ∀ p ∈ loadsBefore elf, LowerSegment p
  apart : (loadsBefore elf).Pairwise SegmentsApart
  free : ∀ p ∈ loadsBefore elf, ∀ w, p.Covers w → s.page w = none
  pool : (loadsBefore elf).length ≤ s.vmapAreaPool.freeList.length

theorem loadSegments_cons (phdr : Elf64Phdr) (rest : List Elf64Phdr) (lastVaddr lastMemsz : U64)
    (task : UserTask) :
    loadSegments elf (phdr :: rest) lastVaddr lastMemsz task =
      if phdr.pType = ptLoad then
        if kernelBase ≤ phdr.pVaddr then pure (.error task)
        else loadSegment elf phdr task >>= fun task => loadSegments elf rest phdr.pVaddr phdr.pMemsz task
      else loadSegments elf rest lastVaddr lastMemsz task := rfl

/-- The first loop over two lists of headers, one after the other. -/
theorem loadSegments_append (phdrs phdrs' : List Elf64Phdr) (lastVaddr lastMemsz : U64) (task : UserTask) :
    loadSegments elf (phdrs ++ phdrs') lastVaddr lastMemsz task = (do
      match ← loadSegments elf phdrs lastVaddr lastMemsz task with
      | .error task => pure (.error task)
      | .ok (lastVaddr, lastMemsz, task) => loadSegments elf phdrs' lastVaddr lastMemsz task) := by
  induction phdrs generalizing lastVaddr lastMemsz task with
  | nil => rfl
  | cons phdr rest ih =>
      rw [List.cons_append, loadSegments_cons, loadSegments_cons]
      by_cases hType : phdr.pType = ptLoad
      · rw [if_pos hType, if_pos hType]
        by_cases hKernel : kernelBase ≤ phdr.pVaddr
        · rw [if_pos hKernel, if_pos hKernel]
          rfl
        · rw [if_neg hKernel, if_neg hKernel]
          simp only [ih, bind_assoc]
      · rw [if_neg hType, if_neg hType]
        exact ih _ _ _

/-- An image with a segment in the kernel's half is rejected, if the segments before it can be loaded; the lock of
the heap is free then. -/
theorem makeElf64Task_rejected {n a : Nat} {mapped others : List Block} {s : Machine}
    (h : KernelReady n mapped others s) (hRam : 512 ≤ n) (hReject : Rejects elf) (hPlaced : RejectedPlaced elf s)
    (hRoom : Room n a s) (hCost : a + segmentsCost (beforeKernel elf) ≤ n)
    (pathname : List (BitVec 8)) (switchToUser lastVaddr lastMemsz : U64) :
    ∃ task' s', makeElf64Task elf UserTask.zeroed pathname switchToUser lastVaddr lastMemsz s =
      .ok (-1, task') s' ∧ s'.mmSpinlock = false := by
  have hInit : Loaded elf n mapped others [] UserTask.zeroed s s :=
    ⟨⟨⟨[], h.kmem, by simp [NodesIn, UserTask.zeroed]⟩, h.unlocked, FreeKept.refl s⟩, .nil,
      fun _ _ _ => rfl⟩
  obtain ⟨last, task1, s1, hRun, hLast, hLoaded, hLeft⟩ := loadSegments_ok hRam (beforeKernel elf)
    lastVaddr lastMemsz hInit hPlaced.lower hPlaced.apart hPlaced.free hPlaced.pool
    ((loadSegments_costs elf (beforeKernel elf) lastVaddr lastMemsz UserTask.zeroed).noFail hRoom hCost)
  -- the header at which the loop ends
  obtain ⟨bad, rest, hSplit, hType, hKernel⟩ : ∃ bad rest, elfPhdrs elf = beforeKernel elf ++ bad :: rest ∧
      bad.pType = ptLoad ∧ kernelBase ≤ bad.pVaddr := by
    have hAll := List.takeWhile_append_dropWhile (l := elfPhdrs elf)
      (p := fun p => ¬ (p.pType = ptLoad ∧ kernelBase ≤ p.pVaddr))
    cases hDrop : (elfPhdrs elf).dropWhile fun p => ¬ (p.pType = ptLoad ∧ kernelBase ≤ p.pVaddr) with
    | nil =>
        obtain ⟨p, hp, hHigh⟩ := hReject
        obtain ⟨hMem, hLoad⟩ := List.mem_filter.mp hp
        have hNot := List.dropWhile_eq_nil_iff.mp hDrop p hMem
        simp only [decide_eq_true_eq] at hNot hLoad
        exact absurd ⟨hLoad, hHigh⟩ hNot
    | cons bad rest =>
        have hHead := List.head_dropWhile_not (fun p : Elf64Phdr => decide ¬ (p.pType = ptLoad ∧
          kernelBase ≤ p.pVaddr)) (by rw [hDrop]; exact List.cons_ne_nil _ _)
        simp only [hDrop, List.head_cons, decide_eq_false_iff_not, not_not] at hHead
        rw [hDrop] at hAll
        exact ⟨bad, rest, hAll.symm, hHead.1, hHead.2⟩
  refine ⟨task1, s1, ?_, hLoaded.unlocked⟩
  rw [makeElf64Task_eq, hSplit, loadSegments_append]
  have hEnd : loadSegments elf (bad :: rest) last.1 last.2 task1 s1 = .ok (.error task1) s1 := by
    unfold loadSegments
    rw [if_pos hType, if_pos hKernel]
    rfl
  simp only [bind_assoc]
  rw [bind_ok hRun]
  simp only
  rw [bind_ok hEnd]
  rfl

end Rayos
