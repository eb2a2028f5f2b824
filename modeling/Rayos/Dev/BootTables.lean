import Rayos.Dev.Madt
import Rayos.Mem.Multiboot

/-!
# The boot tables (`acpi.c`, `multiboot2.c`)

Every walker over a table of the firmware moves on by a length that it reads from the table.

* `bootWalkers_end_iff` — the searches of the MADT always end, because they stop at a length below 2;
  `acpi_madt_smp_counter` and `parse_multiboot2_mmap` end exactly when they come to no length that does not
  move them on.
* `parseMultiboot2Mmap_sum` — in well-formed boot information `parse_multiboot2_mmap` adds up the available
  memory, and reads nothing outside.
-/

namespace Rayos

open LittleEndian

/-! ## The walkers as scans -/

/-- The loop of `acpi_madt_smp_counter`. -/
def smpNext (madt : Madt) (ptr : Nat) : Option Nat :=
  if ptr < smpCounterEnd madt then some (ptr + entryLength madt ptr) else none

/-- The loop of the two searches. -/
def findNext {α : Type} (madt : Madt) (found : Nat → Option α) (ptr : Nat) : Option Nat :=
  if ptr < headerLength madt ∧ 2 ≤ entryLength madt ptr ∧ ptr + entryLength madt ptr ≤ headerLength madt ∧
      (found ptr).isNone then
    some (ptr + entryLength madt ptr)
  else none

/-- The outer loop of `parse_multiboot2_mmap`. -/
def tagNext (mbi : Mbi) (ptr : Nat) : Option Nat :=
  if ptr < leNat mbi 0 4 ∧ tagType mbi ptr ≠ 0 then some (ptr + tagAdvance (tagSize mbi ptr)) else none

variable {madt : Madt} {mbi : Mbi}

theorem smpCounterLoop_isSome :
    ∀ (rounds ptr : Nat) (acc : SmpCount),
      (smpCounterLoop madt (smpCounterEnd madt) rounds ptr acc).isSome = Scan.within (smpNext madt) rounds ptr := by
  intro rounds
  induction rounds with
  | zero => exact fun _ _ => rfl
  | succ rounds ih =>
      intro ptr acc
      rw [smpCounterLoop, Scan.within, smpNext]
      split
      · exact ih _ _
      · rfl

theorem walkEntries_isSome {α : Type} {found : Nat → Option α} :
    ∀ (rounds ptr : Nat) (visited : List Nat),
      (walkEntries madt (headerLength madt) found rounds ptr visited).isSome =
        Scan.within (findNext madt found) rounds ptr := by
  intro rounds
  induction rounds with
  | zero => exact fun _ _ => rfl
  | succ rounds ih =>
      intro ptr visited
      rw [walkEntries, Scan.within, findNext]
      by_cases hIn : ptr < headerLength madt
      · rw [if_pos hIn]
        by_cases hBreak : entryLength madt ptr < 2 ∨ headerLength madt < ptr + entryLength madt ptr
        · rw [if_pos hBreak, if_neg (by omega)]
          rfl
        · rw [if_neg hBreak]
          cases hFound : found ptr with
          | some a =>
              rw [if_neg (by simp)]
              rfl
          | none =>
              rw [if_pos ⟨hIn, by omega, by omega, rfl⟩]
              exact ih _ _
      · rw [if_neg hIn, if_neg fun h => hIn h.1]
        rfl

theorem parseTags_isSome :
    ∀ (rounds ptr : Nat) (totalMem : U64),
      (parseTags mbi (leNat mbi 0 4) rounds ptr totalMem).isSome = Scan.within (tagNext mbi) rounds ptr := by
  intro rounds
  induction rounds with
  | zero => exact fun _ _ => rfl
  | succ rounds ih =>
      intro ptr totalMem
      rw [parseTags]
      by_cases hIn : ptr < leNat mbi 0 4
      · rw [if_pos hIn]
        by_cases hEnd : tagType mbi ptr = 0
        · rw [if_pos hEnd, Scan.within_of_none (by rw [tagNext, if_neg fun h => h.2 hEnd])]
          rfl
        · rw [if_neg hEnd, Scan.within_of_some (by rw [tagNext, if_pos ⟨hIn, hEnd⟩])]
          exact ih _ _
      · rw [if_neg hIn, Scan.within_of_none (by rw [tagNext, if_neg fun h => hIn h.1])]
        rfl

theorem smpNext_forward (madt : Madt) : Scan.Forward (smpNext madt) (smpCounterEnd madt) := by
  constructor
  · intro p q h
    unfold smpNext at h
    split at h
    · cases h
      exact Nat.le_add_right _ _
    · cases h
  · intro p q h
    unfold smpNext at h
    split at h
    · assumption
    · cases h

theorem findNext_forward {α : Type} (madt : Madt) (found : Nat → Option α) :
    Scan.Forward (findNext madt found) (headerLength madt) := by
  constructor
  · intro p q h
    unfold findNext at h
    split at h
    · cases h
      exact Nat.le_add_right _ _
    · cases h
  · intro p q h
    unfold findNext at h
    split at h
    · rename_i hGo
      exact hGo.1
    · cases h

theorem tagNext_forward (mbi : Mbi) : Scan.Forward (tagNext mbi) (leNat mbi 0 4) := by
  constructor
  · intro p q h
    unfold tagNext at h
    split at h
    · cases h
      exact Nat.le_add_right _ _
    · cases h
  · intro p q h
    unfold tagNext at h
    split at h
    · rename_i hGo
      exact hGo.1
    · cases h

/-- A search never stays where it is. -/
theorem findNext_moves {α : Type} (madt : Madt) (found : Nat → Option α) (p : Nat) :
    findNext madt found p ≠ some p := by
  unfold findNext
  split
  · rename_i hGo
    rw [ne_eq, Option.some.injEq]
    omega
  · nofun

/-- The inner loop of `parse_multiboot2_mmap` has ended after a round for each byte. -/
theorem sumEntries_ended {entryEnd : Nat} :
    ∀ {rounds more off : Nat} {totalMem : U64}, entryEnd ≤ off + rounds →
      sumEntries mbi entryEnd (rounds + more) off totalMem = sumEntries mbi entryEnd rounds off totalMem := by
  intro rounds
  induction rounds with
  | zero =>
      intro more off totalMem hEnd
      cases more with
      | zero => rfl
      | succ more => rw [Nat.zero_add, sumEntries, sumEntries, if_neg (by omega)]
  | succ rounds ih =>
      intro more off totalMem hEnd
      rw [Nat.succ_add, sumEntries, sumEntries]
      by_cases hIn : off < entryEnd
      · rw [if_pos hIn, if_pos hIn]
        exact ih (by simp only [sizeofMmapEntry]; omega)
      · rw [if_neg hIn, if_neg hIn]

/-! ## Termination -/

/-- The loops of the four walkers end, whatever the variables they add to hold. -/
structure WalkersEnd (madt : Madt) (mbi : Mbi) : Prop where
  counter : ∀ acc, ∃ rounds r, smpCounterLoop madt (smpCounterEnd madt) rounds madtEntries acc = some r
  ioApic : ∃ addr, acpiFindMadtIoapicBase madt = some addr
  gsi : ∀ irq, ∃ gsi, acpiFindGsiForIrq madt irq = some gsi
  tags : ∀ totalMem, ∃ rounds r, parseTags mbi (leNat mbi 0 4) rounds 8 totalMem = some r
  entries : ∀ ptr totalMem more,
    sumEntries mbi (ptr + tagSize mbi ptr) (ptr + tagSize mbi ptr + more) (ptr + 16) totalMem =
      sumEntries mbi (ptr + tagSize mbi ptr) (ptr + tagSize mbi ptr) (ptr + 16) totalMem

theorem walkMadt_returns {α : Type} (madt : Madt) (found : Nat → Option α) : ∃ r, walkMadt madt found = some r := by
  have hWithin : Scan.within (findNext madt found) (headerLength madt + 1) madtEntries = true :=
    Scan.within_of_moves (findNext_forward madt found) (fun q _ => findNext_moves madt found q) (by omega)
      (Nat.succ_pos _)
  rw [← walkEntries_isSome _ _ []] at hWithin
  exact Option.isSome_iff_exists.mp hWithin

theorem tagAdvance_eq_zero_iff {size : Nat} (h : size < 2 ^ 32) :
    tagAdvance size = 0 ↔ size = 0 ∨ 2 ^ 32 - 7 ≤ size := by
  unfold tagAdvance
  omega

/-- A loop that is a scan ends after some number of rounds. -/
theorem loop_ends_iff {α : Type} {go : Nat → Option Nat} {stop p : Nat} (hForward : Scan.Forward go stop)
    {loop : Nat → Option α} (hLoop : ∀ n, (loop n).isSome = Scan.within go n p) :
    (∃ n r, loop n = some r) ↔ ∀ q, Scan.Visits go p q → go q ≠ some q := by
  rw [← Scan.ends_iff hForward]
  refine exists_congr fun n => ?_
  rw [← hLoop n, Option.isSome_iff_exists]

/-- **Termination.**  The four walkers end exactly when `acpi_madt_smp_counter` comes to no entry of length 0
below its end, and `parse_multiboot2_mmap` to no tag whose size is 0 or so large that rounding it up gives 0. -/
theorem bootWalkers_end_iff (madt : Madt) (mbi : Mbi) :
    WalkersEnd madt mbi ↔
      (∀ p, Scan.Visits (smpNext madt) madtEntries p → p < smpCounterEnd madt → entryLength madt p ≠ 0) ∧
      ∀ p, Scan.Visits (tagNext mbi) 8 p → p < leNat mbi 0 4 → tagType mbi p ≠ 0 →
        tagSize mbi p ≠ 0 ∧ tagSize mbi p < 2 ^ 32 - 7 := by
  have hCounter (acc : SmpCount) := loop_ends_iff (smpNext_forward madt)
    (fun n => smpCounterLoop_isSome n madtEntries acc)
  have hTags (totalMem : U64) := loop_ends_iff (tagNext_forward mbi) (fun n => parseTags_isSome n 8 totalMem)
  have hSize (p : Nat) : tagSize mbi p < 2 ^ 32 := leNat_lt mbi 4 (p + 4)
  constructor
  · intro hEnd
    constructor
    · intro p hVisits hIn hZero
      refine (hCounter ⟨fun _ => 0#32, 0, []⟩).mp (hEnd.counter _) p hVisits ?_
      rw [smpNext, if_pos hIn, hZero, Nat.add_zero]
    · intro p hVisits hIn hType
      by_contra hNot
      have hZero := (tagAdvance_eq_zero_iff (hSize p)).mpr (by omega)
      refine (hTags 0#64).mp (hEnd.tags _) p hVisits ?_
      rw [tagNext, if_pos ⟨hIn, hType⟩, hZero, Nat.add_zero]
  · rintro ⟨hEntries, hTagSizes⟩
    constructor
    · refine fun acc => (hCounter acc).mpr fun p hVisits hStuck => ?_
      unfold smpNext at hStuck
      split at hStuck
      · rename_i hIn
        have hZero := hEntries p hVisits hIn
        rw [Option.some.injEq] at hStuck
        omega
      · cases hStuck
    · obtain ⟨r, hRun⟩ := walkMadt_returns madt
        fun ptr => if entryType madt ptr = 1 then some (ioApicAddr madt ptr) else none
      exact ⟨_, by rw [acpiFindMadtIoapicBase, hRun]; rfl⟩
    · intro irq
      obtain ⟨r, hRun⟩ := walkMadt_returns madt
        fun ptr => if entryType madt ptr = 2 ∧ irqSource madt ptr = irq then some (isoGsi madt ptr) else none
      exact ⟨_, by rw [acpiFindGsiForIrq, hRun]; rfl⟩
    · refine fun totalMem => (hTags totalMem).mpr fun p hVisits hStuck => ?_
      unfold tagNext at hStuck
      split at hStuck
      · rename_i hGo
        obtain ⟨hNe, hLt⟩ := hTagSizes p hVisits hGo.1 hGo.2
        have hZero := (tagAdvance_eq_zero_iff (hSize p)).not.mpr (by omega)
        rw [Option.some.injEq] at hStuck
        omega
      · cases hStuck
    · exact fun ptr totalMem more => sumEntries_ended (by omega)

/-- A table without entries, and zeros behind it. -/
def madtEmpty : Madt := fun k => if k = 4 then 44#8 else 0#8

/-- The zeros are an entry of length 0 for the counter, which goes beyond the table. -/
theorem boot_counter_hangs :
    headerLength madtEmpty = 44 ∧
      (∀ rounds acc, smpCounterLoop madtEmpty (smpCounterEnd madtEmpty) rounds madtEntries acc = none) ∧
      ∀ mbi, ¬ WalkersEnd madtEmpty mbi := by
  have hStuck : smpNext madtEmpty madtEntries = some madtEntries := by decide
  have hNone : ∀ rounds acc,
      smpCounterLoop madtEmpty (smpCounterEnd madtEmpty) rounds madtEntries acc = none := by
    intro rounds acc
    rw [← Option.not_isSome_iff_eq_none, smpCounterLoop_isSome, Scan.within_stuck hStuck]
    exact Bool.false_ne_true
  refine ⟨by decide, hNone, fun mbi hEnd => ?_⟩
  obtain ⟨rounds, r, hRun⟩ := hEnd.counter ⟨fun _ => 0#32, 0, []⟩
  rw [hNone] at hRun
  cases hRun

/-! ## The memory map -/

/-- `total_mem`, and the offsets and widths of the reads so far, the last first. -/
structure MmapWalk where
  totalMem : U64
  reads : List (Nat × Nat)

/-- A read of `width` bytes at `off`. -/
def MmapWalk.read (w : MmapWalk) (off width : Nat) : MmapWalk := { w with reads := (off, width) :: w.reads }

/-- `total_mem += len`. -/
def MmapWalk.add (w : MmapWalk) (len : U64) : MmapWalk := { w with totalMem := w.totalMem + len }

/-- Every read so far lies inside the first `stop` bytes. -/
def MmapWalk.Inside (w : MmapWalk) (stop : Nat) : Prop := ∀ r ∈ w.reads, r.1 + r.2 ≤ stop

/-- The loop over the entries with its reads: `e->type`, and `e->len` of available memory. -/
def sumEntriesReads (mbi : Mbi) (entryEnd : Nat) : Nat → Nat → MmapWalk → MmapWalk
  | 0, _, w => w
  | rounds + 1, entryPtr, w =>
      if entryPtr < entryEnd then
        let e := mmapEntry mbi entryPtr
        sumEntriesReads mbi entryEnd rounds (entryPtr + sizeofMmapEntry)
          (if e.type = 1 then ((w.read (entryPtr + 16) 4).read (entryPtr + 8) 8).add e.len
          else w.read (entryPtr + 16) 4)
      else w

/-- The loop over the tags with its reads: `tag->type` and `tag->size`. -/
def parseTagsReads (mbi : Mbi) (stop : Nat) : Nat → Nat → MmapWalk → Option MmapWalk
  | 0, _, _ => none
  | rounds + 1, ptr, w =>
      if ptr < stop then
        if tagType mbi ptr = 0 then some (w.read ptr 4)
        else
          let w :=
            if tagType mbi ptr = multiboot2TagMmap then
              sumEntriesReads mbi (ptr + tagSize mbi ptr) (ptr + tagSize mbi ptr) (ptr + 16)
                ((w.read ptr 4).read (ptr + 4) 4)
            else w.read ptr 4
          parseTagsReads mbi stop rounds (ptr + tagAdvance (tagSize mbi ptr)) (w.read (ptr + 4) 4)
      else some w

/-- `parse_multiboot2_mmap` with its reads; the first is the one of the size. -/
def parseMultiboot2MmapReads (mbi : Mbi) (totalMem : U64) : Option MmapWalk :=
  parseTagsReads mbi (leNat mbi 0 4) (2 ^ 32) 8 ⟨totalMem, [(0, 4)]⟩

theorem sumEntriesReads_totalMem {entryEnd : Nat} :
    ∀ (rounds off : Nat) (w : MmapWalk),
      (sumEntriesReads mbi entryEnd rounds off w).totalMem = sumEntries mbi entryEnd rounds off w.totalMem := by
  intro rounds
  induction rounds with
  | zero => exact fun _ _ => rfl
  | succ rounds ih =>
      intro off w
      rw [sumEntriesReads, sumEntries]
      split
      · rw [ih]
        by_cases hType : (mmapEntry mbi off).type = 1
        · simp only [if_pos hType]
          rfl
        · simp only [if_neg hType]
          rfl
      · rfl

/-- Without the reads it is the parser. -/
theorem parseTagsReads_totalMem {stop : Nat} :
    ∀ (rounds ptr : Nat) (w : MmapWalk),
      (parseTagsReads mbi stop rounds ptr w).map (·.totalMem) = parseTags mbi stop rounds ptr w.totalMem := by
  intro rounds
  induction rounds with
  | zero => exact fun _ _ => rfl
  | succ rounds ih =>
      intro ptr w
      rw [parseTagsReads, parseTags]
      by_cases hIn : ptr < stop
      · rw [if_pos hIn, if_pos hIn]
        by_cases hEnd : tagType mbi ptr = 0
        · rw [if_pos hEnd, if_pos hEnd]
          rfl
        · rw [if_neg hEnd, if_neg hEnd, ih]
          by_cases hMmap : tagType mbi ptr = multiboot2TagMmap
          · rw [if_pos hMmap, if_pos hMmap]
            exact congrArg _ (sumEntriesReads_totalMem _ _ _)
          · rw [if_neg hMmap, if_neg hMmap]
            rfl
      · rw [if_neg hIn, if_neg hIn]
        rfl

theorem MmapWalk.Inside.read {w : MmapWalk} {stop off width : Nat} (h : w.Inside stop)
    (hIn : off + width ≤ stop) : (w.read off width).Inside stop :=
  List.forall_mem_cons.mpr ⟨hIn, h⟩

theorem MmapWalk.Inside.add {w : MmapWalk} {stop : Nat} (h : w.Inside stop) (len : U64) :
    (w.add len).Inside stop := h

/-- The loop over whole entries reads inside them only. -/
theorem sumEntriesReads_inside {stop : Nat} :
    ∀ (n rounds off : Nat) (w : MmapWalk), off + n * sizeofMmapEntry ≤ stop → w.Inside stop →
      (sumEntriesReads mbi (off + n * sizeofMmapEntry) rounds off w).Inside stop := by
  intro n
  induction n with
  | zero =>
      intro rounds off w _ hInside
      cases rounds with
      | zero => exact hInside
      | succ rounds => rwa [sumEntriesReads, if_neg (by omega)]
  | succ n ih =>
      intro rounds off w hStop hInside
      cases rounds with
      | zero => exact hInside
      | succ rounds =>
          have hEnd : off + (n + 1) * sizeofMmapEntry = off + sizeofMmapEntry + n * sizeofMmapEntry := by
            rw [Nat.succ_mul]
            omega
          have hEntry : off + 24 ≤ stop := by
            simp only [sizeofMmapEntry] at hStop
            omega
          have hType : (w.read (off + 16) 4).Inside stop := hInside.read (by omega)
          rw [sumEntriesReads, if_pos (by simp only [sizeofMmapEntry]; omega), hEnd]
          apply ih
          · rwa [← hEnd]
          · split
            · exact (hType.read (by omega)).add _
            · exact hType

/-- The tags from `ptr` on are well formed: each starts at a multiple of 8 behind the one before it, the entries
of a memory-map tag have 24 bytes and fill it, and an end tag lies below `stop`.  `regions` are the entries of the
memory-map tags before the end tag. -/
inductive MbiTags (mbi : Mbi) (stop : Nat) : Nat → List MmapEntry → Prop
  | endTag {ptr : Nat} (inside : ptr + 8 ≤ stop) (type : tagType mbi ptr = 0) : MbiTags mbi stop ptr []
  | other {ptr : Nat} {regions : List MmapEntry} (type : tagType mbi ptr ≠ 0)
      (notMmap : tagType mbi ptr ≠ multiboot2TagMmap) (size : 8 ≤ tagSize mbi ptr)
      (rest : MbiTags mbi stop (ptr + (tagSize mbi ptr + 7) / 8 * 8) regions) : MbiTags mbi stop ptr regions
  | mmap {ptr n : Nat} {regions : List MmapEntry} (type : tagType mbi ptr = multiboot2TagMmap)
      (entrySize : leNat mbi (ptr + 8) 4 = 24) (size : tagSize mbi ptr = 16 + n * 24)
      (rest : MbiTags mbi stop (ptr + (tagSize mbi ptr + 7) / 8 * 8) regions) :
      MbiTags mbi stop ptr (mmapEntries mbi (ptr + 16) n ++ regions)

/-- A well-formed information block: its total size, and tags from offset 8 on. -/
def MbiBlock (mbi : Mbi) (regions : List MmapEntry) : Prop := MbiTags mbi (leNat mbi 0 4) 8 regions

theorem MbiTags.inside {stop ptr : Nat} {regions : List MmapEntry} (h : MbiTags mbi stop ptr regions) :
    ptr + 8 ≤ stop := by
  induction h with
  | endTag inside => exact inside
  | other _ _ _ _ ih => exact le_trans (by omega) ih
  | mmap _ _ _ _ ih => exact le_trans (by omega) ih

/-- Below 4 GiB the rounding in 32 bits is exact. -/
theorem tagAdvance_eq {size : Nat} (h : size + 7 < 2 ^ 32) : tagAdvance size = (size + 7) / 8 * 8 := by
  rw [tagAdvance, Nat.mod_eq_of_lt h]

/-- Such tags are a chain for the parser. -/
theorem MbiTags.tagsAt {stop ptr : Nat} {regions : List MmapEntry} (hStop : stop < 2 ^ 32)
    (h : MbiTags mbi stop ptr regions) : TagsAt mbi stop ptr regions := by
  induction h with
  | endTag inside type => exact .endTag inside type
  | @other ptr regions type notMmap size rest ih =>
      have hBelow := rest.inside
      refine .other type notMmap size (by omega) ?_
      rwa [tagAdvance_eq (by omega)]
  | @mmap ptr n regions type entrySize size rest ih =>
      have hBelow := rest.inside
      refine .mmap type entrySize size (by omega) ?_
      rwa [tagAdvance_eq (by omega)]

/-- The walk over well-formed tags reads below their end only. -/
theorem parseTagsReads_inside {stop ptr : Nat} {regions : List MmapEntry} (hStop : stop < 2 ^ 32)
    (hTags : MbiTags mbi stop ptr regions) :
    ∀ (rounds : Nat) (w w' : MmapWalk), w.Inside stop → parseTagsReads mbi stop rounds ptr w = some w' →
      w'.Inside stop := by
  induction hTags with
  | @endTag ptr hIn hType =>
      intro rounds w w' hInside hRun
      cases rounds with
      | zero => cases hRun
      | succ rounds =>
          rw [parseTagsReads, if_pos (by omega), if_pos hType] at hRun
          cases hRun
          exact hInside.read (by omega)
  | @other ptr regions hType hNot hSize hRest ih =>
      intro rounds w w' hInside hRun
      have hBelow := hRest.inside
      cases rounds with
      | zero => cases hRun
      | succ rounds =>
          rw [parseTagsReads, if_pos (by omega), if_neg hType, if_neg hNot, tagAdvance_eq (by omega)] at hRun
          exact ih rounds _ w' ((hInside.read (by omega)).read (by omega)) hRun
  | @mmap ptr n regions hType _ hSize hRest ih =>
      intro rounds w w' hInside hRun
      have hBelow := hRest.inside
      cases rounds with
      | zero => cases hRun
      | succ rounds =>
          rw [parseTagsReads, if_pos (by omega), if_neg (by rw [hType]; decide), if_pos hType,
            tagAdvance_eq (by omega)] at hRun
          have hHead : ((w.read ptr 4).read (ptr + 4) 4).Inside stop :=
            (hInside.read (by omega)).read (by omega)
          -- the entries end where the tag ends
          have hEntries := @sumEntriesReads_inside mbi stop n (ptr + tagSize mbi ptr) (ptr + 16) _
            (by simp only [sizeofMmapEntry]; omega) hHead
          rw [show ptr + 16 + n * sizeofMmapEntry = ptr + tagSize mbi ptr by
            simp only [sizeofMmapEntry]; omega] at hEntries
          exact ih rounds _ w' (hEntries.read (by omega)) hRun

/-- The sum of the lengths of the available regions. -/
def availableBytes (regions : List MmapEntry) : Nat :=
  ((regions.filter fun e => e.type = 1).map fun e => e.len.toNat).sum

theorem availableSum_eq (regions : List MmapEntry) :
    availableSum regions = BitVec.ofNat 64 (availableBytes regions) := by
  induction regions with
  | nil => rfl
  | cons e regions ih =>
      rw [availableSum, ih]
      by_cases hType : e.type = 1
      · simp [availableBytes, hType, BitVec.ofNat_add]
      · simp [availableBytes, hType]

/-- **The memory map.**  In a well-formed block `parse_multiboot2_mmap` adds the lengths of the available regions
to `total_mem`, modulo `2 ^ 64`, and every read lies inside the block. -/
theorem parseMultiboot2Mmap_sum {mbi : Mbi} {regions : List MmapEntry} (hBlock : MbiBlock mbi regions)
    (totalMem : U64) :
    parseMultiboot2Mmap mbi totalMem = some (totalMem + BitVec.ofNat 64 (availableBytes regions)) ∧
      ∃ w, parseMultiboot2MmapReads mbi totalMem = some w ∧
        w.totalMem = totalMem + BitVec.ofNat 64 (availableBytes regions) ∧
        ∀ r ∈ w.reads, r.1 + r.2 ≤ leNat mbi 0 4 := by
  have hStop : leNat mbi 0 4 < 2 ^ 32 := leNat_lt mbi 4 0
  have hSum : parseMultiboot2Mmap mbi totalMem = some (totalMem + BitVec.ofNat 64 (availableBytes regions)) := by
    rw [parseMultiboot2Mmap, parseTags_eq hStop (MbiTags.tagsAt hStop hBlock) _ _ (by omega), availableSum_eq]
  have hErase : (parseMultiboot2MmapReads mbi totalMem).map (·.totalMem) = parseMultiboot2Mmap mbi totalMem :=
    parseTagsReads_totalMem _ _ _
  rw [hSum, Option.map_eq_some_iff] at hErase
  obtain ⟨w, hRun, hTotal⟩ := hErase
  have hFirst : MmapWalk.Inside ⟨totalMem, [(0, 4)]⟩ (leNat mbi 0 4) := by
    have hBelow := MbiTags.inside hBlock
    simp only [MmapWalk.Inside, List.mem_singleton, forall_eq]
    omega
  exact ⟨hSum, w, hRun, hTotal, parseTagsReads_inside hStop hBlock _ _ w hFirst hRun⟩

/-- One piece of 8 megabytes. -/
theorem parseMultiboot2Mmap_sum_onePiece :
    MbiBlock (oneTagMbi onePiece) onePiece ∧
      parseMultiboot2Mmap (oneTagMbi onePiece) 0#64 = some 0x800000#64 := by
  have hBlock : MbiBlock (oneTagMbi onePiece) onePiece :=
    MbiTags.mmap (n := 1) (by decide) (by decide) (by decide) (MbiTags.endTag (by decide) (by decide))
  refine ⟨hBlock, ?_⟩
  rw [(parseMultiboot2Mmap_sum hBlock 0#64).1]
  rfl

end Rayos
