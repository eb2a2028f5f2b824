import Rayos.Lib.LittleEndian
import Rayos.Mem.PageRun

/-!
# The memory map of the boot loader (`multiboot2.c`)

`total_memory_init` walks the tags of the boot information and adds up the lengths of the available
regions of the memory map; the addresses of the regions are dropped.  `page_init` then takes the sum
for the end of memory: its frames are `0 … sum / 4096`, whatever the map says about them.

* `TagsAt` is the format: a chain of tags of 8-byte aligned sizes up to an end tag, whose memory-map
  tags hold the listed regions.  `totalMemoryInit_eq` says what the walk makes of such a chain.
* `OnlyRam` asks that every frame of every block `alloc_pages` can hand out is inside an available
  region; `onlyRam_iff` says for which maps that is so.
-/

namespace Rayos

open LittleEndian

/-- The boot information, from the address in `_mboot_info[0]` on. -/
abbrev Mbi := Nat → BitVec 8

/-- `struct multiboot2_mmap_entry`. -/
structure MmapEntry where
  addr : U64
  len : U64
  type : Nat
  deriving DecidableEq

/-- `sizeof(struct multiboot2_mmap_entry)`. -/
def sizeofMmapEntry : Nat := 24

/-- The entry at offset `off`. -/
def mmapEntry (mbi : Mbi) (off : Nat) : MmapEntry where
  addr := BitVec.ofNat 64 (leNat mbi off 8)
  len := BitVec.ofNat 64 (leNat mbi (off + 8) 8)
  type := leNat mbi (off + 16) 4

/-- `tag->type`. -/
def tagType (mbi : Mbi) (ptr : Nat) : Nat := leNat mbi ptr 4

/-- `tag->size`. -/
def tagSize (mbi : Mbi) (ptr : Nat) : Nat := leNat mbi (ptr + 4) 4

/-- `MULTIBOOT2_TAG_MMAP`. -/
def multiboot2TagMmap : Nat := 6

/-- `(tag->size + 7) & ~7`, in 32 bits. -/
def tagAdvance (size : Nat) : Nat := (size + 7) % 2 ^ 32 / 8 * 8

/-- The loop over the entries of a memory-map tag; every round moves on, so `entryEnd` rounds are
enough. -/
def sumEntries (mbi : Mbi) (entryEnd : Nat) : Nat → Nat → U64 → U64
  | 0, _, totalMem => totalMem
  | rounds + 1, entryPtr, totalMem =>
      if entryPtr < entryEnd then
        let e := mmapEntry mbi entryPtr
        sumEntries mbi entryEnd rounds (entryPtr + sizeofMmapEntry)
          (if e.type = 1 then totalMem + e.len else totalMem)
      else totalMem

/-- The loop over the tags.  A round that does not move on is repeated for ever, and one that does
moves on by at least eight bytes, so a walk that is still going after `2 ^ 32` rounds never ends;
this is the result `none`. -/
def parseTags (mbi : Mbi) (stop : Nat) : Nat → Nat → U64 → Option U64
  | 0, _, _ => none
  | rounds + 1, ptr, totalMem =>
      if ptr < stop then
        if tagType mbi ptr = 0 then some totalMem
        else
          let totalMem :=
            if tagType mbi ptr = multiboot2TagMmap then
              sumEntries mbi (ptr + tagSize mbi ptr) (ptr + tagSize mbi ptr) (ptr + 16) totalMem
            else totalMem
          parseTags mbi stop rounds (ptr + tagAdvance (tagSize mbi ptr)) totalMem
      else some totalMem

/-- `parse_multiboot2_mmap`; the first word is the size of the whole. -/
def parseMultiboot2Mmap (mbi : Mbi) (totalMem : U64) : Option U64 :=
  parseTags mbi (leNat mbi 0 4) (2 ^ 32) 8 totalMem

/-- `total_memory_init`: the value of `total_mem` afterwards, which `get_total_mem` returns. -/
def totalMemoryInit (magic : BitVec 32) (mbi : Mbi) : Option U64 :=
  if magic = 0x36d76289#32 then parseMultiboot2Mmap mbi 0#64 else some 0#64

/-! ## Well-formed maps -/

/-- The `n` entries from offset `off` on. -/
def mmapEntries (mbi : Mbi) (off n : Nat) : List MmapEntry :=
  (List.range n).map fun i => mmapEntry mbi (off + i * sizeofMmapEntry)

/-- The tags from `ptr` on form a chain that ends with an end tag before `stop`, and the entries of
its memory-map tags are `regions`. -/
inductive TagsAt (mbi : Mbi) (stop : Nat) : Nat → List MmapEntry → Prop
  | endTag {ptr : Nat} (inside : ptr + 8 ≤ stop) (type : tagType mbi ptr = 0) : TagsAt mbi stop ptr []
  | other {ptr : Nat} {regions : List MmapEntry} (type : tagType mbi ptr ≠ 0)
      (notMmap : tagType mbi ptr ≠ multiboot2TagMmap) (size : 8 ≤ tagSize mbi ptr)
      (inside : ptr + tagSize mbi ptr + 8 ≤ stop)
      (rest : TagsAt mbi stop (ptr + tagAdvance (tagSize mbi ptr)) regions) :
      TagsAt mbi stop ptr regions
  | mmap {ptr n : Nat} {regions : List MmapEntry} (type : tagType mbi ptr = multiboot2TagMmap)
      (entrySize : leNat mbi (ptr + 8) 4 = sizeofMmapEntry)
      (size : tagSize mbi ptr = 16 + n * sizeofMmapEntry)
      (inside : ptr + tagSize mbi ptr + 8 ≤ stop)
      (rest : TagsAt mbi stop (ptr + tagAdvance (tagSize mbi ptr)) regions) :
      TagsAt mbi stop ptr (mmapEntries mbi (ptr + 16) n ++ regions)

/-- The boot information is well formed and `regions` is its memory map. -/
def MemoryMap (mbi : Mbi) (regions : List MmapEntry) : Prop := TagsAt mbi (leNat mbi 0 4) 8 regions

/-- The sum of the lengths of the available regions, as a `uint64_t`. -/
def availableSum : List MmapEntry → U64
  | [] => 0#64
  | e :: rest => (if e.type = 1 then e.len else 0#64) + availableSum rest

theorem availableSum_append (l l' : List MmapEntry) :
    availableSum (l ++ l') = availableSum l + availableSum l' := by
  induction l with
  | nil => simp [availableSum]
  | cons e l ih => simp [availableSum, ih, BitVec.add_assoc]

theorem mmapEntries_succ (mbi : Mbi) (off n : Nat) :
    mmapEntries mbi off (n + 1) =
      mmapEntry mbi off :: mmapEntries mbi (off + sizeofMmapEntry) n := by
  simp [mmapEntries, List.range_succ_eq_map, Function.comp_def, Nat.add_mul, Nat.add_assoc,
    Nat.add_comm sizeofMmapEntry]

/-- The loop over the entries adds the available ones to the total. -/
theorem sumEntries_eq (mbi : Mbi) :
    ∀ (n rounds off : Nat) (totalMem : U64), n ≤ rounds →
      sumEntries mbi (off + n * sizeofMmapEntry) rounds off totalMem =
        totalMem + availableSum (mmapEntries mbi off n) := by
  intro n
  induction n with
  | zero =>
      intro rounds off totalMem _
      cases rounds <;> simp [sumEntries, mmapEntries, availableSum]
  | succ n ih =>
      intro rounds off totalMem hRounds
      obtain ⟨rounds, rfl⟩ : ∃ r, rounds = r + 1 := ⟨rounds - 1, by omega⟩
      have hEnd : off + (n + 1) * sizeofMmapEntry =
          off + sizeofMmapEntry + n * sizeofMmapEntry := by
        simp only [Nat.add_mul]
        omega
      have hIn : off < off + (n + 1) * sizeofMmapEntry := by
        simp only [sizeofMmapEntry]
        omega
      rw [sumEntries, if_pos hIn, hEnd, ih _ _ _ (by omega), mmapEntries_succ, availableSum]
      split <;> simp [BitVec.add_assoc]

theorem le_tagAdvance {size : Nat} (h : size + 7 < 2 ^ 32) (h8 : 8 ≤ size) :
    8 ≤ tagAdvance size ∧ tagAdvance size ≤ size + 7 := by
  unfold tagAdvance
  omega

/-- The walk over a well-formed chain ends with the sum of its available regions. -/
theorem parseTags_eq {mbi : Mbi} {stop ptr : Nat} {regions : List MmapEntry} (hStop : stop < 2 ^ 32)
    (hTags : TagsAt mbi stop ptr regions) :
    ∀ (rounds : Nat) (totalMem : U64), stop < ptr + rounds →
      parseTags mbi stop rounds ptr totalMem = some (totalMem + availableSum regions) := by
  induction hTags with
  | @endTag ptr hIn hType =>
      intro rounds totalMem hRounds
      obtain ⟨rounds, rfl⟩ : ∃ r, rounds = r + 1 := ⟨rounds - 1, by omega⟩
      rw [parseTags, if_pos (by omega), if_pos hType]
      simp [availableSum]
  | @other ptr regions hType hNot hSize hIn _ ih =>
      intro rounds totalMem hRounds
      obtain ⟨rounds, rfl⟩ : ∃ r, rounds = r + 1 := ⟨rounds - 1, by omega⟩
      have hAdvance := le_tagAdvance (by omega) hSize
      rw [parseTags, if_pos (by omega), if_neg hType, if_neg hNot]
      exact ih rounds totalMem (by omega)
  | @mmap ptr n regions hType _ hSize hIn _ ih =>
      intro rounds totalMem hRounds
      obtain ⟨rounds, rfl⟩ : ∃ r, rounds = r + 1 := ⟨rounds - 1, by omega⟩
      have hAdvance := le_tagAdvance (show tagSize mbi ptr + 7 < 2 ^ 32 by omega) (by omega)
      have hSum := sumEntries_eq mbi n (ptr + tagSize mbi ptr) (ptr + 16) totalMem (by
        simp only [sizeofMmapEntry] at hSize
        omega)
      rw [show ptr + 16 + n * sizeofMmapEntry = ptr + tagSize mbi ptr by omega] at hSum
      rw [parseTags, if_pos (by omega), if_neg (by rw [hType]; decide), if_pos hType, hSum,
        ih rounds _ (by omega), availableSum_append, BitVec.add_assoc]

theorem totalMemoryInit_eq {mbi : Mbi} {regions : List MmapEntry} (hMap : MemoryMap mbi regions) :
    totalMemoryInit 0x36d76289#32 mbi = some (availableSum regions) := by
  have hStop : leNat mbi 0 4 < 2 ^ 32 := leNat_lt mbi 4 0
  rw [totalMemoryInit, if_pos rfl, parseMultiboot2Mmap, parseTags_eq hStop hMap _ _ (by omega)]
  simp

/-! ## The frames that the allocator hands out -/

/-- Frame `k` lies entirely inside an available region. -/
def InAvailable (regions : List MmapEntry) (k : Nat) : Prop :=
  ∃ e ∈ regions, e.type = 1 ∧ e.addr.toNat ≤ k * 4096 ∧
    (k + 1) * 4096 ≤ e.addr.toNat + e.len.toNat

/-- The image, which is linked at one megabyte, lies inside an available region. -/
def KernelInside (image : KernelImage) (regions : List MmapEntry) : Prop :=
  ∃ e ∈ regions, e.type = 1 ∧ e.addr.toNat ≤ 0x100000 ∧
    image.kernelPhysEndAligned.toNat ≤ e.addr.toNat + e.len.toNat

/-- One allocation that returns. -/
def AllocNext (s s' : PageState) : Prop :=
  ∃ order : U64, 2 ^ order.toNat ≤ s.bitmap.size.toNat ∧ pageStep s (.allocPages order) = some s'

/-- The states that sequences of allocations reach. -/
abbrev AllocReachable : PageState → PageState → Prop := Relation.ReflTransGen AllocNext

theorem AllocReachable.pageReachable {s s' : PageState} (h : AllocReachable s s') :
    PageReachable s s' := by
  induction h with
  | refl => exact .refl
  | tail _ hNext ih =>
      obtain ⟨order, hOrder, hStep⟩ := hNext
      exact ih.tail ⟨.allocPages order, hOrder, hStep⟩

/-- After `total_memory_init` and `page_init`, every frame of every block that a sequence of
allocations returns is inside an available region. -/
def OnlyRam (image : KernelImage) (mbi : Mbi) (regions : List MmapEntry) : Prop :=
  ∃ totalMem, totalMemoryInit 0x36d76289#32 mbi = some totalMem ∧
    ∀ s, AllocReachable (pageInitState image totalMem) s →
      ∀ b ∈ s.live, ∀ k, b.Has k → InAvailable regions k

/-- The number of frames of a memory of `total` bytes; `ALIGN_UP` always counts one more. -/
def frameCount (total : Nat) : Nat := total / 4096 + 1

theorem pageInitBits_toNat {totalMem : U64} (h : frameCount totalMem.toNat < 2 ^ 31) :
    (pageInitBits totalMem).toNat = frameCount totalMem.toNat := by
  unfold frameCount at h ⊢
  rw [pageInitBits, BitVec.toNat_ushiftRight, alignUp_page_toNat (by omega), pageShift,
    Nat.shiftRight_eq_div_pow]
  omega

/-- Past the reserved frames: beyond the image and the bitmap. -/
theorem reservedFrames_le_iff (image : KernelImage) {totalMem : U64}
    (hn : (pageInitBits totalMem).toNat < 2 ^ 31) {k : Nat} (hk : k < (pageInitBits totalMem).toNat) :
    reservedFrames image totalMem ≤ k ↔
      image.kernelPhysEndAligned.toNat +
        ((pageInitBits totalMem).toNat / 8 / 4096 + 1) * 4096 ≤ k * 4096 := by
  have hAligned := image.aligned
  unfold reservedFrames
  rw [pageInitUsed_toNat image hn]
  omega

/-- With exactly the frames below `m` taken, a one-frame allocation takes frame `m`. -/
theorem allocNext_first {n reserved m : Nat} {s : PageState} (hn : n < 2 ^ 31)
    (hInv : PageInv n reserved s) (hBits : ∀ k, s.bitmap.bit k = true ↔ k < m) (hm : m < n) :
    ∃ s' b, AllocNext s s' ∧ s'.live = b :: s.live ∧ b.Has m ∧
      ∀ k, s'.bitmap.bit k = true ↔ k < m + 1 := by
  have hOrder : 2 ^ (0#64).toNat ≤ s.bitmap.size.toNat := by
    rw [hInv.size, BitVec.toNat_zero]
    omega
  have hFreeAt : RangeFree s.bitmap m (2 ^ (0#64).toNat) := by
    intro k hk _
    rw [← Bool.not_eq_true, hBits]
    omega
  rcases allocPages_cases s.bitmap (by rw [hInv.size]; exact hn) 0#64 hOrder with
    ⟨p, pa, bmp, hEq, hPa, hEnd, hFree, hLeast, -, hNew⟩ | ⟨hNone, -⟩
  · rw [hInv.size] at hEnd
    rw [BitVec.toNat_zero] at hEnd hFree hNew
    -- the least clear frame is `m`
    have hLe : p ≤ m := by
      by_contra hLt
      exact hLeast m (by omega) hFreeAt
    have hGe : ¬ p < m := by
      intro hLt
      have hSet := (hBits p).mpr hLt
      rw [hFree p (le_refl p) (by omega)] at hSet
      exact Bool.noConfusion hSet
    obtain rfl : p = m := by omega
    have hStep : pageStep s (.allocPages 0#64) = some ⟨bmp, ⟨pa, 0#64⟩ :: s.live⟩ := by
      simp only [pageStep, hEq]
      rw [if_neg (toInt_nonneg_of_lt (by omega))]
    refine ⟨_, _, ⟨0#64, hOrder, hStep⟩, rfl, ?_, ?_⟩
    · rw [Block.Has, Block.frame, Block.pages, hPa]
      simp
    · intro k
      rw [hNew, Bool.or_eq_true, hBits, decide_eq_true_eq]
      omega
  · rw [hInv.size] at hNone
    rw [BitVec.toNat_zero] at hNone hFreeAt
    exact absurd hFreeAt (hNone m (by omega))

/-- One-frame allocations take the frames above the reserved ones in order. -/
theorem allocReachable_fill (image : KernelImage) (totalMem : U64)
    (hn : (pageInitBits totalMem).toNat < 2 ^ 31) :
    ∀ d, reservedFrames image totalMem + d ≤ (pageInitBits totalMem).toNat →
      ∃ s, AllocReachable (pageInitState image totalMem) s ∧
        (∀ k, s.bitmap.bit k = true ↔ k < reservedFrames image totalMem + d) ∧
        ∀ k, reservedFrames image totalMem ≤ k → k < reservedFrames image totalMem + d →
          ∃ b ∈ s.live, b.Has k := by
  intro d
  induction d with
  | zero =>
      intro _
      refine ⟨_, .refl, ?_, ?_⟩
      · intro k
        simp [pageInitState, pageInitBitmap_bit]
      · intro k hk hk'
        omega
  | succ d ih =>
      intro hLe
      obtain ⟨s, hReach, hBits, hHeld⟩ := ih (by omega)
      have hInv := pageInv_of_reachable image totalMem hn hReach.pageReachable
      obtain ⟨s', b, hNext, hLive, hHas, hBits'⟩ := allocNext_first hn hInv hBits (by omega)
      refine ⟨s', hReach.tail hNext, hBits', ?_⟩
      intro k hk hk'
      by_cases hLast : k = reservedFrames image totalMem + d
      · subst hLast
        exact ⟨b, by rw [hLive]; exact List.mem_cons_self, hHas⟩
      · obtain ⟨c, hc, hcHas⟩ := hHeld k hk (by omega)
        exact ⟨c, by rw [hLive]; exact List.mem_cons_of_mem b hc, hcHas⟩

/-- The frames that sequences of allocations hand out are those from the reserved ones up. -/
theorem allocReachable_has_iff (image : KernelImage) (totalMem : U64)
    (hn : (pageInitBits totalMem).toNat < 2 ^ 31) (k : Nat) :
    (∃ s, AllocReachable (pageInitState image totalMem) s ∧ ∃ b ∈ s.live, b.Has k) ↔
      reservedFrames image totalMem ≤ k ∧ k < (pageInitBits totalMem).toNat := by
  constructor
  · rintro ⟨s, hReach, b, hb, hHas⟩
    have hIn := (pageInv_of_reachable image totalMem hn hReach.pageReachable).inside b hb
    have hLow := hHas.1
    have hHigh := hHas.2
    omega
  · rintro ⟨hLow, hHigh⟩
    obtain ⟨s, hReach, -, hHeld⟩ := allocReachable_fill image totalMem hn
      ((pageInitBits totalMem).toNat - reservedFrames image totalMem) (by omega)
    exact ⟨s, hReach, hHeld k hLow (by omega)⟩

/-- **Which maps keep the allocator inside the available memory.**  The blocks that sequences of
allocations return stay inside the available regions exactly for the maps where every frame from the
end of the image and its bitmap up to the sum of the available lengths, and the frame after it, lies
inside one.  The map has fewer than `2 ^ 31` frames: a longer bitmap does not fit the 128 megabytes
that the boot code maps, and `page_init` faults when it clears it. -/
theorem onlyRam_iff (image : KernelImage) (mbi : Mbi) (regions : List MmapEntry)
    (hMap : MemoryMap mbi regions) (hn : frameCount (availableSum regions).toNat < 2 ^ 31) :
    OnlyRam image mbi regions ↔
      ∀ k, image.kernelPhysEndAligned.toNat +
          (frameCount (availableSum regions).toNat / 8 / 4096 + 1) * 4096 ≤ k * 4096 →
        k < frameCount (availableSum regions).toNat → InAvailable regions k := by
  have hCount := pageInitBits_toNat hn
  have hBits : (pageInitBits (availableSum regions)).toNat < 2 ^ 31 := by
    rw [hCount]
    exact hn
  have hFrames := allocReachable_has_iff image (availableSum regions) hBits
  constructor
  · rintro ⟨totalMem, hTotal, hRam⟩ k hLow hHigh
    rw [totalMemoryInit_eq hMap, Option.some.injEq] at hTotal
    subst hTotal
    rw [← hCount] at hLow hHigh
    obtain ⟨s, hReach, b, hb, hHas⟩ :=
      (hFrames k).mpr ⟨(reservedFrames_le_iff image hBits hHigh).mpr hLow, hHigh⟩
    exact hRam s hReach b hb k hHas
  · intro hAll
    refine ⟨availableSum regions, totalMemoryInit_eq hMap, ?_⟩
    intro s hReach b hb k hHas
    obtain ⟨hLow, hHigh⟩ := (hFrames k).mp ⟨s, hReach, b, hb, hHas⟩
    have hLow := (reservedFrames_le_iff image hBits hHigh).mp hLow
    rw [hCount] at hLow hHigh
    exact hAll k hLow hHigh

/-- Boot information of one memory-map tag with the given entries, and the end tag. -/
def oneTagMbi (entries : List MmapEntry) : Mbi := fun off =>
  (leBytes (32 + entries.length * 24) 4 ++ leBytes 0 4 ++
    leBytes 6 4 ++ leBytes (16 + entries.length * 24) 4 ++ leBytes 24 4 ++ leBytes 0 4 ++
    entries.flatMap (fun e =>
      leBytes e.addr.toNat 8 ++ leBytes e.len.toNat 8 ++ leBytes e.type 4 ++ leBytes 0 4) ++
    leBytes 0 4 ++ leBytes 8 4).getD off 0#8

/-- An image of one megabyte, at one megabyte. -/
def megabyteImage : KernelImage := ⟨0x200000#64, by decide, by decide⟩

/-- Memory in one piece, from one megabyte on. -/
def onePiece : List MmapEntry := [⟨0x100000#64, 0x800000#64, 1⟩]

/-- With all the memory in one piece above the hole below one megabyte, only memory is handed out. -/
theorem onlyRam_onePiece : OnlyRam megabyteImage (oneTagMbi onePiece) onePiece := by
  have hMap : MemoryMap (oneTagMbi onePiece) onePiece :=
    TagsAt.mmap (n := 1) (by decide) (by decide) (by decide) (by decide)
      (TagsAt.endTag (by decide) (by decide))
  refine (onlyRam_iff megabyteImage (oneTagMbi onePiece) onePiece hMap (by decide)).mpr ?_
  intro k hLow hHigh
  have hImage : megabyteImage.kernelPhysEndAligned.toNat = 0x200000 := rfl
  have hCount : frameCount (availableSum onePiece).toNat = 0x801 := by decide
  rw [hImage, hCount] at hLow
  rw [hCount] at hHigh
  refine ⟨⟨0x100000#64, 0x800000#64, 1⟩, List.mem_cons_self, rfl, ?_, ?_⟩
  · simp only [BitVec.toNat_ofNat]
    omega
  · simp only [BitVec.toNat_ofNat]
    omega

/-- The last megabyte of the memory lies behind a reserved one. -/
def holedMap : List MmapEntry :=
  [⟨0x0#64, 0x9f000#64, 1⟩, ⟨0x9f000#64, 0x61000#64, 2⟩, ⟨0x100000#64, 0x200000#64, 1⟩,
    ⟨0x300000#64, 0x100000#64, 2⟩, ⟨0x400000#64, 0x100000#64, 1⟩]

/-- The map is well formed and the image is inside an available region, but the sum of the available
lengths reaches into the reserved megabyte, whose first frame is handed out. -/
theorem not_onlyRam_holedMap :
    MemoryMap (oneTagMbi holedMap) holedMap ∧ KernelInside megabyteImage holedMap ∧
      ¬ OnlyRam megabyteImage (oneTagMbi holedMap) holedMap := by
  have hMap : MemoryMap (oneTagMbi holedMap) holedMap :=
    TagsAt.mmap (n := 5) (by decide) (by decide) (by decide) (by decide)
      (TagsAt.endTag (by decide) (by decide))
  have hBits : (pageInitBits (availableSum holedMap)).toNat = 0x3a0 := by decide
  refine ⟨hMap, ⟨⟨0x100000#64, 0x200000#64, 1⟩, by decide, rfl, by decide, by decide⟩, ?_⟩
  rintro ⟨totalMem, hTotal, hRam⟩
  rw [totalMemoryInit_eq hMap, Option.some.injEq] at hTotal
  subst hTotal
  have hFrames := allocReachable_has_iff megabyteImage (availableSum holedMap) (by omega) 0x300
  obtain ⟨s, hReach, b, hb, hHas⟩ := hFrames.mpr ⟨by decide, by omega⟩
  obtain ⟨e, he, hType, hLow, hHigh⟩ := hRam s hReach b hb 0x300 hHas
  simp only [holedMap, List.mem_cons, List.not_mem_nil, or_false] at he
  rcases he with rfl | rfl | rfl | rfl | rfl
  · exact absurd hHigh (by decide)
  · exact absurd hType (by decide)
  · exact absurd hHigh (by decide)
  · exact absurd hType (by decide)
  · exact absurd hLow (by decide)

end Rayos
