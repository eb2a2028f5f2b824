import Rayos.Lib.Program
import Rayos.Lib.RadixTable
import Rayos.Mem.PageAlloc

/-!
# The machine the kernel runs on

Physical memory is an array of frames of 512 quadwords, and every load and store of kernel code goes
through the four-level walk that the processor performs from `cr3`.  The walk looks at the present
bit of each of the four entries and at nothing else: the kernel never creates large pages, so the
bit that would select them is not interpreted, and the translation cache is not part of the model
because the source reloads `cr3` after every change of a leaf entry.

Kernel code is a program over `Machine` that may stop at a page fault or at an endless loop.
-/

namespace Rayos

open RadixTable

/-- How a run of kernel code can stop. -/
inductive Fault where
  | pageFault (va : U64)
  | hang
  deriving DecidableEq

/-- `struct vmap_area`, without its list node: the areas are kept in a list. -/
structure VmapArea where
  vaStart : U64
  vaEnd : U64
  vaNrpages : U64
  deriving DecidableEq

/-- `struct mem_pool`: the free objects in the order of the free list. -/
structure MemPool where
  freeList : List U64
  objSize : U64
  total : U64
  used : U64
  deriving DecidableEq

/-- Physical memory: quadword `i` of frame `f`. -/
abbrev Memory := Nat → Nat → U64

/-- The state of the machine and the global variables of the memory subsystem. -/
structure Machine where
  /-- Physical memory. -/
  mem : Memory
  /-- The control register that holds the address of the current PML4. -/
  cr3 : U64
  /-- `page_alloc_bitmap`. -/
  pageAllocBitmap : Bitmap
  /-- History of `alloc_pages`: every call so far with its order and its result.  No code reads it. -/
  allocLog : List Block
  /-- History of the stores: the frames written to so far.  No code reads it. -/
  storeLog : List Nat
  /-- `vmap_area_pool`. -/
  vmapAreaPool : MemPool
  /-- `vmap_area_list`; each area with the pool object that stores it. -/
  vmapAreaList : List (U64 × VmapArea)
  /-- `mm_spinlock` is held. -/
  mmSpinlock : Bool

/-- Kernel code. -/
abbrev KernelM := EStateM Fault Machine

/-! ## Page table entries and the hardware walk -/

/-- The present bit, as the source tests it. -/
def ptePresent (e : U64) : Bool := e &&& 1#64 != 0#64

/-- The frame an entry points to: address bits 12 to 51. -/
def entryFrame (e : U64) : Nat := e.toNat / 4096 % 2 ^ 40

/-- The node of the next level that a present entry points to. -/
def entryChild (e : U64) : Option Nat := if ptePresent e then some (entryFrame e) else none

/-- `pml4_idx`. -/
def pml4Idx (va : U64) : U64 := (va >>> 39) &&& 0x1FF#64

/-- `pdpt_idx`. -/
def pdptIdx (va : U64) : U64 := (va >>> 30) &&& 0x1FF#64

/-- `pd_idx`. -/
def pdIdx (va : U64) : U64 := (va >>> 21) &&& 0x1FF#64

/-- `pt_idx`. -/
def ptIdx (va : U64) : U64 := (va >>> 12) &&& 0x1FF#64

/-- The four indices that select the entries of an address. -/
def walkPath (va : U64) : List Nat :=
  [(pml4Idx va).toNat, (pdptIdx va).toNat, (pdIdx va).toNat, (ptIdx va).toNat]

/-- Bits 47 to 63 are equal. -/
def Canonical (va : U64) : Prop := va.toNat < 2 ^ 47 ∨ 2 ^ 64 - 2 ^ 47 ≤ va.toNat

instance (va : U64) : Decidable (Canonical va) := inferInstanceAs (Decidable (_ ∨ _))

/-- The hardware walk: the frame and the byte offset in it that an address denotes. -/
def mmuWalk (mem : Memory) (root : Nat) (va : U64) : Option (Nat × Nat) :=
  if Canonical va then
    (descend entryChild mem root (walkPath va)).map fun f => (f, va.toNat % 4096)
  else none

/-- The frame of the current PML4. -/
def Machine.root (s : Machine) : Nat := entryFrame s.cr3

/-- A store of one quadword. -/
def writeWord (mem : Memory) (f i : Nat) (v : U64) : Memory :=
  fun g j => if g = f ∧ j = i then v else mem g j

/-- Byte `k` of a quadword. -/
def getByte (w : U64) (k : Nat) : BitVec 8 := (w >>> (8 * k)).setWidth 8

/-- A quadword with byte `k` replaced. -/
def setByte (w : U64) (k : Nat) (b : BitVec 8) : U64 :=
  (w &&& ~~~(0xff#64 <<< (8 * k))) ||| (b.setWidth 64 <<< (8 * k))

/-- Byte `off` of frame `f`. -/
def byteAt (mem : Memory) (f off : Nat) : BitVec 8 := getByte (mem f (off / 8)) (off % 8)

/-- The machine after a store to quadword `i` of frame `f`. -/
def Machine.write (s : Machine) (f i : Nat) (v : U64) : Machine :=
  { s with mem := writeWord s.mem f i v, storeLog := s.storeLog ++ [f] }

/-- A load of an aligned quadword. -/
def load64 (va : U64) : KernelM U64 := fun s =>
  match mmuWalk s.mem s.root va with
  | none => .error (.pageFault va) s
  | some (f, off) => .ok (s.mem f (off / 8)) s

/-- A store of an aligned quadword. -/
def store64 (va v : U64) : KernelM Unit := fun s =>
  match mmuWalk s.mem s.root va with
  | none => .error (.pageFault va) s
  | some (f, off) => .ok () (s.write f (off / 8) v)

/-- A store of one byte. -/
def store8 (va : U64) (b : BitVec 8) : KernelM Unit := fun s =>
  match mmuWalk s.mem s.root va with
  | none => .error (.pageFault va) s
  | some (f, off) => .ok () (s.write f (off / 8) (setByte (s.mem f (off / 8)) (off % 8) b))

/-- A load of one byte. -/
def load8 (va : U64) : KernelM (BitVec 8) := fun s =>
  match mmuWalk s.mem s.root va with
  | none => .error (.pageFault va) s
  | some (f, off) => .ok (byteAt s.mem f off) s

/-! ## The page allocator as kernel code -/

/-- `alloc_pages`. -/
def Kernel.allocPages (order : U64) : KernelM U64 := fun s =>
  match Rayos.allocPages s.pageAllocBitmap order with
  | none => .error .hang s
  | some (pa, bmp) =>
      .ok pa { s with pageAllocBitmap := bmp, allocLog := s.allocLog ++ [⟨pa, order⟩] }

/-- `free_pages`. -/
def Kernel.freePages (physaddr order : U64) : KernelM Unit := fun s =>
  .ok () { s with pageAllocBitmap := Rayos.freePages s.pageAllocBitmap physaddr order }

/-! ## Arithmetic of indices -/

private theorem and_1ff_toNat (x : U64) (k : Nat) :
    ((x >>> k) &&& 0x1FF#64).toNat = x.toNat / 2 ^ k % 512 := by
  rw [BitVec.toNat_and, BitVec.toNat_ushiftRight, Nat.shiftRight_eq_div_pow]
  exact Nat.and_two_pow_sub_one_eq_mod _ 9

@[simp] theorem pml4Idx_toNat (va : U64) : (pml4Idx va).toNat = va.toNat / 2 ^ 39 % 512 :=
  and_1ff_toNat va 39

@[simp] theorem pdptIdx_toNat (va : U64) : (pdptIdx va).toNat = va.toNat / 2 ^ 30 % 512 :=
  and_1ff_toNat va 30

@[simp] theorem pdIdx_toNat (va : U64) : (pdIdx va).toNat = va.toNat / 2 ^ 21 % 512 :=
  and_1ff_toNat va 21

@[simp] theorem ptIdx_toNat (va : U64) : (ptIdx va).toNat = va.toNat / 2 ^ 12 % 512 :=
  and_1ff_toNat va 12

theorem walkPath_eq (va : U64) :
    walkPath va = [va.toNat / 2 ^ 39 % 512, va.toNat / 2 ^ 30 % 512, va.toNat / 2 ^ 21 % 512,
      va.toNat / 2 ^ 12 % 512] := by
  simp [walkPath]

theorem ptePresent_iff (e : U64) : ptePresent e = true ↔ e.toNat % 2 = 1 := by
  unfold ptePresent
  rw [bne_iff_ne, ne_eq, and_one_eq_zero_iff]
  omega

@[simp] theorem ptePresent_zero : ptePresent 0#64 = false := by decide

@[simp] theorem entryChild_zero : entryChild 0#64 = none := by decide

theorem entryChild_eq_some {e : U64} {f : Nat} :
    entryChild e = some f ↔ ptePresent e = true ∧ entryFrame e = f := by
  unfold entryChild
  split <;> simp [*]

theorem entryChild_eq_none {e : U64} : entryChild e = none ↔ ptePresent e = false := by
  unfold entryChild
  split <;> simp [*]

/-- The entries the kernel builds: a page-aligned address, flag bits, and the present bit. -/
theorem entry_toNat {pa flags : U64} (hpa : pa.toNat % 4096 = 0) (hflags : flags.toNat < 4096) :
    (pa ||| flags ||| 1#64).toNat = pa.toNat + (flags ||| 1#64).toNat := by
  rw [BitVec.or_assoc]
  exact or_toNat_of_aligned hpa (or_toNat_lt_page hflags (by decide))

theorem or_one_toNat_mod (x : U64) : (x ||| 1#64).toNat % 2 = 1 := by
  have h : ¬ (x ||| 1#64) &&& 1#64 = 0#64 := by
    intro h
    have := congrArg (fun w => w.getLsbD 0) h
    simp at this
  rw [and_one_eq_zero_iff] at h
  omega

theorem ptePresent_entry (x flags : U64) : ptePresent (x ||| flags ||| 1#64) = true := by
  rw [ptePresent_iff]
  exact or_one_toNat_mod _

theorem entryFrame_entry {pa flags : U64} (hpa : pa.toNat % 4096 = 0)
    (hflags : flags.toNat < 4096) (hTop : pa.toNat < 2 ^ 52) :
    entryFrame (pa ||| flags ||| 1#64) = pa.toNat / 4096 := by
  have hLow : (flags ||| 1#64).toNat < 4096 := or_toNat_lt_page hflags (by decide)
  unfold entryFrame
  rw [entry_toNat hpa hflags]
  omega

/-! ## Words of memory -/

@[simp] theorem writeWord_same (mem : Memory) (f i : Nat) (v : U64) :
    writeWord mem f i v f i = v := by
  simp [writeWord]

theorem writeWord_other (mem : Memory) {f i g j : Nat} (v : U64) (h : ¬ (g = f ∧ j = i)) :
    writeWord mem f i v g j = mem g j := by
  simp [writeWord, h]

theorem writeWord_other_frame (mem : Memory) {f g : Nat} (i : Nat) (v : U64) (h : g ≠ f) :
    writeWord mem f i v g = mem g := by
  funext j
  exact writeWord_other mem v fun hEq => h hEq.1

end Rayos
