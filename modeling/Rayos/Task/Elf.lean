import Rayos.Task.UserSpace

/-!
# Loading a 64-bit ELF image (`task.c`, `elf.h`)

`make_elf64_task` maps every `PT_LOAD` segment at its own address in the kernel's table, copies the
bytes of the file there, maps a stack right after the last segment, lets `__usertask_create` build the
table of the task from these mappings, and removes them again.

The image is the content of the buffer that `run_process` has read the file into, from its first byte
on; the program headers are read from it.
-/

namespace Rayos

open Program

/-- The buffer of an ELF file, from its first byte on. -/
abbrev ElfImage := Nat → BitVec 8

/-- The little-endian number in `len` bytes from `off`. -/
def elfNat (elf : ElfImage) (off : Nat) : Nat → Nat
  | 0 => 0
  | len + 1 => (elf off).toNat + 256 * elfNat elf (off + 1) len

/-- A `uint64_t` of the image. -/
def elfU64 (elf : ElfImage) (off : Nat) : U64 := BitVec.ofNat 64 (elfNat elf off 8)

/-- `e_entry`. -/
def eEntry (elf : ElfImage) : U64 := elfU64 elf 24

/-- `e_phoff`. -/
def ePhoff (elf : ElfImage) : U64 := elfU64 elf 32

/-- `e_phnum`. -/
def ePhnum (elf : ElfImage) : Nat := elfNat elf 56 2

/-- `struct elf64_phdr`, without the fields that are not looked at. -/
structure Elf64Phdr where
  pType : Nat
  pOffset : U64
  pVaddr : U64
  pFilesz : U64
  pMemsz : U64
  deriving DecidableEq

/-- `sizeof(struct elf64_phdr)`. -/
def sizeofElf64Phdr : Nat := 56

/-- Program header `i`. -/
def elfPhdr (elf : ElfImage) (i : Nat) : Elf64Phdr :=
  let off := (ePhoff elf).toNat + i * sizeofElf64Phdr
  { pType := elfNat elf off 4
    pOffset := elfU64 elf (off + 8)
    pVaddr := elfU64 elf (off + 16)
    pFilesz := elfU64 elf (off + 32)
    pMemsz := elfU64 elf (off + 40) }

/-- The program headers, in the order of the loops over them. -/
def elfPhdrs (elf : ElfImage) : List Elf64Phdr := (List.range (ePhnum elf)).map (elfPhdr elf)

/-- `PT_LOAD`. -/
def ptLoad : Nat := 1

/-- `KERNEL_BASE`. -/
def kernelBase : U64 := 0xffff800000000000#64

/-- `USTACK_SIZE`. -/
def ustackSize : U64 := 0x80000#64

/-- `sizeof(struct load_segment_address)`. -/
def sizeofLoadSegmentAddress : U64 := 24#64

/-- `memcpy`, from bytes that are not written to. -/
def memcpy (dest : U64) (src : Nat → BitVec 8) (n : U64) : KernelM Unit :=
  forUpto n.toNat fun i => store8 (dest + BitVec.ofNat 64 i) (src i)

/-- The number of pages that is mapped for a segment. -/
def segmentLen (phdr : Elf64Phdr) : U64 := alignUp phdr.pMemsz pageSize >>> pageShift

/-- The body of the first loop for a `PT_LOAD` segment: allocate, map, copy, and append a
`load_segment_address` to `ls_addr`.  No result is looked at. -/
def loadSegment (elf : ElfImage) (phdr : Elf64Phdr) (task : UserTask) : KernelM UserTask := do
  let order := sizeToOrder (alignUp phdr.pMemsz pageSize)
  let phys ← Kernel.allocPages order
  let _ ← mapPageRange phys phdr.pVaddr 0x7#64 (segmentLen phdr)
  memcpy phdr.pVaddr (fun i => elf (phdr.pOffset.toNat + i)) phdr.pFilesz
  let newLsAddr ← kzalloc sizeofLoadSegmentAddress
  store64 newLsAddr phys
  store64 (newLsAddr + 8#64) order
  store64 (newLsAddr + 16#64) 0#64
  match task.lsAddr.getLast? with
  | none => pure ()
  | some pos => store64 (pos.1 + 16#64) newLsAddr
  pure { task with lsAddr := task.lsAddr ++ [(newLsAddr, ⟨phys, order⟩)] }

/-- The first loop, with the values of `last_vaddr` and `last_memsz`; an error where the source returns
`-1` because of a segment in the kernel's half. -/
def loadSegments (elf : ElfImage) :
    List Elf64Phdr → U64 → U64 → UserTask → KernelM (Except UserTask (U64 × U64 × UserTask))
  | [], lastVaddr, lastMemsz, task => pure (.ok (lastVaddr, lastMemsz, task))
  | phdr :: rest, lastVaddr, lastMemsz, task =>
      if phdr.pType = ptLoad then
        if kernelBase ≤ phdr.pVaddr then pure (.error task)
        else do
          let task ← loadSegment elf phdr task
          loadSegments elf rest phdr.pVaddr phdr.pMemsz task
      else loadSegments elf rest lastVaddr lastMemsz task

/-- The last loop: the segments are unmapped again. -/
def unmapSegments : List Elf64Phdr → KernelM Unit
  | [] => pure ()
  | phdr :: rest =>
      if phdr.pType = ptLoad then do
        let _ ← unmapPageRange phdr.pVaddr (segmentLen phdr)
        unmapSegments rest
      else unmapSegments rest

/-- `memset(task->name, 0x0, 32)` and `memcpy(task->name, pathname, len > 31 ? 31 : len)`. -/
def taskName (pathname : List (BitVec 8)) : List (BitVec 8) :=
  pathname.take 31 ++ List.replicate (32 - (pathname.take 31).length) 0#8

/-- `make_elf64_task`.  `lastVaddr` and `lastMemsz` are the values that the two local variables happen
to have, which are not initialised; `switchToUser` is the address of `switch_to_user`. -/
def makeElf64Task (elf : ElfImage) (task : UserTask) (pathname : List (BitVec 8))
    (switchToUser lastVaddr lastMemsz : U64) : KernelM (Int × UserTask) := do
  match ← loadSegments elf (elfPhdrs elf) lastVaddr lastMemsz task with
  | .error task => pure (-1, task)
  | .ok (lastVaddr, lastMemsz, task) => do
      let stackDown := alignUp (lastVaddr + lastMemsz) pageSize
      let stackTop := stackDown + ustackSize
      let stackSize := stackTop - stackDown
      let stackOrder := sizeToOrder stackSize
      let stackPhys ← Kernel.allocPages stackOrder
      let _ ← mapPageRange stackPhys stackDown 0x7#64 (stackSize >>> pageShift)
      let start := (elfPhdr elf 0).pVaddr
      let (_, task) ← usertaskCreate task stackTop start (eEntry elf) switchToUser 0#64
      let task := { task with
        stackBasephys := stackPhys
        stackOrder := stackOrder
        flags := .user
        status := .ready
        name := taskName pathname }
      unmapSegments (elfPhdrs elf)
      let _ ← unmapPageRange stackDown (stackSize >>> pageShift)
      pure (0, task)

end Rayos
