import Rayos.Mem.Heap
import Rayos.Task.Sched

/-!
# The address space of a new user task (`task.c`)

`__usertask_create` builds the page table of a user task.  It takes four blocks from the page
allocator, one for each level, maps them at four addresses of the lower half that lie one page
apart, fills the entries through these windows, allocates the kernel stack of the task, writes the
first frame of its user stack, and unmaps the windows again.

The model follows the source in three parts: `usertaskMap`, `usertaskFill`, `usertaskFinish`.
-/

namespace Rayos

open Program

/-- `URSP0_SIZE`. -/
def ursp0Size : U64 := 0x4000#64

/-- `USER_SPACE_PML4_BASE`. -/
def userSpacePml4Base : U64 := 0x0000700000000000#64

/-- `USER_SPACE_PDPT_BASE`. -/
def userSpacePdptBase : U64 := 0x0000700000001000#64

/-- `USER_SPACE_PD_BASE`. -/
def userSpacePdBase : U64 := 0x0000700000002000#64

/-- `USER_SPACE_PT_BASE`. -/
def userSpacePtBase : U64 := 0x0000700000003000#64

/-- `MAP_USER_RW`. -/
def mapUserRw : U64 := 0x7#64

/-- `UCODE_SELECTOR`. -/
def ucodeSelector : U64 := 0x1b#64

/-- `UDATA_SELECTOR`. -/
def udataSelector : U64 := 0x23#64

/-- `sizeof(struct task_user_init_stack)`. -/
def sizeofTaskUserInitStack : U64 := 176#64

/-- The block of one level of a user page table: `user_…_phys` and `user_…_order`. -/
structure UserLevel where
  phys : U64
  order : U64
  deriving DecidableEq

/-- The blocks of the four levels of a user page table. -/
structure UserLevels where
  userPml4 : UserLevel
  userPdpt : UserLevel
  userPd : UserLevel
  userPt : UserLevel
  deriving DecidableEq

/-- `struct load_segment_address`, without the link: the segments are kept in a list. -/
structure LoadSegmentAddress where
  phys : U64
  order : U64
  deriving DecidableEq

/-- `struct task_struct` of a user task: what the scheduler looks at and the fields that describe the
memory of the task. -/
structure UserTask extends TaskStruct, UserLevels where
  rsp0 : U64
  rsp0Base : U64
  pml4 : U64
  rsp : U64
  name : List (BitVec 8)
  stackBasephys : U64
  stackOrder : U64
  stack : U64
  /-- `ls_addr`; each record with its address. -/
  lsAddr : List (U64 × LoadSegmentAddress)
  deriving DecidableEq

/-- A `task_struct` as `kzalloc` returns it. -/
def UserTask.zeroed : UserTask where
  toTaskStruct := TaskStruct.zeroed
  toUserLevels := ⟨⟨0#64, 0#64⟩, ⟨0#64, 0#64⟩, ⟨0#64, 0#64⟩, ⟨0#64, 0#64⟩⟩
  rsp0 := 0#64
  rsp0Base := 0#64
  pml4 := 0#64
  rsp := 0#64
  name := List.replicate 32 0#8
  stackBasephys := 0#64
  stackOrder := 0#64
  stack := 0#64
  lsAddr := []

/-- The numbers of entries of the four levels. -/
structure PageTableCounts where
  pml4Count : U64
  pdptCount : U64
  pdCount : U64
  ptCount : U64
  deriving DecidableEq

/-- `calc_page_table_counts`. -/
def calcPageTableCounts (nrPages : U64) : PageTableCounts :=
  if nrPages = 0#64 then ⟨0#64, 0#64, 0#64, 0#64⟩
  else
    let ptCount := nrPages
    let pdCount := (ptCount + 511#64) / 512#64
    let pdptCount := (pdCount + 511#64) / 512#64
    let pml4Count := (pdptCount + 511#64) / 512#64
    ⟨pml4Count, pdptCount, pdCount, ptCount⟩

/-- The counts for the pages of `[start, end)`. -/
def usertaskCounts (start stop : U64) : PageTableCounts :=
  calcPageTableCounts ((stop - start) >>> pageShift)

/-- One level: allocate a block for `count` entries and map it at the window.  The number of entries
is passed on as the number of pages, and the result of `map_page_range` is not looked at. -/
def userLevelMap (base count : U64) : KernelM UserLevel := do
  let order := sizeToOrder (count * 8#64)
  let phys ← Kernel.allocPages order
  let _ ← mapPageRange phys base mapUserRw count
  pure ⟨phys, order⟩

/-- `__usertask_create`, first part: the four blocks and their windows. -/
def usertaskMap (start stop : U64) (task : UserTask) : KernelM UserTask := do
  let counts := usertaskCounts start stop
  let pml4 ← userLevelMap userSpacePml4Base counts.pml4Count
  let pdpt ← userLevelMap userSpacePdptBase counts.pdptCount
  let pd ← userLevelMap userSpacePdBase counts.pdCount
  let pt ← userLevelMap userSpacePtBase counts.ptCount
  pure { task with userPml4 := pml4, userPdpt := pdpt, userPd := pd, userPt := pt }

/-- `for (i = 0; i < count; i++) table[idx + i] = entry i`. -/
def fillEntries (table idx : U64) (count : Nat) (entry : U64 → KernelM U64) : KernelM Unit :=
  forUpto count fun i => do
    let e ← entry (BitVec.ofNat 64 i)
    store64 (entryAddr table (idx + BitVec.ofNat 64 i)) e

/-- The entries of an upper level: one page of the block of the next level after the other. -/
def nextLevelEntry (phys i : U64) : KernelM U64 :=
  pure ((phys + i * pageSize) ||| mapUserRw)

/-- The entries of the last level: the frames that the kernel's table maps. -/
def ptEntry (start i : U64) : KernelM U64 := do
  let pa ← getPhysaddr (start + i * pageSize)
  pure (pa ||| mapUserRw)

/-- `__usertask_create`, second part: the upper half is copied from the kernel's PML4, the last entry
refers to the new PML4 itself, and the entries for `[start, end)` are filled in level by level. -/
def usertaskFill (start stop : U64) (task : UserTask) : KernelM UserTask := do
  let counts := usertaskCounts start stop
  fillEntries userSpacePml4Base 256#64 255 fun i => load64 (entryAddr mapPml4 (256#64 + i))
  store64 (entryAddr userSpacePml4Base 511#64) (task.userPml4.phys ||| mapUserRw)
  fillEntries userSpacePml4Base (pml4Idx start) counts.pml4Count.toNat
    (nextLevelEntry task.userPdpt.phys)
  fillEntries userSpacePdptBase (pdptIdx start) counts.pdptCount.toNat
    (nextLevelEntry task.userPd.phys)
  fillEntries userSpacePdBase (pdIdx start) counts.pdCount.toNat
    (nextLevelEntry task.userPt.phys)
  fillEntries userSpacePtBase (ptIdx start) counts.ptCount.toNat (ptEntry start)
  pure { task with pml4 := task.userPml4.phys }

/-- The first frame of the user stack: `iret.ss`, `iret.rsp`, `iret.rflags`, `iret.cs`, `iret.rip`,
`iret_func` and `ctx.rdi` of `struct task_user_init_stack`. -/
def initStack (rsp stop entry switchToUser args : U64) : KernelM Unit := do
  store64 (rsp + 168#64) udataSelector
  store64 (rsp + 160#64) stop
  store64 (rsp + 152#64) 0x202#64
  store64 (rsp + 144#64) ucodeSelector
  store64 (rsp + 136#64) entry
  store64 (rsp + 128#64) switchToUser
  store64 (rsp + 72#64) args

/-- `__usertask_create`, third part: the kernel stack, the first frame of the user stack, and the
removal of the windows.  The result of `kzalloc` is not looked at. -/
def usertaskFinish (start stop entry switchToUser args : U64) (task : UserTask) :
    KernelM UserTask := do
  let counts := usertaskCounts start stop
  let rsp0Base ← kzalloc ursp0Size
  initStack (stop - sizeofTaskUserInitStack) stop entry switchToUser args
  let _ ← unmapPageRange userSpacePml4Base counts.pml4Count
  let _ ← unmapPageRange userSpacePdptBase counts.pdptCount
  let _ ← unmapPageRange userSpacePdBase counts.pdCount
  let _ ← unmapPageRange userSpacePtBase counts.ptCount
  pure { task with
    rsp0Base := rsp0Base
    rsp0 := rsp0Base + ursp0Size
    stack := stop
    rsp := stop - sizeofTaskUserInitStack }

/-- `__usertask_create`, which always returns 0. -/
def usertaskCreate (task : UserTask) (stop start entry switchToUser args : U64) :
    KernelM (Int × UserTask) := do
  let task ← usertaskMap start stop task
  let task ← usertaskFill start stop task
  let task ← usertaskFinish start stop entry switchToUser args task
  pure (0, task)

/-! ## What user code can reach -/

/-- The user bit. -/
def pteUser (e : U64) : Bool := e &&& 4#64 != 0#64

/-- The frame a present entry points to, if the entry is open to user code. -/
def userChild (e : U64) : Option Nat :=
  if ptePresent e && pteUser e then some (entryFrame e) else none

/-- The walk of the processor in user mode: all four entries need the user bit. -/
def userWalk (mem : Memory) (root : Nat) (path : List Nat) : Option Nat :=
  RadixTable.descend userChild mem root path

end Rayos
