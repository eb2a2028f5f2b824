import Rayos.Mem.Frames

/-!
# The kernel heap (`mm.c`, `mempool.c`)

`kmalloc` takes a block of frames from the page allocator, maps it at `KMEM_BASE` plus its physical
address, and records it in a `vmap_area` on `vmap_area_list`; `kfree` undoes the three steps and
recomputes the order of the block from the recorded number of pages.  The `vmap_area` objects come
from a pool of fixed-size objects in 32 pages that `mm_init` maps in the same region.

The pool and the list are kept as lists of the addresses of their objects.  The objects themselves
lie in frames of the pool, which only this code writes to.
-/

namespace Rayos

open RadixTable Program

/-- `KMEM_BASE`. -/
def kmemBase : U64 := 0xffff900000000000#64

/-- `VMAP_AREA_POOL_NR_PAGES`. -/
def vmapAreaPoolNrPages : U64 := 32#64

/-- `sizeof(struct vmap_area)`. -/
def sizeofVmapArea : U64 := 40#64

/-- `MAP_KERN_RW`. -/
def mapKernRw : U64 := 0x3#64

/-- `spinlock_lock(&mm_spinlock)`: with no other processor to release it, a held lock is waited for
forever. -/
def mmSpinlockLock : KernelM Unit := fun s =>
  if s.mmSpinlock then .error .hang s else .ok () { s with mmSpinlock := true }

/-- `spinlock_unlock(&mm_spinlock)`. -/
def mmSpinlockUnlock : KernelM Unit := fun s => .ok () { s with mmSpinlock := false }

/-- `pool_init`: the objects are linked from the last one back, so that the lowest comes first. -/
def poolInit (page nrPages objSize : U64) : MemPool :=
  let total := (nrPages * pageSize) / objSize
  { freeList := (List.range total.toNat).map fun i => page + BitVec.ofNat 64 i * objSize
    objSize := objSize
    total := total
    used := 0#64 }

/-- `pool_alloc`. -/
def poolAlloc (pool : MemPool) : Option (U64 × MemPool) :=
  match pool.freeList with
  | [] => none
  | obj :: rest => some (obj, { pool with freeList := rest, used := pool.used + 1#64 })

/-- `pool_free`. -/
def poolFree (pool : MemPool) (obj : U64) : MemPool :=
  { pool with freeList := obj :: pool.freeList, used := pool.used - 1#64 }

/-- `__vmap_area_alloc`. -/
def vmapAreaAlloc (start nrPages : U64) : KernelM (Option VmapArea) := fun s =>
  match poolAlloc s.vmapAreaPool with
  | none => .ok none s
  | some (obj, pool) =>
      let vm : VmapArea :=
        { vaStart := start, vaEnd := start + nrPages * pageSize, vaNrpages := nrPages }
      .ok (some vm) { s with vmapAreaPool := pool, vmapAreaList := s.vmapAreaList ++ [(obj, vm)] }

/-- `__kmem_map`; the `int` that `map_page_range` returns is compared as an unsigned number. -/
def kmemMap (nrOrder : U64) : KernelM U64 := do
  let pa ← Kernel.allocPages nrOrder
  if pa.toInt < 0 then pure 0#64
  else do
    let ret ← mapPageRange pa (kmemBase + pa) mapKernRw (orderToPages nrOrder)
    if sizeOfInt ret < orderToPages nrOrder then pure 0#64 else pure (kmemBase + pa)

/-- `__find_vmap_area`: the first area of the list that starts at the address. -/
def findVmapArea (areas : List (U64 × VmapArea)) (va : U64) : Option (U64 × VmapArea) :=
  areas.find? fun area => area.2.vaStart == va

/-- `kmalloc`; the failing returns leave the lock held. -/
def kmalloc (size : U64) : KernelM U64 := do
  mmSpinlockLock
  if size = 0#64 then pure 0#64
  else do
    let va ← kmemMap (sizeToOrder size)
    if va = 0#64 then pure 0#64
    else do
      let vm ← vmapAreaAlloc va (orderToPages (sizeToOrder size))
      match vm with
      | none => pure 0#64
      | some vm => do
          mmSpinlockUnlock
          pure vm.vaStart

/-- `memset`. -/
def memset (dest : U64) (c : BitVec 8) (n : U64) : KernelM Unit :=
  forUpto n.toNat fun i => store8 (dest + BitVec.ofNat 64 i) c

/-- `kzalloc`. -/
def kzalloc (size : U64) : KernelM U64 := do
  let retPtr ← kmalloc size
  if retPtr = 0#64 then pure retPtr
  else do
    memset retPtr 0#8 size
    pure retPtr

/-- `list_del` on the area that starts at the address. -/
def listDel (va : U64) : KernelM Unit := fun s =>
  .ok () { s with vmapAreaList := s.vmapAreaList.eraseP fun area => area.2.vaStart == va }

/-- `pool_free(&vmap_area_pool, obj)`. -/
def vmapAreaFree (obj : U64) : KernelM Unit := fun s =>
  .ok () { s with vmapAreaPool := poolFree s.vmapAreaPool obj }

/-- `kfree`; an unknown pointer leaves the lock held. -/
def kfree (virtaddr : U64) : KernelM Int := do
  mmSpinlockLock
  let s ← get
  match findVmapArea s.vmapAreaList virtaddr with
  | none => pure (-1)
  | some (obj, vm) => do
      listDel virtaddr
      let order := sizeToOrder (vm.vaNrpages * pageSize)
      let physaddr ← getPhysaddr virtaddr
      Kernel.freePages physaddr order
      let _ ← unmapPageRange virtaddr vm.vaNrpages
      vmapAreaFree obj
      mmSpinlockUnlock
      pure 0

/-- `memcpy` from one address to another. -/
def memcpyVirt (dest src n : U64) : KernelM Unit :=
  forUpto n.toNat fun i => do
    let b ← load8 (src + BitVec.ofNat 64 i)
    store8 (dest + BitVec.ofNat 64 i) b

/-- `krealloc`; as many bytes are copied as the new block is to have. -/
def krealloc (ptr newSize : U64) : KernelM U64 := do
  if ptr = 0#64 then pure 0#64
  else do
    let new ← kmalloc newSize
    if new = 0#64 then pure 0#64
    else do
      memcpyVirt new ptr newSize
      let _ ← kfree ptr
      pure new

/-- `mm_init`; the result of `map_page_range` is not looked at. -/
def mmInit : KernelM Unit := do
  let pa ← Kernel.allocPages (pagesToOrder vmapAreaPoolNrPages)
  let va := pa + kmemBase
  let _ ← mapPageRange pa va mapKernRw vmapAreaPoolNrPages
  fun s => .ok () { s with
    vmapAreaPool := poolInit va vmapAreaPoolNrPages sizeofVmapArea
    mmSpinlock := false }

end Rayos
