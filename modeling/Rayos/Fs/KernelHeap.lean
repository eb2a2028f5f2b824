import Rayos.Lib.CString
import Rayos.Lib.Program
import Rayos.Mem.PageAlloc

/-!
# The heap as the file systems use it

File-system code sees the heap through `kzalloc` and `kfree`.  Of the heap only what can make a
difference to such code is kept: whether there is memory for a request, a number for each block given
out, and `mm_spinlock`.  A request that fails, and one of no bytes, leaves the lock held, and the next
call then never returns.  A store past the end of a block has no meaning of its own (what it hits
depends on the frames around the block) and is a fault.
-/

namespace Rayos

open CString

/-- How code of the file systems can stop. -/
inductive FsFault where
  | nullPointer
  | overrun
  | useAfterFree
  | hang
  deriving DecidableEq

/-- The heap, as far as its users can tell. -/
structure KernelHeap where
  /-- Which calls of `kzalloc` find memory. -/
  memory : Nat → Bool
  /-- The number of calls of `kzalloc` so far; it also numbers the blocks given out. -/
  kzallocs : Nat
  /-- `mm_spinlock` is held. -/
  mmSpinlock : Bool

namespace KernelHeap

/-- `kzalloc`. -/
def kzalloc (size : Nat) (h : KernelHeap) : Except FsFault (Option Nat × KernelHeap) :=
  if h.mmSpinlock then .error .hang
  else if size ≠ 0 ∧ h.memory h.kzallocs then
    .ok (some h.kzallocs, { h with kzallocs := h.kzallocs + 1 })
  else .ok (none, { h with kzallocs := h.kzallocs + 1, mmSpinlock := true })

/-- `kfree` of a block in use. -/
def kfree (h : KernelHeap) : Except FsFault KernelHeap :=
  if h.mmSpinlock then .error .hang else .ok h

/-- The bytes of the block that `kzalloc(size)` takes. -/
def blockBytes (size : Nat) : Nat :=
  (orderToPages (sizeToOrder (BitVec.ofNat 64 size))).toNat * pageSize.toNat

/-- Storing `len` bytes through the result of `kzalloc(size)`, which is not looked at. -/
def storeBlock (ptr : Option Nat) (size len : Nat) : Except FsFault Unit :=
  match ptr with
  | none => .error .nullPointer
  | some _ => if len ≤ blockBytes size then .ok () else .error .overrun

theorem kzalloc_eq_ok {h h' : KernelHeap} {size : Nat} {ptr : Option Nat}
    (hRun : h.kzalloc size = .ok (ptr, h')) :
    h.mmSpinlock = false ∧ h'.memory = h.memory ∧ h'.kzallocs = h.kzallocs + 1 ∧
      (ptr = none ∧ h'.mmSpinlock = true ∨ ptr = some h.kzallocs ∧ h'.mmSpinlock = false) := by
  unfold kzalloc at hRun
  split at hRun
  · cases hRun
  · rename_i hLock
    have hFree : h.mmSpinlock = false := by simpa using hLock
    split at hRun
    · cases hRun
      exact ⟨hFree, rfl, rfl, Or.inr ⟨rfl, hFree⟩⟩
    · cases hRun
      exact ⟨hFree, rfl, rfl, Or.inl ⟨rfl, rfl⟩⟩

theorem kfree_eq_ok {h h' : KernelHeap} (hRun : h.kfree = .ok h') :
    h' = h ∧ h.mmSpinlock = false := by
  unfold kfree at hRun
  split at hRun
  · cases hRun
  · rename_i hLock
    cases hRun
    exact ⟨rfl, by simpa using hLock⟩

end KernelHeap

end Rayos
