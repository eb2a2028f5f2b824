import Rayos.Lib.LinkedStack
import Rayos.Lib.LittleEndian
import Rayos.Mem.Heap

/-!
# The object pool in memory (`mempool.c`)

The heap takes the free list of a pool as a list.  In memory it is threaded through the free objects: the first
eight bytes of each hold the address of the next.  Here the three functions work on the bytes, which the users of
the objects write to as well.

* `Stands` — which pool the bytes and the `mem_pool` stand for; the functions on the bytes do what the heap takes
  them to do.
* `PoolInv` — the objects of a pool are free or handed out, each once; kept by every step of a run.
* `poolRun_exact` — what follows for the states that runs reach.
-/

namespace Rayos

open LinkedStack LittleEndian

/-- The bytes of memory by their address, and a `struct mem_pool`. -/
structure PoolMem where
  bytes : Nat → BitVec 8
  freeList : U64
  objSize : U64
  total : U64
  used : U64

/-- The object `i` of a pool whose pages start at `page`. -/
def slot (page objSize : U64) (i : Nat) : U64 := page + BitVec.ofNat 64 i * objSize

namespace PoolMem

/-- The pointer at an address, `*(void **)p`. -/
def loadPtr (bytes : Nat → BitVec 8) (p : U64) : U64 := BitVec.ofNat 64 (leNat bytes p.toNat 8)

/-- A store of a pointer. -/
def storePtr (bytes : Nat → BitVec 8) (p v : U64) : Nat → BitVec 8 := putLe bytes p.toNat 8 v.toNat

/-- One round of the loop of `pool_init`. -/
def poolLink (page objSize : U64) (i : Nat) (m : PoolMem) : PoolMem :=
  { m with
    bytes := storePtr m.bytes (slot page objSize i) m.freeList
    freeList := slot page objSize i }

/-- The loop of `pool_init`, from `count - 1` down to 0. -/
def poolInitFrom (page objSize : U64) : Nat → PoolMem → PoolMem
  | 0, m => m
  | i + 1, m => poolInitFrom page objSize i (poolLink page objSize i m)

/-- `pool_init`; the loop runs over an `int`, and not at all when that is negative. -/
def poolInit (bytes : Nat → BitVec 8) (page nrPages objSize : U64) : PoolMem :=
  let total := nrPages * pageSize / objSize
  poolInitFrom page objSize (intOfSize (total - 1#64) + 1).toNat
    { bytes := bytes
      freeList := 0#64
      objSize := objSize
      total := total
      used := 0#64 }

/-- `pool_alloc`. -/
def poolAlloc (m : PoolMem) : U64 × PoolMem :=
  if m.freeList = 0#64 then (0#64, m)
  else (m.freeList, { m with freeList := loadPtr m.bytes m.freeList, used := m.used + 1#64 })

/-- `pool_free`. -/
def poolFree (m : PoolMem) (obj : U64) : PoolMem :=
  { m with bytes := storePtr m.bytes obj m.freeList, freeList := obj, used := m.used - 1#64 }

/-- The pool that the bytes and the `mem_pool` stand for. -/
structure Stands (m : PoolMem) (pool : MemPool) : Prop where
  chain : Chain (loadPtr m.bytes) 0#64 m.freeList pool.freeList
  objSize : m.objSize = pool.objSize
  total : m.total = pool.total
  used : m.used = pool.used

/-! ## Pointers in the bytes -/

section Pointers

variable {bytes : Nat → BitVec 8} {p q v : U64}

theorem loadPtr_storePtr (bytes : Nat → BitVec 8) (p v : U64) : loadPtr (storePtr bytes p v) p = v := by
  have hByte : v.toNat < 256 ^ 8 := v.isLt
  rw [loadPtr, storePtr, leNat_putLe bytes hByte, BitVec.ofNat_toNat, BitVec.setWidth_eq]

theorem loadPtr_storePtr_of_apart (h : q.toNat + 8 ≤ p.toNat ∨ p.toNat + 8 ≤ q.toNat) :
    loadPtr (storePtr bytes p v) q = loadPtr bytes q := by
  rw [loadPtr, storePtr, leNat_putLe_of_disjoint bytes h, loadPtr]

theorem loadPtr_update {a : Nat} {b : BitVec 8} (h : a < p.toNat ∨ p.toNat + 8 ≤ a) :
    loadPtr (Function.update bytes a b) p = loadPtr bytes p := by
  have hSame : leNat (Function.update bytes a b) p.toNat 8 = leNat bytes p.toNat 8 := by
    refine leNat_congr fun k hk => ?_
    have hNe : p.toNat + k ≠ a := by omega
    exact Function.update_of_ne hNe _ _
  rw [loadPtr, loadPtr, hSame]

end Pointers

/-! ## What the functions do to the pool -/

section Stands

variable {m : PoolMem} {pool : MemPool}

/-- `pool_alloc` returns the first free object, or the null pointer when there is none. -/
theorem Stands.poolAlloc (h : m.Stands pool) :
    match Rayos.poolAlloc pool with
    | none => m.poolAlloc = (0#64, m)
    | some (obj, pool') => obj ≠ 0#64 ∧ m.poolAlloc.1 = obj ∧ m.poolAlloc.2.Stands pool' := by
  have hNull := h.chain.eq_null_iff
  have hChain := h.chain
  cases hList : pool.freeList with
  | nil =>
      simp only [Rayos.poolAlloc, hList]
      rw [PoolMem.poolAlloc, if_pos (hNull.mpr hList)]
  | cons obj rest =>
      have hSome : m.freeList ≠ 0#64 := fun hZero => by
        rw [hNull.mp hZero] at hList
        cases hList
      rw [hList] at hChain
      obtain ⟨hFirst, hNe, hRest⟩ := hChain
      simp only [Rayos.poolAlloc, hList]
      rw [PoolMem.poolAlloc, if_neg hSome]
      refine ⟨hNe, hFirst, ?_, h.objSize, h.total, ?_⟩
      · rw [hFirst]
        exact hRest
      · exact congrArg (· + 1#64) h.used

/-- `pool_free` of an object that does not touch the free ones. -/
theorem Stands.poolFree (h : m.Stands pool) {obj : U64} (hNe : obj ≠ 0#64)
    (hApart : ∀ y ∈ pool.freeList, y.toNat + 8 ≤ obj.toNat ∨ obj.toNat + 8 ≤ y.toNat) :
    (m.poolFree obj).Stands (Rayos.poolFree pool obj) where
  chain := h.chain.push hNe (loadPtr_storePtr _ _ _) fun y hy => loadPtr_storePtr_of_apart (hApart y hy)
  objSize := h.objSize
  total := h.total
  used := congrArg (· - 1#64) h.used

/-- A write beside the links. -/
theorem Stands.write (h : m.Stands pool) {a : Nat} (b : BitVec 8)
    (hApart : ∀ y ∈ pool.freeList, a < y.toNat ∨ y.toNat + 8 ≤ a) :
    ({ m with bytes := Function.update m.bytes a b } : PoolMem).Stands pool where
  chain := h.chain.congr fun y hy => loadPtr_update (hApart y hy)
  objSize := h.objSize
  total := h.total
  used := h.used

end Stands

/-! ## The objects of a pool -/

/-- A pool of objects of `objSize` bytes in `nrPages` pages from `page` on.  A pointer fits in an object, the
number of objects is an `int`, and the pages are in memory. -/
structure PoolPages (page nrPages objSize : U64) : Prop where
  holdsPtr : 8 ≤ objSize.toNat
  isInt : nrPages.toNat * 4096 / objSize.toNat < 2 ^ 31
  notNull : page ≠ 0#64
  inMemory : page.toNat + nrPages.toNat * 4096 ≤ 2 ^ 64

/-- The number of objects. -/
def totalOf (nrPages objSize : U64) : Nat := nrPages.toNat * 4096 / objSize.toNat

/-- The objects in the order of their addresses, from `i` on. -/
def slotsFrom (page nrPages objSize : U64) (i : Nat) : List U64 :=
  (List.range' i (totalOf nrPages objSize - i)).map (slot page objSize)

theorem mem_slotsFrom {page nrPages objSize x : U64} {i : Nat} : x ∈ slotsFrom page nrPages objSize i ↔
    ∃ k, i ≤ k ∧ k < totalOf nrPages objSize ∧ x = slot page objSize k := by
  rw [slotsFrom, List.mem_map]
  constructor
  · rintro ⟨k, hk, rfl⟩
    obtain ⟨hFrom, hTo⟩ := List.mem_range'_1.mp hk
    exact ⟨k, hFrom, by omega, rfl⟩
  · rintro ⟨k, hFrom, hTo, rfl⟩
    exact ⟨k, List.mem_range'_1.mpr ⟨hFrom, by omega⟩, rfl⟩

theorem slotsFrom_eq_cons {page nrPages objSize : U64} {i : Nat} (hi : i < totalOf nrPages objSize) :
    slotsFrom page nrPages objSize i = slot page objSize i :: slotsFrom page nrPages objSize (i + 1) := by
  have hCount : totalOf nrPages objSize - i = totalOf nrPages objSize - (i + 1) + 1 := by omega
  rw [slotsFrom, hCount, List.range'_succ, List.map_cons, slotsFrom]

/-- Two objects do not overlap. -/
def Apart (objSize a b : U64) : Prop :=
  a.toNat + objSize.toNat ≤ b.toNat ∨ b.toNat + objSize.toNat ≤ a.toNat

namespace PoolPages

variable {page nrPages objSize : U64} {i j : Nat}

/-- The objects lie in the pages, one behind the other. -/
theorem slot_toNat (h : PoolPages page nrPages objSize) (hi : i < totalOf nrPages objSize) :
    (slot page objSize i).toNat = page.toNat + i * objSize.toNat ∧
      i * objSize.toNat + objSize.toNat ≤ nrPages.toNat * 4096 := by
  have hEnd : (i + 1) * objSize.toNat ≤ nrPages.toNat * 4096 :=
    (Nat.mul_le_mul_right _ hi).trans (Nat.div_mul_le_self _ _)
  rw [Nat.succ_mul] at hEnd
  have hIndex : i % 2 ^ 64 = i := by
    have hTotal := h.isInt
    rw [totalOf] at hi
    omega
  have hMemory := h.inMemory
  have hSize := h.holdsPtr
  refine ⟨?_, hEnd⟩
  rw [slot, BitVec.toNat_add, BitVec.toNat_mul, BitVec.toNat_ofNat, hIndex, Nat.add_mod_mod]
  apply Nat.mod_eq_of_lt
  omega

theorem slot_ne_zero (h : PoolPages page nrPages objSize) (hi : i < totalOf nrPages objSize) :
    slot page objSize i ≠ 0#64 := by
  intro hZero
  have hAt := (h.slot_toNat hi).1
  rw [hZero, BitVec.toNat_zero] at hAt
  exact h.notNull (BitVec.eq_of_toNat_eq (by rw [BitVec.toNat_zero]; omega))

theorem slot_apart (h : PoolPages page nrPages objSize) (hi : i < totalOf nrPages objSize)
    (hj : j < totalOf nrPages objSize) (hNe : i ≠ j) : Apart objSize (slot page objSize i) (slot page objSize j) := by
  have hI := (h.slot_toNat hi).1
  have hJ := (h.slot_toNat hj).1
  rw [Apart, hI, hJ]
  rcases Nat.lt_or_gt_of_ne hNe with hLt | hLt
  · left
    have hMul := Nat.mul_le_mul_right objSize.toNat (Nat.succ_le_of_lt hLt)
    rw [Nat.succ_mul] at hMul
    omega
  · right
    have hMul := Nat.mul_le_mul_right objSize.toNat (Nat.succ_le_of_lt hLt)
    rw [Nat.succ_mul] at hMul
    omega

theorem slotsFrom_pairwise (h : PoolPages page nrPages objSize) :
    (slotsFrom page nrPages objSize i).Pairwise (Apart objSize) := by
  rw [slotsFrom, List.pairwise_map]
  have hNodup : (List.range' i (totalOf nrPages objSize - i)).Nodup := List.nodup_range'
  refine List.Pairwise.imp_of_mem ?_ hNodup
  intro a b ha hb hNe
  have hA := List.mem_range'_1.mp ha
  have hB := List.mem_range'_1.mp hb
  exact h.slot_apart (by omega) (by omega) hNe

theorem total_toNat (h : PoolPages page nrPages objSize) :
    (nrPages * pageSize / objSize).toNat = totalOf nrPages objSize := by
  have hMemory := h.inMemory
  have hPage : page.toNat ≠ 0 := fun hZero => h.notNull (BitVec.eq_of_toNat_eq (by rw [hZero, BitVec.toNat_zero]))
  have hBytes : nrPages.toNat * 4096 < 2 ^ 64 := by omega
  have hMod : nrPages.toNat * 4096 % 2 ^ 64 = nrPages.toNat * 4096 := Nat.mod_eq_of_lt hBytes
  have hPageSize : pageSize.toNat = 4096 := rfl
  rw [BitVec.toNat_udiv, BitVec.toNat_mul, hPageSize, hMod, totalOf]

/-! ## `pool_init` -/

/-- The loop links the objects in front of those that come behind. -/
theorem poolInitFrom_stands (h : PoolPages page nrPages objSize) {total used : U64} :
    ∀ (n : Nat) (m : PoolMem), n ≤ totalOf nrPages objSize →
      m.Stands ⟨slotsFrom page nrPages objSize n, objSize, total, used⟩ →
      (poolInitFrom page objSize n m).Stands ⟨slotsFrom page nrPages objSize 0, objSize, total, used⟩ := by
  intro n
  induction n with
  | zero =>
      intro m _ hStands
      exact hStands
  | succ n ih =>
      intro m hn hStands
      apply ih (poolLink page objSize n m) (by omega)
      refine ⟨?_, hStands.objSize, hStands.total, hStands.used⟩
      rw [slotsFrom_eq_cons (by omega)]
      refine hStands.chain.push (h.slot_ne_zero (by omega)) (loadPtr_storePtr _ _ _) fun y hy => ?_
      obtain ⟨k, hk, hkTotal, rfl⟩ := mem_slotsFrom.mp hy
      have hSize := h.holdsPtr
      have hApart := h.slot_apart hkTotal (show n < totalOf nrPages objSize by omega) (by omega)
      apply loadPtr_storePtr_of_apart
      rw [Apart] at hApart
      omega

theorem poolInit_freeList (h : PoolPages page nrPages objSize) :
    (Rayos.poolInit page nrPages objSize).freeList = slotsFrom page nrPages objSize 0 := by
  rw [slotsFrom, Nat.sub_zero, ← List.range_eq_range']
  exact congrArg (fun n => (List.range n).map (slot page objSize)) h.total_toNat

/-- `pool_init` builds the pool that the heap starts with. -/
theorem poolInit_stands (h : PoolPages page nrPages objSize) (bytes : Nat → BitVec 8) :
    (poolInit bytes page nrPages objSize).Stands (Rayos.poolInit page nrPages objSize) := by
  have hTotal := h.total_toNat
  have hSmall : totalOf nrPages objSize < 2 ^ 31 := h.isInt
  have hRounds : (intOfSize (nrPages * pageSize / objSize - 1#64) + 1).toNat = totalOf nrPages objSize := by
    by_cases hNone : nrPages * pageSize / objSize = 0#64
    · have hLast : intOfSize (0#64 - 1#64) = -1 := by decide
      rw [hNone, BitVec.toNat_zero] at hTotal
      rw [hNone, hLast, ← hTotal]
      rfl
    · have hPos : (nrPages * pageSize / objSize).toNat ≠ 0 := fun hZero =>
        hNone (BitVec.eq_of_toNat_eq (by rw [hZero, BitVec.toNat_zero]))
      have hSub : (nrPages * pageSize / objSize - 1#64).toNat = totalOf nrPages objSize - 1 := by
        rw [BitVec.toNat_sub, hTotal, BitVec.toNat_ofNat]
        omega
      rw [intOfSize_of_lt (by omega), hSub]
      omega
  have hNothing : slotsFrom page nrPages objSize (totalOf nrPages objSize) = [] := by
    rw [slotsFrom, Nat.sub_self, List.range'_zero, List.map_nil]
  let m0 : PoolMem := ⟨bytes, 0#64, objSize, nrPages * pageSize / objSize, 0#64⟩
  have hStart : m0.Stands ⟨slotsFrom page nrPages objSize (totalOf nrPages objSize), objSize,
      nrPages * pageSize / objSize, 0#64⟩ := ⟨by rw [hNothing]; rfl, rfl, rfl, rfl⟩
  have hLoop := h.poolInitFrom_stands (totalOf nrPages objSize) m0 le_rfl hStart
  rw [← h.poolInit_freeList, ← hRounds] at hLoop
  exact hLoop

end PoolPages

/-! ## Runs -/

/-- The state of a run: the pool, and the objects that are handed out. -/
structure PoolState where
  mem : PoolMem
  live : List U64

/-- The bytes that others may write to: those of the objects handed out, and what is outside of the pages. -/
def PoolState.Users (page nrPages : U64) (s : PoolState) (a : Nat) : Prop :=
  (∃ obj ∈ s.live, obj.toNat ≤ a ∧ a < obj.toNat + s.mem.objSize.toNat) ∨
    a < page.toNat ∨ page.toNat + nrPages.toNat * 4096 ≤ a

/-- One step of a run: an object is taken, one that is handed out is given back, or a user writes a byte. -/
inductive PoolNext (page nrPages : U64) (s : PoolState) : PoolState → Prop
  | alloc {obj : U64} {m : PoolMem} (hRun : s.mem.poolAlloc = (obj, m)) :
      PoolNext page nrPages s ⟨m, if obj = 0#64 then s.live else obj :: s.live⟩
  | free {obj : U64} (hLive : obj ∈ s.live) : PoolNext page nrPages s ⟨s.mem.poolFree obj, s.live.erase obj⟩
  | write {a : Nat} {b : BitVec 8} (hUser : s.Users page nrPages a) :
      PoolNext page nrPages s ⟨{ s.mem with bytes := Function.update s.mem.bytes a b }, s.live⟩

theorem PoolNext.take {page nrPages obj : U64} {s : PoolState} (hRun : s.mem.poolAlloc.1 = obj) (hNe : obj ≠ 0#64) :
    PoolNext page nrPages s ⟨s.mem.poolAlloc.2, obj :: s.live⟩ := by
  have hNext : PoolNext page nrPages s ⟨s.mem.poolAlloc.2, if obj = 0#64 then s.live else obj :: s.live⟩ :=
    .alloc (Prod.ext hRun rfl)
  rw [if_neg hNe] at hNext
  exact hNext

/-- The states that runs reach after `pool_init`, whatever the memory was before it. -/
def PoolReachable (page nrPages objSize : U64) (s : PoolState) : Prop :=
  ∃ bytes, Relation.ReflTransGen (PoolNext page nrPages) ⟨poolInit bytes page nrPages objSize, []⟩ s

/-- The objects are free or handed out, each once. -/
structure PoolInv (page nrPages objSize : U64) (s : PoolState) (pool : MemPool) : Prop where
  stands : s.mem.Stands pool
  sameSize : pool.objSize = objSize
  total : pool.total.toNat = totalOf nrPages objSize
  perm : (pool.freeList ++ s.live).Perm (slotsFrom page nrPages objSize 0)
  used : pool.used.toNat = s.live.length

namespace PoolInv

variable {page nrPages objSize : U64} {s s' : PoolState} {pool : MemPool}

theorem length (h : PoolInv page nrPages objSize s pool) :
    pool.freeList.length + s.live.length = totalOf nrPages objSize := by
  have hLength := h.perm.length_eq
  rw [List.length_append, slotsFrom, List.length_map, List.length_range', Nat.sub_zero] at hLength
  exact hLength

theorem isSlot (h : PoolInv page nrPages objSize s pool) {x : U64} (hx : x ∈ pool.freeList ∨ x ∈ s.live) :
    ∃ i, i < totalOf nrPages objSize ∧ x = slot page objSize i := by
  obtain ⟨i, -, hi, hEq⟩ := mem_slotsFrom.mp (h.perm.mem_iff.mp (List.mem_append.mpr hx))
  exact ⟨i, hi, hEq⟩

/-- No two objects overlap, free or handed out. -/
theorem apart (h : PoolInv page nrPages objSize s pool) (hPages : PoolPages page nrPages objSize) :
    (pool.freeList ++ s.live).Pairwise (Apart objSize) :=
  (h.perm.pairwise_iff fun hApart => Or.symm hApart).mpr hPages.slotsFrom_pairwise

/-- The links of the free objects are not touched by who writes beside these objects. -/
theorem link_apart (h : PoolInv page nrPages objSize s pool) (hPages : PoolPages page nrPages objSize) {y obj : U64}
    (hy : y ∈ pool.freeList) (hObj : obj ∈ s.live) :
    y.toNat + 8 ≤ obj.toNat ∨ obj.toNat + objSize.toNat ≤ y.toNat := by
  have hApart : Apart objSize y obj := (List.pairwise_append.mp (h.apart hPages)).2.2 y hy obj hObj
  have hSize := hPages.holdsPtr
  rw [Apart] at hApart
  omega

theorem alloc (h : PoolInv page nrPages objSize s pool) (hPages : PoolPages page nrPages objSize) {obj : U64}
    {m : PoolMem} (hRun : s.mem.poolAlloc = (obj, m)) :
    ∃ pool', PoolInv page nrPages objSize ⟨m, if obj = 0#64 then s.live else obj :: s.live⟩ pool' := by
  have hAlloc := h.stands.poolAlloc
  have hTotal : totalOf nrPages objSize < 2 ^ 31 := hPages.isInt
  have hLength := h.length
  have hPerm := h.perm
  cases hList : pool.freeList with
  | nil =>
      simp only [Rayos.poolAlloc, hList, hRun] at hAlloc
      cases hAlloc
      rw [if_pos rfl]
      exact ⟨pool, h.stands, h.sameSize, h.total, h.perm, h.used⟩
  | cons first rest =>
      simp only [Rayos.poolAlloc, hList, hRun] at hAlloc
      obtain ⟨hNe, rfl, hStands⟩ := hAlloc
      rw [hList, List.length_cons] at hLength
      rw [hList] at hPerm
      rw [if_neg hNe]
      refine ⟨_, hStands, h.sameSize, h.total, ?_, ?_⟩
      · exact List.perm_middle.trans hPerm
      · show (pool.used + 1#64).toNat = (obj :: s.live).length
        rw [BitVec.toNat_add, h.used, BitVec.toNat_ofNat, List.length_cons]
        omega

theorem free (h : PoolInv page nrPages objSize s pool) (hPages : PoolPages page nrPages objSize) {obj : U64}
    (hLive : obj ∈ s.live) :
    PoolInv page nrPages objSize ⟨s.mem.poolFree obj, s.live.erase obj⟩ (Rayos.poolFree pool obj) where
  stands := by
    obtain ⟨i, hi, rfl⟩ := h.isSlot (Or.inr hLive)
    have hSize := hPages.holdsPtr
    refine h.stands.poolFree (hPages.slot_ne_zero hi) fun y hy => ?_
    have hApart := h.link_apart hPages hy hLive
    omega
  sameSize := h.sameSize
  total := h.total
  perm := by
    have hBack : (obj :: s.live.erase obj).Perm s.live := (List.perm_cons_erase hLive).symm
    exact (List.perm_middle.symm.trans (hBack.append_left pool.freeList)).trans h.perm
  used := by
    have hPos := List.length_pos_of_mem hLive
    have hLt := pool.used.isLt
    show (pool.used - 1#64).toNat = (s.live.erase obj).length
    have hUsed := h.used
    rw [List.length_erase_of_mem hLive, BitVec.toNat_sub, BitVec.toNat_ofNat]
    omega

theorem write (h : PoolInv page nrPages objSize s pool) (hPages : PoolPages page nrPages objSize) {a : Nat}
    {b : BitVec 8} (hUser : s.Users page nrPages a) :
    PoolInv page nrPages objSize ⟨{ s.mem with bytes := Function.update s.mem.bytes a b }, s.live⟩ pool where
  stands := by
    refine h.stands.write b fun y hy => ?_
    rcases hUser with ⟨obj, hObj, hFrom, hTo⟩ | hOutside
    · have hApart := h.link_apart hPages hy hObj
      rw [h.stands.objSize, h.sameSize] at hTo
      omega
    · obtain ⟨i, hi, rfl⟩ := h.isSlot (Or.inl hy)
      obtain ⟨hAt, hEnd⟩ := hPages.slot_toNat hi
      have hSize := hPages.holdsPtr
      omega
  sameSize := h.sameSize
  total := h.total
  perm := h.perm
  used := h.used

theorem step (h : PoolInv page nrPages objSize s pool) (hPages : PoolPages page nrPages objSize)
    (hNext : PoolNext page nrPages s s') : ∃ pool', PoolInv page nrPages objSize s' pool' := by
  cases hNext with
  | alloc hRun => exact h.alloc hPages hRun
  | free hLive => exact ⟨_, h.free hPages hLive⟩
  | write hUser => exact ⟨pool, h.write hPages hUser⟩

end PoolInv

theorem poolInv_init {page nrPages objSize : U64} (h : PoolPages page nrPages objSize) (bytes : Nat → BitVec 8) :
    PoolInv page nrPages objSize ⟨poolInit bytes page nrPages objSize, []⟩
      (Rayos.poolInit page nrPages objSize) where
  stands := h.poolInit_stands bytes
  sameSize := rfl
  total := h.total_toNat
  perm := by
    rw [List.append_nil, h.poolInit_freeList]
  used := rfl

theorem poolInv_of_reachable {page nrPages objSize : U64} (hPages : PoolPages page nrPages objSize) {s : PoolState}
    (hReach : PoolReachable page nrPages objSize s) : ∃ pool, PoolInv page nrPages objSize s pool := by
  obtain ⟨bytes, hSteps⟩ := hReach
  induction hSteps with
  | refl => exact ⟨_, poolInv_init hPages bytes⟩
  | tail _ hNext ih =>
      obtain ⟨pool, hInv⟩ := ih
      exact hInv.step hPages hNext

/-- **The object pool.**  In every state that a run reaches after `pool_init`, whatever the users of the objects have
written to them:

1. the objects handed out are objects of the pool and inside its pages,
2. no two of them overlap;
3. the free list ends, has no object twice, and holds exactly the objects that are not handed out;
4. `used` is the number of the objects handed out, and
5. `pool_alloc` returns the null pointer exactly when `used` is `total`. -/
theorem poolRun_exact (page nrPages objSize : U64) (hPages : PoolPages page nrPages objSize) (s : PoolState)
    (hReach : PoolReachable page nrPages objSize s) :
    (∀ x ∈ s.live, ∃ i, i < totalOf nrPages objSize ∧ x.toNat = page.toNat + i * objSize.toNat ∧
      x.toNat + objSize.toNat ≤ page.toNat + nrPages.toNat * 4096) ∧
    s.live.Pairwise (Apart objSize) ∧
    (∃ free, Chain (loadPtr s.mem.bytes) 0#64 s.mem.freeList free ∧ free.Nodup ∧
      ∀ x, x ∈ free ↔ (∃ i, i < totalOf nrPages objSize ∧ x = slot page objSize i) ∧ x ∉ s.live) ∧
    s.mem.used.toNat = s.live.length ∧
    (s.mem.poolAlloc.1 = 0#64 ↔ s.mem.used = s.mem.total) := by
  obtain ⟨pool, hInv⟩ := poolInv_of_reachable hPages hReach
  have hStands := hInv.stands
  have hLength := hInv.length
  have hApart := List.pairwise_append.mp (hInv.apart hPages)
  have hUsed : s.mem.used.toNat = s.live.length := by
    rw [hStands.used]
    exact hInv.used
  refine ⟨?_, hApart.2.1, ⟨pool.freeList, hStands.chain, hStands.chain.nodup, ?_⟩, hUsed, ?_⟩
  · intro x hx
    obtain ⟨i, hi, rfl⟩ := hInv.isSlot (Or.inr hx)
    obtain ⟨hAt, hEnd⟩ := hPages.slot_toNat hi
    exact ⟨i, hi, hAt, by omega⟩
  · intro x
    constructor
    · intro hx
      refine ⟨hInv.isSlot (Or.inl hx), fun hLive => ?_⟩
      -- an object does not lie beside itself
      have hSelf := hInv.link_apart hPages hx hLive
      have hSize := hPages.holdsPtr
      omega
    · rintro ⟨⟨i, hi, rfl⟩, hNot⟩
      have hIn := hInv.perm.mem_iff.mpr (mem_slotsFrom.mpr ⟨i, Nat.zero_le i, hi, rfl⟩)
      exact (List.mem_append.mp hIn).resolve_right hNot
  · have hNull : s.mem.poolAlloc.1 = 0#64 ↔ s.mem.freeList = 0#64 := by
      rw [poolAlloc]
      split
      · rename_i hZero
        exact iff_of_true rfl hZero
      · exact Iff.rfl
    rw [hNull, hStands.chain.eq_null_iff, ← List.length_eq_zero_iff, ← BitVec.toNat_inj, hUsed, hStands.total,
      hInv.total]
    omega

/-- The pool of `mm_init` has its pages at `KMEM_BASE`. -/
theorem poolPages_vmapArea {pa : U64} (hPa : pa.toNat < 2 ^ 43) :
    PoolPages (pa + kmemBase) vmapAreaPoolNrPages sizeofVmapArea where
  holdsPtr := by decide
  isInt := by decide
  notNull := by
    intro hNull
    have hZero := congrArg BitVec.toNat hNull
    rw [BitVec.toNat_add, kmemBase, BitVec.toNat_ofNat, BitVec.toNat_zero] at hZero
    omega
  inMemory := by
    rw [BitVec.toNat_add, kmemBase, vmapAreaPoolNrPages, BitVec.toNat_ofNat, BitVec.toNat_ofNat]
    omega

/-- A page with two objects, both handed out: there is no third. -/
theorem poolRun_exact_full : ∃ s : PoolState, PoolReachable 0x1000#64 1#64 0x800#64 s ∧
    s.live = [0x1800#64, 0x1000#64] ∧ s.mem.poolAlloc.1 = 0#64 := by
  have hPages : PoolPages 0x1000#64 1#64 0x800#64 := ⟨by decide, by decide, by decide, by decide⟩
  obtain ⟨m0, hInit⟩ : ∃ m0, m0 = poolInit (fun _ => 0#8) 0x1000#64 1#64 0x800#64 := ⟨_, rfl⟩
  have hFirst : m0.poolAlloc.1 = 0x1000#64 := by
    rw [hInit]
    decide +kernel
  have hSecond : m0.poolAlloc.2.poolAlloc.1 = 0x1800#64 ∧ m0.poolAlloc.2.poolAlloc.2.total = 2#64 := by
    rw [hInit]
    decide +kernel
  have hReach : PoolReachable 0x1000#64 1#64 0x800#64 ⟨m0.poolAlloc.2.poolAlloc.2, [0x1800#64, 0x1000#64]⟩ := by
    refine ⟨fun _ => 0#8, ?_⟩
    rw [← hInit]
    have hOne : PoolNext 0x1000#64 1#64 ⟨m0, []⟩ ⟨m0.poolAlloc.2, [0x1000#64]⟩ := .take hFirst (by decide)
    have hTwo : PoolNext 0x1000#64 1#64 ⟨m0.poolAlloc.2, [0x1000#64]⟩
        ⟨m0.poolAlloc.2.poolAlloc.2, [0x1800#64, 0x1000#64]⟩ := .take hSecond.1 (by decide)
    exact (Relation.ReflTransGen.single hOne).tail hTwo
  obtain ⟨-, -, -, hUsed, hNull⟩ := poolRun_exact 0x1000#64 1#64 0x800#64 hPages _ hReach
  refine ⟨_, hReach, rfl, hNull.mpr (BitVec.eq_of_toNat_eq ?_)⟩
  rw [hUsed, hSecond.2]
  rfl

end PoolMem

end Rayos
