import Rayos.Mem.HeapLimits

/-!
# `kmalloc` when it fails

`kmalloc` takes frames, maps them and takes an object from the pool, and undoes none of this.  It fails
cleanly as long as it fails at the first step.  An empty pool is noticed at the last one: the frames stay
taken and mapped, and no area records them.

The pool holds 3276 objects; `poolExhausted` is a run that uses them up.
-/

namespace Rayos

open RadixTable Program

/-- Everything is as before, up to the frames that serve as tables. -/
structure FailedCleanly (s m : Machine) : Prop where
  bits : ∀ k, m.pageAllocBitmap.bit k = s.pageAllocBitmap.bit k ∨
    ∃ q, TablePath kmemHead q ∧ m.table q = some k
  pages : ∀ f, f < 2 ^ 31 → m.page (kmemPage f) = s.page (kmemPage f)
  areas : m.vmapAreaList = s.vmapAreaList
  pool : m.vmapAreaPool = s.vmapAreaPool

/-- `alloc_pages` finds a block of the order. -/
def FindsBlock (bmp : Bitmap) (order : U64) : Prop :=
  ∃ pa bmp', allocPages bmp order = some (pa, bmp') ∧ ¬ pa.toInt < 0

/-- Apart from the block of the call itself, no allocation has failed. -/
def TablesServed (s m : Machine) : Prop :=
  NoFail s.allocLog ∧ NoFail (m.allocLog.drop (s.allocLog.length + 1))

/-! ## Failing at the first step -/

/-- An `alloc_pages` that fails changes nothing. -/
theorem allocPages_neg {bmp bmp' : Bitmap} {order pa : U64} (hSize : bmp.size.toNat < 2 ^ 31)
    (hPos : 1 ≤ bmp.size.toNat) (hAlloc : allocPages bmp order = some (pa, bmp'))
    (hNeg : pa.toInt < 0) : bmp' = bmp := by
  -- shift counts are taken modulo 64
  have hMod : orderToPages order = orderToPages (BitVec.ofNat 64 (order.toNat % 64)) := by
    rw [orderToPages, orderToPages, BitVec.toNat_ofNat]
    congr 1
    omega
  have hOrder : (BitVec.ofNat 64 (order.toNat % 64)).toNat < 64 := by
    rw [BitVec.toNat_ofNat]
    omega
  have hSame : allocPages bmp order = allocPages bmp (BitVec.ofNat 64 (order.toNat % 64)) := by
    rw [allocPages, allocPages, hMod]
  rw [hSame] at hAlloc
  generalize BitVec.ofNat 64 (order.toNat % 64) = order' at hOrder hAlloc
  have hPow : 0 < 2 ^ order'.toNat := Nat.pow_pos (by decide)
  by_cases hFits : 2 ^ order'.toNat ≤ bmp.size.toNat
  · rcases allocPages_cases bmp hSize order' hFits with ⟨p, pa', bmp'', hEq, hPa, hEnd, -⟩ | ⟨-, hEq⟩
    · rw [hAlloc] at hEq
      cases hEq
      exact absurd hNeg (toInt_nonneg_of_lt (by omega))
    · rw [hAlloc] at hEq
      cases hEq
      rfl
  · rcases allocPages_oversize bmp hSize hPos hOrder (by omega) with
      ⟨p, pa', bmp'', hEq, hPa, hEnd, -⟩ | hEq
    · rw [hAlloc] at hEq
      cases hEq
      exact absurd hNeg (toInt_nonneg_of_lt (by omega))
    · rw [hAlloc] at hEq
      cases hEq
      rfl

section Failure

variable {n : Nat} {s : HeapState} {m : Machine} {size : U64}

/-- A `kmalloc` that finds no block has changed nothing. -/
theorem failedCleanly_of_noBlock (h : HeapInv n s) (hRun : kmalloc size s.machine = .ok 0#64 m)
    (hNone : size = 0#64 ∨ ¬ FindsBlock s.machine.pageAllocBitmap (sizeToOrder size)) :
    FailedCleanly s.machine m := by
  have hSize := h.kmem.frames.size
  have hSmall := h.kmem.frames.small
  have hPos := h.kmem.frames.nonempty
  generalize hPtr : (0#64 : U64) = ptr at hRun
  have hFound : ∀ {pa bmp}, size ≠ 0#64 →
      allocPages s.machine.pageAllocBitmap (sizeToOrder size) = some (pa, bmp) →
      ¬ pa.toInt < 0 → False :=
    fun hNe hAlloc hPa => (hNone.resolve_left hNe) ⟨_, _, hAlloc, hPa⟩
  cases kmalloc_run h.unlocked hRun with
  | zero _ => exact ⟨fun k => Or.inl rfl, fun f _ => rfl, rfl, rfl⟩
  | noFrames pa bmp _ hAlloc hNeg =>
      have hSame := allocPages_neg (by omega) (by omega) hAlloc hNeg
      exact ⟨fun k => Or.inl (congrArg (·.bit k) hSame), fun f _ => rfl, rfl, rfl⟩
  | notMapped _ _ _ _ hNe hAlloc hPa _ _ => exact (hFound hNe hAlloc hPa).elim
  | noArea _ _ _ _ hNe hAlloc hPa _ _ => exact (hFound hNe hAlloc hPa).elim
  | ok _ _ _ _ _ _ hNe hAlloc hPa _ _ => exact (hFound hNe hAlloc hPa).elim

/-! ## Failing at the last step -/

/-- The block and what follows it in the history. -/
theorem noFail_of_tablesServed {t : Machine} {pa : U64} {order : U64} {bmp : Bitmap}
    (hServed : TablesServed s.machine t) (hPa : ¬ pa.toInt < 0)
    (hLog : (s.machine.tookBlock pa order bmp).allocLog <+: t.allocLog) : NoFail t.allocLog := by
  obtain ⟨new, hNew⟩ := hLog
  have hSplit : t.allocLog = s.machine.allocLog ++ ([⟨pa, order⟩] ++ new) := by
    rw [← hNew, Machine.tookBlock, List.append_assoc]
  have hDrop : t.allocLog.drop (s.machine.allocLog.length + 1) = new := by
    rw [hSplit, ← List.drop_drop, List.drop_left]
    rfl
  intro b hb
  rw [hSplit] at hb
  rcases List.mem_append.mp hb with hOld | hb
  · exact hServed.1 b hOld
  · rcases List.mem_append.mp hb with hBlock | hTable
    · rw [List.mem_singleton] at hBlock
      rw [hBlock]
      exact hPa
    · exact hServed.2 b (by rw [hDrop]; exact hTable)

/-- The block that `kmalloc` has taken and mapped, when no table is missing. -/
theorem mappedBlock_of_served {t : Machine} {pa : U64} {bmp : Bitmap} {ret : Int} (h : HeapInv n s)
    (hServed : TablesServed s.machine t) (hOrder : (sizeToOrder size).toNat < 31)
    (hEnd : 2 ^ (sizeToOrder size).toNat ≤ n ∨ n + 2 ^ (sizeToOrder size).toNat ≤ 2 ^ 31)
    (hAlloc : allocPages s.machine.pageAllocBitmap (sizeToOrder size) = some (pa, bmp))
    (hPa : ¬ pa.toInt < 0)
    (hMap : mapPageRange pa (kmemBase + pa) mapKernRw (orderToPages (sizeToOrder size))
      (s.machine.tookBlock pa (sizeToOrder size) bmp) = .ok ret t) :
    ∃ p, p ≤ n ∧ TookClear s.machine.pageAllocBitmap bmp p (2 ^ (sizeToOrder size).toNat) ∧
      ret = (2 ^ (sizeToOrder size).toNat : Nat) ∧
      MappedBlock n (s.pool :: s.live ++ s.others) s.machine t p (2 ^ (sizeToOrder size).toNat) := by
  have hSize := h.kmem.frames.size
  have hSmall := h.kmem.frames.small
  obtain ⟨p, hpa, hp, hTook, hFits, -⟩ := allocPages_tookClear (by omega)
    (by rw [hSize]; exact h.kmem.frames.nonempty) (by omega) hAlloc hPa
  rw [hSize] at hp hFits
  have hInside : p + 2 ^ (sizeToOrder size).toNat ≤ 2 ^ 31 := by
    rcases hEnd with hEnd | hEnd
    · have := hFits hEnd
      omega
    · omega
  have hLog := Respects.of_ok (mapPageRange_log _ _ _ _) hMap
  obtain ⟨hRet, hMapped⟩ := h.kmem.mapBlock hTook hpa hOrder hInside hMap
    (noFail_of_tablesServed hServed hPa hLog)
  exact ⟨p, hp, hTook, hRet, hMapped⟩

/-- The block has been taken and mapped: the page of its first frame was not mapped before. -/
theorem not_failedCleanly_of_mapped {t : Machine} {bmp : Bitmap} {p : Nat} (h : HeapInv n s) (hp : p ≤ n)
    (hTook : TookClear s.machine.pageAllocBitmap bmp p (2 ^ (sizeToOrder size).toNat))
    (hMapped : MappedBlock n (s.pool :: s.live ++ s.others) s.machine t p
      (2 ^ (sizeToOrder size).toNat)) : ¬ FailedCleanly s.machine t := by
  intro hClean
  have hSmall := h.kmem.frames.small
  have hPos : 0 < 2 ^ (sizeToOrder size).toNat := Nat.pow_pos (by decide)
  have hPage := hMapped.page p (by omega)
  rw [if_pos ⟨le_rfl, by omega⟩, hClean.pages p (by omega)] at hPage
  have hAbsent := h.kmem.absent p (by omega) fun b hb hHas => by
    have hUsed := h.kmem.frames.used b (List.mem_append_left _ hb) p hHas
    rw [hTook.clear p le_rfl (by omega)] at hUsed
    cases hUsed
  rw [hAbsent] at hPage
  cases hPage

end Failure

/-! ## A run that empties the pool -/

/-- One page costs at most four frames. -/
theorem costs_kmalloc_one (n : Nat) : Costs n 4 (kmalloc 1#64) := by
  have hCost := Costs.kmalloc (n := n) 1#64
  have hOrder : (sizeToOrder 1#64).toNat = 0 := by decide
  have hPages : (orderToPages (sizeToOrder 1#64)).toNat = 1 := by decide
  rw [hOrder, hPages] at hCost
  exact hCost

/-- As long as there is room, each `kmalloc` takes an object from the pool. -/
theorem exhaust {n : Nat} {boot : Machine} :
    ∀ (k a : Nat) (s : HeapState), HeapReachable n boot s → HeapInv n s →
      s.machine.vmapAreaPool.freeList.length = k → Room n a s.machine → a + 4 * k ≤ n →
      ∃ s', HeapReachable n boot s' ∧ HeapInv n s' ∧ s'.machine.vmapAreaPool.freeList = [] ∧
        Room n (a + 4 * k) s'.machine := by
  intro k
  induction k with
  | zero =>
      intro a s hReach hInv hLength hRoom _
      exact ⟨s, hReach, hInv, List.eq_nil_of_length_eq_zero hLength, hRoom⟩
  | succ k ih =>
      intro a s hReach hInv hLength hRoom hBound
      have hPos := hInv.kmem.frames.nonempty
      have hFits : 2 ^ (sizeToOrder 1#64).toNat ≤ n := by
        rw [show (sizeToOrder 1#64).toNat = 0 by decide]
        omega
      have hRoom' := costs_kmalloc_one n s.machine a hRoom (by omega)
      have hOne : (1#64 : U64) ≠ 0#64 := by decide
      obtain ⟨pa, ptr, m, hRun, hKmem, -, -, hPool⟩ := hInv.kmem.kmalloc hInv.unlocked hOne hFits
        hRoom'.noFail
      rw [hRun, finalState_ok] at hRoom'
      obtain ⟨obj, rest, hFree⟩ : ∃ obj rest, s.machine.vmapAreaPool.freeList = obj :: rest :=
        List.exists_cons_of_length_eq_add_one hLength
      obtain ⟨rfl, -, hRest⟩ := hPool obj rest hFree
      have hLt := hKmem.pa_lt (b := ⟨pa, sizeToOrder 1#64⟩) (by simp)
      have hNe : kmemBase + pa ≠ 0#64 := kmemBase_add_ne_zero (by simp only at hLt; omega)
      have hNext : HeapNext n s { s with machine := m } :=
        .kmalloc (by decide) hFits hRun hNe hRoom'.noFail
      obtain ⟨s0, hInit, hSteps⟩ := hReach
      have hLength' : m.vmapAreaPool.freeList.length = k := by
        rw [hFree, List.length_cons] at hLength
        rw [hRest]
        omega
      obtain ⟨s', hReach', hInv', hEmpty, hRoom''⟩ := ih (a + 4) { s with machine := m }
        ⟨s0, hInit, hSteps.tail hNext⟩ (heapInv_step hInv hNext) hLength' hRoom' (by omega)
      exact ⟨s', hReach', hInv', hEmpty, hRoom''.mono (by omega)⟩

/-- The tables of the small machine in 64 MiB of memory. -/
def wideMachine : Machine := { chainMachine with pageAllocBitmap := pageInitBitmap chainImage 0x3fff000#64 }

theorem wideMachine_boot : KernelBoot chainImage 0x3fff000#64 wideMachine where
  bitmap := rfl
  small := by decide
  enough := by decide
  tables := ⟨chainMachine_boot.tables.recursive, chainMachine_boot.tables.notRecursive,
    chainMachine_boot.tables.tree⟩
  reserved := by
    intro p f hp hf
    have hSame : reservedFrames chainImage 0x3fff000#64 = reservedFrames chainImage 0x3f000#64 := by decide
    rw [hSame]
    exact chainMachine_boot.reserved p f hp hf
  unmapped := chainMachine_boot.unmapped
  log := rfl
  areas := rfl

theorem costs_mmInit (n : Nat) : Costs n 128 mmInit := by
  have hOrder : (pagesToOrder vmapAreaPoolNrPages).toNat = 5 := by decide
  have hPages : vmapAreaPoolNrPages.toNat = 32 := by decide
  refine Costs.mono (Costs.bind (d := 96) (Costs.allocPages _) fun pa => ?_) (by rw [hOrder]; decide)
  refine Costs.mono (Costs.bind (d := 0) (Costs.mapPageRange _ _ _ _) fun ret => ?_)
    (by rw [hPages])
  refine Costs.of_respects fun s => ?_
  simp only [finalState, and_self]

/-- A run reaches an empty pool, with frames left. -/
theorem poolExhausted : ∃ s : HeapState, HeapReachable 16384 wideMachine s ∧ HeapInv 16384 s ∧
    s.machine.vmapAreaPool.freeList = [] ∧ Room 16384 (136 + 4 * 3276) s.machine := by
  have hBits : (pageInitBits 0x3fff000#64).toNat = 16384 := by decide
  have hReserved : reservedFrames chainImage 0x3fff000#64 = 8 := by decide
  have hValue : value? (mmInit wideMachine) = some () ∧
      (finalState (mmInit wideMachine)).allocLog = [⟨0x8000#64, 5#64⟩] ∧
      (finalState (mmInit wideMachine)).vmapAreaPool.freeList.length = 3276 := by
    decide +kernel
  have hRoom : Room 16384 8 wideMachine := by
    refine ⟨?_, by decide, fun k hk _ => ?_, fun b hb => ?_⟩
    · rw [wideMachine_boot.bitmap, pageInitBitmap_size]
      exact hBits
    · rw [wideMachine_boot.bitmap, pageInitBitmap_bit, hReserved, decide_eq_false_iff_not]
      omega
    · rw [wideMachine_boot.log] at hb
      cases hb
  have hRoom' := costs_mmInit 16384 wideMachine 8 hRoom (by decide)
  obtain ⟨hUnit, hLog, hLength⟩ := hValue
  have hRun := eq_ok_of_value hUnit
  generalize finalState (mmInit wideMachine) = m at hRun hLog hLength hRoom'
  have hInit : HeapInit wideMachine ⟨m, ⟨0x8000#64, 5#64⟩, []⟩ := by
    refine ⟨hRun, ?_, by simp [hLog], rfl⟩
    simp only [hLog, NoFail]
    decide
  have hReach : HeapReachable 16384 wideMachine ⟨m, ⟨0x8000#64, 5#64⟩, []⟩ :=
    ⟨_, hInit, Relation.ReflTransGen.refl⟩
  have hInv := heapInv_init wideMachine_boot hInit
  rw [hBits] at hInv
  exact exhaust 3276 136 _ hReach hInv hLength hRoom' (by decide)

theorem TablesServed.of_noFail {s m : Machine} (h : NoFail s.allocLog) (h' : NoFail m.allocLog) :
    TablesServed s m := ⟨h, fun b hb => h' b (List.mem_of_mem_drop hb)⟩

end Rayos
