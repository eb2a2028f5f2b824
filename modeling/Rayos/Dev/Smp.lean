import Rayos.Dev.MadtWalk
import Rayos.Fs.KernelHeap
import Rayos.Mem.Heap

/-!
# The start of the other processors (`smp.c`, `trampoline.S`)

`smp_init` takes the ids that `acpi_madt_smp_counter` has collected, which are processor ids.  It allocates a
stack for each of them, stores its top at the position of the id in the list, and sends INIT and SIPI to the id.
A processor that starts loads its stack pointer from the slot of its APIC id.

* `allocStacks_iff`, `allocStacks_ok` — which stacks are allocated, and where they are stored.
* `smpInit_agrees_iff` — for which tables the three numbers agree.
-/

namespace Rayos

open Program

/-- `AP_BASE`. -/
def apBase : U64 := 0x8000#64

/-- `AP_STACK_SIZE`. -/
def apStackSize : Nat := 512 * 1024

/-- `TRAMPOLINE_VECTOR`. -/
def trampolineVector : BitVec 8 := 0x08#8

/-- What `cpuid` tells: the highest leaf, `ebx` and `edx` of leaf 0xB, and `ebx` of leaf 1. -/
structure Cpuid where
  maxLeaf : BitVec 32
  topologyEbx : BitVec 32
  topologyEdx : BitVec 32
  featuresEbx : BitVec 32

/-- `__get_current_apic_id`. -/
def getCurrentApicId (cpuid : Cpuid) : BitVec 32 :=
  if 0xB#32 ≤ cpuid.maxLeaf ∧ cpuid.topologyEbx ≠ 0#32 then cpuid.topologyEdx
  else (cpuid.featuresEbx >>> 24) &&& 0xff#32

/-- The interrupts that start a processor. -/
inductive Ipi where
  | init (apicId : BitVec 8)
  | sipi (apicId vector : BitVec 8)
  deriving DecidableEq

/-- `ap_startup`. -/
def apStartup (apicId : BitVec 8) : List Ipi :=
  [.init apicId, .sipi apicId trampolineVector, .sipi apicId trampolineVector]

/-- The heap and the stack array.  A slot that is written holds `AP_STACK_SIZE` plus a result of `kzalloc`, which
is not looked at; the others hold what was there before. -/
structure ApStacks where
  heap : KernelHeap
  slots : Nat → Option (Option Nat)

/-- The body of the loop that allocates the stacks. -/
def allocStack (bspId : BitVec 32) (apIds : Nat → BitVec 32) (acc : ApStacks) (i : Nat) :
    Except FsFault ApStacks :=
  if apIds i = bspId then .ok acc
  else do
    let (ptr, heap) ← acc.heap.kzalloc apStackSize
    .ok ⟨heap, Function.update acc.slots i (some ptr)⟩

/-- The loop, for the first `n` ids. -/
def allocStacks (bspId : BitVec 32) (apIds : Nat → BitVec 32) (heap : KernelHeap) (n : Nat) :
    Except FsFault ApStacks :=
  (List.range n).foldlM (allocStack bspId apIds) ⟨heap, fun _ => none⟩

/-- The stack array, and the interrupts sent. -/
structure SmpRun where
  slots : Nat → Option (Option Nat)
  sent : List Ipi

/-- `smp_init`.  It stops at a conflict-free mapping of the trampoline's page, which has to be mapped already, and
more than `MAX_CPUS` ids go beyond their array. -/
def smpInit (maxCpus : Nat) (cpuid : Cpuid) (mem : Machine) (heap : KernelHeap) (madt : Madt)
    (apIds : Nat → BitVec 32) : Except FsFault SmpRun :=
  match acpiMadtSmpCounter madt apIds with
  | none => .error .hang
  | some r =>
      if maxCpus < r.count then .error .overrun
      else
        match mapPageRange apBase apBase mapKernRw 1#64 mem with
        | .error _ _ => .error .hang
        | .ok ret _ =>
            if ret ≠ -mapErrExist then .error .hang
            else do
              let acc ← allocStacks (getCurrentApicId cpuid) r.apIds heap r.count
              .ok {
                slots := acc.slots
                sent := (List.range r.count).flatMap fun cont =>
                  if r.apIds cont = getCurrentApicId cpuid then [] else apStartup ((r.apIds cont).setWidth 8) }

/-- The stack that a processor loads in `trampoline.S`: its slot is the one of the APIC id in `bl`. -/
def apStack (slots : Nat → Option (Option Nat)) (apicId : BitVec 8) : Option (Option Nat) :=
  slots apicId.toNat

/-! ## The stacks -/

section Stacks

variable (bspId : BitVec 32) (apIds : Nat → BitVec 32) (heap : KernelHeap)

/-- There is memory for the stack of the id at position `i`. -/
def StackServed (i : Nat) : Prop :=
  heap.memory (heap.kzallocs + Nat.count (fun j => apIds j ≠ bspId) i) = true

instance (i : Nat) : Decidable (StackServed bspId apIds heap i) := by
  unfold StackServed
  infer_instance

variable {bspId apIds heap}

theorem kzalloc_unlocked {h : KernelHeap} (hFree : h.mmSpinlock = false) :
    h.kzalloc apStackSize = .ok (if h.memory h.kzallocs then some h.kzallocs else none,
      { h with kzallocs := h.kzallocs + 1, mmSpinlock := !h.memory h.kzallocs }) := by
  unfold KernelHeap.kzalloc
  rw [hFree, if_neg Bool.false_ne_true]
  by_cases hMem : h.memory h.kzallocs = true
  · rw [if_pos ⟨by decide, hMem⟩, if_pos hMem, hMem]
    obtain ⟨memory, kzallocs, mmSpinlock⟩ := h
    cases hFree
    rfl
  · rw [if_neg fun h => hMem h.2, if_neg hMem, eq_false_of_ne_true hMem]
    rfl

theorem allocStacks_succ (n : Nat) :
    allocStacks bspId apIds heap (n + 1) =
      (do let acc ← allocStacks bspId apIds heap n
          allocStack bspId apIds acc n) := by
  rw [allocStacks, List.range_succ, List.foldlM_append]
  refine bind_congr fun acc => ?_
  rw [List.foldlM_cons]
  simp

/-- After the first `n` ids: the calls of `kzalloc`, whether the lock is free, and the slots. -/
structure StacksOf (bspId : BitVec 32) (apIds : Nat → BitVec 32) (heap : KernelHeap) (n : Nat)
    (acc : ApStacks) : Prop where
  memory : acc.heap.memory = heap.memory
  kzallocs : acc.heap.kzallocs = heap.kzallocs + Nat.count (fun j => apIds j ≠ bspId) n
  free : acc.heap.mmSpinlock = false ↔
    heap.mmSpinlock = false ∧ ∀ i, i < n → apIds i ≠ bspId → StackServed bspId apIds heap i
  slots : ∀ i, acc.slots i =
    if i < n ∧ apIds i ≠ bspId then
      some (if StackServed bspId apIds heap i then
        some (heap.kzallocs + Nat.count (fun j => apIds j ≠ bspId) i) else none)
    else none

theorem stacksOf_zero : StacksOf bspId apIds heap 0 ⟨heap, fun _ => none⟩ where
  memory := rfl
  kzallocs := by rw [Nat.count_zero, Nat.add_zero]
  free := ⟨fun h => ⟨h, fun i hi => absurd hi (Nat.not_lt_zero i)⟩, And.left⟩
  slots := fun i => (if_neg fun h => Nat.not_lt_zero i h.1).symm

/-- The boot processor needs no stack. -/
theorem StacksOf.skip {n : Nat} {acc : ApStacks} (h : StacksOf bspId apIds heap n acc) (hBsp : apIds n = bspId) :
    StacksOf bspId apIds heap (n + 1) acc := by
  constructor
  · exact h.memory
  · rw [Nat.count_succ, if_neg (not_not.mpr hBsp), h.kzallocs, Nat.add_zero]
  · rw [h.free]
    constructor
    · rintro ⟨hFree, hServed⟩
      refine ⟨hFree, fun i hi hNe => hServed i ?_ hNe⟩
      have hOther : i ≠ n := fun hEq => hNe (hEq ▸ hBsp)
      omega
    · exact fun ⟨hFree, hServed⟩ => ⟨hFree, fun i hi => hServed i (Nat.lt_succ_of_lt hi)⟩
  · intro i
    rw [h.slots]
    have hSame : i < n + 1 ∧ apIds i ≠ bspId ↔ i < n ∧ apIds i ≠ bspId := by
      constructor
      · rintro ⟨hi, hNe⟩
        have hOther : i ≠ n := fun hEq => hNe (hEq ▸ hBsp)
        exact ⟨by omega, hNe⟩
      · exact fun ⟨hi, hNe⟩ => ⟨Nat.lt_succ_of_lt hi, hNe⟩
    simp only [hSame]

/-- Another processor gets the next block, or none. -/
theorem StacksOf.take {n : Nat} {acc : ApStacks} {ptr : Option Nat} {heap' : KernelHeap}
    (h : StacksOf bspId apIds heap n acc) (hNe : apIds n ≠ bspId)
    (hRun : acc.heap.kzalloc apStackSize = .ok (ptr, heap')) :
    StacksOf bspId apIds heap (n + 1) ⟨heap', Function.update acc.slots n (some ptr)⟩ := by
  have hFree : acc.heap.mmSpinlock = false := (KernelHeap.kzalloc_eq_ok hRun).1
  obtain ⟨hUnlocked, hServed⟩ := h.free.mp hFree
  have hMemory : acc.heap.memory acc.heap.kzallocs = true ↔ StackServed bspId apIds heap n := by
    rw [h.memory, h.kzallocs]
    rfl
  rw [kzalloc_unlocked hFree, Except.ok.injEq, Prod.mk.injEq] at hRun
  obtain ⟨rfl, rfl⟩ := hRun
  constructor
  · exact h.memory
  · rw [Nat.count_succ, if_pos hNe, ← Nat.add_assoc, ← h.kzallocs]
  · rw [Bool.not_eq_false', hMemory]
    constructor
    · intro hLast
      refine ⟨hUnlocked, fun i hi hOther => ?_⟩
      rcases Nat.lt_succ_iff_lt_or_eq.mp hi with hLt | rfl
      · exact hServed i hLt hOther
      · exact hLast
    · exact fun ⟨_, hAll⟩ => hAll n (Nat.lt_succ_self n) hNe
  · intro i
    show Function.update acc.slots n _ i = _
    by_cases hi : i = n
    · subst hi
      rw [Function.update_self, if_pos (show i < i + 1 ∧ apIds i ≠ bspId from ⟨Nat.lt_succ_self i, hNe⟩)]
      by_cases hLast : StackServed bspId apIds heap i
      · rw [if_pos (hMemory.mpr hLast), if_pos hLast, h.kzallocs]
      · rw [if_neg (hMemory.not.mpr hLast), if_neg hLast]
    · rw [Function.update_of_ne hi, h.slots]
      have hSame : i < n + 1 ∧ apIds i ≠ bspId ↔ i < n ∧ apIds i ≠ bspId := by
        constructor
        · exact fun ⟨hLt, hOther⟩ => ⟨by omega, hOther⟩
        · exact fun ⟨hLt, hOther⟩ => ⟨Nat.lt_succ_of_lt hLt, hOther⟩
      simp only [hSame]

/-- A block that is in a slot was allocated for its position. -/
theorem StacksOf.slot_eq {n i block : Nat} {acc : ApStacks} (h : StacksOf bspId apIds heap n acc)
    (hSlot : acc.slots i = some (some block)) :
    apIds i ≠ bspId ∧ block = heap.kzallocs + Nat.count (fun j => apIds j ≠ bspId) i := by
  rw [h.slots] at hSlot
  split at hSlot
  · rename_i hIn
    rw [Option.some.injEq] at hSlot
    split at hSlot
    · cases hSlot
      exact ⟨hIn.2, rfl⟩
    · cases hSlot
  · cases hSlot

/-- No block is in two slots. -/
theorem StacksOf.slots_inj {n i j block : Nat} {acc : ApStacks} (h : StacksOf bspId apIds heap n acc)
    (hi : acc.slots i = some (some block)) (hj : acc.slots j = some (some block)) : i = j := by
  obtain ⟨hiNe, hiBlock⟩ := h.slot_eq hi
  obtain ⟨hjNe, hjBlock⟩ := h.slot_eq hj
  exact Nat.count_injective hiNe hjNe (Nat.add_left_cancel (hiBlock.symm.trans hjBlock))

/-- A loop that ends has stored the stacks. -/
theorem allocStacks_ok {n : Nat} {acc : ApStacks} (hRun : allocStacks bspId apIds heap n = .ok acc) :
    StacksOf bspId apIds heap n acc := by
  induction n generalizing acc with
  | zero =>
      cases hRun
      exact stacksOf_zero
  | succ n ih =>
      rw [allocStacks_succ] at hRun
      cases hPrev : allocStacks bspId apIds heap n with
      | error e =>
          rw [hPrev] at hRun
          cases hRun
      | ok prev =>
          rw [hPrev] at hRun
          replace hRun : allocStack bspId apIds prev n = .ok acc := hRun
          unfold allocStack at hRun
          split at hRun
          · rename_i hBsp
            cases hRun
            exact (ih hPrev).skip hBsp
          · rename_i hNe
            cases hAlloc : prev.heap.kzalloc apStackSize with
            | error e =>
                rw [hAlloc] at hRun
                cases hRun
            | ok r =>
                rw [hAlloc] at hRun
                cases hRun
                exact (ih hPrev).take hNe hAlloc

/-- The loop ends exactly when every allocation but the last finds the lock free, and the ones before it find
memory. -/
theorem allocStacks_iff (n : Nat) :
    (∃ acc, allocStacks bspId apIds heap n = .ok acc) ↔
      ∀ j, j < n → apIds j ≠ bspId →
        heap.mmSpinlock = false ∧ ∀ i, i < j → apIds i ≠ bspId → StackServed bspId apIds heap i := by
  induction n with
  | zero => exact ⟨fun _ j hj => absurd hj (Nat.not_lt_zero j), fun _ => ⟨_, rfl⟩⟩
  | succ n ih =>
      rw [allocStacks_succ]
      constructor
      · rintro ⟨acc, hRun⟩
        cases hPrev : allocStacks bspId apIds heap n with
        | error e =>
            rw [hPrev] at hRun
            cases hRun
        | ok prev =>
            rw [hPrev] at hRun
            replace hRun : allocStack bspId apIds prev n = .ok acc := hRun
            intro j hj hNe
            rcases Nat.lt_succ_iff_lt_or_eq.mp hj with hLt | rfl
            · exact ih.mp ⟨prev, hPrev⟩ j hLt hNe
            · rw [allocStack, if_neg hNe] at hRun
              cases hAlloc : prev.heap.kzalloc apStackSize with
              | error e =>
                  rw [hAlloc] at hRun
                  cases hRun
              | ok r => exact (allocStacks_ok hPrev).free.mp (KernelHeap.kzalloc_eq_ok hAlloc).1
      · intro hAll
        obtain ⟨prev, hPrev⟩ := ih.mpr fun j hj => hAll j (Nat.lt_succ_of_lt hj)
        rw [hPrev]
        show ∃ acc, allocStack bspId apIds prev n = .ok acc
        unfold allocStack
        split
        · exact ⟨prev, rfl⟩
        · rename_i hNe
          have hFree := (allocStacks_ok hPrev).free.mpr (hAll n (Nat.lt_succ_self n) hNe)
          rw [kzalloc_unlocked hFree]
          exact ⟨_, rfl⟩

end Stacks

/-! ## The numbers -/

/-- The processor ids of the entries that were counted; behind them the id of the boot processor stands. -/
def processorIds (bspId : BitVec 32) (madt : Madt) (found : List Nat) (i : Nat) : BitVec 32 :=
  ((found[i]?).map fun p => (processorId madt p).setWidth 32).getD bspId

/-- The interrupts for these entries. -/
def startupIpis (bspId : BitVec 32) (madt : Madt) (found : List Nat) : List Ipi :=
  (List.range found.length).flatMap fun i =>
    if processorIds bspId madt found i = bspId then []
    else apStartup ((processorIds bspId madt found i).setWidth 8)

/-- Below `n` the loop reads the ids only. -/
theorem allocStacks_congr {bspId : BitVec 32} {apIds apIds' : Nat → BitVec 32} {heap : KernelHeap} :
    ∀ {n : Nat}, (∀ i, i < n → apIds i = apIds' i) →
      allocStacks bspId apIds heap n = allocStacks bspId apIds' heap n := by
  intro n
  induction n with
  | zero => exact fun _ => rfl
  | succ n ih =>
      intro hSame
      rw [allocStacks_succ, allocStacks_succ, ih fun i hi => hSame i (Nat.lt_succ_of_lt hi)]
      refine bind_congr fun acc => ?_
      rw [allocStack, allocStack, hSame n (Nat.lt_succ_self n)]

variable {maxCpus : Nat} {cpuid : Cpuid} {mem : Machine} {heap : KernelHeap} {madt : Madt}
  {apIds : Nat → BitVec 32} {entries : List Nat}

/-- The page of the trampoline is mapped. -/
def TrampolineMapped (mem : Machine) : Prop :=
  ∃ mem', mapPageRange apBase apBase mapKernRw 1#64 mem = .ok (-mapErrExist) mem'

/-- The calls of `smp_init` that return. -/
theorem smpInit_ok_iff {run : SmpRun} :
    smpInit maxCpus cpuid mem heap madt apIds = .ok run ↔
      ∃ path acc, SmpPath madt (smpCounterEnd madt) madtEntries path ∧
        (path.filter (enabledLocalApic madt)).length ≤ maxCpus ∧ TrampolineMapped mem ∧
        allocStacks (getCurrentApicId cpuid)
            (processorIds (getCurrentApicId cpuid) madt (path.filter (enabledLocalApic madt))) heap
            (path.filter (enabledLocalApic madt)).length = .ok acc ∧
        run = ⟨acc.slots, startupIpis (getCurrentApicId cpuid) madt (path.filter (enabledLocalApic madt))⟩ := by
  -- the ids that the counter has stored
  have hIds {r : SmpCount} {path : List Nat} (i : Nat)
      (hAp : ∀ i, r.apIds i = (((path.filter (enabledLocalApic madt))[i]?).map
        fun p => (processorId madt p).setWidth 32).getD (apIds i))
      (hi : i < (path.filter (enabledLocalApic madt)).length) :
      r.apIds i = processorIds (getCurrentApicId cpuid) madt (path.filter (enabledLocalApic madt)) i := by
    rw [hAp, processorIds, List.getElem?_eq_getElem hi]
    rfl
  have hSent {r : SmpCount} {path : List Nat} (hCount : r.count = (path.filter (enabledLocalApic madt)).length)
      (hAp : ∀ i, r.apIds i = (((path.filter (enabledLocalApic madt))[i]?).map
        fun p => (processorId madt p).setWidth 32).getD (apIds i)) :
      ((List.range r.count).flatMap fun cont =>
          if r.apIds cont = getCurrentApicId cpuid then [] else apStartup ((r.apIds cont).setWidth 8)) =
        startupIpis (getCurrentApicId cpuid) madt (path.filter (enabledLocalApic madt)) := by
    rw [startupIpis, hCount]
    refine List.flatMap_congr fun i hi => ?_
    rw [hIds i hAp (List.mem_range.mp hi)]
  constructor
  · intro hRun
    unfold smpInit at hRun
    cases hCounter : acpiMadtSmpCounter madt apIds with
    | none =>
        rw [hCounter] at hRun
        cases hRun
    | some r =>
        obtain ⟨path, hPath, -, hCount, hAp⟩ := acpiMadtSmpCounter_path hCounter
        simp only [hCounter] at hRun
        split at hRun
        · cases hRun
        · rename_i hFew
          cases hMap : mapPageRange apBase apBase mapKernRw 1#64 mem with
          | error e mem' =>
              rw [hMap] at hRun
              cases hRun
          | ok ret mem' =>
              simp only [hMap] at hRun
              split at hRun
              · cases hRun
              · rename_i hRet
                rw [hCount, allocStacks_congr fun i => hIds i hAp] at hRun
                cases hAlloc : allocStacks (getCurrentApicId cpuid) (processorIds (getCurrentApicId cpuid) madt
                    (path.filter (enabledLocalApic madt))) heap (path.filter (enabledLocalApic madt)).length with
                | error e =>
                    rw [hAlloc] at hRun
                    cases hRun
                | ok acc =>
                    rw [hAlloc] at hRun
                    cases hRun
                    refine ⟨path, acc, hPath, by omega, ⟨mem', ?_⟩, hAlloc, ?_⟩
                    · rw [hMap, not_not.mp hRet]
                    · rw [← hSent hCount hAp, hCount]
  · rintro ⟨path, acc, hPath, hFew, ⟨mem', hMap⟩, hAlloc, rfl⟩
    obtain ⟨r, hCounter⟩ := (acpiMadtSmpCounter_returns_iff apIds).mpr ⟨path, hPath⟩
    obtain ⟨path', hPath', -, hCount, hAp⟩ := acpiMadtSmpCounter_path hCounter
    cases hPath'.unique hPath
    unfold smpInit
    simp only [hCounter, hMap]
    rw [if_neg (by omega), if_neg (not_not.mpr rfl), hCount, allocStacks_congr fun i => hIds i hAp, hAlloc,
      ← hSent hCount hAp, hCount]
    rfl

/-! ## Who is started -/

/-- An enabled entry of the table for a processor other than the boot processor has this APIC id. -/
def OtherCpu (madt : Madt) (entries : List Nat) (bspId : BitVec 32) (a : BitVec 8) : Prop :=
  a.setWidth 32 ≠ bspId ∧ ∃ q ∈ entries, enabledLocalApic madt q = true ∧ apicId madt q = a

/-- INIT and SIPI go to exactly the other processors, and each of them loads the top of a stack that is in no
other slot. -/
structure BringUpAgrees (madt : Madt) (entries : List Nat) (bspId : BitVec 32) (run : SmpRun) : Prop where
  init : ∀ a, Ipi.init a ∈ run.sent ↔ OtherCpu madt entries bspId a
  sipi : ∀ a v, Ipi.sipi a v ∈ run.sent ↔ OtherCpu madt entries bspId a ∧ v = trampolineVector
  stack : ∀ a, OtherCpu madt entries bspId a →
    ∃ block, apStack run.slots a = some (some block) ∧ ∀ i, i ≠ a.toNat → run.slots i ≠ some (some block)

/-- The numbers agree on the entries `found` that are counted: they have the processor ids that the other
processors of the table have as APIC ids, and such an id is also a position in the list, of an id other than the
one of the boot processor.  Every stack finds memory, save one that is allocated last and for no processor. -/
structure SmpNumbered (maxCpus : Nat) (bspId : BitVec 32) (mem : Machine) (heap : KernelHeap) (madt : Madt)
    (entries found : List Nat) : Prop where
  few : found.length ≤ maxCpus
  mapped : TrampolineMapped mem
  ids : ∀ a : BitVec 8, a.setWidth 32 ≠ bspId →
    ((∃ p ∈ found, processorId madt p = a) ↔ ∃ q ∈ entries, enabledLocalApic madt q = true ∧ apicId madt q = a)
  places : ∀ a, OtherCpu madt entries bspId a → processorIds bspId madt found a.toNat ≠ bspId
  unlocked : (∃ i, processorIds bspId madt found i ≠ bspId) → heap.mmSpinlock = false
  memory : ∀ i, processorIds bspId madt found i ≠ bspId →
    (∃ j, i < j ∧ processorIds bspId madt found j ≠ bspId) ∨
      (∃ a, OtherCpu madt entries bspId a ∧ a.toNat = i) →
    StackServed bspId (processorIds bspId madt found) heap i

variable {bspId : BitVec 32} {found : List Nat}

theorem processorIds_ne_iff {i : Nat} :
    processorIds bspId madt found i ≠ bspId ↔
      ∃ p, found[i]? = some p ∧ (processorId madt p).setWidth 32 ≠ bspId := by
  unfold processorIds
  cases found[i]? with
  | none => simp
  | some p => simp

theorem lt_of_processorIds_ne {i : Nat} (h : processorIds bspId madt found i ≠ bspId) : i < found.length := by
  obtain ⟨p, hp, -⟩ := processorIds_ne_iff.mp h
  exact (List.getElem?_eq_some_iff.mp hp).1

/-- The interrupts go to the processor ids. -/
theorem mem_startupIpis {ipi : Ipi} :
    ipi ∈ startupIpis bspId madt found ↔
      ∃ p ∈ found, (processorId madt p).setWidth 32 ≠ bspId ∧ ipi ∈ apStartup (processorId madt p) := by
  rw [startupIpis, List.mem_flatMap]
  have hId {i p : Nat} (hp : found[i]? = some p) :
      processorIds bspId madt found i = (processorId madt p).setWidth 32 := by
    rw [processorIds, hp]
    rfl
  constructor
  · rintro ⟨i, -, hIn⟩
    split at hIn
    · cases hIn
    · rename_i hNe
      obtain ⟨p, hp, hOther⟩ := processorIds_ne_iff.mp hNe
      rw [hId hp, BitVec.setWidth_setWidth_of_le _ (by decide), BitVec.setWidth_eq] at hIn
      exact ⟨p, List.mem_of_getElem? hp, hOther, hIn⟩
  · rintro ⟨p, hp, hOther, hIn⟩
    obtain ⟨i, hi⟩ := List.getElem?_of_mem hp
    refine ⟨i, List.mem_range.mpr (List.getElem?_eq_some_iff.mp hi).1, ?_⟩
    rw [hId hi, if_neg hOther, BitVec.setWidth_setWidth_of_le _ (by decide), BitVec.setWidth_eq]
    exact hIn

theorem init_mem_startupIpis {a : BitVec 8} :
    Ipi.init a ∈ startupIpis bspId madt found ↔ a.setWidth 32 ≠ bspId ∧ ∃ p ∈ found, processorId madt p = a := by
  rw [mem_startupIpis]
  constructor
  · rintro ⟨p, hp, hOther, hIn⟩
    simp only [apStartup, List.mem_cons, Ipi.init.injEq, reduceCtorEq, List.not_mem_nil, or_false] at hIn
    exact ⟨hIn ▸ hOther, p, hp, hIn.symm⟩
  · rintro ⟨hOther, p, hp, rfl⟩
    exact ⟨p, hp, hOther, List.mem_cons_self⟩

theorem sipi_mem_startupIpis {a v : BitVec 8} :
    Ipi.sipi a v ∈ startupIpis bspId madt found ↔
      Ipi.init a ∈ startupIpis bspId madt found ∧ v = trampolineVector := by
  rw [mem_startupIpis, init_mem_startupIpis]
  constructor
  · rintro ⟨p, hp, hOther, hIn⟩
    simp only [apStartup, List.mem_cons, Ipi.sipi.injEq, reduceCtorEq, List.not_mem_nil, or_false, false_or,
      or_self] at hIn
    exact ⟨⟨hIn.1 ▸ hOther, p, hp, hIn.1.symm⟩, hIn.2⟩
  · rintro ⟨⟨hOther, p, hp, rfl⟩, rfl⟩
    exact ⟨p, hp, hOther, List.mem_cons_of_mem _ List.mem_cons_self⟩

/-- **The start of the processors.**  For every table whose entries fill it, the numbers agree exactly when the
entries that `acpi_madt_smp_counter` comes to are numbered as `SmpNumbered` says. -/
theorem smpInit_agrees_iff (maxCpus : Nat) (cpuid : Cpuid) (mem : Machine) (heap : KernelHeap) (madt : Madt)
    (apIds : Nat → BitVec 32) (entries : List Nat) :
    (∃ run, smpInit maxCpus cpuid mem heap madt apIds = .ok run ∧
        BringUpAgrees madt entries (getCurrentApicId cpuid) run) ↔
      ∃ path, SmpPath madt (smpCounterEnd madt) madtEntries path ∧
        SmpNumbered maxCpus (getCurrentApicId cpuid) mem heap madt entries
          (path.filter (enabledLocalApic madt)) := by
  constructor
  · rintro ⟨run, hRun, hAgrees⟩
    obtain ⟨path, acc, hPath, hFew, hMapped, hAlloc, rfl⟩ := smpInit_ok_iff.mp hRun
    have hStacks := allocStacks_ok hAlloc
    have hLoop := (allocStacks_iff _).mp ⟨acc, hAlloc⟩
    -- a stack that a processor loads has been allocated
    have hLoaded : ∀ a, OtherCpu madt entries (getCurrentApicId cpuid) a →
        processorIds (getCurrentApicId cpuid) madt (path.filter (enabledLocalApic madt)) a.toNat ≠
            getCurrentApicId cpuid ∧
          StackServed (getCurrentApicId cpuid)
            (processorIds (getCurrentApicId cpuid) madt (path.filter (enabledLocalApic madt))) heap a.toNat := by
      intro a ha
      obtain ⟨block, hSlot, -⟩ := hAgrees.stack a ha
      replace hSlot : acc.slots a.toNat = some (some block) := hSlot
      rw [hStacks.slots] at hSlot
      split at hSlot
      · rename_i hIn
        refine ⟨hIn.2, ?_⟩
        by_contra hNot
        rw [if_neg hNot] at hSlot
        cases hSlot
      · cases hSlot
    refine ⟨path, hPath, hFew, hMapped, fun a ha => ?_, fun a ha => (hLoaded a ha).1, ?_, ?_⟩
    · have hInit := hAgrees.init a
      rw [init_mem_startupIpis, OtherCpu] at hInit
      exact and_congr_right_iff.mp hInit ha
    · rintro ⟨i, hi⟩
      exact (hLoop i (lt_of_processorIds_ne hi) hi).1
    · rintro i hi (⟨j, hLt, hj⟩ | ⟨a, ha, rfl⟩)
      · exact (hLoop j (lt_of_processorIds_ne hj) hj).2 i hLt hi
      · exact (hLoaded a ha).2
  · rintro ⟨path, hPath, hNumbered⟩
    obtain ⟨acc, hAlloc⟩ := (allocStacks_iff (path.filter (enabledLocalApic madt)).length).mpr fun j _ hj =>
      ⟨hNumbered.unlocked ⟨j, hj⟩, fun i hi hNe => hNumbered.memory i hNe (.inl ⟨j, hi, hj⟩)⟩
    have hStacks := allocStacks_ok hAlloc
    have hInit : ∀ a, Ipi.init a ∈ startupIpis (getCurrentApicId cpuid) madt
        (path.filter (enabledLocalApic madt)) ↔ OtherCpu madt entries (getCurrentApicId cpuid) a := by
      intro a
      rw [init_mem_startupIpis, OtherCpu]
      exact and_congr_right fun ha => hNumbered.ids a ha
    refine ⟨_, smpInit_ok_iff.mpr ⟨path, acc, hPath, hNumbered.few, hNumbered.mapped, hAlloc, rfl⟩, hInit, ?_, ?_⟩
    · intro a v
      rw [sipi_mem_startupIpis, hInit]
    · intro a ha
      have hPlace := hNumbered.places a ha
      have hServed := hNumbered.memory _ hPlace (.inr ⟨a, ha, rfl⟩)
      have hSlot := hStacks.slots a.toNat
      rw [if_pos ⟨lt_of_processorIds_ne hPlace, hPlace⟩, if_pos hServed] at hSlot
      exact ⟨_, hSlot, fun i hi hSame => hi (hStacks.slots_inj hSame hSlot)⟩

/-- A table with two enabled processors: the boot processor, and one with processor id 1 and this APIC id. -/
def madtPair (a : BitVec 8) : Madt := fun k =>
  if k = 4 then 60#8
  else if k = 45 ∨ k = 53 then 8#8
  else if k = 48 ∨ k = 54 ∨ k = 56 then 1#8
  else if k = 55 then a
  else if k = 60 then 255#8
  else if k = 61 then 200#8
  else 0#8

/-- `chainMachine` with the page of the trampoline mapped. -/
def trampolineMachine : Machine := (chainMachine.write 1 0 0x2001#64).write 4 8 0x8003#64

theorem trampolineMachine_mapped : TrampolineMapped trampolineMachine := by
  have hValue : value? (mapPageRange apBase apBase mapKernRw 1#64 trampolineMachine) = some (-mapErrExist) := by
    decide
  exact ⟨_, eq_ok_of_value hValue⟩

/-- A processor whose APIC id is 0. -/
def bootCpuid : Cpuid := ⟨0#32, 0#32, 0#32, 0#32⟩

/-- A heap that has memory for every request. -/
def freeHeap : KernelHeap := ⟨fun _ => true, 0, false⟩

theorem madtPair_path (a : BitVec 8) :
    SmpPath (madtPair a) (smpCounterEnd (madtPair a)) madtEntries [44, 52, 60] := by
  have hEnd : smpCounterEnd (madtPair a) = 104 := by
    simp [smpCounterEnd, headerLength, madtPair, LittleEndian.leNat, madtEntries]
  rw [hEnd]
  have hFirst : entryLength (madtPair a) 44 = 8 := rfl
  have hSecond : entryLength (madtPair a) 52 = 8 := rfl
  have hThird : entryLength (madtPair a) 60 = 200 := rfl
  refine .entry (by decide) ?_
  rw [madtEntries, hFirst]
  refine .entry (by decide) ?_
  rw [hSecond]
  refine .entry (by decide) ?_
  rw [hThird]
  exact .done (by decide)

/-- With the APIC id 1 the numbers agree. -/
theorem smpInit_agrees_dense :
    ∃ run, smpInit 4 bootCpuid trampolineMachine freeHeap (madtPair 1#8) (fun _ => 0#32) = .ok run ∧
      BringUpAgrees (madtPair 1#8) [44, 52] 0#32 run := by
  refine (smpInit_agrees_iff 4 bootCpuid trampolineMachine freeHeap (madtPair 1#8) (fun _ => 0#32) [44, 52]).mpr
    ⟨_, madtPair_path 1#8, ?_⟩
  have hFound : [44, 52, 60].filter (enabledLocalApic (madtPair 1#8)) = [44, 52] := by decide
  rw [hFound]
  have hOther : ∀ a, OtherCpu (madtPair 1#8) [44, 52] (getCurrentApicId bootCpuid) a → a = 1#8 := by
    rintro a ⟨hNe, q, hq, -, rfl⟩
    rcases List.mem_cons.mp hq with rfl | hq
    · exact absurd (by decide) hNe
    · rw [List.mem_singleton.mp hq]
      rfl
  refine ⟨by decide, trampolineMachine_mapped, by decide, ?_, fun _ => rfl, fun _ _ _ => rfl⟩
  intro a ha
  rw [hOther a ha]
  decide

/-- With the APIC id 2 the INIT goes to 1, and the processor with the id 2 is left out; its slot is not written. -/
theorem smp_init_sparse :
    MadtEntries (madtPair 2#8) [44, 52] ∧ OtherCpu (madtPair 2#8) [44, 52] 0#32 2#8 ∧
      (∃ run, smpInit 4 bootCpuid trampolineMachine freeHeap (madtPair 2#8) (fun _ => 0#32) = .ok run ∧
        Ipi.init 1#8 ∈ run.sent ∧ Ipi.init 2#8 ∉ run.sent ∧ apStack run.slots 2#8 = none) ∧
      ¬ ∃ run, smpInit 4 bootCpuid trampolineMachine freeHeap (madtPair 2#8) (fun _ => 0#32) = .ok run ∧
        BringUpAgrees (madtPair 2#8) [44, 52] 0#32 run := by
  have hFound : [44, 52, 60].filter (enabledLocalApic (madtPair 2#8)) = [44, 52] := by decide
  have hEntries : MadtEntries (madtPair 2#8) [44, 52] := .entry (by decide) (.entry (by decide) .done)
  obtain ⟨acc, hAlloc⟩ : ∃ acc, allocStacks 0#32 (processorIds 0#32 (madtPair 2#8) [44, 52]) freeHeap 2 = .ok acc :=
    (allocStacks_iff 2).mpr fun _ _ _ => ⟨rfl, fun _ _ _ => rfl⟩
  have hSlot : acc.slots 2 = none := ((allocStacks_ok hAlloc).slots 2).trans (if_neg fun h => lt_irrefl 2 h.1)
  have hRun : smpInit 4 bootCpuid trampolineMachine freeHeap (madtPair 2#8) (fun _ => 0#32) =
      .ok ⟨acc.slots, startupIpis 0#32 (madtPair 2#8) [44, 52]⟩ := by
    refine smpInit_ok_iff.mpr ⟨_, acc, madtPair_path 2#8, ?_⟩
    rw [hFound]
    exact ⟨by decide, trampolineMachine_mapped, hAlloc, rfl⟩
  have hOne : Ipi.init 1#8 ∈ startupIpis 0#32 (madtPair 2#8) [44, 52] := by decide
  have hTwo : Ipi.init 2#8 ∉ startupIpis 0#32 (madtPair 2#8) [44, 52] := by decide
  refine ⟨hEntries, ⟨by decide, 52, by decide, by decide, by decide⟩, ⟨_, hRun, hOne, hTwo, hSlot⟩, ?_⟩
  rintro ⟨run, hRun', hAgrees⟩
  cases hRun.symm.trans hRun'
  obtain ⟨-, q, hq, -, hId⟩ := (hAgrees.init 1#8).mp hOne
  rcases List.mem_cons.mp hq with rfl | hq
  · exact absurd hId (by decide)
  · rw [List.mem_singleton.mp hq] at hId
    exact absurd hId (by decide)

end Rayos
