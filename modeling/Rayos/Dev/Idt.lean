import Rayos.Lib.BitFields
import Rayos.Machine.Word

/-!
# The interrupt descriptor tables (`int.c`)

Each CPU has a table of its own, and `int_init` fills that of the CPU it runs on.  The entries are read back here as
the processor reads them, from the two words that they have in memory.

* `gateOf_descriptor` — the processor finds the address that was set, whatever it is.
* `intInit_user` — the tables after `int_init` on some CPUs: the other CPUs have what they had, and the system call is
  the only gate that user code can enter with an `int` instruction.
-/

namespace Rayos

open BitFields

/-! ## The code -/

/-- `idt_entry_t`. -/
structure IdtEntry where
  isrLow : BitVec 16
  kernelCs : BitVec 16
  ist : BitVec 8
  attributes : BitVec 8
  isrMid : BitVec 16
  isrHigh : BitVec 32
  reserved : BitVec 32
  deriving DecidableEq

/-- `__idt`. -/
abbrev IdtTables := Nat → BitVec 8 → IdtEntry

/-- `IDT_FLAG_KERNEL_INT`. -/
def idtFlagKernelInt : BitVec 8 := 1#8 <<< 7 ||| 0#8 <<< 5 ||| 0x0e#8

/-- `IDT_FLAG_USER_INT`. -/
def idtFlagUserInt : BitVec 8 := 1#8 <<< 7 ||| 3#8 <<< 5 ||| 0x0e#8

/-- The entry that `idt_set_descriptor` stores. -/
def descriptor (isr : U64) (flags : BitVec 8) : IdtEntry where
  isrLow := (isr &&& 0xffff#64).setWidth 16
  kernelCs := 0x08#16
  ist := 0#8
  attributes := flags
  isrMid := ((isr >>> 16) &&& 0xffff#64).setWidth 16
  isrHigh := ((isr >>> 32) &&& 0xffffffff#64).setWidth 32
  reserved := 0#32

/-- `idt_set_descriptor` on the CPU `cpuid`. -/
def idtSetDescriptor (cpuid : Nat) (vector : BitVec 8) (isr : U64) (flags : BitVec 8) (t : IdtTables) : IdtTables :=
  Function.update t cpuid (Function.update (t cpuid) vector (descriptor isr flags))

/-- The stubs of `isr_stubs.S`. -/
inductive IsrStub where
  | isrDefaultStub
  | isrDivideErrorStub
  | lapicTimerStub
  | isrSyscallStub
  | isrPageFaultStub
  | isrCom1Stub
  deriving DecidableEq

/-- `int_init` on the CPU `cpuid`; `address` is where the linker has put the stubs. -/
def intInit (address : IsrStub → U64) (cpuid : Nat) (t : IdtTables) : IdtTables :=
  let t := (List.range 256).foldl (fun t vector =>
    idtSetDescriptor cpuid (BitVec.ofNat 8 vector) (address .isrDefaultStub) idtFlagKernelInt t) t
  let t := idtSetDescriptor cpuid 0x00#8 (address .isrDivideErrorStub) idtFlagKernelInt t
  let t := idtSetDescriptor cpuid 0x0e#8 (address .isrPageFaultStub) idtFlagKernelInt t
  let t := idtSetDescriptor cpuid 0xef#8 (address .lapicTimerStub) idtFlagKernelInt t
  let t := idtSetDescriptor cpuid 0x80#8 (address .isrSyscallStub) idtFlagUserInt t
  idtSetDescriptor cpuid 0x24#8 (address .isrCom1Stub) idtFlagKernelInt t

/-! ## What the processor reads -/

/-- The first word of an entry in memory. -/
def IdtEntry.low (e : IdtEntry) : U64 := e.isrMid ++ (e.attributes ++ (e.ist ++ (e.kernelCs ++ e.isrLow)))

/-- The second word. -/
def IdtEntry.high (e : IdtEntry) : U64 := e.reserved ++ e.isrHigh

/-- A gate. -/
@[ext]
structure Gate where
  offset : U64
  selector : BitVec 16
  ist : BitVec 3
  type : BitVec 4
  dpl : BitVec 2
  present : Bool
  deriving DecidableEq

/-- The fields of a gate, by its two words. -/
def gateOf (low high : U64) : Gate where
  offset := high.extractLsb' 0 32 ++ (low.extractLsb' 48 16 ++ low.extractLsb' 0 16)
  selector := low.extractLsb' 16 16
  ist := low.extractLsb' 32 3
  type := low.extractLsb' 40 4
  dpl := low.extractLsb' 45 2
  present := low.getLsbD 47

/-- The gate of a vector on a CPU. -/
def IdtTables.gate (t : IdtTables) (cpuid : Nat) (vector : BitVec 8) : Gate :=
  gateOf (t cpuid vector).low (t cpuid vector).high

/-- `int vector`, executed with the privilege level `cpl`: the address of the stub, or a protection fault. -/
def intInstruction (t : IdtTables) (cpuid : Nat) (vector : BitVec 8) (cpl : BitVec 2) : Option U64 :=
  if (t.gate cpuid vector).present ∧ cpl ≤ (t.gate cpuid vector).dpl then some (t.gate cpuid vector).offset else none

/-- Bits of an address, as `idt_set_descriptor` cuts them out. -/
theorem part_of_isr (isr : U64) (k n : Nat) {mask : U64} (hn : n ≤ 64)
    (hMask : mask.extractLsb' 0 n = BitVec.allOnes n) :
    ((isr >>> k) &&& mask).setWidth n = isr.extractLsb' k n := by
  rw [BitVec.setWidth_eq_extractLsb' hn, field_mask _ hMask, field_shiftRight, Nat.add_zero]

/-- The address comes together again from its three parts. -/
theorem descriptor_offset (isr : U64) (flags : BitVec 8) :
    (descriptor isr flags).isrHigh ++ ((descriptor isr flags).isrMid ++ (descriptor isr flags).isrLow) = isr := by
  have hHigh : (descriptor isr flags).isrHigh = isr.extractLsb' 32 32 := part_of_isr isr 32 32 (by decide) (by decide)
  have hMid : (descriptor isr flags).isrMid = isr.extractLsb' 16 16 := part_of_isr isr 16 16 (by decide) (by decide)
  have hLow : (descriptor isr flags).isrLow = isr.extractLsb' 0 16 := part_of_isr isr 0 16 (by decide) (by decide)
  rw [hHigh, hMid, hLow, ← field_split isr 0 16 16]
  exact (eq_append_iff.mpr ⟨rfl, rfl⟩)

/-- The bits of the first word. -/
theorem low_getLsbD (e : IdtEntry) (i : Nat) : e.low.getLsbD i =
    if i < 16 then e.isrLow.getLsbD i else if i < 32 then e.kernelCs.getLsbD (i - 16)
    else if i < 40 then e.ist.getLsbD (i - 32) else if i < 48 then e.attributes.getLsbD (i - 40)
    else e.isrMid.getLsbD (i - 48) := by
  unfold IdtEntry.low
  simp only [BitVec.getLsbD_append]
  split_ifs <;> first | omega | rfl

/-- A field of the first word that lies in one of the parts. -/
theorem low_field {n : Nat} (e : IdtEntry) (s : Nat) {x : BitVec n}
    (h : ∀ i, i < n → e.low.getLsbD (s + i) = x.getLsbD i) : e.low.extractLsb' s n = x := by
  apply BitVec.eq_of_getLsbD_eq
  intro i hi
  rw [BitVec.getLsbD_extractLsb', h i hi]
  simp [hi]

/-- **A descriptor.**  The processor finds the address of the stub, the code selector of the kernel, no stack of the
interrupt stack table, and the type and the privilege level of the flags. -/
theorem gateOf_descriptor (isr : U64) (flags : BitVec 8) :
    gateOf (descriptor isr flags).low (descriptor isr flags).high =
      ⟨isr, 0x08#16, 0#3, flags.extractLsb' 0 4, flags.extractLsb' 5 2, flags.getLsbD 7⟩ := by
  ext1
  · refine Eq.trans ?_ (descriptor_offset isr flags)
    have hHigh : (descriptor isr flags).high.extractLsb' 0 32 = (descriptor isr flags).isrHigh :=
      (eq_append_iff.mp rfl).2.symm
    have hMid : (descriptor isr flags).low.extractLsb' 48 16 = (descriptor isr flags).isrMid :=
      (eq_append_iff.mp rfl).1.symm
    have hLow : (descriptor isr flags).low.extractLsb' 0 16 = (descriptor isr flags).isrLow := by
      refine low_field _ 0 fun i hi => ?_
      rw [low_getLsbD, if_pos (by omega), Nat.zero_add]
    rw [gateOf, hHigh, hMid, hLow]
  · refine low_field _ 16 fun i hi => ?_
    rw [low_getLsbD, if_neg (by omega), if_pos (by omega), Nat.add_sub_cancel_left]
    rfl
  · refine low_field _ 32 fun i hi => ?_
    rw [low_getLsbD, if_neg (by omega), if_neg (by omega), if_pos (by omega)]
    simp [descriptor]
  · refine low_field _ 40 fun i hi => ?_
    rw [low_getLsbD, if_neg (by omega), if_neg (by omega), if_neg (by omega), if_pos (by omega),
      Nat.add_sub_cancel_left, BitVec.getLsbD_extractLsb', Nat.zero_add]
    simp [hi, descriptor]
  · refine low_field _ 45 fun i hi => ?_
    rw [low_getLsbD, if_neg (by omega), if_neg (by omega), if_neg (by omega), if_pos (by omega),
      BitVec.getLsbD_extractLsb', show 45 + i - 40 = 5 + i by omega]
    simp [hi, descriptor]
  · exact low_getLsbD _ 47

/-! ## The tables after `int_init` -/

/-- The stub that `int_init` puts behind a vector. -/
def stubOf (vector : BitVec 8) : IsrStub :=
  if vector = 0x24#8 then .isrCom1Stub
  else if vector = 0x80#8 then .isrSyscallStub
  else if vector = 0xef#8 then .lapicTimerStub
  else if vector = 0x0e#8 then .isrPageFaultStub
  else if vector = 0x00#8 then .isrDivideErrorStub
  else .isrDefaultStub

/-- The flags of its entry. -/
def flagsOf (vector : BitVec 8) : BitVec 8 := if vector = 0x80#8 then idtFlagUserInt else idtFlagKernelInt

variable {cpuid : Nat} {t : IdtTables}

theorem idtSetDescriptor_apply (vector : BitVec 8) (isr : U64) (flags : BitVec 8) (c : Nat) (v : BitVec 8) :
    idtSetDescriptor cpuid vector isr flags t c v =
      if c = cpuid ∧ v = vector then descriptor isr flags else t c v := by
  unfold idtSetDescriptor
  by_cases hCpu : c = cpuid
  · subst hCpu
    rw [Function.update_self]
    by_cases hVector : v = vector
    · subst hVector
      rw [Function.update_self, if_pos ⟨rfl, rfl⟩]
    · rw [Function.update_of_ne hVector, if_neg fun h => hVector h.2]
  · rw [Function.update_of_ne hCpu, if_neg fun h => hCpu h.1]

/-- The loop over the vectors. -/
theorem defaults_apply (isr : U64) {n : Nat} (hn : n ≤ 256) (c : Nat) (v : BitVec 8) :
    (List.range n).foldl (fun t vector => idtSetDescriptor cpuid (BitVec.ofNat 8 vector) isr idtFlagKernelInt t) t c v =
      if c = cpuid ∧ v.toNat < n then descriptor isr idtFlagKernelInt else t c v := by
  induction n with
  | zero => simp
  | succ n ih =>
      have hVector : v = BitVec.ofNat 8 n ↔ v.toNat = n := by
        rw [← BitVec.toNat_inj, BitVec.toNat_ofNat, Nat.mod_eq_of_lt (by omega)]
      rw [List.range_succ, List.foldl_append, List.foldl_cons, List.foldl_nil, idtSetDescriptor_apply,
        ih (by omega)]
      simp only [hVector]
      split_ifs <;> first | rfl | omega

theorem intInit_apply (address : IsrStub → U64) (c : Nat) (v : BitVec 8) :
    intInit address cpuid t c v =
      if c = cpuid then descriptor (address (stubOf v)) (flagsOf v) else t c v := by
  unfold intInit
  simp only [idtSetDescriptor_apply]
  rw [defaults_apply _ (le_refl 256)]
  by_cases hCpu : c = cpuid
  · have hByte : v.toNat < 256 := v.isLt
    simp only [hCpu, true_and, hByte, if_true]
    unfold stubOf flagsOf
    split_ifs with h1 h2
    all_goals first
      | rfl
      | exact absurd (h1.symm.trans h2) (by decide)
  · simp only [hCpu, false_and, if_false]

/-- `int_init` on some CPUs, one after the other. -/
def intInits (address : IsrStub → U64) (cpus : List Nat) (t : IdtTables) : IdtTables :=
  cpus.foldl (fun t cpuid => intInit address cpuid t) t

theorem intInits_apply (address : IsrStub → U64) (cpus : List Nat) (t : IdtTables) (c : Nat) (v : BitVec 8) :
    intInits address cpus t c v =
      if c ∈ cpus then descriptor (address (stubOf v)) (flagsOf v) else t c v := by
  induction cpus generalizing t with
  | nil => simp [intInits]
  | cons cpuid cpus ih =>
      rw [intInits, List.foldl_cons, ← intInits, ih, intInit_apply]
      by_cases hRest : c ∈ cpus
      · rw [if_pos hRest, if_pos (List.mem_cons_of_mem cpuid hRest)]
      · by_cases hCpu : c = cpuid
        · rw [if_neg hRest, if_pos hCpu, if_pos (hCpu ▸ List.mem_cons_self)]
        · rw [if_neg hRest, if_neg hCpu, if_neg fun h => (List.mem_cons.mp h).elim hCpu hRest]

/-- Whatever the order of the CPUs, and also if one of them runs it twice. -/
theorem intInit_gate (address : IsrStub → U64) (cpus : List Nat) (t : IdtTables) (c : Nat) (v : BitVec 8) :
    (intInits address cpus t).gate c v =
      if c ∈ cpus then ⟨address (stubOf v), 0x08#16, 0#3, 0xe#4, if v = 0x80#8 then 3#2 else 0#2, true⟩
      else t.gate c v := by
  rw [IdtTables.gate, intInits_apply]
  by_cases hIn : c ∈ cpus
  · rw [if_pos hIn, if_pos hIn, gateOf_descriptor]
    by_cases hCall : v = 0x80#8
    · simp only [flagsOf, if_pos hCall]
      congr 1
    · simp only [flagsOf, if_neg hCall]
      congr 1
  · rw [if_neg hIn, if_neg hIn, IdtTables.gate]

/-- **System calls are the only way in.**  On a CPU that has run `int_init`, an `int` instruction of user code reaches a
stub if and only if its vector is that of the system calls, and the kernel itself can use all vectors. -/
theorem intInit_user (address : IsrStub → U64) {cpus : List Nat} (t : IdtTables) {c : Nat} (hIn : c ∈ cpus)
    (v : BitVec 8) :
    (intInits address cpus t).gate c v =
        ⟨address (stubOf v), 0x08#16, 0#3, 0xe#4, if v = 0x80#8 then 3#2 else 0#2, true⟩ ∧
      intInstruction (intInits address cpus t) c v 3#2 =
        (if v = 0x80#8 then some (address .isrSyscallStub) else none) ∧
      intInstruction (intInits address cpus t) c v 0#2 = some (address (stubOf v)) ∧
      ∀ c', c' ∉ cpus → intInits address cpus t c' = t c' := by
  have hGate := intInit_gate address cpus t c v
  rw [if_pos hIn] at hGate
  refine ⟨hGate, ?_, ?_, fun c' hOut => ?_⟩
  · rw [intInstruction, hGate]
    by_cases hCall : v = 0x80#8
    · subst hCall
      rfl
    · simp [hCall]
  · rw [intInstruction, hGate]
    simp
  · funext v'
    rw [intInits_apply, if_neg hOut]

/-- Two CPUs; the page fault cannot be raised by user code. -/
theorem intInit_user_two : intInstruction (intInits (fun _ => 0xffff800000100000#64) [0, 2] fun _ _ =>
    descriptor 0#64 0#8) 2 0x0e#8 3#2 = none :=
  (intInit_user (fun _ => 0xffff800000100000#64) (fun _ _ => descriptor 0#64 0#8)
    (show 2 ∈ [0, 2] by decide) 0x0e#8).2.1

end Rayos
