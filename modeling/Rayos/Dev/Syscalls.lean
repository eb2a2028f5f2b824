import Rayos.Dev.Idt
import Rayos.Dev.IsrStubs

/-!
# System calls (`int.c`, `user/libc.c`)

A program puts the number of the call and its arguments into registers and executes `int $0x80`.  The stub saves the
registers, and the handler finds the arguments there and stores the result there, so that the program has it when the
stub has loaded the registers again.  An `int` of the program has become a 64-bit register, an `int` of the kernel, and
a register again.

* `isrSyscallHandler_ok` — the handler changes one of the saved words;
* `syscallStub_ok` — the registers after `iretq`;
* `libcCall_ok` — a function of the library is the function of the kernel.
-/

namespace Rayos

open SavedFrame

/-! ## The handler -/

/-- The functions of the kernel that the handler calls; `none` is one that does not return. -/
structure SysCalls (M : Type) where
  sysOpen : U64 → BitVec 32 → M → Option (BitVec 32 × M)
  sysClose : BitVec 32 → M → Option (BitVec 32 × M)
  sysRead : BitVec 32 → U64 → U64 → M → Option (BitVec 32 × M)
  sysWrite : BitVec 32 → U64 → U64 → M → Option (BitVec 32 × M)
  sysSync : M → Option M
  sysExit : BitVec 32 → M → Option M

/-- The numbers of the calls. -/
inductive NumSyscall where
  | sysOpen
  | sysClose
  | sysRead
  | sysWrite
  | sysStat
  | sysSync
  | sysExit
  deriving DecidableEq

/-- The value of a constant of the enumeration. -/
def NumSyscall.nr : NumSyscall → U64
  | .sysOpen => 0#64
  | .sysClose => 1#64
  | .sysRead => 2#64
  | .sysWrite => 3#64
  | .sysStat => 4#64
  | .sysSync => 5#64
  | .sysExit => 6#64

theorem NumSyscall.nr_inj (a b : NumSyscall) : a.nr = b.nr ↔ a = b := by
  cases a <;> cases b <;> decide

/-- The fields of `struct context`. -/
def contextFields : List Reg :=
  [.r15, .r14, .r13, .r12, .r11, .r10, .r9, .r8, .rbp, .rdi, .rsi, .rdx, .rcx, .rbx, .rax, .rflags]

/-- The address of a field. -/
def contextField (ctx : U64) (r : Reg) : U64 := above ctx (contextFields.idxOf r)

section Handler

variable {A : Type} [DecidableEq A] (tr : U64 → Option A) (sys : SysCalls (A → U64))

/-- `ctx->rax = r`, for an `int`. -/
def setResult (ctx : U64) (r : BitVec 32 × (A → U64)) : Option (A → U64) :=
  store tr r.2 (contextField ctx .rax) (r.1.signExtend 64)

/-- `isr_syscall_handler`: the memory when it returns. -/
def isrSyscallHandler (ctx : U64) (mem : A → U64) : Option (A → U64) := do
  let nr ← SavedFrame.load tr mem (contextField ctx .rax)
  let rdi ← SavedFrame.load tr mem (contextField ctx .rdi)
  let rsi ← SavedFrame.load tr mem (contextField ctx .rsi)
  let rdx ← SavedFrame.load tr mem (contextField ctx .rdx)
  if nr = NumSyscall.nr .sysOpen then (sys.sysOpen rdi (rsi.setWidth 32) mem).bind (setResult tr ctx)
  else if nr = NumSyscall.nr .sysClose then (sys.sysClose (rdi.setWidth 32) mem).bind (setResult tr ctx)
  else if nr = NumSyscall.nr .sysRead then (sys.sysRead (rdi.setWidth 32) rsi rdx mem).bind (setResult tr ctx)
  else if nr = NumSyscall.nr .sysWrite then (sys.sysWrite (rdi.setWidth 32) rsi rdx mem).bind (setResult tr ctx)
  else if nr = NumSyscall.nr .sysSync then sys.sysSync mem
  else if nr = NumSyscall.nr .sysExit then sys.sysExit (rdi.setWidth 32) mem
  else setResult tr ctx (-1#32, mem)

end Handler

/-! ## What a call means -/

section Meaning

variable {M : Type} (sys : SysCalls M)

/-- The result for the registers of a program, if there is one to store, and the memory. -/
def SysCalls.answer (reg : Reg → U64) (mem : M) : Option (Option (BitVec 32) × M) :=
  let value := fun r : BitVec 32 × M => (some r.1, r.2)
  if reg .rax = NumSyscall.nr .sysOpen then (sys.sysOpen (reg .rdi) ((reg .rsi).setWidth 32) mem).map value
  else if reg .rax = NumSyscall.nr .sysClose then (sys.sysClose ((reg .rdi).setWidth 32) mem).map value
  else if reg .rax = NumSyscall.nr .sysRead then
    (sys.sysRead ((reg .rdi).setWidth 32) (reg .rsi) (reg .rdx) mem).map value
  else if reg .rax = NumSyscall.nr .sysWrite then
    (sys.sysWrite ((reg .rdi).setWidth 32) (reg .rsi) (reg .rdx) mem).map value
  else if reg .rax = NumSyscall.nr .sysSync then (sys.sysSync mem).map fun mem => (none, mem)
  else if reg .rax = NumSyscall.nr .sysExit then (sys.sysExit ((reg .rdi).setWidth 32) mem).map fun mem => (none, mem)
  else some (some (-1#32), mem)

/-- `rax` after the call. -/
def resultRax (reg : Reg → U64) (r : Option (BitVec 32)) : U64 := (r.map (BitVec.signExtend 64)).getD (reg .rax)

end Meaning

section Handled

variable {A : Type} [DecidableEq A] {tr : U64 → Option A} {sys : SysCalls (A → U64)} {own : Set A} {ctx : U64}
  {reg : Reg → U64} {vs : List U64} {mem : A → U64}

/-- The structure is what `PUSH_ALL` leaves. -/
theorem contextFields_eq : contextFields = popAllRegs := rfl

omit [DecidableEq A] in
/-- A field holds the register of its name. -/
theorem load_contextField (h : Holds tr mem own ctx (popAllRegs.map reg ++ vs)) (r : Reg) :
    SavedFrame.load tr mem (contextField ctx r) = some (reg r) := by
  have hIdx : popAllRegs.idxOf r < popAllRegs.length := List.idxOf_lt_length_iff.mpr (mem_popAllRegs r)
  have hLen : popAllRegs.idxOf r < (popAllRegs.map reg ++ vs).length := by
    rw [List.length_append, List.length_map]
    omega
  rw [contextField, contextFields_eq, h.load_get hLen, List.getElem_append_left (by rwa [List.length_map]),
    List.getElem_map, List.getElem_idxOf hIdx]

/-- Storing a field is changing a register. -/
theorem store_contextField (hRoom : Vacant tr own (16 + vs.length) (above ctx (16 + vs.length)))
    (h : Holds tr mem own ctx (popAllRegs.map reg ++ vs)) (v : U64) :
    ∃ mem', store tr mem (contextField ctx .rax) v = some mem' ∧
      Holds tr mem' own ctx (popAllRegs.map (Function.update reg .rax v) ++ vs) ∧ ∀ c, c ∉ own → mem' c = mem c := by
  have hLen : (popAllRegs.map reg ++ vs).length = 16 + vs.length := by
    rw [List.length_append, List.length_map]
    rfl
  rw [← hLen] at hRoom
  obtain ⟨c, hc, hIn, hHolds⟩ := h.set hRoom (i := 14) (by rw [hLen]; omega) v
  refine ⟨Function.update mem c v, ?_, hHolds, fun c' hc' => ?_⟩
  · rw [contextField, show contextFields.idxOf Reg.rax = 14 from rfl, store, hc, Option.map_some]
  · have hNe : c' ≠ c := fun hEq => hc' (hEq ▸ hIn)
    exact Function.update_of_ne hNe v mem

/-- What is done with the result. -/
def finish (tr : U64 → Option A) (ctx : U64) : Option (BitVec 32) × (A → U64) → Option (A → U64)
  | (none, mem) => some mem
  | (some r, mem) => setResult tr ctx (r, mem)

/-- The handler reads the frame once, before it calls anything. -/
theorem isrSyscallHandler_eq (h : Holds tr mem own ctx (popAllRegs.map reg ++ vs)) :
    isrSyscallHandler tr sys ctx mem = (sys.answer reg mem).bind (finish tr ctx) := by
  have hBind : ∀ o : Option (BitVec 32 × (A → U64)),
      o.bind (setResult tr ctx) = (o.map fun r => (some r.1, r.2)).bind (finish tr ctx) := by
    intro o
    cases o <;> rfl
  have hKeep : ∀ o : Option (A → U64), o = (o.map fun mem => (none, mem)).bind (finish tr ctx) := by
    intro o
    cases o <;> rfl
  rw [isrSyscallHandler, load_contextField h, load_contextField h, load_contextField h, load_contextField h]
  simp only [Option.bind_eq_bind, Option.bind_some]
  unfold SysCalls.answer
  split_ifs
  · exact hBind _
  · exact hBind _
  · exact hBind _
  · exact hBind _
  · exact hKeep _
  · exact hKeep _
  · rfl

/-- **The handler.**  It calls the function of the number with the saved registers and stores its result over the saved
`rax`; an unknown number, and that of `SYS_STAT`, gives -1.  The other words of the frame stay. -/
theorem isrSyscallHandler_ok (hRoom : Vacant tr own (16 + vs.length) (above ctx (16 + vs.length)))
    (h : Holds tr mem own ctx (popAllRegs.map reg ++ vs))
    (hKeeps : ∀ r mem', sys.answer reg mem = some (r, mem') → ∀ c ∈ own, mem' c = mem c) :
    match sys.answer reg mem with
    | none => isrSyscallHandler tr sys ctx mem = none
    | some (r, mem1) => ∃ mem2, isrSyscallHandler tr sys ctx mem = some mem2 ∧
        Holds tr mem2 own ctx (popAllRegs.map (Function.update reg .rax (resultRax reg r)) ++ vs) ∧
        ∀ c, c ∉ own → mem2 c = mem1 c := by
  have hEq : isrSyscallHandler tr sys ctx mem = (sys.answer reg mem).bind (finish tr ctx) := isrSyscallHandler_eq h
  cases hAnswer : sys.answer reg mem with
  | none => rw [hEq, hAnswer, Option.bind_none]
  | some a =>
      obtain ⟨r, mem1⟩ := a
      rw [hAnswer, Option.bind_some] at hEq
      have hFrame := h.congr (hKeeps r mem1 hAnswer)
      cases r with
      | none =>
          refine ⟨mem1, hEq, ?_, fun c _ => rfl⟩
          have hSame : Function.update reg .rax (resultRax reg none) = reg := Function.update_eq_self .rax reg
          rwa [hSame]
      | some r =>
          obtain ⟨mem2, hStore, hHolds, hOther⟩ := store_contextField hRoom hFrame (r.signExtend 64)
          exact ⟨mem2, hEq.trans hStore, hHolds, hOther⟩

end Handled

/-! ## The stub -/

section SyscallStub

variable {A : Type} [DecidableEq A] {tr : U64 → Option A} {sys : SysCalls (A → U64)} {own : Set A} {s : Cpu A}
  {rsp0 isr : U64} {scratch : Cpu A → Reg → U64}

/-- The call of the handler with `rdi` as its argument; `scratch` is what it leaves in the registers. -/
def callSyscallHandler (tr : U64 → Option A) (sys : SysCalls (A → U64)) (scratch : Cpu A → Reg → U64) (s : Cpu A) :
    Option (Cpu A) :=
  (isrSyscallHandler tr sys (s.core.reg .rdi) s.mem).map fun mem =>
    { s with core := { s.core with reg := scratch s }, mem := mem }

omit [DecidableEq A] in
/-- The arguments of a call are in registers that the gate does not change. -/
theorem answer_entered (sp : U64) (mem' mem : A → U64) :
    sys.answer (entered isr sp mem' s).core.reg mem = sys.answer s.core.reg mem := rfl

omit [DecidableEq A] in
/-- The registers that are loaded again, with the result. -/
theorem restored_result (sp : U64) (mem : A → U64) (v : U64) :
    Function.update (Function.update (entered isr sp mem s).core.reg .rax v) .rflags (s.core.reg .rflags) =
      Function.update s.core.reg .rax v := by
  rw [Function.update_comm (show Reg.rax ≠ .rflags by decide), restored_reg]

/-- **The system call.**  The program goes on behind its `int` instruction with the result in `rax` and with all other
registers as they were, or it does not go on if the function of the kernel does not return. -/
theorem syscallStub_ok (hRoom : Vacant tr own 21 (interruptStack rsp0 s))
    (hKeeps : ∀ mem r mem', sys.answer s.core.reg mem = some (r, mem') → ∀ c ∈ own, mem' c = mem c) :
    ∃ mem0, (∀ c, c ∉ own → mem0 c = s.mem c) ∧
      match sys.answer s.core.reg mem0 with
      | none => interrupt tr rsp0 isr none isrSyscallStub (callSyscallHandler tr sys scratch) s = none
      | some (r, mem1) => ∃ mem2, (∀ c, c ∉ own → mem2 c = mem1 c) ∧
          interrupt tr rsp0 isr none isrSyscallStub (callSyscallHandler tr sys scratch) s =
            some ⟨{ s.core with reg := Function.update s.core.reg .rax (resultRax s.core.reg r) }, s.cs, s.ss, mem2⟩ := by
  obtain ⟨first, rest, hOwn, hApart, hFirst, hRest⟩ := vacant_add (n := 5) (k := 16) hRoom
  obtain ⟨mem, sp, hDeliver, hSp, hHolds, hFrame⟩ := deliver_ok isr none hFirst
  have hBelow : below (interruptStack rsp0 s) 5 = sp := by
    rw [← hSp]
    exact BitVec.add_sub_cancel sp _
  rw [hBelow] at hRest
  obtain ⟨mem0, sp1, hPush, hSp1, hHolds1, hFrame1⟩ := entered_pushAll (s := s) isr hRest hApart hHolds
  rw [hOwn] at hHolds1
  have hTop : above sp1 (16 + 5) = interruptStack rsp0 s := by
    rw [← above_add, hSp1]
    exact hSp
  refine ⟨mem0, fun c hc => ?_, ?_⟩
  · rw [hFrame1 c fun hIn => hc (hOwn ▸ Set.mem_union_right first hIn),
      hFrame c fun hIn => hc (hOwn ▸ Set.mem_union_left rest hIn)]
  -- the handler finds the frame behind its argument
  have hHandler := @isrSyscallHandler_ok _ _ tr sys own sp1 _ _ mem0 (hTop ▸ hRoom) hHolds1
    fun r mem' hAnswer => hKeeps mem0 r mem' hAnswer
  rw [answer_entered] at hHandler
  obtain ⟨s1, hStart, hRdi, hRsp, hMem⟩ : ∃ s1 : Cpu A, exec tr isrSyscallStub.before (entered isr sp mem s) = some s1 ∧
      s1.core.reg .rdi = sp1 ∧ s1.core.rsp = sp1 ∧ s1.mem = mem0 := by
    rw [isrSyscallStub, exec_append, hPush, Option.bind_some, exec_cons, Instr.exec, Option.bind_some, exec_nil]
    refine ⟨_, rfl, ?_, rfl, rfl⟩
    simp only [Function.update_self, entered_rsp]
  have hRun : interrupt tr rsp0 isr none isrSyscallStub (callSyscallHandler tr sys scratch) s =
      (callSyscallHandler tr sys scratch s1).bind (exec tr (popAll ++ [.iret])) := by
    rw [interrupt, hDeliver, Option.bind_some, Stub.run, hStart, Option.bind_some]
    rfl
  rw [hRun, callSyscallHandler, hRdi, hMem]
  cases hAnswer : sys.answer s.core.reg mem0 with
  | none =>
      rw [hAnswer] at hHandler
      rw [hHandler]
      rfl
  | some a =>
      obtain ⟨r, mem1⟩ := a
      rw [hAnswer] at hHandler
      obtain ⟨mem2, hCall, hHolds2, hOther⟩ := hHandler
      rw [← hRsp] at hHolds2
      refine ⟨mem2, hOther, ?_⟩
      rw [hCall, Option.map_some, Option.bind_some]
      have hLeave := exec_leave
        (s := { s1 with core := { s1.core with reg := scratch s1 }, mem := mem2 }) hHolds2
      rw [hLeave, restored_result]
      rfl

end SyscallStub

/-! ## The library of programs -/

/-- The number of a call and its arguments. -/
structure SyscallArgs where
  nr : U64
  a1 : U64
  a2 : U64
  a3 : U64
  a4 : U64

/-- `syscall`: the registers before `int $0x80`. -/
def SyscallArgs.registers (a : SyscallArgs) (reg : Reg → U64) : Reg → U64
  | .rax => a.nr
  | .rdi => a.a1
  | .rsi => a.a2
  | .rdx => a.a3
  | .rcx => a.a4
  | r => reg r

/-- The functions of `libc.c`. -/
inductive LibcCall where
  /-- `open(pathname, flags)`. -/
  | libcOpen (pathname : U64) (flags : BitVec 32)
  /-- `close(fd)`. -/
  | libcClose (fd : BitVec 32)
  /-- `read(fd, buf, count)`. -/
  | libcRead (fd : BitVec 32) (buf count : U64)
  /-- `write(fd, buf, count)`. -/
  | libcWrite (fd : BitVec 32) (buf count : U64)
  /-- `sync()`. -/
  | libcSync
  /-- `exit(status)`. -/
  | libcExit (status : BitVec 32)

/-- What they pass to `syscall`; an `int` is extended with its sign. -/
def LibcCall.args : LibcCall → SyscallArgs
  | .libcOpen pathname flags => ⟨NumSyscall.nr .sysOpen, pathname, flags.signExtend 64, 0#64, 0#64⟩
  | .libcClose fd => ⟨NumSyscall.nr .sysClose, fd.signExtend 64, 0#64, 0#64, 0#64⟩
  | .libcRead fd buf count => ⟨NumSyscall.nr .sysRead, fd.signExtend 64, buf, count, 0#64⟩
  | .libcWrite fd buf count => ⟨NumSyscall.nr .sysWrite, fd.signExtend 64, buf, count, 0#64⟩
  | .libcSync => ⟨NumSyscall.nr .sysSync, 0#64, 0#64, 0#64, 0#64⟩
  | .libcExit status => ⟨NumSyscall.nr .sysExit, status.signExtend 64, 0#64, 0#64, 0#64⟩

/-- What they return, for the `int` that `syscall` has returned. -/
def LibcCall.value : LibcCall → BitVec 32 → Option Int
  | .libcOpen _ _, ret => some ret.toInt
  | .libcClose _, ret => some ret.toInt
  | .libcRead _ _ _, ret => some ret.toInt
  | .libcWrite _ _ _, ret => some ret.toInt
  | .libcSync, _ => none
  | .libcExit _, _ => none

/-- The functions of the kernel that they stand for. -/
def LibcCall.meaning {M : Type} (sys : SysCalls M) : LibcCall → M → Option (Option Int × M)
  | .libcOpen pathname flags, mem => (sys.sysOpen pathname flags mem).map fun r => (some r.1.toInt, r.2)
  | .libcClose fd, mem => (sys.sysClose fd mem).map fun r => (some r.1.toInt, r.2)
  | .libcRead fd buf count, mem => (sys.sysRead fd buf count mem).map fun r => (some r.1.toInt, r.2)
  | .libcWrite fd buf count, mem => (sys.sysWrite fd buf count mem).map fun r => (some r.1.toInt, r.2)
  | .libcSync, mem => (sys.sysSync mem).map fun mem => (none, mem)
  | .libcExit status, mem => (sys.sysExit status mem).map fun mem => (none, mem)

/-- An `int` comes out of a register as it went in. -/
theorem int_of_register (x : BitVec 32) : (x.signExtend 64).setWidth 32 = x := by
  apply BitVec.eq_of_getLsbD_eq
  intro i hi
  rw [BitVec.getLsbD_setWidth, BitVec.getLsbD_signExtend]
  simp [hi, show i < 64 by omega]

/-- The kernel finds the arguments of the program, and the program the result of the kernel. -/
theorem meaning_eq {M : Type} (sys : SysCalls M) (call : LibcCall) (reg : Reg → U64) (mem : M) :
    call.meaning sys mem = (sys.answer (call.args.registers reg) mem).map fun r =>
      (call.value ((resultRax (call.args.registers reg) r.1).setWidth 32), r.2) := by
  have hMap : ∀ o : Option (BitVec 32 × M), o.map (fun r => (some r.1.toInt, r.2)) =
      (o.map fun r => (some r.1, r.2)).map fun r : Option (BitVec 32) × M =>
        (some ((resultRax (call.args.registers reg) r.1).setWidth 32).toInt, r.2) := by
    intro o
    cases o with
    | none => rfl
    | some r =>
        rw [Option.map_some, Option.map_some, Option.map_some, resultRax, Option.map_some, Option.getD_some,
          int_of_register]
  have hVoid : ∀ o : Option M, o.map (fun mem => ((none : Option Int), mem)) =
      (o.map fun mem => ((none : Option (BitVec 32)), mem)).map fun r => (none, r.2) := by
    intro o
    cases o <;> rfl
  unfold SysCalls.answer
  cases call with
  | libcOpen pathname flags =>
      have hRsi : (flags.signExtend 64).setWidth 32 = flags := int_of_register flags
      simp only [LibcCall.meaning, LibcCall.args, SyscallArgs.registers, LibcCall.value, hRsi, if_true]
      exact hMap _
  | libcClose fd =>
      have hRdi : (fd.signExtend 64).setWidth 32 = fd := int_of_register fd
      simp only [LibcCall.meaning, LibcCall.args, SyscallArgs.registers, LibcCall.value, hRdi, NumSyscall.nr_inj,
        reduceCtorEq, if_true, if_false]
      exact hMap _
  | libcRead fd buf count =>
      have hRdi : (fd.signExtend 64).setWidth 32 = fd := int_of_register fd
      simp only [LibcCall.meaning, LibcCall.args, SyscallArgs.registers, LibcCall.value, hRdi, NumSyscall.nr_inj,
        reduceCtorEq, if_true, if_false]
      exact hMap _
  | libcWrite fd buf count =>
      have hRdi : (fd.signExtend 64).setWidth 32 = fd := int_of_register fd
      simp only [LibcCall.meaning, LibcCall.args, SyscallArgs.registers, LibcCall.value, hRdi, NumSyscall.nr_inj,
        reduceCtorEq, if_true, if_false]
      exact hMap _
  | libcSync =>
      simp only [LibcCall.meaning, LibcCall.args, SyscallArgs.registers, LibcCall.value, NumSyscall.nr_inj,
        reduceCtorEq, if_true, if_false]
      exact hVoid _
  | libcExit status =>
      have hRdi : (status.signExtend 64).setWidth 32 = status := int_of_register status
      simp only [LibcCall.meaning, LibcCall.args, SyscallArgs.registers, LibcCall.value, hRdi, NumSyscall.nr_inj,
        reduceCtorEq, if_true, if_false]
      exact hVoid _

section Library

variable {A : Type} [DecidableEq A]

/-- A call of the library on the CPU `cpuid`, up to its return; `image` is the code of the kernel. -/
def LibcCall.run (tr : U64 → Option A) (sys : SysCalls (A → U64)) (scratch : Cpu A → Reg → U64)
    (image : U64 → Option Stub) (t : IdtTables) (cpuid : Nat) (rsp0 : U64) (call : LibcCall) (s : Cpu A) :
    Option (Option Int × Cpu A) := do
  let isr ← intInstruction t cpuid 0x80#8 (s.cs.setWidth 2)
  let stub ← image isr
  let s' ← interrupt tr rsp0 isr none stub (callSyscallHandler tr sys scratch)
    { s with core := { s.core with reg := call.args.registers s.core.reg } }
  pure (call.value ((s'.core.reg .rax).setWidth 32), s')

variable {tr : U64 → Option A} {sys : SysCalls (A → U64)} {scratch : Cpu A → Reg → U64} {image : U64 → Option Stub}
  {own : Set A} {s : Cpu A} {rsp0 : U64}

/-- **The library is the kernel.**  On a CPU that has run `int_init` a function of the library returns the value that
the function of the kernel returns for the same arguments, and leaves the memory that it leaves, but for the stack of
the kernel; it does not return if that does not.  The other registers are those that were loaded for the call.

The kernel does not check the addresses it gets: that the call leaves the frame alone is a condition on them. -/
theorem libcCall_ok {address : IsrStub → U64} {cpus : List Nat} (t : IdtTables) {cpuid : Nat} (hIn : cpuid ∈ cpus)
    (hImage : image (address .isrSyscallStub) = some isrSyscallStub) (hRoom : Vacant tr own 21 (interruptStack rsp0 s))
    (call : LibcCall) (hKeeps : ∀ mem r mem', call.meaning sys mem = some (r, mem') → ∀ c ∈ own, mem' c = mem c) :
    ∃ mem0, (∀ c, c ∉ own → mem0 c = s.mem c) ∧
      match call.meaning sys mem0 with
      | none => call.run tr sys scratch image (intInits address cpus t) cpuid rsp0 s = none
      | some (r, mem1) => ∃ mem2 rax, (∀ c, c ∉ own → mem2 c = mem1 c) ∧
          call.run tr sys scratch image (intInits address cpus t) cpuid rsp0 s = some (r,
            ⟨{ s.core with reg := Function.update (call.args.registers s.core.reg) .rax rax }, s.cs, s.ss, mem2⟩) := by
  have hGate := intInit_gate address cpus t cpuid 0x80#8
  rw [if_pos hIn] at hGate
  have hEnter : intInstruction (intInits address cpus t) cpuid 0x80#8 (s.cs.setWidth 2) =
      some (address .isrSyscallStub) := by
    have hAny : ∀ cpl : BitVec 2, cpl ≤ 3#2 := by decide
    rw [intInstruction, hGate]
    exact if_pos ⟨rfl, hAny _⟩
  let s0 : Cpu A := { s with core := { s.core with reg := call.args.registers s.core.reg } }
  have hStack : Vacant tr own 21 (interruptStack rsp0 s0) := hRoom
  have hFrame : ∀ mem r mem', sys.answer s0.core.reg mem = some (r, mem') → ∀ c ∈ own, mem' c = mem c := by
    intro mem r mem' hAnswer
    have hMeaning := meaning_eq sys call s.core.reg mem
    rw [show sys.answer (call.args.registers s.core.reg) mem = some (r, mem') from hAnswer, Option.map_some] at hMeaning
    exact hKeeps mem _ mem' hMeaning
  obtain ⟨mem0, hMem0, hStub⟩ :=
    @syscallStub_ok _ _ tr sys own s0 rsp0 (address .isrSyscallStub) scratch hStack hFrame
  refine ⟨mem0, hMem0, ?_⟩
  have hRun : call.run tr sys scratch image (intInits address cpus t) cpuid rsp0 s =
      (interrupt tr rsp0 (address .isrSyscallStub) none isrSyscallStub (callSyscallHandler tr sys scratch) s0).map
        fun s' => (call.value ((s'.core.reg .rax).setWidth 32), s') := by
    rw [LibcCall.run, hEnter]
    simp only [Option.bind_eq_bind, Option.bind_some, hImage]
    cases interrupt tr rsp0 (address .isrSyscallStub) none isrSyscallStub (callSyscallHandler tr sys scratch) s0 <;> rfl
  rw [meaning_eq sys call s.core.reg mem0, hRun]
  cases hAnswer : sys.answer (call.args.registers s.core.reg) mem0 with
  | none =>
      rw [show sys.answer s0.core.reg mem0 = none from hAnswer] at hStub
      rw [hStub]
      rfl
  | some a =>
      obtain ⟨r, mem1⟩ := a
      rw [show sys.answer s0.core.reg mem0 = some (r, mem1) from hAnswer] at hStub
      obtain ⟨mem2, hOther, hBack⟩ := hStub
      refine ⟨mem2, resultRax s0.core.reg r, hOther, ?_⟩
      rw [hBack]
      simp only [Option.map_some, Function.update_self]
      rfl

/-- A kernel without open files. -/
def noFiles : SysCalls (U64 → U64) where
  sysOpen _ _ mem := some (-12#32, mem)
  sysClose _ mem := some (-9#32, mem)
  sysRead _ _ _ mem := some (-2#32, mem)
  sysWrite _ _ _ mem := some (-2#32, mem)
  sysSync mem := some mem
  sysExit _ _ := none

/-- A program closes a file that is not open. -/
theorem libcCall_ok_close : ∃ s' : Cpu U64,
    (LibcCall.libcClose 3#32).run some noFiles (fun _ _ => 0#64) (fun _ => some isrSyscallStub)
      (intInits (fun _ => 0x100000#64) [0] fun _ _ => descriptor 0#64 0#8) 0 0x9000#64 interruptedUser =
        some (some (-9), s') := by
  have hRoom := vacant_flat (n := 21) (interruptStack 0x9000#64 interruptedUser) (by decide)
  have hKeeps : ∀ mem r mem', (LibcCall.libcClose 3#32).meaning noFiles mem = some (r, mem') →
      ∀ c ∈ (Set.univ : Set U64), mem' c = mem c := by
    rintro mem r mem' h c -
    cases h
    rfl
  have hStub : (fun _ : U64 => some isrSyscallStub) ((fun _ : IsrStub => 0x100000#64) .isrSyscallStub) =
    some isrSyscallStub := rfl
  obtain ⟨mem0, -, mem2, rax, -, hRun⟩ := @libcCall_ok U64 _ some noFiles (fun _ _ => 0#64)
    (fun _ => some isrSyscallStub) Set.univ interruptedUser 0x9000#64 (fun _ => 0x100000#64) [0]
    (fun _ _ => descriptor 0#64 0#8) 0 (by decide) hStub hRoom (.libcClose 3#32) hKeeps
  exact ⟨_, hRun⟩

end Library

end Rayos
