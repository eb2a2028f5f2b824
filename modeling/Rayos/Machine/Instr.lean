import Rayos.Lib.SavedFrame
import Rayos.Machine.Word

/-!
# The instructions of the assembly files (`common.inc`, `switch_to.S`, `isr_stubs.S`)

The registers of one CPU and the instructions that the stubs are made of.  Memory is made of quadwords, which the
instructions reach through the translation of the current address space; an address that is not mapped stops them.

The flags are the word that `pushfq` stores, and `popfq` loads it whole.
-/

namespace Rayos

open SavedFrame

/-- The general registers but for the stack pointer, and the flags. -/
inductive Reg where
  | rax
  | rbx
  | rcx
  | rdx
  | rsi
  | rdi
  | rbp
  | r8
  | r9
  | r10
  | r11
  | r12
  | r13
  | r14
  | r15
  | rflags
  deriving DecidableEq

/-- The registers of a CPU; `rip` is the instruction that follows the code at hand. -/
@[ext]
structure Core where
  reg : Reg → U64
  rsp : U64
  rip : U64

/-- A CPU with its selectors, and the memory. -/
@[ext]
structure Cpu (A : Type) where
  core : Core
  cs : U64
  ss : U64
  mem : A → U64

/-- An instruction. -/
inductive Instr where
  /-- `pushq r`, `pushfq`. -/
  | push (r : Reg)
  /-- `popq r`, `popfq`. -/
  | pop (r : Reg)
  /-- `movq %rsp, (r)`. -/
  | storeRsp (r : Reg)
  /-- `movq (r), %rsp`. -/
  | loadRsp (r : Reg)
  /-- `movq r, %rsp`. -/
  | setRsp (r : Reg)
  /-- `movq %rsp, r`. -/
  | getRsp (r : Reg)
  /-- `movq off(base), r`. -/
  | load (off : U64) (base r : Reg)
  /-- `movq %cr2, r`, for the value of `cr2`. -/
  | readCr2 (cr2 : U64) (r : Reg)
  /-- `addq n, %rsp`. -/
  | addRsp (n : U64)
  /-- `leaveq`. -/
  | leave
  /-- `retq`. -/
  | ret
  /-- `iretq`. -/
  | iret
  deriving DecidableEq

/-- `PUSH_ALL`, in the order of the macro. -/
def pushAllRegs : List Reg :=
  [.rflags, .rax, .rbx, .rcx, .rdx, .rsi, .rdi, .rbp, .r8, .r9, .r10, .r11, .r12, .r13, .r14, .r15]

/-- `POP_ALL`, in the order of the macro. -/
def popAllRegs : List Reg :=
  [.r15, .r14, .r13, .r12, .r11, .r10, .r9, .r8, .rbp, .rdi, .rsi, .rdx, .rcx, .rbx, .rax, .rflags]

/-- `PUSH_ALL`. -/
def pushAll : List Instr := pushAllRegs.map .push

/-- `POP_ALL`. -/
def popAll : List Instr := popAllRegs.map .pop

/-- The macros are each other's reverse. -/
theorem popAllRegs_eq : popAllRegs = pushAllRegs.reverse := rfl

theorem popAllRegs_nodup : popAllRegs.Nodup := by decide

theorem mem_popAllRegs (r : Reg) : r ∈ popAllRegs := by
  cases r <;> decide

section Exec

variable {A : Type} [DecidableEq A] (tr : U64 → Option A)

/-- One instruction; `none` is an access that is not mapped. -/
def Instr.exec : Instr → Cpu A → Option (Cpu A)
  | .push r, s =>
      (store tr s.mem (s.core.rsp - 8#64) (s.core.reg r)).map fun mem =>
        { s with core := { s.core with rsp := s.core.rsp - 8#64 }, mem := mem }
  | .pop r, s =>
      (SavedFrame.load tr s.mem s.core.rsp).map fun v =>
        { s with core := { s.core with reg := Function.update s.core.reg r v, rsp := s.core.rsp + 8#64 } }
  | .storeRsp r, s => (store tr s.mem (s.core.reg r) s.core.rsp).map fun mem => { s with mem := mem }
  | .loadRsp r, s =>
      (SavedFrame.load tr s.mem (s.core.reg r)).map fun v => { s with core := { s.core with rsp := v } }
  | .setRsp r, s => some { s with core := { s.core with rsp := s.core.reg r } }
  | .getRsp r, s => some { s with core := { s.core with reg := Function.update s.core.reg r s.core.rsp } }
  | .load off base r, s =>
      (SavedFrame.load tr s.mem (s.core.reg base + off)).map fun v =>
        { s with core := { s.core with reg := Function.update s.core.reg r v } }
  | .readCr2 cr2 r, s => some { s with core := { s.core with reg := Function.update s.core.reg r cr2 } }
  | .addRsp n, s => some { s with core := { s.core with rsp := s.core.rsp + n } }
  | .leave, s =>
      (SavedFrame.load tr s.mem (s.core.reg .rbp)).map fun v =>
        { s with core := { s.core with
            reg := Function.update s.core.reg .rbp v, rsp := s.core.reg .rbp + 8#64 } }
  | .ret, s =>
      (SavedFrame.load tr s.mem s.core.rsp).map fun v =>
        { s with core := { s.core with rip := v, rsp := s.core.rsp + 8#64 } }
  | .iret, s => do
      let rip ← SavedFrame.load tr s.mem s.core.rsp
      let cs ← SavedFrame.load tr s.mem (s.core.rsp + 8#64)
      let rflags ← SavedFrame.load tr s.mem (s.core.rsp + 16#64)
      let rsp ← SavedFrame.load tr s.mem (s.core.rsp + 24#64)
      let ss ← SavedFrame.load tr s.mem (s.core.rsp + 32#64)
      pure ⟨⟨Function.update s.core.reg .rflags rflags, rsp, rip⟩, cs, ss, s.mem⟩

/-- Instructions that follow each other. -/
def exec : List Instr → Cpu A → Option (Cpu A)
  | [], s => some s
  | i :: code, s => (i.exec tr s).bind (exec code)

@[simp] theorem exec_nil (s : Cpu A) : exec tr [] s = some s := rfl

theorem exec_cons (i : Instr) (code : List Instr) (s : Cpu A) :
    exec tr (i :: code) s = (i.exec tr s).bind (exec tr code) := rfl

theorem exec_append (code code' : List Instr) (s : Cpu A) :
    exec tr (code ++ code') s = (exec tr code s).bind (exec tr code') := by
  induction code generalizing s with
  | nil => rfl
  | cons i code ih =>
      rw [List.cons_append, exec_cons, exec_cons]
      cases i.exec tr s with
      | none => rfl
      | some s' => exact ih s'

/-- Pushing registers. -/
theorem exec_push (rs : List Reg) (s : Cpu A) :
    exec tr (rs.map .push) s = (pushes tr (rs.map s.core.reg) (s.core.rsp, s.mem)).map fun r =>
      { s with core := { s.core with rsp := r.1 }, mem := r.2 } := by
  induction rs generalizing s with
  | nil => rfl
  | cons r rs ih =>
      rw [List.map_cons, exec_cons, Instr.exec, List.map_cons, pushes]
      cases store tr s.mem (s.core.rsp - 8#64) (s.core.reg r) with
      | none => rfl
      | some mem => exact ih _

/-- Popping registers. -/
theorem exec_pop (rs : List Reg) (s : Cpu A) :
    exec tr (rs.map .pop) s = (pops tr s.mem rs (s.core.reg, s.core.rsp)).map fun r =>
      { s with core := { s.core with reg := r.1, rsp := r.2 } } := by
  induction rs generalizing s with
  | nil => rfl
  | cons r rs ih =>
      rw [List.map_cons, exec_cons, Instr.exec, pops]
      cases SavedFrame.load tr s.mem s.core.rsp with
      | none => rfl
      | some v => exact ih _

variable {tr} {s : Cpu A} {keep own : Set A} {vs : List U64}

/-- `PUSH_ALL`: the registers stand on the stack in the order in which `POP_ALL` takes them. -/
theorem exec_pushAll (hRoom : Vacant tr own 16 s.core.rsp) (hApart : Disjoint own keep)
    (h : Holds tr s.mem keep s.core.rsp vs) :
    ∃ mem sp, exec tr pushAll s = some { s with core := { s.core with rsp := sp }, mem := mem } ∧
      above sp 16 = s.core.rsp ∧ Holds tr mem (own ∪ keep) sp (popAllRegs.map s.core.reg ++ vs) ∧ ∀ c, c ∉ own → mem c = s.mem c := by
  have hRoom' : Vacant tr own (pushAllRegs.map s.core.reg).length s.core.rsp := hRoom
  obtain ⟨mem, sp, hRun, hSp, hHolds, hFrame⟩ := pushes_ok hRoom' hApart h
  refine ⟨mem, sp, ?_, hSp, ?_, hFrame⟩
  · rw [pushAll, exec_push, hRun, Option.map_some]
  · rwa [popAllRegs_eq, List.map_reverse]

/-- `POP_ALL`: all registers are those that were saved. -/
theorem exec_popAll {saved : Reg → U64}
    (h : Holds tr s.mem keep s.core.rsp (popAllRegs.map saved ++ vs)) :
    exec tr popAll s =
        some { s with core := { s.core with reg := saved, rsp := above s.core.rsp 16 } } ∧
      Holds tr s.mem keep (above s.core.rsp 16) vs := by
  obtain ⟨hRun, hRest⟩ := pops_ok popAllRegs_nodup s.core.reg saved h
  refine ⟨?_, hRest⟩
  have hAll : (fun r => if r ∈ popAllRegs then saved r else s.core.reg r) = saved := by
    funext r
    exact if_pos (mem_popAllRegs r)
  rw [popAll, exec_pop, hRun, hAll, Option.map_some]
  rfl

/-- `iretq` takes five words. -/
theorem exec_iret {rip cs rflags rsp ss : U64} (h : Holds tr s.mem keep s.core.rsp [rip, cs, rflags, rsp, ss]) :
    exec tr [.iret] s = some ⟨⟨Function.update s.core.reg .rflags rflags, rsp, rip⟩, cs, ss, s.mem⟩ := by
  have h0 : SavedFrame.load tr s.mem s.core.rsp = some rip := h.load_head
  have h1 : SavedFrame.load tr s.mem (s.core.rsp + 8#64) = some cs := h.load_get (show 1 < 5 by decide)
  have h2 : SavedFrame.load tr s.mem (s.core.rsp + 16#64) = some rflags := h.load_get (show 2 < 5 by decide)
  have h3 : SavedFrame.load tr s.mem (s.core.rsp + 24#64) = some rsp := h.load_get (show 3 < 5 by decide)
  have h4 : SavedFrame.load tr s.mem (s.core.rsp + 32#64) = some ss := h.load_get (show 4 < 5 by decide)
  rw [exec_cons, Instr.exec, h0, h1, h2, h3, h4]
  rfl

end Exec

end Rayos
