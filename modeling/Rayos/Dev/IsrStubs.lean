import Rayos.Machine.Instr

/-!
# Interrupts (`isr_stubs.S`)

An interrupt gate makes the processor push the state that it interrupts, on the stack of the kernel if it comes from
user mode, and the stub saves all registers, calls a handler in C and restores them.  The handler may use all registers
and the memory outside the frame.

* `interrupt` — from the interrupted instruction to `iretq`;
* `isrStub_ok` — the handlers without arguments;
* `isrPageFaultStub_ok` — the one with an error code, for which the stub keeps a frame pointer.
-/

namespace Rayos

open SavedFrame

/-! ## The processor -/

section Deliver

variable {A : Type}

/-- The privilege level of a code selector is not that of the kernel. -/
def userMode (cs : U64) : Bool := cs &&& 3#64 ≠ 0#64

/-- `KCODE_SELECTOR`. -/
def kcodeSelector : U64 := 0x08#64

/-- The stack of an interrupt: that of the task state segment if it comes from user mode, aligned. -/
def interruptStack (rsp0 : U64) (s : Cpu A) : U64 :=
  (if userMode s.cs then rsp0 else s.core.rsp) &&& ~~~0xf#64

/-- The words that the processor pushes, the first one first. -/
def interruptWords (err : Option U64) (s : Cpu A) : List U64 :=
  [s.ss, s.core.rsp, s.core.reg .rflags, s.cs, s.core.rip] ++ err.toList

/-- An interrupt gate clears `TF`, `IF`, `NT` and `RF`. -/
def gateFlags (rflags : U64) : U64 := rflags &&& ~~~0x14300#64

/-- The state at the first instruction of the stub. -/
def entered (isr sp : U64) (mem : A → U64) (s : Cpu A) : Cpu A where
  core := ⟨Function.update s.core.reg .rflags (gateFlags (s.core.reg .rflags)), sp, isr⟩
  cs := kcodeSelector
  ss := if userMode s.cs then 0#64 else s.ss
  mem := mem

variable [DecidableEq A] (tr : U64 → Option A)

/-- An interrupt through a gate for the stub at `isr`. -/
def deliver (rsp0 isr : U64) (err : Option U64) (s : Cpu A) : Option (Cpu A) :=
  (pushes tr (interruptWords err s) (interruptStack rsp0 s, s.mem)).map fun r => entered isr r.1 r.2 s

end Deliver

/-! ## The stubs -/

/-- The code before the call of the handler, and that after it. -/
structure Stub where
  before : List Instr
  after : List Instr

/-- The stubs that pass nothing to their handler. -/
def isrStub : Stub := ⟨pushAll, popAll ++ [.iret]⟩

/-- `isr_divide_error_stub`. -/
def isrDivideErrorStub : Stub := isrStub

/-- `lapic_timer_stub`. -/
def lapicTimerStub : Stub := isrStub

/-- `isr_com1_stub`. -/
def isrCom1Stub : Stub := isrStub

/-- `isr_syscall_stub`. -/
def isrSyscallStub : Stub := ⟨pushAll ++ [.getRsp .rdi], popAll ++ [.iret]⟩

/-- `isr_page_fault_stub`, for the value of `cr2`. -/
def isrPageFaultStub (cr2 : U64) : Stub where
  before := .push .rbp :: .getRsp .rbp :: (pushAll ++ [.load 8#64 .rbp .rdi, .readCr2 cr2 .rsi])
  after := popAll ++ [.leave, .addRsp 8#64, .iret]

section Stubs

variable {A : Type} [DecidableEq A] (tr : U64 → Option A)

/-- The code of a stub, with a handler that may not return. -/
def Stub.run (stub : Stub) (call : Cpu A → Option (Cpu A)) (s : Cpu A) : Option (Cpu A) :=
  ((exec tr stub.before s).bind call).bind (exec tr stub.after)

/-- From the interrupted instruction to `iretq`. -/
def interrupt (rsp0 isr : U64) (err : Option U64) (stub : Stub) (call : Cpu A → Option (Cpu A)) (s : Cpu A) :
    Option (Cpu A) :=
  (deliver tr rsp0 isr err s).bind (stub.run tr call)

/-- What the calling convention promises of a call from `s` that returns in `s'`, and the cells that it keeps. -/
structure Returns (keep : Set A) (s s' : Cpu A) : Prop where
  rsp : s'.core.rsp = s.core.rsp
  cs : s'.cs = s.cs
  ss : s'.ss = s.ss
  mem : ∀ c ∈ keep, s'.mem c = s.mem c

variable {tr} {own : Set A} {s : Cpu A} {rsp0 isr : U64}

/-- What the processor pushes stands on the stack in the order in which `iretq` takes it. -/
theorem deliver_ok (isr : U64) (err : Option U64) (hRoom : Vacant tr own (interruptWords err s).length (interruptStack rsp0 s)) :
    ∃ mem sp, deliver tr rsp0 isr err s = some (entered isr sp mem s) ∧
      above sp (interruptWords err s).length = interruptStack rsp0 s ∧
      Holds tr mem own sp (err.toList ++ [s.core.rip, s.cs, s.core.reg .rflags, s.core.rsp, s.ss]) ∧
      ∀ c, c ∉ own → mem c = s.mem c := by
  obtain ⟨mem, sp, hRun, hSp, hHolds, hFrame⟩ :=
    @pushes_ok _ tr s.mem ∅ own (interruptStack rsp0 s) [] (interruptWords err s) _ hRoom
      (Set.disjoint_empty own) trivial
  refine ⟨mem, sp, ?_, hSp, ?_, hFrame⟩
  · rw [deliver, hRun, Option.map_some]
  · rw [List.append_nil, Set.union_empty] at hHolds
    cases err <;> exact hHolds

omit [DecidableEq A] in
theorem entered_rsp (sp : U64) (mem : A → U64) : (entered isr sp mem s).core.rsp = sp := rfl

/-- `POP_ALL` and `iretq` behind a handler that has kept the frame. -/
theorem exec_leave {saved : Reg → U64} {rip cs rflags rsp ss : U64}
    (h : Holds tr s.mem own s.core.rsp (popAllRegs.map saved ++ [rip, cs, rflags, rsp, ss])) :
    exec tr (popAll ++ [.iret]) s =
      some ⟨⟨Function.update saved .rflags rflags, rsp, rip⟩, cs, ss, s.mem⟩ := by
  obtain ⟨hRun, hRest⟩ := exec_popAll h
  rw [exec_append, hRun, Option.bind_some]
  exact exec_iret (s := { s with core := { s.core with reg := saved, rsp := above s.core.rsp 16 } }) hRest

omit [DecidableEq A] in
/-- The registers that the stub has saved, with the flags that `iretq` restores, are the interrupted ones. -/
theorem restored_reg (s : Cpu A) (sp : U64) (mem : A → U64) :
    Function.update (entered isr sp mem s).core.reg .rflags (s.core.reg .rflags) = s.core.reg := by
  unfold entered
  simp only
  rw [Function.update_idem, Function.update_eq_self]

/-- `PUSH_ALL` in the state that the gate has entered. -/
theorem entered_pushAll (isr : U64) {vs : List U64} {mem : A → U64} {sp : U64} {first rest : Set A}
    (hRoom : Vacant tr rest 16 sp) (hApart : Disjoint first rest) (h : Holds tr mem first sp vs) :
    ∃ mem' sp', exec tr pushAll (entered isr sp mem s) = some (entered isr sp' mem' s) ∧ above sp' 16 = sp ∧
      Holds tr mem' (first ∪ rest) sp' (popAllRegs.map (entered isr sp mem s).core.reg ++ vs) ∧
      ∀ c, c ∉ rest → mem' c = mem c := by
  obtain ⟨mem', sp', hRun, hSp, hHolds, hFrame⟩ :=
    @exec_pushAll _ _ tr (entered isr sp mem s) first rest vs hRoom hApart.symm h
  exact ⟨mem', sp', hRun, hSp, by rwa [Set.union_comm], hFrame⟩

/-- **Handlers without arguments.**  The divide error, the timer and the serial port: whatever the handler does to the
registers and to the memory outside the frame, the interrupted code goes on with the registers, the flags, the stack
pointer and the selectors it had, in kernel mode and in user mode alike. -/
theorem isrStub_ok (hRoom : Vacant tr own 21 (interruptStack rsp0 s)) {call : Cpu A → Option (Cpu A)}
    (hCall : ∀ s1, (∀ c, c ∉ own → s1.mem c = s.mem c) → ∃ s2, call s1 = some s2 ∧ Returns own s1 s2) :
    ∃ s1 s2, (∀ c, c ∉ own → s1.mem c = s.mem c) ∧ call s1 = some s2 ∧
      interrupt tr rsp0 isr none isrStub call s = some { s with mem := s2.mem } := by
  obtain ⟨first, rest, hOwn, hApart, hFirst, hRest⟩ := vacant_add (n := 5) (k := 16) hRoom
  obtain ⟨mem, sp, hDeliver, hSp, hHolds, hFrame⟩ := deliver_ok isr none hFirst
  have hBelow : below (interruptStack rsp0 s) 5 = sp := by
    rw [← hSp]
    exact BitVec.add_sub_cancel sp _
  rw [hBelow] at hRest
  obtain ⟨mem1, sp1, hPush, -, hHolds1, hFrame1⟩ := entered_pushAll (s := s) isr hRest hApart hHolds
  rw [hOwn] at hHolds1
  have hOutside : ∀ c, c ∉ own → mem1 c = s.mem c := by
    intro c hc
    rw [hFrame1 c fun hIn => hc (hOwn ▸ Set.mem_union_right first hIn),
      hFrame c fun hIn => hc (hOwn ▸ Set.mem_union_left rest hIn)]
  obtain ⟨s2, hRun, hReturns⟩ := hCall (entered isr sp1 mem1 s) hOutside
  refine ⟨entered isr sp1 mem1 s, s2, hOutside, hRun, ?_⟩
  have hKept : Holds tr s2.mem own s2.core.rsp
      (popAllRegs.map (entered isr sp mem s).core.reg ++
        [s.core.rip, s.cs, s.core.reg .rflags, s.core.rsp, s.ss]) := by
    rw [hReturns.rsp]
    exact hHolds1.congr hReturns.mem
  rw [interrupt, hDeliver, Option.bind_some, Stub.run, isrStub, hPush, Option.bind_some, hRun, Option.bind_some,
    exec_leave hKept, restored_reg]

/-- User code between two instructions. -/
def interruptedUser : Cpu U64 where
  core := ⟨fun r => if r = .rflags then 0x202#64 else 7#64, 0x403000#64, 0x401000#64⟩
  cs := 0x1b#64
  ss := 0x23#64
  mem := fun _ => 0#64

/-- A handler that clears the registers. -/
def clearRegisters (s : Cpu U64) : Option (Cpu U64) := some { s with core := { s.core with reg := fun _ => 0#64 } }

/-- The timer, in user code. -/
theorem isrStub_ok_user : ∃ s2 : Cpu U64,
    interrupt some 0x9000#64 0x100#64 none isrStub clearRegisters interruptedUser =
      some { interruptedUser with mem := s2.mem } := by
  have hRoom := vacant_flat (n := 21) (interruptStack 0x9000#64 interruptedUser) (by decide)
  obtain ⟨_, s2, -, -, h⟩ := @isrStub_ok _ _ _ _ _ _ 0x100#64 hRoom clearRegisters fun s1 _ =>
    ⟨_, rfl, rfl, rfl, rfl, fun _ _ => rfl⟩
  exact ⟨s2, h⟩

/-- `PUSH_ALL` behind the frame pointer of the page fault stub. -/
theorem exec_pushFrame (isr : U64) {err : U64} {vs : List U64} {mem : A → U64} {sp : U64} {first rest : Set A}
    (hRoom : Vacant tr rest 17 sp) (hApart : Disjoint first rest) (h : Holds tr mem first sp (err :: vs)) (cr2 : U64) :
    ∃ mem' sp', exec tr (isrPageFaultStub cr2).before (entered isr sp mem s) =
        some { entered isr sp' mem' s with
          core := ⟨Function.update (Function.update (Function.update (entered isr sp mem s).core.reg .rbp (sp - 8#64))
            .rdi err) .rsi cr2, sp', isr⟩ } ∧
      above sp' 16 = sp - 8#64 ∧
      Holds tr mem' (first ∪ rest) sp'
        (popAllRegs.map (Function.update (entered isr sp mem s).core.reg .rbp (sp - 8#64)) ++
          (s.core.reg .rbp :: err :: vs)) ∧
      ∀ c, c ∉ rest → mem' c = mem c := by
  obtain ⟨c, hc, hIn, hRest⟩ := hRoom
  have hFresh : c ∉ first := Set.disjoint_right.mp hApart hIn
  -- the frame pointer of the interrupted code stands below the error code
  have hPushed : Holds tr (Function.update mem c (s.core.reg .rbp)) (insert c first) (sp - 8#64)
      (s.core.reg .rbp :: err :: vs) := by
    refine ⟨⟨c, hc, Set.mem_insert c first, Function.update_self c _ mem⟩, ?_⟩
    rw [BitVec.sub_add_cancel]
    refine (h.congr fun c' hc' => ?_).mono (Set.subset_insert c first)
    have hNe : c' ≠ c := fun hEq => hFresh (hEq ▸ hc')
    exact Function.update_of_ne hNe _ mem
  have hApart' : Disjoint (rest \ {c}) (insert c first) := by
    rw [Set.disjoint_insert_right]
    exact ⟨fun hBad => hBad.2 rfl, hApart.symm.mono_left Set.sdiff_subset⟩
  let s1 : Cpu A := ⟨⟨Function.update (entered isr sp mem s).core.reg .rbp (sp - 8#64), sp - 8#64, isr⟩,
    kcodeSelector, (entered isr sp mem s).ss, Function.update mem c (s.core.reg .rbp)⟩
  obtain ⟨mem', sp', hRun, hSp, hHolds, hFrame⟩ := @exec_pushAll _ _ tr s1 _ _ _ hRest hApart' hPushed
  have hKeep : rest \ {c} ∪ insert c first ⊆ first ∪ rest := by
    rintro c' (hc' | rfl | hc')
    · exact .inr hc'.1
    · exact .inr hIn
    · exact .inl hc'
  refine ⟨mem', sp', ?_, hSp, hHolds.mono hKeep, fun c' hc' => ?_⟩
  · have hPush : (Instr.push .rbp).exec tr (entered isr sp mem s) =
        some (entered isr (sp - 8#64) (Function.update mem c (s.core.reg .rbp)) s) := by
      rw [Instr.exec, entered_rsp, store, hc]
      rfl
    have hErr : SavedFrame.load tr mem' (sp - 8#64 + 8#64) = some err := by
      have hLoad := hHolds.load_get (show 17 < _ by simp [popAllRegs])
      rw [← above_add sp' 16 1, hSp] at hLoad
      exact hLoad
    have hStart : exec tr (isrPageFaultStub cr2).before (entered isr sp mem s) =
        (exec tr pushAll s1).bind (exec tr [.load 8#64 .rbp .rdi, .readCr2 cr2 .rsi]) := by
      rw [isrPageFaultStub, exec_cons, hPush, Option.bind_some, exec_cons, Instr.exec, Option.bind_some, exec_append]
      rfl
    have hBase : s1.core.reg .rbp = sp - 8#64 := by
      simp only [s1, Function.update_self]
    rw [hStart, hRun, Option.bind_some, exec_cons, Instr.exec, hBase, hErr]
    rfl
  · rw [hFrame c' fun hBad => hc' hBad.1]
    have hNe : c' ≠ c := fun hEq => hc' (hEq ▸ hIn)
    exact Function.update_of_ne hNe _ mem

/-- `POP_ALL`, `leaveq` and `iretq` behind a page fault handler that has kept the frame. -/
theorem exec_leaveFrame {saved : Reg → U64} {rbp err rip cs rflags rsp ss cr2 : U64}
    (hSaved : saved .rbp = above s.core.rsp 16)
    (h : Holds tr s.mem own s.core.rsp (popAllRegs.map saved ++ [rbp, err, rip, cs, rflags, rsp, ss])) :
    exec tr (isrPageFaultStub cr2).after s =
      some ⟨⟨Function.update (Function.update saved .rbp rbp) .rflags rflags, rsp, rip⟩, cs, ss, s.mem⟩ := by
  obtain ⟨hRun, hRest⟩ := exec_popAll h
  have hLeave : SavedFrame.load tr s.mem (saved .rbp) = some rbp := by
    rw [hSaved]
    exact hRest.load_head
  have hIret : Holds tr s.mem own (saved .rbp + 8#64 + 8#64) [rip, cs, rflags, rsp, ss] := by
    rw [hSaved]
    exact hRest.2.2
  rw [isrPageFaultStub, exec_append, hRun, Option.bind_some, exec_cons, Instr.exec, hLeave, Option.map_some,
    Option.bind_some, exec_cons, Instr.exec, Option.bind_some]
  exact exec_iret (s := { s with core :=
    ⟨Function.update saved .rbp rbp, saved .rbp + 8#64 + 8#64, s.core.rip⟩ }) hIret

omit [DecidableEq A] in
/-- The frame pointer comes back with the other registers. -/
theorem restored_frame (s : Cpu A) (sp bp : U64) (mem : A → U64) :
    Function.update (Function.update (Function.update (entered isr sp mem s).core.reg .rbp bp) .rbp (s.core.reg .rbp))
      .rflags (s.core.reg .rflags) = s.core.reg := by
  have hBase : s.core.reg .rbp = (entered isr sp mem s).core.reg .rbp := rfl
  rw [Function.update_idem, hBase, Function.update_eq_self]
  exact restored_reg s sp mem

/-- **The handler of page faults.**  It gets the error code and the address of the fault, and if it returns the
instruction that faulted is executed again, with all registers as they were: neither the error code nor the frame
pointer of the stub is left on the stack. -/
theorem isrPageFaultStub_ok (hRoom : Vacant tr own 23 (interruptStack rsp0 s)) {err cr2 : U64}
    {call : Cpu A → Option (Cpu A)}
    (hCall : ∀ s1, s1.core.reg .rdi = err → s1.core.reg .rsi = cr2 → (∀ c, c ∉ own → s1.mem c = s.mem c) →
      ∃ s2, call s1 = some s2 ∧ Returns own s1 s2) :
    ∃ s1 s2, s1.core.reg .rdi = err ∧ s1.core.reg .rsi = cr2 ∧ (∀ c, c ∉ own → s1.mem c = s.mem c) ∧
      call s1 = some s2 ∧
      interrupt tr rsp0 isr (some err) (isrPageFaultStub cr2) call s = some { s with mem := s2.mem } := by
  obtain ⟨first, rest, hOwn, hApart, hFirst, hRest⟩ := vacant_add (n := 6) (k := 17) hRoom
  obtain ⟨mem, sp, hDeliver, hSp, hHolds, hFrame⟩ := deliver_ok isr (some err) hFirst
  have hBelow : below (interruptStack rsp0 s) 6 = sp := by
    rw [← hSp]
    exact BitVec.add_sub_cancel sp _
  rw [hBelow] at hRest
  obtain ⟨mem1, sp1, hPush, hSp1, hHolds1, hFrame1⟩ :=
    exec_pushFrame (s := s) isr hRest hApart hHolds cr2
  rw [hOwn] at hHolds1
  have hOutside : ∀ c, c ∉ own → mem1 c = s.mem c := by
    intro c hc
    rw [hFrame1 c fun hIn => hc (hOwn ▸ Set.mem_union_right first hIn),
      hFrame c fun hIn => hc (hOwn ▸ Set.mem_union_left rest hIn)]
  have hRdi : (Function.update (Function.update (Function.update (entered isr sp mem s).core.reg .rbp (sp - 8#64))
      .rdi err) .rsi cr2) Reg.rdi = err := by
    rw [Function.update_of_ne (by decide), Function.update_self]
  have hRsi := Function.update_self Reg.rsi cr2
    (Function.update (Function.update (entered isr sp mem s).core.reg .rbp (sp - 8#64)) .rdi err)
  let s1 : Cpu A := { entered isr sp1 mem1 s with
    core := ⟨Function.update (Function.update (Function.update (entered isr sp mem s).core.reg .rbp (sp - 8#64))
      .rdi err) .rsi cr2, sp1, isr⟩ }
  obtain ⟨s2, hRun, hReturns⟩ := hCall s1 hRdi hRsi hOutside
  refine ⟨s1, s2, hRdi, hRsi, hOutside, hRun, ?_⟩
  have hKept := hHolds1.congr hReturns.mem
  have hRsp : s2.core.rsp = sp1 := hReturns.rsp
  rw [← hRsp] at hKept hSp1
  have hSaved : Function.update (entered isr sp mem s).core.reg Reg.rbp (sp - 8#64) .rbp = above s2.core.rsp 16 := by
    rw [hSp1, Function.update_self]
  rw [interrupt, hDeliver, Option.bind_some, Stub.run, hPush, Option.bind_some, hRun, Option.bind_some,
    exec_leaveFrame hSaved hKept, restored_frame]

/-- A write of user code to the address 0. -/
theorem isrPageFaultStub_ok_user : ∃ s2 : Cpu U64,
    interrupt some 0x9000#64 0x100#64 (some 6#64) (isrPageFaultStub 0#64) clearRegisters interruptedUser =
      some { interruptedUser with mem := s2.mem } := by
  have hRoom := vacant_flat (n := 23) (interruptStack 0x9000#64 interruptedUser) (by decide)
  obtain ⟨_, s2, -, -, -, -, h⟩ := @isrPageFaultStub_ok _ _ _ _ _ _ 0x100#64 hRoom 6#64 0#64 clearRegisters
    fun s1 _ _ _ => ⟨_, rfl, rfl, rfl, rfl, fun _ _ => rfl⟩
  exact ⟨s2, h⟩

end Stubs

end Rayos
