import Rayos.Machine.Instr

/-!
# Switching between threads (`switch_to.S`, `task.c`)

`context_switch` pushes the registers of the thread that calls it, stores the stack pointer in its `task_struct`, and
takes up the frame of another thread.  No register has a place of its own for each thread: what a thread finds in the
registers when it runs again is what its frame has kept, on a stack that is written to by nobody else.

* `contextSwitch_ok` — one call;
* `Cores`, `Threads` — the CPUs, and the machine in which every thread has registers of its own;
* `represents_step`, `represents_run` — the CPUs refine that machine along every run;
* `switch_returns` — a thread comes back from its call with the registers it had.
-/

namespace Rayos

open SavedFrame

/-! ## The routines -/

/-- `resume_context`. -/
def resumeContext : List Instr := popAll ++ [.ret]

/-- `switch_to`. -/
def switchTo : List Instr := .setRsp .rdi :: resumeContext

/-- `context_switch`. -/
def contextSwitch : List Instr := pushAll ++ (.storeRsp .rdi :: .loadRsp .rsi :: resumeContext)

section Routines

variable {A : Type} [DecidableEq A] {tr : U64 → Option A} {s : Cpu A} {keep own : Set A} {ra : U64}

/-- The words of a frame: the registers, and the address that the thread goes on at. -/
def frameWords (reg : Reg → U64) (ra : U64) : List U64 := popAllRegs.map reg ++ [ra]

theorem resumeContext_ok {saved : Reg → U64} (h : Holds tr s.mem keep s.core.rsp (frameWords saved ra)) :
    exec tr resumeContext s = some { s with core := ⟨saved, above s.core.rsp 17, ra⟩ } := by
  obtain ⟨hRun, hRest⟩ := exec_popAll h
  have hRip := hRest.load_head
  rw [resumeContext, exec_append, hRun, Option.bind_some, exec_cons, Instr.exec, hRip, ← above_add_word s.core.rsp 16]
  rfl

/-- **One call.**  The caller's registers and its return address stand on its stack, where its `task_struct` says;
the CPU has the registers of the other frame; and no other memory is changed. -/
theorem contextSwitch_ok {saved : Reg → U64} {ra' : U64} {cOld cNew : A} {keepNew : Set A}
    (hRoom : Vacant tr own 16 s.core.rsp) (hApart : Disjoint own keep)
    (hRa : Holds tr s.mem keep s.core.rsp [ra])
    (hOld : tr (s.core.reg .rdi) = some cOld) (hOldOwn : cOld ∉ own) (hOldKeep : cOld ∉ keep)
    (hNew : tr (s.core.reg .rsi) = some cNew) (hNewOwn : cNew ∉ own) (hNe : cNew ≠ cOld)
    (hSaved : Holds tr s.mem keepNew (s.mem cNew) (frameWords saved ra'))
    (hNewApart : Disjoint own keepNew) (hOldNew : cOld ∉ keepNew) :
    ∃ mem, exec tr contextSwitch s =
        some { s with core := ⟨saved, above (s.mem cNew) 17, ra'⟩, mem := mem } ∧
      above (mem cOld) 16 = s.core.rsp ∧
      Holds tr mem (own ∪ keep) (mem cOld) (frameWords s.core.reg ra) ∧
      ∀ c, c ∉ own → c ≠ cOld → mem c = s.mem c := by
  obtain ⟨mem, sp, hRun, hSp, hHolds, hFrame⟩ := exec_pushAll hRoom hApart hRa
  refine ⟨Function.update mem cOld sp, ?_, ?_, ?_, ?_⟩
  · -- the frame of the other thread is as it was
    have hSaved' : Holds tr (Function.update mem cOld sp) keepNew (s.mem cNew) (frameWords saved ra') := by
      refine hSaved.congr fun c hc => ?_
      have hc' : c ≠ cOld := fun hEq => hOldNew (hEq ▸ hc)
      rw [Function.update_of_ne hc', hFrame c (Set.disjoint_right.mp hNewApart hc)]
    have hCell : Function.update mem cOld sp cNew = s.mem cNew := by
      rw [Function.update_of_ne hNe, hFrame cNew hNewOwn]
    have hStore : (Instr.storeRsp .rdi).exec tr
          { s with core := { s.core with rsp := sp }, mem := mem } =
        some { s with core := { s.core with rsp := sp }, mem := Function.update mem cOld sp } := by
      simp only [Instr.exec, store, hOld, Option.map_some]
    have hLoad : (Instr.loadRsp .rsi).exec tr
          { s with core := { s.core with rsp := sp }, mem := Function.update mem cOld sp } =
        some { s with core := { s.core with rsp := s.mem cNew }, mem := Function.update mem cOld sp } := by
      simp only [Instr.exec, SavedFrame.load, hNew, Option.map_some, hCell]
    rw [contextSwitch, exec_append, hRun, Option.bind_some, exec_cons, hStore, Option.bind_some, exec_cons, hLoad,
      Option.bind_some]
    exact resumeContext_ok hSaved'
  · rw [Function.update_self]
    exact hSp
  · rw [Function.update_self]
    refine hHolds.congr fun c hc => ?_
    have hc' : c ≠ cOld := by
      rintro rfl
      exact hc.elim hOldOwn hOldKeep
    exact Function.update_of_ne hc' sp mem
  · intro c hc hNeOld
    rw [Function.update_of_ne hNeOld, hFrame c hc]

end Routines

/-! ## Threads and CPUs -/

/-- Where the threads keep their words: the address space of each, the cells of its stack, and `task->rsp`.  Kernel
addresses denote the same cells in every address space. -/
structure ThreadMap (T A : Type) where
  tr : T → U64 → Option A
  stack : T → Set A
  rspAddr : T → U64
  rspCell : T → A
  kernelHalf : ∀ t t' a, 2 ^ 63 ≤ a.toNat → tr t a = tr t' a
  rspAddr_high : ∀ t, 2 ^ 63 ≤ (rspAddr t).toNat
  tr_rspAddr : ∀ t, tr t (rspAddr t) = some (rspCell t)
  rspCell_notMem : ∀ t, rspCell t ∉ stack t

namespace ThreadMap

variable {T A : Type} (L : ThreadMap T A)

/-- The cells of a thread. -/
def cells (t : T) : Set A := insert (L.rspCell t) (L.stack t)

theorem tr_rspAddr_of (t t' : T) : L.tr t' (L.rspAddr t) = some (L.rspCell t) := by
  rw [L.kernelHalf t' t _ (L.rspAddr_high t), L.tr_rspAddr]

/-- The registers of a thread that does not run stand on its stack. -/
structure Parked (mem : A → U64) (t : T) (k : Core) : Prop where
  frame : Holds (L.tr t) mem (L.stack t) (mem (L.rspCell t)) (frameWords k.reg k.rip)
  rsp : above (mem (L.rspCell t)) 17 = k.rsp

theorem Parked.congr {L : ThreadMap T A} {mem mem' : A → U64} {t : T} {k : Core} (h : L.Parked mem t k)
    (hMem : ∀ c ∈ L.cells t, mem' c = mem c) : L.Parked mem' t k := by
  have hCell : mem' (L.rspCell t) = mem (L.rspCell t) := hMem _ (Set.mem_insert _ _)
  constructor
  · rw [hCell]
    exact h.frame.congr fun c hc => hMem c (Set.mem_insert_of_mem _ hc)
  · rw [hCell]
    exact h.rsp

/-- A thread at the entry of `context_switch`: its return address stands on its kernel stack, with room for the
registers below. -/
structure AtSwitch (mem : A → U64) (t : T) (k : Core) (ra : U64) : Prop where
  room : ∃ own keep, own ∪ keep ⊆ L.stack t ∧ Disjoint own keep ∧ Vacant (L.tr t) own 16 k.rsp ∧
    Holds (L.tr t) mem keep k.rsp [ra]
  high : 2 ^ 63 + 128 ≤ k.rsp.toNat

end ThreadMap

section Machines

variable (T C A : Type)

/-- The CPUs: the thread each runs, its registers, the memory, and the threads that there are. -/
structure Cores where
  on : C → T
  core : C → Core
  mem : A → U64
  live : Set T

/-- The machine in which every thread has registers of its own. -/
structure Threads where
  on : C → T
  core : T → Core
  mem : A → U64
  live : Set T

end Machines

section Steps

variable {T C A : Type} [DecidableEq A] (L : ThreadMap T A)

/-- Threads of which no CPU runs one. -/
def Waits (on : C → T) (t : T) : Prop := ∀ c, on c ≠ t

/-- The call of `context_switch` by the thread of `c`, for the thread `new`: `scheduler` passes the addresses of the
two stack pointers and has loaded `cr3` for the new thread. -/
structure Switches (s : Cores T C A) (c : C) (new : T) (ra : U64) : Prop where
  live : new ∈ s.live
  waits : Waits s.on new
  rdi : (s.core c).reg .rdi = L.rspAddr (s.on c)
  rsi : (s.core c).reg .rsi = L.rspAddr new
  stack : L.AtSwitch s.mem (s.on c) (s.core c) ra

/-- The registers behind a call that has returned. -/
def Core.returned (k : Core) (ra : U64) : Core := ⟨k.reg, k.rsp + 8#64, ra⟩

/-! ## One switch -/

/-- Addresses near a stack pointer in the kernel's half are in it. -/
theorem below_high {rsp : U64} (h : 2 ^ 63 + 128 ≤ rsp.toNat) {i : Nat} (hi : i ≤ 16) :
    2 ^ 63 ≤ (below rsp i).toNat := by
  have hLt := rsp.isLt
  rw [below, BitVec.toNat_sub, BitVec.toNat_ofNat]
  omega

theorem above_high {rsp sp : U64} (h : 2 ^ 63 + 128 ≤ rsp.toNat) (hSp : above sp 16 = rsp) {i : Nat} (hi : i ≤ 16) :
    2 ^ 63 ≤ (above sp i).toNat := by
  have hBase : sp = below rsp 16 := by
    rw [← hSp, above, below]
    exact (BitVec.add_sub_cancel sp (BitVec.ofNat 64 (8 * 16))).symm
  have hLt := rsp.isLt
  rw [hBase, above, below, BitVec.toNat_add, BitVec.toNat_sub, BitVec.toNat_ofNat, BitVec.toNat_ofNat]
  omega

variable {L} {s : Cores T C A} {c : C} {new : T} {ra : U64}

/-- The call of `context_switch`: the CPU has the registers that the new thread has kept, and the old one keeps its
own, with its return address, below its stack pointer. -/
theorem Switches.exec_ok (h : Switches L s c new ra) {k : Core} (hParked : L.Parked s.mem new k)
    (hApart : Disjoint (L.cells (s.on c)) (L.cells new)) (cs ss : U64) :
    ∃ mem, exec (L.tr new) contextSwitch ⟨s.core c, cs, ss, s.mem⟩ = some ⟨k, cs, ss, mem⟩ ∧
      L.Parked mem (s.on c) ((s.core c).returned ra) ∧
      SavedFrame.load (L.tr (s.on c)) s.mem (s.core c).rsp = some ra ∧
      ∀ x, x ∉ L.cells (s.on c) → mem x = s.mem x := by
  obtain ⟨⟨own, keep, hStack, hDisjoint, hRoom, hRa⟩, hHigh⟩ := h.stack
  have hOwn : own ⊆ L.stack (s.on c) := Set.subset_union_left.trans hStack
  have hKeep : keep ⊆ L.stack (s.on c) := Set.subset_union_right.trans hStack
  have hStackNew : Disjoint (L.stack (s.on c)) (L.cells new) := hApart.mono_left (Set.subset_insert _ _)
  have hCellOld : L.rspCell (s.on c) ∈ L.cells (s.on c) := Set.mem_insert _ _
  have hCellNew : L.rspCell new ∈ L.cells new := Set.mem_insert _ _
  have hNotOld : L.rspCell (s.on c) ∉ L.cells new := Set.disjoint_left.mp hApart hCellOld
  have hNotNew : L.rspCell new ∉ L.stack (s.on c) := Set.disjoint_right.mp hStackNew hCellNew
  -- the stack of the old thread is in the kernel's half, which the new address space shows as well
  have hRoom' : Vacant (L.tr new) own 16 (s.core c).rsp := by
    refine hRoom.translate fun i hi => ?_
    exact L.kernelHalf _ _ _ (below_high hHigh (by omega))
  have hRa' : Holds (L.tr new) s.mem keep (s.core c).rsp [ra] := by
    refine hRa.translate fun i hi => ?_
    have hZero : i = 0 := Nat.lt_one_iff.mp hi
    subst hZero
    rw [above_zero]
    exact L.kernelHalf _ _ _ (by omega)
  have hRdi : L.tr new ((s.core c).reg .rdi) = some (L.rspCell (s.on c)) := by
    rw [h.rdi]
    exact L.tr_rspAddr_of _ _
  have hRsi : L.tr new ((s.core c).reg .rsi) = some (L.rspCell new) := by
    rw [h.rsi]
    exact L.tr_rspAddr new
  obtain ⟨mem, hRun, hSp, hFrame, hMem⟩ := contextSwitch_ok (s := ⟨s.core c, cs, ss, s.mem⟩) hRoom' hDisjoint hRa'
    hRdi (fun hIn => L.rspCell_notMem _ (hOwn hIn)) (fun hIn => L.rspCell_notMem _ (hKeep hIn))
    hRsi (fun hIn => hNotNew (hOwn hIn)) (fun hEq => hNotOld (hEq ▸ hCellNew))
    hParked.frame (hStackNew.mono hOwn (Set.subset_insert _ _))
    (fun hIn => hNotOld (Set.mem_insert_of_mem _ hIn))
  refine ⟨mem, ?_, ⟨?_, ?_⟩, ?_, ?_⟩
  · rw [hRun, hParked.rsp]
  · refine (hFrame.mono hStack).translate fun i hi => ?_
    exact L.kernelHalf _ _ _ (above_high hHigh hSp (Nat.lt_succ_iff.mp hi))
  · rw [← above_add_word _ 16, hSp]
    rfl
  · exact hRa.load_head
  · intro x hx
    refine hMem x (fun hIn => hx (Set.mem_insert_of_mem _ (hOwn hIn))) ?_
    rintro rfl
    exact hx hCellOld

end Steps

/-! ## Runs -/

section Runs

variable {T C A : Type} [DecidableEq T] [DecidableEq C] [DecidableEq A] (L : ThreadMap T A)

/-- The call of `context_switch`, executed. -/
def SwitchStep (c : C) (new : T) (ra : U64) (s s' : Cores T C A) : Prop :=
  Switches L s c new ra ∧ ∃ cs ss cs' ss' k mem,
    exec (L.tr new) contextSwitch ⟨s.core c, cs, ss, s.mem⟩ = some ⟨k, cs', ss', mem⟩ ∧
    s' = { s with on := Function.update s.on c new, core := Function.update s.core c k, mem := mem }

/-- What the threads that wait have kept is not written to. -/
def KeepsParked (s : Cores T C A) (mem : A → U64) : Prop :=
  ∀ t ∈ s.live, Waits s.on t → ∀ x ∈ L.cells t, mem x = s.mem x

/-- Steps of the CPUs: a thread executes code of its own, creates a thread, or switches to another one; and a thread
that has exited is given up. -/
inductive CoresStep (s : Cores T C A) : Cores T C A → Prop
  | run (c : C) (k : Core) (mem : A → U64) (hKeeps : KeepsParked L s mem) :
      CoresStep s { s with core := Function.update s.core c k, mem := mem }
  | create (t : T) (k : Core) (mem : A → U64) (hNew : t ∉ s.live)
      (hApart : ∀ u ∈ s.live, Disjoint (L.cells u) (L.cells t)) (hParked : L.Parked mem t k)
      (hKeeps : KeepsParked L s mem) :
      CoresStep s { s with mem := mem, live := insert t s.live }
  | switch (c : C) (new : T) (ra : U64) (s' : Cores T C A) (hSwitch : SwitchStep L c new ra s s') : CoresStep s s'
  | reap (t : T) (hWaits : Waits s.on t) : CoresStep s { s with live := s.live \ {t} }

/-- The threads after a switch: the old thread has returned from its call. -/
def Threads.switched (s : Threads T C A) (c : C) (new : T) (ra : U64) (mem : A → U64) : Threads T C A :=
  { s with
    on := Function.update s.on c new
    core := Function.update s.core (s.on c) ((s.core (s.on c)).returned ra)
    mem := mem }

/-- Steps of the machine with registers for each thread: a switch is a call that returns at once, and a CPU that goes
on with another thread. -/
inductive ThreadsStep (s : Threads T C A) : Threads T C A → Prop
  | run (c : C) (k : Core) (mem : A → U64) :
      ThreadsStep s { s with core := Function.update s.core (s.on c) k, mem := mem }
  | create (t : T) (k : Core) (mem : A → U64) (hNew : t ∉ s.live) :
      ThreadsStep s { s with core := Function.update s.core t k, mem := mem, live := insert t s.live }
  | switch (c : C) (new : T) (ra : U64) (mem : A → U64) (hLive : new ∈ s.live) (hWaits : Waits s.on new)
      (hRa : SavedFrame.load (L.tr (s.on c)) s.mem (s.core (s.on c)).rsp = some ra)
      (hFrame : ∀ x, x ∉ L.cells (s.on c) → mem x = s.mem x) :
      ThreadsStep s (s.switched c new ra mem)
  | reap (t : T) (hWaits : Waits s.on t) : ThreadsStep s { s with live := s.live \ {t} }

/-- The CPUs `s` show the threads `a`: a thread that runs has the registers of its CPU, and the registers of a thread
that waits stand on its stack. -/
structure Represents (s : Cores T C A) (a : Threads T C A) : Prop where
  on : a.on = s.on
  mem : a.mem = s.mem
  live : a.live = s.live
  running : ∀ c, a.core (s.on c) = s.core c
  parked : ∀ t ∈ s.live, Waits s.on t → L.Parked s.mem t (a.core t)
  onLive : ∀ c, s.on c ∈ s.live
  onInj : Function.Injective s.on
  apart : ∀ t ∈ s.live, ∀ u ∈ s.live, t ≠ u → Disjoint (L.cells t) (L.cells u)

variable {L} {s s' : Cores T C A} {a : Threads T C A}

omit [DecidableEq A] in
theorem Represents.switched_eq (h : Represents L s a) (c : C) (new : T) (ra : U64) (mem : A → U64) :
    a.switched c new ra mem = ⟨Function.update s.on c new,
      Function.update a.core (s.on c) ((s.core c).returned ra), mem, s.live⟩ := by
  rw [Threads.switched, h.on, h.live, h.running]

/-- A switch, with the step of the threads that it shows. -/
theorem represents_switch (h : Represents L s a) {c : C} {new : T} {ra : U64} (hSwitch : SwitchStep L c new ra s s') :
    ∃ mem, ThreadsStep L a (a.switched c new ra mem) ∧ Represents L s' (a.switched c new ra mem) := by
  obtain ⟨hSwitches, cs, ss, cs', ss', k, mem, hExec, rfl⟩ := hSwitch
  have hWaits := hSwitches.waits
  have hOld : s.on c ≠ new := hWaits c
  have hParked := h.parked new hSwitches.live hWaits
  obtain ⟨mem', hRun, hKept, hRa, hFrame⟩ :=
    hSwitches.exec_ok hParked (h.apart _ (h.onLive c) _ hSwitches.live hOld) cs ss
  rw [hRun] at hExec
  cases hExec
  refine ⟨mem, ?_, ?_⟩
  · refine .switch c new ra mem ?_ ?_ ?_ ?_
    · rw [h.live]
      exact hSwitches.live
    · rw [h.on]
      exact hWaits
    · rw [h.on, h.mem, h.running]
      exact hRa
    · intro x hx
      rw [h.on] at hx
      rw [h.mem]
      exact hFrame x hx
  · have hWaiting : ∀ t, Waits (Function.update s.on c new) t → t ≠ new ∧ (t ≠ s.on c → Waits s.on t) := by
      intro t ht
      refine ⟨fun hEq => ht c (by rw [Function.update_self, hEq]), fun hNe c' hc' => ?_⟩
      by_cases hcc : c' = c
      · subst hcc
        exact hNe hc'.symm
      · exact ht c' (by rw [Function.update_of_ne hcc, hc'])
    rw [h.switched_eq]
    constructor
    · rfl
    · rfl
    · rfl
    · intro c'
      by_cases hcc : c' = c
      · subst hcc
        simp only [Function.update_self]
        rw [Function.update_of_ne hOld.symm]
      · have hNe : s.on c' ≠ s.on c := fun hEq => hcc (h.onInj hEq)
        simp only [Function.update_of_ne hcc]
        rw [Function.update_of_ne hNe]
        exact h.running c'
    · intro t hLive hWaits'
      obtain ⟨hNe, hBefore⟩ := hWaiting t hWaits'
      by_cases htc : t = s.on c
      · subst htc
        simp only [Function.update_self]
        exact hKept
      · simp only
        rw [Function.update_of_ne htc]
        refine (h.parked t hLive (hBefore htc)).congr fun x hx => hFrame x ?_
        exact Set.disjoint_right.mp (h.apart _ (h.onLive c) _ hLive (Ne.symm htc)) hx
    · intro c'
      simp only
      by_cases hcc : c' = c
      · subst hcc
        rw [Function.update_self]
        exact hSwitches.live
      · rw [Function.update_of_ne hcc]
        exact h.onLive c'
    · intro c1 c2 hEq
      simp only at hEq
      by_cases h1 : c1 = c
      · by_cases h2 : c2 = c
        · rw [h1, h2]
        · rw [h1, Function.update_self, Function.update_of_ne h2] at hEq
          exact absurd hEq.symm (hWaits c2)
      · by_cases h2 : c2 = c
        · rw [h2, Function.update_self, Function.update_of_ne h1] at hEq
          exact absurd hEq (hWaits c1)
        · rw [Function.update_of_ne h1, Function.update_of_ne h2] at hEq
          exact h.onInj hEq
    · exact h.apart

omit [DecidableEq C] [DecidableEq A] in
/-- A new thread, with the frame that it has been given. -/
theorem represents_create (h : Represents L s a) {t : T} {k : Core} {mem : A → U64} (hNew : t ∉ s.live)
    (hApart : ∀ u ∈ s.live, Disjoint (L.cells u) (L.cells t)) (hParked : L.Parked mem t k)
    (hKeeps : KeepsParked L s mem) :
    Represents L { s with mem := mem, live := insert t s.live }
      { a with core := Function.update a.core t k, mem := mem, live := insert t a.live } := by
  constructor
  · exact h.on
  · rfl
  · exact congrArg (insert t) h.live
  · intro c
    have hNe : s.on c ≠ t := fun hEq => hNew (hEq ▸ h.onLive c)
    simp only
    rw [Function.update_of_ne hNe]
    exact h.running c
  · intro u hLive hWaits
    by_cases hut : u = t
    · subst hut
      simp only [Function.update_self]
      exact hParked
    · have hLive' : u ∈ s.live := hLive.resolve_left hut
      simp only
      rw [Function.update_of_ne hut]
      exact (h.parked u hLive' hWaits).congr (hKeeps u hLive' hWaits)
  · exact fun c => Set.mem_insert_of_mem t (h.onLive c)
  · exact h.onInj
  · rintro u (rfl | hu) v (rfl | hv) hNe
    · exact absurd rfl hNe
    · exact (hApart v hv).symm
    · exact hApart u hu
    · exact h.apart u hu v hv hNe

/-- **The CPUs refine the threads.** -/
theorem represents_step (h : Represents L s a) (hStep : CoresStep L s s') :
    ∃ a', ThreadsStep L a a' ∧ Represents L s' a' := by
  have hOn : a.on = s.on := h.on
  cases hStep with
  | run c k mem hKeeps =>
      refine ⟨_, .run c k mem, ?_⟩
      constructor
      · exact h.on
      · rfl
      · exact h.live
      · intro c'
        rw [hOn]
        by_cases hcc : c' = c
        · subst hcc
          simp only [Function.update_self]
        · have hNe : s.on c' ≠ s.on c := fun hEq => hcc (h.onInj hEq)
          simp only [Function.update_of_ne hcc]
          rw [Function.update_of_ne hNe]
          exact h.running c'
      · intro t hLive hWaits
        have hNe : t ≠ s.on c := Ne.symm (hWaits c)
        simp only
        rw [hOn, Function.update_of_ne hNe]
        exact (h.parked t hLive hWaits).congr (hKeeps t hLive hWaits)
      · exact h.onLive
      · exact h.onInj
      · exact h.apart
  | create t k mem hNew hApart hParked hKeeps =>
      exact ⟨_, .create t k mem (by rw [h.live]; exact hNew), represents_create h hNew hApart hParked hKeeps⟩
  | switch c new ra _ hSwitch =>
      obtain ⟨mem, hThreads, hRep⟩ := represents_switch h hSwitch
      exact ⟨_, hThreads, hRep⟩
  | reap t hWaits =>
      refine ⟨_, .reap t (by rw [h.on]; exact hWaits), ?_⟩
      constructor
      · exact h.on
      · exact h.mem
      · exact congrArg (· \ {t}) h.live
      · exact h.running
      · exact fun u hLive hWaits' => h.parked u hLive.1 hWaits'
      · exact fun c => ⟨h.onLive c, hWaits c⟩
      · exact h.onInj
      · exact fun u hu v hv => h.apart u hu.1 v hv.1

/-- **The CPUs refine the threads, along every run.** -/
theorem represents_run (h : Represents L s a) (hRun : Relation.ReflTransGen (CoresStep L) s s') :
    ∃ a', Relation.ReflTransGen (ThreadsStep L) a a' ∧ Represents L s' a' := by
  induction hRun with
  | refl => exact ⟨a, .refl, h⟩
  | tail _ hStep ih =>
      obtain ⟨a1, hRun1, h1⟩ := ih
      obtain ⟨a2, hStep2, h2⟩ := represents_step h1 hStep
      exact ⟨a2, hRun1.tail hStep2, h2⟩

omit [DecidableEq A] in
/-- No step of the threads changes the registers of one that waits. -/
theorem threadsStep_core {a a' : Threads T C A} (hStep : ThreadsStep L a a') {t : T} (hLive : t ∈ a.live)
    (hWaits : Waits a.on t) : a'.core t = a.core t := by
  cases hStep with
  | run c k mem => exact Function.update_of_ne (Ne.symm (hWaits c)) k a.core
  | create u k mem hNew =>
      have hNe : t ≠ u := fun hEq => hNew (hEq ▸ hLive)
      exact Function.update_of_ne hNe k a.core
  | switch c new ra mem => exact Function.update_of_ne (Ne.symm (hWaits c)) _ a.core
  | reap u hWaits' => rfl

/-- Steps in which the thread `t` exists and waits all the time. -/
def ParkedStep (L : ThreadMap T A) (t : T) (s s' : Cores T C A) : Prop :=
  CoresStep L s s' ∧ t ∈ s'.live ∧ Waits s'.on t

theorem represents_wait (h : Represents L s a) {t : T} (hLive : t ∈ s.live) (hWaits : Waits s.on t)
    (hRun : Relation.ReflTransGen (ParkedStep L t) s s') :
    ∃ a', Represents L s' a' ∧ a'.core t = a.core t ∧ t ∈ s'.live ∧ Waits s'.on t := by
  induction hRun with
  | refl => exact ⟨a, h, rfl, hLive, hWaits⟩
  | tail _ hStep ih =>
      obtain ⟨a1, h1, hCore, hLive1, hWaits1⟩ := ih
      obtain ⟨hStep, hLive2, hWaits2⟩ := hStep
      obtain ⟨a2, hStep2, h2⟩ := represents_step h1 hStep
      have hSame := threadsStep_core hStep2 (by rw [h1.live]; exact hLive1) (by rw [h1.on]; exact hWaits1)
      exact ⟨a2, h2, hSame.trans hCore, hLive2, hWaits2⟩

/-- The first switch to a thread that has waited gives it the registers it has in the machine of the threads. -/
theorem represents_resumes {s1 s2 s3 : Cores T C A} (h : Represents L s1 a) {t : T} (hLive : t ∈ s1.live)
    (hWaits : Waits s1.on t) (hRun : Relation.ReflTransGen (ParkedStep L t) s1 s2) {c : C} {ra : U64}
    (hBack : SwitchStep L c t ra s2 s3) : s3.on c = t ∧ s3.core c = a.core t := by
  obtain ⟨a2, h2, hCore, -, hWaits2⟩ := represents_wait h hLive hWaits hRun
  obtain ⟨mem, -, h3⟩ := represents_switch h2 hBack
  rw [h2.switched_eq] at h3
  have hOn : s3.on c = t := by
    rw [← h3.on]
    exact Function.update_self _ _ _
  have hNe : t ≠ s2.on c := Ne.symm (hWaits2 c)
  refine ⟨hOn, ?_⟩
  rw [← h3.running c, hOn]
  simp only
  rw [Function.update_of_ne hNe, hCore]

/-- **A thread comes back from `context_switch` as it left.**  Whatever the CPUs do between two switches, from the
thread and back to it, perhaps on another CPU: it has the registers and the flags of the call, the stack pointer is
behind the return address, and it goes on there. -/
theorem switch_returns {s0 s1 s2 s3 : Cores T C A} (h : Represents L s0 a) {c c' : C} {new : T} {ra ra' : U64}
    (hAway : SwitchStep L c new ra s0 s1)
    (hRun : Relation.ReflTransGen (ParkedStep L (s0.on c)) s1 s2)
    (hBack : SwitchStep L c' (s0.on c) ra' s2 s3) :
    s3.on c' = s0.on c ∧ s3.core c' = (s0.core c).returned ra := by
  obtain ⟨mem, -, h1⟩ := represents_switch h hAway
  rw [h.switched_eq] at h1
  have hLive : s0.on c ∈ s1.live := by
    rw [← h1.live]
    exact h.onLive c
  have hWaits : Waits s1.on (s0.on c) := by
    intro d hd
    rw [← h1.on] at hd
    simp only at hd
    by_cases hdc : d = c
    · subst hdc
      rw [Function.update_self] at hd
      exact hAway.1.waits d hd.symm
    · rw [Function.update_of_ne hdc] at hd
      exact hdc (h.onInj hd)
  obtain ⟨hOn, hCore⟩ := represents_resumes h1 hLive hWaits hRun hBack
  exact ⟨hOn, hCore.trans (Function.update_self _ _ _)⟩

omit [DecidableEq T] in
/-- The call of `context_switch` is executed to its end: no access is to an address that is not mapped. -/
theorem Switches.step (h : Represents L s a) {c : C} {new : T} {ra : U64} (hSwitches : Switches L s c new ra) :
    ∃ s', SwitchStep L c new ra s s' := by
  have hParked := h.parked new hSwitches.live hSwitches.waits
  have hApart := h.apart _ (h.onLive c) _ hSwitches.live (hSwitches.waits c)
  obtain ⟨mem, hRun, -⟩ := hSwitches.exec_ok hParked hApart 0#64 0#64
  exact ⟨_, hSwitches, _, _, _, _, _, _, hRun, rfl⟩

end Runs

/-! ## Two threads on one CPU -/

section Example

/-- The stack pointer of a thread before it calls `context_switch`. -/
def pairTop (b : Bool) : U64 := if b then 0xffff800000020000#64 else 0xffff800000010000#64

/-- Two threads with stacks of `0x1000` bytes, in a memory that every address denotes a quadword of. -/
def pairMap : ThreadMap Bool U64 where
  tr := fun _ a => some a
  stack := fun b => { a | (pairTop b).toNat ≤ a.toNat + 0x1000 ∧ a.toNat ≤ (pairTop b).toNat }
  rspAddr := fun b => if b then 0xffff800000002000#64 else 0xffff800000001000#64
  rspCell := fun b => if b then 0xffff800000002000#64 else 0xffff800000001000#64
  kernelHalf := fun _ _ _ _ => rfl
  rspAddr_high := by decide
  tr_rspAddr := fun _ => rfl
  rspCell_notMem := by
    intro b hb
    cases b
    · exact absurd hb.1 (by decide)
    · exact absurd hb.1 (by decide)

/-- The registers of a thread that calls `context_switch` for the other one. -/
def pairCore (b : Bool) : Core :=
  ⟨fun r => if r = .rdi then pairMap.rspAddr b else if r = .rsi then pairMap.rspAddr (!b) else 0#64, pairTop b, 0#64⟩

/-- The second thread waits with an empty frame. -/
def pairStart : Cores Bool Unit U64 where
  on := fun _ => false
  core := fun _ => pairCore false
  mem := fun a => if a = pairMap.rspCell true then below (pairTop true) 16 else 0#64
  live := Set.univ

theorem pairMap_apart (t u : Bool) (h : t ≠ u) : Disjoint (pairMap.cells t) (pairMap.cells u) := by
  have hOne : Disjoint (pairMap.cells false) (pairMap.cells true) := by
    rw [Set.disjoint_left]
    rintro x (rfl | hx) (hx' | hx')
    · exact absurd hx' (by decide)
    · exact absurd hx'.1 (by decide)
    · subst hx'
      exact absurd hx.1 (by decide)
    · have hHigh : x.toNat ≤ 0xffff800000010000 := hx.2
      have hLow : 0xffff800000020000 ≤ x.toNat + 0x1000 := hx'.1
      omega
  cases t <;> cases u
  · exact absurd rfl h
  · exact hOne
  · exact hOne.symm
  · exact absurd rfl h

/-- A thread at its stack pointer can call `context_switch`, whatever the memory holds. -/
theorem pairMap_atSwitch (mem : U64 → U64) (b : Bool) :
    pairMap.AtSwitch mem b (pairCore b) (mem (pairTop b)) := by
  have hIn : ∀ b : Bool, ∀ i, i < 17 → (pairTop b).toNat ≤ (below (pairTop b) i).toNat + 0x1000 ∧
      (below (pairTop b) i).toNat ≤ (pairTop b).toNat := by decide
  have hNat : ∀ b : Bool, ∀ i, i < 17 → (below (pairTop b) i).toNat + 8 * i = (pairTop b).toNat := by decide
  have hTop : pairTop b ∈ pairMap.stack b := ⟨Nat.le_add_right _ _, le_refl _⟩
  refine ⟨⟨pairMap.stack b \ {pairTop b}, {pairTop b}, ?_, Set.disjoint_sdiff_left, ?_, ?_⟩, ?_⟩
  · rw [Set.sdiff_union_self]
    exact Set.union_subset (le_refl _) (Set.singleton_subset_iff.mpr hTop)
  · refine vacant_of_injective (fun i hi => rfl) (fun i hi => ⟨hIn b (i + 1) (by omega), ?_⟩) fun i j hi hj hEq => ?_
    · intro hEq
      have hi' := hNat b (i + 1) (by omega)
      rw [show below (pairTop b) (i + 1) = pairTop b from hEq] at hi'
      omega
    · have hi' := hNat b (i + 1) (by omega)
      have hj' := hNat b (j + 1) (by omega)
      have hEq' : below (pairTop b) (i + 1) = below (pairTop b) (j + 1) := hEq
      rw [hEq'] at hi'
      omega
  · exact ⟨⟨pairTop b, rfl, rfl, rfl⟩, trivial⟩
  · cases b <;> decide

/-- The threads at the start. -/
def pairThreads : Threads Bool Unit U64 where
  on := fun _ => false
  core := fun b => if b then ⟨fun _ => 0#64, above (below (pairTop true) 16) 17, 0#64⟩ else pairCore false
  mem := pairStart.mem
  live := Set.univ

theorem pairStart_represents : Represents pairMap pairStart pairThreads := by
  constructor
  · rfl
  · rfl
  · rfl
  · exact fun _ => rfl
  · intro t _ hWaits
    have ht : t = true := by
      cases t
      · exact absurd rfl (hWaits ())
      · rfl
    subst ht
    have hIn : ∀ i, i < 17 → (pairTop true).toNat ≤ (above (below (pairTop true) 16) i).toNat + 0x1000 ∧
        (above (below (pairTop true) 16) i).toNat ≤ (pairTop true).toNat := by decide
    have hZero : ∀ i, i < 17 → pairStart.mem (above (below (pairTop true) 16) i) = 0#64 := by decide
    refine ⟨?_, rfl⟩
    refine holds_of_cells (fun i hi => rfl) (fun i hi => hIn i hi) fun i hi => (hZero i hi).trans ?_
    revert hi
    revert i
    decide
  · exact fun _ => trivial
  · exact fun _ _ _ => rfl
  · exact fun t _ u _ => pairMap_apart t u

theorem pair_switches {s : Cores Bool Unit U64} {b : Bool} (hOn : s.on () = b) (hCore : s.core () = pairCore b)
    (hLive : (!b) ∈ s.live) : Switches pairMap s () (!b) (s.mem (pairTop b)) := by
  subst hOn
  refine ⟨hLive, fun _ hEq => ?_, ?_, ?_, ?_⟩
  · exact absurd hEq (by cases s.on () <;> decide)
  · rw [hCore]
    rfl
  · rw [hCore]
    rfl
  · rw [hCore]
    exact pairMap_atSwitch s.mem (s.on ())

/-- The first thread switches to the second one, which switches back. -/
theorem switch_returns_pair : ∃ s3 : Cores Bool Unit U64,
    s3.on () = false ∧ s3.core () = (pairCore false).returned 0#64 := by
  have hFirst : Switches pairMap pairStart () true 0#64 := pair_switches rfl rfl trivial
  obtain ⟨s1, hAway⟩ := hFirst.step pairStart_represents
  obtain ⟨mem, -, h1⟩ := represents_switch pairStart_represents hAway
  have hOn1 : s1.on () = true := by
    rw [← h1.on]
    rfl
  have hLive1 : s1.live = Set.univ := h1.live.symm
  -- the second thread executes code of its own, up to its call of `context_switch`
  have hRun : CoresStep pairMap s1 { s1 with core := Function.update s1.core () (pairCore true), mem := s1.mem } :=
    .run () (pairCore true) s1.mem fun _ _ _ _ _ => rfl
  obtain ⟨a2, -, h2⟩ := represents_step h1 hRun
  have hSecond := @pair_switches { s1 with core := Function.update s1.core () (pairCore true), mem := s1.mem }
    true hOn1 (by simp only [Function.update_self]) (by rw [hLive1]; trivial)
  obtain ⟨s3, hBack⟩ := hSecond.step h2
  have hWaits : Waits s1.on false := fun _ hEq => Bool.noConfusion (hOn1.symm.trans hEq)
  have hWait : ParkedStep pairMap false s1
      { s1 with core := Function.update s1.core () (pairCore true), mem := s1.mem } :=
    ⟨hRun, by rw [hLive1]; trivial, hWaits⟩
  exact ⟨s3, switch_returns pairStart_represents hAway (.single hWait) hBack⟩

/-- The CPU and the threads after the first switch. -/
theorem represents_run_pair : ∃ (s : Cores Bool Unit U64) (a : Threads Bool Unit U64),
    Relation.ReflTransGen (ThreadsStep pairMap) pairThreads a ∧ Represents pairMap s a ∧ s.on () = true := by
  have hFirst : Switches pairMap pairStart () true 0#64 := pair_switches rfl rfl trivial
  obtain ⟨s1, hAway⟩ := hFirst.step pairStart_represents
  have hStep : CoresStep pairMap pairStart s1 := .switch () true 0#64 s1 hAway
  obtain ⟨a1, hThreads, h1⟩ := represents_run pairStart_represents (.single hStep)
  obtain ⟨-, _, _, _, _, _, _, -, rfl⟩ := hAway
  exact ⟨_, a1, hThreads, h1, rfl⟩

end Example

end Rayos
