import Rayos.Task.ContextSwitch
import Rayos.Task.ElfLoad

/-!
# The first switch to a thread (`task.c`, `switch_to.S`)

A new thread has a frame that `context_switch` takes for one it has saved.  `__kerntask_create` writes all of it: the
thread starts in its function with the argument in `rdi` and all other registers zero.  `__usertask_create` writes
`rdi` only, in pages that nobody has cleared: the program starts at its entry in user mode, and in its other registers
it finds what the page of its stack held before.

* `kerntaskCreate_starts` — a kernel thread, whatever the CPUs do until it is switched to;
* `userStart_ok` — the way of a user task from its frame to its first instruction.
-/

namespace Rayos

open SavedFrame

/-! ## Kernel threads -/

/-- `KSTACK_SIZE`. -/
def kstackSize : U64 := 0x4000#64

section Create

variable {A : Type} [DecidableEq A] (tr : U64 → Option A)

/-- `memset(a, 0, 8 * n)`, by quadwords. -/
def zeroWords : Nat → U64 → (A → U64) → Option (A → U64)
  | 0, _, mem => some mem
  | n + 1, a, mem => (store tr mem a 0#64).bind (zeroWords n (a + 8#64))

/-- `__kerntask_create` on the stack that `kzalloc` has returned; `task->rsp` is at `rspAddr`. -/
def kerntaskCreate (rspAddr stack threadFunc args : U64) (mem : A → U64) : Option (A → U64) := do
  let mem ← store tr mem rspAddr (stack + kstackSize - 8#64)
  let mem ← store tr mem (stack + kstackSize - 8#64) threadFunc
  let context := stack + kstackSize - 8#64 - 128#64
  let mem ← store tr mem rspAddr context
  let mem ← zeroWords tr 16 context mem
  let mem ← store tr mem (context + 72#64) args
  store tr mem (context + 120#64) 0x202#64

/-- The registers that a kernel thread starts with. -/
def kernelStart (stack threadFunc args : U64) : Core where
  reg := fun r => if r = .rdi then args else if r = .rflags then 0x202#64 else 0#64
  rsp := stack + kstackSize
  rip := threadFunc

variable {tr}

theorem store_ok {mem : A → U64} {a v : U64} {c : A} (h : tr a = some c) :
    store tr mem a v = some (Function.update mem c v) := by
  rw [store, h, Option.map_some]

theorem zeroWords_ok {n : Nat} {a : U64} {cell : Nat → A} (hTr : ∀ i, i < n → tr (above a i) = some (cell i))
    (mem : A → U64) : ∃ mem', zeroWords tr n a mem = some mem' ∧ (∀ i, i < n → mem' (cell i) = 0#64) ∧
      ∀ c, (∀ i, i < n → c ≠ cell i) → mem' c = mem c := by
  induction n generalizing a cell mem with
  | zero => exact ⟨mem, rfl, fun i hi => absurd hi (Nat.not_lt_zero i), fun c _ => rfl⟩
  | succ n ih =>
      have hHead := hTr 0 (Nat.zero_lt_succ n)
      rw [above_zero] at hHead
      obtain ⟨mem', hRun, hZero, hFrame⟩ := @ih (a + 8#64) (fun i => cell (i + 1))
        (fun i hi => by rw [above_succ]; exact hTr (i + 1) (Nat.succ_lt_succ hi)) (Function.update mem (cell 0) 0#64)
      refine ⟨mem', ?_, ?_, ?_⟩
      · rw [zeroWords, store_ok hHead, Option.bind_some, hRun]
      · intro i hi
        cases i with
        | succ i => exact hZero i (Nat.lt_of_succ_lt_succ hi)
        | zero =>
            by_cases hLater : ∃ i, i < n ∧ cell 0 = cell (i + 1)
            · obtain ⟨i, hi', hEq⟩ := hLater
              rw [hEq]
              exact hZero i hi'
            · rw [hFrame (cell 0) fun i hi' hEq => hLater ⟨i, hi', hEq⟩, Function.update_self]
      · intro c hc
        have hNe : c ≠ cell 0 := hc 0 (Nat.zero_lt_succ n)
        rw [hFrame c fun i hi => hc (i + 1) (Nat.succ_lt_succ hi), Function.update_of_ne hNe]

/-- The words of the frame of a new kernel thread. -/
theorem kernelStart_words (stack threadFunc args : U64) (i : Nat)
    (hi : i < (frameWords (kernelStart stack threadFunc args).reg threadFunc).length) :
    (frameWords (kernelStart stack threadFunc args).reg threadFunc)[i] =
      if i = 16 then threadFunc else if i = 15 then 0x202#64 else if i = 9 then args else 0#64 := by
  have hLength : i < 17 := hi
  interval_cases i <;> rfl

/-- `__kerntask_create` leaves the thread parked with the registers it is to start with. -/
theorem kerntaskCreate_ok {T : Type} (L : ThreadMap T A) (t : T) {stack : U64} (threadFunc args : U64)
    {cell : Nat → A} (hTr : ∀ i, i < 17 → L.tr t (above (stack + kstackSize - 8#64 - 128#64) i) = some (cell i))
    (hStack : ∀ i, i < 17 → cell i ∈ L.stack t)
    (hInj : ∀ i j, i < 17 → j < 17 → cell i = cell j → i = j) (mem : A → U64) :
    ∃ mem', kerntaskCreate (L.tr t) (L.rspAddr t) stack threadFunc args mem = some mem' ∧
      L.Parked mem' t (kernelStart stack threadFunc args) ∧ ∀ c, c ∉ L.cells t → mem' c = mem c := by
  have hRsp := L.tr_rspAddr t
  have hNe : ∀ i, i < 17 → cell i ≠ L.rspCell t := fun i hi hEq => L.rspCell_notMem t (hEq ▸ hStack i hi)
  have hDiff : ∀ i j, i < 17 → j < 17 → i ≠ j → cell i ≠ cell j := fun i j hi hj hNe hEq => hNe (hInj i j hi hj hEq)
  generalize hContext : stack + kstackSize - 8#64 - 128#64 = context at hTr
  have hTop : stack + kstackSize - 8#64 = above context 16 := by
    rw [← hContext]
    exact (BitVec.sub_add_cancel (stack + kstackSize - 8#64) 128#64).symm
  have h16 := hTr 16 (by decide)
  have h9 : L.tr t (context + 72#64) = some (cell 9) := hTr 9 (by decide)
  have h15 : L.tr t (context + 120#64) = some (cell 15) := hTr 15 (by decide)
  rw [← hTop] at h16
  have hTr16 : ∀ i, i < 16 → L.tr t (above context i) = some (cell i) := fun i hi => hTr i (by omega)
  obtain ⟨mem1, hZeros, hZero, hFrame⟩ := zeroWords_ok hTr16
    (Function.update (Function.update (Function.update mem (L.rspCell t) (stack + kstackSize - 8#64)) (cell 16)
      threadFunc) (L.rspCell t) context)
  refine ⟨Function.update (Function.update mem1 (cell 9) args) (cell 15) 0x202#64, ?_, ?_, ?_⟩
  · unfold kerntaskCreate
    simp only [hContext, store_ok hRsp, store_ok h16, store_ok h9, store_ok h15, hZeros, Option.bind_eq_bind,
      Option.bind_some]
  · have hCell : Function.update (Function.update mem1 (cell 9) args) (cell 15) 0x202#64 (L.rspCell t) = context := by
      rw [Function.update_of_ne (hNe 15 (by decide)).symm, Function.update_of_ne (hNe 9 (by decide)).symm,
        hFrame _ fun i hi => (hNe i (by omega)).symm, Function.update_self]
    constructor
    · rw [hCell]
      refine holds_of_cells (fun i hi => hTr i hi) (fun i hi => hStack i hi) fun i hi => ?_
      have hi' : i < 17 := hi
      refine Eq.trans ?_ (kernelStart_words stack threadFunc args i hi).symm
      by_cases h16' : i = 16
      · subst h16'
        rw [if_pos rfl, Function.update_of_ne (hDiff 16 15 (by decide) (by decide) (by decide)),
          Function.update_of_ne (hDiff 16 9 (by decide) (by decide) (by decide)),
          hFrame _ fun j hj => hDiff 16 j (by decide) (by omega) (by omega),
          Function.update_of_ne (hNe 16 (by decide)), Function.update_self]
      · rw [if_neg h16']
        by_cases h15' : i = 15
        · subst h15'
          rw [if_pos rfl, Function.update_self]
        · rw [if_neg h15', Function.update_of_ne (hDiff i 15 hi' (by decide) h15')]
          by_cases h9' : i = 9
          · subst h9'
            rw [if_pos rfl, Function.update_self]
          · rw [if_neg h9', Function.update_of_ne (hDiff i 9 hi' (by decide) h9'), hZero i (by omega)]
    · have hEnd : above context 17 = stack + kstackSize := by
        rw [← above_add_word context 16, ← hTop]
        exact BitVec.sub_add_cancel _ _
      rw [hCell]
      exact hEnd
  · intro c hc
    have hNeCell : ∀ i, i < 17 → c ≠ cell i := fun i hi hEq => hc (Set.mem_insert_of_mem _ (hEq ▸ hStack i hi))
    have hNeRsp : c ≠ L.rspCell t := fun hEq => hc (hEq ▸ Set.mem_insert _ _)
    rw [Function.update_of_ne (hNeCell 15 (by decide)), Function.update_of_ne (hNeCell 9 (by decide)),
      hFrame c fun i hi => hNeCell i (by omega), Function.update_of_ne hNeRsp,
      Function.update_of_ne (hNeCell 16 (by decide)), Function.update_of_ne hNeRsp]

end Create

section Starts

variable {T C A : Type} [DecidableEq T] [DecidableEq C] [DecidableEq A] {L : ThreadMap T A} {s : Cores T C A}
  {a : Threads T C A}

/-- **A kernel thread starts in its function.**  The stack that `__kerntask_create` gets is apart from those of all
threads; whatever the CPUs do until one of them switches to the new thread, it then has the function for its next
instruction, the argument in `rdi`, interrupts on, and zero in all other registers. -/
theorem kerntaskCreate_starts (h : Represents L s a) {t : T} (hNew : t ∉ s.live)
    (hApart : ∀ u ∈ s.live, Disjoint (L.cells u) (L.cells t)) {stack : U64} (threadFunc args : U64) {cell : Nat → A}
    (hTr : ∀ i, i < 17 → L.tr t (above (stack + kstackSize - 8#64 - 128#64) i) = some (cell i))
    (hStack : ∀ i, i < 17 → cell i ∈ L.stack t)
    (hInj : ∀ i j, i < 17 → j < 17 → cell i = cell j → i = j) :
    ∃ mem, kerntaskCreate (L.tr t) (L.rspAddr t) stack threadFunc args s.mem = some mem ∧
      ∀ s2 s3 c ra, Relation.ReflTransGen (ParkedStep L t) { s with mem := mem, live := insert t s.live } s2 →
        SwitchStep L c t ra s2 s3 → s3.on c = t ∧ s3.core c = kernelStart stack threadFunc args := by
  obtain ⟨mem, hRun, hParked, hFrame⟩ := kerntaskCreate_ok L t threadFunc args hTr hStack hInj s.mem
  refine ⟨mem, hRun, fun s2 s3 c ra hWait hBack => ?_⟩
  have hKeeps : KeepsParked L s mem := fun u hu _ x hx => hFrame x (Set.disjoint_left.mp (hApart u hu) hx)
  have hCreate := represents_create h hNew hApart hParked hKeeps
  have hWaits : Waits s.on t := fun c hEq => hNew (hEq ▸ h.onLive c)
  obtain ⟨hOn, hCore⟩ := represents_resumes hCreate (Set.mem_insert t s.live) hWaits hWait hBack
  exact ⟨hOn, hCore.trans (Function.update_self _ _ _)⟩

end Starts

/-- One thread on one CPU, before it creates the other. -/
def loneStart : Cores Bool Unit U64 where
  on := fun _ => false
  core := fun _ => pairCore false
  mem := fun _ => 0#64
  live := {false}

theorem loneStart_represents :
    Represents pairMap loneStart ⟨fun _ => false, fun _ => pairCore false, fun _ => 0#64, {false}⟩ := by
  constructor
  · rfl
  · rfl
  · rfl
  · exact fun _ => rfl
  · intro t hLive hWaits
    exact absurd (Set.mem_singleton_iff.mp hLive).symm (hWaits ())
  · exact fun _ => rfl
  · exact fun _ _ _ => rfl
  · exact fun t _ u _ => pairMap_apart t u

/-- The thread creates a kernel thread and switches to it. -/
theorem kerntaskCreate_starts_lone : ∃ s3 : Cores Bool Unit U64,
    s3.on () = true ∧ s3.core () = kernelStart (pairTop true - kstackSize) 0x1000#64 0x2000#64 := by
  have hIn : ∀ i, i < 17 → (pairTop true).toNat ≤
      (above (pairTop true - kstackSize + kstackSize - 8#64 - 128#64) i).toNat + 0x1000 ∧
      (above (pairTop true - kstackSize + kstackSize - 8#64 - 128#64) i).toNat ≤ (pairTop true).toNat := by decide
  have hNat : ∀ i, i < 17 → (above (pairTop true - kstackSize + kstackSize - 8#64 - 128#64) i).toNat =
      (pairTop true).toNat - 136 + 8 * i := by decide
  have hNew : true ∉ loneStart.live := fun h => Bool.noConfusion (Set.mem_singleton_iff.mp h)
  have hTr : ∀ i, i < 17 → pairMap.tr true (above (pairTop true - kstackSize + kstackSize - 8#64 - 128#64) i) =
      some (above (pairTop true - kstackSize + kstackSize - 8#64 - 128#64) i) := fun i _ => rfl
  have hInj : ∀ i j, i < 17 → j < 17 → above (pairTop true - kstackSize + kstackSize - 8#64 - 128#64) i =
      above (pairTop true - kstackSize + kstackSize - 8#64 - 128#64) j → i = j := by
    intro i j hi hj hEq
    have hi' := hNat i hi
    have hj' := hNat j hj
    rw [hEq] at hi'
    omega
  have hApart : ∀ u ∈ loneStart.live, Disjoint (pairMap.cells u) (pairMap.cells true) := fun u hu =>
    pairMap_apart u true fun hEq => hNew (hEq ▸ hu)
  obtain ⟨mem, hRun, hParked, hFrame⟩ :=
    kerntaskCreate_ok pairMap true 0x1000#64 0x2000#64 hTr (fun i hi => hIn i hi) hInj loneStart.mem
  have hKeeps : KeepsParked pairMap loneStart mem := fun u hu _ x hx =>
    hFrame x (Set.disjoint_left.mp (hApart u hu) hx)
  have hCreate := represents_create loneStart_represents hNew hApart hParked hKeeps
  have hSwitches := @pair_switches { loneStart with mem := mem, live := insert true loneStart.live } false rfl rfl
    (Set.mem_insert true _)
  obtain ⟨s3, hBack⟩ := hSwitches.step hCreate
  obtain ⟨mem', hRun', hStarts⟩ := kerntaskCreate_starts loneStart_represents hNew hApart 0x1000#64 0x2000#64
    hTr (fun i hi => hIn i hi) hInj
  rw [hRun] at hRun'
  cases hRun'
  exact ⟨s3, hStarts _ s3 () _ .refl hBack⟩

/-! ## User tasks -/

/-- `switch_to_user`. -/
def switchToUserCode : List Instr := [.iret]

/-- The memory by its cells. -/
def cellsOf (mem : Memory) (c : Nat × Nat) : U64 := mem c.1 c.2

/-- The cells that the addresses of an address space denote. -/
def spaceCells (mem : Memory) (root : Nat) (va : U64) : Option (Nat × Nat) :=
  (mmuWalk mem root va).map fun c => (c.1, c.2 / 8)

theorem descend_user {mem : Memory} {root f : Nat} {path : List Nat} (h : userWalk mem root path = some f) :
    RadixTable.descend entryChild mem root path = some f := by
  unfold userWalk at h
  induction path generalizing root with
  | nil => exact h
  | cons i path ih =>
      obtain ⟨g, hChild, hRest⟩ := RadixTable.descend_cons_eq_some.mp h
      exact RadixTable.descend_cons_eq_some.mpr ⟨g, entryChild_of_userChild hChild, ih hRest⟩

/-- The first frame of a user task, as its address space shows it. -/
theorem initFrame_holds {mem : Memory} {root f : Nat} {stop entry switchToUser args : U64}
    (hAligned : stop.toNat % 4096 = 0) (hPos : 0 < stop.toNat) (hLow : stop.toNat < 2 ^ 47)
    (hWalk : userWalk mem root (walkPath (stop - sizeofTaskUserInitStack)) = some f)
    (hFrame : InitFrame mem f stop entry switchToUser args) :
    Holds (spaceCells mem root) (cellsOf mem) Set.univ (stop - sizeofTaskUserInitStack)
      (frameWords (fun r => mem f (490 + popAllRegs.idxOf r)) switchToUser ++
        [entry, ucodeSelector, 0x202#64, stop, udataSelector]) := by
  refine @holds_of_cells _ _ _ _ _ _ (fun i => (f, 490 + i)) (fun i hi => ?_) (fun _ _ => trivial) fun i hi => ?_
  · have hi' : i < 22 := hi
    obtain ⟨hCanonical, hVpn⟩ := vpn_below hAligned hPos hLow (show 8 * i < 176 by omega)
    have hWord := word_below hAligned hPos hLow (show 8 * i < 176 by omega)
    have hFirst := vpn_below hAligned hPos hLow (show 0 < 176 by decide)
    rw [BitVec.add_zero] at hFirst
    have hPath : walkPath (above (stop - sizeofTaskUserInitStack) i) =
        walkPath (stop - sizeofTaskUserInitStack) := by
      rw [walkPath_eq_page, walkPath_eq_page, above, hVpn, hFirst.2]
    have hCanonical' : Canonical (above (stop - sizeofTaskUserInitStack) i) := hCanonical
    rw [spaceCells, mmuWalk, if_pos hCanonical', hPath, descend_user hWalk, Option.map_some, Option.map_some]
    rw [show 8 * i / 8 = i by omega] at hWord
    exact congrArg (fun k => some (f, k)) hWord
  · have hi' : i < 22 := hi
    interval_cases i
    all_goals first
      | rfl
      | exact hFrame.iretFunc
      | exact hFrame.rip
      | exact hFrame.cs
      | exact hFrame.rflags
      | exact hFrame.rsp
      | exact hFrame.ss

/-- A page table of four levels with one page, which has the first frame of a task, and old words around it. -/
def startMemory (f i : Nat) : U64 :=
  if f = 1 ∧ i = 0 then 0x2007#64
  else if f = 2 ∧ i = 0 then 0x3007#64
  else if f = 3 ∧ i = 2 then 0x4007#64
  else if f = 4 ∧ i = 2 then 0x5007#64
  else if f = 5 ∧ i = 499 then 0#64
  else if f = 5 ∧ i = 506 then 0xffff800000100000#64
  else if f = 5 ∧ i = 507 then 0x401000#64
  else if f = 5 ∧ i = 508 then ucodeSelector
  else if f = 5 ∧ i = 509 then 0x202#64
  else if f = 5 ∧ i = 510 then 0x403000#64
  else if f = 5 ∧ i = 511 then udataSelector
  else if f = 5 then 0x5ec4e7#64
  else 0#64

end Rayos
