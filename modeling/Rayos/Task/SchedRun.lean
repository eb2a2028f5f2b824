import Rayos.Lib.Holdings
import Rayos.Task.Sched

/-!
# Whole runs of the scheduler

* `SchedInv` — every task created so far is in exactly one place, the current task of a CPU is
  running or has exited, and the counters of the queues are right.
* `schedInv_step`, `schedInv_of_reachable` — every call keeps it, so it holds along every run.
* `HomeInv` — in runs in which the first task of a CPU does not exit, this task is always current
  or ready on its CPU, so a task that exits finds somebody to switch to.
-/

namespace Rayos

open Holdings

/-- The places a task can be in. -/
inductive Slot where
  | current (cpu : Nat)
  | ready (cpu : Nat)
  | exit (cpu : Nat)
  | reaped
  deriving DecidableEq

/-- The CPU a place belongs to. -/
def Slot.cpu? : Slot → Option Nat
  | .current cpu | .ready cpu | .exit cpu => some cpu
  | .reaped => none

/-- The tasks in a place. -/
def Sched.slot (s : Sched) : Slot → List Nat
  | .current cpu => (s.current cpu).toList
  | .ready cpu => (s.taskReadyqueue cpu).list
  | .exit cpu => (s.taskExitqueue cpu).list
  | .reaped => s.reaped.map Reaped.task

/-- `nr_list` is the length of the list. -/
def Queue.Counted (q : Queue) : Prop := q.nrList = q.list.length

theorem queueEnqueue_counted {q : Queue} (h : q.Counted) (task : Nat) :
    (queueEnqueue q task).Counted := by
  simp only [Queue.Counted, queueEnqueue, List.length_append, List.length_singleton] at h ⊢
  omega

/-! ## The load balancer -/

/-- `find_extreme_index` on a nonempty array returns one of its indices. -/
theorem findExtremeIndex_lt (arr : List Int) (cmp : Int → Int → Bool) (h : 0 < arr.length) :
    (findExtremeIndex arr cmp).toNat < arr.length := by
  have hFold : ∀ (l : List Nat) (idx : Nat), idx < arr.length → (∀ i ∈ l, i < arr.length) →
      l.foldl (fun idx i => if cmp (arr.getD i 0) (arr.getD idx 0) then i else idx) idx <
        arr.length := by
    intro l
    induction l with
    | nil =>
        intro idx hIdx _
        exact hIdx
    | cons i l ih =>
        intro idx hIdx hAll
        refine ih _ ?_ fun k hk => hAll k (List.mem_cons_of_mem i hk)
        simp only
        split
        · exact hAll i (by simp)
        · exact hIdx
  unfold findExtremeIndex
  rw [if_neg (by omega), Int.toNat_natCast]
  refine hFold _ 0 h ?_
  intro i hi
  rw [List.mem_range'_1] at hi
  omega

/-- What `sched_enqueue_balanced` does: one of the ready queues gets the task. -/
theorem schedEnqueueBalanced_eq (top : Topology) (hPos : 0 < top.maxCpus) (s : Sched)
    (task : Nat) :
    ∃ cpu, cpu < top.maxCpus ∧ schedEnqueueBalanced top s task =
      s.setReadyqueue cpu (queueEnqueue (s.taskReadyqueue cpu) task) := by
  refine ⟨_, top.apIds_lt _ ?_, rfl⟩
  have h := findExtremeIndex_lt
    ((List.range top.maxCpus).map fun i => (s.taskReadyqueue i).nrList) minCmp (by simpa using hPos)
  simpa using h

/-! ## The scheduler -/

/-- The state after the reaping loop of `scheduler`. -/
def afterReap (cpu old : Nat) (s : Sched) : Sched :=
  { s.setExitqueue cpu
      ⟨[], (s.taskExitqueue cpu).nrList - (s.taskExitqueue cpu).list.length⟩ with
    reaped := s.reaped ++
      (s.taskExitqueue cpu).list.map fun task => ⟨task, old, releasedBy (s.tasks task).flags⟩ }

/-- The reaping loop empties the exit queue. -/
theorem reapExitqueue_eq (cpu old : Nat) :
    ∀ (l : List Nat) (s : Sched), (s.taskExitqueue cpu).list = l →
      reapExitqueue cpu old l.length s = afterReap cpu old s := by
  intro l
  induction l with
  | nil =>
      intro s hs
      have hEq : (⟨[], (s.taskExitqueue cpu).nrList - (s.taskExitqueue cpu).list.length⟩ : Queue) =
          s.taskExitqueue cpu := by
        cases hq : s.taskExitqueue cpu with
        | mk list nrList =>
            rw [hq] at hs
            simp [← hs]
      unfold afterReap
      rw [hEq, Sched.setExitqueue, Function.update_eq_self, hs]
      simp [reapExitqueue]
  | cons task l ih =>
      intro s hs
      rw [List.length_cons, reapExitqueue]
      simp only [queueDequeue, hs]
      rw [ih _ (by simp [Sched.setExitqueue])]
      simp only [afterReap, Sched.setExitqueue, hs, Function.update_self, Function.update_idem,
        List.map_cons, List.append_assoc, List.singleton_append, List.length_cons]
      congr 3
      push_cast
      omega

/-- What `scheduler` can do: nothing on a CPU without a task; otherwise it reaps, and if another
task is ready it switches to it. -/
theorem scheduler_cases (cpu : Nat) (s : Sched) :
    (s.current cpu = none ∧ scheduler cpu s = s) ∨
    (∃ old, s.current cpu = some old ∧ (s.taskReadyqueue cpu).list = [] ∧
      scheduler cpu s = afterReap cpu old s) ∨
    (∃ old new rest, s.current cpu = some old ∧ (s.taskReadyqueue cpu).list = new :: rest ∧
      scheduler cpu s =
        (requeue cpu old (((afterReap cpu old s).setReadyqueue cpu
          ⟨rest, (s.taskReadyqueue cpu).nrList - 1⟩).setStatus new .running)).setCurrent cpu new) := by
  unfold scheduler
  cases hCur : s.current cpu with
  | none => exact Or.inl ⟨rfl, rfl⟩
  | some old =>
      right
      simp only [reapExitqueue_eq cpu old _ s rfl]
      have hSame : (afterReap cpu old s).taskReadyqueue cpu = s.taskReadyqueue cpu := rfl
      cases hReady : (s.taskReadyqueue cpu).list with
      | nil =>
          refine Or.inl ⟨old, rfl, rfl, ?_⟩
          simp only [queueDequeue, hSame, hReady]
      | cons new rest =>
          refine Or.inr ⟨old, new, rest, rfl, rfl, ?_⟩
          simp only [queueDequeue, hSame, hReady]

/-! ## The places after an update -/

section Slots

variable (s : Sched) (cpu : Nat)

@[simp] theorem slot_setTask (task : Nat) (t : TaskStruct) : (s.setTask task t).slot = s.slot := by
  funext k
  cases k <;> rfl

@[simp] theorem slot_setStatus (task : Nat) (status : TaskStatus) :
    (s.setStatus task status).slot = s.slot := slot_setTask s task _

@[simp] theorem slot_newTask (t : TaskStruct) : (s.newTask t).slot = s.slot := by
  funext k
  cases k <;> rfl

@[simp] theorem slot_setCurrent (task : Nat) :
    (s.setCurrent cpu task).slot = Function.update s.slot (.current cpu) [task] := by
  funext k
  cases k with
  | current c => by_cases h : c = cpu <;> simp [Sched.slot, Sched.setCurrent, h]
  | ready c => simp [Sched.slot, Sched.setCurrent]
  | exit c => simp [Sched.slot, Sched.setCurrent]
  | reaped => simp [Sched.slot, Sched.setCurrent]

@[simp] theorem slot_setReadyqueue (q : Queue) :
    (s.setReadyqueue cpu q).slot = Function.update s.slot (.ready cpu) q.list := by
  funext k
  cases k with
  | current c => simp [Sched.slot, Sched.setReadyqueue]
  | ready c => by_cases h : c = cpu <;> simp [Sched.slot, Sched.setReadyqueue, h]
  | exit c => simp [Sched.slot, Sched.setReadyqueue]
  | reaped => simp [Sched.slot, Sched.setReadyqueue]

@[simp] theorem slot_setExitqueue (q : Queue) :
    (s.setExitqueue cpu q).slot = Function.update s.slot (.exit cpu) q.list := by
  funext k
  cases k with
  | current c => simp [Sched.slot, Sched.setExitqueue]
  | ready c => simp [Sched.slot, Sched.setExitqueue]
  | exit c => by_cases h : c = cpu <;> simp [Sched.slot, Sched.setExitqueue, h]
  | reaped => simp [Sched.slot, Sched.setExitqueue]

@[simp] theorem slot_afterReap (old : Nat) :
    (afterReap cpu old s).slot =
      Function.update (Function.update s.slot (.exit cpu) []) .reaped
        (s.slot .reaped ++ s.slot (.exit cpu)) := by
  funext k
  cases k with
  | current c => simp [Sched.slot, afterReap, Sched.setExitqueue]
  | ready c => simp [Sched.slot, afterReap, Sched.setExitqueue]
  | exit c => by_cases h : c = cpu <;> simp [Sched.slot, afterReap, Sched.setExitqueue, h]
  | reaped => simp [Sched.slot, afterReap, Function.comp_def]

end Slots

/-- A place of another CPU is none of this CPU's places. -/
theorem Slot.ne_of_cpu {k : Slot} {c : Nat} (hk : k.cpu? = some c) (cpu : Nat) (hc : c ≠ cpu) :
    k ≠ .current cpu ∧ k ≠ .ready cpu ∧ k ≠ .exit cpu ∧ k ≠ .reaped := by
  refine ⟨?_, ?_, ?_, ?_⟩ <;>
    · rintro rfl
      simp [Slot.cpu?] at hk
      try omega

/-! ## The invariant -/

/-- What every reachable state satisfies. -/
structure SchedInv (top : Topology) (s : Sched) : Prop where
  holds : Holds s.slot (· < s.created)
  status : ∀ cpu t, s.current cpu = some t →
    (s.tasks t).status = .running ∨ (s.tasks t).status = .exit
  ready : ∀ cpu, (s.taskReadyqueue cpu).Counted
  exit : ∀ cpu, (s.taskExitqueue cpu).Counted
  inside : ∀ slot cpu, slot.cpu? = some cpu → top.maxCpus ≤ cpu → s.slot slot = []

theorem schedInv_init (top : Topology) : SchedInv top taskInit := by
  have hSlot : taskInit.slot = fun _ => [] := by
    funext k
    cases k <;> rfl
  refine ⟨?_, by simp [taskInit], fun _ => rfl, fun _ => rfl, by simp [hSlot]⟩
  rw [hSlot]
  refine ⟨by simp, by simp, by simp [taskInit]⟩

variable {top : Topology} {s s' : Sched} {cpu : Nat}

theorem counted_update {q : Nat → Queue} (h : ∀ c, (q c).Counted) {q' : Queue} (h' : q'.Counted)
    (cpu : Nat) : ∀ c, (Function.update q cpu q' c).Counted := by
  intro c
  by_cases hc : c = cpu
  · subst hc
    rw [Function.update_self]
    exact h'
  · rw [Function.update_of_ne hc]
    exact h c

theorem SchedInv.lt_of_slot (h : SchedInv top s) {t : Nat} {k : Slot} (ht : t ∈ s.slot k) :
    t < s.created :=
  (h.holds.covers t).mpr ⟨k, ht⟩

/-- Reaping keeps the invariant. -/
theorem schedInv_afterReap (h : SchedInv top s) (old : Nat) :
    SchedInv top (afterReap cpu old s) where
  holds := by
    refine h.holds.move (i := .exit cpu) (j := .reaped) (s.slot (.exit cpu)) []
      (by simp) (by simp) (by simp) ?_ ?_
    · simpa using List.perm_append_comm
    · intro k hk hk'
      simp [hk, hk']
  status := h.status
  ready := h.ready
  exit := by
    refine counted_update h.exit ?_ cpu
    have := h.exit cpu
    simp only [Queue.Counted] at this ⊢
    simp [this]
  inside := by
    intro k c hk hc
    have hEmpty := h.inside k c hk hc
    have hReaped : k ≠ .reaped := by
      rintro rfl
      cases hk
    by_cases hExit : k = .exit cpu
    · simp [hExit]
    · simpa [hReaped, hExit] using hEmpty

/-- The switch of `scheduler` keeps the invariant. -/
theorem schedInv_switch (h : SchedInv top s) (hCpu : cpu < top.maxCpus) {old new : Nat}
    {rest : List Nat} (hOld : s.current cpu = some old)
    (hReady : (s.taskReadyqueue cpu).list = new :: rest) :
    SchedInv top ((requeue cpu old ((s.setReadyqueue cpu
      ⟨rest, (s.taskReadyqueue cpu).nrList - 1⟩).setStatus new .running)).setCurrent cpu new) := by
  have hCurrent : s.slot (.current cpu) = [old] := by simp [Sched.slot, hOld]
  have hReadySlot : s.slot (.ready cpu) = new :: rest := hReady
  have hNe : old ≠ new := by
    rintro rfl
    have hSame := h.holds.apart (.current cpu) (.ready cpu) old (by simp [hCurrent])
      (by simp [hReadySlot])
    cases hSame
  have hCounted : Queue.Counted ⟨rest, (s.taskReadyqueue cpu).nrList - 1⟩ := by
    have := h.ready cpu
    simp only [Queue.Counted, hReady, List.length_cons] at this ⊢
    omega
  set t := (s.setReadyqueue cpu ⟨rest, (s.taskReadyqueue cpu).nrList - 1⟩).setStatus new .running
    with ht
  have hTasks : ∀ u, u ≠ new → t.tasks u = s.tasks u := fun u hu => Function.update_of_ne hu _ _
  have hNew : (t.tasks new).status = .running := by
    simp [ht, Sched.setStatus, Sched.setTask]
  -- the tasks that are current afterwards: the new one, and those of the other CPUs
  have hStatus : ∀ c u, Function.update s.current cpu (some new) c = some u →
      (t.tasks u).status = .running ∨ (t.tasks u).status = .exit := by
    intro c u hu
    by_cases hun : u = new
    · rw [hun]
      exact Or.inl hNew
    · rw [hTasks u hun]
      by_cases hc : c = cpu
      · rw [hc, Function.update_self, Option.some.injEq] at hu
        exact absurd hu.symm hun
      · rw [Function.update_of_ne hc] at hu
        exact h.status c u hu
  have hSlot : t.slot = Function.update s.slot (.ready cpu) rest := by simp [ht]
  rcases h.status cpu old hOld with hRun | hExit
  · -- the old task goes to the end of the ready queue
    have hEq : requeue cpu old t = t.setReadyqueue cpu (queueEnqueue (t.taskReadyqueue cpu) old) := by
      simp only [requeue, hTasks old hNe, hRun]
    have hReady' : t.taskReadyqueue cpu = ⟨rest, (s.taskReadyqueue cpu).nrList - 1⟩ := by
      simp [ht, Sched.setStatus, Sched.setTask, Sched.setReadyqueue]
    rw [hEq, hReady']
    refine ⟨?_, hStatus, ?_, h.exit, ?_⟩
    · have hMoved : Holds (Function.update (Function.update s.slot (.current cpu) [])
          (.ready cpu) (new :: rest ++ [old])) (· < s.created) := by
        refine h.holds.move (i := .current cpu) (j := .ready cpu) [old] []
          (by simp) (by simp [hCurrent]) (by simp) ?_ fun k hk hk' => by simp [hk, hk']
        rw [hReadySlot, Function.update_self]
        exact List.perm_append_comm
      refine hMoved.move (i := .ready cpu) (j := .current cpu) [new] (rest ++ [old]) (by simp)
        (by simp) ?_ ?_ fun k hk hk' => by simp [hSlot, hk, hk', queueEnqueue]
      · simp [queueEnqueue]
      · simp
    · refine counted_update ?_ (queueEnqueue_counted hCounted old) cpu
      exact counted_update h.ready hCounted cpu
    · intro k c hk hc
      obtain ⟨h1, h2, -, -⟩ := Slot.ne_of_cpu hk cpu (by omega)
      simpa [hSlot, h1, h2] using h.inside k c hk hc
  · -- the old task goes to the exit queue
    have hEq : requeue cpu old t = t.setExitqueue cpu (queueEnqueue (t.taskExitqueue cpu) old) := by
      simp only [requeue, hTasks old hNe, hExit]
    have hExit' : t.taskExitqueue cpu = s.taskExitqueue cpu := rfl
    rw [hEq, hExit']
    refine ⟨?_, hStatus, counted_update h.ready hCounted cpu,
      counted_update h.exit (queueEnqueue_counted (h.exit cpu) old) cpu, ?_⟩
    · have hMoved : Holds (Function.update (Function.update s.slot (.current cpu) [])
          (.exit cpu) (s.slot (.exit cpu) ++ [old])) (· < s.created) := by
        refine h.holds.move (i := .current cpu) (j := .exit cpu) [old] []
          (by simp) (by simp [hCurrent]) (by simp) ?_ fun k hk hk' => by simp [hk, hk']
        simp
      refine hMoved.move (i := .ready cpu) (j := .current cpu) [new] rest
        (by simp) (by simp [hReadySlot]) ?_ ?_ fun k hk hk' => ?_
      · simp [hSlot]
      · simp
      · by_cases hke : k = .exit cpu
        · rw [hke]
          simp [queueEnqueue, show (s.taskExitqueue cpu).list = s.slot (.exit cpu) from rfl]
        · simp [hSlot, hk, hk', hke]
    · intro k c hk hc
      obtain ⟨h1, h2, h3, -⟩ := Slot.ne_of_cpu hk cpu (by omega)
      simpa [hSlot, h1, h2, h3] using h.inside k c hk hc

theorem schedInv_scheduler (h : SchedInv top s) (hCpu : cpu < top.maxCpus) :
    SchedInv top (scheduler cpu s) := by
  rcases scheduler_cases cpu s with ⟨-, hEq⟩ | ⟨old, -, -, hEq⟩ | ⟨old, new, rest, hOld, hReady, hEq⟩
  · rw [hEq]
    exact h
  · rw [hEq]
    exact schedInv_afterReap h old
  · rw [hEq]
    exact schedInv_switch (schedInv_afterReap h old) hCpu hOld hReady

/-- Marking a task as exited keeps the invariant. -/
theorem schedInv_setExit (h : SchedInv top s) (task : Nat) :
    SchedInv top (s.setStatus task .exit) where
  holds := by
    rw [slot_setStatus]
    exact h.holds
  status := by
    intro c t ht
    by_cases htt : t = task
    · subst htt
      right
      simp [Sched.setStatus, Sched.setTask]
    · simp only [Sched.setStatus, Sched.setTask]
      rw [Function.update_of_ne htt]
      exact h.status c t ht
  ready := h.ready
  exit := h.exit
  inside := by
    rw [slot_setStatus]
    exact h.inside

/-- A new task on one of the ready queues. -/
theorem schedInv_newReady (h : SchedInv top s) (hCpu : cpu < top.maxCpus) (t : TaskStruct) :
    SchedInv top ((s.newTask t).setReadyqueue cpu
      (queueEnqueue (s.taskReadyqueue cpu) s.created)) where
  holds := by
    refine h.holds.add (x := s.created) (j := .ready cpu) (by simp) ?_ (fun k hk => by simp [hk]) ?_
    · rw [slot_setReadyqueue, Function.update_self]
      exact List.perm_append_singleton _ _
    · intro y
      simp only [Sched.setReadyqueue, Sched.newTask]
      omega
  status := by
    intro c u hu
    have hLt : u < s.created := h.lt_of_slot (k := .current c) (by
      have hu' : s.current c = some u := hu
      simp [Sched.slot, hu'])
    simp only [Sched.setReadyqueue, Sched.newTask, Sched.setTask]
    rw [Function.update_of_ne (by omega)]
    exact h.status c u hu
  ready := counted_update h.ready (queueEnqueue_counted (h.ready cpu) _) cpu
  exit := h.exit
  inside := by
    intro k c hk hc
    obtain ⟨-, h2, -, -⟩ := Slot.ne_of_cpu hk cpu (by omega)
    simpa [h2] using h.inside k c hk hc

/-- The first task of a CPU. -/
theorem schedInv_newCurrent (h : SchedInv top s) (hCpu : cpu < top.maxCpus)
    (hNone : s.current cpu = none) (t : TaskStruct) (first : Nat → Option Nat) :
    SchedInv top (Sched.setStatus { (s.newTask t).setCurrent cpu s.created with first := first }
      s.created .running) := by
  have hSlot : Sched.slot (Sched.setStatus
      { (s.newTask t).setCurrent cpu s.created with first := first } s.created .running) =
      Function.update s.slot (.current cpu) [s.created] := by
    rw [slot_setStatus, ← slot_newTask s t, ← slot_setCurrent]
    funext k
    cases k <;> rfl
  refine ⟨?_, ?_, h.ready, h.exit, ?_⟩
  · refine h.holds.add (x := s.created) (j := .current cpu) (by simp) ?_
      (fun k hk => by simp [hSlot, hk]) ?_
    · rw [hSlot, Function.update_self, show s.slot (.current cpu) = [] by simp [Sched.slot, hNone]]
    · intro y
      show y < s.created + 1 ↔ y < s.created ∨ y = s.created
      omega
  · intro c u hu
    change Function.update s.current cpu (some s.created) c = some u at hu
    by_cases huc : u = s.created
    · left
      rw [huc]
      simp [Sched.setStatus, Sched.setTask]
    · simp only [Sched.setStatus, Sched.setTask, Sched.setCurrent, Sched.newTask]
      rw [Function.update_of_ne huc, Function.update_of_ne huc]
      by_cases hc : c = cpu
      · rw [hc, Function.update_self, Option.some.injEq] at hu
        exact absurd hu.symm huc
      · rw [Function.update_of_ne hc] at hu
        exact h.status c u hu
  · intro k c hk hc
    obtain ⟨h1, -, -, -⟩ := Slot.ne_of_cpu hk cpu (by omega)
    simpa [hSlot, h1] using h.inside k c hk hc

/-! ## Runs -/

/-- What a call of a run can do: keep the lock of `run_thread`, start the first task of a CPU, put a
new task on a ready queue, schedule, or mark the current task and schedule. -/
theorem schedStep_cases {call : SchedCall} (hCpu : call.cpu < top.maxCpus)
    (hStep : schedStep top s call = some s') :
    s' = { s with runThreadSpinlock := true } ∨
    (∃ cpu t, cpu < top.maxCpus ∧ s.current cpu = none ∧
      s' = Sched.setStatus { (s.newTask t).setCurrent cpu s.created with
        first := Function.update s.first cpu (some s.created) } s.created .running) ∨
    (∃ cpu t, cpu < top.maxCpus ∧
      s' = (s.newTask t).setReadyqueue cpu (queueEnqueue (s.taskReadyqueue cpu) s.created)) ∨
    (∃ cpu, cpu < top.maxCpus ∧ call = .scheduler cpu ∧ s' = scheduler cpu s) ∨
    (∃ cpu task, cpu < top.maxCpus ∧ (call = .kerntaskExit cpu ∨ call = .usertaskExit cpu) ∧
      s.current cpu = some task ∧ s' = scheduler cpu (s.setStatus task .exit)) := by
  have hPos : 0 < top.maxCpus := by omega
  -- a new task goes to one of the ready queues
  have hEnqueue : ∀ t, ∃ cpu, cpu < top.maxCpus ∧
      schedEnqueueBalanced top (s.newTask t) s.created =
        (s.newTask t).setReadyqueue cpu (queueEnqueue (s.taskReadyqueue cpu) s.created) := fun t =>
    schedEnqueueBalanced_eq top hPos (s.newTask t) s.created
  have hExit : ∀ cpu, cpu < top.maxCpus → taskExit cpu s = some s' →
      ∃ task, s.current cpu = some task ∧ s' = scheduler cpu (s.setStatus task .exit) := by
    intro cpu _ h
    unfold taskExit at h
    split at h
    · cases h
    · rename_i task hTask
      cases h
      exact ⟨task, hTask, rfl⟩
  cases call with
  | runThread cpu kzallocOk =>
      simp only [schedStep, runThread] at hStep
      split at hStep
      · cases hStep
      · split at hStep
        · cases hStep
          exact Or.inl rfl
        · split at hStep
          · rename_i hNone
            cases hStep
            exact Or.inr (Or.inl ⟨cpu, _, hCpu, hNone, rfl⟩)
          · cases hStep
            obtain ⟨c, hc, hEq⟩ := hEnqueue ⟨.kern, .ready⟩
            exact Or.inr (Or.inr (Or.inl ⟨c, _, hc, hEq⟩))
  | runProcess cpu file =>
      obtain ⟨t, hEq⟩ : ∃ t, s' = schedEnqueueBalanced top (s.newTask t) s.created := by
        have hUser : (s.newTask TaskStruct.zeroed).setTask s.created ⟨.user, .ready⟩ =
            s.newTask ⟨.user, .ready⟩ := by
          simp [Sched.newTask, Sched.setTask]
        simp only [schedStep, runProcess, hUser] at hStep
        split_ifs at hStep <;> simp at hStep
        · exact ⟨_, hStep.symm⟩
        · exact ⟨_, hStep.symm⟩
      obtain ⟨c, hc, hEq'⟩ := hEnqueue t
      exact Or.inr (Or.inr (Or.inl ⟨c, t, hc, hEq.trans hEq'⟩))
  | scheduler cpu =>
      cases hStep
      exact Or.inr (Or.inr (Or.inr (Or.inl ⟨cpu, hCpu, rfl, rfl⟩)))
  | kerntaskExit cpu =>
      obtain ⟨task, hTask, hEq⟩ := hExit cpu hCpu hStep
      exact Or.inr (Or.inr (Or.inr (Or.inr ⟨cpu, task, hCpu, Or.inl rfl, hTask, hEq⟩)))
  | usertaskExit cpu =>
      obtain ⟨task, hTask, hEq⟩ := hExit cpu hCpu hStep
      exact Or.inr (Or.inr (Or.inr (Or.inr ⟨cpu, task, hCpu, Or.inr rfl, hTask, hEq⟩)))

/-- Every call keeps the invariant. -/
theorem schedInv_step (h : SchedInv top s) {call : SchedCall} (hCpu : call.cpu < top.maxCpus)
    (hStep : schedStep top s call = some s') : SchedInv top s' := by
  rcases schedStep_cases hCpu hStep with rfl | ⟨cpu, t, hc, hNone, rfl⟩ | ⟨cpu, t, hc, rfl⟩ |
    ⟨cpu, hc, -, rfl⟩ | ⟨cpu, task, hc, -, -, rfl⟩
  · have hSlot : Sched.slot { s with runThreadSpinlock := true } = s.slot := by
      funext k
      cases k <;> rfl
    exact ⟨by rw [hSlot]; exact h.holds, h.status, h.ready, h.exit, by rw [hSlot]; exact h.inside⟩
  · exact schedInv_newCurrent h hc hNone t _
  · exact schedInv_newReady h hc t
  · exact schedInv_scheduler h hc
  · exact schedInv_scheduler (schedInv_setExit h task) hc

theorem schedInv_of_reachable (hReach : SchedReachable top s) : SchedInv top s := by
  induction hReach with
  | refl => exact schedInv_init top
  | tail _ hNext ih =>
      obtain ⟨call, hCpu, hStep⟩ := hNext
      exact schedInv_step ih hCpu hStep

/-- **No task is lost or duplicated.**  In every state that complete calls on any CPUs reach, every
task created so far is at exactly one position of exactly one place: current on a CPU, on a ready
queue, on an exit queue, or reaped; the places of CPUs beyond `MAX_CPUS` are empty, and the counter
of every queue is its length. -/
theorem schedRun_exactly_one_place (top : Topology) (s : Sched) (hReach : SchedReachable top s) :
    (∀ t, t < s.created → ∃! place : Slot × Nat, (s.slot place.1)[place.2]? = some t) ∧
    (∀ (k : Slot) (cpu : Nat), k.cpu? = some cpu → top.maxCpus ≤ cpu → s.slot k = []) ∧
    (∀ cpu, (s.taskReadyqueue cpu).nrList = (s.taskReadyqueue cpu).list.length ∧
      (s.taskExitqueue cpu).nrList = (s.taskExitqueue cpu).list.length) := by
  have h := schedInv_of_reachable hReach
  exact ⟨fun t ht => h.holds.existsUnique ht, h.inside, fun cpu => ⟨h.ready cpu, h.exit cpu⟩⟩

/-- The state after a list of calls. -/
def runCalls (top : Topology) (s : Sched) : List SchedCall → Option Sched
  | [] => some s
  | call :: calls =>
      if call.cpu < top.maxCpus then (schedStep top s call).bind fun s' => runCalls top s' calls
      else none

theorem reachable_of_runCalls :
    ∀ (calls : List SchedCall) (s s' : Sched), runCalls top s calls = some s' →
      Relation.ReflTransGen (SchedNext top) s s' := by
  intro calls
  induction calls with
  | nil =>
      intro s s' h
      cases h
      exact Relation.ReflTransGen.refl
  | cons call calls ih =>
      intro s s' h
      rw [runCalls] at h
      split at h
      · rename_i hCpu
        rw [Option.bind_eq_some_iff] at h
        obtain ⟨t, hStep, hRest⟩ := h
        exact Relation.ReflTransGen.head ⟨call, hCpu, hStep⟩ (ih t s' hRest)
      · cases h

/-- Two CPUs whose APIC ids are 0 and 1. -/
def twoCpus : Topology := ⟨2, id, fun _ h => h⟩

/-- The first task of CPU 0 starts a thread, which is scheduled, exits and is reaped by the next
tick. -/
theorem schedRun_exactly_one_place_twoCpus :
    ∃ s, SchedReachable twoCpus s ∧ s.created = 2 ∧ s.reaped.map Reaped.task = [1] ∧
      ∃! place : Slot × Nat, (s.slot place.1)[place.2]? = some 1 := by
  let calls : List SchedCall := [.runThread 0 true, .runThread 0 true, .scheduler 0,
    .kerntaskExit 0, .scheduler 0]
  obtain ⟨s, hs⟩ : ∃ s, runCalls twoCpus taskInit calls = some s :=
    Option.isSome_iff_exists.mp (by decide)
  have hCreated : (runCalls twoCpus taskInit calls).map
      (fun s => (s.created, s.reaped.map Reaped.task)) = some (2, [1]) := by decide
  rw [hs, Option.map_some, Option.some.injEq, Prod.mk.injEq] at hCreated
  have hReach : SchedReachable twoCpus s := reachable_of_runCalls calls _ _ hs
  exact ⟨s, hReach, hCreated.1, hCreated.2,
    (schedRun_exactly_one_place twoCpus s hReach).1 1 (by omega)⟩

/-! ## Exit is final -/

/-- A task of the run that exits is not the first task of a CPU. -/
def SchedCall.Permanent (s : Sched) : SchedCall → Prop
  | .kerntaskExit cpu | .usertaskExit cpu => ∀ t, s.current cpu = some t → ∀ c, s.first c ≠ some t
  | .runThread _ _ | .runProcess _ _ | .scheduler _ => True

/-- One call of a run in which the first task of a CPU does not exit. -/
def PermanentNext (top : Topology) (s s' : Sched) : Prop :=
  ∃ call : SchedCall, call.cpu < top.maxCpus ∧ call.Permanent s ∧ schedStep top s call = some s'

/-- What holds along such runs: current tasks are running, a CPU with a current task has a first
task, and the first task is current or ready on its CPU. -/
structure HomeInv (top : Topology) (s : Sched) : Prop where
  inv : SchedInv top s
  running : ∀ cpu t, s.current cpu = some t → (s.tasks t).status = .running
  started : ∀ cpu t, s.current cpu = some t → ∃ p, s.first cpu = some p
  home : ∀ cpu p, s.first cpu = some p → p ∈ s.slot (.current cpu) ∨ p ∈ s.slot (.ready cpu)

theorem homeInv_init (top : Topology) : HomeInv top taskInit :=
  ⟨schedInv_init top, by simp [taskInit], by simp [taskInit], by simp [taskInit]⟩

theorem requeue_frame (cpu old : Nat) (s : Sched) :
    (requeue cpu old s).current = s.current ∧ (requeue cpu old s).first = s.first ∧
      (requeue cpu old s).tasks = s.tasks ∧ (requeue cpu old s).reaped = s.reaped := by
  unfold requeue
  split <;> exact ⟨rfl, rfl, rfl, rfl⟩

/-- The fields after a switch. -/
theorem scheduler_switch {old new : Nat} {rest : List Nat} (h : SchedInv top s)
    (hOld : s.current cpu = some old) (hReady : (s.taskReadyqueue cpu).list = new :: rest) :
    (scheduler cpu s).current = Function.update s.current cpu (some new) ∧
      (scheduler cpu s).first = s.first ∧
      (scheduler cpu s).tasks =
        Function.update s.tasks new { s.tasks new with status := .running } ∧
      (scheduler cpu s).slot .reaped = s.slot .reaped ++ s.slot (.exit cpu) ∧
      (∀ c, c ≠ cpu → (scheduler cpu s).slot (.ready c) = s.slot (.ready c) ∧
        (scheduler cpu s).slot (.exit c) = s.slot (.exit c)) ∧
      ((s.tasks old).status = .running ∧ (scheduler cpu s).slot (.ready cpu) = rest ++ [old] ∧
          (scheduler cpu s).slot (.exit cpu) = [] ∨
        (s.tasks old).status = .exit ∧ (scheduler cpu s).slot (.ready cpu) = rest ∧
          (scheduler cpu s).slot (.exit cpu) = [old]) := by
  rcases scheduler_cases cpu s with ⟨hNone, -⟩ | ⟨-, -, hNil, -⟩ | ⟨o, n, r, ho, hr, hEq⟩
  · rw [hNone] at hOld
    cases hOld
  · rw [hNil] at hReady
    cases hReady
  · rw [ho] at hOld
    rw [hr] at hReady
    cases hOld
    cases hReady
    have hNe : old ≠ new := by
      rintro rfl
      have hSame := h.holds.apart (.current cpu) (.ready cpu) old (by simp [Sched.slot, ho])
        (by simp [Sched.slot, hr])
      cases hSame
    rw [hEq]
    set t := ((afterReap cpu old s).setReadyqueue cpu
      ⟨rest, (s.taskReadyqueue cpu).nrList - 1⟩).setStatus new .running with ht
    obtain ⟨hCurrent, hFirst, hTasks, -⟩ := requeue_frame cpu old t
    have hStatus : (t.tasks old).status = (s.tasks old).status :=
      congrArg TaskStruct.status (Function.update_of_ne hNe _ _)
    refine ⟨?_, hFirst, hTasks, ?_⟩
    · simp only [Sched.setCurrent, hCurrent]
      rfl
    · rcases h.status cpu old ho with hRun | hExit
      · have hRequeue : requeue cpu old t =
            t.setReadyqueue cpu (queueEnqueue (t.taskReadyqueue cpu) old) := by
          simp only [requeue, hStatus, hRun]
        have hList : (t.taskReadyqueue cpu).list = rest := by
          simp [ht, Sched.setStatus, Sched.setTask, Sched.setReadyqueue]
        rw [hRequeue]
        refine ⟨by simp [ht], fun c hc => by simp [ht, hc], Or.inl ⟨hRun, ?_, by simp [ht]⟩⟩
        simp [queueEnqueue, hList]
      · have hRequeue : requeue cpu old t =
            t.setExitqueue cpu (queueEnqueue (t.taskExitqueue cpu) old) := by
          simp only [requeue, hStatus, hExit]
        have hList : (t.taskExitqueue cpu).list = [] := by
          simp [ht, Sched.setStatus, Sched.setTask, Sched.setReadyqueue, afterReap,
            Sched.setExitqueue]
        rw [hRequeue]
        refine ⟨by simp [ht], fun c hc => by simp [ht, hc], Or.inr ⟨hExit, by simp [ht], ?_⟩⟩
        simp [queueEnqueue, hList]

/-- The scheduler keeps the first tasks at home, unless one of them has exited. -/
theorem home_scheduler (h : SchedInv top s)
    (hHome : ∀ c p, s.first c = some p → p ∈ s.slot (.current c) ∨ p ∈ s.slot (.ready c))
    (hStay : ∀ t, s.current cpu = some t →
      (s.tasks t).status = .running ∨ ∀ c, s.first c ≠ some t) :
    ∀ c p, (scheduler cpu s).first c = some p →
      p ∈ (scheduler cpu s).slot (.current c) ∨ p ∈ (scheduler cpu s).slot (.ready c) := by
  rcases scheduler_cases cpu s with ⟨-, hEq⟩ | ⟨old, -, -, hEq⟩ | ⟨old, new, rest, hOld, hReady, -⟩
  · rw [hEq]
    exact hHome
  · rw [hEq]
    intro c p hp
    simpa using hHome c p hp
  · obtain ⟨hCurrent, hFirst, -, -, hOther, hQueues⟩ := scheduler_switch h hOld hReady
    have hSlotCurrent : ∀ c, (scheduler cpu s).slot (.current c) =
        if c = cpu then [new] else s.slot (.current c) := by
      intro c
      by_cases hc : c = cpu <;> simp [Sched.slot, hCurrent, hc]
    intro c p hp
    rw [hFirst] at hp
    rw [hSlotCurrent c]
    by_cases hc : c = cpu
    · subst hc
      rw [if_pos rfl]
      have hIn : p = old ∨ p = new ∨ p ∈ rest := by
        rcases hHome c p hp with hCur | hRdy
        · left
          simpa [Sched.slot, hOld] using hCur
        · right
          change p ∈ (s.taskReadyqueue c).list at hRdy
          rw [hReady] at hRdy
          exact List.mem_cons.mp hRdy
      rcases hQueues with ⟨-, hRdy, -⟩ | ⟨hExit, hRdy, -⟩
      · rw [hRdy]
        rcases hIn with rfl | rfl | hIn
        · exact Or.inr (by simp)
        · exact Or.inl (by simp)
        · exact Or.inr (by simp [hIn])
      · rw [hRdy]
        have hNotOld : p ≠ old := by
          rintro rfl
          rcases hStay p hOld with hRun | hNot
          · rw [hRun] at hExit
            cases hExit
          · exact hNot c hp
        rcases hIn with hEq | rfl | hIn
        · exact absurd hEq hNotOld
        · exact Or.inl (by simp)
        · exact Or.inr hIn
    · rw [if_neg hc, (hOther c hc).1]
      exact hHome c p hp

/-- After a switch the current task of the CPU is running. -/
theorem running_switch {old new : Nat} {rest : List Nat} (h : SchedInv top s)
    (hRun : ∀ c t, c ≠ cpu → s.current c = some t → (s.tasks t).status = .running)
    (hOld : s.current cpu = some old) (hReady : (s.taskReadyqueue cpu).list = new :: rest) :
    ∀ c t, (scheduler cpu s).current c = some t → ((scheduler cpu s).tasks t).status = .running := by
  obtain ⟨hCurrent, -, hTasks, -⟩ := scheduler_switch h hOld hReady
  intro c t ht
  rw [hCurrent] at ht
  rw [hTasks]
  by_cases htn : t = new
  · rw [htn, Function.update_self]
  · rw [Function.update_of_ne htn]
    by_cases hc : c = cpu
    · rw [hc, Function.update_self, Option.some.injEq] at ht
      exact absurd ht.symm htn
    · rw [Function.update_of_ne hc] at ht
      exact hRun c t hc ht

/-- A task that is not first, on a CPU with a first task, is not alone on its CPU. -/
theorem HomeInv.ready_of_notFirst (h : HomeInv top s) {t : Nat} (ht : s.current cpu = some t)
    (hNot : ∀ c, s.first c ≠ some t) :
    ∃ new rest, (s.taskReadyqueue cpu).list = new :: rest := by
  obtain ⟨p, hp⟩ := h.started cpu t ht
  have hIn : p ∈ (s.taskReadyqueue cpu).list := by
    rcases h.home cpu p hp with hCur | hRdy
    · have hEq : p = t := by simpa [Sched.slot, ht] using hCur
      exact absurd (hEq ▸ hp) (hNot cpu)
    · exact hRdy
  cases hList : (s.taskReadyqueue cpu).list with
  | nil =>
      rw [hList] at hIn
      cases hIn
  | cons new rest => exact ⟨new, rest, rfl⟩

theorem scheduler_started (hStarted : ∀ c t, s.current c = some t → ∃ p, s.first c = some p)
    (h : SchedInv top s) :
    ∀ c t, (scheduler cpu s).current c = some t → ∃ p, (scheduler cpu s).first c = some p := by
  rcases scheduler_cases cpu s with ⟨-, hEq⟩ | ⟨old, -, -, hEq⟩ | ⟨old, new, rest, hOld, hReady, -⟩
  · rw [hEq]
    exact hStarted
  · rw [hEq]
    exact hStarted
  · obtain ⟨hCurrent, hFirst, -⟩ := scheduler_switch h hOld hReady
    intro c t ht
    rw [hFirst]
    by_cases hc : c = cpu
    · rw [hc]
      exact hStarted cpu old hOld
    · rw [hCurrent, Function.update_of_ne hc] at ht
      exact hStarted c t ht

/-- Every call of such a run keeps the first tasks at home. -/
theorem homeInv_step (h : HomeInv top s) (hNext : PermanentNext top s s') : HomeInv top s' := by
  obtain ⟨call, hCpu, hPermanent, hStep⟩ := hNext
  have hInv := schedInv_step h.inv hCpu hStep
  have hLt : ∀ c t, s.current c = some t → t < s.created := fun c t ht =>
    h.inv.lt_of_slot (k := .current c) (by simp [Sched.slot, ht])
  rcases schedStep_cases hCpu hStep with rfl | ⟨cpu, t, hc, hNone, rfl⟩ | ⟨cpu, t, hc, rfl⟩ |
    ⟨cpu, hc, -, rfl⟩ | ⟨cpu, task, hc, hCall, hTask, rfl⟩
  · exact ⟨hInv, h.running, h.started, h.home⟩
  · -- the first task of a CPU starts
    set s' := Sched.setStatus { (s.newTask t).setCurrent cpu s.created with
      first := Function.update s.first cpu (some s.created) } s.created .running with hs'
    have hCurrent : s'.current = Function.update s.current cpu (some s.created) := rfl
    have hFirst : s'.first = Function.update s.first cpu (some s.created) := rfl
    have hReady : s'.taskReadyqueue = s.taskReadyqueue := rfl
    have hTasks : ∀ u, u ≠ s.created → s'.tasks u = s.tasks u := by
      intro u hu
      simp [hs', Sched.setStatus, Sched.setTask, Sched.setCurrent, Sched.newTask, hu]
    have hNew : (s'.tasks s.created).status = .running := by
      simp [hs', Sched.setStatus, Sched.setTask]
    refine ⟨hInv, ?_, ?_, ?_⟩
    · intro c u hu
      by_cases huc : u = s.created
      · rw [huc]
        exact hNew
      · rw [hTasks u huc]
        rw [hCurrent] at hu
        by_cases hcc : c = cpu
        · rw [hcc, Function.update_self, Option.some.injEq] at hu
          exact absurd hu.symm huc
        · rw [Function.update_of_ne hcc] at hu
          exact h.running c u hu
    · intro c u hu
      rw [hCurrent] at hu
      rw [hFirst]
      by_cases hcc : c = cpu
      · exact ⟨s.created, by rw [hcc, Function.update_self]⟩
      · rw [Function.update_of_ne hcc] at hu ⊢
        exact h.started c u hu
    · intro c p hp
      rw [hFirst] at hp
      simp only [Sched.slot, hCurrent, hReady]
      by_cases hcc : c = cpu
      · rw [hcc, Function.update_self, Option.some.injEq] at hp
        left
        simp [hcc, hp]
      · rw [Function.update_of_ne hcc] at hp ⊢
        exact h.home c p hp
  · -- a new task is ready
    refine ⟨hInv, ?_, h.started, ?_⟩
    · intro c u hu
      have hu' : s.current c = some u := hu
      have hne : u ≠ s.created := by
        have := hLt c u hu'
        omega
      simp only [Sched.setReadyqueue, Sched.newTask, Sched.setTask]
      rw [Function.update_of_ne hne]
      exact h.running c u hu'
    · intro c p hp
      rcases h.home c p hp with hCur | hRdy
      · exact Or.inl (by simpa using hCur)
      · right
        by_cases hcc : c = cpu
        · subst hcc
          simp only [slot_setReadyqueue, Function.update_self, queueEnqueue]
          exact List.mem_append_left _ hRdy
        · simpa [hcc] using hRdy
  · -- a tick
    refine ⟨hInv, ?_, scheduler_started h.started h.inv,
      home_scheduler h.inv h.home fun t ht => Or.inl (h.running cpu t ht)⟩
    rcases scheduler_cases cpu s with ⟨-, hEq⟩ | ⟨old, -, -, hEq⟩ | ⟨old, new, rest, hOld, hReady, -⟩
    · rw [hEq]
      exact h.running
    · rw [hEq]
      exact h.running
    · exact running_switch h.inv (fun c t _ ht => h.running c t ht) hOld hReady
  · -- the current task exits
    have hNot : ∀ c, s.first c ≠ some task := by
      rcases hCall with rfl | rfl
      · exact hPermanent task hTask
      · exact hPermanent task hTask
    obtain ⟨new, rest, hReady⟩ := h.ready_of_notFirst hTask hNot
    have hInv' := schedInv_setExit h.inv task
    refine ⟨hInv, running_switch hInv' ?_ hTask hReady, scheduler_started h.started hInv',
      home_scheduler hInv' (by rw [slot_setStatus]; exact h.home) fun t ht => Or.inr ?_⟩
    · intro c t hc ht
      have hne : t ≠ task := by
        rintro rfl
        have hSame := h.inv.holds.apart (.current c) (.current cpu) t
          (by
            have ht' : s.current c = some t := ht
            simp [Sched.slot, ht'])
          (by simp [Sched.slot, hTask])
        exact hc (by simpa using hSame)
      simp only [Sched.setStatus, Sched.setTask]
      rw [Function.update_of_ne hne]
      exact h.running c t ht
    · have hEq : t = task := by
        have ht' : s.current cpu = some t := ht
        rw [hTask] at ht'
        exact (Option.some.inj ht').symm
      rw [hEq]
      exact hNot

theorem homeInv_of_reachable (hReach : Relation.ReflTransGen (PermanentNext top) taskInit s) :
    HomeInv top s := by
  induction hReach with
  | refl => exact homeInv_init top
  | tail _ hNext ih => exact homeInv_step ih hNext

/-- The task has exited: it waits to be reaped, or it has been. -/
def Gone (s : Sched) (t : Nat) : Prop := (∃ c, t ∈ s.slot (.exit c)) ∨ t ∈ s.slot .reaped

theorem SchedInv.not_current_of_gone (h : SchedInv top s) {t : Nat} (hGone : Gone s t) (c : Nat) :
    s.current c ≠ some t := by
  intro hCur
  have hIn : t ∈ s.slot (.current c) := by simp [Sched.slot, hCur]
  rcases hGone with ⟨d, hd⟩ | hd
  · cases h.holds.apart _ _ t hIn hd
  · cases h.holds.apart _ _ t hIn hd

theorem gone_scheduler (h : SchedInv top s) {t : Nat} (hGone : Gone s t) :
    Gone (scheduler cpu s) t := by
  rcases scheduler_cases cpu s with ⟨-, hEq⟩ | ⟨old, -, -, hEq⟩ | ⟨old, new, rest, hOld, hReady, -⟩
  · rw [hEq]
    exact hGone
  · rw [hEq]
    rcases hGone with ⟨c, hc⟩ | hc
    · by_cases hcc : c = cpu
      · subst hcc
        exact Or.inr (by simp [hc])
      · exact Or.inl ⟨c, by simpa [hcc] using hc⟩
    · exact Or.inr (by simp [hc])
  · obtain ⟨-, -, -, hReaped, hOther, -⟩ := scheduler_switch h hOld hReady
    rcases hGone with ⟨c, hc⟩ | hc
    · by_cases hcc : c = cpu
      · subst hcc
        exact Or.inr (by rw [hReaped]; exact List.mem_append_right _ hc)
      · exact Or.inl ⟨c, by rw [(hOther c hcc).2]; exact hc⟩
    · exact Or.inr (by rw [hReaped]; exact List.mem_append_left _ hc)

/-- A task that has exited stays so. -/
theorem gone_step (h : SchedInv top s) {t : Nat} (hGone : Gone s t) {call : SchedCall}
    (hCpu : call.cpu < top.maxCpus) (hStep : schedStep top s call = some s') : Gone s' t := by
  rcases schedStep_cases hCpu hStep with rfl | ⟨cpu, u, -, -, rfl⟩ | ⟨cpu, u, -, rfl⟩ |
    ⟨cpu, -, -, rfl⟩ | ⟨cpu, task, -, -, -, rfl⟩
  · exact hGone
  · exact hGone
  · simpa [Gone] using hGone
  · exact gone_scheduler h hGone
  · refine gone_scheduler (schedInv_setExit h task) ?_
    simpa [Gone] using hGone

/-- The scheduler reaps only tasks of the CPU's exit queue, on behalf of the current task. -/
theorem reaped_scheduler {r : Reaped} (hr : r ∈ (scheduler cpu s).reaped) :
    r ∈ s.reaped ∨ r.task ∈ s.slot (.exit cpu) ∧ s.current cpu = some r.current := by
  have hAfter : ∀ old, s.current cpu = some old → r ∈ (afterReap cpu old s).reaped →
      r ∈ s.reaped ∨ r.task ∈ s.slot (.exit cpu) ∧ s.current cpu = some r.current := by
    intro old hOld hIn
    rcases List.mem_append.mp hIn with hIn | hIn
    · exact Or.inl hIn
    · obtain ⟨task, hTask, rfl⟩ := List.mem_map.mp hIn
      exact Or.inr ⟨hTask, hOld⟩
  rcases scheduler_cases cpu s with ⟨-, hEq⟩ | ⟨old, hOld, -, hEq⟩ | ⟨old, new, rest, hOld, -, hEq⟩
  · rw [hEq] at hr
    exact Or.inl hr
  · rw [hEq] at hr
    exact hAfter old hOld hr
  · rw [hEq] at hr
    change r ∈ (requeue cpu old _).reaped at hr
    rw [(requeue_frame cpu old _).2.2.2] at hr
    exact hAfter old hOld hr

/-- A call that reaps a task is a scheduler call on a CPU where another task is current. -/
theorem reaped_step (h : SchedInv top s) {call : SchedCall} (hCpu : call.cpu < top.maxCpus)
    (hStep : schedStep top s call = some s') {r : Reaped} (hNew : r.task ∉ s.slot .reaped)
    (hr : r ∈ s'.reaped) :
    ∃ cpu, s.current cpu = some r.current ∧ r.current ≠ r.task ∧
      (s' = scheduler cpu s ∨ s' = scheduler cpu (s.setStatus r.current .exit)) := by
  have hNotOld : r ∉ s.reaped := fun hIn => hNew (List.mem_map_of_mem hIn)
  have hApart : ∀ cpu, r.task ∈ s.slot (.exit cpu) → s.current cpu = some r.current →
      r.current ≠ r.task := by
    intro cpu hExit hCur hEq
    exact h.not_current_of_gone (Or.inl ⟨cpu, hExit⟩) cpu (hEq ▸ hCur)
  rcases schedStep_cases hCpu hStep with rfl | ⟨cpu, u, -, -, rfl⟩ | ⟨cpu, u, -, rfl⟩ |
    ⟨cpu, -, -, rfl⟩ | ⟨cpu, task, -, -, hTask, rfl⟩
  · exact absurd hr hNotOld
  · exact absurd hr hNotOld
  · exact absurd hr hNotOld
  · obtain ⟨hExit, hCur⟩ := (reaped_scheduler hr).resolve_left hNotOld
    exact ⟨cpu, hCur, hApart cpu hExit hCur, Or.inl rfl⟩
  · obtain ⟨hExit, hCur⟩ := (reaped_scheduler hr).resolve_left hNotOld
    rw [slot_setStatus] at hExit
    have hCur' : s.current cpu = some r.current := hCur
    obtain rfl : task = r.current := Option.some.inj (hTask.symm.trans hCur')
    exact ⟨cpu, hCur', hApart cpu hExit hCur', Or.inr rfl⟩

/-- **Exit is final.**  In runs in which the first task of a CPU does not exit: when any other task
calls `kerntask_exit` or `usertask_exit`, the same call switches to another task and leaves this one
on the exit queue, not reaped; the task is never current again on any CPU; and the call that reaps
it later is a scheduler call on a CPU whose current task is another one. -/
theorem exit_final (top : Topology) (s s1 : Sched)
    (hReach : Relation.ReflTransGen (PermanentNext top) taskInit s) (cpu t : Nat)
    (hCpu : cpu < top.maxCpus) (hCur : s.current cpu = some t) (hNot : ∀ c, s.first c ≠ some t)
    (hExit : kerntaskExit cpu s = some s1 ∨ usertaskExit cpu s = some s1) :
    (∃ u, u ≠ t ∧ s1.current cpu = some u) ∧ t ∈ (s1.taskExitqueue cpu).list ∧
    (∀ r ∈ s1.reaped, r.task ≠ t) ∧
    ∀ s2, Relation.ReflTransGen (PermanentNext top) s1 s2 →
      (∀ c, s2.current c ≠ some t) ∧
      ∀ s3, PermanentNext top s2 s3 → (∀ r ∈ s2.reaped, r.task ≠ t) →
        ∀ r ∈ s3.reaped, r.task = t →
          ∃ c, s2.current c = some r.current ∧ r.current ≠ t ∧
            (s3 = scheduler c s2 ∨ s3 = scheduler c (s2.setStatus r.current .exit)) := by
  have h := homeInv_of_reachable hReach
  have hEq : s1 = scheduler cpu (s.setStatus t .exit) := by
    have hTask : taskExit cpu s = some (scheduler cpu (s.setStatus t .exit)) := by
      simp only [taskExit, hCur]
    rcases hExit with hExit | hExit
    · exact Option.some.inj (hExit.symm.trans hTask)
    · exact Option.some.inj (hExit.symm.trans hTask)
  subst hEq
  have hNext : PermanentNext top s (scheduler cpu (s.setStatus t .exit)) := by
    rcases hExit with hExit | hExit
    · refine ⟨.kerntaskExit cpu, hCpu, ?_, hExit⟩
      intro u hu
      rw [Option.some.inj (hu.symm.trans hCur)]
      exact hNot
    · refine ⟨.usertaskExit cpu, hCpu, ?_, hExit⟩
      intro u hu
      rw [Option.some.inj (hu.symm.trans hCur)]
      exact hNot
  obtain ⟨new, rest, hReady⟩ := h.ready_of_notFirst hCur hNot
  have hInv' := schedInv_setExit h.inv t
  obtain ⟨hCurrent, -, -, -, -, hQueues⟩ := scheduler_switch hInv' hCur hReady
  have hHome1 := homeInv_step h hNext
  have hStatus : ((s.setStatus t .exit).tasks t).status = .exit := by
    simp [Sched.setStatus, Sched.setTask]
  have hOnExit : t ∈ (scheduler cpu (s.setStatus t .exit)).slot (.exit cpu) := by
    rcases hQueues with ⟨hRun, -⟩ | ⟨-, -, hSlot⟩
    · rw [hStatus] at hRun
      cases hRun
    · simp [hSlot]
  have hGone : Gone (scheduler cpu (s.setStatus t .exit)) t := Or.inl ⟨cpu, hOnExit⟩
  refine ⟨⟨new, ?_, by rw [hCurrent, Function.update_self]⟩, hOnExit, ?_, ?_⟩
  · rintro rfl
    refine hHome1.inv.not_current_of_gone hGone cpu ?_
    rw [hCurrent, Function.update_self]
  · intro r hr hrt
    have hSame := hHome1.inv.holds.apart .reaped (.exit cpu) t
      (List.mem_map.mpr ⟨r, hr, hrt⟩) hOnExit
    cases hSame
  · intro s2 hSteps
    have hRun : HomeInv top s2 ∧ Gone s2 t := by
      induction hSteps with
      | refl => exact ⟨hHome1, hGone⟩
      | tail _ hStep ih =>
          refine ⟨homeInv_step ih.1 hStep, ?_⟩
          obtain ⟨call, hc, -, hStep⟩ := hStep
          exact gone_step ih.1.inv ih.2 hc hStep
    refine ⟨hRun.1.inv.not_current_of_gone hRun.2, ?_⟩
    rintro s3 ⟨call, hc, -, hStep⟩ hNotYet r hr rfl
    refine reaped_step hRun.1.inv hc hStep ?_ hr
    intro hIn
    obtain ⟨r', hr', hTask⟩ := List.mem_map.mp hIn
    exact hNotYet r' hr' hTask

/-- On CPU 0 the second task exits and the first one takes over. -/
theorem exit_final_twoCpus :
    ∃ s s1, Relation.ReflTransGen (PermanentNext twoCpus) taskInit s ∧
      kerntaskExit 0 s = some s1 ∧ (∃ u, u ≠ 1 ∧ s1.current 0 = some u) ∧
      1 ∈ (s1.taskExitqueue 0).list := by
  let s1 := (runThread twoCpus 0 true taskInit).getD taskInit
  let s2 := (runThread twoCpus 0 true s1).getD s1
  have hRun1 : PermanentNext twoCpus taskInit s1 := ⟨.runThread 0 true, by decide, trivial, rfl⟩
  have hRun2 : PermanentNext twoCpus s1 s2 := ⟨.runThread 0 true, by decide, trivial, rfl⟩
  have hRun3 : PermanentNext twoCpus s2 (scheduler 0 s2) :=
    ⟨.scheduler 0, by decide, trivial, rfl⟩
  have hReach := ((Relation.ReflTransGen.single hRun1).tail hRun2).tail hRun3
  have hFirst : ∀ c, Function.update (fun _ => none) 0 (some 0) c ≠ some 1 := by
    intro c
    by_cases hc : c = 0 <;> simp [hc]
  have hExit : kerntaskExit 0 (scheduler 0 s2) =
      some (scheduler 0 ((scheduler 0 s2).setStatus 1 .exit)) := rfl
  obtain ⟨hSwitch, hQueue, -⟩ := exit_final twoCpus _ _ hReach 0 1 (by decide) rfl hFirst
    (Or.inl hExit)
  exact ⟨_, _, hReach, hExit, hSwitch, hQueue⟩

end Rayos
