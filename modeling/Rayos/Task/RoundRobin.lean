import Mathlib.Data.List.Rotate
import Rayos.Task.SchedRun

/-!
# Round robin (`task.c`)

The tasks of a CPU form a line: the current task, and behind it the tasks of the ready queue.  While the
current task is running, a call of `scheduler` puts the first task of the line at its end, and the task that
has come to the front is running again.  So the line is rotated by one, and comes back after as many calls as
it has tasks.
-/

namespace Rayos

/-- The current task of a CPU, and behind it the tasks of its ready queue. -/
def Sched.line (s : Sched) (cpu : Nat) : List Nat := s.slot (.current cpu) ++ s.slot (.ready cpu)

/-- The current task of the CPU is running, others are ready, and the counter of the queue is right. -/
structure Rotating (cpu : Nat) (s : Sched) : Prop where
  running : ∃ old, s.current cpu = some old ∧ (s.tasks old).status = .running
  ready : (s.taskReadyqueue cpu).list ≠ []
  counted : (s.taskReadyqueue cpu).Counted

/-- One call of `scheduler` moves the task at the front of the line to its end. -/
theorem Rotating.step {cpu : Nat} {s : Sched} (h : Rotating cpu s) :
    Rotating cpu (scheduler cpu s) ∧ (scheduler cpu s).line cpu = (s.line cpu).rotate 1 := by
  obtain ⟨old, hCur, hRun⟩ := h.running
  rcases scheduler_cases cpu s with ⟨hNone, -⟩ | ⟨_, -, hEmpty, -⟩ | ⟨old', new, rest, hOld, hList, hEq⟩
  · rw [hCur] at hNone
    cases hNone
  · exact absurd hEmpty h.ready
  rw [hCur, Option.some.injEq] at hOld
  subst hOld
  have hCount : (s.taskReadyqueue cpu).nrList = rest.length + 1 := by
    rw [h.counted, hList, List.length_cons]
    rfl
  -- the old task is running, also where it is the new one, and goes to the end of the queue
  have hStatus : ((((afterReap cpu old s).setReadyqueue cpu
      ⟨rest, (s.taskReadyqueue cpu).nrList - 1⟩).setStatus new .running).tasks old).status = .running := by
    by_cases hSame : old = new
    · simp [Sched.setStatus, Sched.setTask, hSame]
    · simp only [Sched.setStatus, Sched.setTask, Function.update_of_ne hSame]
      exact hRun
  have hNext : scheduler cpu s = ((((afterReap cpu old s).setReadyqueue cpu
      ⟨rest, (s.taskReadyqueue cpu).nrList - 1⟩).setStatus new .running).setReadyqueue cpu
        ⟨rest ++ [old], rest.length + 1⟩).setCurrent cpu new := by
    rw [hEq, requeue, hStatus]
    simp [queueEnqueue, Sched.setStatus, Sched.setTask, Sched.setReadyqueue, hCount]
  rw [hNext]
  constructor
  · constructor
    · exact ⟨new, by simp [Sched.setCurrent], by
        simp [Sched.setCurrent, Sched.setReadyqueue, Sched.setStatus, Sched.setTask]⟩
    · simp [Sched.setCurrent, Sched.setReadyqueue]
    · simp [Queue.Counted, Sched.setCurrent, Sched.setReadyqueue]
  · have hLine : s.line cpu = old :: new :: rest := by
      simp [Sched.line, Sched.slot, hCur, hList]
    rw [hLine]
    simp [Sched.line]

/-- After `k` calls the line is rotated by `k`. -/
theorem Rotating.run {cpu : Nat} {s : Sched} (h : Rotating cpu s) (k : Nat) :
    Rotating cpu ((scheduler cpu)^[k] s) ∧
      ((scheduler cpu)^[k] s).line cpu = (s.line cpu).rotate k := by
  induction k with
  | zero => exact ⟨h, (List.rotate_zero _).symm⟩
  | succ k ih =>
      obtain ⟨hRotating, hLine⟩ := ih
      rw [Function.iterate_succ_apply']
      obtain ⟨hNext, hOne⟩ := hRotating.step
      rw [hOne, hLine, List.rotate_rotate]
      exact ⟨hNext, rfl⟩

/-- What is at the front of the line is current. -/
theorem Rotating.current_eq {cpu : Nat} {s : Sched} (h : Rotating cpu s) :
    s.current cpu = (s.line cpu).head? := by
  obtain ⟨old, hCur, -⟩ := h.running
  rw [Sched.line, Sched.slot, hCur]
  rfl

/-- What is behind the front of the line is ready. -/
theorem Rotating.readyqueue_eq {cpu : Nat} {s : Sched} (h : Rotating cpu s) :
    s.taskReadyqueue cpu = ⟨(s.line cpu).tail, (s.line cpu).tail.length⟩ := by
  obtain ⟨old, hCur, -⟩ := h.running
  have hTail : (s.line cpu).tail = (s.taskReadyqueue cpu).list := by
    rw [Sched.line, Sched.slot, hCur]
    rfl
  rw [hTail, ← h.counted]

/-- **Round robin.**  Where the current task of a CPU is running and `l` is its ready queue, the calls of
`scheduler` on this CPU make the tasks of `l` current one after the other, and then the first task again; the
ready queue is then as it was. -/
theorem scheduler_roundRobin (cpu : Nat) (s : Sched) {old : Nat} {l : List Nat}
    (hCurrent : s.current cpu = some old) (hRunning : (s.tasks old).status = .running)
    (hReady : s.taskReadyqueue cpu = ⟨l, l.length⟩) (hSome : l ≠ []) :
    (∀ i (hi : i < l.length), ((scheduler cpu)^[i + 1] s).current cpu = some l[i]) ∧
      ((scheduler cpu)^[l.length + 1] s).current cpu = some old ∧
      ((scheduler cpu)^[l.length + 1] s).taskReadyqueue cpu = ⟨l, l.length⟩ := by
  have hStart : Rotating cpu s :=
    ⟨⟨old, hCurrent, hRunning⟩, by rw [hReady]; exact hSome, by rw [hReady]; rfl⟩
  have hLine : s.line cpu = old :: l := by
    simp [Sched.line, Sched.slot, hCurrent, hReady]
  have hRound : ((scheduler cpu)^[l.length + 1] s).line cpu = old :: l := by
    rw [(hStart.run _).2, hLine]
    exact List.rotate_length (old :: l)
  refine ⟨fun i hi => ?_, ?_, ?_⟩
  · obtain ⟨hRotating, hRotated⟩ := hStart.run (i + 1)
    have hLt : i + 1 < (old :: l).length := Nat.succ_lt_succ hi
    rw [hRotating.current_eq, hRotated, hLine, List.head?_rotate hLt, List.getElem?_cons_succ,
      List.getElem?_eq_getElem hi]
  · rw [(hStart.run _).1.current_eq, hRound]
    rfl
  · rw [(hStart.run _).1.readyqueue_eq, hRound]
    rfl

/-- The tasks 1 and 2 are ready behind task 0. -/
def threeTasks : Sched :=
  { taskInit with
    tasks := fun t => if t = 0 then ⟨.kern, .running⟩ else ⟨.kern, .ready⟩
    current := fun _ => some 0
    taskReadyqueue := fun _ => ⟨[1, 2], 2⟩ }

theorem scheduler_roundRobin_three :
    ((scheduler 0)^[2] threeTasks).current 0 = some 2 ∧
      ((scheduler 0)^[3] threeTasks).taskReadyqueue 0 = ⟨[1, 2], 2⟩ := by
  obtain ⟨hNth, -, hQueue⟩ := scheduler_roundRobin 0 threeTasks rfl rfl rfl (by decide)
  exact ⟨hNth 1 (by decide), hQueue⟩

end Rayos
