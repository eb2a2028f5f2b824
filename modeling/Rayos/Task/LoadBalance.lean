import Mathlib.Data.List.GetD
import Rayos.Task.SchedRun

/-!
# Where a new task goes (`task.c`, `algo.c`, `smp.c`)

`sched_enqueue_balanced` looks for the shortest of all `MAX_CPUS` ready queues, and takes its position in the
array of queues for a position in `ap_ids`.  The table of ids is shorter than the array where not all CPUs are
online, and need not be in order.

* `findExtremeIndex_min` — `find_extreme_index` returns the first position of the minimum.
* `schedEnqueueBalanced_minimal` — when the task goes to a CPU with a shortest queue, for given lengths and for
  all lengths.
-/

namespace Rayos

/-! ## The first minimum -/

/-- `p` is the first position at which `f` is minimal among the positions below `n`. -/
structure FirstMin {α : Type} [LinearOrder α] (f : Nat → α) (n p : Nat) : Prop where
  lt : p < n
  le : ∀ i, i < n → f p ≤ f i
  first : ∀ i, i < p → f p < f i

theorem FirstMin.unique {α : Type} [LinearOrder α] {f : Nat → α} {n p q : Nat} (hp : FirstMin f n p)
    (hq : FirstMin f n q) : p = q := by
  rcases lt_trichotomy p q with hLt | hEq | hLt
  · exact absurd (hq.first p hLt) (not_lt.mpr (hp.le q hq.lt))
  · exact hEq
  · exact absurd (hp.first q hLt) (not_lt.mpr (hq.le p hp.lt))

theorem exists_firstMin {α : Type} [LinearOrder α] (f : Nat → α) {n : Nat} (hn : 0 < n) :
    ∃ p, FirstMin f n p := by
  induction n with
  | zero => exact absurd hn (lt_irrefl 0)
  | succ n ih =>
      by_cases hZero : n = 0
      · subst hZero
        refine ⟨0, Nat.one_pos, fun i hi => ?_, fun i hi => absurd hi (Nat.not_lt_zero i)⟩
        rw [Nat.lt_one_iff.mp hi]
      obtain ⟨p, hp⟩ := ih (Nat.pos_of_ne_zero hZero)
      by_cases hLess : f n < f p
      · refine ⟨n, Nat.lt_succ_self n, fun i hi => ?_, fun i hi => hLess.trans_le (hp.le i hi)⟩
        rcases Nat.lt_succ_iff_lt_or_eq.mp hi with hLt | rfl
        · exact hLess.le.trans (hp.le i hLt)
        · exact le_rfl
      · refine ⟨p, Nat.lt_succ_of_lt hp.lt, fun i hi => ?_, hp.first⟩
        rcases Nat.lt_succ_iff_lt_or_eq.mp hi with hLt | rfl
        · exact hp.le i hLt
        · exact not_lt.mp hLess

/-- The loop of `find_extreme_index`: after the positions up to `k` the index is the first minimum of them. -/
theorem findExtreme_fold (arr : List Int) (k : Nat) :
    FirstMin (fun i => arr.getD i 0) (k + 1)
      ((List.range' 1 k).foldl (fun idx i => if minCmp (arr.getD i 0) (arr.getD idx 0) then i else idx) 0) := by
  induction k with
  | zero =>
      refine ⟨Nat.one_pos, fun i hi => ?_, fun i hi => absurd hi (Nat.not_lt_zero i)⟩
      rw [Nat.lt_one_iff.mp hi]
      rfl
  | succ k ih =>
      rw [List.range'_concat, List.foldl_append, List.foldl_cons, List.foldl_nil, Nat.one_mul, Nat.add_comm 1 k]
      generalize (List.range' 1 k).foldl _ 0 = p at ih
      by_cases hLess : arr.getD (k + 1) 0 < arr.getD p 0
      · rw [if_pos (by simpa [minCmp] using hLess)]
        refine ⟨Nat.lt_succ_self _, fun i hi => ?_, fun i hi => hLess.trans_le (ih.le i hi)⟩
        rcases Nat.lt_succ_iff_lt_or_eq.mp hi with hLt | rfl
        · exact hLess.le.trans (ih.le i hLt)
        · exact le_rfl
      · rw [if_neg (by simpa [minCmp] using hLess)]
        refine ⟨Nat.lt_succ_of_lt ih.lt, fun i hi => ?_, ih.first⟩
        rcases Nat.lt_succ_iff_lt_or_eq.mp hi with hLt | rfl
        · exact ih.le i hLt
        · exact not_lt.mp hLess

/-- `find_extreme_index` with `min_cmp` returns the first position of the minimum. -/
theorem findExtremeIndex_min (arr : List Int) (hPos : 0 < arr.length) :
    FirstMin (fun i => arr.getD i 0) arr.length (findExtremeIndex arr minCmp).toNat := by
  have hFold := findExtreme_fold arr (arr.length - 1)
  rw [Nat.sub_add_cancel hPos] at hFold
  rw [findExtremeIndex, if_neg hPos.ne', Int.toNat_natCast]
  exact hFold

/-! ## The table of the CPUs -/

/-- `ap_ids` as `smp_init` leaves it: the ids of the CPUs that are online, and zeros behind them. -/
structure ApTable where
  /-- `MAX_CPUS`. -/
  maxCpus : Nat
  pos : 0 < maxCpus
  /-- `ap_ids[0..ap_count)`. -/
  ids : List Nat
  short : ids.length ≤ maxCpus
  small : ∀ c ∈ ids, c < maxCpus
  nodup : ids.Nodup

namespace ApTable

/-- The table as `sched_enqueue_balanced` reads it. -/
def topology (t : ApTable) : Topology where
  maxCpus := t.maxCpus
  apIds i := t.ids.getD i 0
  apIds_lt i _ := by
    rcases Nat.lt_or_ge i t.ids.length with hLt | hGe
    · rw [List.getD_eq_getElem _ _ hLt]
      exact t.small _ (List.getElem_mem hLt)
    · rw [List.getD_eq_default _ _ hGe]
      exact t.pos

variable {t : ApTable}

/-- An entry of the table is online, or it is a zero behind the ids. -/
theorem getD_mem_iff {i : Nat} : t.ids.getD i 0 ∈ t.ids ↔ i < t.ids.length ∨ 0 ∈ t.ids := by
  rcases Nat.lt_or_ge i t.ids.length with hLt | hGe
  · rw [List.getD_eq_getElem _ _ hLt]
    exact ⟨fun _ => Or.inl hLt, fun _ => List.getElem_mem hLt⟩
  · rw [List.getD_eq_default _ _ hGe]
    exact ⟨Or.inr, fun h => h.resolve_left (Nat.not_lt.mpr hGe)⟩

/-- A full table has every CPU. -/
theorem mem_of_full (hFull : t.ids.length = t.maxCpus) {c : Nat} (hc : c < t.maxCpus) : c ∈ t.ids := by
  have hSub : t.ids ⊆ List.range t.maxCpus := fun x hx => List.mem_range.mpr (t.small x hx)
  have hPerm := (t.nodup.subperm hSub).perm_of_length_le (by rw [List.length_range, hFull])
  exact hPerm.mem_iff.mpr (List.mem_range.mpr hc)

end ApTable

/-! ## The balancer -/

/-- The length of a ready queue. -/
def Sched.load (s : Sched) (cpu : Nat) : Nat := (s.taskReadyqueue cpu).list.length

/-- The counters of the ready queues are right. -/
def Sched.CountedReady (s : Sched) : Prop := ∀ cpu, (s.taskReadyqueue cpu).Counted

/-- `sched_enqueue_balanced` appends the task to the ready queue of a CPU that is online and has a shortest
queue of those that are. -/
def Balances (t : ApTable) (s : Sched) (task : Nat) : Prop :=
  ∃ cpu ∈ t.ids, (∀ c ∈ t.ids, s.load cpu ≤ s.load c) ∧
    schedEnqueueBalanced t.topology s task = s.setReadyqueue cpu (queueEnqueue (s.taskReadyqueue cpu) task)

/-- The first position with a shortest queue of all `MAX_CPUS` queues is one at which the table has a CPU that
is online, and none of those has a shorter queue than this CPU. -/
def FirstShortestFits (t : ApTable) (s : Sched) : Prop :=
  ∃ p, FirstMin s.load t.maxCpus p ∧ (p < t.ids.length ∨ 0 ∈ t.ids) ∧
    ∀ c ∈ t.ids, s.load (t.ids.getD p 0) ≤ s.load c

/-- The queue that gets the task. -/
theorem schedEnqueueBalanced_at (t : ApTable) {s : Sched} (hCounted : s.CountedReady) {p : Nat}
    (hp : FirstMin s.load t.maxCpus p) (task : Nat) :
    schedEnqueueBalanced t.topology s task =
      s.setReadyqueue (t.ids.getD p 0) (queueEnqueue (s.taskReadyqueue (t.ids.getD p 0)) task) := by
  have hMin := findExtremeIndex_min ((List.range t.maxCpus).map fun i => (s.taskReadyqueue i).nrList)
    (by simpa using t.pos)
  rw [List.length_map, List.length_range] at hMin
  have hGet : ∀ i, i < t.maxCpus →
      ((List.range t.maxCpus).map fun i => (s.taskReadyqueue i).nrList).getD i 0 = s.load i := by
    intro i hi
    rw [List.getD_eq_getElem _ _ (by simpa using hi), List.getElem_map, List.getElem_range, hCounted i]
    rfl
  have hIdx := FirstMin.unique hp (q :=
    (findExtremeIndex ((List.range t.maxCpus).map fun i => (s.taskReadyqueue i).nrList) minCmp).toNat)
    ⟨hMin.lt, fun i hi => by
      have hLe := hMin.le i hi
      simp only [hGet i hi, hGet _ hMin.lt] at hLe
      exact_mod_cast hLe, fun i hi => by
      have hLt := hMin.first i hi
      simp only [hGet i (hi.trans hMin.lt), hGet _ hMin.lt] at hLt
      exact_mod_cast hLt⟩
  rw [hIdx]
  rfl

/-- Two CPUs get the task in one step only if they are the same. -/
theorem setReadyqueue_enqueue_inj {s : Sched} {c d task : Nat}
    (h : s.setReadyqueue c (queueEnqueue (s.taskReadyqueue c) task) =
      s.setReadyqueue d (queueEnqueue (s.taskReadyqueue d) task)) : c = d := by
  by_contra hne
  have hList := congrArg (fun u : Sched => (u.taskReadyqueue c).list.length) h
  simp only [Sched.setReadyqueue, Function.update_self, Function.update_of_ne hne, queueEnqueue,
    List.length_append, List.length_singleton] at hList
  omega

theorem balances_iff (t : ApTable) {s : Sched} (hCounted : s.CountedReady) (task : Nat) :
    Balances t s task ↔ FirstShortestFits t s := by
  obtain ⟨p, hp⟩ := exists_firstMin s.load t.pos
  have hAt := schedEnqueueBalanced_at t hCounted hp task
  constructor
  · rintro ⟨cpu, hCpu, hLeast, hEq⟩
    rw [hAt] at hEq
    have hSame := setReadyqueue_enqueue_inj hEq
    subst hSame
    exact ⟨p, hp, ApTable.getD_mem_iff.mp hCpu, hLeast⟩
  · rintro ⟨q, hq, hOnline, hLeast⟩
    have hSame := hq.unique hp
    subst hSame
    exact ⟨_, ApTable.getD_mem_iff.mpr hOnline, hLeast, hAt⟩

/-! ## Tables that are always right -/

/-- A state with ready queues of given lengths. -/
def loadedSched (load : Nat → Nat) : Sched :=
  { taskInit with taskReadyqueue := fun cpu => ⟨List.replicate (load cpu) 0, load cpu⟩ }

theorem loadedSched_counted (load : Nat → Nat) : (loadedSched load).CountedReady := by
  intro cpu
  simp [loadedSched, Queue.Counted]

theorem loadedSched_load (load : Nat → Nat) : (loadedSched load).load = load := by
  funext cpu
  simp [loadedSched, Sched.load]

/-- A position with the only shortest queue. -/
theorem firstMin_of_lt {f : Nat → Nat} {n p : Nat} (hp : p < n) (h : ∀ i, i ≠ p → f p < f i) :
    FirstMin f n p := by
  refine ⟨hp, fun i _ => ?_, fun i hi => h i (by omega)⟩
  by_cases hi : i = p
  · rw [hi]
  · exact (h i hi).le

/-- A table that is right for all lengths has all CPUs in order, or the boot CPU alone. -/
theorem table_of_balances {t : ApTable} {task : Nat}
    (h : ∀ s : Sched, s.CountedReady → Balances t s task) :
    t.ids = List.range t.maxCpus ∨ t.ids = [0] := by
  -- what follows from lengths with one shortest queue
  have hProbe : ∀ (load : Nat → Nat) (p : Nat), p < t.maxCpus → (∀ i, i ≠ p → load p < load i) →
      (p < t.ids.length ∨ 0 ∈ t.ids) ∧ ∀ c ∈ t.ids, load (t.ids.getD p 0) ≤ load c := by
    intro load p hp hLess
    obtain ⟨q, hq, hOnline, hLeast⟩ := (balances_iff t (loadedSched_counted load) task).mp
      (h _ (loadedSched_counted load))
    rw [loadedSched_load] at hq hLeast
    have hSame := hq.unique (firstMin_of_lt hp hLess)
    subst hSame
    exact ⟨hOnline, hLeast⟩
  by_cases hFull : t.ids.length = t.maxCpus
  · -- every CPU is online: position `p` has CPU `p`
    left
    refine List.ext_getElem (by rw [hFull, List.length_range]) fun p hp _ => ?_
    rw [List.getElem_range]
    have hpMax : p < t.maxCpus := hFull ▸ hp
    obtain ⟨-, hLeast⟩ := hProbe (fun i => if i = p then 0 else 1) p hpMax fun i hi => by simp [hi]
    have hLe := hLeast p (ApTable.mem_of_full hFull hpMax)
    rw [List.getD_eq_getElem _ _ hp] at hLe
    by_contra hne
    simp [hne] at hLe
  · -- the last position is behind the ids, and so stands for CPU 0
    right
    have hShort : t.ids.length ≤ t.maxCpus - 1 := by
      have hLe := t.short
      omega
    have hLast : t.maxCpus - 1 < t.maxCpus := Nat.sub_lt t.pos Nat.one_pos
    have hZero : t.ids.getD (t.maxCpus - 1) 0 = 0 := List.getD_eq_default _ _ hShort
    have hBoot : 0 ∈ t.ids := by
      obtain ⟨hOnline, -⟩ := hProbe (fun i => if i = t.maxCpus - 1 then 0 else 1) _ hLast fun i hi => by
        simp [hi]
      exact hOnline.resolve_left (Nat.not_lt.mpr hShort)
    have hOnly : ∀ c ∈ t.ids, c = 0 := by
      intro c hc
      by_contra hne
      have hcMax := t.small c hc
      obtain ⟨-, hLeast⟩ := hProbe
        (fun i => if i = t.maxCpus - 1 then 0 else if i = c then 1 else 2) _ hLast fun i hi => by
          simp only [hi, if_true, if_false]
          split <;> decide
      have hLe := hLeast c hc
      have hNotLast : 0 ≠ t.maxCpus - 1 := by omega
      simp only [hZero, hNotLast, Ne.symm hne, if_false] at hLe
      split at hLe
      · omega
      · rw [if_pos trivial] at hLe
        omega
    have hAll : t.ids = List.replicate t.ids.length 0 := List.eq_replicate_iff.mpr ⟨rfl, hOnly⟩
    have hOne : t.ids.length ≤ 1 := by
      have hNodup := t.nodup
      rw [hAll, List.nodup_replicate] at hNodup
      exact hNodup
    have hPos := List.length_pos_of_mem hBoot
    rw [hAll, show t.ids.length = 1 by omega]
    rfl

/-- **Load balancing.**  For given lengths the task goes to a CPU with a shortest queue exactly under
`FirstShortestFits`; for all lengths it does so exactly where all CPUs are online and the table has them in
order, or where only CPU 0 is. -/
theorem schedEnqueueBalanced_minimal (t : ApTable) (task : Nat) :
    (∀ s : Sched, s.CountedReady → (Balances t s task ↔ FirstShortestFits t s)) ∧
      ((∀ s : Sched, s.CountedReady → Balances t s task) ↔
        t.ids = List.range t.maxCpus ∨ t.ids = [0]) := by
  refine ⟨fun s hCounted => balances_iff t hCounted task, table_of_balances, ?_⟩
  intro hTable s hCounted
  obtain ⟨p, hp⟩ := exists_firstMin s.load t.pos
  refine (balances_iff t hCounted task).mpr ⟨p, hp, ?_⟩
  rcases hTable with hRange | hBoot
  · have hLt : p < t.ids.length := by
      rw [hRange, List.length_range]
      exact hp.lt
    have hId : t.ids.getD p 0 = p := by
      rw [List.getD_eq_getElem _ _ hLt]
      simp only [hRange, List.getElem_range]
    rw [hId]
    exact ⟨Or.inl hLt, fun c hc => hp.le c (t.small c hc)⟩
  · have hZero : t.ids.getD p 0 = 0 := by
      rw [hBoot]
      cases p <;> rfl
    rw [hZero, hBoot]
    refine ⟨Or.inr List.mem_cons_self, fun c hc => ?_⟩
    rw [List.mem_singleton.mp hc]

/-- Two CPUs, CPU 1 before CPU 0. -/
def swappedTable : ApTable := ⟨2, by decide, [1, 0], by decide, by decide, by decide⟩

/-- Two CPUs in order. -/
def orderedTable : ApTable := ⟨2, by decide, [0, 1], by decide, by decide, by decide⟩

theorem schedEnqueueBalanced_minimal_ordered :
    Balances orderedTable (loadedSched fun cpu => if cpu = 0 then 1 else 0) 7 :=
  (schedEnqueueBalanced_minimal orderedTable 7).2.mpr (Or.inl (by decide)) _ (loadedSched_counted _)

/-- CPU 0 has a task, CPU 1 has none, and the new task goes to CPU 0: the shortest queue is at position 1,
where the table has CPU 0. -/
theorem sched_enqueue_swapped :
    ((schedEnqueueBalanced swappedTable.topology
        (loadedSched fun cpu => if cpu = 0 then 1 else 0) 7).taskReadyqueue 0).list = [0, 7] ∧
      ¬ Balances swappedTable (loadedSched fun cpu => if cpu = 0 then 1 else 0) 7 := by
  refine ⟨by decide, ?_⟩
  rintro ⟨cpu, hCpu, hLeast, hEq⟩
  have hGot := congrArg (fun s : Sched => (s.taskReadyqueue 0).list) hEq
  have hOne : cpu = 1 := by
    rcases List.mem_cons.mp hCpu with rfl | hZero
    · rfl
    · rw [List.mem_singleton.mp hZero] at hLeast
      exact absurd (hLeast 1 (by decide)) (by decide)
  subst hOne
  revert hGot
  decide

end Rayos
