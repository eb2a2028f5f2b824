import Mathlib.Tactic

/-!
# Read-modify-write operations on one cell

Threads apply operations to a cell.  An operation is one instruction, or a loop that loads the cell, computes the new
value and stores it with a compare-exchange, until that reports success.  A compare-exchange that fails may report
success all the same; the call then returns without having done anything.

* `Step` — one access of one thread;
* `Linear` — an order of the calls that explains the cell and all results;
* `Step.linear`, `linear_of_run` — every run has one, and it only grows at its end.
-/

namespace CasLoop

variable {ι Op V : Type}

/-- The operations of a cell: what they do with the value, and whether one instruction does it. -/
structure Object (Op V : Type) where
  apply : Op → V → V
  direct : Op → Bool

/-- Where a thread is. -/
inductive Point (Op V : Type) where
  /-- In no operation. -/
  | idle
  /-- Before the first access of the operation. -/
  | ready (op : Op)
  /-- Before the compare-exchange that expects `v`. -/
  | loaded (op : Op) (v : V)
  /-- After it: the value it has found, and what it has reported. -/
  | tested (op : Op) (old : V) (ok : Bool)

/-- The cell and the threads.  `results` are the calls that have returned, and `lies` counts the compare-exchanges that
have failed and reported success. -/
structure State (ι Op V : Type) where
  cell : V
  point : ι → Point Op V
  results : ι → List (Op × V)
  lies : Nat

/-- No thread is in an operation. -/
def start (v : V) : State ι Op V := ⟨v, fun _ => .idle, fun _ => [], 0⟩

variable [DecidableEq ι]

/-- A thread goes on. -/
def State.goto (s : State ι Op V) (i : ι) (p : Point Op V) : State ι Op V :=
  { s with point := Function.update s.point i p }

/-- One access of one thread. -/
inductive Step (o : Object Op V) : State ι Op V → State ι Op V → Prop where
  | call {s} (i : ι) (op : Op) (h : s.point i = .idle) : Step o s (s.goto i (.ready op))
  | direct {s} (i : ι) (op : Op) (h : s.point i = .ready op) (hOp : o.direct op = true) :
      Step o s { s.goto i (.tested op s.cell true) with cell := o.apply op s.cell }
  | load {s} (i : ι) (op : Op) (h : s.point i = .ready op) (hOp : o.direct op = false) :
      Step o s (s.goto i (.loaded op s.cell))
  | exchange {s} (i : ι) (op : Op) (h : s.point i = .loaded op s.cell) :
      Step o s { s.goto i (.tested op s.cell true) with cell := o.apply op s.cell }
  | fail {s} (i : ι) (op : Op) (v : V) (ok : Bool) (h : s.point i = .loaded op v) (hNe : s.cell ≠ v) :
      Step o s { s.goto i (.tested op s.cell ok) with lies := s.lies + ok.toNat }
  | again {s} (i : ι) (op : Op) (old : V) (h : s.point i = .tested op old false) : Step o s (s.goto i (.ready op))
  | ret {s} (i : ι) (op : Op) (old : V) (h : s.point i = .tested op old true) :
      Step o s { s.goto i .idle with results := Function.update s.results i (s.results i ++ [(op, old)]) }

/-! ## The order of the calls -/

/-- A call in the order: who has made it, with which result, and whether it has changed the cell. -/
structure Entry (ι Op V : Type) where
  thread : ι
  op : Op
  old : V
  took : Bool

/-- The value after an entry. -/
def Entry.after (o : Object Op V) (e : Entry ι Op V) (v : V) : V := if e.took then o.apply e.op v else v

/-- The value after all entries, if each of them has found what the ones before it have left. -/
def replay (o : Object Op V) [DecidableEq V] (v : V) : List (Entry ι Op V) → Option V
  | [] => some v
  | e :: log => if e.old = v then replay o (e.after o v) log else none

/-- The calls of one thread with their results. -/
def calls (log : List (Entry ι Op V)) (i : ι) : List (Op × V) :=
  (log.filter fun e => e.thread = i).map fun e => (e.op, e.old)

/-- The entries that have changed nothing. -/
def lost (log : List (Entry ι Op V)) : List (Entry ι Op V) := log.filter fun e => !e.took

/-- The call that has its place in the order and has not returned. -/
def Point.pending : Point Op V → List (Op × V)
  | .tested op old true => [(op, old)]
  | _ => []

variable [DecidableEq V]

/-- The order explains the cell and the results: it is a sequential run, each thread finds its calls in it in the order
in which it has made them, and only those are lost whose last compare-exchange has lied. -/
structure Linear (o : Object Op V) (v0 : V) (s : State ι Op V) (log : List (Entry ι Op V)) : Prop where
  cell : replay o v0 log = some s.cell
  calls : ∀ i, calls log i = s.results i ++ (s.point i).pending
  lost : (lost log).length = s.lies

variable {o : Object Op V} {v0 v : V} {s s' : State ι Op V} {log : List (Entry ι Op V)}

omit [DecidableEq V] in
theorem calls_append (log log' : List (Entry ι Op V)) (i : ι) :
    CasLoop.calls (log ++ log') i = CasLoop.calls log i ++ CasLoop.calls log' i := by
  unfold CasLoop.calls
  rw [List.filter_append, List.map_append]

omit [DecidableEq ι] in
theorem replay_append (log log' : List (Entry ι Op V)) (v : V) :
    replay o v (log ++ log') = (replay o v log).bind fun v' => replay o v' log' := by
  induction log generalizing v with
  | nil => rfl
  | cons e log ih =>
      rw [List.cons_append, replay, replay]
      split
      · exact ih _
      · rfl

theorem linear_start (o : Object Op V) (v : V) : Linear o v (start v : State ι Op V) [] where
  cell := rfl
  calls _ := rfl
  lost := rfl

/-- A step of a thread that gives no call a place in the order. -/
theorem Linear.goto (h : Linear o v0 s log) {i : ι} {p : Point Op V} (hPending : p.pending = (s.point i).pending) :
    Linear o v0 (s.goto i p) log where
  cell := h.cell
  calls := by
    intro j
    unfold State.goto
    simp only
    by_cases hj : j = i
    · subst hj
      rw [Function.update_self, hPending, h.calls j]
    · rw [Function.update_of_ne hj, h.calls j]
  lost := h.lost

/-- A step that gives one call its place. -/
theorem Linear.place (h : Linear o v0 s log) {i : ι} (op : Op) (took : Bool) (hPending : (s.point i).pending = []) :
    Linear o v0 { s.goto i (.tested op s.cell true) with
      cell := if took then o.apply op s.cell else s.cell, lies := s.lies + (!took).toNat }
      (log ++ [⟨i, op, s.cell, took⟩]) where
  cell := by
    rw [replay_append, h.cell, Option.bind_some, replay, if_pos rfl]
    rfl
  calls := by
    intro j
    unfold State.goto
    simp only [calls_append, h.calls j]
    by_cases hj : j = i
    · subst hj
      rw [hPending, List.append_nil, Function.update_self]
      simp [CasLoop.calls, Point.pending]
    · have hNe : i ≠ j := fun hEq => hj hEq.symm
      rw [Function.update_of_ne hj]
      simp [CasLoop.calls, hNe]
  lost := by
    have hLost := h.lost
    unfold CasLoop.lost at hLost ⊢
    rw [List.filter_append, List.length_append, hLost]
    cases took <;> rfl

/-- **One access.**  The order grows by at most one call, at its end. -/
theorem Step.linear (hStep : Step o s s') (h : Linear o v0 s log) : ∃ new, Linear o v0 s' (log ++ new) := by
  cases hStep with
  | call i op hPoint =>
      refine ⟨[], ?_⟩
      rw [List.append_nil]
      exact h.goto (by rw [hPoint]; rfl)
  | direct i op hPoint hOp => exact ⟨_, h.place op true (by rw [hPoint]; rfl)⟩
  | load i op hPoint hOp =>
      refine ⟨[], ?_⟩
      rw [List.append_nil]
      exact h.goto (by rw [hPoint]; rfl)
  | exchange i op hPoint => exact ⟨_, h.place op true (by rw [hPoint]; rfl)⟩
  | fail i op v ok hPoint hNe =>
      cases ok with
      | true => exact ⟨_, h.place op false (by rw [hPoint]; rfl)⟩
      | false =>
          refine ⟨[], ?_⟩
          rw [List.append_nil]
          exact h.goto (by rw [hPoint]; rfl)
  | again i op old hPoint =>
      refine ⟨[], ?_⟩
      rw [List.append_nil]
      exact h.goto (by rw [hPoint]; rfl)
  | ret i op old hPoint =>
      refine ⟨[], ?_⟩
      rw [List.append_nil]
      refine ⟨h.cell, fun j => ?_, h.lost⟩
      unfold State.goto
      simp only
      by_cases hj : j = i
      · subst hj
        rw [Function.update_self, Function.update_self, h.calls j, hPoint]
        simp [Point.pending]
      · rw [Function.update_of_ne hj, Function.update_of_ne hj, h.calls j]

/-- **A run.**  An order that explains the beginning of a run goes on to one that explains its end. -/
theorem linear_of_run (hRun : Relation.ReflTransGen (Step o) s s') (h : Linear o v0 s log) :
    ∃ log', log <+: log' ∧ Linear o v0 s' log' := by
  induction hRun with
  | refl => exact ⟨log, List.prefix_refl log, h⟩
  | tail _ hStep ih =>
      obtain ⟨log', hPrefix, h'⟩ := ih
      obtain ⟨new, hNew⟩ := hStep.linear h'
      exact ⟨log' ++ new, hPrefix.trans (List.prefix_append log' new), hNew⟩

/-- Without a lie no call is lost. -/
theorem Linear.all_took (h : Linear o v0 s log) (hLies : s.lies = 0) {e : Entry ι Op V} (he : e ∈ log) :
    e.took = true := by
  have hNone : CasLoop.lost log = [] := List.length_eq_zero_iff.mp (h.lost.trans hLies)
  by_contra hNot
  have hMem : e ∈ CasLoop.lost log := List.mem_filter.mpr ⟨he, by simpa using hNot⟩
  rw [hNone] at hMem
  exact List.not_mem_nil hMem

end CasLoop
