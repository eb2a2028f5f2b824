import Rayos.Lib.CasLoop
import Rayos.Lib.Program
import Rayos.Sync.Spinlock

/-!
# Atomic operations on a word (`atomic.c`)

Any number of CPUs use one word.  Most functions are one locked instruction, but `atomic_fetch_or` and
`atomic_fetch_and` load the word and store the new value with `atomic_compare_exchange`, whose result has the upper
24 bits that its register had before.

* `atomicStep` — one access of one CPU;
* `atomicStep_refines` — it is an access of a read-modify-write operation on a cell;
* `atomic_linear` — all calls have an order that explains the word and what they return.
-/

namespace Rayos

/-! ## The code -/

/-- A call of a function of `atomic.c`, without its pointer. -/
inductive AtomicOp where
  | atomicLoad
  | atomicStore (val : U64)
  | atomicCompareExchange (expected desired : U64)
  | atomicFetchAdd (val : U64)
  | atomicFetchSub (val : U64)
  | atomicFetchOr (val : U64)
  | atomicFetchAnd (val : U64)
  | atomicExchange (val : U64)
  deriving DecidableEq

/-- The value that a call stores over `old`. -/
def AtomicOp.store : AtomicOp → U64 → U64
  | .atomicLoad, old => old
  | .atomicStore val, _ => val
  | .atomicCompareExchange expected desired, old => if old = expected then desired else old
  | .atomicFetchAdd val, old => old + val
  | .atomicFetchSub val, old => old + -val
  | .atomicFetchOr val, old => old ||| val
  | .atomicFetchAnd val, old => old &&& val
  | .atomicExchange val, _ => val

/-- The functions that are one instruction. -/
def AtomicOp.single : AtomicOp → Bool
  | .atomicFetchOr _ => false
  | .atomicFetchAnd _ => false
  | _ => true

/-- Where a CPU is. -/
inductive AtomicPc where
  | outside
  /-- Before the instruction, or before the load of the loop. -/
  | called (op : AtomicOp)
  /-- In the loop, before the compare-exchange. -/
  | loaded (op : AtomicOp) (oldVal newVal : U64)
  /-- Before the test of the result; after an instruction there is nothing to test. -/
  | tested (op : AtomicOp) (oldVal : U64) (success : BitVec 32)
  deriving DecidableEq

/-- A word and the CPUs that use it.  `results` are the calls that have returned, with the value of the word that they
have found, and `dirty` counts the compare-exchanges that have failed over a register with a bit set above the low
byte. -/
structure AtomicState (Cpu : Type) where
  word : U64
  pc : Cpu → AtomicPc
  results : Cpu → List (AtomicOp × U64)
  dirty : Nat

variable {Cpu : Type} [DecidableEq Cpu]

/-- No CPU uses the word. -/
def atomicInit (val : U64) : AtomicState Cpu := ⟨val, fun _ => .outside, fun _ => [], 0⟩

/-- The CPU `c` goes on at `pc`. -/
def AtomicState.goto (s : AtomicState Cpu) (c : Cpu) (pc : AtomicPc) : AtomicState Cpu :=
  { s with pc := Function.update s.pc c pc }

/-- A step of a CPU; `reg` is what the register of the result held before a compare-exchange. -/
inductive AtomicStep where
  | call (op : AtomicOp)
  | access (reg : BitVec 32)
  | test

/-- The compare-exchange of the loop. -/
def AtomicState.exchange (s : AtomicState Cpu) (c : Cpu) (op : AtomicOp) (oldVal newVal : U64) (reg : BitVec 32) :
    AtomicState Cpu :=
  let r := Rayos.atomicCompareExchange s.word oldVal newVal reg
  { s.goto c (.tested op r.expected r.success) with
    word := r.ptr, dirty := s.dirty + if s.word ≠ oldVal ∧ 256 ≤ reg.toNat then 1 else 0 }

/-- One access of one CPU. -/
def atomicStep (s : AtomicState Cpu) (c : Cpu) : AtomicStep → Option (AtomicState Cpu)
  | .call op => if s.pc c = .outside then some (s.goto c (.called op)) else none
  | .access reg =>
      match s.pc c with
      | .called op =>
          if op.single then some { s.goto c (.tested op s.word 1#32) with word := op.store s.word }
          else some (s.goto c (.loaded op s.word (op.store s.word)))
      | .loaded op oldVal newVal => some (s.exchange c op oldVal newVal reg)
      | _ => none
  | .test =>
      match s.pc c with
      | .tested op oldVal success =>
          if success ≠ 0#32 then
            some { s.goto c .outside with results := Function.update s.results c (s.results c ++ [(op, oldVal)]) }
          else some (s.goto c (.called op))
      | _ => none

/-- An access of some CPU. -/
def AtomicNext (s s' : AtomicState Cpu) : Prop := ∃ c step, atomicStep s c step = some s'

/-! ## Operations on a cell -/

/-- The word as a cell with operations. -/
def atomicObject : CasLoop.Object AtomicOp U64 := ⟨AtomicOp.store, AtomicOp.single⟩

/-- Where the CPU is in its operation. -/
def AtomicPc.point : AtomicPc → CasLoop.Point AtomicOp U64
  | .outside => .idle
  | .called op => .ready op
  | .loaded op oldVal _ => .loaded op oldVal
  | .tested op oldVal success => .tested op oldVal (success ≠ 0#32)

/-- The state as that of a cell. -/
def AtomicState.view (s : AtomicState Cpu) : CasLoop.State Cpu AtomicOp U64 :=
  ⟨s.word, fun c => (s.pc c).point, s.results, s.dirty⟩

/-- The new value has been computed from the old one. -/
def AtomicSound (s : AtomicState Cpu) : Prop :=
  ∀ c op oldVal newVal, s.pc c = .loaded op oldVal newVal → newVal = op.store oldVal

variable {s s' : AtomicState Cpu} {c : Cpu}

theorem points_update (pcs : Cpu → AtomicPc) (c : Cpu) (pc : AtomicPc) :
    (fun d => (Function.update pcs c pc d).point) = Function.update (fun d => (pcs d).point) c pc.point := by
  funext d
  by_cases hd : d = c
  · subst hd
    rw [Function.update_self, Function.update_self]
  · rw [Function.update_of_ne hd, Function.update_of_ne hd]

/-- A step of one CPU, with what it changes besides. -/
theorem atomicView_goto (s : AtomicState Cpu) (c : Cpu) (pc : AtomicPc) (word : U64)
    (results : Cpu → List (AtomicOp × U64)) (dirty : Nat) :
    ({ s.goto c pc with word := word, results := results, dirty := dirty } : AtomicState Cpu).view =
      { s.view.goto c pc.point with cell := word, results := results, lies := dirty } := by
  unfold AtomicState.view AtomicState.goto CasLoop.State.goto
  simp only [points_update]

theorem AtomicSound.goto (h : AtomicSound s) (pc : AtomicPc)
    (hPc : ∀ op oldVal newVal, pc = .loaded op oldVal newVal → newVal = op.store oldVal) :
    AtomicSound (s.goto c pc) := by
  intro d op oldVal newVal hd
  simp only [AtomicState.goto] at hd
  by_cases hEq : d = c
  · subst hEq
    rw [Function.update_self] at hd
    exact hPc op oldVal newVal hd
  · rw [Function.update_of_ne hEq] at hd
    exact h d op oldVal newVal hd

/-- The compare-exchange of the loop: it finds the value that it expects, or it fails and may lie. -/
theorem exchange_refines {op : AtomicOp} {oldVal : U64} (hLoaded : s.pc c = .loaded op oldVal (op.store oldVal))
    (reg : BitVec 32) : CasLoop.Step atomicObject s.view (s.exchange c op oldVal (op.store oldVal) reg).view := by
  have hPoint : s.view.point c = .loaded op oldVal := congrArg AtomicPc.point hLoaded
  unfold AtomicState.exchange
  rw [atomicView_goto]
  by_cases hEq : s.word = oldVal
  · subst hEq
    have hOk : decide (setz reg true ≠ 0#32) = true := decide_eq_true (setz_true_ne_zero reg)
    have hStep := CasLoop.Step.exchange (o := atomicObject) (s := s.view) c op hPoint
    simp only [Rayos.atomicCompareExchange, if_true, AtomicPc.point, hOk, ne_eq, not_true_eq_false, false_and, if_false,
      Nat.add_zero]
    exact hStep
  · have hLie : (decide (setz reg false ≠ 0#32)).toNat = if s.word ≠ oldVal ∧ 256 ≤ reg.toNat then 1 else 0 := by
      by_cases hReg : 256 ≤ reg.toNat
      · have hNe : setz reg false ≠ 0#32 := fun h => absurd ((setz_false_eq_zero_iff reg).mp h) (by omega)
        rw [decide_eq_true hNe, if_pos ⟨hEq, hReg⟩]
        rfl
      · have hZero : setz reg false = 0#32 := (setz_false_eq_zero_iff reg).mpr (by omega)
        rw [hZero, if_neg fun h => hReg h.2]
        rfl
    have hStep := CasLoop.Step.fail (o := atomicObject) (s := s.view) c op oldVal (decide (setz reg false ≠ 0#32))
      hPoint hEq
    rw [hLie] at hStep
    simp only [Rayos.atomicCompareExchange, if_neg hEq, AtomicPc.point]
    exact hStep

/-- **An access of the code is an access of an operation.**  A register with a bit set above the low byte makes the
compare-exchange lie. -/
theorem atomicStep_refines {step : AtomicStep} (h : AtomicSound s) (hStep : atomicStep s c step = some s') :
    AtomicSound s' ∧ CasLoop.Step atomicObject s.view s'.view := by
  cases step with
  | call op =>
      simp only [atomicStep, Option.ite_none_right_eq_some, Option.some.injEq] at hStep
      obtain ⟨hPc, rfl⟩ := hStep
      refine ⟨h.goto _ (by simp), ?_⟩
      have hView := CasLoop.Step.call (o := atomicObject) (s := s.view) c op (congrArg AtomicPc.point hPc)
      exact atomicView_goto s c (.called op) s.word s.results s.dirty ▸ hView
  | access reg =>
      simp only [atomicStep] at hStep
      cases hPc : s.pc c with
      | outside => simp [hPc] at hStep
      | tested op oldVal success => simp [hPc] at hStep
      | called op =>
          have hPoint : s.view.point c = .ready op := congrArg AtomicPc.point hPc
          rw [hPc] at hStep
          cases hSingle : op.single with
          | true =>
              simp only [hSingle, if_true, Option.some.injEq] at hStep
              subst hStep
              refine ⟨h.goto (.tested op s.word 1#32) (by simp), ?_⟩
              have hView := CasLoop.Step.direct (o := atomicObject) c op hPoint hSingle
              exact atomicView_goto s c (.tested op s.word 1#32) (op.store s.word) s.results s.dirty ▸ hView
          | false =>
              simp only [hSingle, Bool.false_eq_true, if_false, Option.some.injEq] at hStep
              subst hStep
              refine ⟨h.goto (.loaded op s.word (op.store s.word)) ?_, ?_⟩
              · intro op' oldVal newVal hEq
                cases hEq
                rfl
              · have hView := CasLoop.Step.load (o := atomicObject) c op hPoint hSingle
                exact atomicView_goto s c (.loaded op s.word (op.store s.word)) s.word s.results s.dirty ▸ hView
      | loaded op oldVal newVal =>
          obtain rfl := h c op oldVal newVal hPc
          simp only [hPc, Option.some.injEq] at hStep
          subst hStep
          exact ⟨h.goto (.tested op _ _) (by simp), exchange_refines hPc reg⟩
  | test =>
      simp only [atomicStep] at hStep
      cases hPc : s.pc c with
      | outside => simp [hPc] at hStep
      | called op => simp [hPc] at hStep
      | loaded op oldVal newVal => simp [hPc] at hStep
      | tested op oldVal success =>
          simp only [hPc] at hStep
          by_cases hZero : success = 0#32
          · have hPoint : s.view.point c = .tested op oldVal false := by
              rw [show s.view.point c = _ from congrArg AtomicPc.point hPc, AtomicPc.point, hZero]
              rfl
            simp only [hZero, ne_eq, not_true_eq_false, if_false, Option.some.injEq] at hStep
            subst hStep
            refine ⟨h.goto _ (by simp), ?_⟩
            have hView := CasLoop.Step.again (o := atomicObject) c op oldVal hPoint
            exact atomicView_goto s c (.called op) s.word s.results s.dirty ▸ hView
          · have hPoint : s.view.point c = .tested op oldVal true := by
              rw [show s.view.point c = _ from congrArg AtomicPc.point hPc, AtomicPc.point, decide_eq_true hZero]
            simp only [hZero, ne_eq, not_false_eq_true, if_true, Option.some.injEq] at hStep
            subst hStep
            refine ⟨h.goto .outside (by simp), ?_⟩
            have hView := CasLoop.Step.ret (o := atomicObject) c op oldVal hPoint
            exact atomicView_goto s c .outside s.word _ s.dirty ▸ hView

omit [DecidableEq Cpu] in
theorem atomicSound_init (val : U64) : AtomicSound (atomicInit val : AtomicState Cpu) := by
  intro c op oldVal newVal h
  cases h

/-- Runs of the code are runs of the operations. -/
theorem atomicNext_refines (h : AtomicSound s) (hRun : Relation.ReflTransGen AtomicNext s s') :
    AtomicSound s' ∧ Relation.ReflTransGen (CasLoop.Step atomicObject) s.view s'.view := by
  induction hRun with
  | refl => exact ⟨h, .refl⟩
  | tail _ hNext ih =>
      obtain ⟨c, step, hStep⟩ := hNext
      obtain ⟨hSound, hView⟩ := atomicStep_refines ih.1 hStep
      exact ⟨hSound, ih.2.tail hView⟩

/-- **The calls are atomic.**  At every point of every run the calls that have returned have an order in which each finds
what the ones before it have left, and so does the word.  Each CPU finds its own calls in it in the order in which it has
made them; calls that start later come behind; and as many calls have changed nothing as compare-exchanges have failed
over a register with a bit set above the low byte. -/
theorem atomic_linear (val : U64) (hRun : Relation.ReflTransGen AtomicNext (atomicInit val) s)
    (hLater : Relation.ReflTransGen AtomicNext s s') :
    ∃ log log', log <+: log' ∧ CasLoop.Linear atomicObject val s.view log ∧
      CasLoop.Linear atomicObject val s'.view log' ∧ (s'.dirty = 0 → ∀ e ∈ log', e.took = true) := by
  obtain ⟨hSound, hView⟩ := atomicNext_refines (atomicSound_init val) hRun
  obtain ⟨-, hViewLater⟩ := atomicNext_refines hSound hLater
  obtain ⟨log, -, hLog⟩ := CasLoop.linear_of_run hView (CasLoop.linear_start atomicObject val)
  obtain ⟨log', hPrefix, hLog'⟩ := CasLoop.linear_of_run hViewLater hLog
  exact ⟨log, log', hPrefix, hLog, hLog', fun hDirty e he => hLog'.all_took hDirty he⟩

/-- The accesses of a list, one after the other. -/
def atomicRun (s : AtomicState Cpu) : List (Cpu × AtomicStep) → Option (AtomicState Cpu)
  | [] => some s
  | (c, step) :: rest => (atomicStep s c step).bind fun t => atomicRun t rest

theorem reachable_of_atomicRun {steps : List (Cpu × AtomicStep)} (hRun : atomicRun s steps = some s') :
    Relation.ReflTransGen AtomicNext s s' :=
  Program.reflTransGen_of_run (fun s p => atomicStep s p.1 p.2) (fun _ => rfl) (fun _ _ _ => rfl)
    (fun _ p _ h => ⟨p.1, p.2, h⟩) hRun

/-- Two CPUs set a bit.  The compare-exchange of the first one fails, its register held `0x100`, and the bit is lost. -/
theorem atomic_linear_lost : ∃ s : AtomicState Bool, Relation.ReflTransGen AtomicNext (atomicInit 0#64) s ∧
    s.results true = [(.atomicFetchOr 1#64, 2#64)] ∧ s.word = 2#64 ∧
    ∃ log, CasLoop.Linear atomicObject 0#64 s.view log := by
  have hRun : ∃ s : AtomicState Bool, atomicRun (atomicInit 0#64)
      [(true, .call (.atomicFetchOr 1#64)), (true, .access 0#32), (false, .call (.atomicFetchOr 2#64)),
        (false, .access 0#32), (false, .access 0#32), (false, .test), (true, .access 0x100#32),
        (true, .test)] = some s ∧ s.results true = [(.atomicFetchOr 1#64, 2#64)] ∧ s.word = 2#64 :=
    ⟨_, rfl, rfl, rfl⟩
  obtain ⟨s, hRun, hResults, hWord⟩ := hRun
  have hReach := reachable_of_atomicRun hRun
  obtain ⟨_, log', -, -, hLinear, -⟩ := atomic_linear 0#64 hReach .refl
  exact ⟨s, hReach, hResults, hWord, log', hLinear⟩

end Rayos
