import Rayos.Machine.Word
import Mathlib.Logic.Relation

/-!
# Spinlocks (`spinlock.c`, `atomic.c`)

Any number of CPUs run `spinlock_lock`, `spinlock_trylock` and `spinlock_unlock` on one lock, one
atomic step at a time.  The result of `atomic_compare_exchange` is the `int` that the inline assembly
leaves in its output register: `setz` writes the low byte, and the other 24 bits are those of whatever
the register held.

* `SpinNext` — one atomic step of one CPU, with any earlier content of the register;
* `SpinInv` — the lock word counts the CPUs that own the lock;
* `spinlock_exclusive_of_clean` — at most one CPU is in, in every run in which a compare-exchange that
  fails finds the upper 24 bits of its register clear.
-/

namespace Rayos

/-- `setz %b0`: the low byte of a 32-bit register. -/
def setz (reg : BitVec 32) (zf : Bool) : BitVec 32 :=
  (reg &&& 0xffffff00#32) ||| (if zf then 1#32 else 0#32)

/-- What `atomic_compare_exchange` leaves behind: `*ptr`, `*expected` and the result. -/
structure CompareExchange where
  ptr : U64
  expected : U64
  success : BitVec 32

/-- `atomic_compare_exchange`: `lock cmpxchgq` followed by `setz`; `reg` is what the register of
`success` held before. -/
def atomicCompareExchange (ptr expected desired : U64) (reg : BitVec 32) : CompareExchange :=
  if ptr = expected then ⟨desired, expected, setz reg true⟩ else ⟨ptr, ptr, setz reg false⟩

/-- Where a CPU is in the code of the lock. -/
inductive SpinPc where
  /-- Not in the code of the lock. -/
  | outside
  /-- In the loop of `spinlock_lock`, before the compare-exchange. -/
  | lock
  /-- In the loop of `spinlock_lock`, before the test of the result. -/
  | lockTest (success : BitVec 32)
  /-- In `spinlock_trylock`, before the compare-exchange. -/
  | trylock
  /-- In `spinlock_trylock`, before the test of the result. -/
  | trylockTest (success : BitVec 32)
  deriving DecidableEq

/-- A lock and the CPUs that use it.  `held` counts the calls of `spinlock_lock` and
`spinlock_trylock` that have succeeded and whose `spinlock_unlock` is still to come. -/
structure SpinState (Cpu : Type) where
  lock : U64
  pc : Cpu → SpinPc
  held : Cpu → Nat

variable {Cpu : Type} [DecidableEq Cpu]

/-- `spinlock_init`. -/
def spinlockInit : SpinState Cpu := ⟨0#64, fun _ => .outside, fun _ => 0⟩

/-- The CPU `c` goes on at `pc`. -/
def SpinState.goto (s : SpinState Cpu) (c : Cpu) (pc : SpinPc) : SpinState Cpu :=
  { s with pc := Function.update s.pc c pc }

/-- The CPU `c` has the lock, as far as it can tell. -/
def SpinState.enter (s : SpinState Cpu) (c : Cpu) : SpinState Cpu :=
  { s.goto c .outside with held := Function.update s.held c (s.held c + 1) }

/-- The compare-exchange of the CPU `c`, which expects 0 and stores 1. -/
def SpinState.cas (s : SpinState Cpu) (c : Cpu) (reg : BitVec 32)
    (test : BitVec 32 → SpinPc) : SpinState Cpu :=
  let r := atomicCompareExchange s.lock 0#64 1#64 reg
  { s.goto c (test r.success) with lock := r.ptr }

/-- An atomic step of a CPU. -/
inductive SpinStep where
  | callLock
  | callTrylock
  /-- The compare-exchange, with the content that the register of the result has before it. -/
  | compareExchange (reg : BitVec 32)
  | test
  | unlock

/-- One step of the CPU `c`; `spinlock_unlock` is called by a holder only. -/
def spinStep (s : SpinState Cpu) (c : Cpu) : SpinStep → Option (SpinState Cpu)
  | .callLock => if s.pc c = .outside then some (s.goto c .lock) else none
  | .callTrylock => if s.pc c = .outside then some (s.goto c .trylock) else none
  | .compareExchange reg =>
      match s.pc c with
      | .lock => some (s.cas c reg .lockTest)
      | .trylock => some (s.cas c reg .trylockTest)
      | _ => none
  | .test =>
      match s.pc c with
      | .lockTest success => some (if success ≠ 0#32 then s.enter c else s.goto c .lock)
      | .trylockTest success => some (if success ≠ 0#32 then s.enter c else s.goto c .outside)
      | _ => none
  | .unlock =>
      if s.pc c = .outside ∧ 0 < s.held c then
        some { s with lock := 0#64, held := Function.update s.held c (s.held c - 1) }
      else none

/-- A step of some CPU. -/
def SpinNext (s s' : SpinState Cpu) : Prop := ∃ c step, spinStep s c step = some s'

/-- The step does not fail a compare-exchange over a register with a bit set above the low byte. -/
def CleanStep (s : SpinState Cpu) : SpinStep → Prop
  | .compareExchange reg => s.lock = 0#64 ∨ reg.toNat < 256
  | _ => True

/-- A step of some CPU that is clean. -/
def CleanNext (s s' : SpinState Cpu) : Prop :=
  ∃ c step, CleanStep s step ∧ spinStep s c step = some s'

/-- At most one CPU is between a successful lock and its unlock. -/
def Exclusive (s : SpinState Cpu) : Prop := ∀ c d, 0 < s.held c → 0 < s.held d → c = d

/-! ## The result of a compare-exchange -/

/-- After success the result is not zero. -/
theorem setz_true_ne_zero (reg : BitVec 32) : setz reg true ≠ 0#32 := by
  intro h
  have hBit := congrArg (fun w => w.getLsbD 0) h
  simp [setz] at hBit

/-- After failure the result is what the register held above the low byte. -/
theorem setz_false_eq_zero_iff (reg : BitVec 32) : setz reg false = 0#32 ↔ reg.toNat < 256 := by
  have hLt := reg.isLt
  have hNat : (setz reg false).toNat = reg.toNat / 2 ^ 8 * 2 ^ 8 := by
    simp only [setz, Bool.false_eq_true, if_false, BitVec.or_zero, BitVec.toNat_and]
    rw [show (0xffffff00#32).toNat = (2 ^ 24 - 1) * 2 ^ 8 from rfl]
    apply Nat.eq_of_testBit_eq
    intro i
    rw [Nat.testBit_and, Nat.testBit_mul_two_pow, Nat.testBit_mul_two_pow, Nat.testBit_two_pow_sub_one,
      Nat.testBit_div_two_pow]
    by_cases hi : 8 ≤ i
    · rw [Nat.sub_add_cancel hi]
      by_cases hTop : i < 32
      · simp [hi]
        omega
      · rw [Nat.testBit_lt_two_pow
          (lt_of_lt_of_le hLt (Nat.pow_le_pow_right (by decide) (by omega)))]
        simp
    · simp [hi]
  rw [← BitVec.toNat_inj, hNat]
  simp only [BitVec.toNat_zero]
  omega

/-! ## The invariant -/

/-- A result that will let its CPU in. -/
def SpinPc.won : SpinPc → Nat
  | .lockTest success | .trylockTest success => if success ≠ 0#32 then 1 else 0
  | _ => 0

/-- How often a CPU has won the lock and not given it back. -/
def SpinState.owns (s : SpinState Cpu) (c : Cpu) : Nat := s.held c + (s.pc c).won

/-- The lock word is 0 and no CPU owns the lock, or it is 1 and one CPU owns it once. -/
def SpinInv (s : SpinState Cpu) : Prop :=
  s.lock = 0#64 ∧ (∀ c, s.owns c = 0) ∨
    s.lock = 1#64 ∧ ∃ c, s.owns c = 1 ∧ ∀ d, d ≠ c → s.owns d = 0

omit [DecidableEq Cpu] in
theorem spinInv_init : SpinInv (spinlockInit : SpinState Cpu) := Or.inl ⟨rfl, fun _ => rfl⟩

omit [DecidableEq Cpu] in
theorem SpinInv.exclusive {s : SpinState Cpu} (h : SpinInv s) : Exclusive s := by
  intro c d hc hd
  have hOwns : ∀ e, 0 < s.held e → s.owns e ≠ 0 := fun e he => by
    simp only [SpinState.owns]
    omega
  rcases h with ⟨-, hNone⟩ | ⟨-, e, -, hOther⟩
  · exact absurd (hNone c) (hOwns c hc)
  · have hEq : ∀ b, 0 < s.held b → b = e := fun b hb => by
      by_contra hNe
      exact hOwns b hb (hOther b hNe)
    rw [hEq c hc, hEq d hd]

omit [DecidableEq Cpu] in
/-- A step that changes neither the lock word nor who owns the lock. -/
theorem SpinInv.of_owns {s s' : SpinState Cpu} (h : SpinInv s) (hLock : s'.lock = s.lock)
    (hOwns : ∀ c, s'.owns c = s.owns c) : SpinInv s' := by
  simp only [SpinInv, hLock, hOwns]
  exact h

theorem owns_goto_other (s : SpinState Cpu) {c d : Cpu} (pc : SpinPc) (hNe : d ≠ c) :
    (s.goto c pc).owns d = s.owns d := by
  simp [SpinState.owns, SpinState.goto, Function.update_of_ne hNe]

theorem owns_goto_self (s : SpinState Cpu) (c : Cpu) (pc : SpinPc) :
    (s.goto c pc).owns c = s.held c + pc.won := by
  simp [SpinState.owns, SpinState.goto]

/-- Going on at a place where nothing has been won, from such a place. -/
theorem SpinInv.goto {s : SpinState Cpu} (h : SpinInv s) {c : Cpu} {pc : SpinPc}
    (hWon : pc.won = (s.pc c).won) : SpinInv (s.goto c pc) := by
  refine h.of_owns rfl fun d => ?_
  by_cases hd : d = c
  · subst hd
    rw [owns_goto_self, hWon]
    rfl
  · exact owns_goto_other s pc hd

/-- A won result becomes a held lock. -/
theorem SpinInv.enter {s : SpinState Cpu} (h : SpinInv s) {c : Cpu} (hWon : (s.pc c).won = 1) :
    SpinInv (s.enter c) := by
  refine h.of_owns rfl fun d => ?_
  by_cases hd : d = c
  · subst hd
    have hOut : SpinPc.outside.won = 0 := rfl
    simp [SpinState.enter, SpinState.owns, SpinState.goto, hOut, hWon]
  · simp [SpinState.enter, SpinState.owns, SpinState.goto, Function.update_of_ne hd]

/-- A compare-exchange that is clean: it wins exactly when the lock is free. -/
theorem SpinInv.cas {s : SpinState Cpu} (h : SpinInv s) {c : Cpu} {reg : BitVec 32}
    {test : BitVec 32 → SpinPc} (hTest : ∀ x, (test x).won = if x ≠ 0#32 then 1 else 0)
    (hPc : (s.pc c).won = 0) (hClean : s.lock = 0#64 ∨ reg.toNat < 256) :
    SpinInv (s.cas c reg test) := by
  have hOther : ∀ d, d ≠ c → (s.cas c reg test).owns d = s.owns d := fun d hd =>
    owns_goto_other s _ hd
  rcases h with ⟨hFree, hNone⟩ | ⟨hTaken, e, he, hRest⟩
  · -- the lock is free: `c` takes it
    refine Or.inr ⟨?_, c, ?_, fun d hd => (hOther d hd).trans (hNone d)⟩
    · simp [SpinState.cas, atomicCompareExchange, hFree]
    · have hHeld : s.held c = 0 := by
        have := hNone c
        simp only [SpinState.owns] at this
        omega
      have hWon := hTest (setz reg true)
      rw [if_pos (setz_true_ne_zero reg)] at hWon
      simp [SpinState.cas, atomicCompareExchange, hFree, SpinState.owns, SpinState.goto, hWon, hHeld]
  · -- the lock is taken: the result is 0, since the register was clean
    have hNe : s.lock ≠ 0#64 := by
      rw [hTaken]
      decide
    have hZero : setz reg false = 0#32 :=
      (setz_false_eq_zero_iff reg).mpr (hClean.resolve_left hNe)
    have hWon := hTest (setz reg false)
    rw [if_neg (by simpa using hZero)] at hWon
    have hSame : ∀ d, (s.cas c reg test).owns d = s.owns d := by
      intro d
      by_cases hd : d = c
      · subst hd
        simp [SpinState.cas, atomicCompareExchange, hNe, SpinState.owns, SpinState.goto, hWon, hPc]
      · exact hOther d hd
    refine Or.inr ⟨?_, e, (hSame e).trans he, fun d hd => (hSame d).trans (hRest d hd)⟩
    simp [SpinState.cas, atomicCompareExchange, hTaken]

/-- The holder gives the lock back. -/
theorem SpinInv.unlock {s : SpinState Cpu} (h : SpinInv s) {c : Cpu} (hPc : s.pc c = .outside)
    (hHeld : 0 < s.held c) :
    SpinInv { s with lock := 0#64, held := Function.update s.held c (s.held c - 1) } := by
  have hOwns : 0 < s.owns c := by
    simp only [SpinState.owns]
    omega
  refine Or.inl ⟨rfl, fun d => ?_⟩
  rcases h with ⟨-, hNone⟩ | ⟨-, e, he, hRest⟩
  · exact absurd (hNone c) (by omega)
  · obtain rfl : c = e := by
      by_contra hNe
      have := hRest c hNe
      omega
    by_cases hd : d = c
    · subst hd
      simp only [SpinState.owns, hPc, SpinPc.won, Function.update_self] at he ⊢
      omega
    · have := hRest d hd
      simpa [SpinState.owns, Function.update_of_ne hd] using this

theorem spinInv_step {s s' : SpinState Cpu} (h : SpinInv s) (hNext : CleanNext s s') : SpinInv s' := by
  obtain ⟨c, step, hClean, hStep⟩ := hNext
  cases step with
  | callLock =>
      simp only [spinStep, Option.ite_none_right_eq_some, Option.some.injEq] at hStep
      obtain ⟨hPc, rfl⟩ := hStep
      exact h.goto (by rw [hPc]; rfl)
  | callTrylock =>
      simp only [spinStep, Option.ite_none_right_eq_some, Option.some.injEq] at hStep
      obtain ⟨hPc, rfl⟩ := hStep
      exact h.goto (by rw [hPc]; rfl)
  | compareExchange reg =>
      simp only [spinStep] at hStep
      split at hStep
      · rename_i hPc
        cases hStep
        exact h.cas (fun _ => rfl) (by rw [hPc]; rfl) hClean
      · rename_i hPc
        cases hStep
        exact h.cas (fun _ => rfl) (by rw [hPc]; rfl) hClean
      · cases hStep
  | test =>
      simp only [spinStep] at hStep
      split at hStep
      all_goals try (cases hStep; done)
      all_goals
        rename_i success hPc
        cases hStep
        split
        · rename_i hNe
          exact h.enter (by rw [hPc]; exact if_pos hNe)
        · rename_i hEq
          exact h.goto (by rw [hPc]; exact (if_neg hEq).symm)
  | unlock =>
      simp only [spinStep, Option.ite_none_right_eq_some, Option.some.injEq] at hStep
      obtain ⟨⟨hPc, hHeld⟩, rfl⟩ := hStep
      exact h.unlock hPc hHeld

theorem spinInv_of_reachable {s : SpinState Cpu}
    (hReach : Relation.ReflTransGen CleanNext spinlockInit s) : SpinInv s := by
  induction hReach with
  | refl => exact spinInv_init
  | tail _ hNext ih => exact spinInv_step ih hNext

/-! ## Mutual exclusion -/

/-- A compare-exchange that fails over a register with a bit set above the low byte lets its CPU in. -/
theorem spinStep_dirty {s : SpinState Cpu} {c : Cpu} {reg : BitVec 32}
    (hPc : s.pc c = .lock ∨ s.pc c = .trylock) (hDirty : ¬ CleanStep s (.compareExchange reg)) :
    ∃ s1 s2, spinStep s c (.compareExchange reg) = some s1 ∧ spinStep s1 c .test = some s2 ∧
      s2.held = Function.update s.held c (s.held c + 1) := by
  simp only [CleanStep, not_or] at hDirty
  obtain ⟨hTaken, hReg⟩ := hDirty
  have hNe : setz reg false ≠ 0#32 := fun hZero => hReg ((setz_false_eq_zero_iff reg).mp hZero)
  have hCas : atomicCompareExchange s.lock 0#64 1#64 reg = ⟨s.lock, s.lock, setz reg false⟩ :=
    if_neg hTaken
  rcases hPc with hPc | hPc
  · refine ⟨s.cas c reg .lockTest, (s.cas c reg .lockTest).enter c, by simp only [spinStep, hPc], ?_,
      rfl⟩
    simp [spinStep, SpinState.cas, SpinState.goto, hCas, hNe]
  · refine ⟨s.cas c reg .trylockTest, (s.cas c reg .trylockTest).enter c,
      by simp only [spinStep, hPc], ?_, rfl⟩
    simp [spinStep, SpinState.cas, SpinState.goto, hCas, hNe]

/-- **Mutual exclusion, as long as the registers are clean.**  In every run in which no
compare-exchange fails over a register with a bit set above the low byte, at most one CPU is in; and
in every state of such a run, such a compare-exchange by another CPU than the holder lets it in as
well. -/
theorem spinlock_exclusive_of_clean (s : SpinState Cpu)
    (hReach : Relation.ReflTransGen CleanNext spinlockInit s) :
    Exclusive s ∧
    ∀ (c d : Cpu) (reg : BitVec 32), c ≠ d → 0 < s.held d → (s.pc c = .lock ∨ s.pc c = .trylock) →
      ¬ CleanStep s (.compareExchange reg) →
      ∃ s1 s2, spinStep s c (.compareExchange reg) = some s1 ∧ spinStep s1 c .test = some s2 ∧
        ¬ Exclusive s2 := by
  refine ⟨(spinInv_of_reachable hReach).exclusive, ?_⟩
  intro c d reg hNe hHeld hPc hDirty
  obtain ⟨s1, s2, hStep1, hStep2, hHeld2⟩ := spinStep_dirty hPc hDirty
  refine ⟨s1, s2, hStep1, hStep2, fun hExclusive => hNe (hExclusive c d ?_ ?_)⟩
  · simp [hHeld2]
  · simpa [hHeld2, Function.update_of_ne (Ne.symm hNe)] using hHeld

/-- The steps of a list, one after the other. -/
def spinRun (s : SpinState Cpu) : List (Cpu × SpinStep) → Option (SpinState Cpu)
  | [] => some s
  | (c, step) :: rest => (spinStep s c step).bind fun t => spinRun t rest

theorem reachable_of_spinRun {s s' : SpinState Cpu} {steps : List (Cpu × SpinStep)}
    (hRun : spinRun s steps = some s') : Relation.ReflTransGen SpinNext s s' := by
  induction steps generalizing s with
  | nil =>
      cases hRun
      exact Relation.ReflTransGen.refl
  | cons first rest ih =>
      obtain ⟨t, hStep, hRest⟩ := Option.bind_eq_some_iff.mp hRun
      exact Relation.ReflTransGen.head ⟨first.1, first.2, hStep⟩ (ih hRest)

/-- CPU 0 takes the lock, and CPU 1 starts to wait for it. -/
theorem spinlock_exclusive_of_clean_two :
    ∃ s : SpinState (Fin 2), Relation.ReflTransGen CleanNext spinlockInit s ∧ s.held 0 = 1 ∧
      s.pc 1 = .lock ∧ Exclusive s := by
  have hRun : Relation.ReflTransGen CleanNext (spinlockInit : SpinState (Fin 2)) _ :=
    (((Relation.ReflTransGen.single ⟨0, .callLock, trivial, rfl⟩).tail
      ⟨0, .compareExchange 0xdead00ff#32, Or.inl rfl, rfl⟩).tail ⟨0, .test, trivial, rfl⟩).tail
      ⟨1, .callLock, trivial, rfl⟩
  exact ⟨_, hRun, by decide, by decide, (spinlock_exclusive_of_clean _ hRun).1⟩

/-- CPU 0 holds the lock; the compare-exchange of CPU 1 fails, but its register held `0x100`. -/
theorem spinlock_not_exclusive :
    ∃ s : SpinState (Fin 2), Relation.ReflTransGen SpinNext spinlockInit s ∧ ¬ Exclusive s := by
  have hRun : ∃ s : SpinState (Fin 2), spinRun spinlockInit
      [(0, .callLock), (0, .compareExchange 0#32), (0, .test),
        (1, .callLock), (1, .compareExchange 0x100#32), (1, .test)] = some s ∧
      s.held 0 = 1 ∧ s.held 1 = 1 := ⟨_, rfl, by decide, by decide⟩
  obtain ⟨s, hRun, h0, h1⟩ := hRun
  refine ⟨s, reachable_of_spinRun hRun, fun hExclusive => ?_⟩
  have := hExclusive 0 1 (by omega) (by omega)
  exact absurd this (by decide)

end Rayos
