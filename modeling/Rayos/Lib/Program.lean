import Mathlib.Tactic

/-!
# Programs with a state and faults

Imperative code is written in `EStateM`: a program either finishes with a value or stops at a fault,
and in both cases the state it has reached is kept.  Keeping the state of a faulting run is what
makes statements such as "in this run every call succeeded" meaningful before it is known that the
run finishes.

* `bind_ok`, `bind_eq_ok` — sequencing;
* `Respects R x` — whatever `x` does, its final state is related by `R` to its initial one; closed
  under the program constructors when `R` is a preorder;
* `forUpto` — the counted loop, with its invariant rule;
* `reflTransGen_of_run` — a given list of steps reaches its last state.
-/

namespace Program

variable {ε σ α β : Type}

/-- The state in which a run ends, finished or faulted. -/
def finalState : EStateM.Result ε σ α → σ
  | .ok _ s => s
  | .error _ s => s

@[simp] theorem finalState_ok (a : α) (s : σ) :
    finalState (.ok a s : EStateM.Result ε σ α) = s := rfl

@[simp] theorem finalState_error (e : ε) (s : σ) :
    finalState (.error e s : EStateM.Result ε σ α) = s := rfl

/-- The value of a run that finishes. -/
def value? : EStateM.Result ε σ α → Option α
  | .ok a _ => some a
  | .error _ _ => none

theorem eq_ok_of_value {r : EStateM.Result ε σ α} {a : α} (h : value? r = some a) :
    r = .ok a (finalState r) := by
  cases r with
  | ok b s =>
      cases h
      rfl
  | error e s => cases h

theorem bind_ok {x : EStateM ε σ α} {f : α → EStateM ε σ β} {s s' : σ} {a : α}
    (h : x s = .ok a s') : (x >>= f) s = f a s' := by
  show EStateM.bind x f s = _
  simp only [EStateM.bind, h]

theorem bind_error {x : EStateM ε σ α} {f : α → EStateM ε σ β} {s s' : σ} {e : ε}
    (h : x s = .error e s') : (x >>= f) s = .error e s' := by
  show EStateM.bind x f s = _
  simp only [EStateM.bind, h]

@[simp] theorem pure_apply (a : α) (s : σ) : (pure a : EStateM ε σ α) s = .ok a s := rfl

@[simp] theorem get_apply (s : σ) : (get : EStateM ε σ σ) s = .ok s s := rfl

/-- A sequence finishes exactly when both parts do. -/
theorem bind_eq_ok {x : EStateM ε σ α} {f : α → EStateM ε σ β} {s t : σ} {b : β} :
    (x >>= f) s = .ok b t ↔ ∃ a s', x s = .ok a s' ∧ f a s' = .ok b t := by
  cases h : x s with
  | ok a s' =>
      rw [bind_ok h]
      constructor
      · intro hf
        exact ⟨a, s', rfl, hf⟩
      · rintro ⟨a', t', hEq, hf⟩
        cases hEq
        exact hf
  | error e s' =>
      rw [bind_error h]
      constructor
      · intro hEq
        cases hEq
      · rintro ⟨a', t', hEq, -⟩
        cases hEq

/-! ## Relations that every run respects -/

/-- Whether it finishes or faults, `x` ends in a state related by `R` to the one it started in. -/
def Respects (R : σ → σ → Prop) (x : EStateM ε σ α) : Prop := ∀ s, R s (finalState (x s))

section Preorder

variable {R : σ → σ → Prop} (hRefl : ∀ s, R s s) (hTrans : ∀ s t u, R s t → R t u → R s u)

include hRefl in
theorem Respects.pure (a : α) : Respects R (pure a : EStateM ε σ α) := fun s => hRefl s

include hTrans in
theorem Respects.bind {x : EStateM ε σ α} {f : α → EStateM ε σ β} (hx : Respects R x)
    (hf : ∀ a, Respects R (f a)) : Respects R (x >>= f) := by
  intro s
  have h1 := hx s
  cases h : x s with
  | ok a s' =>
      rw [h] at h1
      rw [bind_ok h]
      exact hTrans _ _ _ h1 (hf a s')
  | error e s' =>
      rw [h] at h1
      rw [bind_error h]
      exact h1

include hRefl in
/-- What follows a program only adds to what has happened so far. -/
theorem Respects.bind_after {x : EStateM ε σ α} {f : α → EStateM ε σ β}
    (hf : ∀ a, Respects R (f a)) (s : σ) :
    R (finalState (x s)) (finalState ((x >>= f) s)) := by
  cases h : x s with
  | ok a s' =>
      rw [bind_ok h]
      exact hf a s'
  | error e s' =>
      rw [bind_error h]
      exact hRefl s'

theorem Respects.ite {c : Prop} [Decidable c] {x y : EStateM ε σ α} (hx : Respects R x)
    (hy : Respects R y) : Respects R (if c then x else y) := by
  split
  · exact hx
  · exact hy

end Preorder

/-- What a program that finishes has respected. -/
theorem Respects.of_ok {R : σ → σ → Prop} {x : EStateM ε σ α} (hx : Respects R x) {a : α} {s s' : σ}
    (hRun : x s = .ok a s') : R s s' := by
  have h := hx s
  rw [hRun] at h
  exact h

/-! ## The counted loop -/

/-- `for (i = 0; i < n; i++) body`. -/
def forUpto (n : Nat) (body : Nat → EStateM ε σ Unit) : EStateM ε σ Unit :=
  match n with
  | 0 => pure ()
  | n + 1 => do
      forUpto n body
      body n

theorem forUpto_succ (n : Nat) (body : Nat → EStateM ε σ Unit) :
    forUpto (n + 1) body = (forUpto n body >>= fun _ => body n) := rfl

/-- The invariant rule: if every round finishes and takes `Inv i` to `Inv (i + 1)`, the loop finishes
in a state that satisfies `Inv n`. -/
theorem forUpto_ok (Inv : Nat → σ → Prop) (n : Nat) (body : Nat → EStateM ε σ Unit) {s : σ}
    (hInit : Inv 0 s)
    (hStep : ∀ i, i < n → ∀ t, Inv i t → ∃ t', body i t = .ok () t' ∧ Inv (i + 1) t') :
    ∃ t, forUpto n body s = .ok () t ∧ Inv n t := by
  induction n with
  | zero => exact ⟨s, rfl, hInit⟩
  | succ n ih =>
      obtain ⟨t, hRun, hInv⟩ := ih fun i hi => hStep i (by omega)
      obtain ⟨t', hBody, hInv'⟩ := hStep n (by omega) t hInv
      refine ⟨t', ?_, hInv'⟩
      rw [forUpto_succ, bind_ok hRun]
      exact hBody

theorem Respects.forUpto {R : σ → σ → Prop} (hRefl : ∀ s, R s s)
    (hTrans : ∀ s t u, R s t → R t u → R s u) {n : Nat} {body : Nat → EStateM ε σ Unit}
    (hBody : ∀ i, Respects R (body i)) : Respects R (Program.forUpto n body) := by
  induction n with
  | zero => exact Respects.pure hRefl ()
  | succ n ih => exact Respects.bind hTrans ih fun _ => hBody n

/-! ## Runs that are given -/

/-- A given run of a step function reaches its last state in the relation of the steps. -/
theorem reflTransGen_of_run (step : σ → α → Option σ) {run : σ → List α → Option σ} {R : σ → σ → Prop}
    (hNil : ∀ s, run s [] = some s)
    (hCons : ∀ s a rest, run s (a :: rest) = (step s a).bind fun s' => run s' rest)
    (hStep : ∀ s a s', step s a = some s' → R s s') {steps : List α} {s s' : σ}
    (h : run s steps = some s') : Relation.ReflTransGen R s s' := by
  induction steps generalizing s with
  | nil =>
      rw [hNil] at h
      cases h
      exact .refl
  | cons a rest ih =>
      rw [hCons, Option.bind_eq_some_iff] at h
      obtain ⟨t, hFirst, hRest⟩ := h
      exact .head (hStep s a t hFirst) (ih hRest)

end Program
