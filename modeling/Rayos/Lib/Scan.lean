import Mathlib.Logic.Relation
import Mathlib.Tactic

/-!
# Scans over positions

A loop that reads a record at its position and moves on by the length it finds there.  `go p` is the position
after `p`, or `none` where the loop ends.  A scan that never goes back and only goes on below a bound ends
exactly when it comes to no position at which it stays.
-/

namespace Scan

/-- The loop ends within `n` rounds. -/
def within (go : Nat → Option Nat) : Nat → Nat → Bool
  | 0, _ => false
  | n + 1, p =>
      match go p with
      | none => true
      | some q => within go n q

/-- The positions that the loop comes to. -/
abbrev Visits (go : Nat → Option Nat) : Nat → Nat → Prop := Relation.ReflTransGen fun p q => go p = some q

/-- The loop never goes back, and goes on only below `stop`. -/
structure Forward (go : Nat → Option Nat) (stop : Nat) : Prop where
  le : ∀ p q, go p = some q → p ≤ q
  lt : ∀ p q, go p = some q → p < stop

variable {go : Nat → Option Nat} {stop n p q : Nat}

theorem within_of_none (h : go p = none) : within go (n + 1) p = true := by
  rw [within, h]

theorem within_of_some (h : go p = some q) : within go (n + 1) p = within go n q := by
  rw [within, h]

/-- A position at which the loop stays is never left. -/
theorem within_stuck (h : go p = some p) : within go n p = false := by
  induction n with
  | zero => rfl
  | succ n ih => rw [within_of_some h, ih]

/-- A loop that comes to such a position does not end. -/
theorem within_of_visits_stuck (hVisits : Visits go p q) (hStuck : go q = some q) : within go n p = false := by
  induction hVisits using Relation.ReflTransGen.head_induction_on generalizing n with
  | refl => exact within_stuck hStuck
  | head hFirst _ ih =>
      cases n with
      | zero => rfl
      | succ n => rw [within_of_some hFirst, ih]

/-- A loop that comes to no such position needs at most a round for each position below the bound. -/
theorem within_of_moves (h : Forward go stop) (hMoves : ∀ q, Visits go p q → go q ≠ some q)
    (hRounds : stop < p + n) (hPos : 0 < n) : within go n p = true := by
  induction n generalizing p with
  | zero => exact absurd hPos (lt_irrefl 0)
  | succ n ih =>
      cases hGo : go p with
      | none => exact within_of_none hGo
      | some q =>
          have hLe := h.le p q hGo
          have hLt := h.lt p q hGo
          have hNe : q ≠ p := fun hEq => hMoves p .refl (hEq ▸ hGo)
          rw [within_of_some hGo]
          exact ih (fun r hr => hMoves r (.head hGo hr)) (by omega) (by omega)

/-- The loop ends exactly when it stays nowhere. -/
theorem ends_iff (h : Forward go stop) :
    (∃ n, within go n p = true) ↔ ∀ q, Visits go p q → go q ≠ some q := by
  constructor
  · rintro ⟨n, hEnds⟩ q hVisits hStuck
    rw [within_of_visits_stuck hVisits hStuck] at hEnds
    cases hEnds
  · exact fun hMoves => ⟨stop + 1, within_of_moves h hMoves (by omega) (Nat.succ_pos _)⟩

end Scan
