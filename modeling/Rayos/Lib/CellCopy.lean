import Mathlib.Tactic

/-!
# Copying cell by cell

A list of pairs of a destination and a source is worked off in order, and each step reads the source as the steps
before it have left it.  When no step writes a cell that a later one reads or writes, all of them read what was there
at the start: this is how ranges that overlap are copied.
-/

namespace CellCopy

variable {α β : Type*} [DecidableEq α]

/-- Copy the cells of the pairs, one after the other. -/
def copyCells (m : α → β) : List (α × α) → α → β
  | [] => m
  | (dest, src) :: rest => copyCells (Function.update m dest (m src)) rest

/-- No step writes what a later one reads or writes. -/
def Fresh (moves : List (α × α)) : Prop := moves.Pairwise fun p q => p.1 ≠ q.1 ∧ p.1 ≠ q.2

variable {m : α → β} {moves : List (α × α)} {a : α}

theorem copyCells_of_not_mem (h : ∀ p ∈ moves, a ≠ p.1) : copyCells m moves a = m a := by
  induction moves generalizing m with
  | nil => rfl
  | cons p rest ih =>
      obtain ⟨dest, src⟩ := p
      rw [copyCells, ih fun q hq => h q (List.mem_cons_of_mem _ hq)]
      exact Function.update_of_ne (h (dest, src) List.mem_cons_self) _ _

/-- Every destination has what its source had. -/
theorem copyCells_of_mem (hFresh : Fresh moves) : ∀ p ∈ moves, copyCells m moves p.1 = m p.2 := by
  induction moves generalizing m with
  | nil => exact fun p hp => absurd hp List.not_mem_nil
  | cons q rest ih =>
      obtain ⟨dest, src⟩ := q
      obtain ⟨hFirst, hRest⟩ := List.pairwise_cons.mp hFresh
      intro p hp
      rw [copyCells]
      rcases List.mem_cons.mp hp with rfl | hp
      · -- the destination of the first step stays as it is
        rw [copyCells_of_not_mem fun q hq => (hFirst q hq).1, Function.update_self]
      · rw [ih hRest p hp]
        exact Function.update_of_ne (hFirst p hp).2.symm _ _

end CellCopy
