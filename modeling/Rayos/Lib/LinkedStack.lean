import Mathlib.Tactic

/-!
# Stacks linked through their cells

A singly linked list in a store: `next` gives the link of a cell, and the last link is `null`.  `Chain next null p l`
says that the links from `p` on run through the cells `l` and end.  The links determine the cells, so no cell comes
twice.
-/

namespace LinkedStack

variable {ι : Type*} {next next' : ι → ι} {null p x : ι} {l l' : List ι}

/-- The links from `p` on: through the cells of the list, and to the end. -/
def Chain (next : ι → ι) (null : ι) : ι → List ι → Prop
  | p, [] => p = null
  | p, x :: l => p = x ∧ x ≠ null ∧ Chain next null (next x) l

theorem Chain.congr (hNext : ∀ y ∈ l, next' y = next y) (h : Chain next null p l) : Chain next' null p l := by
  induction l generalizing p with
  | nil => exact h
  | cons x l ih =>
      obtain ⟨hStart, hNe, hRest⟩ := h
      refine ⟨hStart, hNe, ?_⟩
      rw [hNext x List.mem_cons_self]
      exact ih (fun y hy => hNext y (List.mem_cons_of_mem x hy)) hRest

/-- A cell in front. -/
theorem Chain.push (h : Chain next null p l) (hNe : x ≠ null) (hLink : next' x = p)
    (hNext : ∀ y ∈ l, next' y = next y) : Chain next' null x (x :: l) := by
  refine ⟨rfl, hNe, ?_⟩
  rw [hLink]
  exact h.congr hNext

theorem Chain.eq_null_iff (h : Chain next null p l) : p = null ↔ l = [] := by
  cases l with
  | nil => exact iff_of_true h rfl
  | cons x l =>
      refine iff_of_false ?_ (List.cons_ne_nil x l)
      rw [h.1]
      exact h.2.1

theorem Chain.unique (h : Chain next null p l) (h' : Chain next null p l') : l = l' := by
  induction l generalizing p l' with
  | nil => exact (h'.eq_null_iff.mp h).symm
  | cons x l ih =>
      cases l' with
      | nil => exact absurd (h.eq_null_iff.mp h') (List.cons_ne_nil x l)
      | cons y l' =>
          obtain ⟨rfl, -, hRest⟩ := h
          obtain ⟨rfl, -, hRest'⟩ := h'
          rw [ih hRest hRest']

theorem Chain.suffix {a : List ι} (h : Chain next null p (a ++ x :: l)) : Chain next null x (x :: l) := by
  induction a generalizing p with
  | nil =>
      obtain ⟨rfl, hNe, hRest⟩ := h
      exact ⟨rfl, hNe, hRest⟩
  | cons y a ih => exact ih h.2.2

/-- A chain that ends does not run in a circle. -/
theorem Chain.nodup (h : Chain next null p l) : l.Nodup := by
  induction l generalizing p with
  | nil => exact List.nodup_nil
  | cons x l ih =>
      refine List.nodup_cons.mpr ⟨fun hx => ?_, ih h.2.2⟩
      -- from `x` on the links would give two lists of different lengths
      obtain ⟨a, b, rfl⟩ := List.append_of_mem hx
      have hFrom : Chain next null x (x :: (a ++ x :: b)) := ⟨rfl, h.2⟩
      have hSame := hFrom.unique hFrom.2.2.suffix
      have hLength := congrArg List.length hSame
      simp only [List.length_cons, List.length_append] at hLength
      omega

end LinkedStack
