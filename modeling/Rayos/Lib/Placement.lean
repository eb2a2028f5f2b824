import Mathlib.Tactic

/-!
# Items on lists, each at its place

`spot x` says on which list of a family the item `x` is, if it is on one.  A family is *placed* by `spot`
when the lists hold exactly the items that are there, each once.  Two operations keep this: an item that
is nowhere is put at the end of a list, and the first item of a list is taken away.
-/

namespace Placement

variable {ι α : Type*} [DecidableEq ι] [DecidableEq α]

/-- The lists hold exactly the items that are there, each once. -/
structure Placed (spot : α → Option ι) (L : ι → List α) : Prop where
  nodup : ∀ i, (L i).Nodup
  mem : ∀ i x, x ∈ L i ↔ spot x = some i

variable {spot : α → Option ι} {L : ι → List α} {i : ι} {x : α}

omit [DecidableEq ι] [DecidableEq α] in
theorem Placed.apart (h : Placed spot L) {j : ι} (hi : x ∈ L i) (hj : x ∈ L j) : i = j := by
  have hSame := ((h.mem i x).mp hi).symm.trans ((h.mem j x).mp hj)
  simpa using hSame

/-- An item that is nowhere is put at the end of a list. -/
theorem Placed.push (h : Placed spot L) (hx : spot x = none) :
    Placed (Function.update spot x (some i)) (Function.update L i (L i ++ [x])) := by
  have hNot : ∀ j, x ∉ L j := fun j hj => by simp [(h.mem j x).mp hj] at hx
  refine ⟨fun j => ?_, fun j y => ?_⟩
  · by_cases hj : j = i
    · subst hj
      rw [Function.update_self]
      exact List.nodup_append.mpr ⟨h.nodup j, List.nodup_singleton x, by
        rintro a ha b hb rfl
        rw [List.mem_singleton] at hb
        exact hNot j (hb ▸ ha)⟩
    · rw [Function.update_of_ne hj]
      exact h.nodup j
  · have hMem := h.mem j y
    have hNotJ := hNot j
    by_cases hj : j = i
    · subst hj
      by_cases hy : y = x
      · simp [hy]
      · simp [hy, hMem]
    · by_cases hy : y = x
      · subst hy
        simp [Function.update_of_ne hj, hNotJ, Ne.symm hj]
      · simp [Function.update_of_ne hj, hy, hMem]

/-- The first item of a list is taken away. -/
theorem Placed.pop (h : Placed spot L) {rest : List α} (hList : L i = x :: rest) :
    Placed (Function.update spot x none) (Function.update L i rest) := by
  have hNodup := h.nodup i
  rw [hList, List.nodup_cons] at hNodup
  have hPlace : spot x = some i := (h.mem i x).mp (by rw [hList]; exact List.mem_cons_self)
  refine ⟨fun j => ?_, fun j y => ?_⟩
  · by_cases hj : j = i
    · subst hj
      rw [Function.update_self]
      exact hNodup.2
    · rw [Function.update_of_ne hj]
      exact h.nodup j
  · have hMem := h.mem j y
    by_cases hj : j = i
    · subst hj
      rw [Function.update_self]
      rw [hList, List.mem_cons] at hMem
      by_cases hy : y = x
      · subst hy
        simp [hNodup.1]
      · simpa [hy] using hMem
    · rw [Function.update_of_ne hj, hMem]
      by_cases hy : y = x
      · subst hy
        simp [hPlace, Ne.symm hj]
      · simp [hy]

end Placement
