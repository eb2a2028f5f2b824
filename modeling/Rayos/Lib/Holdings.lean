import Mathlib.Tactic

/-!
# Holdings: every item in exactly one list

A family of lists `L : ι → List α` *holds* a set of items when every item of the set is in exactly
one list of the family, once, and nothing else is in any list.  Queues between which items are
handed on are of this shape.  Two operations keep a family a holding: moving a list of items from
one place to another, and adding a new item somewhere.

The lists are compared up to permutation, so that it does not matter at which end of a list an item
is taken out or put in.
-/

namespace Holdings

variable {ι α : Type*}

/-- The items of `S` are in exactly one list each, once; nothing else is in a list. -/
structure Holds (L : ι → List α) (S : α → Prop) : Prop where
  nodup : ∀ i, (L i).Nodup
  apart : ∀ i j x, x ∈ L i → x ∈ L j → i = j
  covers : ∀ x, S x ↔ ∃ i, x ∈ L i

variable {L L' : ι → List α} {S : α → Prop} {i j : ι}

/-- Exactly one position of exactly one list has the item. -/
theorem Holds.existsUnique (h : Holds L S) {x : α} (hx : S x) :
    ∃! p : ι × Nat, (L p.1)[p.2]? = some x := by
  obtain ⟨i, hi⟩ := (h.covers x).mp hx
  obtain ⟨k, hk, hEq⟩ := List.getElem_of_mem hi
  refine ⟨(i, k), by simp [hk, hEq], ?_⟩
  rintro ⟨j, l⟩ hl
  have hij : j = i := h.apart j i x (List.mem_of_getElem? hl) hi
  subst hij
  simp only at hl
  have hkl : (L j)[l]? = (L j)[k]? := by rw [hl, List.getElem?_eq_getElem hk, hEq]
  have hLt : l < (L j).length := (List.getElem?_eq_some_iff.mp hl).1
  rw [(List.getElem?_inj hLt (h.nodup j)).mp hkl]

/-- Moving the items `xs` from the list `i` to the list `j`. -/
theorem Holds.move (h : Holds L S) (xs rest : List α) (hij : i ≠ j)
    (hFrom : (L i).Perm (xs ++ rest)) (hI : (L' i).Perm rest) (hJ : (L' j).Perm (xs ++ L j))
    (hOther : ∀ k, k ≠ i → k ≠ j → L' k = L k) : Holds L' S := by
  have hNodup : (xs ++ rest).Nodup := hFrom.nodup_iff.mp (h.nodup i)
  have hSplit := List.nodup_append.mp hNodup
  have hMemI : ∀ x, x ∈ L i ↔ x ∈ xs ∨ x ∈ rest := fun x => by rw [hFrom.mem_iff, List.mem_append]
  have hMemI' : ∀ x, x ∈ L' i ↔ x ∈ rest := fun x => hI.mem_iff
  have hMemJ' : ∀ x, x ∈ L' j ↔ x ∈ xs ∨ x ∈ L j := fun x => by rw [hJ.mem_iff, List.mem_append]
  -- an item of `xs` was in the list `i` only
  have hxs : ∀ x, x ∈ xs → ∀ k, x ∈ L k → k = i := fun x hx k hk =>
    h.apart k i x hk ((hMemI x).mpr (Or.inl hx))
  have hOld : ∀ k x, x ∈ L' k → x ∈ L k ∧ x ∉ xs ∨ k = j ∧ x ∈ xs := by
    intro k x hx
    by_cases hki : k = i
    · subst hki
      have hRest := (hMemI' x).mp hx
      exact Or.inl ⟨(hMemI x).mpr (Or.inr hRest), fun hIn => hSplit.2.2 x hIn x hRest rfl⟩
    · by_cases hkj : k = j
      · subst hkj
        by_cases hIn : x ∈ xs
        · exact Or.inr ⟨rfl, hIn⟩
        · exact Or.inl ⟨((hMemJ' x).mp hx).resolve_left hIn, hIn⟩
      · rw [hOther k hki hkj] at hx
        exact Or.inl ⟨hx, fun hIn => hki (hxs x hIn k hx)⟩
  refine ⟨?_, ?_, ?_⟩
  · intro k
    by_cases hki : k = i
    · subst hki
      exact hI.nodup_iff.mpr hSplit.2.1
    · by_cases hkj : k = j
      · subst hkj
        refine hJ.nodup_iff.mpr (List.nodup_append.mpr ⟨hSplit.1, h.nodup k, ?_⟩)
        rintro x hx y hy rfl
        exact hij (hxs x hx k hy).symm
      · rw [hOther k hki hkj]
        exact h.nodup k
  · intro k l x hk hl
    rcases hOld k x hk with ⟨hk', hNot⟩ | ⟨rfl, hIn⟩
    · rcases hOld l x hl with ⟨hl', -⟩ | ⟨-, hIn⟩
      · exact h.apart k l x hk' hl'
      · exact absurd hIn hNot
    · rcases hOld l x hl with ⟨-, hNot⟩ | ⟨rfl, -⟩
      · exact absurd hIn hNot
      · rfl
  · intro x
    rw [h.covers x]
    constructor
    · rintro ⟨k, hk⟩
      by_cases hki : k = i
      · subst hki
        rcases (hMemI x).mp hk with hIn | hIn
        · exact ⟨j, (hMemJ' x).mpr (Or.inl hIn)⟩
        · exact ⟨k, (hMemI' x).mpr hIn⟩
      · by_cases hkj : k = j
        · subst hkj
          exact ⟨k, (hMemJ' x).mpr (Or.inr hk)⟩
        · exact ⟨k, by rw [hOther k hki hkj]; exact hk⟩
    · rintro ⟨k, hk⟩
      rcases hOld k x hk with ⟨hk', -⟩ | ⟨-, hIn⟩
      · exact ⟨k, hk'⟩
      · exact ⟨i, (hMemI x).mpr (Or.inl hIn)⟩

/-- Adding a new item to the list `j`. -/
theorem Holds.add (h : Holds L S) {x : α} (hx : ¬ S x) (hJ : (L' j).Perm (x :: L j))
    (hOther : ∀ k, k ≠ j → L' k = L k) {S' : α → Prop} (hS : ∀ y, S' y ↔ S y ∨ y = x) :
    Holds L' S' := by
  have hNew : ∀ k, x ∉ L k := fun k hk => hx ((h.covers x).mpr ⟨k, hk⟩)
  have hMemJ' : ∀ y, y ∈ L' j ↔ y = x ∨ y ∈ L j := fun y => by rw [hJ.mem_iff, List.mem_cons]
  have hOld : ∀ k y, y ∈ L' k → y ∈ L k ∨ k = j ∧ y = x := by
    intro k y hy
    by_cases hkj : k = j
    · subst hkj
      rcases (hMemJ' y).mp hy with rfl | hy
      · exact Or.inr ⟨rfl, rfl⟩
      · exact Or.inl hy
    · rw [hOther k hkj] at hy
      exact Or.inl hy
  refine ⟨?_, ?_, ?_⟩
  · intro k
    by_cases hkj : k = j
    · subst hkj
      exact hJ.nodup_iff.mpr (List.nodup_cons.mpr ⟨hNew k, h.nodup k⟩)
    · rw [hOther k hkj]
      exact h.nodup k
  · intro k l y hk hl
    rcases hOld k y hk with hk | ⟨rfl, rfl⟩
    · rcases hOld l y hl with hl | ⟨rfl, rfl⟩
      · exact h.apart k l y hk hl
      · exact absurd hk (hNew k)
    · rcases hOld l y hl with hl | ⟨rfl, -⟩
      · exact absurd hl (hNew l)
      · rfl
  · intro y
    rw [hS y, h.covers y]
    constructor
    · rintro (⟨k, hk⟩ | rfl)
      · by_cases hkj : k = j
        · subst hkj
          exact ⟨k, (hMemJ' y).mpr (Or.inr hk)⟩
        · exact ⟨k, by rw [hOther k hkj]; exact hk⟩
      · exact ⟨j, (hMemJ' y).mpr (Or.inl rfl)⟩
    · rintro ⟨k, hk⟩
      rcases hOld k y hk with hk | ⟨-, rfl⟩
      · exact Or.inl ⟨k, hk⟩
      · exact Or.inr rfl

end Holdings
