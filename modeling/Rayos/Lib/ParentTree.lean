import Mathlib.Tactic

/-!
# Trees given by parent links

Nodes of a set `live` with a partial function `parent` form a tree when the root has no parent and the
links of every node lead to the root.  Adding a leaf, taking out a leaf, and moving a node to a parent
that is not below it keep this.  In a tree the root is joined to every node by exactly one chain of
links (`existsUnique_chain`).
-/

namespace ParentTree

variable {α : Type*} {live live' : α → Prop} {root : α} {parent parent' : α → Option α}

/-- One link up. -/
def Up (parent : α → Option α) (x p : α) : Prop := parent x = some p

/-- `x` is `a` or below it. -/
def Below (parent : α → Option α) (x a : α) : Prop := Relation.ReflTransGen (Up parent) x a

/-- The links of every node lead to the root, through nodes. -/
structure IsTree (live : α → Prop) (root : α) (parent : α → Option α) : Prop where
  rootLive : live root
  rootParent : parent root = none
  parentLive : ∀ x p, live x → parent x = some p → live p
  toRoot : ∀ x, live x → Below parent x root

theorem IsTree.exists_parent (h : IsTree live root parent) {x : α} (hx : live x) (hne : x ≠ root) :
    ∃ p, parent x = some p ∧ live p := by
  rcases Relation.ReflTransGen.cases_head (h.toRoot x hx) with hEq | ⟨p, hUp, -⟩
  · exact absurd hEq hne
  · exact ⟨p, hUp, h.parentLive x p hx hUp⟩

/-- A parent is not below its child. -/
theorem IsTree.not_below_child (h : IsTree live root parent) {x p : α} (hx : live x)
    (hUp : parent x = some p) : ¬ Below parent p x := by
  intro hCycle
  -- from a node below `x` the links come back to `x`, and never to the root
  have hNever : ∀ y, Below parent y root → ¬ Below parent y x := by
    intro y hRoot
    induction hRoot using Relation.ReflTransGen.head_induction_on with
    | refl =>
        intro hBelow
        rcases Relation.ReflTransGen.cases_head hBelow with hEq | ⟨q, hq, -⟩
        · rw [← hEq, h.rootParent] at hUp
          cases hUp
        · cases h.rootParent.symm.trans hq
    | head hStep _ ih =>
        intro hBelow
        rcases Relation.ReflTransGen.cases_head hBelow with rfl | ⟨q, hq, hRest⟩
        · cases hUp.symm.trans hStep
          exact ih hCycle
        · cases hStep.symm.trans hq
          exact ih hRest
  exact hNever x (h.toRoot x hx) .refl

/-- Links that are the same away from `x` lead from a node to the same place, as long as `x` is not on
the way. -/
theorem below_of_avoids {x y z : α} (hSame : ∀ w, w ≠ x → parent' w = parent w)
    (hBelow : Below parent y z) (hAvoids : ¬ Below parent y x) : Below parent' y z := by
  induction hBelow using Relation.ReflTransGen.head_induction_on with
  | refl => exact .refl
  | head hUp hRest ih =>
      rename_i a b
      have hax : a ≠ x := fun hEq => hAvoids (hEq ▸ .refl)
      refine Relation.ReflTransGen.head ?_ (ih fun hb => hAvoids (.head hUp hb))
      exact (hSame a hax).trans hUp

/-- A new node is hung below `p`. -/
theorem IsTree.addLeaf (h : IsTree live root parent) {x p : α} (hx : ¬ live x) (hp : live p)
    (hLive : ∀ y, live' y ↔ live y ∨ y = x) (hNew : parent' x = some p)
    (hSame : ∀ y, y ≠ x → parent' y = parent y) : IsTree live' root parent' := by
  have hAvoids : ∀ y, live y → ¬ Below parent y x := by
    intro y hy hBelow
    induction hBelow using Relation.ReflTransGen.head_induction_on with
    | refl => exact hx hy
    | head hUp _ ih => exact ih (h.parentLive _ _ hy hUp)
  have hOld : ∀ y, live y → Below parent' y root := fun y hy =>
    below_of_avoids hSame (h.toRoot y hy) (hAvoids y hy)
  refine ⟨(hLive root).mpr (Or.inl h.rootLive), ?_, ?_, ?_⟩
  · rw [hSame root fun hEq => hx (hEq ▸ h.rootLive)]
    exact h.rootParent
  · intro y q hy hUp
    rcases (hLive y).mp hy with hy | rfl
    · rw [hSame y fun hEq => hx (hEq ▸ hy)] at hUp
      exact (hLive q).mpr (Or.inl (h.parentLive y q hy hUp))
    · rw [hNew] at hUp
      cases hUp
      exact (hLive p).mpr (Or.inl hp)
  · intro y hy
    rcases (hLive y).mp hy with hy | rfl
    · exact hOld y hy
    · exact .head hNew (hOld p hp)

/-- A node without children is taken out. -/
theorem IsTree.removeLeaf (h : IsTree live root parent) {x : α} (hne : x ≠ root)
    (hLeaf : ∀ y, live y → parent y ≠ some x) (hLive : ∀ y, live' y ↔ live y ∧ y ≠ x)
    (hSame : ∀ y, y ≠ x → parent' y = parent y) : IsTree live' root parent' := by
  have hAvoids : ∀ y, live y → y ≠ x → ¬ Below parent y x := by
    intro y hy hyx hBelow
    induction hBelow using Relation.ReflTransGen.head_induction_on with
    | refl => exact hyx rfl
    | head hUp hRest ih =>
        rename_i a b
        by_cases hb : b = x
        · exact hLeaf a hy (hb ▸ hUp)
        · exact ih (h.parentLive _ _ hy hUp) hb
  refine ⟨(hLive root).mpr ⟨h.rootLive, Ne.symm hne⟩, ?_, ?_, ?_⟩
  · rw [hSame root (Ne.symm hne)]
    exact h.rootParent
  · intro y q hy hUp
    obtain ⟨hy, hyx⟩ := (hLive y).mp hy
    rw [hSame y hyx] at hUp
    exact (hLive q).mpr ⟨h.parentLive y q hy hUp, fun hq => hLeaf y hy (hq ▸ hUp)⟩
  · intro y hy
    obtain ⟨hy, hyx⟩ := (hLive y).mp hy
    exact below_of_avoids hSame (h.toRoot y hy) (hAvoids y hy hyx)

/-- A node is hung below another one that is not below it. -/
theorem IsTree.move (h : IsTree live root parent) {x q : α} (hne : x ≠ root) (hq : live q)
    (hAvoids : ¬ Below parent q x) (hNew : parent' x = some q)
    (hSame : ∀ y, y ≠ x → parent' y = parent y) : IsTree live root parent' := by
  have hqRoot : Below parent' q root := below_of_avoids hSame (h.toRoot q hq) hAvoids
  refine ⟨h.rootLive, ?_, ?_, ?_⟩
  · rw [hSame root (Ne.symm hne)]
    exact h.rootParent
  · intro y p hy hUp
    by_cases hyx : y = x
    · rw [hyx, hNew] at hUp
      cases hUp
      exact hq
    · rw [hSame y hyx] at hUp
      exact h.parentLive y p hy hUp
  · intro y hy
    -- up to `x` the links are the old ones, from `x` on they are those of `q`
    have hBelow := h.toRoot y hy
    induction hBelow using Relation.ReflTransGen.head_induction_on with
    | refl => exact .refl
    | head hUp hRest ih =>
        rename_i a b
        by_cases hax : a = x
        · exact .head (hax ▸ hNew) hqRoot
        · exact .head ((hSame a hax).trans hUp) (ih (h.parentLive _ _ hy hUp))

/-! ## Chains -/

/-- A chain of links down from the root to `x`. -/
def ChainTo (live : α → Prop) (root : α) (parent : α → Option α) (x : α) (l : List α) : Prop :=
  l.head? = some root ∧ l.getLast? = some x ∧
    l.IsChain fun p y => live p ∧ live y ∧ parent y = some p

theorem exists_chain (h : IsTree live root parent) {x : α} (hx : live x) :
    ∃ l, ChainTo live root parent x l := by
  have hBelow := h.toRoot x hx
  induction hBelow using Relation.ReflTransGen.head_induction_on with
  | refl => exact ⟨[root], rfl, rfl, List.isChain_singleton _⟩
  | head hUp hRest ih =>
      rename_i a b
      have hb := h.parentLive _ _ hx hUp
      obtain ⟨l, hHead, hLast, hChain⟩ := ih hb
      refine ⟨l ++ [a], ?_, by simp, ?_⟩
      · rw [List.head?_append, hHead]
        rfl
      · refine List.isChain_append.mpr ⟨hChain, List.isChain_singleton _, ?_⟩
        intro p hp y hy
        rw [hLast] at hp
        cases hp
        simp only [List.head?_cons, Option.mem_def, Option.some.injEq] at hy
        subst hy
        exact ⟨hb, hx, hUp⟩

theorem chain_unique (h : IsTree live root parent) :
    ∀ (l l' : List α) (x : α), ChainTo live root parent x l → ChainTo live root parent x l' → l = l' := by
  intro l
  induction l using List.reverseRecOn with
  | nil =>
      intro l' x hl
      exact absurd hl.1 (by simp)
  | append_singleton init y ih =>
      intro l' x hl hl'
      obtain ⟨hHead, hLast, hChain⟩ := hl
      obtain ⟨hHead', hLast', hChain'⟩ := hl'
      rw [List.getLast?_concat, Option.some.injEq] at hLast
      subst hLast
      rcases List.eq_nil_or_concat l' with rfl | ⟨init', y', rfl⟩
      · exact absurd hHead' (by simp)
      rw [List.concat_eq_append] at *
      rw [List.getLast?_concat, Option.some.injEq] at hLast'
      subst hLast'
      -- the node before the last one is its parent
      have hBefore : ∀ init : List α, (init ++ [y']).head? = some root →
          (init ++ [y']).IsChain (fun p y => live p ∧ live y ∧ parent y = some p) →
          (init = [] ∧ y' = root) ∨ ∃ p, parent y' = some p ∧ ChainTo live root parent p init := by
        intro init hHead hChain
        rcases List.eq_nil_or_concat init with rfl | ⟨rest, p, rfl⟩
        · exact Or.inl ⟨rfl, by simpa using hHead⟩
        · rw [List.concat_eq_append] at *
          obtain ⟨hFront, -, hLink⟩ := List.isChain_append.mp hChain
          have hUp := (hLink p (by simp) y' (by simp)).2.2
          refine Or.inr ⟨p, hUp, ?_, by simp, hFront⟩
          rw [List.head?_append] at hHead
          cases hRest : (rest ++ [p]).head? with
          | none => simp at hRest
          | some z =>
              rw [hRest] at hHead
              exact hHead
      rcases hBefore init hHead hChain with ⟨rfl, hRoot⟩ | ⟨p, hUp, hInit⟩
      · rcases hBefore init' hHead' hChain' with ⟨rfl, -⟩ | ⟨p, hUp, -⟩
        · rfl
        · rw [hRoot, h.rootParent] at hUp
          cases hUp
      · rcases hBefore init' hHead' hChain' with ⟨rfl, hRoot⟩ | ⟨p', hUp', hInit'⟩
        · rw [hRoot, h.rootParent] at hUp
          cases hUp
        · rw [hUp] at hUp'
          cases hUp'
          rw [ih init' p hInit hInit']

/-- Every node hangs on exactly one chain from the root. -/
theorem existsUnique_chain (h : IsTree live root parent) {x : α} (hx : live x) :
    ∃! l, ChainTo live root parent x l := by
  obtain ⟨l, hl⟩ := exists_chain h hx
  exact ⟨l, hl, fun l' hl' => chain_unique h l' l x hl' hl⟩

end ParentTree
