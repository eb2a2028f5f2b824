import Mathlib.Tactic

/-!
# Radix tables in a store

A store maps a node and an index to an entry, and an entry may point to a child node.  Following a
path of indices from a root node is `descend`.  Multi-level page tables have this shape, and so do
tries kept in a heap.

A store is a *tree on a set of paths* when two different paths of the set never end in the same
node.  Under that condition an update of a single entry is seen only by the paths that go through
this entry, and hanging a fresh cleared node under an empty entry is seen by no path below it.  Both
statements are about the whole store at once; nothing is assumed about paths outside the set, which
may run in cycles or share nodes.
-/

namespace RadixTable

variable {F I E : Type*} (child : E → Option F)

/-- The node at the end of a path of indices, if every entry on the way has a child. -/
def descend (m : F → I → E) : F → List I → Option F
  | f, [] => some f
  | f, i :: p =>
      match child (m f i) with
      | none => none
      | some g => descend m g p

/-- The entry with index `i` of the node at the end of the path `p`. -/
def slot (m : F → I → E) (f : F) (p : List I) (i : I) : Option E :=
  (descend child m f p).map fun g => m g i

@[simp] theorem descend_nil (m : F → I → E) (f : F) : descend child m f [] = some f := rfl

variable {child} {m m' : F → I → E} {root f g : F} {p q : List I} {i j : I} {e z : E}

theorem descend_cons_of_child (h : child (m f i) = some g) :
    descend child m f (i :: p) = descend child m g p := by
  simp only [descend, h]

theorem descend_cons_of_none (h : child (m f i) = none) : descend child m f (i :: p) = none := by
  simp only [descend, h]

theorem descend_cons_eq_some {h : F} :
    descend child m f (i :: p) = some h ↔
      ∃ g, child (m f i) = some g ∧ descend child m g p = some h := by
  cases hc : child (m f i) with
  | none => simp [descend, hc]
  | some g => simp [descend_cons_of_child hc]

theorem descend_append (f : F) (p q : List I) :
    descend child m f (p ++ q) = (descend child m f p).bind fun g => descend child m g q := by
  induction p generalizing f with
  | nil => rfl
  | cons i p ih =>
      cases h : child (m f i) with
      | none => simp [descend, h]
      | some g => simp only [List.cons_append, descend_cons_of_child h, ih]

theorem descend_snoc (h : descend child m root p = some f) (i : I) :
    descend child m root (p ++ [i]) = child (m f i) := by
  rw [descend_append, h]
  simp only [Option.bind_some, descend]
  cases child (m f i) <;> rfl

/-- A prefix of a path that leads somewhere leads somewhere. -/
theorem descend_isPrefix (hpq : p <+: q) (h : descend child m root q = some f) :
    ∃ g, descend child m root p = some g := by
  obtain ⟨r, rfl⟩ := hpq
  rw [descend_append] at h
  cases hp : descend child m root p with
  | none => simp [hp] at h
  | some g => exact ⟨g, rfl⟩

theorem slot_eq (h : descend child m root p = some f) (i : I) :
    slot child m root p i = some (m f i) := by
  simp [slot, h]

/-- Two stores that agree on every entry a path goes through follow it to the same node. -/
theorem descend_congr (f : F) (p : List I)
    (h : ∀ q i, q ++ [i] <+: p → ∀ g, descend child m f q = some g → m' g i = m g i) :
    descend child m' f p = descend child m f p := by
  induction p generalizing f with
  | nil => rfl
  | cons i p ih =>
      have hHead : m' f i = m f i := h [] i ⟨p, rfl⟩ f rfl
      cases hc : child (m f i) with
      | none => simp [descend, hHead, hc]
      | some g =>
          rw [descend_cons_of_child hc, descend_cons_of_child (by rw [hHead]; exact hc)]
          apply ih
          intro q j hq g' hg'
          refine h (i :: q) j ?_ g' ?_
          · rw [List.cons_append]
            exact (List.cons_prefix_cons).mpr ⟨rfl, hq⟩
          · rw [descend_cons_of_child hc]
            exact hg'

/-- Filling an entry that had no child does not change where a path leads that leads somewhere. -/
theorem descend_of_absent {i : I} {f' : F} (hAbsent : child (m f' i) = none)
    (hOther : ∀ g j, ¬ (g = f' ∧ j = i) → m' g j = m g j) (h : descend child m root p = some f) :
    descend child m' root p = some f := by
  rw [← h]
  refine descend_congr root p fun q j hq g hg => ?_
  refine hOther g j ?_
  rintro ⟨rfl, rfl⟩
  obtain ⟨g', hg'⟩ := descend_isPrefix hq h
  rw [descend_snoc hg, hAbsent] at hg'
  cases hg'

/-! ## Trees -/

/-- No two paths of the set `P` end in the same node. -/
def IsTree (child : E → Option F) (P : List I → Prop) (m : F → I → E) (root : F) : Prop :=
  ∀ p q f, P p → P q → descend child m root p = some f → descend child m root q = some f → p = q

variable {P : List I → Prop} (hPrefix : ∀ p q, p <+: q → P q → P p)

include hPrefix

/-- An update of the entry `i` of the node at `q` is not seen by paths that do not go through it. -/
theorem descend_update (hTree : IsTree child P m root) (hq : P q)
    (hf : descend child m root q = some f)
    (hOther : ∀ g j, ¬ (g = f ∧ j = i) → m' g j = m g j)
    (hp : P p) (hNot : ¬ q ++ [i] <+: p) :
    descend child m' root p = descend child m root p := by
  apply descend_congr
  intro q' j hq' g hg
  apply hOther
  rintro ⟨rfl, rfl⟩
  have hP' : P q' := hPrefix _ _ ((List.prefix_append q' [j]).trans hq') hp
  have hSame := hTree q' q g hP' hq hg hf
  exact hNot (hSame ▸ hq')

/-- After the update of one entry, the other slots of the tree are as they were. -/
theorem slot_update [DecidableEq I] (hTree : IsTree child P m root) (hq : P q)
    (hf : descend child m root q = some f) (hSet : m' f i = e)
    (hOther : ∀ g j, ¬ (g = f ∧ j = i) → m' g j = m g j)
    (hp : P p) (hNot : ¬ q ++ [i] <+: p) :
    slot child m' root p j = if p = q ∧ j = i then some e else slot child m root p j := by
  unfold slot
  rw [descend_update hPrefix hTree hq hf hOther hp hNot]
  cases hg : descend child m root p with
  | none =>
      have hNe : ¬ (p = q ∧ j = i) := by
        rintro ⟨rfl, -⟩
        rw [hg] at hf
        cases hf
      rw [if_neg hNe]
      rfl
  | some g =>
      simp only [Option.map_some]
      by_cases hpq : p = q ∧ j = i
      · obtain ⟨rfl, rfl⟩ := hpq
        rw [hg, Option.some.injEq] at hf
        subst hf
        simp [hSet]
      · rw [if_neg hpq, hOther]
        rintro ⟨rfl, rfl⟩
        exact hpq ⟨hTree p q g hp hq hg hf, rfl⟩

/-- An update that keeps the entry's child leaves every path of the tree as it was. -/
theorem descend_update_leaf (hTree : IsTree child P m root) (hq : P q)
    (hf : descend child m root q = some f)
    (hOther : ∀ g j, ¬ (g = f ∧ j = i) → m' g j = m g j)
    (hLeaf : ¬ P (q ++ [i])) (hp : P p) :
    descend child m' root p = descend child m root p :=
  descend_update hPrefix hTree hq hf hOther hp fun h => hLeaf (hPrefix _ _ h hp)

section Graft

variable {D : I → Prop} {ν : F}
  (hTree : IsTree child P m root) (hq : P q) (hqi : P (q ++ [i]))
  (hf : descend child m root q = some f) (hNone : child (m f i) = none)
  (hFresh : ∀ p, P p → descend child m root p ≠ some ν)
  (hSet : m' f i = e) (hChild : child e = some ν)
  (hClear : ∀ j, D j → m' ν j = z) (hEmpty : child z = none)
  (hOther : ∀ g j, g ≠ ν → ¬ (g = f ∧ j = i) → m' g j = m g j)
  (hIdx : ∀ p, P p → ∀ j ∈ p, D j)

include hTree hq hqi hf hNone hFresh hSet hChild hClear hEmpty hOther hIdx

/-- Hanging a fresh cleared node `ν` under an empty entry adds the one path to `ν`. -/
theorem descend_graft [DecidableEq I] (hp : P p) :
    descend child m' root p = if p = q ++ [i] then some ν else descend child m root p := by
  -- paths that do not go through the new entry meet neither it nor the new node
  have hAway : ∀ p, P p → ¬ q ++ [i] <+: p →
      descend child m' root p = descend child m root p := by
    intro p hp hNot
    apply descend_congr
    intro q' j hq' g hg
    have hP' : P q' := hPrefix _ _ ((List.prefix_append q' [j]).trans hq') hp
    apply hOther
    · rintro rfl
      exact hFresh q' hP' hg
    · rintro ⟨rfl, rfl⟩
      exact hNot (hTree q' q g hP' hq hg hf ▸ hq')
  have hqq : descend child m' root q = some f := by
    rw [hAway q hq, hf]
    intro h
    have := h.length_le
    simp at this
  have hNew : descend child m' root (q ++ [i]) = some ν := by
    rw [descend_snoc hqq, hSet, hChild]
  by_cases hThrough : q ++ [i] <+: p
  · obtain ⟨r, rfl⟩ := hThrough
    cases r with
    | nil => simp [hNew]
    | cons j r =>
        have hDj : D j := hIdx _ hp j (by simp)
        have hNe : q ++ [i] ++ j :: r ≠ q ++ [i] := by simp
        rw [if_neg hNe, descend_append, hNew]
        have hOld : descend child m root (q ++ [i] ++ j :: r) = none := by
          rw [descend_append, descend_snoc hf, hNone]
          rfl
        rw [hOld]
        simp [descend, hClear j hDj, hEmpty]
  · rw [hAway p hp hThrough, if_neg]
    rintro rfl
    exact hThrough (List.prefix_refl _)

/-- The slots after a graft: the new node is clear, its entry is set, all others are as before. -/
theorem slot_graft [DecidableEq I] (hp : P p) (hj : D j) :
    slot child m' root p j =
      if p = q ++ [i] then some z
      else if p = q ∧ j = i then some e
      else slot child m root p j := by
  unfold slot
  rw [descend_graft hPrefix hTree hq hqi hf hNone hFresh hSet hChild hClear hEmpty hOther hIdx hp]
  by_cases hNew : p = q ++ [i]
  · simp [hNew, hClear j hj]
  · rw [if_neg hNew, if_neg hNew]
    cases hg : descend child m root p with
    | none =>
        have hNe : ¬ (p = q ∧ j = i) := by
          rintro ⟨rfl, -⟩
          rw [hg] at hf
          cases hf
        rw [if_neg hNe]
        rfl
    | some g =>
        simp only [Option.map_some]
        by_cases hpq : p = q ∧ j = i
        · obtain ⟨rfl, rfl⟩ := hpq
          rw [hg, Option.some.injEq] at hf
          subst hf
          simp [hSet]
        · rw [if_neg hpq, hOther]
          · rintro rfl
            exact hFresh p hp hg
          · rintro ⟨rfl, rfl⟩
            exact hpq ⟨hTree p q g hp hq hg hf, rfl⟩

/-- A graft keeps the tree a tree. -/
theorem isTree_graft [DecidableEq I] : IsTree child P m' root := by
  intro p p' g hp hp' hg hg'
  have hD := fun r (hr : P r) =>
    descend_graft hPrefix hTree hq hqi hf hNone hFresh hSet hChild hClear hEmpty hOther hIdx
      (p := r) hr
  rw [hD p hp] at hg
  rw [hD p' hp'] at hg'
  split at hg
  · split at hg'
    · rename_i h h'
      rw [h, h']
    · rw [Option.some.injEq] at hg
      subst hg
      exact absurd hg' (hFresh p' hp')
  · split at hg'
    · rw [Option.some.injEq] at hg'
      subst hg'
      exact absurd hg (hFresh p hp)
    · exact hTree p p' g hp hp' hg hg'

end Graft

end RadixTable
