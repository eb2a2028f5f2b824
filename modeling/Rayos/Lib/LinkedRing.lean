import Mathlib.Tactic

/-!
# Rings of doubly linked nodes

A ring is a list that is stored in the nodes themselves: a head, and from it on each node has links to the
next one and to the previous one, until the head is reached again.  `Links.Ring` says which list a head
stands for.

* `Ring.insertLast` — a node is linked in before the head;
* `Ring.removeFirst` — the first node is linked out;
* `Ring.congr` — a ring depends on the links of its own nodes only.
-/

/-- The two links of every node. -/
structure Links (ι : Type) where
  next : ι → ι
  prev : ι → ι

namespace Links

variable {ι : Type}

/-- From `a` the nodes of the list follow, and then `b`. -/
def Seg (L : Links ι) (a : ι) : List ι → ι → Prop
  | [], b => L.next a = b ∧ L.prev b = a
  | x :: l, b => L.next a = x ∧ L.prev x = a ∧ L.Seg x l b

/-- The list that is linked to a head. -/
structure Ring (L : Links ι) (head : ι) (l : List ι) : Prop where
  seg : L.Seg head l head
  nodup : (head :: l).Nodup

variable {L L' : Links ι} {a b x head : ι} {l : List ι}

theorem Seg.congr (h : L.Seg a l b) (hNext : ∀ y ∈ a :: l, L'.next y = L.next y)
    (hPrev : ∀ y ∈ l ++ [b], L'.prev y = L.prev y) : L'.Seg a l b := by
  induction l generalizing a with
  | nil => exact ⟨(hNext a (by simp)).trans h.1, (hPrev b (by simp)).trans h.2⟩
  | cons x l ih =>
      obtain ⟨hA, hX, hRest⟩ := h
      refine ⟨(hNext a (by simp)).trans hA, (hPrev x (by simp)).trans hX, ih hRest ?_ ?_⟩
      · exact fun y hy => hNext y (List.mem_cons_of_mem _ hy)
      · exact fun y hy => hPrev y (List.mem_cons_of_mem _ hy)

/-- A ring depends on the links of its nodes only. -/
theorem Ring.congr (h : L.Ring head l) (hNext : ∀ y ∈ head :: l, L'.next y = L.next y)
    (hPrev : ∀ y ∈ head :: l, L'.prev y = L.prev y) : L'.Ring head l := by
  refine ⟨h.seg.congr hNext fun y hy => hPrev y ?_, h.nodup⟩
  rcases List.mem_append.mp hy with hIn | hHead
  · exact List.mem_cons_of_mem _ hIn
  · rw [List.mem_singleton.mp hHead]
    exact List.mem_cons_self

/-- The node before the end. -/
theorem Seg.prev_mem (h : L.Seg a l b) : L.prev b ∈ a :: l := by
  induction l generalizing a with
  | nil =>
      rw [h.2]
      exact List.mem_cons_self
  | cons x l ih => exact List.mem_cons_of_mem _ (ih h.2.2)

theorem Ring.next_head (h : L.Ring head l) : L.next head = l.headD head := by
  cases l with
  | nil => exact h.seg.1
  | cons x l => exact h.seg.1

/-- The neighbours of the first node, and it is not its own neighbour. -/
theorem Ring.neighbours (h : L.Ring head (x :: l)) :
    L.prev x = head ∧ L.next x ∈ head :: l ∧ x ≠ L.next x := by
  obtain ⟨⟨-, hPrev, hRest⟩, hNodup⟩ := h
  have hMem : L.next x ∈ head :: l := by
    cases l with
    | nil =>
        rw [hRest.1]
        exact List.mem_cons_self
    | cons y l =>
        rw [hRest.1]
        exact List.mem_cons_of_mem _ List.mem_cons_self
  refine ⟨hPrev, hMem, fun hEq => ?_⟩
  rw [← hEq] at hMem
  obtain ⟨hHead, hTail⟩ := List.nodup_cons.mp hNodup
  rcases List.mem_cons.mp hMem with hSame | hIn
  · exact hHead (hSame ▸ List.mem_cons_self)
  · exact (List.nodup_cons.mp hTail).1 hIn

/-- The head refers to itself exactly when nothing is linked. -/
theorem Ring.next_eq_iff (h : L.Ring head l) : L.next head = head ↔ l = [] := by
  rw [h.next_head]
  cases l with
  | nil => exact ⟨fun _ => rfl, fun _ => rfl⟩
  | cons x l =>
      have hNe : x ≠ head := fun hEq => (List.nodup_cons.mp h.nodup).1 (hEq ▸ List.mem_cons_self)
      exact ⟨fun hEq => absurd hEq hNe, nofun⟩

/-! ## Changes -/

variable [DecidableEq ι]

def setNext (L : Links ι) (x y : ι) : Links ι := { L with next := Function.update L.next x y }

def setPrev (L : Links ι) (x y : ι) : Links ι := { L with prev := Function.update L.prev x y }

@[simp] theorem setNext_next (L : Links ι) (x y : ι) : (L.setNext x y).next = Function.update L.next x y := rfl

@[simp] theorem setNext_prev (L : Links ι) (x y : ι) : (L.setNext x y).prev = L.prev := rfl

@[simp] theorem setPrev_next (L : Links ι) (x y : ι) : (L.setPrev x y).next = L.next := rfl

@[simp] theorem setPrev_prev (L : Links ι) (x y : ι) : (L.setPrev x y).prev = Function.update L.prev x y := rfl

/-- The node `x` linked in between `prev b` and `b`. -/
def insertBefore (L : Links ι) (x b : ι) : Links ι :=
  (((L.setNext x b).setPrev x (L.prev b)).setNext (L.prev b) x).setPrev b x

theorem Seg.insertBefore (h : L.Seg a l b) (hNodup : (a :: l).Nodup) (hb : b ∉ l) (hx : x ∉ a :: l)
    (hxb : x ≠ b) : (L.insertBefore x b).Seg a (l ++ [x]) b := by
  induction l generalizing a with
  | nil =>
      -- `a` is the node before `b`
      have hxa : x ≠ a := fun hEq => hx (hEq ▸ List.mem_cons_self)
      have hPrev : L.prev b = a := h.2
      simp [Seg, Links.insertBefore, hPrev, hxa, hxb]
  | cons y l ih =>
      obtain ⟨hA, hY, hRest⟩ := h
      obtain ⟨hNotIn, hNodup'⟩ := List.nodup_cons.mp hNodup
      have hxa : a ≠ x := fun hEq => hx (hEq ▸ List.mem_cons_self)
      have hxy : y ≠ x := fun hEq => hx (hEq ▸ List.mem_cons_of_mem _ List.mem_cons_self)
      have hyb : y ≠ b := fun hEq => hb (hEq ▸ List.mem_cons_self)
      have hap : a ≠ L.prev b := fun hEq => hNotIn (hEq ▸ hRest.prev_mem)
      refine ⟨?_, ?_, ih hRest hNodup' (fun hIn => hb (List.mem_cons_of_mem _ hIn))
        fun hIn => hx (List.mem_cons_of_mem _ hIn)⟩
      · simp [Links.insertBefore, hxa, hap, hA]
      · simp [Links.insertBefore, hxy, hyb, hY]

/-- A node that is linked in before the head becomes the last one. -/
theorem Ring.insertLast (h : L.Ring head l) (hx : x ∉ head :: l) :
    (L.insertBefore x head).Ring head (l ++ [x]) := by
  have hHead : head ∉ l := (List.nodup_cons.mp h.nodup).1
  refine ⟨h.seg.insertBefore h.nodup hHead hx fun hEq => hx (hEq ▸ List.mem_cons_self), ?_⟩
  rw [← List.cons_append]
  exact List.nodup_append.mpr ⟨h.nodup, List.nodup_singleton _, fun y hy z hz hEq => hx (by
    rw [← List.mem_singleton.mp hz, ← hEq]
    exact hy)⟩

/-- The node `x` linked out. -/
def unlink (L : Links ι) (x : ι) : Links ι :=
  let L := L.setPrev (L.next x) (L.prev x)
  L.setNext (L.prev x) (L.next x)

/-- The first node is linked out. -/
theorem Ring.removeFirst (h : L.Ring head (x :: l)) : (L.unlink x).Ring head l := by
  obtain ⟨⟨hHead, hPrev, hRest⟩, hNodup⟩ := h
  obtain ⟨hHeadOut, hNodup'⟩ := List.nodup_cons.mp hNodup
  obtain ⟨hxOut, hNodupL⟩ := List.nodup_cons.mp hNodup'
  have hxHead : x ≠ head := fun hEq => hHeadOut (hEq ▸ List.mem_cons_self)
  have hHeadL : head ∉ l := fun hIn => hHeadOut (List.mem_cons_of_mem _ hIn)
  refine ⟨?_, List.nodup_cons.mpr ⟨hHeadL, hNodupL⟩⟩
  cases l with
  | nil =>
      -- the head alone is left
      have hNext : L.next x = head := hRest.1
      simp [Seg, Links.unlink, hNext, hPrev, hxHead]
  | cons y l =>
      obtain ⟨hNext, hY, hTail⟩ := hRest
      have hxy : x ≠ y := fun hEq => hxOut (hEq ▸ List.mem_cons_self)
      have hyHead : y ≠ head := fun hEq => hHeadL (hEq ▸ List.mem_cons_self)
      have hyOut : y ∉ l := (List.nodup_cons.mp hNodupL).1
      have hEq : L.unlink x = (L.setPrev y head).setNext head y := by
        simp [Links.unlink, hNext, hPrev, hxy]
      rw [hEq]
      refine ⟨by simp, by simp, hTail.congr (fun z hz => ?_) fun z hz => ?_⟩
      · have hz' : z ≠ head := fun hSame => hHeadL (hSame ▸ hz)
        simp [hz']
      · have hz' : z ≠ y := by
          rintro rfl
          rcases List.mem_append.mp hz with hIn | hIn
          · exact hyOut hIn
          · exact hyHead (List.mem_singleton.mp hIn)
        simp [hz']

/-- Linking in touches the new node, the head and the node before it. -/
theorem insertBefore_of_ne {y : ι} (hx : y ≠ x) (hb : y ≠ b) (hPrev : y ≠ L.prev b) :
    (L.insertBefore x b).next y = L.next y ∧ (L.insertBefore x b).prev y = L.prev y := by
  simp [Links.insertBefore, hx, hb, hPrev]

/-- Linking out touches the neighbours. -/
theorem unlink_of_ne {y : ι} (hNext : y ≠ L.next x) (hPrev : y ≠ L.prev x) (hSelf : x ≠ L.next x) :
    (L.unlink x).next y = L.next y ∧ (L.unlink x).prev y = L.prev y := by
  simp [Links.unlink, hNext, hPrev, hSelf]

end Links
