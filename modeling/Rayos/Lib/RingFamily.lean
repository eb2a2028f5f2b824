import Rayos.Lib.LinkedRing

/-!
# Families of rings

Any number of rings that share no node, by their heads.  Linking a node in or out changes the list of one head, and
the others keep theirs.

* `Ring.rotate` — every node of a ring is the head of the same ring;
* `Ring.remove`, `Ring.insertFirst` — what the rings of `LinkedRing` lack: a node from anywhere, one in front;
* `Rings.update` — one list changes, and no link outside of its nodes;
* `Ring.walk` — following the links visits the list in order.
-/

namespace Links

variable {ι : Type} {L L' : Links ι} {a b x head : ι} {l l₁ l₂ : List ι}

theorem Seg.append_iff : L.Seg a (l₁ ++ x :: l₂) b ↔ L.Seg a l₁ x ∧ L.Seg x l₂ b := by
  induction l₁ generalizing a with
  | nil =>
      constructor
      · rintro ⟨hNext, hPrev, hRest⟩
        exact ⟨⟨hNext, hPrev⟩, hRest⟩
      · rintro ⟨⟨hNext, hPrev⟩, hRest⟩
        exact ⟨hNext, hPrev, hRest⟩
  | cons y l₁ ih =>
      rw [List.cons_append, Seg, Seg, ih]
      constructor
      · rintro ⟨hNext, hPrev, hFirst, hRest⟩
        exact ⟨⟨hNext, hPrev, hFirst⟩, hRest⟩
      · rintro ⟨⟨hNext, hPrev, hFirst⟩, hRest⟩
        exact ⟨hNext, hPrev, hFirst, hRest⟩

/-- A ring as one of its nodes sees it. -/
theorem Ring.rotate (h : L.Ring head (l₁ ++ x :: l₂)) : L.Ring x (l₂ ++ head :: l₁) := by
  obtain ⟨hFirst, hRest⟩ := Seg.append_iff.mp h.seg
  refine ⟨Seg.append_iff.mpr ⟨hRest, hFirst⟩, ?_⟩
  have hPerm : (head :: (l₁ ++ x :: l₂)).Perm (x :: (l₂ ++ head :: l₁)) := by
    rw [← List.cons_append, ← List.cons_append]
    exact List.perm_append_comm
  exact hPerm.nodup_iff.mp h.nodup

/-- The neighbours of a node belong to the ring, and it is not its own neighbour. -/
theorem Ring.neighbours_of_mem (h : L.Ring head l) (hx : x ∈ l) :
    L.next x ∈ head :: l ∧ L.prev x ∈ head :: l ∧ x ≠ L.next x := by
  obtain ⟨l₁, l₂, rfl⟩ := List.append_of_mem hx
  have hFrom := h.rotate
  have hPerm : (x :: (l₂ ++ head :: l₁)).Perm (head :: (l₁ ++ x :: l₂)) := by
    rw [← List.cons_append, ← List.cons_append]
    exact List.perm_append_comm
  have hNext : L.next x ∈ l₂ ++ head :: l₁ := by
    rw [hFrom.next_head]
    cases l₂ with
    | nil => exact List.mem_cons_self
    | cons y l₂ => exact List.mem_cons_self
  refine ⟨hPerm.mem_iff.mp (List.mem_cons_of_mem x hNext), hPerm.mem_iff.mp hFrom.seg.prev_mem, fun hEq => ?_⟩
  exact (List.nodup_cons.mp hFrom.nodup).1 (hEq ▸ hNext)

section Walk

variable [DecidableEq ι]

/-- Following the links from `x` until the head is reached; `none` when the fuel does not last. -/
def walk (L : Links ι) (head : ι) : Nat → ι → Option (List ι)
  | 0, _ => none
  | fuel + 1, x => if x = head then some [] else (walk L head fuel (L.next x)).map (x :: ·)

theorem Seg.walk (h : L.Seg a l head) (hHead : head ∉ l) :
    ∀ fuel, l.length < fuel → L.walk head fuel (L.next a) = some l := by
  induction l generalizing a with
  | nil =>
      intro fuel hFuel
      obtain ⟨fuel, rfl⟩ := Nat.exists_eq_add_one_of_ne_zero (Nat.ne_of_gt hFuel)
      rw [Links.walk, if_pos h.1]
  | cons x l ih =>
      intro fuel hFuel
      obtain ⟨hNext, -, hRest⟩ := h
      rw [List.length_cons] at hFuel
      obtain ⟨fuel, rfl⟩ := Nat.exists_eq_add_one_of_ne_zero (show fuel ≠ 0 by omega)
      have hx : x ≠ head := fun hEq => hHead (hEq ▸ List.mem_cons_self)
      rw [Links.walk, hNext, if_neg hx, ih hRest (fun hIn => hHead (List.mem_cons_of_mem x hIn)) fuel (by omega)]
      rfl

/-- The walk from the first node of a ring ends, and visits the list. -/
theorem Ring.walk (h : L.Ring head l) {fuel : Nat} (hFuel : l.length < fuel) :
    L.walk head fuel (L.next head) = some l :=
  h.seg.walk (List.nodup_cons.mp h.nodup).1 fuel hFuel

end Walk

/-! ## Changes of one ring -/

section Changes

variable [DecidableEq ι]

/-- A node is linked out, wherever it is. -/
theorem Ring.remove (h : L.Ring head (l₁ ++ x :: l₂)) : (L.unlink x).Ring head (l₁ ++ l₂) := by
  rcases List.eq_nil_or_concat l₁ with rfl | ⟨l₁, p, rfl⟩
  · exact h.removeFirst
  · -- the node before it sees it as its first one
    rw [List.concat_eq_append, List.append_assoc, List.singleton_append] at h ⊢
    have hFirst : (L.unlink x).Ring p (l₂ ++ head :: l₁) := h.rotate.removeFirst
    exact hFirst.rotate

/-- The node `x` linked in between `a` and `next a`. -/
def insertAfter (L : Links ι) (x a : ι) : Links ι :=
  let L := (L.setNext x (L.next a)).setPrev x a
  (L.setPrev (L.next a) x).setNext a x

/-- A node that is linked in behind the head becomes the first one. -/
theorem Ring.insertFirst (h : L.Ring head l) (hx : x ∉ head :: l) : (L.insertAfter x head).Ring head (x :: l) := by
  have hxHead : head ≠ x := fun hEq => hx (hEq ▸ List.mem_cons_self)
  have hxl : x ∉ l := fun hIn => hx (List.mem_cons_of_mem head hIn)
  obtain ⟨hHead, hNodup⟩ := List.nodup_cons.mp h.nodup
  refine ⟨?_, List.nodup_cons.mpr ⟨?_, List.nodup_cons.mpr ⟨hxl, hNodup⟩⟩⟩
  · cases l with
    | nil =>
        have hNext : L.next head = head := h.seg.1
        simp [Seg, Links.insertAfter, hNext, hxHead, hxHead.symm]
    | cons y l =>
        obtain ⟨hNext, hPrev, hRest⟩ := h.seg
        have hxy : x ≠ y := fun hEq => hxl (hEq ▸ List.mem_cons_self)
        have hyHead : y ≠ head := fun hEq => hHead (hEq ▸ List.mem_cons_self)
        have hyl := (List.nodup_cons.mp hNodup).1
        have hEq : L.insertAfter x head = (((L.setNext x y).setPrev x head).setPrev y x).setNext head x := by
          simp [Links.insertAfter, hNext, hxHead]
        rw [hEq]
        -- the links behind the old first node are as before
        refine ⟨by simp, by simp [hxy], by simp [hxHead.symm], by simp, hRest.congr ?_ ?_⟩
        · intro z hz
          have hzHead : z ≠ head := fun hSame => hHead (hSame ▸ hz)
          have hzx : z ≠ x := fun hSame => hxl (hSame ▸ hz)
          simp [hzHead, hzx]
        · intro z hz
          have hzy : z ≠ y := by
            rintro rfl
            rcases List.mem_append.mp hz with hIn | hIn
            · exact hyl hIn
            · exact hyHead (List.mem_singleton.mp hIn)
          have hzx : z ≠ x := by
            rintro rfl
            rcases List.mem_append.mp hz with hIn | hIn
            · exact hxl (List.mem_cons_of_mem y hIn)
            · exact hxHead (List.mem_singleton.mp hIn).symm
          simp [hzy, hzx]
  · intro hIn
    rcases List.mem_cons.mp hIn with hEq | hIn
    · exact hxHead hEq
    · exact hHead hIn

/-- Linking in behind `a` touches the new node, `a` and the node that was behind it. -/
theorem insertAfter_of_ne {y : ι} (hxa : x ≠ a) (hx : y ≠ x) (ha : y ≠ a) (hNext : y ≠ L.next a) :
    (L.insertAfter x a).next y = L.next y ∧ (L.insertAfter x a).prev y = L.prev y := by
  simp [Links.insertAfter, hx, ha, hNext, hxa.symm]

end Changes

/-! ## Several rings -/

/-- The rings of a family of heads; no two share a node. -/
structure Rings (L : Links ι) (lists : ι → Option (List ι)) : Prop where
  ring : ∀ {head l}, lists head = some l → L.Ring head l
  apart : ∀ {head head' l l'}, lists head = some l → lists head' = some l' → head ≠ head' →
    List.Disjoint (head :: l) (head' :: l')

/-- The node is neither a head nor in a list. -/
def Unlinked (lists : ι → Option (List ι)) (x : ι) : Prop :=
  ∀ head l, lists head = some l → x ∉ head :: l

namespace Rings

variable {lists : ι → Option (List ι)}

/-- What may be touched when a node is linked to a list: the list and the node. -/
theorem others_of_unlinked (h : L.Rings lists) (hList : lists head = some l) (hx : Unlinked lists x) {head' : ι}
    {l' : List ι} (hNe : head' ≠ head) (hOther : lists head' = some l') :
    List.Disjoint (head' :: l') (x :: head :: l) := by
  intro y hy hIn
  rcases List.mem_cons.mp hIn with rfl | hIn
  · exact hx head' l' hOther hy
  · exact h.apart hOther hList hNe hy hIn

variable [DecidableEq ι]

/-- One list changes: the new one is made of the nodes `touched`, no other list has these, and the links of all other
nodes are as before. -/
theorem update (h : L.Rings lists) {touched : List ι} (hRing : L'.Ring head l)
    (hNodes : ∀ y ∈ head :: l, y ∈ touched)
    (hOthers : ∀ head' l', head' ≠ head → lists head' = some l' → List.Disjoint (head' :: l') touched)
    (hSame : ∀ y, y ∉ touched → L'.next y = L.next y ∧ L'.prev y = L.prev y) :
    L'.Rings (Function.update lists head (some l)) := by
  have hOther : ∀ {head' l'}, head' ≠ head → Function.update lists head (some l) head' = some l' →
      lists head' = some l' := by
    intro head' l' hNe hList
    rw [Function.update_of_ne hNe] at hList
    exact hList
  have hSelf : ∀ {l'}, Function.update lists head (some l) head = some l' → l' = l := by
    intro l' hList
    rw [Function.update_self] at hList
    exact (Option.some.inj hList).symm
  constructor
  · intro head' l' hList
    by_cases hEq : head' = head
    · subst hEq
      rw [hSelf hList]
      exact hRing
    · have hOld := hOther hEq hList
      have hOut : ∀ y ∈ head' :: l', y ∉ touched := fun y hy hIn => hOthers head' l' hEq hOld hy hIn
      exact (h.ring hOld).congr (fun y hy => (hSame y (hOut y hy)).1) fun y hy => (hSame y (hOut y hy)).2
  · intro head₁ head₂ k₁ k₂ hList₁ hList₂ hNe
    by_cases hEq₁ : head₁ = head
    · subst hEq₁
      rw [hSelf hList₁]
      have hOld := hOther hNe.symm hList₂
      exact fun y hy hIn => hOthers head₂ k₂ hNe.symm hOld hIn (hNodes y hy)
    · by_cases hEq₂ : head₂ = head
      · subst hEq₂
        rw [hSelf hList₂]
        have hOld := hOther hEq₁ hList₁
        exact fun y hy hIn => hOthers head₁ k₁ hEq₁ hOld hy (hNodes y hIn)
      · exact h.apart (hOther hEq₁ hList₁) (hOther hEq₂ hList₂) hNe

theorem insertFirst (h : L.Rings lists) (hList : lists head = some l) (hx : Unlinked lists x) :
    (L.insertAfter x head).Rings (Function.update lists head (some (x :: l))) := by
  have hRing := h.ring hList
  have hOut := hx head l hList
  refine h.update (hRing.insertFirst hOut) (fun y hy => ?_)
    (fun head' l' hNe hOther => h.others_of_unlinked hList hx hNe hOther) fun y hy => ?_
  · exact (List.Perm.swap x head l).mem_iff.mp hy
  · have hNext : L.next head ∈ head :: l := by
      rw [hRing.next_head]
      cases l with
      | nil => exact List.mem_cons_self
      | cons z l => exact List.mem_cons_of_mem head List.mem_cons_self
    obtain ⟨hyx, hyList⟩ := List.ne_and_not_mem_of_not_mem_cons hy
    exact insertAfter_of_ne (fun hEq => hOut (hEq ▸ List.mem_cons_self)) hyx
      (fun hEq => hyList (hEq ▸ List.mem_cons_self)) fun hEq => hyList (hEq ▸ hNext)

theorem insertLast (h : L.Rings lists) (hList : lists head = some l) (hx : Unlinked lists x) :
    (L.insertBefore x head).Rings (Function.update lists head (some (l ++ [x]))) := by
  have hRing := h.ring hList
  have hOut := hx head l hList
  refine h.update (hRing.insertLast hOut) (fun y hy => ?_)
    (fun head' l' hNe hOther => h.others_of_unlinked hList hx hNe hOther) fun y hy => ?_
  · rw [← List.cons_append, List.mem_append, List.mem_singleton] at hy
    exact List.mem_cons.mpr hy.symm
  · have hPrev : L.prev head ∈ head :: l := hRing.seg.prev_mem
    obtain ⟨hyx, hyList⟩ := List.ne_and_not_mem_of_not_mem_cons hy
    exact insertBefore_of_ne hyx (fun hEq => hyList (hEq ▸ List.mem_cons_self)) fun hEq => hyList (hEq ▸ hPrev)

theorem remove (h : L.Rings lists) (hList : lists head = some l) (hx : x ∈ l) :
    (L.unlink x).Rings (Function.update lists head (some (l.erase x))) := by
  have hRing := h.ring hList
  obtain ⟨hNext, hPrev, hSelf⟩ := hRing.neighbours_of_mem hx
  obtain ⟨l₁, l₂, rfl⟩ := List.append_of_mem hx
  have hFirst : x ∉ l₁ := by
    have hNodup := (List.nodup_cons.mp hRing.nodup).2
    exact fun hIn => (List.nodup_append.mp hNodup).2.2 x hIn x List.mem_cons_self rfl
  have hErase : (l₁ ++ x :: l₂).erase x = l₁ ++ l₂ := by
    rw [List.erase_append_right _ hFirst, List.erase_cons_head]
  rw [hErase]
  refine h.update hRing.remove (fun y hy => ?_)
    (fun head' l' hNe hOther y hy hIn => h.apart hOther hList hNe hy hIn) fun y hy => ?_
  · rcases List.mem_cons.mp hy with rfl | hIn
    · exact List.mem_cons_self
    · refine List.mem_cons_of_mem head ?_
      rw [List.mem_append] at hIn ⊢
      exact hIn.imp_right (List.mem_cons_of_mem x)
  · exact unlink_of_ne (fun hEq => hy (hEq ▸ hNext)) (fun hEq => hy (hEq ▸ hPrev)) hSelf

/-- A node that belongs to no other list becomes a head with nothing linked to it. -/
theorem init (h : L.Rings lists) (hHead : ∀ head' l', head' ≠ head → lists head' = some l' → head ∉ head' :: l') :
    ((L.setPrev head head).setNext head head).Rings (Function.update lists head (some [])) := by
  refine h.update ⟨⟨by simp, by simp⟩, List.nodup_singleton head⟩ (fun y hy => hy)
    (fun head' l' hNe hOther y hy hIn => ?_) fun y hy => ?_
  · rw [List.mem_singleton.mp hIn] at hy
    exact hHead head' l' hNe hOther hy
  · have hNe : y ≠ head := fun hEq => hy (hEq ▸ List.mem_cons_self)
    simp [hNe]

/-- A node that has been linked out is in no list. -/
theorem unlinked_of_removed (h : L.Rings lists) (hList : lists head = some l) (hx : x ∈ l) :
    Unlinked (Function.update lists head (some (l.erase x))) x := by
  intro head' l' hList' hIn
  have hNodup := List.nodup_cons.mp (h.ring hList).nodup
  by_cases hEq : head' = head
  · subst hEq
    rw [Function.update_self] at hList'
    obtain rfl := Option.some.inj hList'
    rcases List.mem_cons.mp hIn with hHead | hIn
    · exact hNodup.1 (hHead ▸ hx)
    · exact hNodup.2.not_mem_erase hIn
  · rw [Function.update_of_ne hEq] at hList'
    exact h.apart hList' hList hEq hIn (List.mem_cons_of_mem head hx)

end Rings

end Links
