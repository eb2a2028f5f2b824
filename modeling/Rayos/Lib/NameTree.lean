import Mathlib.Tactic

/-!
# Walks along names

`child x b` is the node called `b` below the node `x`, where there is one.  `follow` walks along a list of
names, and `Through` says that a walk passes a node.  The lemmas compare the walks in two such structures:

* `follow_mono`, `follow_back` — nodes have been added;
* `Relinks` — nodes have been taken out or moved, and the walk meets them (`follow_none`) or does not
  (`follow_kept`, `follow_eq`);
* `follow_eq_of_closed` — nothing has changed from a node on downwards.
-/

namespace NameTree

variable {α β : Type*} {child child' : α → β → Option α}

/-- The node that a walk along the names ends at. -/
def follow (child : α → β → Option α) : α → List β → Option α
  | x, [] => some x
  | x, b :: bs => (child x b).bind fun y => follow child y bs

@[simp] theorem follow_nil (x : α) : follow child x [] = some x := rfl

theorem follow_cons (x : α) (b : β) (bs : List β) :
    follow child x (b :: bs) = (child x b).bind fun y => follow child y bs := rfl

theorem follow_append (x : α) (bs cs : List β) :
    follow child x (bs ++ cs) = (follow child x bs).bind fun y => follow child y cs := by
  induction bs generalizing x with
  | nil => rfl
  | cons b bs ih =>
      rw [List.cons_append, follow_cons, follow_cons, Option.bind_assoc]
      exact congrArg _ (funext ih)

theorem follow_append_of_some {x y : α} {bs : List β} (h : follow child x bs = some y) (cs : List β) :
    follow child x (bs ++ cs) = follow child y cs := by
  rw [follow_append, h, Option.bind_some]

theorem follow_snoc {x y : α} {bs : List β} (h : follow child x bs = some y) (b : β) :
    follow child x (bs ++ [b]) = child y b := by
  rw [follow_append_of_some h, follow_cons]
  cases child y b <;> rfl

/-- A walk stays in a set that it does not leave. -/
theorem follow_closed {inside : α → Prop}
    (hClosed : ∀ x b y, inside x → child x b = some y → inside y) {x y : α} {bs : List β} (hx : inside x)
    (h : follow child x bs = some y) : inside y := by
  induction bs generalizing x with
  | nil =>
      cases h
      exact hx
  | cons b bs ih =>
      rw [follow_cons, Option.bind_eq_some_iff] at h
      obtain ⟨z, hz, hRest⟩ := h
      exact ih (hClosed x b z hx hz) hRest

/-! ## Walks that pass a node -/

/-- A walk along the names passes `z`. -/
def Through (child : α → β → Option α) (x : α) (bs : List β) (z : α) : Prop :=
  ∃ front, front <+: bs ∧ follow child x front = some z

theorem through_start (x : α) (bs : List β) : Through child x bs x := ⟨[], List.nil_prefix, rfl⟩

/-- After the first name the walk goes on at the child. -/
theorem Through.cons {x y z : α} {b : β} {bs : List β} (hy : child x b = some y)
    (h : Through child y bs z) : Through child x (b :: bs) z := by
  obtain ⟨front, hFront, hEnd⟩ := h
  refine ⟨b :: front, List.cons_prefix_cons.mpr ⟨rfl, hFront⟩, ?_⟩
  rw [follow_cons, hy]
  exact hEnd

/-! ## Nodes are added -/

/-- What is found is found where there is more. -/
theorem follow_mono (h : ∀ x b y, child x b = some y → child' x b = some y) {x y : α} {bs : List β}
    (hFollow : follow child x bs = some y) : follow child' x bs = some y := by
  induction bs generalizing x with
  | nil => exact hFollow
  | cons b bs ih =>
      rw [follow_cons, Option.bind_eq_some_iff] at hFollow
      obtain ⟨z, hz, hRest⟩ := hFollow
      rw [follow_cons, h x b z hz]
      exact ih hRest

/-- What is found by way of new nodes only is new: an old node was found before. -/
theorem follow_back {new : α → Prop}
    (h : ∀ x b y, child' x b = some y → new y ∨ (¬ new x ∧ child x b = some y)) {x y : α} {bs : List β}
    (hFollow : follow child' x bs = some y) (hOld : ¬ new y) : follow child x bs = some y := by
  induction bs generalizing x with
  | nil => exact hFollow
  | cons b bs ih =>
      rw [follow_cons, Option.bind_eq_some_iff] at hFollow
      obtain ⟨z, hz, hRest⟩ := hFollow
      rcases h x b z hz with hNew | ⟨-, hSame⟩
      · -- from a new node on, everything is new
        refine absurd (follow_closed (fun v c w hv hw => ?_) hNew hRest) hOld
        rcases h v c w hw with hNewW | ⟨hNotNew, -⟩
        · exact hNewW
        · exact absurd hv hNotNew
      · rw [follow_cons, hSame]
        exact ih hRest

/-! ## Nodes are taken out or moved -/

/-- The nodes in `out` have been taken off, and the links `new` have been made. -/
def Relinks (child child' : α → β → Option α) (out : α → Prop) (new : α → β → α → Prop) : Prop :=
  ∀ p b x, child' p b = some x ↔ new p b x ∨ (¬ out x ∧ child p b = some x)

section Relinks

variable {out : α → Prop} {new : α → β → α → Prop}

/-- A walk that does not meet what has been taken off is still there. -/
theorem Relinks.follow_kept (h : Relinks child child' out new) {x y : α} {bs : List β}
    (hFollow : follow child x bs = some y) (hAvoids : ∀ z, Through child x bs z → ¬ out z) :
    follow child' x bs = some y := by
  induction bs generalizing x with
  | nil => exact hFollow
  | cons b bs ih =>
      rw [follow_cons, Option.bind_eq_some_iff] at hFollow
      obtain ⟨z, hz, hRest⟩ := hFollow
      have hKept : ¬ out z := hAvoids z ((through_start z bs).cons hz)
      rw [follow_cons, (h x b z).mpr (Or.inr ⟨hKept, hz⟩)]
      exact ih hRest fun w hw => hAvoids w (hw.cons hz)

/-- A walk that meets neither what has been taken off nor what has been hung elsewhere ends as before. -/
theorem Relinks.follow_eq (h : Relinks child child' out new) {x : α} {bs : List β}
    (hOld : ∀ z, Through child x bs z → ¬ out z)
    (hNew : ∀ p b z, new p b z → ¬ Through child' x bs z) :
    follow child' x bs = follow child x bs := by
  induction bs generalizing x with
  | nil => rfl
  | cons b bs ih =>
      rw [follow_cons, follow_cons]
      cases hz : child x b with
      | some z =>
          have hKept : ¬ out z := hOld z ((through_start z bs).cons hz)
          have hz' := (h x b z).mpr (Or.inr ⟨hKept, hz⟩)
          rw [hz']
          exact ih (fun w hw => hOld w (hw.cons hz)) fun p c w hLink hw => hNew p c w hLink (hw.cons hz')
      | none =>
          cases hw : child' x b with
          | none => rfl
          | some w =>
              rcases (h x b w).mp hw with hLink | ⟨-, hSame⟩
              · exact absurd ((through_start w bs).cons hw) (hNew x b w hLink)
              · rw [hz] at hSame
                cases hSame

/-- A walk that has come to something taken off leads nowhere, if nothing else has got its name. -/
theorem Relinks.follow_none (h : Relinks child child' out new) {x p z : α} {front : List β} {b : β}
    (hFront : follow child x front = some p) (hAvoids : ∀ w, Through child x front w → ¬ out w)
    (hChild : child p b = some z) (hOut : out z) (hNew : ∀ w, ¬ new p b w) (rest : List β) :
    follow child' x (front ++ b :: rest) = none := by
  rw [follow_append_of_some (h.follow_kept hFront hAvoids), follow_cons]
  cases hw : child' p b with
  | none => rfl
  | some w =>
      rcases (h p b w).mp hw with hLink | ⟨hKept, hSame⟩
      · exact absurd hLink (hNew w)
      · rw [hChild] at hSame
        cases hSame
        exact absurd hOut hKept

end Relinks

/-- The last step of a walk that leads away from its start. -/
theorem follow_last {x z : α} {bs : List β} (h : follow child x bs = some z) (hne : z ≠ x) :
    ∃ front b p, bs = front ++ [b] ∧ follow child x front = some p ∧ child p b = some z := by
  rcases List.eq_nil_or_concat bs with rfl | ⟨front, b, rfl⟩
  · cases h
    exact absurd rfl hne
  · rw [List.concat_eq_append, follow_append, Option.bind_eq_some_iff] at h
    obtain ⟨p, hp, hLast⟩ := h
    rw [follow_cons, Option.bind_eq_some_iff] at hLast
    obtain ⟨w, hw, hEnd⟩ := hLast
    cases hEnd
    exact ⟨front, b, p, List.concat_eq_append, hp, hw⟩

/-- Nothing has changed at the nodes of a set that walks do not leave. -/
theorem follow_eq_of_closed {inside : α → Prop}
    (hClosed : ∀ x b y, inside x → child x b = some y → inside y)
    (hSame : ∀ x b, inside x → child' x b = child x b) {x : α} (hx : inside x) (bs : List β) :
    follow child' x bs = follow child x bs := by
  induction bs generalizing x with
  | nil => rfl
  | cons b bs ih =>
      rw [follow_cons, follow_cons, hSame x b hx]
      cases hy : child x b with
      | none => rfl
      | some y => exact ih (hClosed x b y hx hy)

end NameTree
