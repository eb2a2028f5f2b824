import Mathlib.Tactic

/-!
# Lists of records with distinct keys

A linked list of records is kept as a list whose records differ in a key, such as their address.
Records are then found, changed and taken out by key, and each of these means one record.
-/

namespace KeyedList

variable {α β : Type*} {key : α → β} {l : List α} {x y : α}

theorem eq_of_key (hNodup : (l.map key).Nodup) (hx : x ∈ l) (hy : y ∈ l) (hKey : key x = key y) :
    x = y :=
  List.inj_on_of_nodup_map hNodup hx hy hKey

theorem nodup_eraseP {p : α → Bool} (hNodup : (l.map key).Nodup) :
    ((l.eraseP p).map key).Nodup :=
  (List.eraseP_sublist.map key).nodup hNodup

theorem nodup_append (hNodup : (l.map key).Nodup) (hNew : ∀ y ∈ l, key y ≠ key x) :
    ((l ++ [x]).map key).Nodup := by
  rw [List.map_append, List.nodup_append]
  refine ⟨hNodup, by simp, ?_⟩
  intro a ha b hb
  obtain ⟨y, hy, rfl⟩ := List.mem_map.mp ha
  rw [List.map_singleton, List.mem_singleton] at hb
  rw [hb]
  exact hNew y hy

variable [DecidableEq β]

/-- Finding by key finds the one record with the key. -/
theorem find_key_eq_some (hNodup : (l.map key).Nodup) {k : β} :
    l.find? (fun y => key y == k) = some x ↔ x ∈ l ∧ key x = k := by
  constructor
  · intro h
    exact ⟨List.mem_of_find?_eq_some h, by simpa using List.find?_some h⟩
  · rintro ⟨hx, rfl⟩
    obtain ⟨y, hy⟩ : ∃ y, l.find? (fun y => key y == key x) = some y :=
      Option.isSome_iff_exists.mp (List.find?_isSome.mpr ⟨x, hx, by simp⟩)
    have hKey : key y = key x := by simpa using List.find?_some hy
    rw [hy, eq_of_key hNodup (List.mem_of_find?_eq_some hy) hx hKey]

/-- Taking out by key takes out the one record with the key. -/
theorem eraseP_key_perm (hNodup : (l.map key).Nodup) (hx : x ∈ l) :
    l.Perm (x :: l.eraseP fun y => key y == key x) := by
  obtain ⟨y, l1, l2, -, hKey, hl, hErase⟩ :=
    List.exists_of_eraseP (p := fun y => key y == key x) hx (by simp)
  have hy : y = x :=
    eq_of_key hNodup (by simp [hl]) hx (by simpa using hKey)
  rw [hErase, ← hy]
  conv_lhs => rw [hl]
  exact List.perm_middle

theorem mem_eraseP_key (hNodup : (l.map key).Nodup) (hx : x ∈ l) :
    y ∈ l.eraseP (fun y => key y == key x) ↔ y ∈ l ∧ key y ≠ key x := by
  by_cases hKey : key y = key x
  · refine iff_of_false (fun hy => ?_) fun h => h.2 hKey
    have hPerm := (eraseP_key_perm hNodup hx).map key
    have hNew := hPerm.nodup_iff.mp hNodup
    rw [List.map_cons, List.nodup_cons] at hNew
    exact hNew.1 (List.mem_map.mpr ⟨y, hy, hKey⟩)
  · rw [List.mem_eraseP_of_neg (by simpa using hKey)]
    exact ⟨fun hy => ⟨hy, hKey⟩, And.left⟩

end KeyedList
