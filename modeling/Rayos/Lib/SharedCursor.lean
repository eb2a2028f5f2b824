import Mathlib.Tactic

/-!
# Several readers of one position

Readers take pieces of a list from one common position, which every read advances.  What a reader has
got is a beginning of the list, whatever the list is, exactly when nobody else has taken anything
(`begins_iff`).
-/

namespace SharedCursor

variable {ι α : Type*}

/-- The reads `(reader, length)` in their order, from the position `pos` on. -/
def reads (content : List α) : Nat → List (ι × Nat) → List (ι × List α)
  | _, [] => []
  | pos, (i, n) :: rest =>
      let got := (content.drop pos).take n
      (i, got) :: reads content (pos + got.length) rest

/-- The lengths that are asked for, added up. -/
def total (l : List (ι × Nat)) : Nat := (l.map Prod.snd).sum

theorem total_cons (r : ι × Nat) (l : List (ι × Nat)) : total (r :: l) = r.2 + total l := by
  simp [total]

theorem total_append (l l' : List (ι × Nat)) : total (l ++ l') = total l + total l' := by
  simp [total]

/-- As long as the list lasts, every read gets what it asks for. -/
theorem reads_append {content : List α} :
    ∀ (l l' : List (ι × Nat)) (pos : Nat), pos + total l ≤ content.length →
      reads content pos (l ++ l') = reads content pos l ++ reads content (pos + total l) l'
  | [], l', pos, _ => by simp [reads, total]
  | (i, n) :: l, l', pos, hRoom => by
      rw [total_cons] at hRoom
      have hLength : ((content.drop pos).take n).length = n := by
        rw [List.length_take, List.length_drop]
        omega
      rw [List.cons_append, reads, reads, hLength, List.cons_append,
        reads_append l l' (pos + n) (by omega), total_cons, Nat.add_assoc]

theorem take_append_take (l : List α) (n m : Nat) :
    l.take n ++ (l.drop (l.take n).length).take m = l.take (n + m) := by
  by_cases hn : n ≤ l.length
  · rw [List.length_take, Nat.min_eq_left hn, ← List.take_add]
  · rw [List.take_of_length_le (by omega : l.length ≤ n), List.drop_length, List.take_nil,
      List.append_nil, List.take_of_length_le (by omega)]

variable [DecidableEq ι]

/-- All that one reader has got. -/
def taken (i : ι) (out : List (ι × List α)) : List α :=
  (out.filter fun r => r.1 = i).flatMap Prod.snd

theorem taken_cons (i : ι) (r : ι × List α) (out : List (ι × List α)) :
    taken i (r :: out) = (if r.1 = i then r.2 else []) ++ taken i out := by
  by_cases hi : r.1 = i <;> simp [taken, hi]

theorem taken_append (i : ι) (out out' : List (ι × List α)) :
    taken i (out ++ out') = taken i out ++ taken i out' := by
  simp [taken]

/-- A reader that asks for nothing gets nothing. -/
theorem taken_of_zero {content : List α} {i : ι} :
    ∀ (l : List (ι × Nat)) (pos : Nat), (∀ r ∈ l, r.1 = i → r.2 = 0) →
      taken i (reads content pos l) = []
  | [], _, _ => rfl
  | (j, n) :: l, pos, hZero => by
      rw [reads, taken_cons, taken_of_zero l _ fun r hr => hZero r (List.mem_cons_of_mem _ hr),
        List.append_nil]
      split
      · rename_i hj
        have hn : n = 0 := hZero (j, n) List.mem_cons_self hj
        rw [hn, List.take_zero]
      · rfl

/-- When the others ask for nothing, a reader gets the list from the position on. -/
theorem taken_of_others_zero {content : List α} {i : ι} :
    ∀ (l : List (ι × Nat)) (pos : Nat), (∀ r ∈ l, r.1 ≠ i → r.2 = 0) →
      taken i (reads content pos l) = (content.drop pos).take (total l)
  | [], _, _ => by simp [reads, taken, total]
  | (j, n) :: l, pos, hZero => by
      rw [reads, taken_cons, total_cons,
        taken_of_others_zero l _ fun r hr => hZero r (List.mem_cons_of_mem _ hr), ← List.drop_drop]
      by_cases hj : j = i
      · rw [if_pos hj, take_append_take]
      · have hn : n = 0 := hZero (j, n) List.mem_cons_self hj
        simp [hj, hn]

/-- Reads that ask for nothing do not count. -/
theorem total_filter {i : ι} :
    ∀ l : List (ι × Nat), (∀ r ∈ l, r.1 ≠ i → r.2 = 0) →
      total l = total (l.filter fun r => r.1 = i)
  | [], _ => rfl
  | r :: l, hZero => by
      have ih := total_filter l fun r' hr' => hZero r' (List.mem_cons_of_mem _ hr')
      rw [total_cons, ih]
      by_cases hr : r.1 = i
      · rw [List.filter_cons_of_pos (by simpa using hr), total_cons]
      · rw [List.filter_cons_of_neg (by simpa using hr), hZero r List.mem_cons_self hr, Nat.zero_add]

/-- Two readers that both take something: some list tells that they share the position. -/
theorem exists_not_begins {i j : ι} {l : List (ι × Nat)} {a b : α} (hab : a ≠ b) (hij : i ≠ j)
    {pre rest : List (ι × Nat)} {n : Nat} (hl : l = pre ++ (i, n) :: rest) (hn : n ≠ 0)
    (hPre : ∀ r ∈ pre, r.2 = 0) (hj : ∃ r ∈ rest, r.1 = j ∧ r.2 ≠ 0) :
    ∃ content : List α, ¬ taken j (reads content 0 l) <+: content := by
  -- the first read of `j` that asks for something
  obtain ⟨⟨j', m⟩, hFind⟩ : ∃ r, rest.find? (fun r => r.1 = j ∧ r.2 ≠ 0) = some r := by
    obtain ⟨r, hr, hrj⟩ := hj
    exact Option.isSome_iff_exists.mp (List.find?_isSome.mpr ⟨r, hr, by simpa using hrj⟩)
  obtain ⟨hFirst, mid, post, rfl, hMid⟩ := List.find?_eq_some_iff_append.mp hFind
  simp only [decide_eq_true_eq] at hFirst
  obtain ⟨rfl, hm⟩ := hFirst
  have hMidZero : ∀ r ∈ mid, r.1 = j' → r.2 = 0 := by
    intro r hr hrj
    by_contra hne
    simpa [hrj, hne] using hMid r hr
  -- everything before it, and a list that ends with one element for it
  have hSplit : l = (pre ++ (i, n) :: mid) ++ (j', m) :: post := by
    rw [hl]
    simp
  have hZero : ∀ r ∈ pre ++ (i, n) :: mid, r.1 = j' → r.2 = 0 := by
    intro r hr hrj
    rcases List.mem_append.mp hr with hr | hr
    · exact hPre r hr
    · rcases List.mem_cons.mp hr with rfl | hr
      · exact absurd hrj hij
      · exact hMidZero r hr hrj
  have hPos : 0 < total (pre ++ (i, n) :: mid) := by
    rw [total_append, total_cons]
    show 0 < _ + (n + _)
    omega
  generalize hq : pre ++ (i, n) :: mid = before at hSplit hZero hPos
  refine ⟨List.replicate (total before) a ++ [b], ?_⟩
  rw [hSplit, reads_append before _ 0 (by simp), taken_append, taken_of_zero _ _ hZero, reads,
    taken_cons, Nat.zero_add, List.nil_append]
  have hDrop : (List.replicate (total before) a ++ [b]).drop (total before) = [b] := by
    rw [List.drop_append]
    simp
  obtain ⟨k, rfl⟩ := Nat.exists_eq_succ_of_ne_zero hm
  obtain ⟨q, hq'⟩ := Nat.exists_eq_succ_of_ne_zero (Nat.pos_iff_ne_zero.mp hPos)
  rw [if_pos rfl, hDrop, hq', List.take_succ_cons, List.replicate_succ, List.cons_append,
    List.cons_append, List.cons_prefix_cons]
  exact fun h => hab h.1.symm

/-- Both readers have got a beginning of the list, whatever it is, exactly when one of them has asked
for nothing. -/
theorem begins_iff {i j : ι} {l : List (ι × Nat)} {a b : α} (hab : a ≠ b) (hij : i ≠ j)
    (hOnly : ∀ r ∈ l, r.1 = i ∨ r.1 = j) :
    (∀ content : List α, taken i (reads content 0 l) <+: content ∧
        taken j (reads content 0 l) <+: content) ↔
      (∀ r ∈ l, r.1 = i → r.2 = 0) ∨ ∀ r ∈ l, r.1 = j → r.2 = 0 := by
  constructor
  · intro h
    by_contra hNot
    simp only [not_or, not_forall] at hNot
    obtain ⟨⟨r, hr, hri, hrZero⟩, r', hr', hrj, hrZero'⟩ := hNot
    -- the first read that asks for something
    obtain ⟨⟨i', n⟩, hFind⟩ : ∃ r, l.find? (fun r => r.2 ≠ 0) = some r :=
      Option.isSome_iff_exists.mp (List.find?_isSome.mpr ⟨r, hr, by simpa using hrZero⟩)
    obtain ⟨hFirst, pre, rest, rfl, hPre⟩ := List.find?_eq_some_iff_append.mp hFind
    have hn : n ≠ 0 := by simpa using hFirst
    have hPreZero : ∀ r ∈ pre, r.2 = 0 := fun r hr => by simpa using hPre r hr
    have hLater : ∀ r ∈ pre ++ (i', n) :: rest, r.2 ≠ 0 → r.1 ≠ i' → r ∈ rest := by
      intro r hr hne hri'
      rcases List.mem_append.mp hr with hr | hr
      · exact absurd (hPreZero r hr) hne
      · rcases List.mem_cons.mp hr with rfl | hr
        · exact absurd rfl hri'
        · exact hr
    rcases hOnly (i', n) (by simp) with rfl | rfl
    · obtain ⟨content, hc⟩ := exists_not_begins hab hij rfl hn hPreZero
        ⟨r', hLater r' hr' hrZero' (by rw [hrj]; exact hij.symm), hrj, hrZero'⟩
      exact hc (h content).2
    · obtain ⟨content, hc⟩ := exists_not_begins hab hij.symm rfl hn hPreZero
        ⟨r, hLater r hr hrZero (by rw [hri]; exact hij), hri, hrZero⟩
      exact hc (h content).1
  · intro hZero content
    rcases hZero with hi | hj
    · refine ⟨by rw [taken_of_zero l 0 hi]; exact List.nil_prefix, ?_⟩
      rw [taken_of_others_zero l 0 fun r hr hne => hi r hr ((hOnly r hr).resolve_right hne)]
      exact List.take_prefix _ _
    · refine ⟨?_, by rw [taken_of_zero l 0 hj]; exact List.nil_prefix⟩
      rw [taken_of_others_zero l 0 fun r hr hne => hj r hr ((hOnly r hr).resolve_left hne)]
      exact List.take_prefix _ _

end SharedCursor
