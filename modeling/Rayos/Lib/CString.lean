import Mathlib.Tactic

/-!
# C strings

A C string is the list of its bytes without the terminator.  The functions of `string.h` that search
and compare are written over such lists; a position is the number of bytes before it.
-/

namespace CString

/-- The bytes of a string. -/
abbrev Str := List (BitVec 8)

/-- The byte `'/'`. -/
def slash : BitVec 8 := 0x2f#8

/-- `strchr`: the position of the first `c`. -/
def strchr : Str → BitVec 8 → Option Nat
  | [], _ => none
  | x :: s, c => if x = c then some 0 else (strchr s c).map (· + 1)

/-- `strrchr`: the position of the last `c`. -/
def strrchr : Str → BitVec 8 → Option Nat
  | [], _ => none
  | x :: s, c =>
      match strrchr s c with
      | some i => some (i + 1)
      | none => if x = c then some 0 else none

/-- `strncmp(s1, s2, n) == 0`. -/
def strncmpEq : Str → Str → Nat → Bool
  | _, _, 0 => true
  | [], [], _ + 1 => true
  | [], _ :: _, _ + 1 => false
  | _ :: _, [], _ + 1 => false
  | a :: s1, b :: s2, n + 1 => a == b && strncmpEq s1 s2 n

/-- Compared over its whole length, a string is a beginning of the other. -/
theorem strncmpEq_length : ∀ s1 s2 : Str, strncmpEq s1 s2 s2.length = true ↔ s2 <+: s1
  | s1, [] => by simp [strncmpEq]
  | [], b :: s2 => by simp [strncmpEq]
  | a :: s1, b :: s2 => by
      rw [List.length_cons, strncmpEq, Bool.and_eq_true, beq_iff_eq, strncmpEq_length s1 s2,
        List.cons_prefix_cons, eq_comm (a := a)]

@[simp]
theorem strncmpEq_self : ∀ (s : Str) (n : Nat), strncmpEq s s n = true
  | _, 0 => by simp [strncmpEq]
  | [], _ + 1 => rfl
  | a :: s, n + 1 => by simp [strncmpEq, strncmpEq_self s n]

theorem strchr_eq_none {s : Str} {c : BitVec 8} (h : strchr s c = none) : c ∉ s := by
  induction s with
  | nil => simp
  | cons x s ih =>
      rw [strchr] at h
      split at h
      · cases h
      · rename_i hx
        rw [List.mem_cons, not_or]
        exact ⟨Ne.symm hx, ih (Option.map_eq_none_iff.mp h)⟩

/-- `strchr` cuts a string at its first `c`. -/
theorem strchr_eq_some {s : Str} {c : BitVec 8} {i : Nat} (h : strchr s c = some i) :
    c ∉ s.take i ∧ (s.drop i).head? = some c := by
  induction s generalizing i with
  | nil => cases h
  | cons x s ih =>
      rw [strchr] at h
      split at h
      · rename_i hx
        cases h
        exact ⟨by simp, by rw [hx]; rfl⟩
      · rename_i hx
        obtain ⟨j, hj, rfl⟩ := Option.map_eq_some_iff.mp h
        obtain ⟨hNot, hHead⟩ := ih hj
        rw [List.take_succ_cons, List.drop_succ_cons, List.mem_cons, not_or]
        exact ⟨⟨Ne.symm hx, hNot⟩, hHead⟩

/-- What is found in the first part of a string is found there. -/
theorem strchr_append {s t : Str} {c : BitVec 8} {i : Nat} (h : strchr s c = some i) :
    strchr (s ++ t) c = some i := by
  induction s generalizing i with
  | nil => cases h
  | cons x s ih =>
      rw [List.cons_append]
      rw [strchr] at h ⊢
      by_cases hx : x = c
      · rw [if_pos hx] at h ⊢
        exact h
      · rw [if_neg hx] at h ⊢
        obtain ⟨j, hj, rfl⟩ := Option.map_eq_some_iff.mp h
        rw [ih hj]
        rfl

theorem strchr_append_of_not_mem {s t : Str} {c : BitVec 8} (h : c ∉ s) :
    strchr (s ++ t) c = (strchr t c).map (· + s.length) := by
  induction s with
  | nil => simp
  | cons x s ih =>
      rw [List.mem_cons, not_or] at h
      rw [List.cons_append, strchr, if_neg (Ne.symm h.1), ih h.2, Option.map_map]
      rfl

theorem strrchr_eq_none {s : Str} {c : BitVec 8} (h : strrchr s c = none) : c ∉ s := by
  induction s with
  | nil => simp
  | cons x s ih =>
      rw [strrchr] at h
      cases hRest : strrchr s c with
      | some j => simp [hRest] at h
      | none =>
          rw [hRest] at h
          simp only [ite_eq_right_iff, reduceCtorEq, imp_false] at h
          rw [List.mem_cons, not_or]
          exact ⟨Ne.symm h, ih hRest⟩

/-- `strrchr` cuts a string at its last `c`. -/
theorem strrchr_eq_some {s : Str} {c : BitVec 8} {i : Nat} (h : strrchr s c = some i) :
    ∃ rest, s = s.take i ++ c :: rest ∧ c ∉ rest := by
  induction s generalizing i with
  | nil => cases h
  | cons x s ih =>
      rw [strrchr] at h
      cases hRest : strrchr s c with
      | some j =>
          rw [hRest] at h
          cases h
          obtain ⟨rest, hs, hNot⟩ := ih hRest
          refine ⟨rest, ?_, hNot⟩
          rw [List.take_succ_cons, List.cons_append, ← hs]
      | none =>
          rw [hRest] at h
          simp only [Option.ite_none_right_eq_some, Option.some.injEq] at h
          obtain ⟨rfl, rfl⟩ := h
          exact ⟨s, rfl, strrchr_eq_none hRest⟩

/-- `strrchr` finds the `c` after which there is none. -/
theorem strrchr_append_cons {c : BitVec 8} {rest : Str} (h : c ∉ rest) :
    ∀ before : Str, strrchr (before ++ c :: rest) c = some before.length
  | [] => by
      rw [List.nil_append, strrchr]
      cases hRest : strrchr rest c with
      | none => simp
      | some i =>
          obtain ⟨after, hCut, -⟩ := strrchr_eq_some hRest
          rw [hCut] at h
          exact absurd (List.mem_append_right _ List.mem_cons_self) h
  | x :: before => by
      rw [List.cons_append, strrchr, strrchr_append_cons h before]
      rfl

/-- A string cut at some `c`, and cut at its last one. -/
theorem cut_cases {c : BitVec 8} {before rest init after : Str}
    (h : before ++ c :: rest = init ++ c :: after) (hNot : c ∉ after) :
    init = before ∨ ∃ mid, init = before ++ c :: mid ∧ rest = mid ++ c :: after := by
  rcases List.append_eq_append_iff.mp h with ⟨mid, hInit, hRest⟩ | ⟨mid, hBefore, hAfter⟩
  · cases mid with
    | nil => exact Or.inl (by simpa using hInit)
    | cons x mid =>
        rw [List.cons_append, List.cons.injEq] at hRest
        obtain ⟨rfl, hRest⟩ := hRest
        exact Or.inr ⟨mid, hInit, hRest⟩
  · cases mid with
    | nil => exact Or.inl (by simpa using hBefore.symm)
    | cons x mid =>
        rw [List.cons_append, List.cons.injEq] at hAfter
        exact absurd (by simp [hAfter.2]) hNot

theorem strrchr_lt {s : Str} {c : BitVec 8} {i : Nat} (h : strrchr s c = some i) :
    i < s.length := by
  obtain ⟨rest, hs, -⟩ := strrchr_eq_some h
  have hLength := congrArg List.length hs
  simp only [List.length_append, List.length_take, List.length_cons] at hLength
  omega

end CString
