import Mathlib.Tactic

/-!
# Output functions

An output function takes a character and its index and changes a state: it stores the character in a buffer,
sends it to a device or appends it to a list.  A program that writes through one and counts the characters in a
word of `w` bits is described by the text that it writes, whatever the output function.

* `emit` — the characters of a text, one after the other, at successive indices;
* `emit_foldl` — a text written through a function that does not look at the index;
* `emit_bounded` — a text written to a buffer that has room for its beginning only.
-/

namespace OutStream

/-- An output function with state `σ`. -/
abbrev Out (α σ : Type) (w : Nat) := α → BitVec w → σ → σ

variable {α σ : Type} {w : Nat}

/-- One character at the current index, which is advanced. -/
def put (out : Out α σ w) (c : α) (s : BitVec w × σ) : BitVec w × σ := (s.1 + 1#w, out c s.1 s.2)

/-- The characters of a text. -/
def emit (out : Out α σ w) : List α → BitVec w × σ → BitVec w × σ
  | [], s => s
  | c :: text, s => emit out text (put out c s)

section Emit

variable (out : Out α σ w) (s : BitVec w × σ)

@[simp] theorem emit_nil : emit out [] s = s := rfl

theorem emit_cons (c : α) (text : List α) : emit out (c :: text) s = emit out text (put out c s) := rfl

theorem emit_append (text text' : List α) : emit out (text ++ text') s = emit out text' (emit out text s) := by
  induction text generalizing s with
  | nil => rfl
  | cons c text ih => exact ih (put out c s)

theorem emit_fst (text : List α) : (emit out text s).1 = s.1 + BitVec.ofNat w text.length := by
  induction text generalizing s with
  | nil => simp
  | cons c text ih =>
      rw [emit_cons, ih, put, List.length_cons, BitVec.ofNat_add, BitVec.add_assoc, BitVec.add_comm 1#w]

end Emit

/-- An output function that does not look at the index folds over the text. -/
theorem emit_foldl {out : Out α σ w} {f : σ → α → σ} (h : ∀ c i s, out c i s = f s c) (text : List α)
    (s : BitVec w × σ) : (emit out text s).2 = text.foldl f s.2 := by
  induction text generalizing s with
  | nil => rfl
  | cons c text ih => rw [emit_cons, ih, put, List.foldl_cons, h]

/-! ## Bounded buffers -/

/-- A buffer of `maxlen` cells at `base`; what lies behind its end is dropped. -/
def bounded (base maxlen : BitVec w) : Out α (BitVec w → α) w := fun c i m =>
  if i < maxlen then Function.update m (base + i) c else m

section Bounded

variable (base maxlen : BitVec w) (m : BitVec w → α)

/-- The distance of a cell from the start of the buffer. -/
theorem eq_add_iff (a i : BitVec w) : a = base + i ↔ (a - base).toNat = i.toNat := by
  rw [BitVec.toNat_inj]
  constructor
  · rintro rfl
    rw [BitVec.add_comm, BitVec.add_sub_cancel]
  · rintro rfl
    rw [BitVec.add_comm, BitVec.sub_add_cancel]

theorem bounded_apply (c : α) (i a : BitVec w) :
    bounded base maxlen c i m a = if (a - base).toNat = i.toNat ∧ i < maxlen then c else m a := by
  rw [bounded]
  by_cases hRoom : i < maxlen
  · rw [if_pos hRoom]
    by_cases hHere : (a - base).toNat = i.toNat
    · rw [if_pos ⟨hHere, hRoom⟩, (eq_add_iff base a i).mpr hHere, Function.update_self]
    · have hCell : a ≠ base + i := fun hEq => hHere ((eq_add_iff base a i).mp hEq)
      rw [if_neg fun h => hHere h.1, Function.update_of_ne hCell]
  · rw [if_neg hRoom, if_neg fun h => hRoom h.2]

/-- The cells from `start` on hold the beginning of the text, as far as there is room. -/
theorem emit_bounded_from (text : List α) (start : BitVec w) (hLength : start.toNat + text.length < 2 ^ w)
    (a : BitVec w) :
    (emit (bounded base maxlen) text (start, m)).2 a =
      if h : start.toNat ≤ (a - base).toNat ∧ (a - base).toNat < start.toNat + text.length ∧
          (a - base).toNat < maxlen.toNat then
        text.get ⟨(a - base).toNat - start.toNat, by omega⟩
      else m a := by
  induction text generalizing start m with
  | nil =>
      rw [emit_nil, dif_neg]
      rintro ⟨hFrom, hTo, -⟩
      rw [List.length_nil] at hTo
      omega
  | cons c text ih =>
      rw [List.length_cons] at hLength
      have hNext : (start + 1#w).toNat = start.toNat + 1 := by
        have hPow : 1 < 2 ^ w := by omega
        rw [BitVec.toNat_add, BitVec.toNat_ofNat, Nat.mod_eq_of_lt hPow, Nat.mod_eq_of_lt (by omega)]
      have hRest := ih (bounded base maxlen c start m) (start + 1#w) (by rw [hNext]; omega)
      rw [emit_cons, put, hRest]
      simp only [hNext, List.length_cons, bounded_apply, BitVec.lt_def]
      by_cases hHere : (a - base).toNat = start.toNat
      · by_cases hRoom : start.toNat < maxlen.toNat
        · simp [hHere, hRoom]
        · simp [hHere, hRoom]
      · by_cases hIn : start.toNat + 1 ≤ (a - base).toNat ∧
            (a - base).toNat < start.toNat + 1 + text.length ∧ (a - base).toNat < maxlen.toNat
        · have hIn' : start.toNat ≤ (a - base).toNat ∧
              (a - base).toNat < start.toNat + (text.length + 1) ∧ (a - base).toNat < maxlen.toNat := by
            omega
          have hIndex : (a - base).toNat - start.toNat = (a - base).toNat - (start.toNat + 1) + 1 := by omega
          rw [dif_pos hIn, dif_pos hIn']
          simp only [hIndex, List.get_eq_getElem, List.getElem_cons_succ]
        · have hOut : ¬ (start.toNat ≤ (a - base).toNat ∧
              (a - base).toNat < start.toNat + (text.length + 1) ∧ (a - base).toNat < maxlen.toNat) := by
            omega
          rw [dif_neg hIn, dif_neg hOut, if_neg fun h => hHere h.1]

/-- **A bounded buffer holds the beginning of the text.**  What does not fit is dropped, and no other cell is
written. -/
theorem emit_bounded (text : List α) (hLength : text.length < 2 ^ w) (a : BitVec w) :
    (emit (bounded base maxlen) text (0#w, m)).2 a =
      if h : (a - base).toNat < text.length ∧ (a - base).toNat < maxlen.toNat then text.get ⟨(a - base).toNat, h.1⟩
      else m a := by
  have hFrom := emit_bounded_from base maxlen m text 0#w (by rw [BitVec.toNat_zero]; omega) a
  have hZero : (0#w).toNat = 0 := BitVec.toNat_zero
  simp only [hZero, Nat.zero_le, true_and, Nat.zero_add, Nat.sub_zero] at hFrom
  exact hFrom

end Bounded

end OutStream
