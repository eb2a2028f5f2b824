import Mathlib.Tactic

/-!
# Ring buffers by absolute positions

A ring of `size` slots that has taken the elements `xs` in their order keeps element `i` in slot
`i % size`.  Of these, the elements from `lo` on have not been given out, and the ones before `hi` have
been written.  With fewer than `size` elements between the two positions no slot is used twice, and the
slots of the positions tell an empty ring from a full one.
-/

namespace RingBuffer

variable {α : Type} {size lo hi : Nat} {data : Nat → α} {xs : List α}

/-- The elements `lo, …, hi - 1` of `xs` are in their slots. -/
def Holds (size : Nat) (data : Nat → α) (xs : List α) (lo hi : Nat) : Prop :=
  ∀ i, lo ≤ i → i < hi → xs[i]? = some (data (i % size))

/-- Positions less than a round apart have different slots. -/
theorem slot_ne {i j : Nat} (hLt : i < j) (hNear : j < i + size) : i % size ≠ j % size := by
  intro hEq
  have hMod : i ≡ j [MOD size] := hEq
  have hDvd : size ∣ j - i := (Nat.modEq_iff_dvd' hLt.le).mp hMod
  have hLe := Nat.le_of_dvd (by omega) hDvd
  omega

/-- The slots agree only when the ring is empty. -/
theorem slot_eq_iff (hLe : lo ≤ hi) (hNear : hi < lo + size) : hi % size = lo % size ↔ hi = lo := by
  constructor
  · intro hEq
    by_contra hNe
    exact slot_ne (by omega) hNear hEq.symm
  · rintro rfl
    rfl

/-- The slot after `hi` is that of `lo` only when all slots but one are taken. -/
theorem slot_succ_eq_iff (hLe : lo ≤ hi) (hNear : hi < lo + size) :
    (hi + 1) % size = lo % size ↔ hi + 1 = lo + size := by
  constructor
  · intro hEq
    by_contra hNe
    exact slot_ne (by omega) (by omega) hEq.symm
  · intro hEq
    rw [hEq, Nat.add_mod_right]

/-- Going one slot on. -/
theorem slot_succ (hi size : Nat) : (hi % size + 1) % size = (hi + 1) % size := by
  rw [Nat.add_mod hi 1, Nat.add_mod (hi % size) 1, Nat.mod_mod]

namespace Holds

/-- Giving out an element. -/
theorem drop (h : Holds size data xs lo hi) : Holds size data xs (lo + 1) hi :=
  fun i hi' hi'' => h i (by omega) hi''

/-- Taking in one more element, before it is written. -/
theorem append (h : Holds size data xs lo hi) (hLen : hi ≤ xs.length) (x : α) :
    Holds size data (xs ++ [x]) lo hi := by
  intro i hLow hHigh
  rw [List.getElem?_append_left (by omega)]
  exact h i hLow hHigh

/-- Writing the next element to its slot. -/
theorem write (h : Holds size data xs lo hi) (hNear : hi < lo + size) {x : α}
    (hx : xs[hi]? = some x) :
    Holds size (Function.update data (hi % size) x) xs lo (hi + 1) := by
  intro i hLow hHigh
  by_cases hNew : i = hi
  · rw [hNew, Function.update_self]
    exact hx
  · rw [Function.update_of_ne (slot_ne (by omega) (by omega))]
    exact h i hLow (by omega)

end Holds

end RingBuffer
