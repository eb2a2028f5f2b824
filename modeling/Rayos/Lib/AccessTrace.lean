import Mathlib.Tactic

/-!
# Accesses to buffers

What a piece of code does to its buffers, as the list of its accesses: the length that was asked for, and the index,
which may be negative.
-/

namespace AccessTrace

/-- An access to a buffer of `size` elements. -/
structure Access where
  size : Nat
  index : Int
  deriving DecidableEq

/-- The access is inside the buffer. -/
def Access.Inside (a : Access) : Prop := 0 ≤ a.index ∧ a.index < a.size

instance (a : Access) : Decidable a.Inside := inferInstanceAs (Decidable (_ ∧ _))

/-- All accesses are. -/
def InBounds (trace : List Access) : Prop := ∀ a ∈ trace, a.Inside

instance (trace : List Access) : Decidable (InBounds trace) := inferInstanceAs (Decidable (∀ a ∈ trace, a.Inside))

/-- `count` elements from `first` on. -/
def span (size : Nat) (first : Int) (count : Nat) : List Access :=
  (List.range count).map fun k : Nat => ⟨size, first + k⟩

variable {a : Access} {trace trace' : List Access} {size count : Nat} {first : Int}

theorem inBounds_nil : InBounds [] := fun _ ha => absurd ha List.not_mem_nil

theorem inBounds_cons : InBounds (a :: trace) ↔ a.Inside ∧ InBounds trace := List.forall_mem_cons

theorem inBounds_append : InBounds (trace ++ trace') ↔ InBounds trace ∧ InBounds trace' := List.forall_mem_append

theorem inBounds_span : InBounds (span size first count) ↔ count = 0 ∨ 0 ≤ first ∧ first + count ≤ size := by
  constructor
  · intro hAll
    by_cases hNone : count = 0
    · exact Or.inl hNone
    · right
      have hAt : ∀ k : Nat, k < count → 0 ≤ first + k ∧ first + k < size := fun k hk =>
        hAll ⟨size, first + k⟩ (List.mem_map.mpr ⟨k, List.mem_range.mpr hk, rfl⟩)
      have hFirst := hAt 0 (by omega)
      have hLast := hAt (count - 1) (by omega)
      omega
  · intro hRange a ha
    obtain ⟨k, hk, rfl⟩ := List.mem_map.mp ha
    rw [List.mem_range] at hk
    show 0 ≤ first + k ∧ first + k < size
    omega

/-- From the start of the buffer on. -/
theorem inBounds_span_zero : InBounds (span size 0 count) ↔ count ≤ size := by
  rw [inBounds_span]
  omega

end AccessTrace
