import Rayos.Lib.LittleEndian

/-!
# Ranges of a byte store

A store is a function from addresses to bytes, like a buffer.  `load` copies a range of it into a buffer
and `store` a buffer into a range, which is what a transfer of sectors does.
-/

namespace ByteStore

open LittleEndian

/-- The buffer with its first `len` bytes taken from the store. -/
def load (m : Nat → BitVec 8) (addr len : Nat) (buf : Nat → BitVec 8) : Nat → BitVec 8 :=
  fun off => if off < len then m (addr + off) else buf off

/-- The store with `len` bytes taken from the buffer. -/
def store (m : Nat → BitVec 8) (addr len : Nat) (buf : Nat → BitVec 8) : Nat → BitVec 8 :=
  fun a => if addr ≤ a ∧ a < addr + len then buf (a - addr) else m a

variable {m m' buf : Nat → BitVec 8} {addr len : Nat}

theorem load_of_lt {off : Nat} (h : off < len) : load m addr len buf off = m (addr + off) := if_pos h

theorem store_of_outside {a : Nat} (h : a < addr ∨ addr + len ≤ a) : store m addr len buf a = m a :=
  if_neg (by omega)

theorem store_of_inside {k : Nat} (h : k < len) : store m addr len buf (addr + k) = buf k := by
  rw [store, if_pos (by omega), Nat.add_sub_cancel_left]

/-- What is loaded depends on the range only. -/
theorem load_congr (h : ∀ k, k < len → m' (addr + k) = m (addr + k)) :
    load m' addr len buf = load m addr len buf := by
  funext k
  by_cases hk : k < len
  · rw [load_of_lt hk, load_of_lt hk, h k hk]
  · rw [load, load, if_neg hk, if_neg hk]

/-- A number in the range that has been loaded. -/
theorem leNat_load {off n : Nat} (h : off + n ≤ len) :
    leNat (load m addr len buf) off n = leNat m (addr + off) n := by
  refine leNat_congr fun k hk => ?_
  rw [load_of_lt (by omega), Nat.add_assoc]

end ByteStore
