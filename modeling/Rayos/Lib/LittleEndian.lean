import Mathlib.Tactic

/-!
# Little-endian numbers in a byte buffer

A buffer is a function from offsets to bytes.  `leNat buf off len` is the number that the `len` bytes
from `off` on encode, lowest byte first, and `putLe` stores a number there.
-/

namespace LittleEndian

/-- The little-endian number in the `len` bytes from `off` on. -/
def leNat (buf : Nat → BitVec 8) (off : Nat) : Nat → Nat
  | 0 => 0
  | len + 1 => (buf off).toNat + 256 * leNat buf (off + 1) len

/-- The `len` bytes that encode `n`. -/
def leBytes (n : Nat) : Nat → List (BitVec 8)
  | 0 => []
  | len + 1 => BitVec.ofNat 8 n :: leBytes (n / 256) len

theorem leNat_lt (buf : Nat → BitVec 8) :
    ∀ (len off : Nat), leNat buf off len < 256 ^ len := by
  intro len
  induction len with
  | zero =>
      intro off
      simp [leNat]
  | succ len ih =>
      intro off
      have hByte := (buf off).isLt
      have hRest := ih (off + 1)
      simp only [leNat, Nat.pow_succ]
      omega

/-- A number in two parts. -/
theorem leNat_add (buf : Nat → BitVec 8) (b : Nat) :
    ∀ (a off : Nat), leNat buf off (a + b) = leNat buf off a + 256 ^ a * leNat buf (off + a) b := by
  intro a
  induction a with
  | zero =>
      intro off
      rw [Nat.zero_add, leNat, Nat.pow_zero, Nat.one_mul, Nat.zero_add, Nat.add_zero]
  | succ a ih =>
      intro off
      have hOff : off + 1 + a = off + (a + 1) := by omega
      rw [Nat.succ_add, leNat, leNat, ih, hOff]
      ring

/-- The buffer with the `len` bytes from `off` on encoding `n`. -/
def putLe (buf : Nat → BitVec 8) (off len n : Nat) : Nat → BitVec 8 :=
  fun a => if off ≤ a ∧ a < off + len then BitVec.ofNat 8 (n / 256 ^ (a - off)) else buf a

theorem leNat_congr {buf buf' : Nat → BitVec 8} :
    ∀ {len off off' : Nat}, (∀ k, k < len → buf (off + k) = buf' (off' + k)) →
      leNat buf off len = leNat buf' off' len := by
  intro len
  induction len with
  | zero => intro off off' _; rfl
  | succ len ih =>
      intro off off' h
      have hHead := h 0 (Nat.succ_pos len)
      rw [Nat.add_zero, Nat.add_zero] at hHead
      have hRest : leNat buf (off + 1) len = leNat buf' (off' + 1) len := by
        refine ih fun k hk => ?_
        rw [Nat.add_assoc, Nat.add_assoc, Nat.add_comm 1 k]
        exact h (k + 1) (by omega)
      rw [leNat, leNat, hHead, hRest]

theorem putLe_of_lt (buf : Nat → BitVec 8) {off len n a : Nat} (h : a < off) :
    putLe buf off len n a = buf a := by
  rw [putLe, if_neg (by omega)]

theorem putLe_of_ge (buf : Nat → BitVec 8) {off len n a : Nat} (h : off + len ≤ a) :
    putLe buf off len n a = buf a := by
  rw [putLe, if_neg (by omega)]

theorem leNat_digits :
    ∀ (len off n : Nat), leNat (fun a => BitVec.ofNat 8 (n / 256 ^ (a - off))) off len =
      n % 256 ^ len := by
  intro len
  induction len with
  | zero =>
      intro off n
      simp [leNat, Nat.mod_one]
  | succ len ih =>
      intro off n
      have hRest : leNat (fun a => BitVec.ofNat 8 (n / 256 ^ (a - off))) (off + 1) len =
          leNat (fun a => BitVec.ofNat 8 (n / 256 / 256 ^ (a - (off + 1)))) (off + 1) len := by
        refine leNat_congr fun k _ => ?_
        have hPow : off + 1 + k - off = (off + 1 + k - (off + 1)) + 1 := by omega
        rw [hPow, Nat.pow_succ, Nat.mul_comm, Nat.div_div_eq_div_mul]
      have hSplit : n % 256 ^ (len + 1) = n % 256 + 256 * (n / 256 % 256 ^ len) := by
        rw [Nat.pow_succ, Nat.mul_comm, Nat.mod_mul]
      rw [leNat, hRest, ih, Nat.sub_self, Nat.pow_zero, Nat.div_one, BitVec.toNat_ofNat, hSplit]

/-- A number that has been stored is read back. -/
theorem leNat_putLe (buf : Nat → BitVec 8) {off len n : Nat} (h : n < 256 ^ len) :
    leNat (putLe buf off len n) off len = n := by
  have hSame : leNat (putLe buf off len n) off len =
      leNat (fun a => BitVec.ofNat 8 (n / 256 ^ (a - off))) off len := by
    refine leNat_congr fun k hk => ?_
    rw [putLe, if_pos (by omega)]
  rw [hSame, leNat_digits, Nat.mod_eq_of_lt h]

/-- A number beside the one that has been stored is as before. -/
theorem leNat_putLe_of_disjoint (buf : Nat → BitVec 8) {off len n off' len' : Nat}
    (h : off' + len' ≤ off ∨ off + len ≤ off') :
    leNat (putLe buf off len n) off' len' = leNat buf off' len' := by
  refine leNat_congr fun k hk => ?_
  rcases h with h | h
  · exact putLe_of_lt buf (by omega)
  · exact putLe_of_ge buf (by omega)

end LittleEndian
