import Mathlib.Tactic
import Mathlib.Order.Interval.Finset.Nat
import Mathlib.Data.Nat.Count

/-!
# Clearing the lowest set bit

`x &&& (x - 1)` is `x` without its lowest set bit, so a loop that does this until nothing is left makes one
round for each set bit.

* `getLsbD_and_sub_one` — the bits of `x &&& (x - 1)`;
* `bitCount_and_sub_one` — one set bit less.
-/

namespace LowestBit

variable {w : Nat} {x : BitVec w}

/-- The lowest set bit. -/
def IsLowest (x : BitVec w) (t : Nat) : Prop := x.getLsbD t = true ∧ ∀ j, j < t → x.getLsbD j = false

theorem exists_isLowest (hx : x ≠ 0#w) : ∃ t, IsLowest x t := by
  have hSome : ∃ t, x.getLsbD t = true := by
    by_contra hNone
    apply hx
    apply BitVec.eq_of_getLsbD_eq
    intro i _
    rw [BitVec.getLsbD_zero]
    exact Bool.eq_false_iff.mpr fun hi => hNone ⟨i, hi⟩
  exact ⟨Nat.find hSome, Nat.find_spec hSome, fun j hj => Bool.eq_false_iff.mpr (Nat.find_min hSome hj)⟩

/-- Up to its lowest set bit a word is a power of two. -/
theorem IsLowest.mod_eq {t : Nat} (h : IsLowest x t) : x.toNat % 2 ^ (t + 1) = 2 ^ t := by
  have hBelow : x.toNat % 2 ^ t = 0 := by
    apply Nat.eq_of_testBit_eq
    intro i
    rw [Nat.testBit_mod_two_pow, Nat.zero_testBit]
    by_cases hi : i < t
    · have hClear := h.2 i hi
      rw [BitVec.getLsbD] at hClear
      rw [hClear, Bool.and_false]
    · rw [decide_eq_false hi, Bool.false_and]
  have hBit : x.toNat / 2 ^ t % 2 = 1 := by
    have hTest : x.toNat.testBit t = true := h.1
    rw [Nat.testBit_eq_decide_div_mod_eq] at hTest
    exact of_decide_eq_true hTest
  rw [Nat.mod_pow_succ, hBelow, hBit]
  omega

/-- The lowest set bit is cleared and no other bit is touched. -/
theorem getLsbD_and_sub_one {t : Nat} (h : IsLowest x t) (i : Nat) :
    (x &&& (x - 1#w)).getLsbD i = (x.getLsbD i && decide (i ≠ t)) := by
  have hSplit : x.toNat = 2 ^ (t + 1) * (x.toNat / 2 ^ (t + 1)) + 2 ^ t := by
    have hDiv := Nat.div_add_mod x.toNat (2 ^ (t + 1))
    rw [h.mod_eq] at hDiv
    exact hDiv.symm
  have hPos : 0 < 2 ^ t := Nat.two_pow_pos t
  have hLess : 2 ^ t < 2 ^ (t + 1) := Nat.pow_lt_pow_right (by decide) (Nat.lt_succ_self t)
  have hw : t < w := BitVec.lt_of_getLsbD h.1
  -- subtracting one changes the part up to the lowest set bit only
  have hSub : (x - 1#w).toNat = 2 ^ (t + 1) * (x.toNat / 2 ^ (t + 1)) + (2 ^ t - 1) := by
    have hOne : (1#w).toNat = 1 := by
      rw [BitVec.toNat_ofNat]
      exact Nat.mod_eq_of_lt (Nat.one_lt_two_pow (by omega))
    have hLe : (1#w).toNat ≤ x.toNat := by omega
    rw [BitVec.toNat_sub_of_le hLe, hOne]
    omega
  rw [BitVec.getLsbD_and, BitVec.getLsbD, BitVec.getLsbD, hSub]
  generalize x.toNat / 2 ^ (t + 1) = q at hSplit
  rw [hSplit, Nat.testBit_two_pow_mul_add _ hLess, Nat.testBit_two_pow_mul_add _ (by omega)]
  by_cases hi : i < t + 1
  · rw [if_pos hi, if_pos hi, Nat.testBit_two_pow_sub_one, Nat.testBit_two_pow]
    by_cases hEq : t = i
    · simp [hEq]
    · simp [hEq]
  · have hNe : i ≠ t := by omega
    rw [if_neg hi, if_neg hi, Bool.and_self, decide_eq_true hNe, Bool.and_true]

/-- One element less. -/
theorem count_remove {p q : Nat → Prop} [DecidablePred p] [DecidablePred q] {n t : Nat} (ht : t < n) (hp : p t)
    (hq : ∀ k, k < n → (q k ↔ p k ∧ k ≠ t)) : Nat.count p n = Nat.count q n + 1 := by
  induction n with
  | zero => exact absurd ht (Nat.not_lt_zero t)
  | succ n ih =>
      rw [Nat.count_succ, Nat.count_succ]
      by_cases hLast : t = n
      · -- below `t` the two agree
        have hSame : Nat.count p n = Nat.count q n := by
          rw [Nat.count_eq_card_filter_range, Nat.count_eq_card_filter_range]
          congr 1
          apply Finset.filter_congr
          intro k hk
          have hkn := Finset.mem_range.mp hk
          rw [hq k (by omega)]
          exact ⟨fun hpk => ⟨hpk, by omega⟩, fun h => h.1⟩
        have hNot : ¬ q n := fun hqn => ((hq n (Nat.lt_succ_self n)).mp hqn).2 hLast.symm
        rw [hLast] at hp
        rw [if_pos hp, if_neg hNot, hSame]
      · have hStep := ih (by omega) fun k hk => hq k (by omega)
        have hIff : q n ↔ p n := by
          rw [hq n (Nat.lt_succ_self n)]
          exact ⟨fun h => h.1, fun hpn => ⟨hpn, fun hEq => hLast hEq.symm⟩⟩
        by_cases hpn : p n
        · rw [if_pos hpn, if_pos (hIff.mpr hpn), hStep]
        · rw [if_neg hpn, if_neg fun hqn => hpn (hIff.mp hqn), hStep]

/-- The number of set bits. -/
def bitCount (x : BitVec w) : Nat := Nat.count (fun i => x.getLsbD i = true) w

theorem bitCount_le (x : BitVec w) : bitCount x ≤ w := Nat.count_le _

@[simp] theorem bitCount_zero : bitCount (0#w) = 0 := by
  unfold bitCount
  rw [Nat.count_iff_forall_not]
  intro i _
  rw [BitVec.getLsbD_zero]
  exact Bool.false_ne_true

theorem bitCount_and_sub_one (hx : x ≠ 0#w) : bitCount x = bitCount (x &&& (x - 1#w)) + 1 := by
  obtain ⟨t, ht⟩ := exists_isLowest hx
  have hLt : t < w := BitVec.lt_of_getLsbD ht.1
  apply count_remove hLt ht.1
  intro k _
  rw [getLsbD_and_sub_one ht, Bool.and_eq_true, decide_eq_true_iff]

end LowestBit
