import Mathlib.Algebra.Order.Round
import Mathlib.Algebra.Order.Field.Rat
import Mathlib.Tactic

/-!
# Rounding halves away from zero

Each rounding is off by at most a half, so a sum of `n` of them is off by at most `n / 2`; where the
exact sum is an integer the error is one too, and a half of it is lost.
-/

namespace Lib

/-- Round to the nearest integer, halves away from zero. -/
def halfUp (q : ℚ) : ℤ := if 0 ≤ q then ⌊q + 1 / 2⌋ else -⌊-q + 1 / 2⌋

section

variable {q : ℚ} {qs : List ℚ}

theorem halfUp_of_nonneg (h : 0 ≤ q) : halfUp q = round q := by
  rw [halfUp, if_pos h, round_eq]

theorem halfUp_of_neg (h : q < 0) : halfUp q = -round (-q) := by
  rw [halfUp, if_neg h.not_ge, round_eq]

theorem abs_halfUp_sub_le : |(halfUp q : ℚ) - q| ≤ 1 / 2 := by
  rcases le_or_gt 0 q with h | h
  · rw [halfUp_of_nonneg h, abs_sub_comm]
    exact abs_sub_round q
  · rw [halfUp_of_neg h, Int.cast_neg, abs_sub_comm, sub_neg_eq_add, ← abs_neg, neg_add,
      ← sub_eq_add_neg]
    exact abs_sub_round (-q)

/-- Nothing above minus a half is rounded below zero. -/
theorem halfUp_nonneg_iff : 0 ≤ halfUp q ↔ -1 / 2 < q := by
  rcases le_or_gt 0 q with h | h
  · rw [halfUp, if_pos h]
    exact ⟨fun _ => by linarith, fun _ => Int.floor_nonneg.2 (by linarith)⟩
  · rw [halfUp, if_neg h.not_ge, neg_nonneg, ← Int.lt_add_one_iff, zero_add, Int.floor_lt]
    constructor
    · intro hlt
      push_cast at hlt
      linarith
    · intro hlt
      push_cast
      linarith

/-- Above minus a half, halves are rounded up. -/
theorem halfUp_of_gt (h : -1 / 2 < q) : halfUp q = ⌊q + 1 / 2⌋ := by
  rcases le_or_gt 0 q with hnonneg | hneg
  · rw [halfUp, if_pos hnonneg]
  · have hleft : ⌊-q + 1 / 2⌋ = 0 := Int.floor_eq_zero_iff.2 ⟨by linarith, by linarith⟩
    have hright : ⌊q + 1 / 2⌋ = 0 := Int.floor_eq_zero_iff.2 ⟨by linarith, by linarith⟩
    rw [halfUp, if_neg hneg.not_ge, hleft, hright, neg_zero]

/-- Every summand adds at most a half to the error of a sum. -/
theorem abs_sum_halfUp_sub_le (qs : List ℚ) :
    |((qs.map halfUp).sum : ℚ) - qs.sum| ≤ (qs.length : ℚ) / 2 := by
  induction qs with
  | nil => simp
  | cons q qs ih =>
      rw [List.map_cons, List.sum_cons, List.sum_cons, List.length_cons, Int.cast_add,
        Nat.cast_succ]
      calc |(halfUp q : ℚ) + (qs.map halfUp).sum - (q + qs.sum)|
          = |((halfUp q : ℚ) - q) + (((qs.map halfUp).sum : ℚ) - qs.sum)| := by
            congr 1
            ring
        _ ≤ |(halfUp q : ℚ) - q| + |((qs.map halfUp).sum : ℚ) - qs.sum| := abs_add_le _ _
        _ ≤ 1 / 2 + (qs.length : ℚ) / 2 := add_le_add abs_halfUp_sub_le ih
        _ = ((qs.length : ℚ) + 1) / 2 := by ring

/-- Against an integer the error is an integer. -/
theorem abs_sum_halfUp_sub_le_of_int {n : ℤ} (hsum : qs.sum = n) :
    |(qs.map halfUp).sum - n| ≤ (qs.length : ℤ) / 2 := by
  have herror := abs_sum_halfUp_sub_le qs
  rw [hsum, ← Int.cast_sub, ← Int.cast_abs] at herror
  have hdouble : ((|(qs.map halfUp).sum - n| * 2 : ℤ) : ℚ) ≤ ((qs.length : ℤ) : ℚ) := by
    push_cast at herror ⊢
    linarith
  have := Int.cast_le.1 hdouble
  omega

end

end Lib
