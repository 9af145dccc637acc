import ActiveSet.Scalar
import Mathlib.Algebra.BigOperators.Ring.Finset
import Mathlib.Algebra.Order.BigOperators.Ring.Finset
import Mathlib.Analysis.Real.Sqrt
import Mathlib.Tactic.FieldSimp
import Mathlib.Tactic.LinearCombination
import Mathlib.Tactic.Positivity

/-!
# Exact arithmetic

The real numbers as an arithmetic for a solver, with exact roots and exact comparisons. Running sums
are sums over a range then, and the norm that is computed without squaring large numbers is the
Euclidean norm.
-/

namespace ActiveSet

open Finset

/-- The division of the field, and not the one of some other arithmetic. -/
noncomputable instance realDiv : Div ℝ := inferInstance

noncomputable instance realScalar : Scalar ℝ where
  abs a := |a|
  sqrt a := Real.sqrt a
  hypot a b := Real.sqrt (a * a + b * b)
  decidableLT _ _ := inferInstance
  decidableLE _ _ := inferInstance

variable (s : ℝ) (n : ℕ) (f x y : ℕ → ℝ)

theorem accumulate_eq_sum : accumulate s n f = s + ∑ i ∈ range n, f i := by
  induction n with
  | zero => simp
  | succ n ih => rw [accumulate_succ, ih, sum_range_succ, add_assoc]

theorem deduct_eq_sum : deduct s n f = s - ∑ i ∈ range n, f i := by
  induction n with
  | zero => simp
  | succ n ih => rw [deduct_succ, ih, sum_range_succ, sub_sub]

theorem sum_eq_sum : ActiveSet.sum n f = ∑ i ∈ range n, f i := by
  rw [ActiveSet.sum, accumulate_eq_sum, zero_add]

theorem dot_eq_sum : dot n x y = ∑ i ∈ range n, x i * y i := by
  rw [dot, sum_eq_sum]

/-! ## The norm -/

theorem maxAbs_succ : maxAbs (n + 1) x = max (maxAbs n x) |x n| := by
  unfold maxAbs
  rw [Nat.fold_succ]
  rfl

theorem maxAbs_nonneg : 0 ≤ maxAbs n x := by
  induction n with
  | zero => exact le_refl (0 : ℝ)
  | succ n ih =>
    rw [maxAbs_succ]
    exact le_max_of_le_left ih

theorem abs_le_maxAbs {i : ℕ} (hi : i < n) : |x i| ≤ maxAbs n x := by
  induction n with
  | zero => exact absurd hi (Nat.not_lt_zero i)
  | succ n ih =>
    rw [maxAbs_succ]
    rcases Nat.lt_succ_iff_lt_or_eq.1 hi with hlt | rfl
    · exact le_max_of_le_left (ih hlt)
    · exact le_max_right _ _

/-- Dividing by the largest magnitude first does not change the norm. -/
theorem norm_eq_sqrt : norm n x = Real.sqrt (∑ i ∈ range n, x i * x i) := by
  unfold norm
  dsimp only
  split
  · next hzero =>
    -- without a nonzero entry both sides are zero
    have hzero : maxAbs n x = 0 := by simpa using hzero
    have hall : ∀ i ∈ range n, x i * x i = 0 := by
      intro i hi
      have habs := abs_le_maxAbs n x (mem_range.1 hi)
      rw [hzero, abs_nonpos_iff] at habs
      rw [habs, mul_zero]
    rw [hzero, sum_eq_zero hall, Real.sqrt_zero]
  · next hne =>
    have hne : maxAbs n x ≠ 0 := by simpa using hne
    have hnonneg := maxAbs_nonneg n x
    have hscale : ∑ i ∈ range n, x i * x i =
        maxAbs n x ^ 2 * ∑ i ∈ range n, x i / maxAbs n x * (x i / maxAbs n x) := by
      rw [mul_sum]
      refine Finset.sum_congr rfl fun i _ => ?_
      field_simp
    rw [hscale, Real.sqrt_mul (sq_nonneg _), Real.sqrt_sq hnonneg, sum_eq_sum]
    rfl

theorem norm_nonneg : 0 ≤ norm n x := by
  rw [norm_eq_sqrt]
  exact Real.sqrt_nonneg _

theorem sum_mul_self_nonneg : 0 ≤ ∑ i ∈ range n, x i * x i :=
  sum_nonneg fun i _ => mul_self_nonneg (x i)

/-- The norm is zero exactly if all entries are. -/
theorem norm_eq_zero_iff : norm n x = 0 ↔ ∀ i, i < n → x i = 0 := by
  rw [norm_eq_sqrt, Real.sqrt_eq_zero (sum_mul_self_nonneg n x),
    sum_eq_zero_iff_of_nonneg fun i _ => mul_self_nonneg (x i)]
  simp only [mem_range, mul_self_eq_zero]

end ActiveSet
