import ActiveSet.Optimality
import ActiveSet.Proofs.Numbers
import ActiveSet.Proofs.Solver.Minimum

/-!
# What a violation measures

A violation is a maximum over many amounts. In any arithmetic whose comparisons are those of numbers it
does not exceed a limit exactly if none of the amounts does that is a number (`violation_le_iff`); an
amount that is not a number counts for nothing. In exact arithmetic all of them count. So a violation of
zero says that the optimality conditions hold, and for a convex objective these are sufficient.

* `SideHolds`, `ConditionsHold`: the optimality conditions up to a limit.
* `violation_le_iff`: what a violation says about them.
* `Stationary`, `Feasible`, `Belongs`, `Complementary`: the conditions themselves, in exact arithmetic.
* `violationOfArrays?_toList`: a problem given by arrays.
* `violation_characterises`: the violation in exact arithmetic.
-/

namespace ActiveSet.Optimality

section Limits

variable {K : Type} [Scalar K] {n m : ℕ}

/-- A value is within its limits, and its multiplier belongs to one of them, up to an amount. -/
@[mk_iff]
structure SideHolds (limit value lower upper multiplier : K) : Prop where
  lower_le : AtMost (lower - value) limit
  le_upper : AtMost (value - upper) limit
  positive : 0 < multiplier → AtMost (multiplier * min (Scalar.abs (value - lower)) 1) limit
  negative : multiplier < 0 → AtMost (-multiplier * min (Scalar.abs (upper - value)) 1) limit

/-- The optimality conditions hold up to an amount. -/
structure ConditionsHold (limit : K) (hessian : Grid K n n) (matrix : Grid K m n) (d : Data K n m)
    (x : Tuple K n) (y : Dual K n m) : Prop where
  stationary : ∀ i, i < n → AtMost (Scalar.abs (residual hessian matrix d x y i)) limit
  bound : ∀ i, i < n → SideHolds limit (x i) (d.lower i) (d.upper i) (y.bound i)
  row : ∀ c, c < m →
    SideHolds limit (dot n (matrix c) x) (d.rowLower c) (d.rowUpper c) (y.row c)

/-- A running maximum is a number if it starts with one, and it does not exceed a limit if its start and
all that it is compared with do not. -/
theorem fold_spec (limit : K) {g : ℕ → K → K} {p : ℕ → Prop}
    (hnumber : ∀ i a, IsNumber a → IsNumber (g i a))
    (hlimit : ∀ i a, AtMost (g i a) limit ↔ AtMost a limit ∧ p i) {a : K} (ha : IsNumber a) (k : ℕ) :
    IsNumber (k.fold (fun i _ v => g i v) a) ∧
      (AtMost (k.fold (fun i _ v => g i v) a) limit ↔ AtMost a limit ∧ ∀ i, i < k → p i) := by
  induction k with
  | zero => exact ⟨ha, fun h => ⟨h, fun i hi => absurd hi (Nat.not_lt_zero i)⟩, And.left⟩
  | succ k ih =>
    rw [Nat.fold_succ, hlimit, ih.2, Nat.forall_lt_succ_right, and_assoc]
    exact ⟨hnumber k _ ih.1, Iff.rfl⟩

variable [NumberOrder K] {limit value lower upper multiplier : K}

theorem atMost_sideViolation : AtMost (sideViolation value lower upper multiplier) limit ↔
    0 ≤ limit ∧ SideHolds limit value lower upper multiplier := by
  unfold sideViolation
  rw [← NumberOrder.atMost_zero]
  dsimp only
  split
  · next hpos =>
    have hneg : ¬multiplier < 0 := NumberOrder.lt_asymm hpos
    simp only [NumberOrder.atMost_max, sideHolds_iff, hpos, hneg, true_implies, false_implies]
    tauto
  · next hpos =>
    split
    · next hneg =>
      simp only [NumberOrder.atMost_max, sideHolds_iff, hpos, hneg, true_implies, false_implies]
      tauto
    · next hneg =>
      simp only [NumberOrder.atMost_max, sideHolds_iff, hpos, hneg, false_implies]
      tauto

variable {hessian : Grid K n n} {matrix : Grid K m n} {d : Data K n m} {x : Tuple K n} {y : Dual K n m}

/-- A violation does not exceed a limit if the optimality conditions hold up to the limit, apart from
amounts that are not numbers. -/
theorem violation_le_iff : violation hessian matrix d x y ≤ limit ↔
    0 ≤ limit ∧ ConditionsHold limit hessian matrix d x y := by
  -- both loops keep the violation a number and bound it by what they have seen
  obtain ⟨hbounds, hbounds_le⟩ := fold_spec limit
    (g := fun i v => max (max v (Scalar.abs (residual hessian matrix d x y i)))
      (sideViolation (x i) (d.lower i) (d.upper i) (y.bound i)))
    (fun i v hv => NumberOrder.isNumber_max.2 (.inl (NumberOrder.isNumber_max.2 (.inl hv))))
    (fun i v => by rw [NumberOrder.atMost_max, NumberOrder.atMost_max, atMost_sideViolation, and_assoc])
    NumberOrder.isNumber_zero n
  obtain ⟨hrows, hrows_le⟩ := fold_spec limit
    (g := fun c v =>
      max v (sideViolation (dot n (matrix c) x) (d.rowLower c) (d.rowUpper c) (y.row c)))
    (fun c v hv => NumberOrder.isNumber_max.2 (.inl hv))
    (fun c v => by rw [NumberOrder.atMost_max, atMost_sideViolation]) hbounds m
  unfold violation
  dsimp only
  -- the first loop starts from zero, so the limit is not negative
  rw [hrows.le_iff, hrows_le, hbounds_le, NumberOrder.atMost_zero]
  constructor
  · rintro ⟨⟨hlimit, hb⟩, hr⟩
    exact ⟨hlimit, fun i hi => (hb i hi).1, fun i hi => (hb i hi).2.2, fun c hc => (hr c hc).2⟩
  · rintro ⟨hlimit, h⟩
    exact ⟨⟨hlimit, fun i hi => ⟨h.stationary i hi, hlimit, h.bound i hi⟩⟩,
      fun c hc => ⟨hlimit, h.row c hc⟩⟩

omit [NumberOrder K] in
theorem leading?_toList (x : Tuple K n) : leading? n x.toList.toArray = some x := by
  unfold leading?
  rw [if_pos (by simp)]
  congr 1
  refine Tuple.ext fun i hi => ?_
  rw [Tuple.ofFn_apply hi]
  simp [Tuple.get, Tuple.toList, hi]

omit [NumberOrder K] in
/-- A problem with a point and multipliers has the same violation when it is given by arrays. -/
theorem violationOfArrays?_toList (hessian : Grid K n n) (matrix : Grid K m n) (d : Data K n m)
    (x : Tuple K n) (y : Dual K n m) :
    violationOfArrays? n m hessian.toList.toArray d.gradient.toList.toArray matrix.toList.toArray
      d.lower.toList.toArray d.upper.toList.toArray d.rowLower.toList.toArray
      d.rowUpper.toList.toArray x.toList.toArray y.toList.toArray =
        some (violation hessian matrix d x y) := by
  unfold violationOfArrays?
  simp only [Grid.ofArray?_toList, Dual.ofArray?_toList, leading?_toList, Tuple.ofArray?_toList,
    Option.bind_eq_bind, Option.bind_some]
  split
  · next hnone =>
    have hx : Tuple.fill n 0 = x := Tuple.ext fun i hi => absurd hi (by omega)
    rw [hx]
    rfl
  · rfl

end Limits

-- ---------------------------------------------------------------------------
-- Exact arithmetic
-- ---------------------------------------------------------------------------

section Exact

open Finset

variable {n m : ℕ}

/-- The gradient of the objective is the combination of the limits by the multipliers. -/
def Stationary (H : Grid ℝ n n) (A : Grid ℝ m n) (d : Data ℝ n m) (x : Tuple ℝ n) (y : Dual ℝ n m) :
    Prop :=
  ∀ i, i < n → ∑ j ∈ range n, H i j * x j + d.gradient i - y.bound i -
    ∑ c ∈ range m, A c i * y.row c = 0

/-- All limits hold. -/
structure Feasible (A : Grid ℝ m n) (d : Data ℝ n m) (x : Tuple ℝ n) : Prop where
  lower_le : ∀ i, i < n → d.lower i ≤ x i
  le_upper : ∀ i, i < n → x i ≤ d.upper i
  rowLower_le : ∀ c, c < m → d.rowLower c ≤ ∑ j ∈ range n, A c j * x j
  le_rowUpper : ∀ c, c < m → ∑ j ∈ range n, A c j * x j ≤ d.rowUpper c

/-- A multiplier belongs to a limit: the value is at its lower limit if the multiplier is positive, and at
its upper limit if it is negative. -/
structure Belongs (value lower upper multiplier : ℝ) : Prop where
  positive : 0 < multiplier → value = lower
  negative : multiplier < 0 → value = upper

/-- All multipliers belong to limits. -/
structure Complementary (A : Grid ℝ m n) (d : Data ℝ n m) (x : Tuple ℝ n) (y : Dual ℝ n m) : Prop where
  bound : ∀ i, i < n → Belongs (x i) (d.lower i) (d.upper i) (y.bound i)
  row : ∀ c, c < m → Belongs (∑ j ∈ range n, A c j * x j) (d.rowLower c) (d.rowUpper c) (y.row c)

variable {H : Grid ℝ n n} {A : Grid ℝ m n} {d : Data ℝ n m} {x z : Tuple ℝ n} {y : Dual ℝ n m}

theorem residual_eq (i : ℕ) : residual H A d x y i =
    ∑ j ∈ range n, H i j * x j + d.gradient i - y.bound i - ∑ c ∈ range m, A c i * y.row c := by
  rw [residual, deduct_eq_sum, dot_eq_sum]

section Side

variable {limit value lower upper multiplier a : ℝ}

/-- A positive weight on a distance that is cut off at one counts unless there is no distance. -/
theorem weighed_nonpos_iff (hpos : 0 < multiplier) : multiplier * min |a| 1 ≤ 0 ↔ a = 0 := by
  rw [← not_lt, mul_pos_iff_of_pos_left hpos, not_lt, min_le_iff, abs_nonpos_iff]
  exact or_iff_left (not_le.2 one_pos)

/-- Without an amount the conditions of a side are the limits and what a multiplier says about them. -/
theorem sideHolds_zero_iff : SideHolds 0 value lower upper multiplier ↔
    lower ≤ value ∧ value ≤ upper ∧ Belongs value lower upper multiplier := by
  rw [sideHolds_iff]
  simp only [atMost_real, sub_nonpos]
  have hpositive : (0 < multiplier → multiplier * min (Scalar.abs (value - lower)) 1 ≤ 0) ↔
      (0 < multiplier → value = lower) :=
    forall_congr' fun hpos => (weighed_nonpos_iff hpos).trans sub_eq_zero
  have hnegative : (multiplier < 0 → -multiplier * min (Scalar.abs (upper - value)) 1 ≤ 0) ↔
      (multiplier < 0 → value = upper) :=
    forall_congr' fun hneg =>
      (weighed_nonpos_iff (neg_pos.2 hneg)).trans (sub_eq_zero.trans eq_comm)
  rw [hpositive, hnegative]
  exact ⟨fun ⟨hl, hu, hp, hn⟩ => ⟨hl, hu, hp, hn⟩, fun ⟨hl, hu, h⟩ => ⟨hl, hu, h.positive, h.negative⟩⟩

/-- The product of a multiplier with a step to another value within the limits. -/
theorem Belongs.product_nonneg (h : Belongs value lower upper multiplier) (hl : lower ≤ a) (hu : a ≤ upper) :
    0 ≤ multiplier * (a - value) := by
  rcases lt_trichotomy multiplier 0 with hneg | rfl | hpos
  · rw [h.negative hneg]
    exact mul_nonneg_of_nonpos_of_nonpos hneg.le (sub_nonpos.2 hu)
  · rw [zero_mul]
  · rw [h.positive hpos]
    exact mul_nonneg hpos.le (sub_nonneg.2 hl)

end Side

theorem violation_nonneg : 0 ≤ violation H A d x y := (violation_le_iff.1 (le_refl _)).1

/-- The optimality conditions hold up to the violation. -/
theorem conditionsHold_violation : ConditionsHold (violation H A d x y) H A d x y :=
  (violation_le_iff.1 (le_refl _)).2

/-- A violation is zero where the optimality conditions hold. -/
theorem violation_eq_zero_iff : violation H A d x y = 0 ↔
    Stationary H A d x y ∧ Feasible A d x ∧ Complementary A d x y := by
  rw [← violation_nonneg.ge_iff_eq', violation_le_iff]
  constructor
  · rintro ⟨-, hstationary, hbound, hrow⟩
    have hbound := fun i hi => sideHolds_zero_iff.1 (hbound i hi)
    have hrow := fun c hc => sideHolds_zero_iff.1 (hrow c hc)
    simp only [dot_eq_sum] at hrow
    refine ⟨fun i hi => ?_, ⟨fun i hi => (hbound i hi).1, fun i hi => (hbound i hi).2.1,
      fun c hc => (hrow c hc).1, fun c hc => (hrow c hc).2.1⟩,
      fun i hi => (hbound i hi).2.2, fun c hc => (hrow c hc).2.2⟩
    rw [← residual_eq]
    exact abs_nonpos_iff.1 (atMost_real.1 (hstationary i hi))
  · rintro ⟨hstationary, hfeasible, hcomplementary⟩
    -- the violation is zero if every amount that it takes the maximum of is
    refine ⟨le_refl _, fun i hi => atMost_real.2 (abs_nonpos_iff.2 ?_), fun i hi => ?_, fun c hc => ?_⟩
    · rw [residual_eq]
      exact hstationary i hi
    · exact sideHolds_zero_iff.2
        ⟨hfeasible.lower_le i hi, hfeasible.le_upper i hi, hcomplementary.bound i hi⟩
    · rw [dot_eq_sum]
      exact sideHolds_zero_iff.2
        ⟨hfeasible.rowLower_le c hc, hfeasible.le_rowUpper c hc, hcomplementary.row c hc⟩

/-- Where the optimality conditions hold a convex objective is least among the points within the limits:
it grows at least as the multipliers say, and no multiplier admits that it falls. -/
theorem objective_le_of_stationary (hsymm : ∀ i j, i < n → j < n → H i j = H j i)
    (hdef : Semidefinite n H) (hstationary : Stationary H A d x y) (hcomplementary : Complementary A d x y)
    (hz : Feasible A d z) : objective H d.gradient x ≤ objective H d.gradient z := by
  have hgradient : ∀ j, j < n → ∑ k ∈ range n, H j k * x k + d.gradient j =
      y.bound j + ∑ c ∈ range m, A c j * y.row c := by
    intro j hj
    linarith [hstationary j hj]
  -- the multipliers of the rows weigh the changes of their values
  have hrows : ∑ j ∈ range n, (∑ c ∈ range m, A c j * y.row c) * (z j - x j) =
      ∑ c ∈ range m, y.row c * (∑ j ∈ range n, A c j * z j - ∑ j ∈ range n, A c j * x j) := by
    simp only [sum_mul, mul_sum, ← sum_sub_distrib]
    rw [sum_comm]
    exact Finset.sum_congr rfl fun c _ => Finset.sum_congr rfl fun j _ => by ring
  have hslope : 0 ≤ ∑ j ∈ range n, (∑ k ∈ range n, H j k * x k + d.gradient j) * (z j - x j) := by
    calc 0 ≤ ∑ j ∈ range n, y.bound j * (z j - x j) +
          ∑ c ∈ range m, y.row c * (∑ j ∈ range n, A c j * z j - ∑ j ∈ range n, A c j * x j) :=
          add_nonneg
            (sum_nonneg fun j hj => (hcomplementary.bound j (mem_range.1 hj)).product_nonneg
              (hz.lower_le j (mem_range.1 hj)) (hz.le_upper j (mem_range.1 hj)))
            (sum_nonneg fun c hc => (hcomplementary.row c (mem_range.1 hc)).product_nonneg
              (hz.rowLower_le c (mem_range.1 hc)) (hz.le_rowUpper c (mem_range.1 hc)))
      _ = ∑ j ∈ range n, (∑ k ∈ range n, H j k * x k + d.gradient j) * (z j - x j) := by
          rw [← hrows, ← sum_add_distrib]
          refine Finset.sum_congr rfl fun j hj => ?_
          rw [hgradient j (mem_range.1 hj), add_mul]
  have hexpand := objective_add (H := H) ?_ d.gradient x z
  · have hcurvature := hdef fun j => z j - x j
    linarith
  · intro i j
    by_cases hi : i < n
    · by_cases hj : j < n
      · exact hsymm i j hi hj
      · rw [Grid.apply_of_column_le _ (not_lt.1 hj), Grid.apply_of_row_le _ (not_lt.1 hj)]
    · rw [Grid.apply_of_row_le _ (not_lt.1 hi), Grid.apply_of_column_le _ (not_lt.1 hi)]

end Exact

end ActiveSet.Optimality

namespace ActiveSet

open Finset Optimality

/-- In exact arithmetic a violation is not negative, and no residual and no limit is violated by more. It
is zero exactly if the optimality conditions hold, and then the point minimises a convex objective among
all points within the limits. The same amount is determined for arrays that hold the problem. -/
theorem violation_characterises (n m : ℕ) (H : Grid ℝ n n) (A : Grid ℝ m n) (d : Data ℝ n m)
    (x : Tuple ℝ n) (y : Dual ℝ n m) :
    0 ≤ violation H A d x y ∧
      (∀ i, i < n → |∑ j ∈ range n, H i j * x j + d.gradient i - y.bound i -
        ∑ c ∈ range m, A c i * y.row c| ≤ violation H A d x y) ∧
      (∀ i, i < n → d.lower i - x i ≤ violation H A d x y ∧ x i - d.upper i ≤ violation H A d x y) ∧
      (∀ c, c < m → d.rowLower c - ∑ j ∈ range n, A c j * x j ≤ violation H A d x y ∧
        ∑ j ∈ range n, A c j * x j - d.rowUpper c ≤ violation H A d x y) ∧
      (violation H A d x y = 0 ↔ Stationary H A d x y ∧ Feasible A d x ∧ Complementary A d x y) ∧
      (violation H A d x y = 0 → (∀ i j, i < n → j < n → H i j = H j i) → Semidefinite n H →
        Feasible A d x ∧ ∀ z, Feasible A d z → objective H d.gradient x ≤ objective H d.gradient z) ∧
      violationOfArrays? n m H.toList.toArray d.gradient.toList.toArray A.toList.toArray
        d.lower.toList.toArray d.upper.toList.toArray d.rowLower.toList.toArray
        d.rowUpper.toList.toArray x.toList.toArray y.toList.toArray = some (violation H A d x y) := by
  obtain ⟨hstationary, hbound, hrow⟩ := conditionsHold_violation (H := H) (A := A) (d := d) (x := x) (y := y)
  refine ⟨violation_nonneg, fun i hi => ?_, fun i hi => ?_, fun c hc => ?_, violation_eq_zero_iff,
    fun hzero hsymm hdef => ?_, violationOfArrays?_toList H A d x y⟩
  · rw [← residual_eq]
    exact atMost_real.1 (hstationary i hi)
  · exact ⟨atMost_real.1 (hbound i hi).lower_le, atMost_real.1 (hbound i hi).le_upper⟩
  · rw [← dot_eq_sum]
    exact ⟨atMost_real.1 (hrow c hc).lower_le, atMost_real.1 (hrow c hc).le_upper⟩
  · -- no condition is violated, so the conditions for a minimum hold
    obtain ⟨hstationary, hfeasible, hcomplementary⟩ := violation_eq_zero_iff.1 hzero
    exact ⟨hfeasible,
      fun z hz => objective_le_of_stationary hsymm hdef hstationary hcomplementary hz⟩

/-- Half the square of the distance from one, with a row that keeps the variable at most a half. -/
theorem violation_characterises_halfway :
    ∃ (H A : Grid ℝ 1 1) (d : Data ℝ 1 1) (x : Tuple ℝ 1) (y : Dual ℝ 1 1),
      violation H A d x y = 0 ∧ y.row 0 = -(1 / 2) ∧
        ∀ z, Feasible A d z → objective H d.gradient x ≤ objective H d.gradient z := by
  have htuple : ∀ a : ℝ, ∃ t : Tuple ℝ 1, t 0 = a := fun a => ⟨.fill 1 a, Tuple.fill_apply one_pos⟩
  obtain ⟨zero, hzero⟩ := htuple 0
  obtain ⟨one, hone⟩ := htuple 1
  obtain ⟨half, hhalf⟩ := htuple (1 / 2)
  obtain ⟨slope, hslope⟩ := htuple (-1)
  obtain ⟨weight, hweight⟩ := htuple (-(1 / 2))
  obtain ⟨H, hH⟩ : ∃ H : Grid ℝ 1 1, H 0 0 = 1 := ⟨.fill 1 1 1, Grid.fill_apply one_pos one_pos⟩
  obtain ⟨-, -, -, -, hiff, hleast, -⟩ := violation_characterises 1 1 H H
    ⟨slope, zero, one, zero, half⟩ half ⟨zero, weight⟩
  -- the row is on its upper limit, where its multiplier balances the gradient
  have hnone : violation H H ⟨slope, zero, one, zero, half⟩ half ⟨zero, weight⟩ = 0 := by
    rw [hiff]
    refine ⟨fun i hi => ?_, ⟨fun i hi => ?_, fun i hi => ?_, fun c hc => ?_, fun c hc => ?_⟩,
      fun i hi => ⟨fun h => ?_, fun h => ?_⟩, fun c hc => ⟨fun h => ?_, fun h => ?_⟩⟩
    all_goals
      obtain rfl : _ = 0 := Nat.lt_one_iff.1 ‹_ < 1›
      simp only [sum_range_one, hH, hzero, hone, hhalf, hslope, hweight] at *
      linarith
  refine ⟨H, H, ⟨slope, zero, one, zero, half⟩, half, ⟨zero, weight⟩, hnone, hweight,
    (hleast hnone (fun i j hi hj => ?_) fun v => ?_).2⟩
  · rw [Nat.lt_one_iff.1 hi, Nat.lt_one_iff.1 hj]
  · rw [form, sum_range_one, sum_range_one, hH, one_mul]
    exact mul_self_nonneg (v 0)

end ActiveSet
