import ActiveSet.Proofs.Solver.Constrained.FactoredSession
import ActiveSet.Proofs.Solver.Constrained.Optimal

/-!
# Flat directions

In a direction in which the matrix of the objective vanishes, the objective changes at a constant rate
(`Core.objective_addScaled`). If it falls there, it has no lower bound on a set that the direction does
not leave (`Core.boundless_of_falls`).

A direction that leads away from a limit, to the inside (`Inwards`), does not cross it. So the direction
does not leave the loaded limits if none of the other finite ones is in its way
(`Core.Unobstructed.within`, `Constrained.Unobstructed.within`).

A direction is flat for a state if the entities of its working set do not feel it either.
-/

namespace ActiveSet

open Finset

variable {n m : ℕ}

theorem sum_mul_addScaled (a : ℕ → ℝ) (t : ℝ) (d x : Tuple ℝ n) :
    ∑ j ∈ range n, a j * Tuple.addScaled t d x j =
      ∑ j ∈ range n, a j * x j + t * ∑ j ∈ range n, a j * d j := by
  rw [mul_sum, ← sum_add_distrib]
  refine Finset.sum_congr rfl fun j hj => ?_
  rw [Tuple.addScaled_apply _ _ _ (mem_range.1 hj)]
  ring

theorem sum_mul_scale (a : ℕ → ℝ) (t : ℝ) (d : Tuple ℝ n) :
    ∑ j ∈ range n, a j * d.scale t j = t * ∑ j ∈ range n, a j * d j := by
  rw [mul_sum]
  refine Finset.sum_congr rfl fun j hj => ?_
  rw [Tuple.scale_apply _ _ (mem_range.1 hj)]
  ring

/-- A value that changes at a rate moves away from a limit on a side, to the inside. -/
def Inwards (side : Activity) (rate : ℝ) : Prop := side = .lower ∧ 0 < rate ∨ side = .upper ∧ rate < 0

theorem Inwards.pos {rate : ℝ} (h : Inwards .lower rate) : 0 < rate := h.elim (·.2) fun h => nomatch h.1

theorem Inwards.neg {rate : ℝ} (h : Inwards .upper rate) : rate < 0 := h.elim (fun h => nomatch h.1) (·.2)

/-- One of two opposite directions leads to the inside. -/
theorem Inwards.reversed {rate : ℝ} {side : Activity} (hside : side = .lower ∨ side = .upper)
    (hne : rate ≠ 0) (h : ¬Inwards side rate) : Inwards side (-rate) := by
  rcases hside with rfl | rfl
  · exact .inl ⟨rfl, neg_pos.2 (lt_of_le_of_ne (not_lt.1 fun hlt => h (.inl ⟨rfl, hlt⟩)) hne)⟩
  · exact .inr ⟨rfl, neg_neg_of_pos (lt_of_le_of_ne (not_lt.1 fun hlt => h (.inr ⟨rfl, hlt⟩)) hne.symm)⟩

/-- A lower limit still holds on the way, if a value that falls is limited by infinity only. -/
theorem le_add_mul_of_free {own : Prop} {l v rate t infinity : ℝ} (h : rate < 0 → ¬own → l ≤ -infinity)
    (hown : own → 0 < rate) (hfinite : -infinity < l) (hle : l ≤ v) (ht : 0 ≤ t) : l ≤ v + t * rate := by
  have hrate : 0 ≤ rate := not_lt.1 fun hlt =>
    absurd (h hlt fun ho => absurd (hown ho) hlt.not_gt) (not_le.2 hfinite)
  exact hle.trans (le_add_of_nonneg_right (mul_nonneg ht hrate))

/-- So does an upper limit, if a value that rises is. -/
theorem add_mul_le_of_free {own : Prop} {u v rate t infinity : ℝ} (h : 0 < rate → ¬own → infinity ≤ u)
    (hown : own → rate < 0) (hfinite : u < infinity) (hle : v ≤ u) (ht : 0 ≤ t) : v + t * rate ≤ u := by
  have hrate : rate ≤ 0 := not_lt.1 fun hlt =>
    absurd (h hlt fun ho => absurd (hown ho) hlt.not_gt) (not_le.2 hfinite)
  exact (add_le_of_nonpos_right (mul_nonpos_of_nonneg_of_nonpos ht hrate)).trans hle

namespace Core

variable {s : Core ℝ n m} {d x : Tuple ℝ n} {e : Entity n m} {side : Activity}

/-- A direction other than zero in which the matrix of the objective vanishes, and in which no fixed
variable moves. -/
structure Flat (s : Core ℝ n m) (d : Tuple ℝ n) : Prop where
  ne_zero : ∃ j, j < n ∧ d j ≠ 0
  vanishes : ∀ j, j < n → ∑ k ∈ range n, s.hessian j k * d k = 0
  fixed : ∀ i : Fin n, s.bounds.isActive i = true → d i = 0

/-- The change of the loaded objective along a flat direction. -/
noncomputable def slope (s : Core ℝ n m) (d : Tuple ℝ n) : ℝ :=
  ∑ j ∈ range n, s.target.gradient j * d j

/-- A point is within all finite limits that are loaded for the variables. -/
structure Within (s : Core ℝ n m) (x : Tuple ℝ n) : Prop where
  lower_le : ∀ i : Fin n, -s.parameters.infinity < s.target.lower i → s.target.lower i ≤ x i
  le_upper : ∀ i : Fin n, s.target.upper i < s.parameters.infinity → x i ≤ s.target.upper i

/-- No finite limit of a variable is in the way of a direction, but for the limit on one side of one
entity, of which nothing is said. -/
structure Unobstructed (s : Core ℝ n m) (e : Entity n m) (side : Activity) (d : Tuple ℝ n) : Prop where
  lower : ∀ i : Fin n, d i < 0 → ¬(e = .bound i ∧ side = .lower) →
    s.target.lower i ≤ -s.parameters.infinity
  upper : ∀ i : Fin n, 0 < d i → ¬(e = .bound i ∧ side = .upper) →
    s.parameters.infinity ≤ s.target.upper i

/-- The loaded objective has no lower bound on a set of points. -/
def Boundless (s : Core ℝ n m) (p : Tuple ℝ n → Prop) : Prop :=
  ∀ b : ℝ, ∃ x, p x ∧ ActiveSet.objective s.hessian s.target.gradient x < b

/-- The opposite of a flat direction is flat. -/
theorem Flat.reversed (h : s.Flat d) : s.Flat (d.scale (-1)) := by
  refine ⟨?_, fun j hj => ?_, fun i hi => ?_⟩
  · obtain ⟨j, hj, hne⟩ := h.ne_zero
    refine ⟨j, hj, ?_⟩
    rw [Tuple.scale_apply _ _ hj, neg_one_mul]
    exact neg_ne_zero.2 hne
  · rw [sum_mul_scale, h.vanishes j hj, mul_zero]
  · rw [Tuple.scale_apply _ _ i.isLt, h.fixed i hi, mul_zero]

/-- The objective changes at a constant rate along a direction in which its matrix vanishes. -/
theorem objective_addScaled (hsymm : ∀ i j : ℕ, s.hessian i j = s.hessian j i)
    (hd : ∀ j, j < n → ∑ k ∈ range n, s.hessian j k * d k = 0) (t : ℝ) (x : Tuple ℝ n) :
    ActiveSet.objective s.hessian s.target.gradient (Tuple.addScaled t d x) =
      ActiveSet.objective s.hessian s.target.gradient x + t * s.slope d := by
  have hproduct : ∀ i, i < n → ∑ k ∈ range n, s.hessian i k * Tuple.addScaled t d x k =
      ∑ k ∈ range n, s.hessian i k * x k := by
    intro i hi
    rw [sum_mul_addScaled, hd i hi, mul_zero, add_zero]
  -- the product with the matrix has no part in the direction
  have hmixed : ∑ i ∈ range n, d i * ∑ k ∈ range n, s.hessian i k * x k = 0 := by
    simp only [mul_sum]
    rw [sum_comm]
    refine sum_eq_zero fun k hk => ?_
    calc ∑ i ∈ range n, d i * (s.hessian i k * x k)
        = x k * ∑ i ∈ range n, s.hessian k i * d i := by
          rw [mul_sum]
          exact Finset.sum_congr rfl fun i _ => by rw [hsymm i k]; ring
      _ = 0 := by rw [hd k (mem_range.1 hk), mul_zero]
  have hterms : ∀ i ∈ range n, Tuple.addScaled t d x i *
      (dot n (s.hessian i) (Tuple.addScaled t d x) / (1 + 1) + s.target.gradient i) =
        x i * (dot n (s.hessian i) x / (1 + 1) + s.target.gradient i) +
          (t / 2 * (d i * ∑ k ∈ range n, s.hessian i k * x k) +
            t * (s.target.gradient i * d i)) := by
    intro i hi
    have hi := mem_range.1 hi
    rw [dot_eq_sum, dot_eq_sum, hproduct i hi, Tuple.addScaled_apply _ _ _ hi]
    ring
  unfold ActiveSet.objective slope
  rw [sum_eq_sum, sum_eq_sum, Finset.sum_congr rfl hterms, sum_add_distrib, sum_add_distrib,
    ← mul_sum, ← mul_sum, hmixed, mul_zero, zero_add]

/-- A set that can be followed along a direction in which the objective falls has no minimum. -/
theorem boundless_of_falls (hsymm : ∀ i j : ℕ, s.hessian i j = s.hessian j i)
    (hd : ∀ j, j < n → ∑ k ∈ range n, s.hessian j k * d k = 0) (hfalls : s.slope d < 0)
    {p : Tuple ℝ n → Prop} (hp : ∀ x t, 0 ≤ t → p x → p (Tuple.addScaled t d x))
    (hx : ∃ x, p x) : s.Boundless p := by
  intro b
  obtain ⟨x, hx⟩ := hx
  let value := ActiveSet.objective s.hessian s.target.gradient x
  let t := max ((value - b + 1) / -s.slope d) 0
  refine ⟨Tuple.addScaled t d x, hp x t (le_max_right _ _) hx, ?_⟩
  have hfar : value - b + 1 ≤ t * -s.slope d :=
    (div_le_iff₀ (neg_pos.2 hfalls)).1 (le_max_left _ _)
  rw [objective_addScaled hsymm hd]
  linarith

theorem Unobstructed.within (h : s.Unobstructed e side d)
    (hinwards : ∀ i, e = .bound i → Inwards side (d i)) (hx : s.Within x) {t : ℝ} (ht : 0 ≤ t) :
    s.Within (Tuple.addScaled t d x) := by
  refine ⟨fun i hfinite => ?_, fun i hfinite => ?_⟩
  · rw [Tuple.addScaled_apply _ _ _ i.isLt]
    refine le_add_mul_of_free (h.lower i) ?_ hfinite (hx.lower_le i hfinite) ht
    rintro ⟨he, rfl⟩
    exact (hinwards i he).pos
  · rw [Tuple.addScaled_apply _ _ _ i.isLt]
    refine add_mul_le_of_free (h.upper i) ?_ hfinite (hx.le_upper i hfinite) ht
    rintro ⟨he, rfl⟩
    exact (hinwards i he).neg

end Core

namespace Constrained

variable {s : Constrained ℝ n m} {d x : Tuple ℝ n} {e : Entity n m} {side : Activity}

/-- A flat direction in which no row of the working set changes its value either. -/
structure Flat (s : Constrained ℝ n m) (d : Tuple ℝ n) : Prop extends s.toCore.Flat d where
  rows : ∀ i : Fin m, s.constraints.isActive i = true → ∑ j ∈ range n, s.matrix i j * d j = 0

/-- A point is within all finite limits that are loaded. -/
structure Within (s : Constrained ℝ n m) (x : Tuple ℝ n) : Prop extends s.toCore.Within x where
  rowLower_le : ∀ i : Fin m, -s.parameters.infinity < s.target.rowLower i →
    s.target.rowLower i ≤ ∑ j ∈ range n, s.matrix i j * x j
  le_rowUpper : ∀ i : Fin m, s.target.rowUpper i < s.parameters.infinity →
    ∑ j ∈ range n, s.matrix i j * x j ≤ s.target.rowUpper i

/-- No finite limit is in the way of a direction, but for the limit on one side of one entity, of which
nothing is said. -/
structure Unobstructed (s : Constrained ℝ n m) (e : Entity n m) (side : Activity) (d : Tuple ℝ n) : Prop
    extends s.toCore.Unobstructed e side d where
  rowLower : ∀ i : Fin m, s.valueOf d (.constraint i) < 0 → ¬(e = .constraint i ∧ side = .lower) →
    s.target.rowLower i ≤ -s.parameters.infinity
  rowUpper : ∀ i : Fin m, 0 < s.valueOf d (.constraint i) → ¬(e = .constraint i ∧ side = .upper) →
    s.parameters.infinity ≤ s.target.rowUpper i

theorem Flat.reversed (h : s.Flat d) : s.Flat (d.scale (-1)) := by
  refine ⟨h.toFlat.reversed, fun i hi => ?_⟩
  rw [sum_mul_scale, h.rows i hi, mul_zero]

theorem Unobstructed.within (h : s.Unobstructed e side d) (hinwards : Inwards side (s.valueOf d e))
    (hx : s.Within x) {t : ℝ} (ht : 0 ≤ t) : s.Within (Tuple.addScaled t d x) := by
  have hbound : ∀ i, e = .bound i → Inwards side (d i) := by
    rintro i rfl
    rwa [valueOf_bound] at hinwards
  refine ⟨h.toUnobstructed.within hbound hx.toWithin ht, fun i hfinite => ?_, fun i hfinite => ?_⟩
  · rw [sum_mul_addScaled]
    refine le_add_mul_of_free (h.rowLower i) ?_ hfinite (hx.rowLower_le i hfinite) ht
    rintro ⟨rfl, rfl⟩
    exact hinwards.pos
  · rw [sum_mul_addScaled]
    refine add_mul_le_of_free (h.rowUpper i) ?_ hfinite (hx.le_rowUpper i hfinite) ht
    rintro ⟨rfl, rfl⟩
    exact hinwards.neg

end Constrained

end ActiveSet
