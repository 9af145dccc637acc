import ActiveSet.Proofs.Factor.Definite
import Mathlib.Algebra.QuadraticDiscriminant

/-!
# Positive semidefinite matrices

A factor of a semidefinite matrix cannot always be extended: without tolerances it fails exactly where
the quadratic form vanishes in a direction that has a part in the new dimension
(`Cholesky.Factors.exists_flat`). In such a direction the matrix itself vanishes
(`Semidefinite.vanishes`).
-/

namespace ActiveSet

open Finset

/-- A matrix is positive semidefinite: its quadratic form is nowhere negative. -/
def Semidefinite (d : ℕ) (h : ℕ → ℕ → ℝ) : Prop := ∀ v : ℕ → ℝ, 0 ≤ form d h v

variable {d : ℕ} {h : ℕ → ℕ → ℝ}

/-- A form along a straight line. -/
theorem form_add_mul (hsymm : ∀ i j, i < d → j < d → h i j = h j i) (v w : ℕ → ℝ) (t : ℝ) :
    form d h (fun i => v i + t * w i) =
      form d h w * (t * t) + 2 * (∑ i ∈ range d, w i * ∑ j ∈ range d, h i j * v j) * t +
        form d h v := by
  have hmixed : ∑ i ∈ range d, v i * ∑ j ∈ range d, h i j * w j =
      ∑ i ∈ range d, w i * ∑ j ∈ range d, h i j * v j := by
    simp only [mul_sum]
    rw [sum_comm]
    refine Finset.sum_congr rfl fun j hj => Finset.sum_congr rfl fun i hi => ?_
    rw [hsymm i j (mem_range.1 hi) (mem_range.1 hj)]
    ring
  have hinner : ∀ i, ∑ j ∈ range d, h i j * (v j + t * w j) =
      ∑ j ∈ range d, h i j * v j + t * ∑ j ∈ range d, h i j * w j := by
    intro i
    rw [mul_sum, ← sum_add_distrib]
    exact Finset.sum_congr rfl fun j _ => by ring
  -- two sums that are linear in `t` have a product that is quadratic in it
  have hsplit : ∀ A B : ℕ → ℝ, ∑ i ∈ range d, (v i + t * w i) * (A i + t * B i) =
      ∑ i ∈ range d, v i * A i + t * ∑ i ∈ range d, v i * B i +
        (t * ∑ i ∈ range d, w i * A i + t * t * ∑ i ∈ range d, w i * B i) := by
    intro A B
    simp only [mul_sum, ← sum_add_distrib]
    exact Finset.sum_congr rfl fun i _ => by ring
  unfold form
  simp only [hinner]
  rw [hsplit, hmixed]
  ring

/-- Where the form of a semidefinite matrix vanishes, the matrix does: a step along its product with the
vector would make the form negative otherwise. -/
theorem Semidefinite.vanishes (hdef : Semidefinite d h)
    (hsymm : ∀ i j, i < d → j < d → h i j = h j i) {v : ℕ → ℝ} (hv : form d h v ≤ 0) {i : ℕ}
    (hi : i < d) : ∑ j ∈ range d, h i j * v j = 0 := by
  let w (i : ℕ) : ℝ := ∑ j ∈ range d, h i j * v j
  have hzero : form d h v = 0 := le_antisymm hv (hdef v)
  have hline : ∀ t : ℝ, 0 ≤ form d h w * (t * t) + 2 * (∑ i ∈ range d, w i * w i) * t + 0 := by
    intro t
    have hle := hdef fun i => v i + t * w i
    rwa [form_add_mul hsymm, hzero] at hle
  have hdiscrim := discrim_le_zero hline
  rw [discrim, mul_zero, sub_zero] at hdiscrim
  have hsquares : ∑ i ∈ range d, w i * w i = 0 := by
    have := pow_eq_zero_iff (two_ne_zero) |>.1 (le_antisymm hdiscrim (sq_nonneg _))
    linarith
  have hall := (sum_eq_zero_iff_of_nonneg fun i _ => mul_self_nonneg (w i)).1 hsquares
  exact mul_self_eq_zero.1 (hall i (mem_range.2 hi))

namespace Cholesky

variable {n k : ℕ} {f : Cholesky ℝ n} {M N : ℕ → ℕ → ℝ}

/-- Where a factor cannot be extended, the form of the larger matrix is not positive for all vectors
with a part in the new dimension. -/
theorem Factors.exists_flat (hf : f.Factors M) (hn : f.dim < n) (hk : k = f.dim) {c : Tuple ℝ k}
    {a : ℝ} (hM : ∀ i j, i < f.dim → j < f.dim → N i j = M i j)
    (hcol : ∀ i, i < f.dim → N i f.dim = c i)
    (hrow : ∀ i, i < f.dim → N f.dim i = N i f.dim) (hdiag : N f.dim f.dim = a)
    {e : Failure (Tuple ℝ k)} (hfailed : f.append? c a 0 0 = some (.error e)) :
    ∃ u : ℕ → ℝ, u f.dim = 1 ∧ form (f.dim + 1) N u ≤ 0 := by
  obtain ⟨w, hw, hdecided⟩ := hf.append?_decided hn hk c a 0
  rw [hfailed] at hdecided
  cases hdecided with
  | fails hpivot =>
    -- the new dimension moves by one, and the others make up for it
    let u (i : ℕ) : ℝ := if i = f.dim then 1 else -w i
    have hlast : u f.dim = 1 := if_pos rfl
    have hu : ∀ i ∈ range f.dim, u i = -w i := fun i hi => if_neg (mem_range.1 hi).ne
    have hold : form f.dim N u = ∑ i ∈ range f.dim, c i * w i := by
      have hproduct : ∀ i ∈ range f.dim, ∑ j ∈ range f.dim, N i j * u j = -c i := by
        intro i hi
        rw [← hw i (mem_range.1 hi), ← sum_neg_distrib]
        refine Finset.sum_congr rfl fun j hj => ?_
        rw [hM i j (mem_range.1 hi) (mem_range.1 hj), hu j hj, mul_neg]
      refine Finset.sum_congr rfl fun i hi => ?_
      rw [hproduct i hi, hu i hi, neg_mul_neg, mul_comm]
    have hmixed : ∑ i ∈ range f.dim, u i * N i f.dim = -∑ i ∈ range f.dim, c i * w i := by
      rw [← sum_neg_distrib]
      refine Finset.sum_congr rfl fun i hi => ?_
      rw [hu i hi, hcol i (mem_range.1 hi), neg_mul, mul_comm]
    refine ⟨u, hlast, ?_⟩
    rw [form_succ hrow, hold, hmixed, hlast, hdiag]
    linarith

end Cholesky

end ActiveSet
