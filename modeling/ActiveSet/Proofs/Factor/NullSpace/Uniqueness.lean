import ActiveSet.Proofs.Factor.Cholesky
import ActiveSet.Proofs.Factor.NullSpace.Splitting

/-!
# What a null space factorization determines

The rows of a matrix with a null space factorization are independent, and all its factorizations
share their range part, apart from signs. Only the basis of the null space is a matter of choice.

* `Factors.rows_eq`, `Factors.rows_independent`: the rows, and their independence.
* `Factors.unique`: `T` and the basis of the range.
-/

namespace ActiveSet.NullSpace

open Finset

variable {n m : ℕ} {f f' : NullSpace ℝ n m} {A : ℕ → ℕ → ℝ}

/-- The rows of the matrix are combinations of the basis of the range. -/
theorem Factors.rows_eq (hf : f.Factors A) {c p : ℕ} (hc : c < f.nActive) (hp : p < f.nFree) :
    ∑ j ∈ Finset.range f.nActive, f.t c j * f.q p (f.nNull + j) = A c p := by
  have hsum := f.nNull_add
  have hnull : ∑ j ∈ Finset.range f.nNull, coord f.nFree (A c) f.q j * f.q p j = 0 :=
    sum_eq_zero fun j hj => by rw [hf.null c j hc (mem_range.1 hj), zero_mul]
  rw [← hf.orthonormal.expand (A c) hp, ← hsum, sum_range_add]
  rw [← hsum] at hnull
  rw [hnull, zero_add, hsum]
  exact Finset.sum_congr rfl fun j hj => by rw [hf.range c j hc (mem_range.1 hj)]

/-- A combination of the columns of `T` vanishes only if it has no coefficients. -/
theorem Factors.columns_independent (hf : f.Factors A) {x : ℕ → ℝ}
    (h : ∀ c, c < f.nActive → ∑ j ∈ Finset.range f.nActive, f.t c j * x j = 0) :
    ∀ j, j < f.nActive → x j = 0 := by
  refine eq_zero_of_upper (F := fun u j => f.t (f.nActive - 1 - u) j) (fun u j hju hu => ?_)
    (fun u hu => ?_) fun u hu => h _ (by omega)
  · exact hf.reverse _ _ (by omega) (by omega)
  · have hne := hf.antidiag_ne (f.nActive - 1 - u) (by omega)
    rwa [show f.nActive - 1 - (f.nActive - 1 - u) = u by omega] at hne

/-- A combination of the rows vanishes only if it has no coefficients. -/
theorem Factors.rows_independent (hf : f.Factors A) {x : ℕ → ℝ}
    (h : ∀ p, p < f.nFree → ∑ c ∈ Finset.range f.nActive, x c * A c p = 0) :
    ∀ c, c < f.nActive → x c = 0 := by
  -- the combination of the rows of `T` vanishes as well
  have hcoord : ∀ j, j < f.nActive → ∑ c ∈ Finset.range f.nActive, x c * f.t c j = 0 := by
    intro j hj
    have hzero : ∑ p ∈ Finset.range f.nFree,
        (∑ c ∈ Finset.range f.nActive, x c * A c p) * f.q p (f.nNull + j) = 0 :=
      sum_eq_zero fun p hp => by rw [h p (mem_range.1 hp), zero_mul]
    simp only [sum_mul] at hzero
    rw [sum_comm] at hzero
    rw [← hzero]
    refine Finset.sum_congr rfl fun c hc => ?_
    rw [← hf.range c j (mem_range.1 hc) hj, coord, mul_sum]
    exact Finset.sum_congr rfl fun p _ => by ring
  refine eq_zero_of_upper (F := fun u c => f.t c (f.nActive - 1 - u)) (fun u c hcu hu => ?_)
    (fun u hu => ?_) fun u hu => ?_
  · exact hf.reverse _ _ (by omega) (by omega)
  · exact hf.antidiag_ne u hu
  · rw [← hcoord (f.nActive - 1 - u) (by omega)]
    exact Finset.sum_congr rfl fun c _ => mul_comm _ _

/-- The products of the rows of `T` are those of the rows of the matrix. -/
theorem Factors.products (hf : f.Factors A) {c e : ℕ} (hc : c < f.nActive) (he : e < f.nActive) :
    ∑ j ∈ Finset.range f.nActive, f.t c j * f.t e j = ∑ p ∈ Finset.range f.nFree, A c p * A e p := by
  have hcoord : ∀ j ∈ Finset.range f.nActive, f.t c j * f.t e j =
      ∑ p ∈ Finset.range f.nFree, f.t c j * f.q p (f.nNull + j) * A e p := by
    intro j hj
    rw [← hf.range e j he (mem_range.1 hj), coord, mul_sum]
    exact Finset.sum_congr rfl fun p _ => by ring
  rw [Finset.sum_congr rfl hcoord, sum_comm]
  refine Finset.sum_congr rfl fun p hp => ?_
  rw [← sum_mul, hf.rows_eq hc (mem_range.1 hp)]

/-- Two factorizations of a matrix have the same `T` and the same basis of the range, apart from the
signs of the vectors. -/
theorem Factors.unique (hf : f.Factors A) (hf' : f'.Factors A) (hfree : f'.nFree = f.nFree)
    (hactive : f'.nActive = f.nActive) : ∃ sign : ℕ → ℝ, ∀ j, j < f.nActive →
      (sign j = 1 ∨ sign j = -1) ∧ (∀ c, c < f.nActive → f'.t c j = sign j * f.t c j) ∧
        ∀ p, p < f.nFree → f'.q p (f.nNull + j) = sign j * f.q p (f.nNull + j) := by
  have hnull : f'.nNull = f.nNull := by rw [nNull, nNull, hfree, hactive]
  -- with its columns in reverse order, the transpose of `T` is upper triangular
  have hupper : ∀ u c, c < u → u < f.nActive → f.t c (f.nActive - 1 - u) = 0 :=
    fun u c hcu hu => hf.reverse _ _ (by omega) (by omega)
  have hupper' : ∀ u c, c < u → u < f.nActive → f'.t c (f.nActive - 1 - u) = 0 :=
    fun u c hcu hu => hf'.reverse _ _ (by omega) (by omega)
  have hsigns := Cholesky.rows_eq_of_products_eq (d := f.nActive) (e := f.nActive)
    (F := fun u c => f.t c (f.nActive - 1 - u)) (E := fun u c => f'.t c (f.nActive - 1 - u))
    (Nat.le_refl _) hupper hupper' (fun u hu => hf.antidiag_ne u hu) fun c e hc _ he => by
      have h := hf.products hc he
      have h' := hf'.products (hactive ▸ hc) (hactive ▸ he)
      rw [hactive, hfree] at h'
      rw [← Cholesky.sum_columns_of_upper hupper hc, ← Cholesky.sum_columns_of_upper hupper' hc,
        sum_range_reflect (fun j => f'.t c j * f'.t e j) f.nActive,
        sum_range_reflect (fun j => f.t c j * f.t e j) f.nActive, h, h']
  choose! sign hsign hcolumns using hsigns
  have hT : ∀ j, j < f.nActive → ∀ c, c < f.nActive →
      f'.t c j = sign (f.nActive - 1 - j) * f.t c j := by
    intro j hj c hc
    have h := hcolumns (f.nActive - 1 - j) (by omega) c hc
    rwa [show f.nActive - 1 - (f.nActive - 1 - j) = j by omega] at h
  have hsquare : ∀ j, j < f.nActive →
      sign (f.nActive - 1 - j) * sign (f.nActive - 1 - j) = 1 := by
    intro j hj
    rcases hsign (f.nActive - 1 - j) (by omega) with h | h
    · rw [h, one_mul]
    · rw [h]
      norm_num
  refine ⟨fun j => sign (f.nActive - 1 - j), fun j hj => ⟨hsign _ (by omega), hT j hj, ?_⟩⟩
  intro p hp
  -- both bases give the same rows, and the columns of `T` are independent
  have hdiff := hf.columns_independent
    (x := fun j => sign (f.nActive - 1 - j) * f'.q p (f.nNull + j) - f.q p (f.nNull + j))
    fun c hc => by
      have h := hf.rows_eq hc hp
      have h' := hf'.rows_eq (hactive ▸ hc) (hfree ▸ hp)
      rw [hactive, hnull] at h'
      calc ∑ j ∈ Finset.range f.nActive, f.t c j *
            (sign (f.nActive - 1 - j) * f'.q p (f.nNull + j) - f.q p (f.nNull + j))
          = (∑ j ∈ Finset.range f.nActive, f'.t c j * f'.q p (f.nNull + j)) -
              ∑ j ∈ Finset.range f.nActive, f.t c j * f.q p (f.nNull + j) := by
            rw [← sum_sub_distrib]
            refine Finset.sum_congr rfl fun j hj => ?_
            rw [hT j (mem_range.1 hj) c hc]
            ring
        _ = 0 := by rw [h, h', sub_self]
  have hj' := hdiff j hj
  have hsq := hsquare j hj
  dsimp only at hj' ⊢
  linear_combination sign (f.nActive - 1 - j) * hj' - f'.q p (f.nNull + j) * hsq

end ActiveSet.NullSpace
