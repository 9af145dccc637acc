import ActiveSet.Proofs.Factor.CholeskyHistory
import ActiveSet.Proofs.Factor.Definite
import Mathlib.LinearAlgebra.Matrix.Block
import Mathlib.LinearAlgebra.Matrix.PosDef

/-!
# What a factorization decides

The pivots that are met on the way are Schur complements: the number a column of the matrix is left with
after the columns before are taken off belongs to the matrix, and not to the order of the operations. So
the tests of the pivots decide a property of the matrix, which without a tolerance is that it is positive
definite.

* `schurComplement`: a diagonal entry over the leading block before it.
* `Factors.schurComplement_eq`: what a column of the factor leaves of it.
* `fillColumns_ok_iff`, `factorize?_ok_iff`: the factorization succeeds where all of them are above the
  tolerance.
* `factorize?_ok_iff_posDef`: without a tolerance, where the matrix is positive definite.
* `factorize_decides`: both, with the factor and with what a failure leaves.
-/

namespace ActiveSet

open Finset Matrix

/-- The leading block of dimension `d`. -/
def leadingBlock (d : ℕ) (M : ℕ → ℕ → ℝ) : Matrix (Fin d) (Fin d) ℝ := Matrix.of fun i j => M i j

/-- The Schur complement of the leading block of dimension `j` in the next one. -/
noncomputable def schurComplement (M : ℕ → ℕ → ℝ) (j : ℕ) : ℝ :=
  M j j - (fun i : Fin j => M j i) ⬝ᵥ (leadingBlock j M)⁻¹ *ᵥ fun i : Fin j => M i j

/-- `R` is an upper triangular matrix with a positive diagonal, and `A` is `Rᵀ R`. -/
structure IsCholesky {d : ℕ} (A R : Matrix (Fin d) (Fin d) ℝ) : Prop where
  upper : R.BlockTriangular id
  diag_pos : ∀ i, 0 < R i i
  product : R.transpose * R = A

variable {d : ℕ} {M : ℕ → ℕ → ℝ}

/-! ## Definite matrices -/

theorem dotProduct_leadingBlock (v : ℕ → ℝ) :
    (fun i : Fin d => v i) ⬝ᵥ leadingBlock d M *ᵥ (fun i : Fin d => v i) = form d M v := by
  rw [form, Finset.sum_range]
  refine Finset.sum_congr rfl fun i _ => ?_
  rw [Finset.sum_range]
  rfl

/-- A symmetric matrix is positive definite if its quadratic form is positive but at zero. -/
theorem posDef_leadingBlock_iff (hsymm : (leadingBlock d M).IsSymm) :
    (leadingBlock d M).PosDef ↔ Definite d M := by
  constructor
  · rintro hpos v ⟨i, hi, hv⟩
    rw [← dotProduct_leadingBlock]
    exact hpos.dotProduct_mulVec_pos (x := fun i : Fin d => v i) fun h => hv (congrFun h ⟨i, hi⟩)
  · refine fun hdef => .of_dotProduct_mulVec_pos hsymm fun x hx => ?_
    -- the vector as a sequence
    let v (i : ℕ) : ℝ := if h : i < d then x ⟨i, h⟩ else 0
    have hv : (fun i : Fin d => v i) = x := funext fun i => dif_pos i.isLt
    obtain ⟨i, hi⟩ := Function.ne_iff.1 hx
    have hpos := hdef v ⟨i, i.isLt, by rwa [← hv] at hi⟩
    rwa [← dotProduct_leadingBlock, hv] at hpos

namespace Cholesky

variable {n : ℕ} {f f' : Cholesky ℝ n} {tolerance : ℝ} {G : Grid ℝ n n}

/-- A matrix that has a factor is definite. -/
theorem Factors.definite (hf : f.Factors M) : Definite f.dim M := by
  rintro v ⟨i, hi, hv⟩
  rw [hf.form_eq fun _ _ => rfl]
  refine (sum_nonneg fun k _ => mul_self_nonneg _).lt_of_ne' fun hzero => hv ?_
  have hall := (sum_eq_zero_iff_of_nonneg fun k _ => mul_self_nonneg _).1 hzero
  exact eq_zero_of_upper hf.upper hf.diag_ne
    (fun i hi => mul_self_eq_zero.1 (hall i (mem_range.2 hi))) i hi

/-! ## Pivots -/

/-- The inverse of a matrix by means of its factor. -/
theorem Factors.inv_mulVec (hf : f.Factors M) (hsymm : (leadingBlock f.dim M).IsSymm) {c w : ℕ → ℝ}
    (hw : ∀ i, i < f.dim → ∑ j ∈ range f.dim, M i j * w j = c i) :
    (leadingBlock f.dim M)⁻¹ *ᵥ (fun i : Fin f.dim => c i) = fun i : Fin f.dim => w i := by
  have hunit : IsUnit (leadingBlock f.dim M).det :=
    ((Matrix.isUnit_iff_isUnit_det _).1 ((posDef_leadingBlock_iff hsymm).2 hf.definite).isUnit)
  have hproduct : leadingBlock f.dim M *ᵥ (fun i : Fin f.dim => w i) = fun i : Fin f.dim => c i := by
    funext i
    rw [← hw i i.isLt, Finset.sum_range]
    rfl
  rw [← hproduct, Matrix.mulVec_mulVec, Matrix.nonsing_inv_mul _ hunit, Matrix.one_mulVec]

/-- A column that solves its system leaves the Schur complement of the diagonal entry. -/
theorem Factors.schurComplement_eq (hf : f.Factors M)
    (hsymm : (leadingBlock (f.dim + 1) M).IsSymm) {r : ℕ → ℝ}
    (hr : ∀ i, i < f.dim → ∑ k ∈ range f.dim, f.entries k i * r k = M i f.dim) :
    schurComplement M f.dim = M f.dim f.dim - ∑ k ∈ range f.dim, r k * r k := by
  have hcomm : ∀ i j, i < f.dim + 1 → j < f.dim + 1 → M i j = M j i :=
    fun i j hi hj => hsymm.apply ⟨j, hj⟩ ⟨i, hi⟩
  -- the inverse is applied through the factor, by one more substitution
  obtain ⟨w, hw⟩ := backSubstitute_ok (b := r) hf.diag_ne (Tuple.fill f.dim 0)
  have hw := backSubstitute_solves hf.upper hf.diag_ne hw
  have hinverse := hf.inv_mulVec (Matrix.IsSymm.ext fun i j => hcomm j i (by omega) (by omega))
    fun i hi => (hf.sum_mul_eq hw hi).trans (hr i hi)
  rw [schurComplement, hinverse]
  congr 1
  -- the inner product with the solution is that of the right-hand side with itself
  calc (fun i : Fin f.dim => M f.dim i) ⬝ᵥ (fun i : Fin f.dim => w i)
      = ∑ i ∈ range f.dim, M f.dim i * w i := (Finset.sum_range fun i => M f.dim i * w i).symm
    _ = ∑ i ∈ range f.dim, ∑ k ∈ range f.dim, r k * (f.entries k i * w i) := by
        refine Finset.sum_congr rfl fun i hi => ?_
        have hi := mem_range.1 hi
        rw [hcomm f.dim i (by omega) (by omega), ← hr i hi, sum_mul]
        exact Finset.sum_congr rfl fun k _ => by ring
    _ = ∑ k ∈ range f.dim, r k * r k := by
        rw [sum_comm]
        refine Finset.sum_congr rfl fun k hk => ?_
        rw [← mul_sum, hw k (mem_range.1 hk)]

/-- The pivot of a column is a Schur complement. -/
theorem Filled.pivot_eq {j : ℕ} (hG : Filled M j G) (hj : j < n)
    (hsymm : (leadingBlock (j + 1) M).IsSymm) :
    (deduct (M j j) j fun k => fillColumn M j j G k j * fillColumn M j j G k j) =
      schurComplement M j := by
  have hcomm : ∀ a b, a < j → b < j → M a b = M b a :=
    fun a b ha hb => hsymm.apply ⟨b, by omega⟩ ⟨a, by omega⟩
  rw [deduct_eq_sum]
  exact ((hG.factors hj.le hcomm).schurComplement_eq hsymm fun i hi =>
    hG.column_solves hj hi).symm

/-- The columns can be filled where all Schur complements are above the tolerance: the first one that
is not is met by its column, as the columns before could be filled. -/
theorem fillColumns_ok_iff (htol : 0 ≤ tolerance) (hG : ∀ i j, j < i → G i j = 0) (hd : d ≤ n)
    (hsymm : (leadingBlock d M).IsSymm) :
    (∃ G', fillColumns M tolerance d G = .ok G') ↔ ∀ j, j < d → tolerance < schurComplement M j := by
  -- by induction on the columns: what is left on the diagonal is the next Schur complement
  induction d with
  | zero => exact ⟨fun _ j hj => absurd hj (Nat.not_lt_zero j), fun _ => ⟨G, rfl⟩⟩
  | succ d ih =>
    have ih := ih (by omega) (Matrix.IsSymm.ext fun i j => hsymm.apply i.castSucc j.castSucc)
    rw [Nat.forall_lt_succ_right, ← ih, fillColumns]
    cases hfirst : fillColumns M tolerance d G with
    | error e =>
      constructor
      · rintro ⟨_, h⟩
        cases h
      · rintro ⟨⟨_, h⟩, -⟩
        cases h
    | ok G1 =>
      have hpivot := (fillColumns_filled htol hG (by omega) hfirst).pivot_eq (by omega) hsymm
      change (∃ G', (if deduct (M d d) d (fun k => fillColumn M d d G1 k d *
        fillColumn M d d G1 k d) ≤ tolerance then _ else _) = Except.ok G') ↔ _
      rw [hpivot]
      constructor
      · rintro ⟨G', h⟩
        split at h
        · cases h
        · next hgt => exact ⟨⟨G1, rfl⟩, not_le.1 hgt⟩
      · rintro ⟨-, hgt⟩
        rw [if_neg (not_le.2 hgt)]
        exact ⟨_, rfl⟩

/-- A matrix can be factorized if all its Schur complements are above the tolerance. -/
theorem factorize?_ok_iff (htol : 0 ≤ tolerance) (hd : d ≤ n) (hsymm : (leadingBlock d M).IsSymm) :
    (∃ f', f.factorize? d M tolerance = some (.ok f')) ↔
      ∀ j, j < d → tolerance < schurComplement M j := by
  rw [← fillColumns_ok_iff (G := f.cleared) htol (fun i j _ => f.cleared_apply i j) hd hsymm]
  unfold factorize?
  rw [dif_pos hd]
  cases fillColumns M tolerance d f.cleared with
  | ok G => exact ⟨fun _ => ⟨G, rfl⟩, fun _ => ⟨_, rfl⟩⟩
  | error e =>
    constructor
    · rintro ⟨_, h⟩
      cases h
    · rintro ⟨_, h⟩
      cases h

/-- Without a tolerance, a matrix can be factorized if it is positive definite. -/
theorem factorize?_ok_iff_posDef (hd : d ≤ n) (hsymm : (leadingBlock d M).IsSymm) :
    (∃ f', f.factorize? d M 0 = some (.ok f')) ↔ (leadingBlock d M).PosDef := by
  have hcomm : ∀ i j, i < d → j < d → M i j = M j i := fun i j hi hj => hsymm.apply ⟨j, hj⟩ ⟨i, hi⟩
  rw [posDef_leadingBlock_iff hsymm]
  refine ⟨fun ⟨f', h⟩ => ?_, fun hdef => factorize?_ok_of_definite hd hdef hcomm⟩
  obtain ⟨rfl, hfactors⟩ := factors_factorize le_rfl hcomm h
  exact hfactors.definite

theorem fillColumns_error {e : Failure (Grid ℝ n n)} (h : fillColumns M tolerance d G = .error e) :
    e.error = .hessianNotSpd := by
  induction d with
  | zero => cases h
  | succ d ih =>
    rw [fillColumns] at h
    cases hfirst : fillColumns M tolerance d G with
    | error e' =>
      rw [hfirst] at h ih
      cases h
      exact ih rfl
    | ok G1 =>
      rw [hfirst] at h
      change (if deduct (M d d) d (fun k => fillColumn M d d G1 k d *
        fillColumn M d d G1 k d) ≤ tolerance then _ else _) = _ at h
      split at h <;> cases h
      rfl

/-- A factorization fails in one way only, and then nothing is left of the factor. -/
theorem factorize?_error {e : Failure (Cholesky ℝ n)}
    (h : f.factorize? d M tolerance = some (.error e)) : e.error = .hessianNotSpd ∧ e.left.dim = 0 := by
  obtain ⟨left, hfill, herror, hdim⟩ := factorize?_eq_error h
  exact ⟨herror.trans (fillColumns_error hfill), hdim⟩

/-! ## The factor -/

/-- The factor of a matrix is the only upper triangular one with a positive diagonal. -/
theorem Factors.isCholesky_iff (hf : f.Factors M) (hpos : f.Positive)
    {R : Matrix (Fin f.dim) (Fin f.dim) ℝ} :
    IsCholesky (leadingBlock f.dim M) R ↔ R = leadingBlock f.dim f.entries := by
  constructor
  · rintro ⟨hupper, hdiag, hproduct⟩
    -- the matrix as an array
    let E (i j : ℕ) : ℝ := if h : i < f.dim ∧ j < f.dim then R ⟨i, h.1⟩ ⟨j, h.2⟩ else 0
    have hE : ∀ i j : Fin f.dim, E i j = R i j := fun i j => dif_pos ⟨i.isLt, j.isLt⟩
    ext i j
    rw [← hE]
    refine hf.eq_entries_of_positive hpos (fun a b hba ha => ?_) (fun a ha => ?_)
      (fun a b ha hb => ?_) i.isLt j.isLt
    · exact (hE ⟨a, ha⟩ ⟨b, Nat.lt_trans hba ha⟩).trans (hupper hba)
    · exact (hdiag ⟨a, ha⟩).trans_eq (hE ⟨a, ha⟩ ⟨a, ha⟩).symm
    · rw [Finset.sum_range]
      refine Eq.trans (Finset.sum_congr rfl fun k _ => ?_)
        (congrFun (congrFun hproduct ⟨a, ha⟩) ⟨b, hb⟩)
      exact congrArg₂ (· * ·) (hE k ⟨a, ha⟩) (hE k ⟨b, hb⟩)
  · rintro rfl
    refine ⟨fun i j hji => hf.upper i j hji i.isLt, fun i => hpos i i.isLt, ?_⟩
    ext i j
    refine Eq.trans ?_ (hf.product i j i.isLt j.isLt)
    rw [Finset.sum_range]
    rfl

end Cholesky

open Cholesky

/-- A factorization decides whether all Schur complements of a matrix are above a tolerance. Without a
tolerance it decides whether the matrix is positive definite. The factor it comes to is the only upper
triangular one with a positive diagonal, whatever the factor was before, and where it fails no factor is
left. -/
theorem factorize_decides (n d : ℕ) (M : ℕ → ℕ → ℝ) (tolerance : ℝ) (f : Cholesky ℝ n) (hd : d ≤ n)
    (hsymm : (leadingBlock d M).IsSymm) (htol : 0 ≤ tolerance) :
    (f.factorize? d M tolerance).isSome ∧
      f.factorize? d M tolerance = (Cholesky.empty n).factorize? d M tolerance ∧
      ((∃ f', f.factorize? d M tolerance = some (.ok f')) ↔
        ∀ j, j < d → tolerance < schurComplement M j) ∧
      (tolerance = 0 →
        ((∃ f', f.factorize? d M tolerance = some (.ok f')) ↔ (leadingBlock d M).PosDef)) ∧
      (∀ f', f.factorize? d M tolerance = some (.ok f') →
        f'.dim = d ∧ ∀ R, IsCholesky (leadingBlock d M) R ↔ R = leadingBlock d f'.entries) ∧
      ∀ e, f.factorize? d M tolerance = some (.error e) →
        e.error = .hessianNotSpd ∧ e.left.dim = 0 := by
  refine ⟨?_, factorize?_congr fun _ _ _ _ => rfl, factorize?_ok_iff htol hd hsymm, ?_, ?_,
    fun e => factorize?_error⟩
  · -- the call gives a result
    obtain ⟨f', h, -⟩ | ⟨e, h⟩ := factorize?_of (f := f) M tolerance hd
    all_goals rw [h]; rfl
  · -- without a tolerance the test is definiteness
    rintro rfl
    exact factorize?_ok_iff_posDef hd hsymm
  · -- a success is the unique factor
    intro f' h
    obtain ⟨rfl, hfactors⟩ := factors_factorize htol
      (fun i j hi hj => hsymm.apply ⟨j, hj⟩ ⟨i, hi⟩) h
    exact ⟨rfl, fun R => hfactors.isCholesky_iff (positive_factorize htol h)⟩

/-- The Schur complements of a matrix with determinant one: they are one, so that the matrix has a factor
even with a tolerance of a half. -/
theorem factorize_decides_unimodular :
    ∃ M : ℕ → ℕ → ℝ, (∀ j, j < 2 → schurComplement M j = 1) ∧
      ∃ f' : Cholesky ℝ 3, (Cholesky.empty 3).factorize? 2 M (1 / 2) = some (.ok f') ∧ f'.dim = 2 := by
  let M (i j : ℕ) : ℝ := if i = 1 ∧ j = 1 then 5 else if i = j then 1 else 2
  have hsymm : (leadingBlock 2 M).IsSymm := by
    ext i j
    fin_cases i <;> fin_cases j <;> rfl
  have hfirst : leadingBlock 1 M = 1 := by
    ext i j
    fin_cases i
    fin_cases j
    rfl
  have hschur : ∀ j, j < 2 → schurComplement M j = 1 := by
    intro j hj
    interval_cases j
    · simp [schurComplement, M]
    · rw [schurComplement, hfirst, inv_one, Matrix.one_mulVec]
      norm_num [dotProduct, M]
  obtain ⟨-, -, hok, -, hfactor, -⟩ := factorize_decides 3 2 M (1 / 2) (.empty 3) (by omega) hsymm
    (by norm_num)
  obtain ⟨f', h⟩ := hok.2 fun j hj => by
    rw [hschur j hj]
    norm_num
  exact ⟨M, hschur, f', h, (hfactor f' h).1⟩

end ActiveSet
