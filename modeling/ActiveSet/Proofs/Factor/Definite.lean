import ActiveSet.Proofs.Factor.Deletion

/-!
# Positive definite matrices

Without tolerances, a factorization of a positive definite matrix never fails: each pivot is a Schur
complement, which is a value of the quadratic form (`Factors.sum_sq_lt`). This holds of the
factor that is computed from scratch as well as of one that is extended by a row and a column. And a
system with a factor without a zero on its diagonal can always be solved.

* `form`, `Definite`: quadratic forms.
* `factorize?_ok_of_definite`, `Factors.append?_ok`, `Factors.append?_decided`: pivots.
* `Factors.solveR?_ok`, `Factors.solveRT?_ok`: systems.
-/

namespace ActiveSet

open Finset

/-- The value of a quadratic form. -/
noncomputable def form (d : ℕ) (h : ℕ → ℕ → ℝ) (v : ℕ → ℝ) : ℝ :=
  ∑ i ∈ range d, v i * ∑ j ∈ range d, h i j * v j

/-- A matrix is positive definite: its quadratic form is positive but at zero. -/
def Definite (d : ℕ) (h : ℕ → ℕ → ℝ) : Prop :=
  ∀ v : ℕ → ℝ, (∃ i, i < d ∧ v i ≠ 0) → 0 < form d h v

variable {d : ℕ} {h h' q : ℕ → ℕ → ℝ}

theorem Definite.congr (hdef : Definite d h)
    (hh : ∀ i j, i < d → j < d → h' i j = h i j) : Definite d h' := by
  intro v hv
  refine lt_of_lt_of_eq (hdef v hv) (Finset.sum_congr rfl fun i hi => ?_)
  congr 1
  refine Finset.sum_congr rfl fun j hj => ?_
  rw [hh i j (mem_range.1 hi) (mem_range.1 hj)]

/-- A leading block of a definite matrix is definite. -/
theorem Definite.leading {e : ℕ} (hdef : Definite d h) (he : e ≤ d) : Definite e h := by
  rintro v ⟨i, hi, hv⟩
  let w (i : ℕ) : ℝ := if i < e then v i else 0
  have hw : ∀ i, i < e → w i = v i := fun i hi => if_pos hi
  have hrest : ∀ i, i ∉ range e → w i = 0 := fun i hi => if_neg (by simpa using hi)
  refine lt_of_lt_of_eq (hdef w ⟨i, by omega, by rwa [hw i hi]⟩) ?_
  have hsub : range e ⊆ range d := range_subset_range.2 he
  unfold form
  rw [← sum_subset hsub fun i _ hi => by rw [hrest i hi, zero_mul]]
  refine Finset.sum_congr rfl fun i hi => ?_
  rw [hw i (mem_range.1 hi), ← sum_subset hsub fun j _ hj => by rw [hrest j hj, mul_zero]]
  congr 1
  exact Finset.sum_congr rfl fun j hj => by rw [hw j (mem_range.1 hj)]

/-- In coordinates, a form is one of the combination of the basis. -/
theorem form_quad (e : ℕ) (v : ℕ → ℝ) :
    form e (quad d h q) v = form d h fun p => ∑ k ∈ range e, q p k * v k := by
  have hinner : ∀ i, ∑ j ∈ range e, quad d h q i j * v j =
      ∑ p ∈ range d, q p i * ∑ r ∈ range d, h p r * ∑ k ∈ range e, q r k * v k := by
    intro i
    unfold quad
    simp only [sum_mul, mul_sum]
    rw [sum_comm]
    refine Finset.sum_congr rfl fun p _ => ?_
    rw [sum_comm]
    exact Finset.sum_congr rfl fun r _ => Finset.sum_congr rfl fun k _ => by ring
  -- both sides are sums over the same four indices, in different orders
  unfold form
  simp only [hinner]
  simp only [mul_sum, sum_mul]
  rw [sum_comm]
  refine Finset.sum_congr rfl fun p _ => ?_
  rw [sum_comm]
  refine Finset.sum_congr rfl fun r _ => ?_
  rw [sum_comm]
  refine Finset.sum_congr rfl fun k _ => Finset.sum_congr rfl fun i _ => by ring

/-- The coordinates of a combination of an orthonormal basis are its coefficients. -/
theorem Orthonormal.coord_combination {e : ℕ} (hq : Orthonormal d q) (he : e ≤ d) (v : ℕ → ℝ)
    {i : ℕ} (hi : i < e) :
    ∑ p ∈ range d, q p i * ∑ k ∈ range e, q p k * v k = v i := by
  simp only [mul_sum]
  -- all columns but one are orthogonal to column `i`
  rw [sum_comm, sum_eq_single i]
  · calc ∑ p ∈ range d, q p i * (q p i * v i)
        = (∑ p ∈ range d, q p i * q p i) * v i := by
          rw [sum_mul]
          exact Finset.sum_congr rfl fun p _ => by ring
      _ = v i := by rw [hq i i (by omega) (by omega), if_pos rfl, one_mul]
  · intro k hk hne
    calc ∑ p ∈ range d, q p i * (q p k * v k)
        = (∑ p ∈ range d, q p i * q p k) * v k := by
          rw [sum_mul]
          exact Finset.sum_congr rfl fun p _ => by ring
      _ = 0 := by
          have := mem_range.1 hk
          rw [hq i k (by omega) (by omega), if_neg hne.symm, zero_mul]
  · intro hnot
    exact absurd (mem_range.2 hi) hnot

/-- The first coordinates of a definite matrix in an orthonormal basis are definite. -/
theorem Definite.quad {e : ℕ} (hdef : Definite d h) (hq : Orthonormal d q) (he : e ≤ d) :
    Definite e (quad d h q) := by
  rintro v ⟨i, hi, hv⟩
  rw [form_quad]
  refine hdef _ ?_
  -- the coordinates of a combination that vanishes are zero
  by_contra hnone
  have hzero : ∀ p, p < d → ∑ k ∈ range e, q p k * v k = 0 := by
    intro p hp
    by_contra hne
    exact hnone ⟨p, hp, hne⟩
  refine hv ?_
  rw [← hq.coord_combination he v hi]
  exact sum_eq_zero fun p hp => by rw [hzero p (mem_range.1 hp), mul_zero]

/-- A form over one more index. -/
theorem form_succ (hsymm : ∀ i, i < d → h d i = h i d) (v : ℕ → ℝ) :
    form (d + 1) h v =
      form d h v + 2 * v d * (∑ i ∈ range d, v i * h i d) + v d * h d d * v d := by
  unfold form
  rw [sum_range_succ, sum_range_succ]
  simp only [sum_range_succ, mul_add, sum_add_distrib]
  have hrow : ∑ j ∈ range d, h d j * v j = ∑ i ∈ range d, v i * h i d :=
    Finset.sum_congr rfl fun i hi => by rw [hsymm i (mem_range.1 hi), mul_comm]
  have hcolumn : ∑ i ∈ range d, v i * (h i d * v d) = v d * ∑ i ∈ range d, v i * h i d := by
    rw [mul_sum]
    exact Finset.sum_congr rfl fun i _ => by ring
  rw [hrow, hcolumn]
  ring

namespace Cholesky

variable {n k : ℕ} {f f' : Cholesky ℝ n} {M N : ℕ → ℕ → ℝ}

-- ---------------------------------------------------------------------------
-- Systems
-- ---------------------------------------------------------------------------

/-- Without a tolerance a system with a factor has a solution. -/
theorem Factors.solveR?_ok (hf : f.Factors M) (hk : k = f.dim) (b : Tuple ℝ k) :
    ∃ w, f.solveR? 0 b = some (.ok w) := by
  subst hk
  obtain ⟨w, hw⟩ := backSubstitute_ok (b := b) hf.diag_ne b
  refine ⟨w, ?_⟩
  unfold solveR?
  rw [if_pos rfl, hw]

/-- Without a tolerance a system with the transpose of a factor has a solution. -/
theorem Factors.solveRT?_ok (hf : f.Factors M) (hk : k = f.dim) (b : Tuple ℝ k) :
    ∃ w, f.solveRT? 0 b = some (.ok w) := by
  subst hk
  obtain ⟨w, hw⟩ := forwardSubstitute_ok (F := fun i j => f.entries j i) (b := b) hf.diag_ne b
  refine ⟨w, ?_⟩
  unfold solveRT?
  rw [if_pos rfl, hw]

-- ---------------------------------------------------------------------------
-- Pivots
-- ---------------------------------------------------------------------------

/-- With the solution of `R x = c`, the form of the matrix is the square of the length of `c`. -/
theorem Factors.form_eq (hf : f.Factors M) {x c : ℕ → ℝ}
    (hx : ∀ i, i < f.dim → ∑ j ∈ range f.dim, f.entries i j * x j = c i) :
    form f.dim M x = ∑ k ∈ range f.dim, c k * c k := by
  unfold form
  calc ∑ i ∈ range f.dim, x i * ∑ j ∈ range f.dim, M i j * x j
      = ∑ i ∈ range f.dim, ∑ k ∈ range f.dim, f.entries k i * x i * c k := by
        refine Finset.sum_congr rfl fun i hi => ?_
        rw [hf.sum_mul_eq hx (mem_range.1 hi), mul_sum]
        exact Finset.sum_congr rfl fun k _ => by ring
    _ = ∑ k ∈ range f.dim, c k * c k := by
        rw [sum_comm]
        refine Finset.sum_congr rfl fun k hk => ?_
        rw [← sum_mul, hx k (mem_range.1 hk)]

/-- A matrix that has a factor takes nothing but zero to zero. -/
theorem Factors.eq_zero (hf : f.Factors M) {v : ℕ → ℝ}
    (hv : ∀ i, i < f.dim → ∑ j ∈ range f.dim, M i j * v j = 0) : ∀ i, i < f.dim → v i = 0 := by
  have hform := hf.form_eq (x := v) fun _ _ => rfl
  have hzero : form f.dim M v = 0 :=
    sum_eq_zero fun i hi => by rw [hv i (mem_range.1 hi), mul_zero]
  rw [hzero] at hform
  have hall := (sum_eq_zero_iff_of_nonneg fun k _ => mul_self_nonneg _).1 hform.symm
  exact eq_zero_of_upper hf.upper hf.diag_ne fun i hi =>
    mul_self_eq_zero.1 (hall i (mem_range.2 hi))

/-- An attempt to extend a factor succeeds if a pivot is above a tolerance, and fails if it is not. -/
inductive DecidedBy (pivot tolerance : ℝ) {α β : Type} : Option (Except (Failure α) β) → Prop
  | succeeds (h : tolerance < pivot) (r : β) : DecidedBy pivot tolerance (some (.ok r))
  | fails (h : pivot ≤ tolerance) (r : α) :
    DecidedBy pivot tolerance (some (.error ⟨.hessianNotSpd, r⟩))

section Decided

variable {pivot tolerance : ℝ} {α α' β β' : Type}

theorem DecidedBy.error_eq {e : Failure α}
    (h : DecidedBy pivot tolerance (some (.error e) : Option (Except (Failure α) β))) :
    e.error = .hessianNotSpd := by
  cases h with
  | fails => rfl

/-- Attempts with the same pivot do not end differently. -/
theorem DecidedBy.not_error {r : β} {e : Failure α'}
    (h : DecidedBy pivot tolerance (some (.ok r) : Option (Except (Failure α) β))) :
    ¬DecidedBy pivot tolerance (some (.error e) : Option (Except (Failure α') β')) := by
  intro h'
  cases h with
  | succeeds hlt =>
    cases h' with
    | fails hle => exact not_le_of_gt hlt hle

end Decided

/-- Without a tolerance for systems, whether a factor can be extended depends on one number: the new
diagonal entry less what the solution of a system with the old matrix takes off it. -/
theorem Factors.append?_decided (hf : f.Factors M) (hn : f.dim < n) (hk : k = f.dim)
    (c : Tuple ℝ k) (a tolerance : ℝ) :
    ∃ w : ℕ → ℝ, (∀ i, i < f.dim → ∑ j ∈ range f.dim, M i j * w j = c i) ∧
      DecidedBy (a - ∑ i ∈ range f.dim, c i * w i) tolerance (f.append? c a tolerance 0) := by
  subst hk
  obtain ⟨r, hr⟩ := hf.solveRT?_ok rfl c
  obtain ⟨w, hw⟩ := hf.solveR?_ok rfl r
  -- the length of the new column is its product with the solution of the whole system
  have hlength : dot f.dim r r = ∑ i ∈ range f.dim, c i * w i := by
    rw [dot_eq_sum]
    calc ∑ k ∈ range f.dim, r k * r k
        = ∑ k ∈ range f.dim, ∑ i ∈ range f.dim, r k * (f.entries k i * w i) := by
          refine Finset.sum_congr rfl fun k hk => ?_
          rw [← mul_sum, hf.solveR?_solves hw (mem_range.1 hk)]
      _ = ∑ i ∈ range f.dim, c i * w i := by
          rw [sum_comm]
          refine Finset.sum_congr rfl fun i hi => ?_
          rw [← hf.solveRT?_solves hr (mem_range.1 hi), sum_mul]
          exact Finset.sum_congr rfl fun k _ => by ring
  refine ⟨w, fun i hi => hf.solves hr hw hi, ?_⟩
  unfold append?
  rw [dif_pos hn, hr, ← hlength]
  dsimp only
  rcases le_or_gt (a - dot f.dim r r) tolerance with hle | hgt
  · rw [if_pos hle]
    exact .fails hle r
  · rw [if_neg (not_le.2 hgt)]
    exact .succeeds hgt _

/-- The pivot of a definite matrix is positive: a last column that solves its system is shorter than
the diagonal entry admits. -/
theorem Factors.sum_sq_lt (hf : f.Factors M) (hdef : Definite (f.dim + 1) M)
    (hsymm : ∀ i, i < f.dim → M f.dim i = M i f.dim) {r : ℕ → ℝ}
    (hr : ∀ i, i < f.dim → ∑ k ∈ range f.dim, f.entries k i * r k = M i f.dim) :
    ∑ k ∈ range f.dim, r k * r k < M f.dim f.dim := by
  obtain ⟨x, hx⟩ := backSubstitute_ok (b := r) hf.diag_ne (Tuple.fill f.dim 0)
  have hx := backSubstitute_solves hf.upper hf.diag_ne hx
  -- the solution, with -1 as its last entry, makes the form smallest
  let v (i : ℕ) : ℝ := if i < f.dim then x i else -1
  have hv : ∀ i, i < f.dim → v i = x i := fun i hi => if_pos hi
  have hlast : v f.dim = -1 := if_neg (Nat.lt_irrefl _)
  have hpos := hdef v ⟨f.dim, Nat.lt_succ_self _, by rw [hlast]; norm_num⟩
  have hform : form f.dim M v = ∑ k ∈ range f.dim, r k * r k := by
    refine hf.form_eq fun i hi => ?_
    rw [← hx i hi]
    exact Finset.sum_congr rfl fun j hj => by rw [hv j (mem_range.1 hj)]
  have hmixed : ∑ i ∈ range f.dim, v i * M i f.dim = ∑ k ∈ range f.dim, r k * r k := by
    calc ∑ i ∈ range f.dim, v i * M i f.dim
        = ∑ i ∈ range f.dim, ∑ k ∈ range f.dim, f.entries k i * x i * r k := by
          refine Finset.sum_congr rfl fun i hi => ?_
          rw [hv i (mem_range.1 hi), ← hr i (mem_range.1 hi), mul_sum]
          exact Finset.sum_congr rfl fun k _ => by ring
      _ = ∑ k ∈ range f.dim, r k * r k := by
          rw [sum_comm]
          refine Finset.sum_congr rfl fun k hk => ?_
          rw [← sum_mul, hx k (mem_range.1 hk)]
  rw [form_succ hsymm, hform, hmixed, hlast] at hpos
  linarith

/-- Without tolerances, a factor of a definite matrix can be extended. -/
theorem Factors.append?_ok (hf : f.Factors M) (hn : f.dim < n) {c : Tuple ℝ k} {a : ℝ}
    (hk : k = f.dim) (hdef : Definite (f.dim + 1) N)
    (hM : ∀ i j, i < f.dim → j < f.dim → N i j = M i j)
    (hcol : ∀ i, i < f.dim → N i f.dim = c i)
    (hrow : ∀ i, i < f.dim → N f.dim i = N i f.dim) (hdiag : N f.dim f.dim = a) :
    ∃ r f', f.append? c a 0 0 = some (.ok (r, f')) := by
  subst hk
  obtain ⟨r, hr⟩ := hf.solveRT?_ok rfl c
  have hsolved : ∀ i, i < f.dim → ∑ k ∈ range f.dim, f.entries k i * r k = N i f.dim :=
    fun i hi => (hf.solveRT?_solves hr hi).trans (hcol i hi).symm
  have hlt := (hf.congr hM).sum_sq_lt hdef hrow hsolved
  have hsquare : ¬a - dot f.dim r r ≤ 0 := by
    rw [dot_eq_sum, ← hdiag]
    exact not_le.2 (sub_pos.2 hlt)
  unfold append?
  rw [dif_pos hn, hr]
  dsimp only
  rw [if_neg hsquare]
  exact ⟨r, _, rfl⟩

/-- The entries of the next column, above its diagonal, solve the system with the columns before. -/
theorem Filled.column_solves {G : Grid ℝ n n} {j : ℕ} (hG : Filled M j G) (hj : j < n) {i : ℕ}
    (hi : i < j) : ∑ k ∈ range j, G k i * fillColumn M j j G k j = M i j := by
  obtain ⟨-, hsolved⟩ := fillColumn_spec (A := M) (G := G) hj (Nat.le_refl j)
    fun k hk => (hG.diag_pos k hk).ne'
  rw [sum_of_lower (f := fun k => G k i * fillColumn M j j G k j) hi fun k hik _ => by
    rw [hG.upper k i hik, zero_mul]]
  exact hsolved i hi

/-- Without a tolerance, no pivot of a definite matrix is too small. -/
theorem fillColumns_ok_of_definite {G : Grid ℝ n n} (hG : ∀ i j, j < i → G i j = 0) {d : ℕ}
    (hd : d ≤ n) (hdef : Definite d M) (hsymm : ∀ i j, i < d → j < d → M i j = M j i) :
    ∃ G', fillColumns M 0 d G = .ok G' := by
  -- the columns are filled one by one, and the leading blocks are definite as well
  suffices hfirst : ∀ j, j ≤ d → ∃ G', fillColumns M 0 j G = .ok G' from hfirst d (Nat.le_refl d)
  intro j
  induction j with
  | zero => exact fun _ => ⟨G, rfl⟩
  | succ j ih =>
    intro hj
    obtain ⟨G1, hfirst⟩ := ih (by omega)
    have hfilled := fillColumns_filled le_rfl hG (by omega) hfirst
    have hfactors := hfilled.factors (by omega) fun a b ha hb => hsymm a b (by omega) (by omega)
    have hlt := hfactors.sum_sq_lt (hdef.leading hj) (fun i hi => hsymm j i (by omega)
      (by have hi : i < j := hi; omega)) (r := fun k => fillColumn M j j G1 k j)
        fun i hi => hfilled.column_solves (by omega) hi
    -- the pivot is positive, as the block with one more column is definite
    have hpivot : ¬deduct (M j j) j (fun k => fillColumn M j j G1 k j *
        fillColumn M j j G1 k j) ≤ 0 := by
      rw [deduct_eq_sum]
      exact not_le.2 (sub_pos.2 hlt)
    rw [fillColumns, hfirst]
    exact ⟨_, if_neg hpivot⟩

/-- Without a tolerance, a definite matrix can be factorized. -/
theorem factorize?_ok_of_definite {d : ℕ} (hd : d ≤ n) (hdef : Definite d M)
    (hsymm : ∀ i j, i < d → j < d → M i j = M j i) :
    ∃ f', f.factorize? d M 0 = some (.ok f') := by
  obtain ⟨G, hG⟩ := fillColumns_ok_of_definite (fun i j _ => f.cleared_apply i j) hd hdef hsymm
  unfold factorize?
  rw [dif_pos hd, hG]
  exact ⟨_, rfl⟩

end Cholesky

end ActiveSet
