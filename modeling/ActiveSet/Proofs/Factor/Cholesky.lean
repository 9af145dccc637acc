import ActiveSet.Factor.Cholesky
import ActiveSet.Proofs.Factor.Coordinates
import ActiveSet.Proofs.Factor.Dimensions
import ActiveSet.Proofs.Factor.Substitution

/-!
# Triangular factors in exact arithmetic

`Cholesky.Factors` says that a factor is one of a given matrix. Each operation keeps it so: the
matrix changes, and the factor follows. Nothing is assumed of the matrix but that it is symmetric,
since what a pivot has to satisfy is tested by the operations themselves.

* `factors_identity`, `factors_factorize`: the factors that are computed from scratch.
* `Factors.append`, `Factors.dropLast`: a last row and column.
* `Filled`, `Turned`: a factor in the course of being computed, and after a rotation of its basis.
* `Factors.turnBases`: the basis in which the matrix is written is rotated.
* `Factors.solves`: the systems with a factor and with its transpose.
* `Factors.entries_eq`: two factors of a matrix agree up to the signs of their rows.
-/

namespace ActiveSet.Cholesky

open Finset Rotation

variable {n : ℕ}

/-- `f` is upper triangular without a zero on its diagonal, and `Rᵀ R` is the matrix `M`. -/
structure Factors (f : Cholesky ℝ n) (M : ℕ → ℕ → ℝ) : Prop where
  upper : ∀ i j, j < i → i < f.dim → f.entries i j = 0
  diag_ne : ∀ i, i < f.dim → f.entries i i ≠ 0
  product : ∀ i j, i < f.dim → j < f.dim →
    ∑ k ∈ range f.dim, f.entries k i * f.entries k j = M i j

variable {f f' : Cholesky ℝ n} {M N : ℕ → ℕ → ℝ}

theorem Factors.congr (hf : f.Factors M)
    (hM : ∀ i j, i < f.dim → j < f.dim → N i j = M i j) : f.Factors N :=
  ⟨hf.upper, hf.diag_ne, fun i j hi hj => (hf.product i j hi hj).trans (hM i j hi hj).symm⟩

-- ---------------------------------------------------------------------------
-- Factors from scratch
-- ---------------------------------------------------------------------------

theorem cleared_apply (f : Cholesky ℝ n) (i j : ℕ) : f.cleared i j = 0 := by
  by_cases hi : i < n
  · by_cases hj : j < n
    · rw [cleared, Grid.scale_apply _ _ hi hj, zero_mul]
    · rw [Grid.apply_of_column_le _ (by omega)]
  · rw [Grid.apply_of_row_le _ (by omega)]

theorem identity?_spec {d : ℕ} (h : f.identity? d = some f') :
    f'.dim = d ∧ ∀ i j, i < d → j < d → f'.entries i j = if i = j then 1 else 0 := by
  unfold identity? at h
  split at h
  · next hd =>
    cases h
    refine ⟨rfl, fun i j hi hj => ?_⟩
    dsimp only
    rw [Grid.ofFn_apply (by omega) (by omega), cleared_apply]
    simp only [hi, and_true]
  · cases h

theorem factors_identity {d : ℕ} (h : f.identity? d = some f')
    (hM : ∀ i j, i < d → j < d → M i j = if i = j then 1 else 0) : f'.dim = d ∧ f'.Factors M := by
  obtain ⟨rfl, hentry⟩ := identity?_spec h
  refine ⟨rfl, fun i j hji hi => ?_, fun i hi => ?_, fun i j hi hj => ?_⟩
  · rw [hentry i j hi (Nat.lt_trans hji hi), if_neg (by omega)]
  · rw [hentry i i hi hi, if_pos rfl]
    exact one_ne_zero
  · -- only the row that holds the one of column `i` counts
    have hsingle : ∀ k ∈ range f'.dim, k ≠ i → f'.entries k i * f'.entries k j = 0 := by
      intro k hk hne
      rw [hentry k i (mem_range.1 hk) hi, if_neg hne, zero_mul]
    rw [sum_eq_single i hsingle fun hnot => absurd (mem_range.2 hi) hnot, hentry i i hi hi,
      hentry i j hi hj, if_pos rfl, one_mul, hM i j hi hj]

/-- The first `d` columns of a grid factor the leading block of a matrix, and the grid is upper
triangular. -/
structure Filled (A : ℕ → ℕ → ℝ) (d : ℕ) (G : Grid ℝ n n) : Prop where
  upper : ∀ i j, j < i → G i j = 0
  diag_pos : ∀ j, j < d → 0 < G j j
  product : ∀ i j, i ≤ j → j < d → G i i * G i j + ∑ k ∈ range i, G k i * G k j = A i j

variable {A B : ℕ → ℕ → ℝ} {tolerance : ℝ} {G G' : Grid ℝ n n}

/-- The entries above the diagonal of a column solve their equations, and nothing else changes. -/
theorem fillColumn_spec {j : ℕ} (hj : j < n) : ∀ {i : ℕ}, i ≤ j →
    (∀ k, k < i → G k k ≠ 0) →
      (∀ r c, c ≠ j ∨ i ≤ r → fillColumn A j i G r c = G r c) ∧
      ∀ r, r < i → G r r * fillColumn A j i G r j +
        ∑ k ∈ range r, G k r * fillColumn A j i G k j = A r j := by
  intro i
  induction i with
  | zero => exact fun _ _ => ⟨fun _ _ _ => rfl, fun r hr => absurd hr (Nat.not_lt_zero r)⟩
  | succ i ih =>
    intro hij hdiag
    obtain ⟨hkept, hsolved⟩ := ih (by omega) fun k hk => hdiag k (by omega)
    rw [fillColumn, deduct_eq_sum]
    -- one more entry is written, in row `i`
    have hset : ∀ r c, r ≠ i ∨ c ≠ j → ((fillColumn A j i G).set i j
        ((A i j - ∑ k ∈ range i, fillColumn A j i G k i * fillColumn A j i G k j) /
          fillColumn A j i G i i)) r c = fillColumn A j i G r c :=
      fun r c hrc => Grid.set_apply_of_ne _ hrc
    refine ⟨fun r c hrc => ?_, fun r hr => ?_⟩
    · rw [hset r c (by omega), hkept r c (by omega)]
    · have hsum : ∑ k ∈ range r, G k r * ((fillColumn A j i G).set i j
          ((A i j - ∑ k ∈ range i, fillColumn A j i G k i * fillColumn A j i G k j) /
            fillColumn A j i G i i)) k j =
          ∑ k ∈ range r, G k r * fillColumn A j i G k j := by
        refine Finset.sum_congr rfl fun k hk => ?_
        have := mem_range.1 hk
        rw [hset k j (by omega)]
      rw [hsum]
      rcases Nat.lt_succ_iff_lt_or_eq.1 hr with hlt | rfl
      · rw [hset r j (by omega)]
        exact hsolved r hlt
      · have hother : ∀ k, fillColumn A j r G k r = G k r :=
          fun k => hkept k r (.inl (by omega))
        have hne := hdiag r (Nat.lt_succ_self r)
        rw [Grid.set_apply _ _ _ _ (by omega) hj, if_pos ⟨rfl, rfl⟩]
        simp only [hother]
        field_simp
        ring

/-- One more column has been filled: its entries above the diagonal solve their equations, and the
one on the diagonal is a root of what is left. -/
theorem Filled.extend {j : ℕ} (h : Filled A j G)
    (hkept : ∀ r c, c ≠ j ∨ j < r → G' r c = G r c)
    (hsolved : ∀ r, r < j → G r r * G' r j + ∑ k ∈ range r, G k r * G' k j = A r j)
    (hpos : 0 < G' j j)
    (hsquare : G' j j * G' j j + ∑ k ∈ range j, G' k j * G' k j = A j j) :
    Filled A (j + 1) G' := by
  refine ⟨fun r c hcr => ?_, fun c hc => ?_, fun r c hrc hc => ?_⟩
  · -- `upper`: below the diagonal nothing has changed
    rw [hkept r c (by omega)]
    exact h.upper r c hcr
  · -- `diag_pos`: the old columns, then the new one
    rcases Nat.lt_succ_iff_lt_or_eq.1 hc with hlt | rfl
    · rw [hkept c c (by omega)]
      exact h.diag_pos c hlt
    · exact hpos
  · -- `product`: the sums over rows before `j` are the old ones
    have hsum : ∀ c, r ≠ j → ∑ k ∈ range r, G' k r * G' k c = ∑ k ∈ range r, G k r * G' k c :=
      fun c hr => Finset.sum_congr rfl fun k _ => by rw [hkept k r (.inl hr)]
    rcases Nat.lt_succ_iff_lt_or_eq.1 hc with hlt | rfl
    · have hr : r ≠ j := by omega
      rw [hsum c hr, hkept r r (.inl hr), hkept r c (by omega), ← h.product r c hrc hlt]
      exact congrArg _ (Finset.sum_congr rfl fun k _ => by rw [hkept k c (by omega)])
    · rcases Nat.lt_or_eq_of_le hrc with hlt | rfl
      · rw [hsum c (by omega), hkept r r (by omega)]
        exact hsolved r hlt
      · exact hsquare

theorem fillColumns_filled (htol : 0 ≤ tolerance) (hG : ∀ i j, j < i → G i j = 0) :
    ∀ {d : ℕ} {G' : Grid ℝ n n}, d ≤ n → fillColumns A tolerance d G = .ok G' →
      Filled A d G' := by
  intro d
  induction d with
  | zero =>
    intro G' _ h
    cases h
    exact ⟨hG, fun j hj => absurd hj (Nat.not_lt_zero j),
      fun i j _ hj => absurd hj (Nat.not_lt_zero j)⟩
  | succ j ih =>
    intro G' hj h
    rw [fillColumns] at h
    obtain ⟨G1, hfirst, h⟩ := exists_of_bind_ok h
    -- the columns before `j` are filled, and solving for column `j` leaves them as they are
    have hfilled := ih (by omega) hfirst
    obtain ⟨hkept, hsolved⟩ := fillColumn_spec (A := A) (G := G1) (show j < n by omega)
      (Nat.le_refl j) fun k hk => (hfilled.diag_pos k hk).ne'
    change (if deduct (A j j) j (fun k => fillColumn A j j G1 k j *
      fillColumn A j j G1 k j) ≤ tolerance then _ else _) = _ at h
    rw [deduct_eq_sum] at h
    generalize fillColumn A j j G1 = G2 at h hkept hsolved
    -- what is left on the diagonal decides whether there is a pivot
    split at h
    · cases h
    next hpivot =>
      cases h
      have hpos : 0 < A j j - ∑ k ∈ range j, G2 k j * G2 k j :=
        lt_of_le_of_lt htol (not_le.1 hpivot)
      have hdiag : G2.set j j (Scalar.sqrt (A j j - ∑ k ∈ range j, G2 k j * G2 k j)) j j =
          √(A j j - ∑ k ∈ range j, G2 k j * G2 k j) := by
        rw [Grid.set_apply _ _ _ _ (by omega) (by omega), if_pos ⟨rfl, rfl⟩]
        rfl
      have hset : ∀ r c, r ≠ j ∨ c ≠ j →
          G2.set j j (Scalar.sqrt (A j j - ∑ k ∈ range j, G2 k j * G2 k j)) r c = G2 r c :=
        fun r c hrc => Grid.set_apply_of_ne _ hrc
      generalize G2.set j j (Scalar.sqrt (A j j - ∑ k ∈ range j, G2 k j * G2 k j)) = G3
        at hdiag hset ⊢
      have hcolumn : ∀ k, k < j → G3 k j = G2 k j := fun k hk => hset k j (.inl (by omega))
      -- with the new column and its pivot, one more column is filled
      refine hfilled.extend (fun r c hrc => ?_) (fun r hr => ?_) ?_ ?_
      · rw [hset r c (by omega), hkept r c (by omega)]
      · have hsum : ∑ k ∈ range r, G1 k r * G3 k j = ∑ k ∈ range r, G1 k r * G2 k j :=
          Finset.sum_congr rfl fun k hk => by rw [hcolumn k ((mem_range.1 hk).trans hr)]
        rw [hcolumn r hr, hsum]
        exact hsolved r hr
      · rw [hdiag]
        exact Real.sqrt_pos.2 hpos
      · have hsum : ∑ k ∈ range j, G3 k j * G3 k j = ∑ k ∈ range j, G2 k j * G2 k j :=
          Finset.sum_congr rfl fun k hk => by rw [hcolumn k (mem_range.1 hk)]
        rw [hdiag, hsum, Real.mul_self_sqrt hpos.le]
        ring

/-- A sum of products of two columns of an upper triangular array ends at the diagonal of the first
of them. -/
theorem sum_columns_of_upper {d : ℕ} {F : ℕ → ℕ → ℝ} (hF : ∀ i j, j < i → i < d → F i j = 0)
    {i j : ℕ} (hi : i < d) :
    ∑ k ∈ range d, F k i * F k j = F i i * F i j + ∑ k ∈ range i, F k i * F k j :=
  sum_of_lower (f := fun k => F k i * F k j) hi fun k hik hk => by rw [hF k i hik hk, zero_mul]

/-- The columns that have been filled factor the leading block of a symmetric matrix. -/
theorem Filled.factors {d : ℕ} (hG : Filled A d G) (hd : d ≤ n)
    (hsymm : ∀ i j, i < d → j < d → A i j = A j i) : Factors ⟨G, d, hd⟩ A := by
  refine ⟨fun i j hji _ => hG.upper i j hji, fun i hi => (hG.diag_pos i hi).ne', fun i j hi hj => ?_⟩
  have hupper : ∀ i j, j < i → i < d → G i j = 0 := fun i j hji _ => hG.upper i j hji
  show ∑ k ∈ range d, G k i * G k j = A i j
  rcases Nat.le_total i j with hij | hji
  · rw [sum_columns_of_upper hupper hi]
    exact hG.product i j hij hj
  · -- below the diagonal the symmetry of the matrix is used
    have hcomm : ∑ k ∈ range d, G k i * G k j = ∑ k ∈ range d, G k j * G k i :=
      Finset.sum_congr rfl fun k _ => mul_comm _ _
    rw [hcomm, sum_columns_of_upper hupper hj, hsymm i j hi hj]
    exact hG.product j i hji hi

theorem factors_factorize {d : ℕ} (htol : 0 ≤ tolerance)
    (hsymm : ∀ i j, i < d → j < d → A i j = A j i)
    (h : f.factorize? d A tolerance = some (.ok f')) : f'.dim = d ∧ f'.Factors A := by
  obtain ⟨hd, G, hfill, rfl⟩ := factorize?_eq_ok h
  have hfilled := fillColumns_filled htol (fun i j _ => f.cleared_apply i j) hd hfill
  exact ⟨rfl, hfilled.factors hd hsymm⟩

theorem fillColumn_congr {j : ℕ} : ∀ {i : ℕ}, (∀ r, r < i → A r j = B r j) →
    fillColumn A j i G = fillColumn B j i G := by
  intro i
  induction i with
  | zero => exact fun _ => rfl
  | succ i ih =>
    intro h
    rw [fillColumn, fillColumn, ih fun r hr => h r (by omega), h i (Nat.lt_succ_self i)]

theorem fillColumns_congr : ∀ {d : ℕ}, (∀ i j, i < d → j < d → A i j = B i j) →
    fillColumns A tolerance d G = fillColumns B tolerance d G := by
  intro d
  induction d with
  | zero => exact fun _ => rfl
  | succ j ih =>
    intro h
    have hcolumn : ∀ G : Grid ℝ n n, fillColumn A j j G = fillColumn B j j G :=
      fun G => fillColumn_congr fun r hr => h r j (by omega) (Nat.lt_succ_self j)
    rw [fillColumns, fillColumns, ih fun r c hr hc => h r c (by omega) (by omega),
      h j j (Nat.lt_succ_self j) (Nat.lt_succ_self j)]
    simp only [hcolumn]

/-- What is computed from scratch depends on the matrix only, and not on an older factor. -/
theorem factorize?_congr {d : ℕ} (h : ∀ i j, i < d → j < d → A i j = B i j) :
    f'.factorize? d A tolerance = f.factorize? d B tolerance := by
  have hcleared : f'.cleared = f.cleared :=
    Grid.ext fun i j _ _ => by rw [cleared_apply, cleared_apply]
  unfold factorize?
  rw [hcleared, fillColumns_congr h]

-- ---------------------------------------------------------------------------
-- A last row and column
-- ---------------------------------------------------------------------------

section Bordered

variable {r : ℕ → ℝ} {rho : ℝ} {i j : ℕ}

theorem bordered_inner (hi : i < f.dim) (hj : j < f.dim) :
    f.bordered r rho i j = f.entries i j := by
  have hdim := f.dim_le
  rw [bordered, Grid.ofFn_apply (by omega) (by omega), if_neg (by omega), if_neg (by omega),
    if_neg (by omega)]

theorem bordered_column (hn : f.dim < n) (hi : i < f.dim) : f.bordered r rho i f.dim = r i := by
  rw [bordered, Grid.ofFn_apply (by omega) hn, if_neg (by omega), if_pos ⟨hi, rfl⟩]

theorem bordered_row (hn : f.dim < n) (hj : j < f.dim) : f.bordered r rho f.dim j = 0 := by
  rw [bordered, Grid.ofFn_apply hn (by omega), if_neg (by omega), if_neg (by omega),
    if_pos ⟨rfl, hj⟩]

theorem bordered_corner (hn : f.dim < n) : f.bordered r rho f.dim f.dim = rho := by
  rw [bordered, Grid.ofFn_apply hn hn, if_pos ⟨rfl, rfl⟩]

/-- A column that solves its system, above a diagonal entry that makes up for the rest, extends a
factor. -/
theorem Factors.bordered (hf : f.Factors M) (hn : f.dim < n) (hrho : rho ≠ 0)
    (hM : ∀ i j, i < f.dim → j < f.dim → N i j = M i j)
    (hcol : ∀ i, i < f.dim → ∑ k ∈ range f.dim, f.entries k i * r k = N i f.dim)
    (hrow : ∀ i, i < f.dim → N f.dim i = N i f.dim)
    (hdiag : N f.dim f.dim = (∑ k ∈ range f.dim, r k * r k) + rho * rho) :
    Factors ⟨f.bordered r rho, f.dim + 1, hn⟩ N := by
  -- two columns, of which the first one is old
  have hproduct : ∀ i, i < f.dim →
      ∑ k ∈ range (f.dim + 1), f.bordered r rho k i * f.bordered r rho k f.dim =
        N i f.dim := by
    intro i hi
    rw [sum_range_succ, bordered_row hn hi, zero_mul, add_zero, ← hcol i hi]
    refine Finset.sum_congr rfl fun k hk => ?_
    have hk := mem_range.1 hk
    rw [bordered_inner hk hi, bordered_column hn hk]
  refine ⟨fun i j hji hi => ?_, fun i hi => ?_, fun i j hi hj => ?_⟩
  · rcases Nat.lt_succ_iff_lt_or_eq.1 hi with hlt | rfl
    · show f.bordered r rho i j = 0
      rw [bordered_inner hlt (by omega)]
      exact hf.upper i j hji hlt
    · exact bordered_row hn hji
  · rcases Nat.lt_succ_iff_lt_or_eq.1 hi with hlt | rfl
    · show f.bordered r rho i i ≠ 0
      rw [bordered_inner hlt hlt]
      exact hf.diag_ne i hlt
    · show f.bordered r rho f.dim f.dim ≠ 0
      rw [bordered_corner hn]
      exact hrho
  · show ∑ k ∈ range (f.dim + 1), f.bordered r rho k i * f.bordered r rho k j = N i j
    rcases Nat.lt_succ_iff_lt_or_eq.1 hi with hlt | rfl
    · rcases Nat.lt_succ_iff_lt_or_eq.1 hj with hjlt | rfl
      · rw [sum_range_succ, bordered_row hn hlt, zero_mul, add_zero, hM i j hlt hjlt,
          ← hf.product i j hlt hjlt]
        refine Finset.sum_congr rfl fun k hk => ?_
        have hk := mem_range.1 hk
        rw [bordered_inner hk hlt, bordered_inner hk hjlt]
      · exact hproduct i hlt
    · rcases Nat.lt_succ_iff_lt_or_eq.1 hj with hjlt | rfl
      · rw [hrow j hjlt, ← hproduct j hjlt]
        exact Finset.sum_congr rfl fun k _ => mul_comm _ _
      · have hsum : ∑ k ∈ range f.dim, f.bordered r rho k f.dim * f.bordered r rho k f.dim =
            ∑ k ∈ range f.dim, r k * r k :=
          Finset.sum_congr rfl fun k hk => by rw [bordered_column hn (mem_range.1 hk)]
        rw [sum_range_succ, hsum, bordered_corner hn, hdiag]

end Bordered

/-- The matrix grows by a row and a column, and the factor by a column. -/
theorem Factors.append {k : ℕ} {col r : Tuple ℝ k} {diag pivotTolerance tolerance : ℝ}
    (hf : f.Factors M) (hpivot : 0 ≤ pivotTolerance)
    (h : f.append? col diag pivotTolerance tolerance = some (.ok (r, f')))
    (hM : ∀ i j, i < f.dim → j < f.dim → N i j = M i j)
    (hcol : ∀ i, i < f.dim → N i f.dim = col i)
    (hrow : ∀ i, i < f.dim → N f.dim i = N i f.dim) (hdiag : N f.dim f.dim = diag) :
    f'.dim = f.dim + 1 ∧ f'.Factors N := by
  obtain ⟨hn, hsolve, hsquare, rfl⟩ := append?_eq_ok h
  unfold solveRT? at hsolve
  split at hsolve
  · next hk =>
    subst hk
    have hsolved := forwardSubstitute_solves (fun i j hij hj => hf.upper j i hij hj)
      hf.diag_ne (Option.some.inj hsolve)
    rw [dot_eq_sum] at hsquare
    -- what is left of the diagonal entry is positive, so its root is a pivot
    have hpos : 0 < diag - ∑ i ∈ range f.dim, r i * r i :=
      lt_of_le_of_lt hpivot (not_le.1 hsquare)
    rw [dot_eq_sum]
    refine ⟨rfl, hf.bordered hn (Real.sqrt_pos.2 hpos).ne' hM ?_ hrow ?_⟩
    · intro i hi
      rw [hcol i hi, ← hsolved i hi]
    · have hroot := Real.mul_self_sqrt hpos.le
      rw [hdiag]
      change diag = _ + √_ * √_
      rw [hroot]
      ring
  · cases hsolve

/-- The matrix loses its last row and column, and so does the factor. -/
theorem Factors.dropLast (hf : f.Factors M) (h : f.dropLast? = some f') :
    f'.dim = f.dim - 1 ∧ f'.Factors M := by
  unfold dropLast? at h
  split at h
  · next hpos =>
    cases h
    have hdim := f.dim_le
    have hentry : ∀ i j, i < f.dim - 1 → j < f.dim - 1 →
        (Grid.ofFn n n fun i j => if (i = f.dim - 1 ∧ j ≤ f.dim - 1) ∨
          (j = f.dim - 1 ∧ i ≤ f.dim - 1) then 0 else f.entries i j) i j = f.entries i j := by
      intro i j hi hj
      rw [Grid.ofFn_apply (by omega) (by omega), if_neg (by omega)]
    refine ⟨rfl, fun i j hji hi => ?_, fun i hi => ?_, fun i j hi hj => ?_⟩
    · rw [hentry i j hi (Nat.lt_trans hji hi)]
      exact hf.upper i j hji (by dsimp only at hi; omega)
    · rw [hentry i i hi hi]
      exact hf.diag_ne i (by dsimp only at hi; omega)
    · dsimp only at hi hj ⊢
      rw [← hf.product i j (by omega) (by omega)]
      -- the last row has no part in columns before the last one
      have hsplit : f.dim = (f.dim - 1) + 1 := by omega
      have hlast : f.entries (f.dim - 1) i = 0 := hf.upper _ i hi (by omega)
      have hsum : ∑ k ∈ range f.dim, f.entries k i * f.entries k j =
          ∑ k ∈ range (f.dim - 1), f.entries k i * f.entries k j := by
        rw [congrArg range hsplit, sum_range_succ, hlast, zero_mul, add_zero]
      rw [hsum]
      refine Finset.sum_congr rfl fun k hk => ?_
      have hk := mem_range.1 hk
      rw [hentry k i hk hi, hentry k j hk hj]
  · cases h

-- ---------------------------------------------------------------------------
-- Rotations of the basis
-- ---------------------------------------------------------------------------

/-- A rotation multiplies determinants by the square of its length. -/
theorem turn_mul_turn_sub {g : Rotation ℝ} {u v : ℕ} (huv : u ≠ v) (a b : ℕ → ℝ) :
    g.turn u v a u * g.turn u v b v - g.turn u v a v * g.turn u v b u =
      (g.c * g.c + g.s * g.s) * (a u * b v - a v * b u) := by
  rw [turn_fst huv, turn_fst huv, turn_snd, turn_snd]
  unfold fst snd
  ring

/-- The buffer of a factor after the columns `j + 1` and `j` have been rotated by `g`, and after the rows
`j` and `j + 1` have been rotated by `g'`, which clears the entry below the diagonal. -/
structure Turned (f : Cholesky ℝ n) (j : ℕ) (g : Rotation ℝ) (G G' : Grid ℝ n n) (g' : Rotation ℝ) :
    Prop where
  columns : ∀ i, i < f.dim → ∀ c, G i c = g.turn (j + 1) j (f.entries i) c
  rows : ∀ i c, i < f.dim → c < f.dim → G' i c = g'.turn j (j + 1) (fun i => G i c) i
  proper : g'.Proper
  cleared : g'.snd (G j j) (G (j + 1) j) = 0

section Turned

variable {j : ℕ} {g g' : Rotation ℝ} {G G' : Grid ℝ n n}

/-- To the left of the rotated columns the two rows stay zero. -/
theorem zero_of_turn (hcolumns : ∀ i, i < f.dim → ∀ c, G i c = g.turn (j + 1) j (f.entries i) c)
    (hf : f.Factors M) (hj : j + 1 < f.dim) {c : ℕ} (hc : c < j) : G j c = 0 ∧ G (j + 1) c = 0 := by
  rw [hcolumns j (by omega), hcolumns (j + 1) hj, turn_of_ne _ (by omega) (by omega),
    turn_of_ne _ (by omega) (by omega)]
  exact ⟨hf.upper j c hc (by omega), hf.upper (j + 1) c (by omega) hj⟩

/-- What the rotations of a factor do to its buffer. -/
theorem turnBasis?_turned (hf : f.Factors M) (hturn : f.turnBasis? j g = some f') :
    j + 1 < f.dim ∧ f'.dim = f.dim ∧ ∃ G g', f.Turned j g G f'.entries g' := by
  unfold turnBasis? at hturn
  split at hturn
  next hj =>
    cases hturn
    have hdim := f.dim_le
    -- the turn of the columns stops at row `j + 2`, from which on both entries are zero
    have hcolumns : ∀ i, i < f.dim → ∀ c, f.entries.turnColumns (j + 2) (j + 1) j g i c =
        g.turn (j + 1) j (f.entries i) c := by
      intro i hi c
      by_cases hij : i < j + 2
      · rw [Grid.turnColumns_row (by omega) (by omega) hij]
      · rw [Grid.turnColumns_of_le (by omega), turn_of_zero (hf.upper i _ (by omega) hi)
          (hf.upper i _ (by omega) hi)]
    generalize f.entries.turnColumns (j + 2) (j + 1) j g = G at hcolumns ⊢
    -- the second rotation is the one that clears the entry below the diagonal
    exact ⟨hj, rfl, G, (toward (G j j) (G (j + 1) j)).1, hcolumns,
      fun i c hi hc => Grid.eliminate_column (by omega) (by omega) (by omega) (by omega) hdim
        (fun hcj => zero_of_turn hcolumns hf hj hcj) (by omega) hc,
      proper_toward _ _, (toward_spec (G j j) (G (j + 1) j)).2.2.1⟩
  next => cases hturn

/-- The rotation of the rows makes the buffer triangular again. -/
theorem Turned.upper (h : f.Turned j g G G' g') (hf : f.Factors M) (hj : j + 1 < f.dim) {i c : ℕ}
    (hci : c < i) (hi : i < f.dim) : G' i c = 0 := by
  have hzero : ∀ {c}, c < j → G j c = 0 ∧ G (j + 1) c = 0 := zero_of_turn h.columns hf hj
  rw [h.rows i c hi (by omega)]
  -- the row below `j` first, then row `j`, then the rows that no rotation touches
  by_cases hij : i = j + 1
  · subst hij
    rcases Nat.lt_succ_iff_lt_or_eq.1 hci with hcj | rfl
    · rw [turn_of_zero (f := fun i => G i c) (hzero hcj).1 (hzero hcj).2]
      exact (hzero hcj).2
    · rw [turn_snd]
      exact h.cleared
  by_cases hij' : i = j
  · subst hij'
    rw [turn_of_zero (f := fun i => G i c) (hzero hci).1 (hzero hci).2]
    exact (hzero hci).1
  rw [turn_of_ne _ hij' hij, h.columns i hi]
  by_cases hij'' : i < j
  · rw [turn_of_ne _ (by omega) (by omega)]
    exact hf.upper i c hci hi
  · rw [turn_of_zero (hf.upper i _ (by omega) hi) (hf.upper i _ (by omega) hi)]
    exact hf.upper i c hci hi

/-- The two diagonal entries that change keep their product, up to the length of the rotation. -/
theorem Turned.mul_diag (h : f.Turned j g G G' g') (hf : f.Factors M) (hj : j + 1 < f.dim) :
    G' j j * G' (j + 1) (j + 1) =
      (g.c * g.c + g.s * g.s) * (f.entries j j * f.entries (j + 1) (j + 1)) := by
  have houter := turn_mul_turn_sub (g := g') (show j ≠ j + 1 by omega) (fun i => G i j)
    fun i => G i (j + 1)
  rw [← h.rows j j (by omega) (by omega), ← h.rows (j + 1) (j + 1) hj hj,
    ← h.rows (j + 1) j hj (by omega), ← h.rows j (j + 1) (by omega) hj,
    h.upper hf hj (Nat.lt_succ_self j) hj, show g'.c * g'.c + g'.s * g'.s = 1 from h.proper,
    one_mul] at houter
  have hinner := turn_mul_turn_sub (g := g) (show j + 1 ≠ j by omega) (f.entries j)
    (f.entries (j + 1))
  rw [← h.columns j (by omega), ← h.columns j (by omega), ← h.columns (j + 1) hj,
    ← h.columns (j + 1) hj, hf.upper (j + 1) j (by omega) hj] at hinner
  linarith

/-- No diagonal entry vanishes, provided the rotation of the basis is not zero. -/
theorem Turned.diag_ne (h : f.Turned j g G G' g') (hg : g.c * g.c + g.s * g.s ≠ 0)
    (hf : f.Factors M) (hj : j + 1 < f.dim) {i : ℕ} (hi : i < f.dim) : G' i i ≠ 0 := by
  have hdet_ne : G' j j * G' (j + 1) (j + 1) ≠ 0 := by
    rw [h.mul_diag hf hj]
    exact mul_ne_zero hg (mul_ne_zero (hf.diag_ne j (by omega)) (hf.diag_ne (j + 1) hj))
  by_cases hij : i = j
  · subst hij
    exact left_ne_zero_of_mul hdet_ne
  by_cases hij' : i = j + 1
  · subst hij'
    exact right_ne_zero_of_mul hdet_ne
  rw [h.rows i i hi hi, turn_of_ne _ hij hij', h.columns i hi, turn_of_ne _ hij' hij]
  exact hf.diag_ne i hi

/-- The rotation of the rows does not show in the product, which is that of the rotated columns. -/
theorem Turned.product (h : f.Turned j g G G' g') (hf : f.Factors M) (hj : j + 1 < f.dim) {a b : ℕ}
    (ha : a < f.dim) (hb : b < f.dim) : ∑ k ∈ range f.dim, G' k a * G' k b =
      g.turn (j + 1) j (fun a => g.turn (j + 1) j (M a) b) a := by
  calc ∑ k ∈ range f.dim, G' k a * G' k b
      = ∑ k ∈ range f.dim, g'.turn j (j + 1) (fun i => G i a) k *
          g'.turn j (j + 1) (fun i => G i b) k := by
        refine Finset.sum_congr rfl fun k hk => ?_
        have hk := mem_range.1 hk
        rw [h.rows k a hk ha, h.rows k b hk hb]
    -- the rotation of the rows is orthogonal and leaves the products alone
    _ = ∑ k ∈ range f.dim, G k a * G k b :=
        sum_turn_mul_turn h.proper (by omega) (by omega) hj _ _
    -- the rotation of the columns turns both arguments of the product
    _ = ∑ k ∈ range f.dim, g.turn (j + 1) j (f.entries k) a *
          g.turn (j + 1) j (f.entries k) b := by
        refine Finset.sum_congr rfl fun k hk => ?_
        have hk := mem_range.1 hk
        rw [h.columns k hk, h.columns k hk]
    _ = _ := by
        rw [← turn_turn_sum]
        exact turn_turn_congr hj (show j < f.dim by omega)
          (fun i c hi hc => hf.product i c hi hc) ha hb

end Turned

/-- A rotation of the basis is followed by a rotation of two columns of the factor, which leaves one
entry below the diagonal, and a rotation of two of its rows, which takes it away again. The rotation
of the basis may have any length but zero. -/
theorem Factors.turnBasis_of_ne {j : ℕ} {g : Rotation ℝ} (hg : g.c * g.c + g.s * g.s ≠ 0)
    (hf : f.Factors M) (hturn : f.turnBasis? j g = some f') :
    f'.dim = f.dim ∧
      f'.Factors fun a b => g.turn (j + 1) j (fun a => g.turn (j + 1) j (M a) b) a := by
  obtain ⟨hj, hdim, G, g', hturned⟩ := turnBasis?_turned hf hturn
  refine ⟨hdim, ?_, ?_, ?_⟩
  · rw [hdim]
    exact fun i c hci hi => hturned.upper hf hj hci hi
  · rw [hdim]
    exact fun i hi => hturned.diag_ne hg hf hj hi
  · rw [hdim]
    exact fun a b ha hb => hturned.product hf hj ha hb

/-- The factor of a matrix in coordinates follows a rotation of their basis. -/
theorem Factors.turnBasis {j d : ℕ} {g : Rotation ℝ} {h q : ℕ → ℕ → ℝ} (hg : g.Proper)
    (hf : f.Factors (quad d h q)) (hturn : f.turnBasis? j g = some f') :
    f'.dim = f.dim ∧ f'.Factors (quad d h fun p => g.turn (j + 1) j (q p)) := by
  have hne : g.c * g.c + g.s * g.s ≠ 0 := by
    rw [show g.c * g.c + g.s * g.s = 1 from hg]
    exact one_ne_zero
  obtain ⟨hdim, hf'⟩ := hf.turnBasis_of_ne hne hturn
  exact ⟨hdim, hf'.congr fun a b _ _ => quad_turn a b⟩

theorem Factors.turnBases {d : ℕ} {h : ℕ → ℕ → ℝ} {gs : List (Rotation ℝ)} :
    ∀ {first : ℕ} {f f' : Cholesky ℝ n} {q : ℕ → ℕ → ℝ}, (∀ g ∈ gs, g.Proper) →
      f.Factors (quad d h q) → f.turnBases? first gs = some f' →
        f'.dim = f.dim ∧ f'.Factors (quad d h fun p => turnAll first gs (q p)) := by
  induction gs with
  | nil =>
    intro first f f' q _ hf hturn
    cases hturn
    exact ⟨rfl, hf⟩
  | cons g gs ih =>
    -- one rotation after the other, the first of which gives the form the rest starts from
    intro first f f' q hproper hf hturn
    rw [turnBases?] at hturn
    cases hfirst : f.turnBasis? first g with
    | none =>
      rw [hfirst] at hturn
      cases hturn
    | some f1 =>
      rw [hfirst] at hturn
      obtain ⟨hdim, hf1⟩ := hf.turnBasis (hproper g List.mem_cons_self) hfirst
      obtain ⟨hdim', hf'⟩ := ih (fun g' hg' => hproper g' (List.mem_cons_of_mem g hg')) hf1 hturn
      exact ⟨hdim'.trans hdim, hf'⟩

-- ---------------------------------------------------------------------------
-- Systems
-- ---------------------------------------------------------------------------

/-- The matrix takes a vector where the transpose of the factor takes its image under the factor. -/
theorem Factors.sum_mul_eq (hf : f.Factors M) {x c : ℕ → ℝ}
    (hx : ∀ i, i < f.dim → ∑ j ∈ range f.dim, f.entries i j * x j = c i) {i : ℕ}
    (hi : i < f.dim) :
    ∑ j ∈ range f.dim, M i j * x j = ∑ k ∈ range f.dim, f.entries k i * c k :=
  calc ∑ j ∈ range f.dim, M i j * x j
      = ∑ j ∈ range f.dim, ∑ k ∈ range f.dim, f.entries k i * (f.entries k j * x j) := by
        refine Finset.sum_congr rfl fun j hj => ?_
        rw [← hf.product i j hi (mem_range.1 hj), sum_mul]
        exact Finset.sum_congr rfl fun k _ => mul_assoc _ _ _
    _ = ∑ k ∈ range f.dim, f.entries k i * c k := by
        rw [sum_comm]
        refine Finset.sum_congr rfl fun k hk => ?_
        rw [← mul_sum, hx k (mem_range.1 hk)]

theorem Factors.solveR?_solves {k : ℕ} (hf : f.Factors M) {tolerance : ℝ} {b w : Tuple ℝ k}
    (h : f.solveR? tolerance b = some (.ok w)) {i : ℕ} (hi : i < f.dim) :
    ∑ j ∈ range f.dim, f.entries i j * w j = b i := by
  unfold solveR? at h
  split at h
  · next hk =>
    subst hk
    exact backSubstitute_solves hf.upper hf.diag_ne (Option.some.inj h) i hi
  · cases h

theorem Factors.solveRT?_solves {k : ℕ} (hf : f.Factors M) {tolerance : ℝ} {b z : Tuple ℝ k}
    (h : f.solveRT? tolerance b = some (.ok z)) {i : ℕ} (hi : i < f.dim) :
    ∑ j ∈ range f.dim, f.entries j i * z j = b i := by
  unfold solveRT? at h
  split at h
  · next hk =>
    subst hk
    exact forwardSubstitute_solves (fun i j hij hj => hf.upper j i hij hj) hf.diag_ne
      (Option.some.inj h) i hi
  · cases h

/-- Both systems with the triangular factor together are one with its matrix. -/
theorem Factors.solves {k : ℕ} (hf : f.Factors M) {tolerance : ℝ} {b z w : Tuple ℝ k}
    (hz : f.solveRT? tolerance b = some (.ok z)) (hw : f.solveR? tolerance z = some (.ok w))
    {i : ℕ} (hi : i < f.dim) : ∑ j ∈ range f.dim, M i j * w j = b i :=
  (hf.sum_mul_eq (fun _ hk => hf.solveR?_solves hw hk) hi).trans (hf.solveRT?_solves hz hi)

-- ---------------------------------------------------------------------------
-- Uniqueness
-- ---------------------------------------------------------------------------

/-- The equations that a factorization solves, one row after the other, determine the rows up to
their signs. -/
theorem rows_eq_of_products_eq {d e : ℕ} {F E : ℕ → ℕ → ℝ} (hde : d ≤ e)
    (hF : ∀ i j, j < i → i < d → F i j = 0) (hF' : ∀ i j, j < i → i < d → E i j = 0)
    (hne : ∀ i, i < d → F i i ≠ 0)
    (hproduct : ∀ i j, i < d → i ≤ j → j < e →
      E i i * E i j + ∑ k ∈ range i, E k i * E k j =
        F i i * F i j + ∑ k ∈ range i, F k i * F k j) :
    ∀ i, i < d → ∃ sign : ℝ, (sign = 1 ∨ sign = -1) ∧ ∀ j, j < e → E i j = sign * F i j := by
  -- the rows above a row determine what its products with the diagonal are
  intro i
  induction i using Nat.strong_induction_on with
  | _ i ih =>
    intro hi
    have hrow : ∀ j, j < e → E i i * E i j = F i i * F i j := by
      intro j hj
      rcases Nat.lt_or_ge j i with hlt | hge
      · rw [hF i j hlt hi, hF' i j hlt hi, mul_zero, mul_zero]
      have hsum : ∑ k ∈ range i, E k i * E k j = ∑ k ∈ range i, F k i * F k j := by
        refine Finset.sum_congr rfl fun k hk => ?_
        have hk := mem_range.1 hk
        obtain ⟨sign, hsign, hentries⟩ := ih k hk (by omega)
        rw [hentries i (by omega), hentries j hj]
        rcases hsign with rfl | rfl
        · ring
        · ring
      have heq := hproduct i j hi hge hj
      rw [hsum] at heq
      linarith
    have hne := hne i hi
    rcases mul_self_eq_mul_self_iff.1 (hrow i (by omega)) with heq | heq
    · refine ⟨1, .inl rfl, fun j hj => ?_⟩
      have hj := hrow j hj
      rw [heq] at hj
      rw [one_mul]
      exact mul_left_cancel₀ hne hj
    · refine ⟨-1, .inr rfl, fun j hj => ?_⟩
      have hj := hrow j hj
      rw [heq] at hj
      refine mul_left_cancel₀ hne ?_
      linarith

/-- A matrix determines its factor, apart from the signs of the rows. -/
theorem Factors.entries_eq (hf : f.Factors M) (hf' : f'.Factors M) (hdim : f'.dim = f.dim) :
    ∀ i, i < f.dim → ∃ sign : ℝ, (sign = 1 ∨ sign = -1) ∧
      ∀ j, j < f.dim → f'.entries i j = sign * f.entries i j := by
  have hupper' := hf'.upper
  have hproduct' := hf'.product
  rw [hdim] at hupper' hproduct'
  refine rows_eq_of_products_eq (Nat.le_refl _) hf.upper hupper' hf.diag_ne fun i j hi _ hj => ?_
  rw [← sum_columns_of_upper hf.upper hi, ← sum_columns_of_upper hupper' hi,
    hf.product i j hi hj, hproduct' i j hi hj]

/-- A matrix that has a factor can be factorized: the pivots are the squares of the diagonal entries
of the factor. -/
theorem Factors.fillColumns_ok (hf : f.Factors A) (hG : ∀ i j, j < i → G i j = 0) :
    ∀ {d : ℕ}, d ≤ f.dim → ∃ G', fillColumns A 0 d G = .ok G' := by
  intro d
  induction d with
  | zero => exact fun _ => ⟨G, rfl⟩
  | succ j ih =>
    intro hj
    have hdim := f.dim_le
    obtain ⟨G1, hfirst⟩ := ih (by omega)
    have hfilled := fillColumns_filled le_rfl hG (by omega) hfirst
    obtain ⟨hkept, hsolved⟩ := fillColumn_spec (A := A) (G := G1) (show j < n by omega)
      (Nat.le_refl j) fun k hk => (hfilled.diag_pos k hk).ne'
    have hexpand : ∀ i c, i < f.dim → c < f.dim → A i c =
        f.entries i i * f.entries i c + ∑ k ∈ range i, f.entries k i * f.entries k c := by
      intro i c hi hc
      rw [← hf.product i c hi hc, sum_columns_of_upper hf.upper hi]
    -- above row `j` the columns up to `j` are those of the factor, up to signs
    have hsigns := rows_eq_of_products_eq (d := j) (e := j + 1) (F := f.entries)
      (E := fillColumn A j j G1) (by omega) (fun i c hci hi => hf.upper i c hci (by omega))
      (fun i c hci hi => by rw [hkept i c (.inl (by omega))]; exact hfilled.upper i c hci)
      (fun i hi => hf.diag_ne i (by omega)) ?_
    · have hsum : ∑ k ∈ range j, fillColumn A j j G1 k j * fillColumn A j j G1 k j =
          ∑ k ∈ range j, f.entries k j * f.entries k j := by
        refine Finset.sum_congr rfl fun k hk => ?_
        obtain ⟨sign, hsign, hentries⟩ := hsigns k (mem_range.1 hk)
        rw [hentries j (by omega)]
        rcases hsign with rfl | rfl
        · ring
        · ring
      have hpivot : ¬deduct (A j j) j (fun k => fillColumn A j j G1 k j *
          fillColumn A j j G1 k j) ≤ 0 := by
        rw [deduct_eq_sum, hsum, hexpand j j (by omega) (by omega), add_sub_cancel_right]
        exact not_le.2 (mul_self_pos.2 (hf.diag_ne j (by omega)))
      rw [fillColumns, hfirst]
      exact ⟨_, if_neg hpivot⟩
    · intro i c hi hic hc
      rw [← hexpand i c (by omega) (by omega)]
      have hold : ∀ k, fillColumn A j j G1 k i = G1 k i := fun k => hkept k i (.inl (by omega))
      simp only [hold]
      rcases Nat.lt_succ_iff_lt_or_eq.1 hc with hlt | rfl
      · have hold : ∀ k, fillColumn A j j G1 k c = G1 k c :=
          fun k => hkept k c (.inl (by omega))
        simp only [hold]
        exact hfilled.product i c hic hlt
      · exact hsolved i hi

theorem Factors.factorize_ok (hf : f.Factors A) :
    ∃ f', f.factorize? f.dim A 0 = some (.ok f') := by
  obtain ⟨G, hG⟩ := hf.fillColumns_ok (fun i j _ => f.cleared_apply i j) (Nat.le_refl _)
  unfold factorize?
  rw [dif_pos f.dim_le, hG]
  exact ⟨_, rfl⟩

end ActiveSet.Cholesky
