import ActiveSet.Dense.Grid
import ActiveSet.Proofs.Exact.Real
import Mathlib.Algebra.BigOperators.Fin
import Mathlib.Data.Matrix.Mul

/-!
# Products with matrices

A matrix is handed over as an array of its columns, and the product with it or with its transpose is asked
for. For the one the columns are added up, and for the other there is an inner product with each of them, so
the two are computed in different ways. In exact arithmetic both are the products of the textbook, and each
is the other one of the transposed matrix. A matrix that is stored by rows is handed over as it stands, and
counts as its transpose then.

* `vector_apply`, `vector_combine`: the two products with a grid.
* `columnMajor`, `rowMajor`: the arrays of a matrix.
* `multiply?_columnMajor`, `multiply?_columnMajor_transposed`: the two products with an array.
* `products_transpose`: both are right, transposes of each other and adjoint.
-/

namespace ActiveSet

open Matrix

variable {m n r c : ℕ}

/-- The entries of a tuple as a vector. -/
def Tuple.vector (x : Tuple ℝ n) : Fin n → ℝ := fun i => x i

/-- The entries of a grid as a matrix. -/
def Grid.matrix (A : Grid ℝ m n) : Matrix (Fin m) (Fin n) ℝ := Matrix.of fun i j => A i j

-- ---------------------------------------------------------------------------
-- Grids
-- ---------------------------------------------------------------------------

theorem dot_eq_dotProduct (x y : Tuple ℝ n) : dot n x y = x.vector ⬝ᵥ y.vector := by
  rw [dot_eq_sum, Finset.sum_range]
  rfl

/-- One inner product for each entry is the product with the matrix. -/
theorem vector_apply (A : Grid ℝ m n) (a : ℝ) (x : Tuple ℝ n) (b : ℝ) (y : Tuple ℝ m) :
    (A.apply a x b y).vector = a • A.matrix *ᵥ x.vector + b • y.vector := by
  ext i
  rw [Tuple.vector, A.apply_apply a x b y i.isLt, dot_eq_sum, Finset.sum_range]
  rfl

/-- The rows added up are the product with the transpose. -/
theorem vector_combine (A : Grid ℝ m n) (a : ℝ) (y : Tuple ℝ m) (b : ℝ) (x : Tuple ℝ n) :
    (A.combine a y b x).vector = a • A.matrixᵀ *ᵥ y.vector + b • x.vector := by
  ext j
  have hsum : ∑ i : Fin m, a * y i * A i j = a * ∑ i : Fin m, A i j * y i := by
    rw [Finset.mul_sum]
    exact Finset.sum_congr rfl fun i _ => by ring
  rw [Tuple.vector, A.combine_apply a y b x j.isLt, accumulate_eq_sum, Finset.sum_range, hsum, add_comm]
  rfl

/-- The two products are adjoint, whatever they are written over. -/
theorem dot_apply_eq_dot_combine (A : Grid ℝ m n) (x u : Tuple ℝ n) (y v : Tuple ℝ m) :
    dot m y (A.apply 1 x 0 v) = dot n (A.combine 1 y 0 u) x := by
  rw [dot_eq_dotProduct, dot_eq_dotProduct, vector_apply, vector_combine, one_smul, zero_smul,
    add_zero, one_smul, zero_smul, add_zero, dotProduct_mulVec, mulVec_transpose]

-- ---------------------------------------------------------------------------
-- Arrays
-- ---------------------------------------------------------------------------

/-- The entries of a matrix, column after column. -/
def columnMajor (G : Matrix (Fin r) (Fin c) ℝ) : Array ℝ :=
  .ofFn fun k : Fin (c * r) => G k.modNat k.divNat

/-- The entries of a matrix, row after row. -/
def rowMajor (A : Matrix (Fin m) (Fin n) ℝ) : Array ℝ :=
  .ofFn fun k : Fin (m * n) => A k.divNat k.modNat

/-- An array of the rows is one of the columns of the transpose. -/
theorem columnMajor_transpose (A : Matrix (Fin m) (Fin n) ℝ) : columnMajor Aᵀ = rowMajor A := rfl

theorem getD_columnMajor (G : Matrix (Fin r) (Fin c) ℝ) (i : Fin r) (j : Fin c) :
    (columnMajor G).getD (j * r + i) 0 = G i j := by
  have hindex : j.val * r + i.val = (finProdFinEquiv (j, i)).val := by
    rw [finProdFinEquiv_apply_val, Nat.mul_comm, Nat.add_comm]
  have hplace := finProdFinEquiv.symm_apply_apply (j, i)
  rw [Array.getD_eq_getD_getElem?, columnMajor, Array.getElem?_ofFn, hindex,
    dif_pos (finProdFinEquiv (j, i)).isLt]
  exact congrArg (fun p : Fin c × Fin r => G p.2 p.1) hplace

/-- Every array of the right size holds the columns of a matrix. -/
theorem size_eq_iff_columnMajor {M : Array ℝ} :
    M.size = r * c ↔ ∃ G : Matrix (Fin r) (Fin c) ℝ, M = columnMajor G := by
  constructor
  · intro hsize
    refine ⟨.of fun i j => M.getD (j * r + i) 0, Array.ext ?_ fun k hk _ => ?_⟩
    · rw [columnMajor, Array.size_ofFn, hsize, Nat.mul_comm]
    · refine Eq.trans ?_ (Array.getElem_ofFn _).symm
      show M[k] = M.getD (k / r * r + k % r) 0
      rw [Nat.div_add_mod', Array.getD_eq_getD_getElem?, Array.getElem?_eq_getElem hk,
        Option.getD_some]
  · rintro ⟨G, rfl⟩
    rw [columnMajor, Array.size_ofFn, Nat.mul_comm]

theorem ofArray?_ofFn (x : Fin n → ℝ) :
    ∃ t, Tuple.ofArray? n (.ofFn x) = some t ∧ t.vector = x := by
  refine ⟨⟨⟨.ofFn x, Array.size_ofFn⟩⟩, dif_pos Array.size_ofFn, ?_⟩
  ext i
  simp [Tuple.vector, Tuple.get]

theorem ofArray?_columnMajor (G : Matrix (Fin r) (Fin c) ℝ) :
    ∃ g, Grid.ofArray? c r (columnMajor G) = some g ∧ g.matrix = Gᵀ := by
  refine ⟨_, if_pos Array.size_ofFn, ?_⟩
  ext j i
  rw [Grid.matrix, of_apply, Grid.ofFn_apply j.isLt i.isLt, getD_columnMajor]
  rfl

theorem toArray_entries (x : Tuple ℝ n) : x.entries.toArray = .ofFn x.vector := by
  apply Array.ext
  · simp
  · intro i hi hi'
    have hin : i < n := by simpa using hi
    simp [Tuple.vector, Tuple.get, hin]

-- ---------------------------------------------------------------------------
-- Both products of an array
-- ---------------------------------------------------------------------------

section Products

variable (G : Matrix (Fin r) (Fin c) ℝ) (a b : ℝ) (x : Fin r → ℝ) (y : Fin c → ℝ)

theorem multiply?_columnMajor :
    Grid.multiply? false r c a (columnMajor G) (.ofFn y) b (.ofFn x) =
      some (.ofFn (a • G *ᵥ y + b • x)) := by
  obtain ⟨g, hg, hmatrix⟩ := ofArray?_columnMajor G
  obtain ⟨s, hs, rfl⟩ := ofArray?_ofFn x
  obtain ⟨t, ht, rfl⟩ := ofArray?_ofFn y
  have hvalue : Grid.multiply? false r c a (columnMajor G) (.ofFn t.vector) b (.ofFn s.vector) =
      some (g.combine a t b s).entries.toArray := by
    simp [Grid.multiply?, hg, hs, ht]
  rw [hvalue, toArray_entries, vector_combine, hmatrix, transpose_transpose]

theorem multiply?_columnMajor_transposed :
    Grid.multiply? true r c a (columnMajor G) (.ofFn x) b (.ofFn y) =
      some (.ofFn (a • Gᵀ *ᵥ x + b • y)) := by
  obtain ⟨g, hg, hmatrix⟩ := ofArray?_columnMajor G
  obtain ⟨s, hs, rfl⟩ := ofArray?_ofFn x
  obtain ⟨t, ht, rfl⟩ := ofArray?_ofFn y
  have hvalue : Grid.multiply? true r c a (columnMajor G) (.ofFn s.vector) b (.ofFn t.vector) =
      some (g.apply a s b t).entries.toArray := by
    simp [Grid.multiply?, hg, hs, ht]
  rw [hvalue, toArray_entries, vector_apply, hmatrix]

/-- The rows of a grid are handed over as the columns of its transpose, and what is computed are the
products with the grid itself. -/
theorem multiply?_toList {K : Type} [Scalar K] (A : Grid K m n) (a b : K) (x : Tuple K n)
    (y : Tuple K m) :
    Grid.multiply? true n m a A.toList.toArray x.toList.toArray b y.toList.toArray =
        some (A.apply a x b y).toList.toArray ∧
      Grid.multiply? false n m a A.toList.toArray y.toList.toArray b x.toList.toArray =
        some (A.combine a y b x).toList.toArray := by
  constructor
  · simp only [Grid.multiply?, Grid.ofArray?_toList, Tuple.ofArray?_toList, if_true]
    rfl
  · simp only [Grid.multiply?, Grid.ofArray?_toList, Tuple.ofArray?_toList, Bool.false_eq_true,
      if_false]
    rfl

end Products

theorem norm_sq_eq_dot (x : ℕ → ℝ) : norm n x ^ 2 = dot n x x := by
  rw [norm_eq_sqrt, dot_eq_sum, Real.sq_sqrt (sum_mul_self_nonneg n x)]

/-- In exact arithmetic the product with a matrix that stands column after column in an array, and the one
with its transpose, are those of the textbook, so each is the other one of the transposed matrix. This covers
all arrays of the right size. Of an array of rows they are the products with the transpose and with the
matrix, which is how the products with a grid come about. They are adjoint, and the square of a norm is an
inner product. -/
theorem products_transpose :
    (∀ (r c : ℕ) (G : Matrix (Fin r) (Fin c) ℝ) (a b : ℝ) (x : Fin r → ℝ) (y : Fin c → ℝ),
      Grid.multiply? true r c a (columnMajor G) (.ofFn x) b (.ofFn y) =
          Grid.multiply? false c r a (columnMajor Gᵀ) (.ofFn x) b (.ofFn y) ∧
        Grid.multiply? true r c a (columnMajor G) (.ofFn x) b (.ofFn y) =
          some (.ofFn (a • Gᵀ *ᵥ x + b • y)) ∧
        Grid.multiply? false r c a (columnMajor G) (.ofFn y) b (.ofFn x) =
          some (.ofFn (a • G *ᵥ y + b • x))) ∧
      (∀ (r c : ℕ) (M : Array ℝ),
        M.size = r * c ↔ ∃ G : Matrix (Fin r) (Fin c) ℝ, M = columnMajor G) ∧
      (∀ (m n : ℕ) (A : Matrix (Fin m) (Fin n) ℝ) (x u : Fin n → ℝ) (y v : Fin m → ℝ),
        Grid.multiply? true n m 1 (rowMajor A) (.ofFn x) 0 (.ofFn v) = some (.ofFn (A *ᵥ x)) ∧
        Grid.multiply? false n m 1 (rowMajor A) (.ofFn y) 0 (.ofFn u) =
          some (.ofFn (Aᵀ *ᵥ y))) ∧
      (∀ (m n : ℕ) (A : Grid ℝ m n) (x u : Tuple ℝ n) (y v : Tuple ℝ m),
        (∀ a b, Grid.multiply? true n m a A.toList.toArray x.toList.toArray b v.toList.toArray =
            some (A.apply a x b v).toList.toArray ∧
          Grid.multiply? false n m a A.toList.toArray y.toList.toArray b u.toList.toArray =
            some (A.combine a y b u).toList.toArray) ∧
        dot m y (A.apply 1 x 0 v) = dot n (A.combine 1 y 0 u) x) ∧
      ∀ (n : ℕ) (x : ℕ → ℝ), norm n x ^ 2 = dot n x x := by
  refine ⟨fun r c G a b x y => ⟨?_, multiply?_columnMajor_transposed G a b x y,
    multiply?_columnMajor G a b x y⟩, fun r c M => size_eq_iff_columnMajor, fun m n A x u y v =>
    ⟨?_, ?_⟩, fun m n A x u y v => ⟨fun a b => ⟨?_, ?_⟩, dot_apply_eq_dot_combine A x u y v⟩,
    fun n x => norm_sq_eq_dot x⟩
  · rw [multiply?_columnMajor_transposed, multiply?_columnMajor]
  · rw [← columnMajor_transpose, multiply?_columnMajor_transposed, transpose_transpose, one_smul,
      zero_smul, add_zero]
  · rw [← columnMajor_transpose, multiply?_columnMajor, one_smul, zero_smul, add_zero]
  · exact (multiply?_toList A a b x v).1
  · exact (multiply?_toList A a b u y).2

end ActiveSet
