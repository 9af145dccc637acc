import ActiveSet.Dense.Tuple

/-!
# Grids

A grid is a rectangular table of scalars, stored row by row and read as a function of a row and a
column index, which is zero outside.  As with tuples, `Grid.ofFn_apply` says what a grid that was
built from a formula holds.

Two products of a grid with a tuple are needed, and their entries are rounded differently.

* `Grid.apply`: each entry is one inner product with a row, `a (G x) + b y`.
* `Grid.combine`: the rows are added up one after the other, `a (Gᵀ x) + b y`.

`b y` is a product even when `b` is zero, so an entry of `y` that is not a number stays one.

A matrix that comes as an array stands column after column there, and `Grid.multiply?` is its product
with a vector, or that of its transpose: the columns are the rows of a grid, so the two are
`Grid.combine` and `Grid.apply`.
-/

namespace ActiveSet

/-- A table of scalars with `m` rows and `n` columns. -/
structure Grid (K : Type) (m n : Nat) where
  /-- The stored rows. -/
  rows : Vector (Vector K n) m
deriving DecidableEq, Repr

namespace Grid

variable {K : Type} {m n : Nat}

/-- The grid whose entry in row `i` and column `j` is `f i j`. -/
def ofFn (m n : Nat) (f : Nat → Nat → K) : Grid K m n :=
  ⟨Vector.ofFn fun i => Vector.ofFn fun j => f i j⟩

/-- The entry in a row and a column, zero outside the grid. -/
def get [Zero K] (G : Grid K m n) (i j : Nat) : K :=
  if hi : i < m then
    if hj : j < n then G.rows[i][j] else 0
  else 0

instance [Zero K] : CoeFun (Grid K m n) fun _ => Nat → Nat → K := ⟨get⟩

theorem ofFn_apply [Zero K] {f : Nat → Nat → K} {i j : Nat} (hi : i < m) (hj : j < n) :
    ofFn m n f i j = f i j := by
  simp [get, ofFn, hi, hj]

theorem apply_of_row_le [Zero K] (G : Grid K m n) {i j : Nat} (h : m ≤ i) : G i j = 0 := by
  simp [get, Nat.not_lt.mpr h]

theorem apply_of_column_le [Zero K] (G : Grid K m n) {i j : Nat} (h : n ≤ j) : G i j = 0 := by
  simp [get, Nat.not_lt.mpr h]

/-- A grid is determined by its values inside. -/
theorem ext [Zero K] {G H : Grid K m n} (h : ∀ i j, i < m → j < n → G i j = H i j) : G = H := by
  obtain ⟨G⟩ := G
  obtain ⟨H⟩ := H
  congr 1
  apply Vector.ext
  intro i hi
  apply Vector.ext
  intro j hj
  simpa [get, hi, hj] using h i j hi hj

/-- The grid with every entry `a`. -/
def fill (m n : Nat) (a : K) : Grid K m n := ofFn m n fun _ _ => a

theorem fill_apply [Zero K] {a : K} {i j : Nat} (hi : i < m) (hj : j < n) :
    fill m n a i j = a := ofFn_apply hi hj

/-- The grid that differs from `G` in one entry only; an index outside changes nothing. -/
def set [Zero K] (G : Grid K m n) (i j : Nat) (a : K) : Grid K m n :=
  ofFn m n fun r c => if r = i ∧ c = j then a else G r c

theorem set_apply [Zero K] (G : Grid K m n) (i j : Nat) (a : K) {r c : Nat} (hr : r < m)
    (hc : c < n) : G.set i j a r c = if r = i ∧ c = j then a else G r c := ofFn_apply hr hc

/-- Rows become columns. -/
def transpose [Zero K] (G : Grid K m n) : Grid K n m := ofFn n m fun i j => G j i

theorem transpose_apply [Zero K] (G : Grid K m n) {i j : Nat} (hi : i < n) (hj : j < m) :
    G.transpose i j = G j i := ofFn_apply hi hj

/-- The grid with the entries of an array of the right size, row after row. -/
def ofArray? [Zero K] (m n : Nat) (a : Array K) : Option (Grid K m n) :=
  if a.size = m * n then some (ofFn m n fun i j => a.getD (i * n + j) 0) else none

/-- The entries row after row. -/
def toList (G : Grid K m n) : List K := G.rows.toList.flatMap Vector.toList

theorem toArray_toList (G : Grid K m n) : G.toList.toArray = G.rows.flatten.toArray := by
  apply Array.ext'
  rw [Vector.flatten, Array.toList_flatten]
  simp [toList, List.flatMap]
  rfl

/-- The entry in a row and a column has its place among all of them. -/
theorem index_lt {i j : Nat} (hi : i < m) (hj : j < n) : i * n + j < m * n := by
  calc i * n + j < i * n + n := by omega
    _ = (i + 1) * n := by rw [Nat.add_mul, Nat.one_mul]
    _ ≤ m * n := Nat.mul_le_mul_right n hi

/-- A grid can be read back from its entries. -/
theorem ofArray?_toList [Zero K] (G : Grid K m n) : ofArray? m n G.toList.toArray = some G := by
  unfold ofArray?
  rw [toArray_toList, if_pos G.rows.flatten.size_toArray]
  congr 1
  refine ext fun i j hi hj => ?_
  have hlt := index_lt hi hj
  have hrow : (i * n + j) / n = i := by
    rw [Nat.mul_comm, Nat.mul_add_div (by omega), Nat.div_eq_of_lt hj, Nat.add_zero]
  rw [ofFn_apply hi hj]
  simp [hlt, hrow, get, hi, hj, Nat.mod_eq_of_lt hj]

theorem length_toList (G : Grid K m n) : G.toList.length = m * n := by
  rw [← List.size_toArray, toArray_toList]
  exact G.rows.flatten.size_toArray

/-- The entry in a row and a column stands after the rows before it and the columns before it. -/
theorem getD_toList [Zero K] (G : Grid K m n) {i j : Nat} (hi : i < m) (hj : j < n) :
    G.toList.getD (i * n + j) 0 = G i j := by
  have hread := ofArray?_toList G
  rw [ofArray?, if_pos (by rw [List.size_toArray, length_toList])] at hread
  have hentry := ofFn_apply (f := fun i j => G.toList.toArray.getD (i * n + j) 0) hi hj
  rw [Option.some.inj hread] at hentry
  rw [hentry, Array.getD_eq_getD_getElem?, List.getElem?_toArray, List.getD_eq_getElem?_getD]

/-- The leading `r` rows and `c` columns as lists. -/
def leading [Zero K] (G : Grid K m n) (r c : Nat) : List (List K) :=
  (List.range r).map fun i => (List.range c).map fun j => G i j

/-! ## Operations with scalars and tuples -/

variable [Scalar K]

/-- `a G`. -/
def scale (a : K) (G : Grid K m n) : Grid K m n := ofFn m n fun i j => a * G i j

theorem scale_apply (a : K) (G : Grid K m n) {i j : Nat} (hi : i < m) (hj : j < n) :
    G.scale a i j = a * G i j := ofFn_apply hi hj

/-- `a (G x) + b y`, one inner product for each entry. -/
def apply (G : Grid K m n) (a : K) (x : Tuple K n) (b : K) (y : Tuple K m) : Tuple K m :=
  Tuple.ofFn m fun i => a * dot n (G i) x + b * y i

/-- `a (Gᵀ x) + b y`: to `b y` the rows of `G` are added one after the other, row `r` with the
weight `a * x r`. -/
def combine (G : Grid K m n) (a : K) (x : Tuple K m) (b : K) (y : Tuple K n) : Tuple K n :=
  Tuple.ofFn n fun i => accumulate (b * y i) m fun r => a * x r * G r i

theorem apply_apply (G : Grid K m n) (a : K) (x : Tuple K n) (b : K) (y : Tuple K m) {i : Nat}
    (h : i < m) : G.apply a x b y i = a * dot n (G i) x + b * y i := Tuple.ofFn_apply h

theorem combine_apply (G : Grid K m n) (a : K) (x : Tuple K m) (b : K) (y : Tuple K n) {i : Nat}
    (h : i < n) : G.combine a x b y i = accumulate (b * y i) m fun r => a * x r * G r i :=
  Tuple.ofFn_apply h

/-- `a (G x) + b y`, or `a (Gᵀ x) + b y` if `G` is to be transposed, for a matrix `G` with `r` rows and
`c` columns that stands column after column in an array.  An array that does not fit leaves no value. -/
def multiply? (transposed : Bool) (r c : Nat) (a : K) (G x : Array K) (b : K) (y : Array K) :
    Option (Array K) := do
  let columns ← ofArray? c r G
  if transposed then
    return (columns.apply a (← Tuple.ofArray? r x) b (← Tuple.ofArray? c y)).entries.toArray
  else
    return (columns.combine a (← Tuple.ofArray? c x) b (← Tuple.ofArray? r y)).entries.toArray

/-- Whether every entry equals the entry of the identity matrix. -/
def isIdentity (G : Grid K n n) : Bool :=
  (List.range n).all fun i => (List.range n).all fun j => G i j == if i = j then 1 else 0

end Grid

end ActiveSet
