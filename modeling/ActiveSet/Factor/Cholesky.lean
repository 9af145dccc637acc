import ActiveSet.Factor.Rotation
import ActiveSet.Factor.Substitution
import ActiveSet.Fault

/-!
# Triangular factors of a symmetric matrix

A positive definite matrix is the product `Rᵀ R` of an upper triangular matrix with its transpose.
A solver changes the matrix one row and column at a time, and the factor follows by rotations
instead of being computed anew.

* `Cholesky.factorize?`, `Cholesky.identity?`: the factor of a given matrix and of the identity.
* `Cholesky.solveR?`, `Cholesky.solveRT?`: the systems with `R` and with its transpose.
* `Cholesky.append?`, `Cholesky.removeColumn?`, `Cholesky.dropLast?`: a row and a column join or
  leave the matrix.
* `Cholesky.turnBasis?`: the basis in which the matrix is written is rotated.

The factor lives in a buffer of fixed size and takes its leading block.  A reset scales the buffer
by zero, so an entry that is not a number survives it, and a later factor of another dimension can
meet it again.  For that reason the whole buffer is part of the state.

An operation whose requirement on dimensions does not hold has no value, which the question mark in
its name stands for.
-/

namespace ActiveSet

/-- An upper triangular factor of dimension at most `n`. -/
structure Cholesky (K : Type) (n : Nat) where
  /-- The buffer, whose leading block is the factor. -/
  entries : Grid K n n
  /-- The dimension of the factor. -/
  dim : Nat
  /-- The factor fits into the buffer. -/
  dim_le : dim ≤ n

namespace Cholesky

variable {K : Type} [Scalar K] {n : Nat}

/-- The factor of dimension zero in a fresh buffer. -/
def empty (n : Nat) : Cholesky K n := ⟨Grid.fill n n 0, 0, Nat.zero_le n⟩

/-- The buffer scaled by zero. -/
def cleared (f : Cholesky K n) : Grid K n n := f.entries.scale 0

/-- The factor shrinks to dimension zero. -/
def reset (f : Cholesky K n) : Cholesky K n := ⟨f.cleared, 0, Nat.zero_le n⟩

/-- The identity of dimension `d`. -/
def identity? (f : Cholesky K n) (d : Nat) : Option (Cholesky K n) :=
  if h : d ≤ n then
    some ⟨Grid.ofFn n n fun i j => if i = j ∧ i < d then 1 else f.cleared i j, d, h⟩
  else none

/-! ## Factorization -/

/-- The entries of column `j` above row `i`, from the top down: what is left of the entry of the
matrix after the rows above are taken off, divided by the diagonal. -/
def fillColumn (mat : Nat → Nat → K) (j : Nat) : Nat → Grid K n n → Grid K n n
  | 0, G => G
  | i + 1, G =>
    let G := fillColumn mat j i G
    G.set i j (deduct (mat i j) i (fun k => G k i * G k j) / G i i)

/-- The first columns of the factor, one after the other.  A pivot that is not above the tolerance
ends the factorization, with the columns computed so far. -/
def fillColumns (mat : Nat → Nat → K) (tolerance : K) :
    Nat → Grid K n n → Except (Failure (Grid K n n)) (Grid K n n)
  | 0, G => .ok G
  | j + 1, G => do
    let G ← fillColumns mat tolerance j G
    let G := fillColumn mat j j G
    let pivot := deduct (mat j j) j fun k => G k j * G k j
    if pivot ≤ tolerance then .error ⟨.hessianNotSpd, G⟩
    else .ok (G.set j j (Scalar.sqrt pivot))

/-- The factor of a symmetric matrix of dimension `d`, of which the upper triangle is looked at.
The matrix has no factor if a pivot is not above the tolerance; what is left then has dimension
zero. -/
def factorize? (f : Cholesky K n) (d : Nat) (mat : Nat → Nat → K) (tolerance : K) :
    Option (Except (Failure (Cholesky K n)) (Cholesky K n)) :=
  if h : d ≤ n then
    some <| match fillColumns mat tolerance d f.cleared with
      | .ok G => .ok ⟨G, d, h⟩
      | .error f => .error ⟨f.error, f.left, 0, Nat.zero_le n⟩
  else none

/-! ## Systems -/

/-- Solves `R x = b` in place, for `b` of the dimension of the factor. -/
def solveR? {k : Nat} (f : Cholesky K n) (tolerance : K) (b : Tuple K k) :
    Option (Except (Failure (Tuple K k)) (Tuple K k)) :=
  if k = f.dim then some (backSubstitute tolerance f.entries b b) else none

/-- Solves `Rᵀ x = b` in place, for `b` of the dimension of the factor. -/
def solveRT? {k : Nat} (f : Cholesky K n) (tolerance : K) (b : Tuple K k) :
    Option (Except (Failure (Tuple K k)) (Tuple K k)) :=
  if k = f.dim then some (forwardSubstitute tolerance (fun i j => f.entries j i) b b) else none

/-! ## Updates -/

/-- The buffer with one more column of the factor: `col` above the diagonal entry `rho`. -/
def bordered (f : Cholesky K n) (col : Nat → K) (rho : K) : Grid K n n :=
  Grid.ofFn n n fun i j =>
    if i = f.dim ∧ j = f.dim then rho
    else if i < f.dim ∧ j = f.dim then col i
    else if i = f.dim ∧ j < f.dim then 0
    else f.entries i j

/-- The matrix gains a last row and column, with the entries `col` beside the diagonal and `diag`
on it.  Above the diagonal the new column of the factor solves `Rᵀ r = col`, and the square of its
diagonal entry is `diag` less the squares of `r`, which has to be above a tolerance.  The new column
comes with the result, and a failure leaves it as far as it was determined. -/
def append? {k : Nat} (f : Cholesky K n) (col : Tuple K k) (diag pivotTolerance tolerance : K) :
    Option (Except (Failure (Tuple K k)) (Tuple K k × Cholesky K n)) :=
  if h : f.dim < n then
    match f.solveRT? tolerance col with
    | none => none
    | some (.error e) => some (.error e)
    | some (.ok r) =>
      let square := diag - dot k r r
      if square ≤ pivotTolerance then some (.error ⟨.hessianNotSpd, r⟩)
      else some (.ok (r, ⟨f.bordered r (Scalar.sqrt square), f.dim + 1, h⟩))
  else none

/-- Rotations of neighbouring rows, from row `i` on, that make the diagonal entries of columns
`i`, …, `i + count - 1` zero. -/
def clearDiagonal (d : Nat) (G : Grid K n n) : Nat → Nat → Grid K n n
  | _, 0 => G
  | i, count + 1 => clearDiagonal d (G.eliminate d (i - 1) i i) (i + 1) count

/-- The matrix loses row and column `p`.  Without its column `p` the factor has entries below the
diagonal; rotations of neighbouring rows remove them, and its last row is zero then. -/
def removeColumn? (f : Cholesky K n) (p : Nat) : Option (Cholesky K n) :=
  if p < f.dim then
    let d := f.dim
    -- after these rotations row `d - 1` is zero apart from column `p`, which is struck
    let G := clearDiagonal d f.entries (p + 1) (d - (p + 1))
    some {
      entries := Grid.ofFn n n fun i j =>
        if i < d ∧ j < d then
          if i = d - 1 ∨ j = d - 1 then 0 else if p ≤ j then G i (j + 1) else G i j
        else G i j
      dim := d - 1
      dim_le := Nat.le_trans (Nat.sub_le _ _) f.dim_le }
  else none

/-- The matrix is written in a basis whose vectors `j + 1` and `j` are rotated.  The rotation of
the columns of the factor leaves one entry below the diagonal, which a rotation of rows removes. -/
def turnBasis? (f : Cholesky K n) (j : Nat) (g : Rotation K) : Option (Cholesky K n) :=
  if j + 1 < f.dim then
    some { f with
      -- row `j + 1` is the last one that columns `j` and `j + 1` reach
      entries := (f.entries.turnColumns (j + 2) (j + 1) j g).eliminate f.dim j (j + 1) j }
  else none

/-- The basis is rotated several times, each time one vector further on. -/
def turnBases? (f : Cholesky K n) (first : Nat) : List (Rotation K) → Option (Cholesky K n)
  | [] => some f
  | g :: gs => do (← f.turnBasis? first g).turnBases? (first + 1) gs

/-- The matrix loses its last row and column. -/
def dropLast? (f : Cholesky K n) : Option (Cholesky K n) :=
  if 0 < f.dim then
    let d := f.dim - 1
    some {
      entries := Grid.ofFn n n fun i j =>
        if (i = d ∧ j ≤ d) ∨ (j = d ∧ i ≤ d) then 0 else f.entries i j
      dim := d
      dim_le := Nat.le_trans (Nat.sub_le _ _) f.dim_le }
  else none

/-- The factor as a list of rows. -/
def toLists (f : Cholesky K n) : List (List K) := f.entries.leading f.dim f.dim

end Cholesky

end ActiveSet
