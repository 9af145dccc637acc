import ActiveSet.Factor.Cholesky

/-!
# Null space factorization

The active constraints restrict the free variables by a matrix `A` with one row for each active
constraint and one column for each free variable.  An orthogonal matrix `Q` splits the space of the
free variables: `A Q = [0 T]`, where the first columns `Z` of `Q` span the null space of `A`, and
`T` is reverse triangular, so row `i` of it is zero left of the antidiagonal.

The factorization does not hold `A`.  Each change of `A` by a row or a column comes with the
rotations that restore the shape.

* `NullSpace.rowTimesQ?`: a row in the coordinates of `Q`.
* `NullSpace.concentrate?`: rotates `Z` so that a row in these coordinates has one entry left of
  `T`, and `NullSpace.turnZ` does the same to `Q`.
* `NullSpace.appendRow?`, `NullSpace.removeRow?`: a constraint becomes active or inactive.
* `NullSpace.removeLastRow?`, `NullSpace.appendFreeRow?`: a variable becomes fixed or free.
* `NullSpace.solveT?`, `NullSpace.solveTT?`: the systems with `T` and with its transpose.

Like the factor of the Hessian, `Q` takes the leading block of a buffer that a reset scales by
zero.  Every entry of `T` is written before it is read, so nothing else of its buffer matters.
-/

namespace ActiveSet

namespace Grid

variable {K : Type} {m n : Nat}

/-- A grid with one more column on the left. -/
def prependColumn [Zero K] (a : Nat → K) (G : Grid K m n) : Grid K m (n + 1) :=
  ofFn m (n + 1) fun i j => if j = 0 then a i else G i (j - 1)

theorem prependColumn_apply [Zero K] (a : Nat → K) (G : Grid K m n) {i j : Nat} (hi : i < m)
    (hj : j < n + 1) : G.prependColumn a i j = if j = 0 then a i else G i (j - 1) :=
  ofFn_apply hi hj

end Grid

/-- The factors `Q` and `T` for up to `n` free variables and `m` constraints. -/
structure NullSpace (K : Type) (n m : Nat) where
  /-- The buffer of `Q`. -/
  q : Grid K n n
  /-- The buffer of `T`. -/
  t : Grid K (min n m) (min n m)
  /-- The number of free variables. -/
  nFree : Nat
  /-- The number of active constraints. -/
  nActive : Nat
  /-- The free variables fit into the buffer. -/
  nFree_le : nFree ≤ n
  /-- There are at most as many active constraints as free variables. -/
  nActive_le : nActive ≤ nFree
  /-- The active constraints fit into the buffer. -/
  nActive_le_capacity : nActive ≤ min n m

namespace NullSpace

variable {K : Type} {n m : Nat}

/-- The largest number of active constraints. -/
def capacity (_ : NullSpace K n m) : Nat := min n m

/-- The dimension of the null space. -/
def nNull (f : NullSpace K n m) : Nat := f.nFree - f.nActive

variable [Scalar K]

/-- No free variables and no active constraints, in fresh buffers. -/
def empty (n m : Nat) : NullSpace K n m where
  q := Grid.fill n n 0
  t := Grid.fill _ _ 0
  nFree := 0
  nActive := 0
  nFree_le := Nat.zero_le _
  nActive_le := Nat.le_refl _
  nActive_le_capacity := Nat.zero_le _

/-- `Q` becomes the identity for `k` free variables without active constraints. -/
def reset (f : NullSpace K n m) (k : Nat) (h : k ≤ n) : NullSpace K n m :=
  let cleared := f.q.scale 0
  { q := Grid.ofFn n n fun i j => if i = j ∧ i < k then 1 else cleared i j
    t := Grid.fill _ _ 0
    nFree := k
    nActive := 0
    nFree_le := h
    nActive_le := Nat.zero_le _
    nActive_le_capacity := Nat.zero_le _ }

/-- The identity for a number of free variables that has to fit into the buffer. -/
def reset? (f : NullSpace K n m) (k : Nat) : Option (NullSpace K n m) :=
  if h : k ≤ n then some (f.reset k h) else none

/-! ## Rows and columns -/

/-- A row `a` over the free variables in the coordinates of `Q`, `aᵀ Q`. -/
def rowTimesQ? {k : Nat} (f : NullSpace K n m) (a : Tuple K k) : Option (Tuple K k) :=
  if k = f.nFree then some (Tuple.ofFn k fun j => sum k fun p => a p * f.q p j) else none

/-- A row of `Q`.  Its entries have to lie within the buffer, which stands row after row; if there
are no entries, the row may also begin at the end of the buffer. -/
def row? (f : NullSpace K n m) (p : Nat) : Option (Tuple K f.nFree) :=
  if p * n + f.nFree ≤ n * n then some (Tuple.ofFn f.nFree fun j => f.q p j) else none

/-- A column of `Q`.  The buffer stands row after row, so a column number past its width means a
column that begins some rows further down.  Its entries have to lie within the buffer. -/
def column? (f : NullSpace K n m) (j : Nat) : Option (Tuple K f.nFree) :=
  if f.nFree = 0 ∨ f.nFree + j / n ≤ n then
    some (Tuple.ofFn f.nFree fun p => f.q (p + j / n) (j % n))
  else none

/-- Every row of the buffer can be read. -/
theorem row?_of_lt (f : NullSpace K n m) {p : Nat} (h : p < n) :
    f.row? p = some (Tuple.ofFn f.nFree fun j => f.q p j) := by
  have hend : p * n + f.nFree ≤ n * n :=
    calc
      p * n + f.nFree ≤ p * n + n := Nat.add_le_add_left f.nFree_le _
      _ = (p + 1) * n := (Nat.succ_mul p n).symm
      _ ≤ n * n := Nat.mul_le_mul_right n h
  simp [row?, hend]

/-- Every column of the buffer can be read, from its first entry on. -/
theorem column?_of_lt (f : NullSpace K n m) {j : Nat} (h : j < n) :
    f.column? j = some (Tuple.ofFn f.nFree fun p => f.q p j) := by
  simp [column?, Nat.div_eq_of_lt h, Nat.mod_eq_of_lt h, f.nFree_le]

/-! ## Rotations of the null space -/

/-- The rotations of `Z` that collect the first entries of a row in the last of them, with the row
after them. -/
def concentrate? {k : Nat} (f : NullSpace K n m) (w : Tuple K k) :
    Option (List (Rotation K) × Tuple K k) :=
  if 0 < f.nNull ∧ (f.nNull = 1 ∨ f.nNull ≤ k) then
    let last := f.nNull - 1
    -- the sweep starts with the first entry and collects the others one by one
    let (gs, r) := Rotation.sweep (w 0) ((List.range last).map fun j => w (j + 1))
    some (gs, Tuple.ofFn k fun j => if j < last then 0 else if j = last then r else w j)
  else none

/-- Neighbouring columns of `Q` are rotated, starting with the first two. -/
def turnZ (f : NullSpace K n m) (gs : List (Rotation K)) : NullSpace K n m :=
  { f with q := f.q.turnNeighbours f.nFree 0 gs }

/-! ## Active constraints -/

/-- A constraint becomes active.  Its row in the coordinates of `Q` has been concentrated, so that
the last column of `Z` joins `T` as a new first column. -/
def appendRow? {k : Nat} (f : NullSpace K n m) (w : Tuple K k) : Option (NullSpace K n m) :=
  if h : k = f.nFree ∧ f.nActive < min n m ∧ f.nActive < f.nFree then
    some { f with
      t := Grid.ofFn _ _ fun i j =>
        if i = f.nActive then w (f.nNull - 1 + j) else if j = 0 then 0 else f.t i (j - 1)
      nActive := f.nActive + 1
      nActive_le := h.2.2
      nActive_le_capacity := h.2.1 }
  else none

/-- `Q` and `T` after the rows of `T` below a removed one have been given a new antidiagonal entry
each.  `i` is the row in turn, `count` the number of rows that are left. -/
def shiftRows (nFree nActive : Nat) (q : Grid K n n) (t : Grid K (min n m) (min n m)) :
    Nat → Nat → Grid K n n × Grid K (min n m) (min n m)
  | _, 0 => (q, t)
  | i, count + 1 =>
    let c := nActive - 1 - i
    let (g, _) := Rotation.toward (t i (c + 1)) (t i c)
    let first := nFree - nActive + c
    shiftRows nFree nActive (q.turnColumns nFree (first + 1) first g)
      ((t.turnColumns nActive (c + 1) c g).set i c 0) (i + 1) count

/-- An active constraint becomes inactive.  The rows below it move up, and the first column of `T`
becomes the last one of `Z`. -/
def removeRow? (f : NullSpace K n m) (p : Nat) : Option (NullSpace K n m) :=
  if p < f.nActive then
    let (q, t) := shiftRows f.nFree f.nActive f.q f.t (p + 1) (f.nActive - (p + 1))
    some { f with
      q := q
      -- the first column of `T` is zero by now in all rows that stay
      t := Grid.ofFn _ _ fun i j => if i < p then t i (j + 1) else t (i + 1) (j + 1)
      nActive := f.nActive - 1
      nActive_le := Nat.le_trans (Nat.sub_le _ _) f.nActive_le
      nActive_le_capacity := Nat.le_trans (Nat.sub_le _ _) f.nActive_le_capacity }
  else none

/-! ## Free variables -/

/-- Two free variables change places. -/
def swapRows? (f : NullSpace K n m) (a b : Nat) : Option (NullSpace K n m) :=
  if a = b ∨ f.nFree = 0 then some f
  else if a < n ∧ b < n then
    some { f with
      q := Grid.ofFn n n fun i j =>
        if j < f.nFree then f.q (if i = a then b else if i = b then a else i) j else f.q i j }
  else none

/-- `Q` and the last column of `Z` followed by `T`, after the last row of `Q` has been collected in
its last entry.  `j` is the column of `T` in turn, `count` the number of columns that are left. -/
def collectLastRow (nFree nActive : Nat) (q : Grid K n n) (t : Grid K (min n m) (min n m + 1)) :
    Nat → Nat → Grid K n n × Grid K (min n m) (min n m + 1)
  | _, 0 => (q, t)
  | j, count + 1 =>
    let v := nFree - nActive - 1 + j
    let (g, _) := Rotation.toward (q (nFree - 1) (v + 1)) (q (nFree - 1) v)
    collectLastRow nFree nActive (q.turnColumns nFree (v + 1) v g)
      (t.turnColumns nActive (j + 1) j g) (j + 1) count

/-- The last free variable becomes fixed.  Its row of `Q` has been concentrated; rotations through
the columns of `T` make it a unit row, which leaves together with the last column. -/
def removeLastRow? (f : NullSpace K n m) : Option (NullSpace K n m) :=
  if h : f.nActive < f.nFree then
    let (q, t) := collectLastRow f.nFree f.nActive f.q (f.t.prependColumn fun _ => 0) 0 f.nActive
    let last := f.nFree - 1
    some { f with
      -- row and column `last` are unit vectors up to rounding
      q := Grid.ofFn n n fun i j =>
        if (i = last ∧ j ≤ last) ∨ (j = last ∧ i ≤ last) then 0 else q i j
      t := Grid.ofFn _ _ fun i j => t i j
      nFree := last
      nFree_le := Nat.le_trans (Nat.sub_le _ _) f.nFree_le
      nActive_le := Nat.le_sub_one_of_lt h }
  else none

/-- `Q` and a column of `Z` followed by `T`, after the column has been rotated into `T`.  `i` is the
row in turn, `count` the number of rows that are left, and `z` the place of the column in `Q`. -/
def absorbColumn (nFree nActive z : Nat) (q : Grid K n n) (t : Grid K (min n m) (min n m + 1)) :
    Nat → Nat → Grid K n n × Grid K (min n m) (min n m + 1)
  | _, 0 => (q, t)
  | i, count + 1 =>
    let c := nActive - i
    let (g, _) := Rotation.toward (t i c) (t i 0)
    absorbColumn nFree nActive z (q.turnColumns nFree (z + c) z g)
      ((t.turnColumns nActive c 0 g).set i 0 0) (i + 1) count

/-- A variable becomes free, as the last one, with the column `a` of the active constraints.  A new
column of `Z` is the unit column of the variable, and rotations move its part in the constraints
over to `T`.  The column of the constraints that is left comes with the result. -/
def appendFreeRow? {k : Nat} (f : NullSpace K n m) (a : Tuple K k) :
    Option (NullSpace K n m × Tuple K k) :=
  if h : k = f.nActive ∧ f.nFree < n then
    let z := f.nNull
    -- column `z` makes room between `Z` and the columns of `T`
    let q := Grid.ofFn n n fun i j =>
      if i < f.nFree ∧ j ≤ f.nFree then
        if j < z then f.q i j else if j = z then 0 else f.q i (j - 1)
      else if i = f.nFree ∧ j ≤ f.nFree then
        if j = z then 1 else 0
      else f.q i j
    let (q, t) :=
      absorbColumn (f.nFree + 1) f.nActive z q (f.t.prependColumn fun i => a i) 0 f.nActive
    some ({ f with
      q := q
      t := Grid.ofFn _ _ fun i j => t i (j + 1)
      nFree := f.nFree + 1
      nFree_le := h.2
      nActive_le := Nat.le_succ_of_le f.nActive_le }, Tuple.ofFn k fun i => t i 0)
  else none

/-! ## Systems -/

/-- Solves `T x = b`; the result overwrites `x`.  Row by row `T` determines the unknowns from the
last one on. -/
def solveT? {k : Nat} (f : NullSpace K n m) (tolerance : K) (b x : Tuple K k) :
    Option (Except (Failure (Tuple K k)) (Tuple K k)) :=
  if k = f.nActive then
    some (backSubstitute tolerance (fun u j => f.t (k - 1 - u) j) (fun u => b (k - 1 - u)) x)
  else none

/-- Solves `Tᵀ x = b`; the result overwrites `x`.  Column by column `T` determines the unknowns from
the last one on. -/
def solveTT? {k : Nat} (f : NullSpace K n m) (tolerance : K) (b x : Tuple K k) :
    Option (Except (Failure (Tuple K k)) (Tuple K k)) :=
  if k = f.nActive then
    some (backSubstitute tolerance (fun u i => f.t i (k - 1 - u)) (fun u => b (k - 1 - u)) x)
  else none

/-- `Q` as a list of rows. -/
def qLists (f : NullSpace K n m) : List (List K) := f.q.leading f.nFree f.nFree

/-- `T` as a list of rows. -/
def tLists (f : NullSpace K n m) : List (List K) := f.t.leading f.nActive f.nActive

end NullSpace

end ActiveSet
