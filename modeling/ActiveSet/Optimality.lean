import ActiveSet.Fault
import ActiveSet.Problem

/-!
# Optimality conditions

A point `x` with multipliers `y` is optimal for a convex problem if the gradient of the objective
is the combination of the limits by the multipliers, if all limits hold, and if a multiplier is
positive only at a lower limit and negative only at an upper one.  `violation` is the largest
amount by which one of these conditions fails, and `accept` judges it.

A multiplier that belongs to no active limit is weighed by its distance to the limit, but by at
most one, so that a multiplier of a distant limit counts in full.
-/

namespace ActiveSet.Optimality

variable {K : Type} [Scalar K] {n m : Nat}

/-- How far the gradient of the objective is from the combination of the limits, in the direction
of a variable. -/
def residual (hessian : Grid K n n) (matrix : Grid K m n) (d : Data K n m) (x : Tuple K n)
    (y : Dual K n m) (i : Nat) : K :=
  deduct (dot n (hessian i) x + d.gradient i - y.bound i) m fun c => matrix c i * y.row c

/-- How far a value is from its limits, and its multiplier from belonging to one of them. -/
def sideViolation (value lower upper multiplier : K) : K :=
  let outside := max (max (lower - value) (value - upper)) 0
  if 0 < multiplier then max outside (multiplier * min (Scalar.abs (value - lower)) 1)
  else if multiplier < 0 then max outside (-multiplier * min (Scalar.abs (upper - value)) 1)
  else outside

/-- The largest violation of an optimality condition. -/
def violation (hessian : Grid K n n) (matrix : Grid K m n) (d : Data K n m) (x : Tuple K n)
    (y : Dual K n m) : K :=
  let ofBounds : K := n.fold (fun i _ v =>
    max (max v (Scalar.abs (residual hessian matrix d x y i)))
      (sideViolation (x i) (d.lower i) (d.upper i) (y.bound i))) 0
  m.fold (fun c _ v =>
    max v (sideViolation (dot n (matrix c) x) (d.rowLower c) (d.rowUpper c) (y.row c))) ofBounds

/-- The first entries of an array that has enough of them. -/
def leading? (k : Nat) (a : Array K) : Option (Tuple K k) :=
  if k ≤ a.size then some (.ofFn k fun i => a.getD i 0) else none

/-- The largest violation for a problem that is given by arrays, with the matrices row by row and
the multipliers of bounds before those of constraints.  The arrays have to fit to the numbers of
variables and constraints; of the vectors of data the leading entries count, and where there are
neither variables nor constraints nobody looks at the point. -/
def violationOfArrays? (n m : Nat) (hessian gradient matrix lower upper rowLower rowUpper x y :
    Array K) : Option K := do
  let H ← Grid.ofArray? n n hessian
  let A ← Grid.ofArray? m n matrix
  let y ← Dual.ofArray? n m y
  let x ← if n = 0 ∧ m = 0 then some (Tuple.fill n 0) else Tuple.ofArray? n x
  let d : Data K n m :=
    { gradient := ← leading? n gradient
      lower := ← leading? n lower
      upper := ← leading? n upper
      rowLower := ← leading? m rowLower
      rowUpper := ← leading? m rowUpper }
  return violation H A d x y

/-- Accepts a violation up to a tolerance.  Up to a hundred times the tolerance the solution is
inaccurate, beyond that it is none. -/
def accept (amount tolerance : K) : Except QpError Unit :=
  if amount ≤ tolerance then .ok ()
  else if amount ≤ tolerance * ((100 : Nat) : K) then .error .inaccurateSolution
  else .error .noSolution

end ActiveSet.Optimality
