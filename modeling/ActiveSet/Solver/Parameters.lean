import ActiveSet.Scalar

/-!
# Solver parameters

The tolerances of a solver, and what it takes for infinite.  A tolerance decides a comparison with
zero or with another number; none of them enters the result of a computation, except for the width
of the auxiliary limits.
-/

namespace ActiveSet

/-- The parameters of a solver. -/
structure Parameters (K : Type) where
  /-- A pivot or denominator up to this magnitude counts as zero. -/
  epsZero : K
  /-- A pivot of the factor of the Hessian has to exceed this. -/
  epsDefinite : K
  /-- A row whose part outside the working set is up to this, relative to its length, counts as
  dependent on the working set. -/
  epsDependent : K
  /-- Limits closer than this make an equality, and a guess this close to a limit lies on it. -/
  epsBound : K
  /-- The distance of the limits of the auxiliary problem from its solution. -/
  relaxation : K
  /-- Limits of this magnitude and beyond are infinite. -/
  infinity : K
  /-- Violations of the optimality conditions up to this are accepted. -/
  epsOptimal : K
deriving DecidableEq, Repr

/-- The parameters of a solver that has not been told others: powers of ten. -/
def Parameters.default (K : Type) [Scalar K] : Parameters K where
  epsZero := 1 / (Nat.pow 10 16 : K)
  epsDefinite := 1 / (Nat.pow 10 14 : K)
  epsDependent := 1 / (Nat.pow 10 10 : K)
  epsBound := 1 / (Nat.pow 10 10 : K)
  relaxation := (Nat.pow 10 3 : K)
  infinity := (Nat.pow 10 20 : K)
  epsOptimal := 1 / (Nat.pow 10 6 : K)

end ActiveSet
