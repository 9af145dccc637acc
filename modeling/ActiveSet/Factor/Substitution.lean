import ActiveSet.Dense.Tuple
import ActiveSet.Fault

/-!
# Substitution

A triangular system is solved one unknown after the other.  For an upper triangular matrix the last
unknown is known first (`backSubstitute`), for a lower triangular one the first unknown
(`forwardSubstitute`).  In both the sum over the unknowns that are already known is subtracted from
the right-hand side term by term, in increasing index order.

A pivot whose magnitude does not exceed a tolerance counts as zero, and the substitution fails.  The
vector it leaves then holds the unknowns determined so far, and in the other places what it held
before.

The coefficients and the right-hand side are functions of indices, so the same two definitions
serve a triangle stored in any order.
-/

namespace ActiveSet

variable {K : Type} [Scalar K] {n : Nat}

/-- Whether a pivot is too small to divide by. -/
def isNegligible (tolerance pivot : K) : Bool := Scalar.abs pivot ≤ tolerance

/-- Determines the unknowns `k - 1`, …, `0` of an upper triangular system in `n` unknowns, with
the later unknowns given. -/
def backSubstituteFrom (tolerance : K) (coef : Nat → Nat → K) (rhs : Nat → K) :
    Nat → Tuple K n → Except (Failure (Tuple K n)) (Tuple K n)
  | 0, x => .ok x
  | k + 1, x =>
    if isNegligible tolerance (coef k k) then .error ⟨.divByZero, x⟩
    else
      let s := deduct (rhs k) (n - (k + 1)) fun j => coef k (k + 1 + j) * x (k + 1 + j)
      backSubstituteFrom tolerance coef rhs k (x.set k (s / coef k k))

/-- Solves an upper triangular system in `n` unknowns; the result overwrites `x`. -/
def backSubstitute (tolerance : K) (coef : Nat → Nat → K) (rhs : Nat → K) (x : Tuple K n) :
    Except (Failure (Tuple K n)) (Tuple K n) :=
  backSubstituteFrom tolerance coef rhs n x

/-- Determines the unknowns `0`, …, `k - 1` of a lower triangular system. -/
def forwardSubstituteTo (tolerance : K) (coef : Nat → Nat → K) (rhs : Nat → K) :
    Nat → Tuple K n → Except (Failure (Tuple K n)) (Tuple K n)
  | 0, x => .ok x
  | k + 1, x => do
    let x ← forwardSubstituteTo tolerance coef rhs k x
    if isNegligible tolerance (coef k k) then .error ⟨.divByZero, x⟩
    else
      let s := deduct (rhs k) k fun j => coef k j * x j
      .ok (x.set k (s / coef k k))

/-- Solves a lower triangular system in `n` unknowns; the result overwrites `x`. -/
def forwardSubstitute (tolerance : K) (coef : Nat → Nat → K) (rhs : Nat → K) (x : Tuple K n) :
    Except (Failure (Tuple K n)) (Tuple K n) :=
  forwardSubstituteTo tolerance coef rhs n x

@[simp] theorem backSubstituteFrom_zero (tolerance : K) (coef : Nat → Nat → K) (rhs : Nat → K)
    (x : Tuple K n) : backSubstituteFrom tolerance coef rhs 0 x = .ok x := rfl

@[simp] theorem forwardSubstituteTo_zero (tolerance : K) (coef : Nat → Nat → K) (rhs : Nat → K)
    (x : Tuple K n) : forwardSubstituteTo tolerance coef rhs 0 x = .ok x := rfl

end ActiveSet
