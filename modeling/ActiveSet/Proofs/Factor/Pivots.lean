import ActiveSet.Proofs.Factor.Dimensions
import ActiveSet.Proofs.Factor.Substitution

/-!
# Systems that can be solved

Whether the systems with a factor can be solved is a matter of its pivots, and not of a right-hand side:
a factor with which one system has been solved solves all others as well. In exact arithmetic the solution
of a system without right-hand side is zero.

* `Cholesky.Solvable`, `NullSpace.Solvable`: no pivot is too small to divide by.
* `solveR?_eq_zero`, `solveRT?_eq_zero`, `solveT?_eq_zero`, `solveTT?_eq_zero`: systems without right-hand
  side.
-/

namespace ActiveSet

variable {K : Type} [Scalar K] {n m k : ℕ} {tolerance : K}

namespace Cholesky

variable {f : Cholesky K n} {b : Tuple K k}

/-- No pivot of the factor is too small to divide by. -/
def Solvable (tolerance : K) (f : Cholesky K n) : Prop :=
  ∀ i, i < f.dim → isNegligible tolerance (f.entries i i) = false

theorem solveR?_ok_iff (h : k = f.dim) :
    (∃ w, f.solveR? tolerance b = some (.ok w)) ↔ f.Solvable tolerance := by
  subst h
  simp only [solveR?_of tolerance b rfl, Option.some.injEq]
  exact backSubstitute_ok_iff

theorem solveRT?_ok_iff (h : k = f.dim) :
    (∃ w, f.solveRT? tolerance b = some (.ok w)) ↔ f.Solvable tolerance := by
  subst h
  simp only [solveRT?_of tolerance b rfl, Option.some.injEq]
  exact forwardSubstitute_ok_iff

end Cholesky

namespace NullSpace

variable {f : NullSpace K n m} {b x : Tuple K k}

/-- No entry on the antidiagonal of `T` is too small to divide by. -/
def Solvable (tolerance : K) (f : NullSpace K n m) : Prop :=
  ∀ i, i < f.nActive → isNegligible tolerance (f.t i (f.nActive - 1 - i)) = false

theorem solveT?_ok_iff (h : k = f.nActive) :
    (∃ w, f.solveT? tolerance b x = some (.ok w)) ↔ f.Solvable tolerance := by
  subst h
  simp only [solveT?_of tolerance b x rfl, Option.some.injEq]
  rw [backSubstitute_ok_iff]
  -- the system counts the rows of `T` from the last one on
  have hback : ∀ i, i < f.nActive → f.nActive - 1 - (f.nActive - 1 - i) = i := fun i hi => by omega
  constructor
  · intro h i hi
    have hrow := h (f.nActive - 1 - i) (by omega)
    rwa [hback i hi] at hrow
  · intro h u hu
    have hrow := h (f.nActive - 1 - u) (by omega)
    rwa [hback u hu] at hrow

theorem solveTT?_ok_iff (h : k = f.nActive) :
    (∃ w, f.solveTT? tolerance b x = some (.ok w)) ↔ f.Solvable tolerance := by
  subst h
  simp only [solveTT?_of tolerance b x rfl, Option.some.injEq]
  exact backSubstitute_ok_iff

end NullSpace

-- ---------------------------------------------------------------------------
-- Without right-hand side
-- ---------------------------------------------------------------------------

section Zero

variable {tolerance : ℝ} {b x w : Tuple ℝ k}

theorem Cholesky.solveR?_eq_zero {f : Cholesky ℝ n} (h : f.solveR? tolerance b = some (.ok w))
    (hb : ∀ i, i < k → b i = 0) (i : ℕ) : w i = 0 := by
  unfold solveR? at h
  split at h
  · exact backSubstitute_eq_zero hb (Option.some.inj h) i
  · cases h

theorem Cholesky.solveRT?_eq_zero {f : Cholesky ℝ n} (h : f.solveRT? tolerance b = some (.ok w))
    (hb : ∀ i, i < k → b i = 0) (i : ℕ) : w i = 0 := by
  unfold solveRT? at h
  split at h
  · exact forwardSubstitute_eq_zero hb (Option.some.inj h) i
  · cases h

variable {f : NullSpace ℝ n m}

theorem NullSpace.solveT?_eq_zero (h : f.solveT? tolerance b x = some (.ok w))
    (hb : ∀ i, i < k → b i = 0) (i : ℕ) : w i = 0 := by
  unfold solveT? at h
  split at h
  · exact backSubstitute_eq_zero (fun u hu => hb _ (by omega)) (Option.some.inj h) i
  · cases h

theorem NullSpace.solveTT?_eq_zero (h : f.solveTT? tolerance b x = some (.ok w))
    (hb : ∀ i, i < k → b i = 0) (i : ℕ) : w i = 0 := by
  unfold solveTT? at h
  split at h
  · exact backSubstitute_eq_zero (fun u hu => hb _ (by omega)) (Option.some.inj h) i
  · cases h

end Zero

end ActiveSet
