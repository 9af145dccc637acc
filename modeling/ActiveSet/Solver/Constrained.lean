import ActiveSet.Solver.Constrained.Auxiliary
import ActiveSet.Solver.Constrained.Direction
import ActiveSet.Solver.Constrained.Exchange

/-!
# The method for problems with bounds and constraints

The parts of a solve with constraints, put together.
-/

namespace ActiveSet.Constrained

variable {K : Type} [Scalar K] {n m : Nat}

/-- The way to solve problems with bounds and constraints. -/
def method : Method K n m (Constrained K n m) where
  core := toCore
  withCore := withCore
  reset := reset
  checkLimits := checkLimits
  prepare := prepare
  determineDirection := determineDirection
  stepLength := stepLength
  perform := perform
  changeWorkingSet := changeWorkingSet
  activeRowCount := fun s => s.active.length

end ActiveSet.Constrained
