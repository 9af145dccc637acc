import ActiveSet.Dense.Fill
import ActiveSet.Scalar.Double
import ActiveSet.Solver.Box
import ActiveSet.Solver.Constrained
import ActiveSet.Proofs.Session
import ActiveSet.Proofs.Endurance
import ActiveSet.Proofs.WorkingSet.Partition
import ActiveSet.Proofs.WorkingSet.EntitySet
import ActiveSet.Proofs.Factor.Dimensions
import ActiveSet.Proofs.Solver.Blocking
import ActiveSet.Proofs.Solver.Bounds
import ActiveSet.Proofs.Solver.Loading
import ActiveSet.Proofs.Solver.Positions
import ActiveSet.Proofs.Solver.Box
import ActiveSet.Proofs.Solver.Constrained.WorkingSet
import ActiveSet.Proofs.Solver.Constrained.Exchange
import ActiveSet.Proofs.Solver.Constrained.Direction
import ActiveSet.Proofs.Solver.Constrained.Auxiliary
import ActiveSet.Proofs.Solver.Constrained.Session
import ActiveSet.Proofs.Solver.Consistency
import ActiveSet.Proofs.Preservation
import ActiveSet.Proofs.Interruption
import ActiveSet.Proofs.Solver.Resumption
import ActiveSet.Proofs.Exact.Real
import ActiveSet.Proofs.Dense.Filling
import ActiveSet.Proofs.Dense.Products
import ActiveSet.Proofs.Factor.Rotation
import ActiveSet.Proofs.Factor.Cholesky
import ActiveSet.Proofs.Factor.Deletion
import ActiveSet.Proofs.Factor.Definite
import ActiveSet.Proofs.Factor.NullSpace.Splitting
import ActiveSet.Proofs.Factor.NullSpace.Rows
import ActiveSet.Proofs.Factor.NullSpace.Columns
import ActiveSet.Proofs.Solver.Constrained.Factored
import ActiveSet.Proofs.Solver.Constrained.FactoredSession
import ActiveSet.Proofs.Solver.Box.Factored
import ActiveSet.Proofs.Factor.NullSpace.Uniqueness
import ActiveSet.Proofs.Solver.Factorizations
import ActiveSet.Proofs.Solver.Constrained.Optimal
import ActiveSet.Proofs.Solver.Constrained.Following
import ActiveSet.Proofs.Solver.Constrained.Stepping
import ActiveSet.Proofs.Solver.Constrained.Depending
import ActiveSet.Proofs.Solver.Constrained.Changing
import ActiveSet.Proofs.Solver.Constrained.OptimalSession
import ActiveSet.Proofs.Solver.Constrained.Convex
import ActiveSet.Proofs.Solver.Constrained.ColdStart
import ActiveSet.Proofs.Solver.Optimality
import ActiveSet.Proofs.Solver.Infeasibility
import ActiveSet.Proofs.Solver.Box.Convex
import ActiveSet.Proofs.Solver.StrictConvexity
import ActiveSet.Proofs.Comparison
import ActiveSet.Proofs.Lockstep
import ActiveSet.Proofs.Solver.BoundsOnly.Agreement
import ActiveSet.Proofs.Solver.BoundsOnly.Solutions
import ActiveSet.Proofs.Factor.CholeskyHistory
import ActiveSet.Proofs.Factor.NullSpace.History
import ActiveSet.Proofs.Factor.Semidefinite
import ActiveSet.Proofs.Verdict
import ActiveSet.Proofs.Solver.FlatDirections
import ActiveSet.Proofs.Solver.Constrained.Singular
import ActiveSet.Proofs.Solver.BoundsOnly.Companions
import ActiveSet.Proofs.Solver.Box.Singular
import ActiveSet.Proofs.Solver.Box.LinearStart
import ActiveSet.Proofs.Solver.Unboundedness
import ActiveSet.Proofs.Congruence
import ActiveSet.Proofs.Dense.Alike
import ActiveSet.Proofs.Factor.Alike
import ActiveSet.Proofs.SignedZeros
import ActiveSet.Proofs.Solver.Remains
import ActiveSet.Proofs.Solver.Box.Remains
import ActiveSet.Proofs.Solver.Constrained.Remains
import ActiveSet.Proofs.Solver.Constrained.FreshStart
import ActiveSet.Proofs.Solver.Forgetting
import ActiveSet.Proofs.Lifecycle
import ActiveSet.Proofs.Solver.Lifecycle
import ActiveSet.Proofs.Invariant
import ActiveSet.Proofs.Solver.Constrained.Sides
import ActiveSet.Proofs.Solver.Minimum
import ActiveSet.Proofs.Solver.WarmStart
import ActiveSet.Proofs.Solver.Constrained.StartingSet
import ActiveSet.Proofs.Solver.Guessing
import ActiveSet.Proofs.Solver.Trading
import ActiveSet.Proofs.Solver.RatioTest
import ActiveSet.Proofs.Solver.Standstill
import ActiveSet.Proofs.Solver.StraightLine
import ActiveSet.Proofs.Solver.Repetition
import ActiveSet.Proofs.Solver.Constrained.Optimum
import ActiveSet.Proofs.Solver.OptimalGuess
import ActiveSet.Proofs.Factor.Schur
import ActiveSet.Proofs.Factor.TriangularSystems
import ActiveSet.Proofs.Numbers
import ActiveSet.Proofs.Violation
import ActiveSet.Proofs.Solver.Acceptance
import ActiveSet.Proofs.Records
import ActiveSet.Proofs.Pages
import ActiveSet.Proofs.Solver.Observation
import ActiveSet.Proofs.Atomic
import ActiveSet.Proofs.WorkingSet.Moves
import ActiveSet.Proofs.WorkingSet.Changes
import ActiveSet.Proofs.Solver.Writing
import ActiveSet.Proofs.Solver.Rejection
import ActiveSet.Proofs.Clamping
import ActiveSet.Proofs.Solver.LoadedLimits
import ActiveSet.Proofs.Solver.AcceptedLimits
