import ActiveSet.Factor.NullSpace
import ActiveSet.Solver.Blocking
import ActiveSet.Solver.Homotopy

/-!
# Problems with bounds and constraints

With constraints a working set holds fixed variables and active constraints.  The active
constraints, restricted to the free variables, have a null space factorization `A Q = [0 T]`, and
the factor of the objective's matrix is that of its restriction to the null space.

* `Constrained`: the state of a solver.
* `Constrained.setMatrix`, `Constrained.setRowBounds`, …: loading the constraints.
* `Constrained.stepLength`, `Constrained.perform`: the parts of a step that only add constraints to
  what is done for bounds.
-/

namespace ActiveSet

/-- The state of a solver for problems in `n` variables with `m` constraints. -/
structure Constrained (K : Type) (n m : Nat) extends Core K n m where
  /-- The matrix of the constraints. -/
  matrix : Grid K m n
  /-- The constraints and their place in the working set. -/
  constraints : EntitySet .constraint m
  /-- The factorization of the active constraints on the free variables. -/
  nullSpace : NullSpace K n m
  /-- The active constraints in the order of the factorization. -/
  active : List (Fin m)
  /-- The values of the constraints at the point. -/
  ax : Tuple K m
  /-- The change of these values along the direction. -/
  dax : Tuple K m
  /-- The combination of the working set that the last dependent entity was found to be. -/
  dependency : Dual K n m

namespace Constrained

variable {K : Type} [Scalar K] {n m : Nat}

/-- A solver without a problem. -/
def fresh (n m : Nat) : Constrained K n m where
  toCore := Core.fresh n m
  matrix := Grid.fill m n 0
  constraints := .empty .constraint m (min n m) (Nat.min_le_right n m)
  nullSpace := .empty n m
  active := []
  ax := Tuple.fill m 0
  dax := Tuple.fill m 0
  dependency := Dual.zero n m

/-- The state with another shared part. -/
def withCore (s : Constrained K n m) (c : Core K n m) : Constrained K n m := { s with toCore := c }

/-- A computation on the shared part of the state. -/
def onCore {α : Type} (u : Update (Core K n m) α) : Update (Constrained K n m) α :=
  Update.focus toCore withCore u

/-- Gives up working set, factorizations and solution, and keeps what was loaded. -/
def reset (s : Constrained K n m) : Constrained K n m :=
  { s with
    toCore := s.toCore.reset
    constraints := s.constraints.reset
    nullSpace := s.nullSpace.reset 0 (Nat.zero_le n)
    active := []
    ax := s.ax.scale 0 }

/-! ## Loading constraints -/

/-- Loads the matrix of the constraints, row after row.  The factorization is given up. -/
def setMatrix (s : Constrained K n m) (a : Array K) : Except QpError (Constrained K n m) :=
  match Grid.ofArray? m n a with
  | none => .error .invalidArguments
  | some A => .ok { s with matrix := A, status := .notInitialised }

/-- Loads the lower limits of the rows. -/
def setRowLower (s : Constrained K n m) (a : Array K) : Except QpError (Constrained K n m) := do
  let l ← Core.load s.parameters.infinity m a
  return { s with target := { s.target with rowLower := l } }

/-- Loads the upper limits of the rows. -/
def setRowUpper (s : Constrained K n m) (a : Array K) : Except QpError (Constrained K n m) := do
  let u ← Core.load s.parameters.infinity m a
  return { s with target := { s.target with rowUpper := u } }

/-- Loads lower and upper limits of the rows, which must not cross. -/
def setRowBounds (s : Constrained K n m) (lower upper : Array K) :
    Except QpError (Constrained K n m) :=
  if lower.size ≠ m ∨ upper.size ≠ m then .error .invalidArguments
  else if Core.crosses m (fun i => lower.getD i 0) (fun i => upper.getD i 0) then
    .error .setupConstraintFailed
  else do (← s.setRowLower lower).setRowUpper upper

/-- Whether the loaded limits admit a point, each pair by itself. -/
def checkLimits (s : Constrained K n m) : Except QpError Unit := do
  s.checkBounds
  if Core.crosses m s.target.rowLower s.target.rowUpper then .error .setupConstraintFailed

/-! ## Queries -/

/-- The limit type of an entity. -/
def limitType (s : Constrained K n m) : Entity n m → LimitType
  | .bound i => s.bounds.limitType i
  | .constraint i => s.constraints.limitType i

/-- The activity of an entity. -/
def activity (s : Constrained K n m) : Entity n m → Activity
  | .bound i => s.bounds.activity i
  | .constraint i => s.constraints.activity i

/-- The dimension of the null space of the working set. -/
def nNull (s : Constrained K n m) : Nat := s.nullSpace.nNull

/-- The largest violation of an optimality condition of the loaded problem. -/
def violation (s : Constrained K n m) : K :=
  Optimality.violation s.hessian s.matrix s.target s.x s.y

/-- Whether the solution is accurate enough. -/
def checkOptimality (s : Constrained K n m) : Except QpError Unit :=
  Optimality.accept s.violation s.parameters.epsOptimal

/-! ## Parts of a step -/

/-- The course of a constraint. -/
def rowCourse (s : Constrained K n m) (i : Fin m) : Course K :=
  let d := s.shift
  { type := s.constraints.limitType i
    activity := s.constraints.activity i
    finite := ⟨s.constraints.hasSide i .lower, s.constraints.hasSide i .upper⟩
    value := s.ax i
    valueChange := s.dax i
    lower := s.current.rowLower i
    lowerChange := d.rowLower i
    upper := s.current.rowUpper i
    upperChange := d.rowUpper i
    multiplier := s.y.row i
    multiplierChange := s.dy.row i }

/-- The blockers among the constraints, in order. -/
def rowBlockers (s : Constrained K n m) : List (Blocker K n m) :=
  (List.finRange m).flatMap fun i =>
    (s.rowCourse i).blockers s.parameters.epsZero (.constraint i)

/-- How far the direction can be followed, and what happens there. -/
def stepLength (s : Constrained K n m) : K × StepEvent n m :=
  let b := firstBlocker (s.boundBlockers ++ s.rowBlockers)
  (b.tau, b.event)

/-- The values of the constraints at the point. -/
def withRowValues (s : Constrained K n m) : Constrained K n m :=
  { s with ax := s.matrix.apply 1 s.x 0 s.ax }

/-- Follows the direction. -/
def perform (tau : K) (event : StepEvent n m) (s : Constrained K n m) : Constrained K n m :=
  { s with toCore := s.toCore.perform tau event }.withRowValues

end Constrained

end ActiveSet
