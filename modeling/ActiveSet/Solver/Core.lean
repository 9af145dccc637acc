import ActiveSet.Factor.Cholesky
import ActiveSet.Optimality
import ActiveSet.Solver.Event
import ActiveSet.Solver.Parameters
import ActiveSet.WorkingSet.EntitySet

/-!
# What every solver holds

A solver for bounds only and a solver for bounds and constraints share most of their state.  The
*target* is the problem that was loaded.  The *current* problem is the one which the point `x`, the
multipliers `y` and the working set solve at the moment; a homotopy moves it along a straight line
to the target.

* `Core`: the shared state.
* `Core.setHessian`, `Core.setGradient`, `Core.setBounds`, …: loading a problem.
* `Core.shift`, `Core.fixedDirection`, `Core.withTilt`, `Core.perform`: the shared parts of a step.
* `gather`, `spread`: the order in which a factorization lists its variables or rows, from the
  natural order and back to it.

Vectors are cleared by a product with zero.  An entry that is not a number survives that, and so
the vectors of a direction are part of the state even though each step determines them anew.
-/

namespace ActiveSet

/-! ## Positions in a list of indices -/

section Positions

variable {K : Type} {n : Nat}

/-- The entry of a sequence that belongs to position `p` of a list of indices. -/
def gather [Zero K] (indices : List (Fin n)) (x : Nat → K) (p : Nat) : K :=
  match indices[p]? with
  | some i => x i
  | none => 0

/-- The tuple in which entry `i` is changed by `f p` where `i` stands at position `p` of a list of
indices, and kept where it does not occur. -/
def spread [Zero K] (indices : List (Fin n)) (f : Nat → K → K) (x : Tuple K n) : Tuple K n :=
  Tuple.ofFn n fun i =>
    match indices.findIdx? fun k => k.val == i with
    | some p => f p (x i)
    | none => x i

/-- Exchanges the entry at a position with the last one. -/
def moveLast {α : Type} (l : List α) (p : Nat) : List α :=
  match l[p]?, l.getLast? with
  | some a, some z => (l.set p z).dropLast ++ [a]
  | _, _ => l

end Positions

/-! ## State -/

/-- The state that solvers for `n` variables and `m` constraints share. -/
structure Core (K : Type) (n m : Nat) where
  /-- The parameters. -/
  parameters : Parameters K
  /-- How far the solver has come. -/
  status : Status
  /-- The last homotopy found that there is no feasible point. -/
  infeasible : Bool
  /-- The last homotopy found that the objective has no lower bound. -/
  unbounded : Bool
  /-- What the matrix of the objective was declared to be. -/
  hessianType : HessianType
  /-- The matrix of the objective is treated as the identity. -/
  identityHessian : Bool
  /-- The matrix of the objective. -/
  hessian : Grid K n n
  /-- The problem that was loaded. -/
  target : Data K n m
  /-- The problem that point and multipliers solve. -/
  current : Data K n m
  /-- The point. -/
  x : Tuple K n
  /-- The multipliers. -/
  y : Dual K n m
  /-- The direction of the point. -/
  dx : Tuple K n
  /-- The direction of the multipliers. -/
  dy : Dual K n m
  /-- The change of the gradient of the objective along the direction. -/
  tilt : Tuple K n
  /-- The bounds and their place in the working set. -/
  bounds : EntitySet .bound n
  /-- The factor of the matrix of the objective, reduced to where the working set leaves room. -/
  factor : Cholesky K n
  /-- The free variables in the order of the factorization. -/
  free : List (Fin n)

namespace Core

variable {K : Type} [Scalar K] {n m : Nat}

/-- A solver without a problem: all matrices and vectors are zero, and all limits infinite. -/
def fresh (n m : Nat) : Core K n m where
  parameters := .default K
  status := .notInitialised
  infeasible := false
  unbounded := false
  hessianType := .definite
  identityHessian := false
  hessian := Grid.fill n n 0
  target := Data.free n m (Parameters.default K).infinity
  current := Data.zero n m
  x := Tuple.fill n 0
  y := Dual.zero n m
  dx := Tuple.fill n 0
  dy := Dual.zero n m
  tilt := Tuple.fill n 0
  bounds := .empty .bound n n (Nat.le_refl n)
  factor := .empty n
  free := []

/-- Gives up working set, factorization and solution, and keeps what was loaded. -/
def reset (s : Core K n m) : Core K n m :=
  { s with
    status := .notInitialised
    infeasible := false
    unbounded := false
    bounds := s.bounds.reset
    factor := s.factor.reset
    free := []
    x := s.x.scale 0
    y := s.y.scale 0 }

/-! ## Loading a problem -/

/-- A number moved between the infinities of the solver; what is not a number becomes the lower
one. -/
def clamp (infinity a : K) : K := min (max a (-infinity)) infinity

/-- The vector of an array, clamped, if the array has the right size. -/
def load (infinity : K) (k : Nat) (a : Array K) : Except QpError (Tuple K k) :=
  if a.size = k then .ok (.ofFn k fun i => clamp infinity (a.getD i 0))
  else .error .invalidArguments

/-- Whether a lower limit exceeds its upper limit. -/
def crosses (k : Nat) (lower upper : Nat → K) : Bool :=
  (List.range k).any fun i => decide (upper i < lower i)

/-- Declares what the matrix of the objective is, before a solve. -/
def setHessianType (s : Core K n m) (t : HessianType) : Except QpError (Core K n m) :=
  if s.status ≠ .notInitialised then .error .qpAlreadyInitialised
  else .ok { s with hessianType := t }

/-- Loads the matrix of the objective, row after row.  The factorization is given up. -/
def setHessian (s : Core K n m) (a : Array K) : Except QpError (Core K n m) :=
  match Grid.ofArray? n n a with
  | none => .error .invalidArguments
  | some H => .ok { s with hessian := H, status := .notInitialised }

/-- Loads the gradient. -/
def setGradient (s : Core K n m) (a : Array K) : Except QpError (Core K n m) := do
  let g ← load s.parameters.infinity n a
  return { s with target := { s.target with gradient := g } }

/-- Loads the lower limits of the variables. -/
def setLower (s : Core K n m) (a : Array K) : Except QpError (Core K n m) := do
  let l ← load s.parameters.infinity n a
  return { s with target := { s.target with lower := l } }

/-- Loads the upper limits of the variables. -/
def setUpper (s : Core K n m) (a : Array K) : Except QpError (Core K n m) := do
  let u ← load s.parameters.infinity n a
  return { s with target := { s.target with upper := u } }

/-- Loads lower and upper limits of the variables, which must not cross. -/
def setBounds (s : Core K n m) (lower upper : Array K) : Except QpError (Core K n m) :=
  if lower.size ≠ n ∨ upper.size ≠ n then .error .invalidArguments
  else if crosses n (fun i => lower.getD i 0) (fun i => upper.getD i 0) then
    .error .setupBoundFailed
  else do (← s.setLower lower).setUpper upper

/-- Whether the loaded limits of the variables admit a point. -/
def checkBounds (s : Core K n m) : Except QpError Unit :=
  if crosses n s.target.lower s.target.upper then .error .setupBoundFailed else .ok ()

/-- The value of the loaded objective at the point. -/
def objective (s : Core K n m) : K := ActiveSet.objective s.hessian s.target.gradient s.x

/-! ## Parts of a step -/

/-- The way that is left to the loaded problem. -/
def shift (s : Core K n m) : Data K n m := s.target.sub s.current

/-- The direction in which fixed variables follow their active limits and nothing else moves. -/
def fixedDirection (s : Core K n m) : Core K n m :=
  let d := s.shift
  { s with
    dx := Tuple.ofFn n fun i =>
      if s.bounds.isActive i then
        if s.bounds.activity i = .upper then d.upper i else d.lower i
      else 0 * s.dx i
    dy := s.dy.scale 0 }

/-- `H dx + dg`, the change of the gradient of the objective along the direction. -/
def withTilt (s : Core K n m) : Core K n m :=
  { s with tilt := .addScaled 1 s.shift.gradient (s.hessian.combine 1 s.dx 0 s.tilt) }

/-- Moves point, multipliers and current problem a part `tau` along the direction.  What ended the
step then holds exactly: the loaded problem is the current one, an entity that enters the working
set lies on its limit, and the multiplier of one that leaves is zero. -/
def perform (tau : K) (event : StepEvent n m) (s : Core K n m) : Core K n m :=
  let x := Tuple.addScaled tau s.dx s.x
  let y := Dual.addScaled tau s.dy s.y
  let current := if event = .full then s.target else .addScaled tau s.shift s.current
  match event with
  | .full | .add (.constraint _) _ => { s with x, y, current }
  | .add (.bound i) side =>
    { s with x := x.set i (if side = .upper then current.upper i else current.lower i), y, current }
  | .remove e => { s with x, y := y.set e 0, current }

/-- The error of an extension of the factor that failed while an entity left the working set.  An
objective that is declared semidefinite has no lower bound then. -/
def extensionError (s : Core K n m) (removal : QpError) : QpError → QpError
  | .hessianNotSpd =>
    if s.hessianType = .semidefinite then .hotstartStoppedUnboundedness else .hessianNotSpd
  | _ => removal

end Core

end ActiveSet
