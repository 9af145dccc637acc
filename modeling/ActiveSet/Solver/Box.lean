import ActiveSet.Solver.Blocking
import ActiveSet.Solver.Homotopy

/-!
# Problems with bounds only

Without constraints the working set is a set of fixed variables, and the factorization is that of
the rows and columns of the objective's matrix that belong to free variables.  A variable that
becomes fixed strikes a row and a column of it, one that becomes free adds a row and a column at
its end.

* `Box.prepare`, `Box.determineDirection`, `Box.stepLength`, `Box.changeWorkingSet`: the parts of a
  solve.
* `Box.method`: all of them together.
-/

namespace ActiveSet

/-- The state of a solver for problems in `n` variables with bounds only. -/
abbrev Box (K : Type) (n : Nat) := Core K n 0

namespace Box

variable {K : Type} [Scalar K] {n : Nat}

/-- A solver without a problem. -/
def fresh (n : Nat) : Box K n := Core.fresh n 0

/-! ## Auxiliary problem -/

/-- Factorizes the rows and columns of the objective's matrix that belong to free variables. -/
def factorize : Update (Box K n) Unit := do
  let s ← get
  if s.identityHessian then
    let factor ← Update.require (s.factor.identity? s.free.length)
    set { s with factor }
  else
    let reduced (i j : Nat) : K := gather s.free (fun u => gather s.free (s.hessian u) j) i
    match ← Update.require
        (s.factor.factorize? s.free.length reduced s.parameters.epsDefinite) with
    | .ok factor => set { s with factor }
    | .error f =>
      set { s with factor := f.left }
      Update.fail .initFailedCholesky

/-- Makes up an auxiliary problem around a guess, and solves it. -/
def prepare (guess : Guess K n 0) : Update (Box K n) Unit := do
  modify fun s => { s with status := .preparingAuxiliary }
  Core.prepareBounds guess
  factorize
  modify fun s => { s.auxiliaryData with status := .auxiliarySolved }

/-! ## Steps -/

/-- Determines the direction.  Fixed variables follow their limits; free ones keep the gradient of
the objective zero, which takes the two systems of the factor; and the multipliers of fixed
variables are what is left of the gradient. -/
def determineDirection : Update (Box K n) Unit := do
  modify fun s => s.fixedDirection.withTilt
  let s ← get
  let eps := s.parameters.epsZero
  let rhs : Tuple K s.free.length := Tuple.ofFn _ fun p => -gather s.free s.tilt p
  let z ← Update.ofAttempt (s.factor.solveRT? eps rhs)
  let z ← Update.ofAttempt (s.factor.solveR? eps z)
  modify fun s => Core.withTilt { s with dx := spread s.free (fun p _ => z p) s.dx }
  modify fun s =>
    { s with
      dy := ⟨Tuple.ofFn n fun i => if s.bounds.isActive i then s.tilt i else s.dy.bound i,
        s.dy.row⟩ }

/-- How far the direction can be followed, and what happens there. -/
def stepLength (s : Box K n) : K × StepEvent n 0 :=
  let b := firstBlocker s.boundBlockers
  (b.tau, b.event)

/-- Fixes a free variable at one of its limits. -/
def addBound (i : Fin n) (side : Activity) : Update (Box K n) Unit := do
  let s ← get
  match s.free.idxOf? i with
  | none => Update.fail .addBoundFailed
  | some p =>
    let bounds ← Update.mapError (fun _ => .addBoundFailed)
      (Update.ofExcept (s.bounds.activate i side))
    let factor ← Update.require (s.factor.removeColumn? p)
    set { s with bounds, factor, free := s.free.eraseIdx p }

/-- Frees a fixed variable.  If the factor cannot be extended, the variable does not join the free
ones, although it is no longer in the working set. -/
def removeBound (i : Fin n) : Update (Box K n) Unit := do
  let s ← get
  let bounds ← Update.mapError (fun _ => .removeBoundFailed)
    (Update.ofExcept (s.bounds.deactivate i))
  -- the bound has left the working set even if the factor cannot follow
  set { s with bounds }
  let column : Tuple K s.free.length :=
    Tuple.ofFn _ fun p => gather s.free (fun v => s.hessian v i) p
  let p := s.parameters
  match ← Update.require
      (s.factor.append? column (s.hessian i i) p.epsDefinite p.epsZero) with
  | .ok (_, factor) => set { s with bounds, factor, free := s.free ++ [i] }
  | .error f => Update.fail (s.extensionError .removeBoundFailed f.error)

/-- Changes the working set as an event asks for. -/
def changeWorkingSet : StepEvent n 0 → Update (Box K n) Unit
  | .add (.bound i) side => addBound i side
  | .remove (.bound i) => removeBound i
  | .full | .add (.constraint _) _ | .remove (.constraint _) =>
    Update.fail .stepLengthDeterminationFailed

/-- The way to solve problems with bounds only. -/
def method : Method K n 0 (Box K n) where
  core := id
  withCore := fun _ c => c
  reset := Core.reset
  checkLimits := Core.checkBounds
  prepare := prepare
  determineDirection := determineDirection
  stepLength := stepLength
  perform := Core.perform
  changeWorkingSet := changeWorkingSet
  activeRowCount := fun _ => 0

/-! ## Optimality -/

/-- The matrix of no constraints. -/
def noRows (n : Nat) : Grid K 0 n := Grid.fill 0 n 0

/-- The largest violation of an optimality condition of the loaded problem. -/
def violation (s : Box K n) : K :=
  Optimality.violation s.hessian (noRows n) s.target s.x s.y

/-- Whether the solution is accurate enough. -/
def checkOptimality (s : Box K n) : Except QpError Unit :=
  Optimality.accept s.violation s.parameters.epsOptimal

end Box

end ActiveSet
