import ActiveSet.Solver.Constrained.WorkingSet

/-!
# The auxiliary problem with constraints

After the bounds have found their places, the constraints that a guess suggests enter the working
set one after the other, each only if it is independent of those before it.  An inequality that is
not stays outside, while a dependent equality makes the set-up fail.  Both factorizations are then
computed from scratch.
-/

namespace ActiveSet.Constrained

variable {K : Type} [Scalar K] {n m : Nat}

/-- Classifies all constraints by the loaded limits. -/
def classifyConstraints : Update (Constrained K n m) Unit :=
  (List.finRange m).forM fun i => do
    let s ← get
    let p := s.parameters
    let (_, constraints) ← Update.ofExcept <| s.constraints.classify i (s.target.rowLower i)
      (s.target.rowUpper i) p.epsBound p.infinity
    set { s with constraints }

/-- The side at which a constraint starts. -/
def startingSide (s : Constrained K n m) (guess : Guess K n m) (i : Fin m) : Activity :=
  guessedActivity s.parameters (s.constraints.limitType i) (s.target.rowLower i)
    (s.target.rowUpper i) (guess.x.map fun _ => s.ax i) (guess.y.map fun y => y.row i)

/-- Moves the constraints that start in the working set there. -/
def activateConstraints (guess : Guess K n m) : Update (Constrained K n m) Unit :=
  (List.finRange m).forM fun i => do
    let s ← get
    let side := s.startingSide guess i
    if side.isActive then
      let w ← prepareConstraint i
      if w.independent then
        Update.mapError (fun _ => .setupWorkingSetFailed) (appendConstraint i side w false)
      else if s.constraints.limitType i = .equality then Update.fail .setupWorkingSetFailed

/-- The product of the objective's matrix with the null space, over the free variables. -/
def hessianTimesNullSpace (s : Constrained K n m) : Grid K s.free.length s.nNull :=
  Grid.ofFn _ _ fun p k =>
    sum s.free.length fun q =>
      gather s.free (fun u => gather s.free (s.hessian u) q) p * s.nullSpace.q q k

/-- Factorizes the restriction of the objective's matrix to the null space. -/
def factorize : Update (Constrained K n m) Unit := do
  let s ← get
  if s.identityHessian then
    let factor ← Update.require (s.factor.identity? s.nNull)
    set { s with factor }
  else
    let hz := s.hessianTimesNullSpace
    let reduced (i j : Nat) : K := sum s.free.length fun p => s.nullSpace.q p i * hz p j
    match ← Update.require (s.factor.factorize? s.nNull reduced s.parameters.epsDefinite) with
    | .ok factor => set { s with factor }
    | .error f =>
      set { s with factor := f.left }
      Update.fail .initFailedCholesky

/-- The multipliers of constraints cut down to what the working set admits. -/
def admissibleRowMultipliers (s : Constrained K n m) (guess : Guess K n m) : Tuple K m :=
  Tuple.ofFn m fun i =>
    admissible (s.constraints.limitType i) (s.constraints.activity i) (s.y.row i)
      (guess.y.map fun y => y.row i)

/-- The gradient for which point and multipliers are stationary, and limits of the rows around
their values. -/
def auxiliaryRowData (s : Constrained K n m) : Constrained K n m :=
  let limits (i : Nat) : K × K :=
    auxiliaryLimits s.parameters (s.constraints.limitType i) (s.constraints.activity i) (s.ax i)
      (s.target.rowLower i) (s.target.rowUpper i)
  { s with
    current := { s.current with
      gradient := s.matrix.combine 1 s.y.row 1 s.current.gradient
      rowLower := Tuple.ofFn m fun i => (limits i).1
      rowUpper := Tuple.ofFn m fun i => (limits i).2 } }

/-- Makes up an auxiliary problem around a guess, and solves it. -/
def prepare (guess : Guess K n m) : Update (Constrained K n m) Unit := do
  modify fun s => { s with status := .preparingAuxiliary }
  classifyConstraints
  onCore (Core.prepareBounds guess)
  modify withRowValues
  let s ← get
  let nullSpace ← Update.require (s.nullSpace.reset? s.free.length)
  set { s with nullSpace }
  activateConstraints guess
  modify fun s => { s with y := ⟨s.y.bound, s.admissibleRowMultipliers guess⟩ }
  factorize
  modify fun s => { s with toCore := s.toCore.auxiliaryData }.auxiliaryRowData
  modify fun s => { s with status := .auxiliarySolved }

end ActiveSet.Constrained
