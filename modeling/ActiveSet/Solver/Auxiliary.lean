import ActiveSet.Solver.Core

/-!
# The auxiliary problem

A homotopy needs a problem whose solution is known.  It is made up around a guess: `x` and `y` are
the guessed point and multipliers, the working set is what the guess suggests, the gradient is the
one for which `x` and `y` are stationary, and the limits are laid around the values at `x`.  The
limits of entities in the working set go through these values exactly, and the others keep a
distance from them.

* `guessedActivity`: what a guess says about one entity.
* `auxiliaryLimits`: the limits of one entity in the auxiliary problem.
* `Core.prepareBounds`, `Core.auxiliaryData`: the parts that do not depend on constraints.
-/

namespace ActiveSet

/-- A guess for the solution of a problem.  Both parts may be missing. -/
structure Guess (K : Type) (n m : Nat) where
  /-- The guessed point. -/
  x : Option (Tuple K n)
  /-- The guessed multipliers. -/
  y : Option (Dual K n m)

variable {K : Type} [Scalar K] {n m : Nat}

/-- A guess from arrays, each of which has to have the right size if it is there. -/
def Guess.ofArrays (n m : Nat) (x y : Option (Array K)) : Except QpError (Guess K n m) :=
  match x.map (Tuple.ofArray? n), y.map (Dual.ofArray? n m) with
  | some none, _ | _, some none => .error .invalidArguments
  | x, y => .ok ⟨x.join, y.join⟩

/-- The side at which an entity starts, from its guessed value and its guessed multiplier.  An
equality always starts in the working set.  Otherwise a value close to a finite limit decides, the
lower limit before the upper one, and after it the sign of the multiplier. -/
def guessedActivity (p : Parameters K) (type : LimitType) (lower upper : K) (value multiplier :
    Option K) : Activity :=
  let lowerFinite := decide (-p.infinity < lower)
  let upperFinite := decide (upper < p.infinity)
  let onLimit (v : K) : Option Activity :=
    if lowerFinite ∧ Scalar.abs (v - lower) ≤ p.epsBound then some .lower
    else if upperFinite ∧ Scalar.abs (upper - v) ≤ p.epsBound then some .upper
    else none
  let bySign (w : K) : Option Activity :=
    if lowerFinite ∧ p.epsZero < w then some .lower
    else if upperFinite ∧ w < -p.epsZero then some .upper
    else none
  match type with
  | .equality => .lower
  | .unbounded | .unknown => .inactive
  | .bounded => ((value.bind onLimit).or (multiplier.bind bySign)).getD .inactive

/-- The limits of an entity in the auxiliary problem, around its value. -/
def auxiliaryLimits (p : Parameters K) (type : LimitType) (activity : Activity)
    (value lower upper : K) : K × K :=
  let below := if -p.infinity < lower then value - p.relaxation else -p.infinity
  let above := if upper < p.infinity then value + p.relaxation else p.infinity
  match type, activity with
  | .equality, _ => (value, value)
  | .unbounded, _ | .unknown, _ => (-p.infinity, p.infinity)
  | .bounded, .lower => (value, above)
  | .bounded, .upper => (below, value)
  | .bounded, .inactive | .bounded, .undefined => (below, above)

/-- A guessed multiplier cut down to the sign that an activity admits.  The multiplier of an
equality has no sign and is taken from the guess as it is. -/
def admissible (type : LimitType) (activity : Activity) (multiplier : K) (guess : Option K) : K :=
  if type = .equality then guess.getD 0
  else
    match activity with
    | .lower => max multiplier 0
    | .upper => min multiplier 0
    | .inactive | .undefined => 0

namespace Core

/-- Classifies all bounds by the loaded limits. -/
def classifyBounds : Update (Core K n m) Unit :=
  (List.finRange n).forM fun i => do
    let s ← get
    let p := s.parameters
    let (_, bounds) ← Update.ofExcept <|
      s.bounds.classify i (s.target.lower i) (s.target.upper i) p.epsBound p.infinity
    set { s with bounds }

/-- The side at which a bound starts.  Without definiteness of the objective a free variable may
have no best value, so every variable with a finite limit starts on it. -/
def startingSide (s : Core K n m) (guess : Guess K n m) (i : Fin n) : Activity :=
  let type := s.bounds.limitType i
  let lower := s.target.lower i
  let side := guessedActivity s.parameters type lower (s.target.upper i)
    (guess.x.map fun x => x i) (guess.y.map fun y => y.bound i)
  if s.hessianType = .semidefinite ∧ side = .inactive ∧ type = .bounded then
    if -s.parameters.infinity < lower then .lower else .upper
  else side

/-- Moves the bounds that start in the working set there. -/
def activateBounds (guess : Guess K n m) : Update (Core K n m) Unit :=
  (List.finRange n).forM fun i => do
    let s ← get
    let side := s.startingSide guess i
    if side.isActive then
      let bounds ← Update.mapError (fun _ => .setupWorkingSetFailed) <|
        Update.ofExcept (s.bounds.activate i side)
      set { s with bounds }

/-- The multipliers of bounds cut down to what the working set admits. -/
def admissibleBoundMultipliers (s : Core K n m) (guess : Guess K n m) : Tuple K n :=
  Tuple.ofFn n fun i =>
    admissible (s.bounds.limitType i) (s.bounds.activity i) (s.y.bound i)
      (guess.y.map fun y => y.bound i)

/-- Whether the matrix of the objective can be treated as the identity: it is declared to be, or it
is one and was not declared to be semidefinite. -/
def hasIdentityHessian (s : Core K n m) : Bool :=
  s.hessianType == .identity || (s.hessianType != .semidefinite && s.hessian.isIdentity)

/-- The bound part of the auxiliary problem: limit types, working set, point and multipliers. -/
def prepareBounds (guess : Guess K n m) : Update (Core K n m) Unit := do
  classifyBounds
  -- without a guess the last solution is scaled by zero
  modify fun s =>
    { s with x := guess.x.getD (s.x.scale 0), y := guess.y.getD (s.y.scale 0) }
  activateBounds guess
  modify fun s =>
    { s with
      y := ⟨s.admissibleBoundMultipliers guess, s.y.row⟩
      free := s.bounds.inactive
      identityHessian := s.hasIdentityHessian }

/-- The gradient for which point and bound multipliers are stationary, and limits of the variables
around the point. -/
def auxiliaryData (s : Core K n m) : Core K n m :=
  let curvature := s.hessian.combine 1 s.x 0 s.current.gradient
  let limits (i : Nat) : K × K :=
    auxiliaryLimits s.parameters (s.bounds.limitType i) (s.bounds.activity i) (s.x i)
      (s.target.lower i) (s.target.upper i)
  { s with
    current := { s.current with
      gradient := .addScaled 1 s.y.bound (curvature.scale (-1))
      lower := Tuple.ofFn n fun i => (limits i).1
      upper := Tuple.ofFn n fun i => (limits i).2 } }

end Core

end ActiveSet
