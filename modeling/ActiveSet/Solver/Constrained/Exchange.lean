import ActiveSet.Solver.Constrained.WorkingSet

/-!
# The exchange of dependent entities

An entity that has to enter the working set may depend on the entities in it: its row is a
combination of theirs, with the coefficients `xi`.  Moving the multipliers along `-xi`, and that of
the new entity by the same amount, keeps the gradient of the objective balanced.  The first
multiplier that reaches zero on this way belongs to the entity that leaves, and the new one takes
its place.

If no multiplier ever reaches zero, the limits of the working set and of the new entity cannot hold
together, and the problem has no feasible point.

* `withDependency`: the coefficients `xi`.
* `leaving`: the first entity to leave, and the amount after which it does.
* `exchange`, `addEntity`: the exchange, and the addition of an entity with an exchange where it is
  needed.
-/

namespace ActiveSet.Constrained

variable {K : Type} [Scalar K] {n m : Nat}

/-- The row of an entity: that of the matrix for a constraint.  A bound has no row of its own in
the directions of other variables. -/
def ownRow (s : Constrained K n m) : Entity n m → Nat → K
  | .bound _, _ => 0
  | .constraint i, j => s.matrix i j

/-- The coefficients of a dependent entity, from its row in the coordinates of `Q`.  The part in
the coordinates of `T` determines the coefficients of the active constraints, and those of the
fixed variables are what is left. -/
def withDependency (e : Entity n m) (w : PreparedRow K) : Update (Constrained K n m) Unit := do
  let s ← get
  let count := s.active.length
  if s.nNull + count ≠ s.free.length ∨ w.length ≠ s.free.length then throw .broken
  let rhs : Tuple K count := Tuple.ofFn _ fun c => w.row (s.nNull + c)
  let xi ← Update.mapError (fun _ => .ensureLiFailedTq) <| Update.ofAttempt <|
    s.nullSpace.solveTT? s.parameters.epsZero rhs (Tuple.fill _ 0)
  -- entities outside the working set have no coefficient
  let cleared := s.dependency.scale 0
  set { s with dependency :=
    ⟨Tuple.ofFn n fun j =>
        if s.bounds.isActive j then
          deduct (s.ownRow e j) count fun c => xi c * gather s.active (fun r => s.matrix r j) c
        else cleared.bound j,
      spread s.active (fun c _ => xi c) cleared.row⟩ }

/-- The amount after which the multiplier of an entity reaches zero along its coefficient.  A
coefficient at the level of rounding is none, and the multiplier of an equality may have either
sign. -/
def amountToZero (eps : K) (type : LimitType) (activity : Activity) (multiplier coefficient : K) :
    Option K :=
  let amount := max (multiplier / coefficient) 0
  match type, activity with
  | .equality, _ => none
  | _, .lower => if eps < coefficient then some amount else none
  | _, .upper => if coefficient < -eps then some amount else none
  | _, .inactive | _, .undefined => none

/-- The first entity whose multiplier reaches zero, and the amount after which it does.  With
`flip` the multipliers move the opposite way. -/
def leaving (s : Constrained K n m) (flip : Bool) : Option (K × Entity n m) :=
  let eps := s.parameters.epsDependent * max (norm (n + m) s.dependency.entry) 1
  (Entity.all n m).foldl (fun best e =>
    let c := s.dependency.get e
    match amountToZero eps (s.limitType e) (s.activity e) (s.y.get e) (if flip then -c else c) with
    | none => best
    | some t =>
      match best with
      | none => some (t, e)
      | some (t', _) => if t < t' then some (t, e) else best) none

/-- The ways in which the multipliers may move: that of the new entity gets the sign of its side,
and an equality takes either. -/
def directions (s : Constrained K n m) (e : Entity n m) (side : Activity) : List Bool :=
  if s.limitType e = .equality then [false, true]
  else if side = .upper then [true]
  else [false]

/-- The multipliers after an exchange, in which an entity left after the signed amount `t`. -/
def exchangedMultipliers (s : Constrained K n m) (entering leaving : Entity n m) (t : K) :
    Dual K n m :=
  ((Dual.addScaled (-t) s.dependency s.y).set leaving 0).set entering t

/-- Takes a dependent entity into the working set in the place of another one.  If it is still
dependent without the other one, the working set has lost an entity and is given up. -/
def exchange (e : Entity n m) (side : Activity) (w : PreparedRow K) :
    Update (Constrained K n m) Unit := do
  withDependency e w
  let s ← get
  match (s.directions e side).findSome? fun flip => (s.leaving flip).map (flip, ·) with
  | none => Update.fail e.kind.addFailedInfeasibility
  | some (flip, t, leaver) =>
    removeEntity leaver
    -- the removal rotated `Q`, so the row is prepared again
    let w ← prepareEntity e
    if w.independent then
      appendEntity e side w
      modify fun s => { s with y := s.exchangedMultipliers e leaver (if flip then -t else t) }
    else
      -- the entity that left cannot be called back
      modify fun s => { s with status := .notInitialised }
      Update.fail e.kind.addFailedInfeasibility

/-- Takes an entity into the working set. -/
def addEntity (e : Entity n m) (side : Activity) : Update (Constrained K n m) Unit := do
  let w ← prepareEntity e
  if w.independent then appendEntity e side w else exchange e side w

/-- Changes the working set as an event asks for. -/
def changeWorkingSet : StepEvent n m → Update (Constrained K n m) Unit
  | .add e side => addEntity e side
  | .remove e => removeEntity e
  | .full => Update.fail .stepLengthDeterminationFailed

end ActiveSet.Constrained
