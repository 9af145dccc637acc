import ActiveSet.Solver.Constrained.State

/-!
# Entities that enter and leave the working set

A change of the working set has to keep its entities independent and both factorizations up to
date.  An entity enters in two parts.  `prepareEntity` writes its row in the coordinates of `Q` and
looks whether enough of it lies in the null space; `appendEntity` rotates the null space until this
part lies in one direction, and takes that direction out of it.  An entity that leaves gives a
direction back to the null space, by which the factor of the objective's matrix grows.
-/

namespace ActiveSet.Constrained

variable {K : Type} [Scalar K] {n m : Nat}

/-- The row of an entity in the coordinates of `Q`. -/
structure PreparedRow (K : Type) where
  /-- The number of coordinates. -/
  length : Nat
  /-- The coordinates. -/
  row : Tuple K length
  /-- Whether the entity can enter the working set as it is. -/
  independent : Bool

/-! ## Entering -/

/-- The row of a constraint over the free variables, and in the coordinates of `Q`.  It has to be
independent by more than a tolerance that is relative to the length of long rows, and there has to
be room for it. -/
def prepareConstraint (i : Fin m) : Update (Constrained K n m) (PreparedRow K) := do
  let s ← get
  let a : Tuple K s.free.length := Tuple.ofFn _ (gather s.free (s.matrix i))
  let w ← Update.require (s.nullSpace.rowTimesQ? a)
  let outside := norm s.nNull w
  let inside := s.parameters.epsDependent * max (norm s.free.length a) 1
  return {
    length := _
    row := w
    independent :=
      0 < s.nNull ∧ inside < outside ∧ s.active.length < s.nullSpace.capacity }

/-- Makes a free variable the last one.  Its row is then the last row of `Q`. -/
def prepareBound (i : Fin n) : Update (Constrained K n m) (PreparedRow K) := do
  let s ← get
  match s.free.idxOf? i with
  | none => Update.fail .addBoundFailed
  | some p =>
    let last := s.free.length - 1
    let nullSpace ← Update.require (s.nullSpace.swapRows? p last)
    set { s with nullSpace, free := moveLast s.free p }
    let w ← Update.require (if s.free.length = nullSpace.nFree then nullSpace.row? last else none)
    return {
      length := _
      row := w
      independent := 0 < nullSpace.nNull ∧ s.parameters.epsDependent < norm nullSpace.nNull w }

/-- The row of an entity in the coordinates of `Q`. -/
def prepareEntity : Entity n m → Update (Constrained K n m) (PreparedRow K)
  | .bound i => prepareBound i
  | .constraint i => prepareConstraint i

/-- Moves a prepared constraint into the working set.  The factor of the objective's matrix follows
unless it has not been computed yet. -/
def appendConstraint (i : Fin m) (side : Activity) (w : PreparedRow K) (withFactor : Bool) :
    Update (Constrained K n m) Unit := do
  let s ← get
  let constraints ← Update.mapError (fun _ => .addConstraintFailed)
    (Update.ofExcept (s.constraints.activate i side))
  let (gs, w) ← Update.require (s.nullSpace.concentrate? w.row)
  let factor ← Update.require <|
    if withFactor then do (← s.factor.turnBases? 0 gs).dropLast? else some s.factor
  let nullSpace ← Update.require ((s.nullSpace.turnZ gs).appendRow? w)
  set { s with constraints, factor, nullSpace, active := s.active ++ [i] }

/-- Fixes a prepared variable. -/
def appendBound (i : Fin n) (side : Activity) (w : PreparedRow K) :
    Update (Constrained K n m) Unit := do
  let s ← get
  let bounds ← Update.mapError (fun _ => .addBoundFailed)
    (Update.ofExcept (s.bounds.activate i side))
  let (gs, _) ← Update.require (s.nullSpace.concentrate? w.row)
  let factor ← Update.require do (← s.factor.turnBases? 0 gs).dropLast?
  let nullSpace ← Update.require (s.nullSpace.turnZ gs).removeLastRow?
  set { s with bounds, factor, nullSpace, free := s.free.dropLast }

/-- Moves a prepared entity into the working set. -/
def appendEntity (e : Entity n m) (side : Activity) (w : PreparedRow K) :
    Update (Constrained K n m) Unit :=
  match e with
  | .bound i => appendBound i side w
  | .constraint i => appendConstraint i side w true

/-! ## Leaving -/

/-- Extends the factor of the objective's matrix by the last direction of the null space.  The
products with the older directions are left in the place of the tilt, as far as the factor turned
them into its new column. -/
def extendFactor (removal : QpError) : Update (Constrained K n m) Unit := do
  let s ← get
  if s.nNull = 0 ∨ s.free.length ≠ s.nullSpace.nFree then throw .broken
  let k := s.nNull - 1
  let z ← Update.require (s.nullSpace.column? k)
  let count := s.free.length
  let hz : Tuple K count := Tuple.ofFn _ fun p =>
    sum count fun q => gather s.free (fun u => gather s.free (s.hessian u) q) p * z q
  let column : Tuple K k := Tuple.ofFn _ fun j =>
    sum count fun p => s.nullSpace.q p j * hz p
  let overwritten (column : Tuple K k) : Tuple K n :=
    Tuple.ofFn n fun i => if i < k then column i else s.tilt i
  match ← Update.require <| s.factor.append? column (dot count z hz) s.parameters.epsDefinite
      s.parameters.epsZero with
  | .ok (column, factor) => set { s with factor, tilt := overwritten column }
  | .error f =>
    set { s with tilt := overwritten f.left }
    Update.fail (s.extensionError removal f.error)

/-- Moves an active constraint out of the working set. -/
def removeConstraint (i : Fin m) : Update (Constrained K n m) Unit := do
  let s ← get
  match s.active.idxOf? i with
  | none => Update.fail .removeConstraintFailed
  | some p =>
    let constraints ← Update.mapError (fun _ => .removeConstraintFailed)
      (Update.ofExcept (s.constraints.deactivate i))
    let nullSpace ← Update.require (s.nullSpace.removeRow? p)
    set { s with constraints, nullSpace, active := s.active.eraseIdx p }
    extendFactor .removeConstraintFailed

/-- Frees a fixed variable. -/
def removeBound (i : Fin n) : Update (Constrained K n m) Unit := do
  let s ← get
  let bounds ← Update.mapError (fun _ => .removeBoundFailed)
    (Update.ofExcept (s.bounds.deactivate i))
  let column : Tuple K s.active.length :=
    Tuple.ofFn _ (gather s.active fun r => s.matrix r i)
  let (nullSpace, _) ← Update.require (s.nullSpace.appendFreeRow? column)
  set { s with bounds, nullSpace, free := s.free ++ [i] }
  extendFactor .removeBoundFailed

/-- Moves an entity out of the working set. -/
def removeEntity : Entity n m → Update (Constrained K n m) Unit
  | .bound i => removeBound i
  | .constraint i => removeConstraint i

end ActiveSet.Constrained
