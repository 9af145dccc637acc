import ActiveSet.Fault

/-!
# Bounds and constraints

A bound limits one variable from below and above, a constraint one linear function of the
variables.  What a solver keeps of either is the same: a type that follows from the limits and an
activity in the working set.

* `EntityKind`: bound or constraint, with the name and the errors that go with it.
* `LimitType`: what the limits of an entity look like.
* `Activity`: where an entity stands in the working set.
-/

namespace ActiveSet

/-- The two kinds of entities that can enter a working set. -/
inductive EntityKind where
  /-- Limits on one variable. -/
  | bound
  /-- Limits on a row of the constraint matrix. -/
  | constraint
deriving DecidableEq, Repr

namespace EntityKind

/-- Whether an entity owns a row of the constraint matrix. -/
def hasRow : EntityKind → Bool
  | bound => false
  | constraint => true

/-- The name in reports. -/
def name : EntityKind → String
  | bound => "bound"
  | constraint => "constraint"

/-- The error of limits that cross, and of a second classification. -/
def setupFailed : EntityKind → QpError
  | bound => .setupBoundFailed
  | constraint => .setupConstraintFailed

/-- The error of a move that the entity does not admit. -/
def movingFailed : EntityKind → QpError
  | bound => .movingBoundFailed
  | constraint => .movingConstraintFailed

/-- The error of a failed addition to the working set. -/
def addFailed : EntityKind → QpError
  | bound => .addBoundFailed
  | constraint => .addConstraintFailed

/-- The error of an addition to the working set that no feasible point admits. -/
def addFailedInfeasibility : EntityKind → QpError
  | bound => .addBoundFailedInfeasibility
  | constraint => .addConstraintFailedInfeasibility

/-- The error of a failed removal from the working set. -/
def removeFailed : EntityKind → QpError
  | bound => .removeBoundFailed
  | constraint => .removeConstraintFailed

end EntityKind

/-- The shape of the limits of an entity. -/
inductive LimitType where
  /-- Neither limit is finite. -/
  | unbounded
  /-- At least one limit is finite, and the limits differ. -/
  | bounded
  /-- The limits coincide. -/
  | equality
  /-- The limits have not been looked at. -/
  | unknown
deriving DecidableEq, Repr

/-- The place of an entity in the working set. -/
inductive Activity where
  /-- Not in the working set. -/
  | inactive
  /-- In the working set, at the lower limit. -/
  | lower
  /-- In the working set, at the upper limit. -/
  | upper
  /-- The entity has not been classified. -/
  | undefined
deriving DecidableEq, Repr

namespace Activity

/-- Whether an entity is in the working set. -/
def isActive : Activity → Bool
  | lower | upper => true
  | inactive | undefined => false

/-- The word for an activity in reports. -/
def text : Activity → String
  | inactive => "inactive"
  | lower => "lower"
  | upper => "upper"
  | undefined => "undefined"

end Activity

end ActiveSet
