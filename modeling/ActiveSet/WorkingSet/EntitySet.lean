import ActiveSet.Scalar
import ActiveSet.WorkingSet.Entity
import ActiveSet.WorkingSet.Partition

/-!
# Sets of entities

All bounds, or all constraints, of a problem: for each entity its limit type, its activity and
which of its limits are finite, and a partition into the entities in the working set and the
others.  For bounds the active group is the set of fixed variables and the inactive group the set
of free ones.

The set holds no limits and no multipliers.  Limits are looked at once, by `EntitySet.classify`;
afterwards `EntitySet.activate` and `EntitySet.deactivate` move entities between the groups, and
keep activities and partition in step.  A call that fails changes nothing, since it returns no new
set.
-/

namespace ActiveSet

/-- Which limits of an entity are finite. -/
structure FiniteSides where
  /-- The lower limit is finite. -/
  lower : Bool
  /-- The upper limit is finite. -/
  upper : Bool
deriving DecidableEq, Repr

/-- The `n` bounds or constraints of a problem. -/
structure EntitySet (kind : EntityKind) (n : Nat) where
  /-- The limit type of each entity. -/
  types : Vector LimitType n
  /-- The activity of each entity. -/
  activities : Vector Activity n
  /-- The finite limits of each entity. -/
  finite : Vector FiniteSides n
  /-- The entities inside and outside the working set. -/
  partition : Partition n

namespace EntitySet

variable {kind : EntityKind} {n : Nat}

/-- `n` entities that have not been classified, around a partition. -/
def ofPartition (kind : EntityKind) (partition : Partition n) : EntitySet kind n where
  types := Vector.replicate n .unknown
  activities := Vector.replicate n .undefined
  finite := Vector.replicate n ⟨false, false⟩
  partition := partition

/-- `n` entities that have not been classified, `capacity` of which can be active at once. -/
def empty (kind : EntityKind) (n capacity : Nat) (h : capacity ≤ n) : EntitySet kind n :=
  ofPartition kind (.empty n capacity h)

/-- `n` entities that have not been classified, for a capacity within the range. -/
def empty? (kind : EntityKind) (n capacity : Nat) : Option (EntitySet kind n) :=
  (Partition.empty? n capacity).map (ofPartition kind)

/-- Every entity becomes unclassified and inactive. -/
def reset (s : EntitySet kind n) : EntitySet kind n := ofPartition kind s.partition.reset

/-! ## Queries -/

/-- The activity of an entity, undefined outside the set. -/
def activity (s : EntitySet kind n) (i : Nat) : Activity := s.activities[i]?.getD .undefined

/-- The limit type of an entity, unknown outside the set. -/
def limitType (s : EntitySet kind n) (i : Nat) : LimitType := s.types[i]?.getD .unknown

/-- Whether an entity is in the working set. -/
def isActive (s : EntitySet kind n) (i : Nat) : Bool := (s.activity i).isActive

/-- Whether an entity had a finite limit at a side when it was classified. -/
def hasSide (s : EntitySet kind n) (i : Nat) (side : Activity) : Bool :=
  match s.finite[i]?, side with
  | some f, .lower => f.lower
  | some f, .upper => f.upper
  | _, _ => false

/-- The number of entities in the working set. -/
def activeCount (s : EntitySet kind n) : Nat := s.partition.activeCount

/-- The number of entities outside the working set. -/
def inactiveCount (s : EntitySet kind n) : Nat := s.partition.inactiveCount

/-- The number of entities of a limit type. -/
def countOf (s : EntitySet kind n) (t : LimitType) : Nat := s.types.toList.countP (· = t)

/-- The entities in the working set, in the order of the partition. -/
def active (s : EntitySet kind n) : List (Fin n) := s.partition.active

/-- The entities outside the working set, in the order of the partition. -/
def inactive (s : EntitySet kind n) : List (Fin n) := s.partition.inactive

/-! ## Changes -/

/-- The type of limits, with `infinity` and beyond counted as no limit at all, and limits closer
than `tolerance` as coinciding. -/
def typeOfLimits {K : Type} [Scalar K] (lower upper tolerance infinity : K) : LimitType :=
  if lower ≤ -infinity ∧ infinity ≤ upper then .unbounded
  else if upper - lower < tolerance then .equality
  else .bounded

/-- Classifies an entity by its limits and makes it inactive.  Each entity is classified once, and
its limits must not cross. -/
def classify {K : Type} [Scalar K] (s : EntitySet kind n) (i : Nat)
    (lower upper tolerance infinity : K) : Except QpError (LimitType × EntitySet kind n) :=
  if h : i < n then
    if s.types[i] ≠ .unknown then .error kind.setupFailed
    else if upper < lower then .error kind.setupFailed
    else
      let t := typeOfLimits lower upper tolerance infinity
      .ok (t, { s with
        types := s.types.set i t
        activities := s.activities.set i .inactive
        finite := s.finite.set i ⟨-infinity < lower, upper < infinity⟩ })
  else .error .indexOutOfBounds

/-- The side at which an entity would become active: an equality stands at its lower limit, and an
entity with an infinite limit at the side admits none. -/
def sideFor (s : EntitySet kind n) (i : Nat) (side : Activity) : Option Activity :=
  match s.limitType i with
  | .equality => some .lower
  | .bounded => if s.hasSide i side then some side else none
  | .unbounded | .unknown => none

/-- Moves an entity into the working set, at a side. -/
def activate (s : EntitySet kind n) (i : Nat) (side : Activity) :
    Except QpError (EntitySet kind n) :=
  if h : i < n then
    if side.isActive = false then .error .invalidArguments
    else
      match s.sideFor i side with
      | none => .error kind.movingFailed
      | some side' =>
        if s.isActive i then .error .indexAlreadyOfDesiredStatus
        else
          match s.partition.moveToActive i with
          | .error _ => .error kind.movingFailed
          | .ok partition =>
            .ok { s with partition, activities := s.activities.set i side' }
  else .error .indexOutOfBounds

/-- Moves an entity out of the working set. -/
def deactivate (s : EntitySet kind n) (i : Nat) : Except QpError (EntitySet kind n) :=
  if h : i < n then
    if s.isActive i = false then .error .indexAlreadyOfDesiredStatus
    else
      match s.partition.moveToInactive i with
      | .error _ => .error kind.movingFailed
      | .ok partition => .ok { s with partition, activities := s.activities.set i .inactive }
  else .error .indexOutOfBounds

/-- Whether the partition is in order and its active group holds exactly the entities with an
active activity. -/
def check (s : EntitySet kind n) : Except QpError Unit := do
  s.partition.check
  if (List.finRange n).all fun i =>
      decide (getElem s.partition.position i.val i.isLt < s.partition.activeCount) == s.isActive i then .ok ()
  else .error .indexListCorrupted

end EntitySet

end ActiveSet
