import ActiveSet.Solver.Core

/-!
# The length of a step

Along a direction the multiplier of an active entity may lose its sign, and an inactive entity may
reach one of its limits, which move too.  The first entity to do so ends the step.

* `Blocker`: an event together with the part of the way at which it happens.
* `Course.blockers`: what one entity contributes.
* `firstBlocker`: the earliest of a list of blockers, and among equally early ones the first.
-/

namespace ActiveSet

/-- An event and the part of the way at which it happens. -/
structure Blocker (K : Type) (n m : Nat) where
  /-- The part of the way. -/
  tau : K
  /-- The event. -/
  event : StepEvent n m
deriving DecidableEq, Repr

/-- The course of one entity along a direction: where it stands, and how fast everything moves. -/
structure Course (K : Type) where
  /-- The limit type. -/
  type : LimitType
  /-- The activity. -/
  activity : Activity
  /-- The finite limits. -/
  finite : FiniteSides
  /-- The value. -/
  value : K
  /-- The change of the value. -/
  valueChange : K
  /-- The lower limit. -/
  lower : K
  /-- The change of the lower limit. -/
  lowerChange : K
  /-- The upper limit. -/
  upper : K
  /-- The change of the upper limit. -/
  upperChange : K
  /-- The multiplier. -/
  multiplier : K
  /-- The change of the multiplier. -/
  multiplierChange : K

variable {K : Type} [Scalar K] {n m : Nat}

namespace Course

/-- The part of the way after which a multiplier at a lower limit is used up. -/
def lowerMultiplierUsedUp (eps : K) (c : Course K) : Option K :=
  if c.multiplierChange < -eps then some (max (c.multiplier / -c.multiplierChange) 0) else none

/-- The part of the way after which a multiplier at an upper limit is used up. -/
def upperMultiplierUsedUp (eps : K) (c : Course K) : Option K :=
  if eps < c.multiplierChange then some (max (-c.multiplier / c.multiplierChange) 0) else none

/-- The part of the way after which the lower limit is reached. -/
def lowerLimitReached (eps : K) (c : Course K) : Option K :=
  let d := c.valueChange - c.lowerChange
  if d < -eps ∧ c.finite.lower then some (max ((c.value - c.lower) / -d) 0) else none

/-- The part of the way after which the upper limit is reached. -/
def upperLimitReached (eps : K) (c : Course K) : Option K :=
  let d := c.upperChange - c.valueChange
  if d < -eps ∧ c.finite.upper then some (max ((c.upper - c.value) / -d) 0) else none

/-- The blockers of an entity.  The multiplier of an equality has no sign to lose, and an entity
without limits has none to reach. -/
def blockers (eps : K) (e : Entity n m) (c : Course K) : List (Blocker K n m) :=
  match c.activity with
  | .lower =>
    if c.type = .equality then [] else ((c.lowerMultiplierUsedUp eps).map (⟨·, .remove e⟩)).toList
  | .upper =>
    if c.type = .equality then [] else ((c.upperMultiplierUsedUp eps).map (⟨·, .remove e⟩)).toList
  | .inactive =>
    if c.type = .unbounded then []
    else
      ((c.lowerLimitReached eps).map (⟨·, .add e .lower⟩)).toList ++
        ((c.upperLimitReached eps).map (⟨·, .add e .upper⟩)).toList
  | .undefined => []

end Course

/-- The earliest of a list of blockers, if one is earlier than the whole way. -/
def firstBlocker (l : List (Blocker K n m)) : Blocker K n m :=
  l.foldl (fun best b => if b.tau < best.tau then b else best) ⟨1, .full⟩

namespace Core

/-- The course of a bound. -/
def boundCourse (s : Core K n m) (i : Fin n) : Course K :=
  let d := s.shift
  { type := s.bounds.limitType i
    activity := s.bounds.activity i
    finite := ⟨s.bounds.hasSide i .lower, s.bounds.hasSide i .upper⟩
    value := s.x i
    valueChange := s.dx i
    lower := s.current.lower i
    lowerChange := d.lower i
    upper := s.current.upper i
    upperChange := d.upper i
    multiplier := s.y.bound i
    multiplierChange := s.dy.bound i }

/-- The blockers among the bounds, in order. -/
def boundBlockers (s : Core K n m) : List (Blocker K n m) :=
  (List.finRange n).flatMap fun i =>
    (s.boundCourse i).blockers s.parameters.epsZero (.bound i)

end Core

end ActiveSet
