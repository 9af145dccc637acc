import ActiveSet.Dense.Grid
import ActiveSet.WorkingSet.Entity

/-!
# Quadratic programs

A quadratic program asks for a point `x` that minimises `½ xᵀ H x + gᵀ x` among the points with
`lower ≤ x ≤ upper` and `rowLower ≤ A x ≤ rowUpper`.  The two matrices stay fixed over many solves,
while the vectors change from one to the next.

* `Data`: the vectors of a problem in `n` variables with `m` constraints.
* `Dual`: the multipliers, one for each bound and one for each constraint.
* `Entity`: one bound or one constraint.
* `objective`: the value of the objective at a point.
-/

namespace ActiveSet

/-- A bound or a constraint of a problem. -/
inductive Entity (n m : Nat) where
  /-- The limits on a variable. -/
  | bound (i : Fin n)
  /-- The limits on a row. -/
  | constraint (i : Fin m)
deriving DecidableEq, Repr

namespace Entity

variable {n m : Nat}

/-- Whether an entity is a bound or a constraint. -/
def kind : Entity n m → EntityKind
  | bound _ => .bound
  | constraint _ => .constraint

/-- The number of an entity among those of its kind. -/
def index : Entity n m → Nat
  | bound i => i
  | constraint i => i

/-- All bounds in order, and then all constraints. -/
def all (n m : Nat) : List (Entity n m) :=
  (List.finRange n).map bound ++ (List.finRange m).map constraint

theorem mem_all (e : Entity n m) : e ∈ all n m := by
  cases e <;> simp [all]

end Entity

/-! ## Vectors of a problem -/

/-- The vectors of a problem: the gradient and the limits of variables and rows. -/
structure Data (K : Type) (n m : Nat) where
  /-- The linear part of the objective. -/
  gradient : Tuple K n
  /-- The lower limits of the variables. -/
  lower : Tuple K n
  /-- The upper limits of the variables. -/
  upper : Tuple K n
  /-- The lower limits of the rows. -/
  rowLower : Tuple K m
  /-- The upper limits of the rows. -/
  rowUpper : Tuple K m
deriving DecidableEq, Repr

namespace Data

variable {K : Type} [Scalar K] {n m : Nat}

/-- All vectors zero. -/
def zero (n m : Nat) : Data K n m :=
  ⟨Tuple.fill n 0, Tuple.fill n 0, Tuple.fill n 0, Tuple.fill m 0, Tuple.fill m 0⟩

/-- No linear part, and limits of a given magnitude everywhere. -/
def free (n m : Nat) (infinity : K) : Data K n m :=
  ⟨Tuple.fill n 0, Tuple.fill n (-infinity), Tuple.fill n infinity, Tuple.fill m (-infinity),
    Tuple.fill m infinity⟩

/-- The way from one problem to another one. -/
def sub (d e : Data K n m) : Data K n m where
  gradient := d.gradient.sub e.gradient
  lower := d.lower.sub e.lower
  upper := d.upper.sub e.upper
  rowLower := d.rowLower.sub e.rowLower
  rowUpper := d.rowUpper.sub e.rowUpper

/-- The problem a given part of the way `d` further on from `e`. -/
def addScaled (a : K) (d e : Data K n m) : Data K n m where
  gradient := .addScaled a d.gradient e.gradient
  lower := .addScaled a d.lower e.lower
  upper := .addScaled a d.upper e.upper
  rowLower := .addScaled a d.rowLower e.rowLower
  rowUpper := .addScaled a d.rowUpper e.rowUpper

end Data

/-! ## Multipliers -/

/-- A value for each bound and each constraint. -/
structure Dual (K : Type) (n m : Nat) where
  /-- The values of the bounds. -/
  bound : Tuple K n
  /-- The values of the constraints. -/
  row : Tuple K m
deriving DecidableEq, Repr

namespace Dual

variable {K : Type} {n m : Nat}

section Entries

variable [Zero K]

/-- The value of an entity. -/
def get (y : Dual K n m) : Entity n m → K
  | .bound i => y.bound i
  | .constraint i => y.row i

/-- Another value for one entity. -/
def set (y : Dual K n m) (e : Entity n m) (a : K) : Dual K n m :=
  match e with
  | .bound i => { y with bound := y.bound.set i a }
  | .constraint i => { y with row := y.row.set i a }

/-- All values in one sequence, the bounds first. -/
def entry (y : Dual K n m) (k : Nat) : K := if k < n then y.bound k else y.row (k - n)

/-- The values of a sequence, the bounds first. -/
def ofFn (n m : Nat) (f : Nat → K) : Dual K n m := ⟨.ofFn n f, .ofFn m fun i => f (n + i)⟩

/-- The values of an array of the right size, the bounds first. -/
def ofArray? (n m : Nat) (a : Array K) : Option (Dual K n m) :=
  if a.size = n + m then some (ofFn n m fun k => a.getD k 0) else none

end Entries

/-- All values in one list, the bounds first. -/
def toList (y : Dual K n m) : List K := y.bound.toList ++ y.row.toList

/-- Multipliers can be read back from their values. -/
theorem ofArray?_toList [Zero K] (y : Dual K n m) : ofArray? n m y.toList.toArray = some y := by
  unfold ofArray?
  rw [if_pos (by simp [toList])]
  congr 1
  obtain ⟨b, r⟩ := y
  unfold ofFn toList
  congr 1
  · refine Tuple.ext fun i hi => ?_
    rw [Tuple.ofFn_apply hi]
    simp [List.getElem?_append, hi, Tuple.get, Tuple.toList]
  · refine Tuple.ext fun i hi => ?_
    rw [Tuple.ofFn_apply hi]
    simp [hi, Tuple.get, Tuple.toList]

variable [Scalar K]

/-- No multiplier at all. -/
def zero (n m : Nat) : Dual K n m := ⟨Tuple.fill n 0, Tuple.fill m 0⟩

/-- `a y`. -/
def scale (a : K) (y : Dual K n m) : Dual K n m := ⟨y.bound.scale a, y.row.scale a⟩

/-- `z + a y`. -/
def addScaled (a : K) (y z : Dual K n m) : Dual K n m :=
  ⟨.addScaled a y.bound z.bound, .addScaled a y.row z.row⟩

end Dual

/-! ## Objective -/

variable {K : Type} [Scalar K] {n : Nat}

/-- The value `½ xᵀ H x + gᵀ x`, summed over the variables. -/
def objective (hessian : Grid K n n) (gradient x : Tuple K n) : K :=
  sum n fun i => x i * (dot n (hessian i) x / (1 + 1) + gradient i)

end ActiveSet
