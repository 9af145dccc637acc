import ActiveSet.Solver.Constrained.State

/-!
# The direction with constraints

The direction of a step solves the optimality conditions of the working set for the data on their
way.  In the coordinates of `Q` they fall apart into small systems, solved one after the other:

* `rangeStep`: active constraints follow their limits, by a system with `T`.
* `nullStep`: in the null space the gradient of the objective stays zero, by two systems with the
  factor of the objective's matrix.
* `multiplierStep`: what is left of the gradient is balanced by the multipliers of the active
  constraints, by a system with the transpose of `T`, and by those of the fixed variables.
-/

namespace ActiveSet.Constrained

variable {K : Type} [Scalar K] {n m : Nat}

/-- The change of the limit on which an active constraint lies. -/
def activeLimitChange (s : Constrained K n m) (i : Nat) : K :=
  if s.constraints.activity i = .upper then s.shift.rowUpper i else s.shift.rowLower i

/-- Lets the active constraints follow their limits. -/
def rangeStep : Update (Constrained K n m) Unit := do
  let s ← get
  let count := s.active.length
  let rhs : Tuple K count := Tuple.ofFn _ <|
    gather s.active fun i => s.activeLimitChange i - dot n (s.matrix i) s.dx
  let w ← Update.ofAttempt (s.nullSpace.solveT? s.parameters.epsZero rhs (Tuple.fill _ 0))
  set { s with
    dx := spread s.free
      (fun p a => a + sum count fun c => s.nullSpace.q p (s.nNull + c) * w c) s.dx }

/-- Keeps the gradient of the objective zero in the null space. -/
def nullStep : Update (Constrained K n m) Unit := do
  modify fun s => { s with toCore := s.toCore.withTilt }
  let s ← get
  let count := s.nNull
  let eps := s.parameters.epsZero
  let rhs : Tuple K count := Tuple.ofFn _ fun k =>
    -(sum s.free.length fun p => s.nullSpace.q p k * gather s.free s.tilt p)
  let w ← Update.ofAttempt (s.factor.solveRT? eps rhs)
  let w ← Update.ofAttempt (s.factor.solveR? eps w)
  set { s with
    dx := spread s.free (fun p a => a + sum count fun k => s.nullSpace.q p k * w k) s.dx }

/-- Balances what is left of the gradient by multipliers. -/
def multiplierStep : Update (Constrained K n m) Unit := do
  modify fun s => { s with toCore := s.toCore.withTilt }
  let s ← get
  let count := s.active.length
  let rhs : Tuple K count := Tuple.ofFn _ fun c =>
    sum s.free.length fun p => s.nullSpace.q p (s.nNull + c) * gather s.free s.tilt p
  let w ← Update.ofAttempt (s.nullSpace.solveTT? s.parameters.epsZero rhs (Tuple.fill _ 0))
  set { s with
    dy := ⟨Tuple.ofFn n fun j =>
        if s.bounds.isActive j then
          deduct (s.tilt j) count fun c => gather s.active (fun i => s.matrix i j) c * w c
        else s.dy.bound j,
      spread s.active (fun c _ => w c) s.dy.row⟩ }

/-- Determines the direction in which point and multipliers follow the data. -/
def determineDirection : Update (Constrained K n m) Unit := do
  modify fun s => { s with toCore := s.toCore.fixedDirection }
  let s ← get
  if s.free.length ≠ s.nullSpace.nFree then throw .broken
  -- an empty sum would still be added, which takes the sign off a zero
  if 0 < s.active.length then rangeStep
  if 0 < s.nNull then nullStep
  multiplierStep
  modify fun s => { s with dax := s.matrix.apply 1 s.dx 0 s.dax }

end ActiveSet.Constrained
