/-!
# Failures

Two things can go wrong in a call.  A call can *fail*: its inputs or the numbers admit no result,
and the caller is told which of a fixed list of errors occurred.  Or a *requirement* of the call
does not hold, such as the length of a vector; a program that makes such a call is wrong, and no
state after it is meaningful.

* `QpError`: the list of errors, with a name and a description each.
* `Failure`: an error with what the failed operation leaves of the value it was working on.
* `Fault`: an error or a broken requirement.
* `Update`: a computation on a state that keeps the state it had reached when a fault occurs.  A
  solver stops in the middle of a change of its working set that way, and the state it stopped in
  stays visible.
-/

namespace ActiveSet

/-- The errors of solvers and of their components. -/
inductive QpError where
  /-- At least one of the arguments is invalid. -/
  | invalidArguments
  /-- An index is out of bounds. -/
  | indexOutOfBounds
  /-- A denominator counts as zero. -/
  | divByZero
  /-- The requested path does not exist. -/
  | notYetImplemented
  /-- A group of indices is full. -/
  | indexListExceedsMaxLength
  /-- The tables of a partition disagree. -/
  | indexListCorrupted
  /-- An index is not in the group it is moved from. -/
  | indexListMoveFailed
  /-- A bound cannot be set up, typically because its box is empty. -/
  | setupBoundFailed
  /-- A constraint cannot be set up, typically because its box is empty. -/
  | setupConstraintFailed
  /-- A bound does not admit the requested activity. -/
  | movingBoundFailed
  /-- A constraint does not admit the requested activity. -/
  | movingConstraintFailed
  /-- An entity already has the requested activity. -/
  | indexAlreadyOfDesiredStatus
  /-- The problem has already been initialised. -/
  | qpAlreadyInitialised
  /-- A reset failed. -/
  | resetFailed
  /-- The initialisation failed. -/
  | initFailed
  /-- The initialisation failed in the null space factorization. -/
  | initFailedTq
  /-- The initialisation failed in the triangular factorization of the Hessian. -/
  | initFailedCholesky
  /-- The initialisation failed on the way to the loaded problem. -/
  | initFailedHotstart
  /-- The first problem has no feasible point. -/
  | initFailedInfeasibility
  /-- The first problem has no lower bound. -/
  | initFailedUnboundedness
  /-- No working set could be set up for the auxiliary problem. -/
  | setupWorkingSetFailed
  /-- There is no solved problem to start from. -/
  | hotstartFailedAsQpNotInitialised
  /-- No step direction could be determined. -/
  | stepDirectionDeterminationFailed
  /-- No step length could be determined. -/
  | stepLengthDeterminationFailed
  /-- A bound could not be added to the working set. -/
  | addBoundFailed
  /-- A bound could not be added to the working set because of infeasibility. -/
  | addBoundFailedInfeasibility
  /-- A constraint could not be added to the working set. -/
  | addConstraintFailed
  /-- A constraint could not be added to the working set because of infeasibility. -/
  | addConstraintFailedInfeasibility
  /-- A bound could not be removed from the working set. -/
  | removeBoundFailed
  /-- A constraint could not be removed from the working set. -/
  | removeConstraintFailed
  /-- A hot start ended because the problem has no feasible point. -/
  | hotstartStoppedInfeasibility
  /-- A hot start ended because the problem has no lower bound. -/
  | hotstartStoppedUnboundedness
  /-- The budget of working set changes is used up. -/
  | maxNwsrReached
  /-- An observer asked to stop. -/
  | userAbortRequested
  /-- The projected Hessian is not positive definite. -/
  | hessianNotSpd
  /-- A factorization could not be computed. -/
  | matrixFactorisationFailed
  /-- No entity can leave the working set to resolve a linear dependence. -/
  | ensureLiFailedNoIndex
  /-- The resolution of a linear dependence failed in the null space factorization. -/
  | ensureLiFailedTq
  /-- A solution violates the optimality conditions. -/
  | noSolution
  /-- A solution satisfies the optimality conditions, but not accurately. -/
  | inaccurateSolution
deriving DecidableEq, Repr

namespace QpError

/-- All errors. -/
def all : List QpError :=
  [.invalidArguments, .indexOutOfBounds, .divByZero, .notYetImplemented,
   .indexListExceedsMaxLength, .indexListCorrupted, .indexListMoveFailed, .setupBoundFailed,
   .setupConstraintFailed, .movingBoundFailed, .movingConstraintFailed,
   .indexAlreadyOfDesiredStatus, .qpAlreadyInitialised, .resetFailed, .initFailed, .initFailedTq,
   .initFailedCholesky, .initFailedHotstart, .initFailedInfeasibility, .initFailedUnboundedness,
   .setupWorkingSetFailed, .hotstartFailedAsQpNotInitialised, .stepDirectionDeterminationFailed,
   .stepLengthDeterminationFailed, .addBoundFailed, .addBoundFailedInfeasibility,
   .addConstraintFailed, .addConstraintFailedInfeasibility, .removeBoundFailed,
   .removeConstraintFailed, .hotstartStoppedInfeasibility, .hotstartStoppedUnboundedness,
   .maxNwsrReached, .userAbortRequested, .hessianNotSpd, .matrixFactorisationFailed,
   .ensureLiFailedNoIndex, .ensureLiFailedTq, .noSolution, .inaccurateSolution]

/-- The name under which an error is reported. -/
def name : QpError → String
  | invalidArguments => "InvalidArguments"
  | indexOutOfBounds => "IndexOutOfBounds"
  | divByZero => "DivByZero"
  | notYetImplemented => "NotYetImplemented"
  | indexListExceedsMaxLength => "IndexListExceedsMaxLength"
  | indexListCorrupted => "IndexListCorrupted"
  | indexListMoveFailed => "IndexListMoveFailed"
  | setupBoundFailed => "SetupBoundFailed"
  | setupConstraintFailed => "SetupConstraintFailed"
  | movingBoundFailed => "MovingBoundFailed"
  | movingConstraintFailed => "MovingConstraintFailed"
  | indexAlreadyOfDesiredStatus => "IndexAlreadyOfDesiredStatus"
  | qpAlreadyInitialised => "QpAlreadyInitialised"
  | resetFailed => "ResetFailed"
  | initFailed => "InitFailed"
  | initFailedTq => "InitFailedTq"
  | initFailedCholesky => "InitFailedCholesky"
  | initFailedHotstart => "InitFailedHotstart"
  | initFailedInfeasibility => "InitFailedInfeasibility"
  | initFailedUnboundedness => "InitFailedUnboundedness"
  | setupWorkingSetFailed => "SetupWorkingSetFailed"
  | hotstartFailedAsQpNotInitialised => "HotstartFailedAsQpNotInitialised"
  | stepDirectionDeterminationFailed => "StepDirectionDeterminationFailed"
  | stepLengthDeterminationFailed => "StepLengthDeterminationFailed"
  | addBoundFailed => "AddBoundFailed"
  | addBoundFailedInfeasibility => "AddBoundFailedInfeasibility"
  | addConstraintFailed => "AddConstraintFailed"
  | addConstraintFailedInfeasibility => "AddConstraintFailedInfeasibility"
  | removeBoundFailed => "RemoveBoundFailed"
  | removeConstraintFailed => "RemoveConstraintFailed"
  | hotstartStoppedInfeasibility => "HotstartStoppedInfeasibility"
  | hotstartStoppedUnboundedness => "HotstartStoppedUnboundedness"
  | maxNwsrReached => "MaxNwsrReached"
  | userAbortRequested => "UserAbortRequested"
  | hessianNotSpd => "HessianNotSpd"
  | matrixFactorisationFailed => "MatrixFactorisationFailed"
  | ensureLiFailedNoIndex => "EnsureLiFailedNoIndex"
  | ensureLiFailedTq => "EnsureLiFailedTq"
  | noSolution => "NoSolution"
  | inaccurateSolution => "InaccurateSolution"

/-- What an error means, in a few words. -/
def description : QpError → String
  | invalidArguments => "at least one of the arguments is invalid"
  | indexOutOfBounds => "index out of bounds"
  | divByZero => "division by zero"
  | notYetImplemented => "requested path is not yet implemented"
  | indexListExceedsMaxLength => "index list exceeds its maximal length"
  | indexListCorrupted => "index list corrupted"
  | indexListMoveFailed => "index is not a member of the source group"
  | setupBoundFailed => "setting up bound failed"
  | setupConstraintFailed => "setting up constraint failed"
  | movingBoundFailed => "moving bound between index sets failed"
  | movingConstraintFailed => "moving constraint between index sets failed"
  | indexAlreadyOfDesiredStatus => "index is already of desired status"
  | qpAlreadyInitialised => "QP has already been initialised"
  | resetFailed => "reset failed"
  | initFailed => "initialisation failed"
  | initFailedTq => "initialisation failed due to TQ factorisation"
  | initFailedCholesky => "initialisation failed due to Cholesky decomposition"
  | initFailedHotstart => "initialisation failed, QP could not be solved"
  | initFailedInfeasibility => "initial QP could not be solved due to infeasibility"
  | initFailedUnboundedness => "initial QP could not be solved due to unboundedness"
  | setupWorkingSetFailed => "failed to setup working set for auxiliary QP"
  | hotstartFailedAsQpNotInitialised =>
    "unable to perform homotopy as previous QP is not solved"
  | stepDirectionDeterminationFailed => "determination of step direction failed"
  | stepLengthDeterminationFailed => "determination of step length failed"
  | addBoundFailed => "addition of bound to working set failed"
  | addBoundFailedInfeasibility => "addition of bound to working set failed due to infeasibility"
  | addConstraintFailed => "addition of constraint to working set failed"
  | addConstraintFailedInfeasibility =>
    "addition of constraint to working set failed due to infeasibility"
  | removeBoundFailed => "removal of bound from working set failed"
  | removeConstraintFailed => "removal of constraint from working set failed"
  | hotstartStoppedInfeasibility =>
    "premature homotopy termination because QP is infeasible"
  | hotstartStoppedUnboundedness =>
    "premature homotopy termination because QP is unbounded"
  | maxNwsrReached => "maximum number of working set recalculations performed"
  | userAbortRequested => "user requested early termination"
  | hessianNotSpd => "projected Hessian matrix not positive definite"
  | matrixFactorisationFailed => "unable to calculate new matrix factorisations"
  | ensureLiFailedNoIndex => "no index found, QP probably infeasible"
  | ensureLiFailedTq => "abnormal termination due to TQ factorisation"
  | noSolution => "QP solution does not satisfy KKT optimality conditions"
  | inaccurateSolution => "KKT optimality conditions not satisfied to sufficient accuracy"

/-- The report of an error: its name and what it means. -/
def message (e : QpError) : String := e.name ++ ": " ++ e.description

end QpError

/-- An error, together with what the failed operation leaves. -/
structure Failure (α : Type) where
  /-- Why the operation failed. -/
  error : QpError
  /-- The value it was working on, as far as it got. -/
  left : α
deriving DecidableEq, Repr

/-! ## Faults and updates -/

/-- Why a computation ended without a result. -/
inductive Fault where
  /-- A requirement of an operation does not hold. -/
  | broken
  /-- An operation failed. -/
  | failed (error : QpError)
deriving DecidableEq, Repr

/-- Replaces the error of a failure; a broken requirement stays what it is. -/
def Fault.mapError (f : QpError → QpError) : Fault → Fault
  | broken => broken
  | failed e => failed (f e)

/-- A computation on a state that may end in a fault, with the state it had reached. -/
abbrev Update (σ α : Type) := EStateM Fault σ α

namespace Update

variable {σ α : Type}

/-- Ends in an error. -/
def fail (e : QpError) : Update σ α := throw (.failed e)

/-- Continues with the value of an operation whose requirement holds. -/
def require : Option α → Update σ α
  | some a => pure a
  | none => throw .broken

/-- Continues with the value of an operation that succeeded. -/
def ofExcept : Except QpError α → Update σ α
  | .ok a => pure a
  | .error e => fail e

/-- Continues with the value of an operation whose requirement holds, and that succeeded. -/
def ofAttempt {β : Type} : Option (Except (Failure β) α) → Update σ α
  | some (.ok a) => pure a
  | some (.error f) => fail f.error
  | none => throw .broken

/-- Continues with a second computation, from the state that is left, where the first one fails.  A
broken requirement is not taken up. -/
def recover (u : Update σ α) (handler : QpError → Update σ α) : Update σ α := fun s =>
  match u s with
  | .ok a s' => .ok a s'
  | .error (.failed e) s' => handler e s'
  | .error .broken s' => .error .broken s'

/-- A computation on the first part of a state. -/
def first {τ : Type} (u : Update σ α) : Update (σ × τ) α := fun s =>
  match u s.1 with
  | .ok a s' => .ok a (s', s.2)
  | .error e s' => .error e (s', s.2)

/-- A computation on a part of a state. -/
def focus {τ : Type} (get : τ → σ) (set : τ → σ → τ) (u : Update σ α) : Update τ α := fun s =>
  match u (get s) with
  | .ok a s' => .ok a (set s s')
  | .error e s' => .error e (set s s')

/-- Replaces the error of a failing computation. -/
def mapError (f : QpError → QpError) (u : Update σ α) : Update σ α := fun s =>
  match u s with
  | .ok a s' => .ok a s'
  | .error e s' => .error (e.mapError f) s'

end Update

end ActiveSet
