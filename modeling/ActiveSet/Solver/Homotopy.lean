import ActiveSet.Solver.Auxiliary

/-!
# The homotopy

A solve moves the current problem to the loaded one in steps.  Within a step the working set stays
the same, and point and multipliers follow the data linearly.  The step ends where an entity has to
enter or leave the working set, and the next one starts with the changed working set.

* `Method`: what a solver has to provide, namely how it prepares the auxiliary problem, how it
  determines a direction and a step length, and how it changes its working set.
* `Method.step`: one step.
* `Method.follow`: steps until the loaded problem is reached, a step fails, the observer asks to
  stop, or the budget of steps is used up.
* `Method.solve`, `Method.resume`: a solve from scratch, and one from the solution of a previous
  problem.

A failed change of the working set leaves no factorization to go on with, except where it was
refused because no point is feasible.  A direction that cannot be determined changes nothing.
-/

namespace ActiveSet

/-- A way to solve problems in `n` variables with `m` constraints, with states in `σ`. -/
structure Method (K : Type) (n m : Nat) (σ : Type) where
  /-- The shared part of a state. -/
  core : σ → Core K n m
  /-- The state with another shared part. -/
  withCore : σ → Core K n m → σ
  /-- Gives up working set, factorizations and solution. -/
  reset : σ → σ
  /-- Whether the loaded limits admit a point, each pair by itself. -/
  checkLimits : σ → Except QpError Unit
  /-- Makes up an auxiliary problem around a guess, and solves it. -/
  prepare : Guess K n m → Update σ Unit
  /-- Determines the direction in which point and multipliers follow the data. -/
  determineDirection : Update σ Unit
  /-- Determines how far the direction can be followed, and what happens there. -/
  stepLength : σ → K × StepEvent n m
  /-- Follows the direction. -/
  perform : K → StepEvent n m → σ → σ
  /-- Changes the working set as an event asks for. -/
  changeWorkingSet : StepEvent n m → Update σ Unit
  /-- The number of active constraints. -/
  activeRowCount : σ → Nat

namespace Method

variable {K : Type} [Scalar K] {n m : Nat} {σ τ : Type}

/-- The status of a state. -/
def status (M : Method K n m σ) (s : σ) : Status := (M.core s).status

/-- A state with another status. -/
def withStatus (M : Method K n m σ) (status : Status) (s : σ) : σ :=
  M.withCore s { M.core s with status }

/-- A state without a verdict on the problem. -/
def clearVerdict (M : Method K n m σ) (s : σ) : σ :=
  M.withCore s { M.core s with infeasible := false, unbounded := false }

/-! ## One step -/

/-- What a failed direction leaves: the state from before the step.  The solution of the last
problem is still there, but no longer the loaded one's. -/
def directionFailed (M : Method K n m σ) (before : Status) : Update σ Unit := do
  modify (M.withStatus (if before = .solved then .homotopySolved else before))
  Update.fail .stepDirectionDeterminationFailed

/-- What a failed change of the working set leaves.  An infeasible problem keeps its working set,
unless the change had already taken something out of it. -/
def changeFailed (M : Method K n m σ) (e : QpError) : Update σ Unit := do
  if e = .addBoundFailedInfeasibility ∨ e = .addConstraintFailedInfeasibility then
    modify fun s =>
      let c := M.core s
      M.withCore s { c with
        status := if c.status = .performingHomotopy then .homotopySolved else c.status
        infeasible := true }
    Update.fail .hotstartStoppedInfeasibility
  else if e = .hotstartStoppedUnboundedness then
    modify fun s => M.withCore s { M.core s with status := .notInitialised, unbounded := true }
    Update.fail e
  else
    modify (M.withStatus .notInitialised)
    Update.fail e

/-- The record of a step that has just been made. -/
def record (M : Method K n m σ) (index : Nat) (tau : K) (event : StepEvent n m) (s : σ) :
    Iteration K n m where
  index := index
  status := M.status s
  tau := tau
  event := event
  nFree := (M.core s).bounds.inactiveCount
  nActive := M.activeRowCount s

/-- One step with its record.  A step to the loaded problem has to go the whole way. -/
def step (M : Method K n m σ) (index : Nat) : Update σ (Iteration K n m) := do
  let before := M.status (← get)
  modify (M.withStatus .performingHomotopy)
  -- whatever kept the direction from being determined, the caller learns only that it did
  Update.recover M.determineDirection fun _ => M.directionFailed before
  let (tau, event) := M.stepLength (← get)
  modify (M.perform tau event)
  if event = .full then
    if tau == 1 then
      modify (M.withStatus .solved)
    else throw .broken
  else
    Update.recover (M.changeWorkingSet event) M.changeFailed
    modify (M.withStatus .homotopySolved)
  return M.record index tau event (← get)

/-! ## All steps -/

/-- Steps from a given number on, at most as many as the budget allows.  The value is the number of
steps after which the loaded problem was reached.  The observer sees that last step too, but its
answer does not matter any more. -/
def follow (M : Method K n m σ) (obs : Observer K n m τ) : Nat → Nat → Update (σ × τ) Nat
  | 0, _ => Update.fail .maxNwsrReached
  | budget + 1, index => do
    let it ← Update.first (M.step index)
    let (s, t) ← get
    let (t, answer) := obs.observe it t
    set (s, t)
    -- at the loaded problem there is nothing left to stop
    if it.event = .full then return index + 1
    else if answer = .stop then Update.fail .userAbortRequested
    else M.follow obs budget (index + 1)

/-- A homotopy from the current problem to the loaded one. -/
def homotopy (M : Method K n m σ) (obs : Observer K n m τ) (budget : Nat) :
    Update (σ × τ) Nat := do
  Update.first (modify M.clearVerdict)
  M.follow obs budget 0

/-! ## Calls -/

/-- The error of a solve from scratch whose auxiliary problem could not be set up. -/
def setupError : QpError → QpError
  | .setupBoundFailed => .setupBoundFailed
  | .setupConstraintFailed => .setupConstraintFailed
  | .setupWorkingSetFailed => .setupWorkingSetFailed
  | .initFailedCholesky => .initFailedCholesky
  | .initFailedTq => .initFailedTq
  | _ => .initFailed

/-- The error of a solve from scratch whose homotopy failed. -/
def initError : QpError → QpError
  | .hotstartStoppedInfeasibility => .initFailedInfeasibility
  | .hotstartStoppedUnboundedness => .initFailedUnboundedness
  | .maxNwsrReached => .maxNwsrReached
  | .userAbortRequested => .userAbortRequested
  | .hessianNotSpd => .hessianNotSpd
  | _ => .initFailedHotstart

/-- Solves the loaded problem from scratch, starting at a guess. -/
def solve (M : Method K n m σ) (obs : Observer K n m τ) (budget : Nat)
    (xGuess yGuess : Option (Array K)) : Update (σ × τ) Nat := do
  let guess ← Update.ofExcept (Guess.ofArrays n m xGuess yGuess)
  Update.first do
    modify M.reset
    Update.recover (M.prepare guess) fun e => do
      modify (M.withStatus .notInitialised)
      Update.fail (setupError e)
  Update.mapError initError (M.homotopy obs budget)

/-- Solves the loaded problem, starting at the solution of the previous one. -/
def resume (M : Method K n m σ) (obs : Observer K n m τ) (budget : Nat) :
    Update (σ × τ) Nat := do
  let (s, _) ← get
  if (M.status s).isStart then
    Update.ofExcept (M.checkLimits s)
    M.homotopy obs budget
  else Update.fail .hotstartFailedAsQpNotInitialised

end Method

end ActiveSet
