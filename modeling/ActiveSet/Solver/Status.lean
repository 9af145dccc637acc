/-!
# The life of a solver

A solver is told what it may assume about the matrix of the objective (`HessianType`) and reports
how far it has come (`Status`).  Between two calls its status is one of four: nothing is prepared,
or it holds the solution of the auxiliary problem, of a problem on the way, or of the problem that
was loaded.
-/

namespace ActiveSet

/-- How far a solver has come. -/
inductive Status where
  /-- There is neither a working set nor a factorization. -/
  | notInitialised
  /-- The auxiliary problem is being set up. -/
  | preparingAuxiliary
  /-- The auxiliary problem is solved by construction. -/
  | auxiliarySolved
  /-- A step of the homotopy is being made. -/
  | performingHomotopy
  /-- A problem on the way is solved. -/
  | homotopySolved
  /-- The loaded problem is solved. -/
  | solved
deriving DecidableEq, Repr

namespace Status

/-- The word for a status in reports. -/
def text : Status → String
  | notInitialised => "not-initialised"
  | preparingAuxiliary => "preparing-auxiliary-QP"
  | auxiliarySolved => "auxiliary-QP-solved"
  | performingHomotopy => "performing-homotopy"
  | homotopySolved => "homotopy-QP-solved"
  | solved => "solved"

/-- Whether a solver holds a solution from which a homotopy can start. -/
def isStart : Status → Bool
  | auxiliarySolved | homotopySolved | solved => true
  | notInitialised | preparingAuxiliary | performingHomotopy => false

end Status

/-- What is known about the matrix of the objective. -/
inductive HessianType where
  /-- It is positive semidefinite. -/
  | semidefinite
  /-- It is positive definite on the null space of the active constraints. -/
  | definiteOnNullSpace
  /-- It is positive definite. -/
  | definite
  /-- It is the identity. -/
  | identity
deriving DecidableEq, Repr

end ActiveSet
