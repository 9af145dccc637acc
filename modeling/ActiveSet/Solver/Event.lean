import ActiveSet.Decimal
import ActiveSet.Problem
import ActiveSet.Solver.Status

/-!
# Steps and their observers

A solve is a sequence of steps.  Each one ends in an event: the loaded problem is reached, or an
entity has to enter or leave the working set.  After the event an observer is shown a record of the
step and may ask the solver to stop.

* `StepEvent`, `Iteration`: what happened in a step, and `Iteration.line`, its line in a report.
* `Observer`: what sees the records.  It has a state of its own, so that a solver with an observer
  is still a function.
* `Observer.silent`, `Observer.recorder`, `Observer.writer`: observers that ignore the records,
  collect them, and write their lines to a page with limited room.
-/

namespace ActiveSet

/-- What ends a step. -/
inductive StepEvent (n m : Nat) where
  /-- The loaded problem is reached. -/
  | full
  /-- An entity outside the working set reached one of its limits. -/
  | add (e : Entity n m) (side : Activity)
  /-- The multiplier of an entity in the working set reached zero. -/
  | remove (e : Entity n m)
deriving DecidableEq, Repr

namespace StepEvent

variable {n m : Nat}

/-- An entity in words. -/
def entityText (e : Entity n m) : String := e.kind.name ++ " " ++ toString e.index

/-- An event in words. -/
def text : StepEvent n m → String
  | full => "full step"
  | add e side => "add " ++ entityText e ++ " at " ++ side.text
  | remove e => "remove " ++ entityText e

end StepEvent

/-- The record of a step. -/
structure Iteration (K : Type) (n m : Nat) where
  /-- The number of the step within a call, from zero. -/
  index : Nat
  /-- The status after the step. -/
  status : Status
  /-- The part of the remaining way that the step went. -/
  tau : K
  /-- What ended the step. -/
  event : StepEvent n m
  /-- The number of free variables after the step. -/
  nFree : Nat
  /-- The number of active constraints after the step. -/
  nActive : Nat
deriving DecidableEq, Repr

/-- The line of a step in a report: its number, the length of the step, the two counts, and what
happened, in columns. -/
def Iteration.line {n m : Nat} (it : Iteration Float n m) : String :=
  String.intercalate " | "
    [Decimal.rightAligned 4 it.index, Decimal.report it.tau, Decimal.rightAligned 3 it.nFree,
     Decimal.rightAligned 3 it.nActive, it.event.text ++ " (" ++ it.status.text ++ ")"]

/-! ## Observers -/

/-- The answer of an observer to a record. -/
inductive Answer where
  /-- The solver may go on. -/
  | proceed
  /-- The solver shall stop. -/
  | stop
deriving DecidableEq, Repr

/-- Something with a state in `τ` that is shown the record of each step. -/
structure Observer (K : Type) (n m : Nat) (τ : Type) where
  /-- The state after a record, and the answer to it. -/
  observe : Iteration K n m → τ → τ × Answer

namespace Observer

variable {K : Type} {n m : Nat}

/-- Ignores all records. -/
def silent : Observer K n m Unit := ⟨fun _ s => (s, .proceed)⟩

/-- Collects all records, and asks to stop after the step with a given number. -/
def recorder (stopAt : Option Nat) : Observer K n m (List (Iteration K n m)) :=
  ⟨fun it seen => (seen ++ [it], if stopAt = some it.index then .stop else .proceed)⟩

/-- A page of lines.  Without a limit there is always room for one more. -/
structure Page where
  /-- The lines written so far. -/
  lines : List String
  /-- The largest number of lines. -/
  limit : Option Nat
deriving DecidableEq, Repr

/-- An empty page. -/
def Page.blank (limit : Option Nat) : Page := ⟨[], limit⟩

/-- Whether a page has room for one more line. -/
def Page.hasRoom (p : Page) : Bool :=
  match p.limit with
  | none => true
  | some k => p.lines.length < k

/-- Writes the line of each step to a page, and asks to stop when there is no room for it. -/
def writer : Observer Float n m Page :=
  ⟨fun it p =>
    if p.hasRoom then ({ p with lines := p.lines ++ [it.line] }, .proceed) else (p, .stop)⟩

end Observer

end ActiveSet
