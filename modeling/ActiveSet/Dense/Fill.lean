import ActiveSet.Decimal
import ActiveSet.Dense.Grid

/-!
# Filling grids

A grid of problem data is filled entry by entry, from a function or from a sequence of values that
follows the rows or the columns.  A sequence may be shorter or longer than the grid: it overwrites
as many entries as it has values, and what is left over is ignored.

* `Grid.rowPath`, `Grid.columnPath`: the cells of a grid row after row, and column after column.
* `Grid.fillAlong`: overwrites the cells of a path by the values of a sequence.
* `Grid.fillRows`, `Grid.fillColumns`: the two orders.
* `Grid.summary`: the corners of a grid as a text.
-/

namespace ActiveSet.Grid

/-! ## Paths -/

/-- The cells of a grid with `m` rows and `n` columns, row after row. -/
def rowPath (m n : Nat) : List (Nat × Nat) :=
  (List.range m).flatMap fun i => (List.range n).map fun j => (i, j)

/-- The cells of a grid with `m` rows and `n` columns, column after column. -/
def columnPath (m n : Nat) : List (Nat × Nat) :=
  (List.range n).flatMap fun j => (List.range m).map fun i => (i, j)

/-- The cells column after column are the transposed cells row after row. -/
theorem columnPath_eq_map_swap (m n : Nat) :
    columnPath m n = (rowPath n m).map Prod.swap := by
  simp [columnPath, rowPath, List.map_flatMap, Function.comp_def]

variable {K : Type} {m n : Nat}

/-- Overwrites the cells of a path by the values of a sequence, until one of the two ends. -/
def fillAlong [Zero K] (path : List (Nat × Nat)) (values : List K) (G : Grid K m n) : Grid K m n :=
  (path.zip values).foldl (fun G p => G.set p.1.1 p.1.2 p.2) G

/-- Overwrites the entries row after row. -/
def fillRows [Zero K] (values : List K) (G : Grid K m n) : Grid K m n :=
  G.fillAlong (rowPath m n) values

/-- Overwrites the entries column after column. -/
def fillColumns [Zero K] (values : List K) (G : Grid K m n) : Grid K m n :=
  G.fillAlong (columnPath m n) values

/-! ## Other ways to fill a grid -/

/-- The identity matrix. -/
def identity [Zero K] [One K] (n : Nat) : Grid K n n := ofFn n n fun i j => if i = j then 1 else 0

/-- The entries in reverse order of the rows and within each row. -/
def reverse [Zero K] (G : Grid K m n) : Grid K m n :=
  ofFn m n fun i j => G (m - 1 - i) (n - 1 - j)

/-- The entry in a cell of the grid. -/
def get? [Zero K] (G : Grid K m n) (i j : Nat) : Option K :=
  if i < m ∧ j < n then some (G i j) else none

/-- The grid with another value in one of its cells. -/
def set? [Zero K] (G : Grid K m n) (i j : Nat) (a : K) : Option (Grid K m n) :=
  if i < m ∧ j < n then some (G.set i j a) else none

/-! ## Text -/

/-- The ends of a row, with dots for the entries between them. -/
def rowSummary (G : Grid Float m n) (i : Nat) : String :=
  Decimal.report (G i 0) ++ (if 2 < n then " ..." else "") ++
    (if 1 < n then " " ++ Decimal.report (G i (n - 1)) else "")

/-- The corners of a grid, with dots for what lies between them, and its size. -/
def summary (G : Grid Float m n) : String :=
  let corners :=
    if m = 0 ∨ n = 0 then "[ ]"
    else
      "[ " ++ G.rowSummary 0 ++ (if 2 < m then "\n  ..." else "") ++
        (if 1 < m then "\n  " ++ G.rowSummary (m - 1) else "") ++ " ]"
  corners ++ " (" ++ toString m ++ " x " ++ toString n ++ ")"

end ActiveSet.Grid
