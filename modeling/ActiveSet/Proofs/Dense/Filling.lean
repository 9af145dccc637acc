import ActiveSet.Dense.Fill
import Mathlib.Data.List.GetD
import Mathlib.Data.List.Nodup

/-!
# Filling by rows and by columns

A sequence of values fills a grid along a path of cells. A path that meets no cell twice gives each of its
cells the value of the same number, as far as there are values, and leaves everything else alone
(`fillAlong_apply`, `fillAlong_of_notMem`). The cell that stands in place `k` of the path of rows is the one
with row `k / n` and column `k % n`, so the entries row after row are the values, and then the old entries
that no value came to. The path of columns is the one of rows of the transposed grid.

* `toList_fillRows`: what filling by rows makes of the stored entries.
* `columnByColumn_eq_fillColumns`: filling by columns as two loops, of which the inner one breaks off when
  the values run out.
* `fills_transpose`: filling by columns is filling the transposed grid by rows, and where each value goes.
-/

namespace ActiveSet.Grid

variable {K : Type} [Zero K] {m n : ℕ} {G : Grid K m n} {path : List (ℕ × ℕ)} {values : List K}

-- ---------------------------------------------------------------------------
-- Along a path
-- ---------------------------------------------------------------------------

@[simp] theorem fillAlong_nil (values : List K) (G : Grid K m n) : G.fillAlong [] values = G := rfl

@[simp] theorem fillAlong_without (path : List (ℕ × ℕ)) (G : Grid K m n) :
    G.fillAlong path [] = G := by
  rw [fillAlong, List.zip_nil_right, List.foldl_nil]

theorem fillAlong_cons (cell : ℕ × ℕ) (v : K) :
    G.fillAlong (cell :: path) (v :: values) =
      (G.set cell.1 cell.2 v).fillAlong path values := rfl

theorem set_of_ne {i j : ℕ} {cell : ℕ × ℕ} (a : K) (hi : i < m) (hj : j < n) (h : (i, j) ≠ cell) :
    G.set cell.1 cell.2 a i j = G i j := by
  rw [set_apply _ _ _ _ hi hj, if_neg fun heq => h (Prod.ext heq.1 heq.2)]

/-- A cell that is not on the path keeps its entry. -/
theorem fillAlong_of_notMem {i j : ℕ} (hi : i < m) (hj : j < n) (h : (i, j) ∉ path) :
    G.fillAlong path values i j = G i j := by
  induction path generalizing values G with
  | nil => rfl
  | cons cell path ih =>
    cases values with
    | nil => rw [fillAlong_without]
    | cons v values =>
      rw [List.mem_cons, not_or] at h
      rw [fillAlong_cons, ih h.2, set_of_ne v hi hj h.1]

/-- The cell in place `k` gets value number `k`, and keeps its entry if there is none. -/
theorem fillAlong_apply {k i j : ℕ} (hnodup : path.Nodup) (hi : i < m) (hj : j < n)
    (h : path[k]? = some (i, j)) : G.fillAlong path values i j = values.getD k (G i j) := by
  induction path generalizing values G k with
  | nil => simp at h
  | cons cell path ih =>
    obtain ⟨hnotMem, hnodup⟩ := List.nodup_cons.1 hnodup
    cases values with
    | nil => rw [fillAlong_without, List.getD_nil]
    | cons v values =>
      rw [fillAlong_cons]
      cases k with
      | zero =>
        -- no later value comes to the first cell
        obtain rfl : cell = (i, j) := by simpa using h
        rw [fillAlong_of_notMem hi hj hnotMem, set_apply _ _ _ _ hi hj, if_pos ⟨rfl, rfl⟩,
          List.getD_cons_zero]
      | succ k =>
        rw [List.getElem?_cons_succ] at h
        have hne : (i, j) ≠ cell := fun heq => hnotMem (heq ▸ List.mem_of_getElem? h)
        rw [ih hnodup h, set_of_ne v hi hj hne, List.getD_cons_succ]

theorem fillAlong_append (path path' : List (ℕ × ℕ)) (values : List K) (G : Grid K m n) :
    G.fillAlong (path ++ path') values =
      (G.fillAlong path values).fillAlong path' (values.drop path.length) := by
  induction path generalizing values G with
  | nil => rfl
  | cons cell path ih =>
    cases values with
    | nil => simp
    | cons v values => exact ih values (G.set cell.1 cell.2 v)

-- ---------------------------------------------------------------------------
-- The two paths
-- ---------------------------------------------------------------------------

/-- The path of rows counts the cells. -/
theorem rowPath_eq_map_range (m n : ℕ) :
    rowPath m n = (List.range (m * n)).map fun k => (k / n, k % n) := by
  induction m with
  | zero => simp [rowPath]
  | succ m ih =>
    have hlast : rowPath (m + 1) n = rowPath m n ++ (List.range n).map fun j => (m, j) := by
      simp [rowPath, List.range_succ]
    rw [hlast, ih, Nat.succ_mul, List.range_add, List.map_append, List.map_map]
    congr 1
    refine List.map_congr_left fun j hj => ?_
    have hj := List.mem_range.1 hj
    rw [Function.comp_apply, Nat.mul_comm m n, Nat.mul_add_div (by omega), Nat.div_eq_of_lt hj,
      Nat.mul_add_mod, Nat.mod_eq_of_lt hj, Nat.add_zero]

theorem getElem?_rowPath {i j : ℕ} (hi : i < m) (hj : j < n) :
    (rowPath m n)[i * n + j]? = some (i, j) := by
  rw [rowPath_eq_map_range, List.getElem?_map, List.getElem?_range (index_lt hi hj), Option.map_some,
    Nat.mul_comm i n, Nat.mul_add_div (by omega), Nat.div_eq_of_lt hj, Nat.mul_add_mod,
    Nat.mod_eq_of_lt hj, Nat.add_zero]

theorem nodup_rowPath (m n : ℕ) : (rowPath m n).Nodup := by
  rw [rowPath_eq_map_range]
  refine List.nodup_range.map fun k k' h => ?_
  obtain ⟨hdiv, hmod⟩ := Prod.mk.inj h
  rw [← Nat.div_add_mod k n, hdiv, hmod, Nat.div_add_mod]

theorem getElem?_columnPath {i j : ℕ} (hi : i < m) (hj : j < n) :
    (columnPath m n)[j * m + i]? = some (i, j) := by
  rw [columnPath_eq_map_swap, List.getElem?_map, getElem?_rowPath hj hi]
  rfl

theorem nodup_columnPath (m n : ℕ) : (columnPath m n).Nodup := by
  rw [columnPath_eq_map_swap]
  exact (nodup_rowPath n m).map (Function.LeftInverse.injective (g := Prod.swap) Prod.swap_swap)

-- ---------------------------------------------------------------------------
-- The two orders
-- ---------------------------------------------------------------------------

theorem fillRows_apply {i j : ℕ} (hi : i < m) (hj : j < n) :
    G.fillRows values i j = values.getD (i * n + j) (G i j) :=
  fillAlong_apply (nodup_rowPath m n) hi hj (getElem?_rowPath hi hj)

theorem fillColumns_apply {i j : ℕ} (hi : i < m) (hj : j < n) :
    G.fillColumns values i j = values.getD (j * m + i) (G i j) :=
  fillAlong_apply (nodup_columnPath m n) hi hj (getElem?_columnPath hi hj)

theorem fillColumns_eq_transpose (values : List K) (G : Grid K m n) :
    G.fillColumns values = (G.transpose.fillRows values).transpose := by
  refine ext fun i j hi hj => ?_
  rw [fillColumns_apply hi hj, transpose_apply _ hi hj, fillRows_apply hj hi, transpose_apply _ hj hi]

theorem transpose_transpose (G : Grid K m n) : G.transpose.transpose = G :=
  ext fun i j hi hj => by rw [transpose_apply _ hi hj, transpose_apply _ hj hi]

theorem getElem?_toList {i j : ℕ} (hi : i < m) (hj : j < n) (G : Grid K m n) :
    G.toList[i * n + j]? = some (G i j) := by
  have hlt : i * n + j < G.toList.length := by
    rw [length_toList]
    exact index_lt hi hj
  rw [List.getElem?_eq_getElem hlt, ← getD_toList G hi hj, List.getD_eq_getElem _ _ hlt]

/-- The stored entries become the values, as many as there is room for, and the entries that are left. -/
theorem toList_fillRows (values : List K) (G : Grid K m n) :
    (G.fillRows values).toList = values.take (m * n) ++ G.toList.drop values.length := by
  refine List.ext_getElem? fun k => ?_
  rcases Nat.lt_or_ge k (m * n) with hk | hk
  · have hn : 0 < n := Nat.pos_of_ne_zero fun hn => by simp [hn] at hk
    have hi : k / n < m := Nat.div_lt_of_lt_mul (Nat.mul_comm m n ▸ hk)
    have hentry (G : Grid K m n) : G.toList[k]? = some (G (k / n) (k % n)) := by
      rw [← getElem?_toList hi (Nat.mod_lt k hn), Nat.div_add_mod']
    rw [hentry, fillRows_apply hi (Nat.mod_lt k hn), Nat.div_add_mod', List.getElem?_append,
      List.length_take]
    split
    · -- positions that a value reaches, and those that keep their entry
      next hvalue =>
      have hvalue : k < values.length := by omega
      rw [List.getElem?_take_of_lt hk, List.getD_eq_getElem _ _ hvalue,
        List.getElem?_eq_getElem hvalue]
    · next hnone =>
      have hnone : values.length ≤ k := by omega
      have hindex : values.length + (k - min (m * n) values.length) = k := by omega
      rw [List.getElem?_drop, hindex, hentry, List.getD_eq_default _ _ hnone]
  · -- beyond the grid both lists have ended
    rw [List.getElem?_eq_none, List.getElem?_eq_none]
    · rw [List.length_append, List.length_take, List.length_drop, length_toList]
      omega
    · rwa [length_toList]

-- ---------------------------------------------------------------------------
-- Column by column
-- ---------------------------------------------------------------------------

/-- Fills some rows of column `j`, one after the other, and breaks off when the values run out. The values
that are left come with the grid. -/
def fillColumn (j : ℕ) : List ℕ → Grid K m n × List K → Grid K m n × List K
  | i :: rows, (G, v :: values) => fillColumn j rows (G.set i j v, values)
  | _, s => s

/-- Fills the columns one after the other, each with what the ones before it have left. -/
def columnByColumn (values : List K) (G : Grid K m n) : Grid K m n :=
  ((List.range n).foldl (fun s j => fillColumn j (List.range m) s) (G, values)).1

theorem fillColumn_eq (j : ℕ) (rows : List ℕ) (values : List K) (G : Grid K m n) :
    fillColumn j rows (G, values) =
      (G.fillAlong (rows.map fun i => (i, j)) values, values.drop rows.length) := by
  induction rows generalizing values G with
  | nil => rfl
  | cons i rows ih =>
    cases values with
    | nil => simp [fillColumn]
    | cons v values => exact ih values (G.set i j v)

theorem foldl_fillColumn (rows columns : List ℕ) (values : List K) (G : Grid K m n) :
    columns.foldl (fun s j => fillColumn j rows s) (G, values) =
      (G.fillAlong (columns.flatMap fun j => rows.map fun i => (i, j)) values,
        values.drop (columns.length * rows.length)) := by
  induction columns generalizing values G with
  | nil => simp
  | cons j columns ih =>
    rw [List.foldl_cons, fillColumn_eq, ih, List.flatMap_cons, fillAlong_append, List.drop_drop,
      List.length_map, List.length_cons, Nat.succ_mul, Nat.add_comm rows.length]

theorem columnByColumn_eq_fillColumns (values : List K) (G : Grid K m n) :
    G.columnByColumn values = G.fillColumns values := by
  rw [columnByColumn, foldl_fillColumn]
  rfl

-- ---------------------------------------------------------------------------
-- Both orders
-- ---------------------------------------------------------------------------

/-- Filling commutes with transposition, for any content and any number of values, too few or too many of
them included. Along the rows, or column by column along the columns, the first places get the values, one
each, as long as there are any, and all others keep their entries. -/
theorem fills_transpose {K : Type} [Zero K] (m n : ℕ) (G : Grid K m n) (values : List K) :
    G.fillColumns values = (G.transpose.fillRows values).transpose ∧
      G.fillColumns values = G.columnByColumn values ∧
      (G.fillRows values).toList = values.take (m * n) ++ G.toList.drop values.length ∧
      (G.fillColumns values).transpose.toList =
        values.take (m * n) ++ G.transpose.toList.drop values.length ∧
      ∀ (i : Fin m) (j : Fin n),
        G.fillRows values i j = values.getD (i * n + j) (G i j) ∧
        G.fillColumns values i j = values.getD (j * m + i) (G i j) := by
  refine ⟨fillColumns_eq_transpose values G, (columnByColumn_eq_fillColumns values G).symm,
    toList_fillRows values G, ?_, fun i j =>
      ⟨fillRows_apply i.isLt j.isLt, fillColumns_apply i.isLt j.isLt⟩⟩
  rw [fillColumns_eq_transpose, transpose_transpose, toList_fillRows, Nat.mul_comm n m]

/-- Three values for a grid of two rows: the last one comes to the first row of the second column. -/
example : ((ofFn 2 2 fun _ _ => 0).fillColumns [1, 2, 3] : Grid ℕ 2 2).toList = [1, 3, 2, 0] := by
  decide

end ActiveSet.Grid
