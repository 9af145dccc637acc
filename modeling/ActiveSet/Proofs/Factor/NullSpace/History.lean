import ActiveSet.Proofs.Factor.Dimensions
import ActiveSet.Proofs.Factor.NullSpace.Columns
import ActiveSet.Proofs.Factor.NullSpace.Rows

/-!
# A null space factorization and its rows over any history

The factorization does not hold the matrix it belongs to, and neither does anything else: it is put
together from the rows of the active constraints and the list of the free variables. A `Ledger` keeps
both beside the factors, and each operation writes down what becomes of them. Whatever operations there
were, in whatever order, the factors are those of the matrix on record (`null_space_tracks`).

The antidiagonal of `T` can only have a zero where a row entered, or a variable became fixed, that has
no part in the null space. Histories without such an operation are `regular`.

* `Operation`, `Ledger.Admissible`: the operations, and what they require.
* `Ledger.step`: what an operation does to the factors and to the record.
* `History`: the ledgers that admissible operations lead to.
-/

namespace ActiveSet

open Finset Rotation

variable {n m : ℕ}

namespace NullSpace

/-! ## The matrix on record -/

/-- The factors, and what they should be the factors of. -/
structure Ledger (n m : ℕ) where
  /-- The factors. -/
  factors : NullSpace ℝ n m
  /-- The rows of the active constraints, in the order of the factorization. -/
  rows : List (Fin n → ℝ)
  /-- The free variables, in the order of the factorization. -/
  free : List (Fin n)

/-- The entries of a row for the variables of a list. -/
def restrict (free : List (Fin n)) (a : Fin n → ℝ) (p : ℕ) : ℝ := (free[p]?.map a).getD 0

/-- The matrix of the active rows over the free variables. -/
def Ledger.matrix (l : Ledger n m) (c p : ℕ) : ℝ :=
  (l.rows[c]?.map fun a => restrict l.free a p).getD 0

/-- The list in which two entries have changed places. -/
def exchange {α : Type} (l : List α) (a b : ℕ) : List α :=
  match l[a]?, l[b]? with
  | some x, some y => (l.set a y).set b x
  | _, _ => l

/-! ## Operations -/

/-- The operations on the factors, with what they are told. -/
inductive Operation (n : ℕ) where
  /-- Starts anew with a list of free variables and without rows. -/
  | reset (free : List (Fin n))
  /-- Adds a row. -/
  | addRow (a : Fin n → ℝ)
  /-- Removes row `p`. -/
  | removeRow (p : ℕ)
  /-- Two free variables change places. -/
  | swap (a b : ℕ)
  /-- Fixes the last free variable. -/
  | fixLast
  /-- Frees a variable. -/
  | free (i : Fin n)

/-- What an operation requires. In a regular history, what enters has a part in the null space. -/
def Ledger.Admissible (regular : Prop) (l : Ledger n m) : Operation n → Prop
  | .reset free => free.length ≤ n
  | .addRow a => 0 < l.factors.nNull ∧ l.factors.nActive < min n m ∧ (regular →
    ∃ j, j < l.factors.nNull ∧ coord l.factors.nFree (restrict l.free a) l.factors.q j ≠ 0)
  | .removeRow p => p < l.factors.nActive
  | .swap a b => a < l.factors.nFree ∧ b < l.factors.nFree
  | .fixLast => 0 < l.factors.nNull ∧ (regular →
    ∃ j, j < l.factors.nNull ∧ l.factors.q (l.factors.nFree - 1) j ≠ 0)
  | .free _ => l.factors.nFree < n

/-- What an operation does to the factors, and what becomes of rows and variables. A row that enters,
and the row of `Q` of a variable that becomes fixed, are concentrated first. -/
noncomputable def Ledger.step (l : Ledger n m) : Operation n → Option (Ledger n m)
  | .reset free => return ⟨← l.factors.reset? free.length, [], free⟩
  | .addRow a => do
    let row ← l.factors.rowTimesQ? (Tuple.ofFn l.free.length (restrict l.free a))
    let (gs, row) ← l.factors.concentrate? row
    return ⟨← (l.factors.turnZ gs).appendRow? row, l.rows ++ [a], l.free⟩
  | .removeRow p => return ⟨← l.factors.removeRow? p, l.rows.eraseIdx p, l.free⟩
  | .swap a b => return ⟨← l.factors.swapRows? a b, l.rows, exchange l.free a b⟩
  | .fixLast => do
    let row ← l.factors.row? (l.factors.nFree - 1)
    let (gs, _) ← l.factors.concentrate? row
    return ⟨← (l.factors.turnZ gs).removeLastRow?, l.rows, l.free.dropLast⟩
  | .free i => do
    let column : Tuple ℝ l.rows.length :=
      Tuple.ofFn _ fun c => (l.rows[c]?.map fun a => a i).getD 0
    let (factors, _) ← l.factors.appendFreeRow? column
    return ⟨factors, l.rows, l.free ++ [i]⟩

/-- The ledgers to which admissible operations lead, from empty factors on. -/
inductive History (n m : ℕ) (regular : Prop) : Ledger n m → Prop
  | start : History n m regular ⟨.empty n m, [], []⟩
  | step {l l' : Ledger n m} (op : Operation n) (h : History n m regular l)
    (hop : l.Admissible regular op) (hstep : l.step op = some l') : History n m regular l'

/-! ## Entries -/

section Entries

variable {l l' : Ledger n m}

theorem restrict_congr {free free' : List (Fin n)} {p p' : ℕ} (h : free'[p']? = free[p]?)
    (a : Fin n → ℝ) : restrict free' a p' = restrict free a p := by
  unfold restrict
  rw [h]

theorem restrict_concat (free : List (Fin n)) (i : Fin n) (a : Fin n → ℝ) :
    restrict (free ++ [i]) a free.length = a i := by
  unfold restrict
  rw [List.getElem?_concat_length]
  rfl

/-- An entry depends on the row and the variable at its place. -/
theorem Ledger.matrix_congr {c c' p p' : ℕ} (hrows : l'.rows[c']? = l.rows[c]?)
    (hfree : l'.free[p']? = l.free[p]?) : l'.matrix c' p' = l.matrix c p := by
  unfold Ledger.matrix
  simp only [hrows, restrict_congr hfree]

theorem length_exchange {α : Type} (l : List α) (a b : ℕ) :
    (exchange l a b).length = l.length := by
  unfold exchange
  split
  · rw [List.length_set, List.length_set]
  · rfl

theorem getElem?_exchange {α : Type} {l : List α} {a b : ℕ} (ha : a < l.length)
    (hb : b < l.length) (p : ℕ) : (exchange l a b)[p]? = l[swapped a b p]? := by
  unfold exchange swapped
  rw [List.getElem?_eq_getElem ha, List.getElem?_eq_getElem hb]
  dsimp only
  rw [List.getElem?_set, List.getElem?_set, List.length_set]
  by_cases hpb : b = p
  · subst hpb
    rw [if_pos rfl, if_pos hb]
    by_cases hab : b = a
    · subst hab
      rw [if_pos rfl, List.getElem?_eq_getElem hb]
    · rw [if_neg hab, if_pos rfl, List.getElem?_eq_getElem ha]
  rw [if_neg hpb]
  by_cases hpa : a = p
  · subst hpa
    rw [if_pos rfl, if_pos ha, if_pos rfl, List.getElem?_eq_getElem hb]
  · rw [if_neg hpa, if_neg (Ne.symm hpa), if_neg (Ne.symm hpb)]

end Entries

/-! ## One operation -/

variable {regular : Prop} {l : Ledger n m}

/-- The factors of a ledger are those of its matrix. -/
structure Ledger.Tracks (regular : Prop) (l : Ledger n m) : Prop where
  nFree_eq : l.factors.nFree = l.free.length
  nActive_eq : l.factors.nActive = l.rows.length
  factors : l.factors.FactorsIf regular l.matrix

/-- A row that has a part in the null space keeps it when it is concentrated. -/
theorem concentrated_ne {f : NullSpace ℝ n m} {count : ℕ} {row row' : Tuple ℝ count}
    {gs : List (Rotation ℝ)} (h : f.concentrate? row = some (gs, row')) (hcount : f.nNull ≤ count)
    (hne : ∃ j, j < f.nNull ∧ row j ≠ 0) : row' (f.nNull - 1) ≠ 0 := by
  obtain ⟨-, -, -, -, -, hlast⟩ := concentrate?_spec h hcount
  obtain ⟨j, hj, hne⟩ := hne
  refine hlast (lt_of_le_of_ne (norm_nonneg _ _) fun hzero => hne ?_)
  exact (norm_eq_zero_iff _ _).1 hzero.symm j hj

theorem Ledger.Tracks.addRow (h : l.Tracks regular) {a : Fin n → ℝ}
    (hop : l.Admissible regular (.addRow a)) :
    ∃ l', l.step (.addRow a) = some l' ∧ l'.Tracks regular := by
  obtain ⟨hnFree, hnActive, hf⟩ := h
  obtain ⟨hnull, hcapacity, hregular⟩ := hop
  have hsum := l.factors.nNull_add
  have hrow := rowTimesQ?_of (f := l.factors) (Tuple.ofFn l.free.length (restrict l.free a))
    hnFree.symm
  generalize htuple : (Tuple.ofFn l.free.length fun j => sum l.free.length fun p =>
    (Tuple.ofFn l.free.length (restrict l.free a)) p * l.factors.q p j) = row at hrow
  -- the row in the coordinates of the basis
  have hcoord : ∀ j, j < l.factors.nFree →
      row j = coord l.factors.nFree (restrict l.free a) l.factors.q j := by
    intro j hj
    rw [← htuple, Tuple.ofFn_apply (by omega), sum_eq_sum, hnFree]
    exact Finset.sum_congr rfl fun p hp => by rw [Tuple.ofFn_apply (mem_range.1 hp)]
  obtain ⟨gs, row', hconcentrate, -⟩ := concentrate?_of row hnull (by omega)
  obtain ⟨-, hgs, hproper, hturn, hzero, -⟩ := concentrate?_spec hconcentrate (by omega)
  obtain ⟨f, happend, hfree, hactive⟩ := appendRow?_of (f := l.factors.turnZ gs) row' hnFree.symm
    hcapacity (show l.factors.nActive < l.factors.nFree by omega)
  have hturned := hf.turnZ hproper (by omega)
  refine ⟨⟨f, l.rows ++ [a], l.free⟩, ?_, ?_⟩
  · simp only [Ledger.step, hrow, Option.bind_eq_bind, Option.bind_some, hconcentrate, happend]
    rfl
  · refine ⟨hfree.trans hnFree, ?_, hturned.appendRow happend (fun c p hc _ => ?_) (fun j hj => ?_)
      hzero fun hr => ?_⟩
    · rw [List.length_append, ← hnActive]
      exact hactive
    · exact Ledger.matrix_congr (List.getElem?_append_left (hnActive ▸ hc)) rfl
    · rw [nFree_turnZ] at hj
      have hlast : Ledger.matrix ⟨f, l.rows ++ [a], l.free⟩ l.factors.nActive =
          restrict l.free a := by
        funext p
        unfold Ledger.matrix
        rw [hnActive, List.getElem?_concat_length]
        rfl
      show row' j = coord l.factors.nFree _ _ j
      -- the coordinates are turned as the basis is
      rw [nActive_turnZ, hlast, hturn j (by omega),
        coord_congr (fun _ _ => rfl) fun p hp => congrFun (turnZ_row (by omega) hp) j,
        coord_turnAll]
      exact turnAll_congr (d := l.factors.nFree) (by omega) hcoord j hj
    · obtain ⟨j, hj, hne⟩ := hregular hr
      have hjFree : j < l.factors.nFree := by omega
      rw [nNull_turnZ]
      exact concentrated_ne hconcentrate (by omega) ⟨j, hj, by rwa [hcoord j hjFree]⟩

theorem Ledger.Tracks.removeRow (h : l.Tracks regular) {p : ℕ}
    (hop : l.Admissible regular (.removeRow p)) :
    ∃ l', l.step (.removeRow p) = some l' ∧ l'.Tracks regular := by
  obtain ⟨hnFree, hnActive, hf⟩ := h
  have hp : p < l.factors.nActive := hop
  obtain ⟨f, hrun, -⟩ := removeRow?_of hp
  obtain ⟨hfree, hactive, -, hfactors⟩ := hf.removeRow hrun
    (B := Ledger.matrix ⟨f, l.rows.eraseIdx p, l.free⟩) fun c r _ _ =>
      Ledger.matrix_congr (by rw [List.getElem?_eraseIdx]; split <;> rfl) rfl
  refine ⟨⟨f, l.rows.eraseIdx p, l.free⟩, ?_, hfree.trans hnFree, ?_, hfactors⟩
  · simp only [Ledger.step, hrun]
    rfl
  · rw [List.length_eraseIdx_of_lt (by omega)]
    show f.nActive = _
    omega

theorem Ledger.Tracks.swap (h : l.Tracks regular) {a b : ℕ}
    (hop : l.Admissible regular (.swap a b)) :
    ∃ l', l.step (.swap a b) = some l' ∧ l'.Tracks regular := by
  obtain ⟨hnFree, hnActive, hf⟩ := h
  obtain ⟨ha, hb⟩ := hop
  have hle := l.factors.nFree_le
  obtain ⟨f, hrun, -⟩ := swapRows?_of (f := l.factors) (show a < n by omega) (show b < n by omega)
  obtain ⟨hfree, hactive, -, hfactors⟩ := hf.swapRows hrun ha hb
    (B := Ledger.matrix ⟨f, l.rows, exchange l.free a b⟩) fun c p _ _ =>
      Ledger.matrix_congr rfl (getElem?_exchange (by omega) (by omega) p)
  refine ⟨⟨f, l.rows, exchange l.free a b⟩, ?_, ?_, hactive.trans hnActive, hfactors⟩
  · simp only [Ledger.step, hrun]
    rfl
  · rw [length_exchange]
    exact hfree.trans hnFree

theorem Ledger.Tracks.fixLast (h : l.Tracks regular)
    (hop : l.Admissible regular (.fixLast)) :
    ∃ l', l.step .fixLast = some l' ∧ l'.Tracks regular := by
  obtain ⟨hnFree, hnActive, hf⟩ := h
  obtain ⟨hnull, hregular⟩ := hop
  have hsum := l.factors.nNull_add
  have hle := l.factors.nFree_le
  have hrow := l.factors.row?_of_lt (show l.factors.nFree - 1 < n by omega)
  generalize htuple : (Tuple.ofFn l.factors.nFree fun j =>
    l.factors.q (l.factors.nFree - 1) j) = row at hrow
  have hentry : ∀ j, j < l.factors.nFree → row j = l.factors.q (l.factors.nFree - 1) j := by
    intro j hj
    rw [← htuple, Tuple.ofFn_apply hj]
  obtain ⟨gs, row', hconcentrate, -⟩ := concentrate?_of row hnull (by omega)
  obtain ⟨-, hgs, hproper, hturn, hzero, -⟩ := concentrate?_spec hconcentrate (by omega)
  obtain ⟨f, hremove, -⟩ := removeLastRow?_of (f := l.factors.turnZ gs)
    (show l.factors.nActive < l.factors.nFree by omega)
  have hturned := hf.turnZ hproper (by omega)
  -- the last row of the rotated `Q` is the concentrated row
  have hlast : ∀ j, j < l.factors.nFree →
      (l.factors.turnZ gs).q (l.factors.nFree - 1) j = row' j := by
    intro j hj
    rw [turnZ_row (by omega) (by omega), hturn j (by omega)]
    exact turnAll_congr (d := l.factors.nFree) (by omega) (fun j hj => (hentry j hj).symm) j hj
  obtain ⟨hfree, hactive, -, hfactors⟩ := hturned.removeLastRow hremove
    (B := Ledger.matrix ⟨f, l.rows, l.free.dropLast⟩)
    (fun j hj => by
      have hj : j + 1 < l.factors.nNull := hj
      rw [nFree_turnZ, hlast j (by omega)]
      exact hzero j hj)
    (fun hr => by
      obtain ⟨j, hj, hne⟩ := hregular hr
      rw [nFree_turnZ, nNull_turnZ, hlast _ (by omega)]
      exact concentrated_ne hconcentrate (by omega) ⟨j, hj, by rwa [hentry j (by omega)]⟩)
    (fun c p _ hp => by
      have hp : p < l.factors.nFree - 1 := hp
      refine Ledger.matrix_congr rfl ?_
      rw [List.getElem?_dropLast, if_pos (by omega)])
  rw [nFree_turnZ] at hfree
  refine ⟨⟨f, l.rows, l.free.dropLast⟩, ?_, ?_, hactive.trans hnActive, hfactors⟩
  · simp only [Ledger.step, hrow, Option.bind_eq_bind, Option.bind_some, hconcentrate, hremove]
    rfl
  · rw [List.length_dropLast]
    show f.nFree = _
    omega

theorem Ledger.Tracks.free (h : l.Tracks regular) {i : Fin n}
    (hop : l.Admissible regular (.free i)) :
    ∃ l', l.step (.free i) = some l' ∧ l'.Tracks regular := by
  obtain ⟨hnFree, hnActive, hf⟩ := h
  have hn : l.factors.nFree < n := hop
  obtain ⟨f, column, hrun, -⟩ := appendFreeRow?_of (f := l.factors) (Tuple.ofFn l.rows.length
    fun c => (l.rows[c]?.map fun a => a i).getD 0) hnActive.symm hn
  obtain ⟨hfree, hactive, -, -, -, hfactors⟩ := hf.appendFreeRow hrun
    (B := Ledger.matrix ⟨f, l.rows, l.free ++ [i]⟩)
    (fun c p _ hp => Ledger.matrix_congr rfl (List.getElem?_append_left (hnFree ▸ hp)))
    (fun c hc => by
      rw [Tuple.ofFn_apply (by omega), hnFree]
      unfold Ledger.matrix
      simp only [restrict_concat])
  refine ⟨⟨f, l.rows, l.free ++ [i]⟩, ?_, ?_, hactive.trans hnActive, hfactors⟩
  · simp only [Ledger.step, hrun]
    rfl
  · rw [List.length_append, ← hnFree]
    exact hfree

/-- An admissible operation has a value, and the factors follow the matrix. -/
theorem Ledger.Tracks.step (h : l.Tracks regular) {op : Operation n}
    (hop : l.Admissible regular op) : ∃ l', l.step op = some l' ∧ l'.Tracks regular := by
  cases op with
  | reset free =>
    obtain ⟨f, hrun, hfree, hactive⟩ := reset?_of (f := l.factors) (show free.length ≤ n from hop)
    refine ⟨⟨f, [], free⟩, ?_, hfree, hactive, factorsIf_reset hrun⟩
    simp only [Ledger.step, hrun]
    rfl
  | addRow a => exact h.addRow hop
  | removeRow p => exact h.removeRow hop
  | swap a b => exact h.swap hop
  | fixLast => exact h.fixLast hop
  | free i => exact h.free hop

theorem History.tracks (h : History n m regular l) : l.Tracks regular := by
  induction h with
  | start =>
    exact ⟨rfl, rfl, ⟨⟨rfl, fun _ _ hi => absurd hi (Nat.not_lt_zero _), nofun, nofun⟩, nofun,
      fun _ => nofun⟩⟩
  | step op _ hop hstep ih =>
    obtain ⟨l', hrun, htracks⟩ := ih.step hop
    rw [hstep] at hrun
    cases hrun
    exact htracks

end NullSpace

-- ---------------------------------------------------------------------------
-- The factors after a history
-- ---------------------------------------------------------------------------

open NullSpace

/-- After any sequence of admissible operations the factors are those of the matrix on record, and
every further admissible operation has a value. There is no zero on the antidiagonal of `T` if the
history is regular. Of the column that comes with a variable that becomes free nothing is left. -/
theorem null_space_tracks (n m : ℕ) (regular : Prop) (l : NullSpace.Ledger n m)
    (h : History n m regular l) :
    (l.factors.nFree = l.free.length ∧ l.factors.nActive = l.rows.length ∧
        l.factors.FactorsIf regular l.matrix) ∧
      (∀ op : Operation n, l.Admissible regular op →
        ∃ l', l.step op = some l' ∧ History n m regular l') ∧
      ∀ {k : ℕ} (column left : Tuple ℝ k) (f : NullSpace ℝ n m),
        l.factors.appendFreeRow? column = some (f, left) → ∀ c, c < k → left c = 0 := by
  have htracks := h.tracks
  refine ⟨⟨htracks.nFree_eq, htracks.nActive_eq, htracks.factors⟩, fun op hop => ?_,
    fun {k} column left f hrun c hc => ?_⟩
  · obtain ⟨l', hstep, -⟩ := htracks.step hop
    -- an admissible operation can be made, and gives a history again
    exact ⟨l', hstep, .step op h hop hstep⟩
  · -- the column that a free variable brings along is absorbed whole
    have hk : k = l.factors.nActive := by
      unfold appendFreeRow? at hrun
      split at hrun
      · next hroom => exact hroom.1
      · cases hrun
    obtain ⟨-, -, -, -, hleft, -⟩ := htracks.factors.appendFreeRow hrun
      (B := fun c p => if p = l.factors.nFree then column c else l.matrix c p)
      (fun c p _ hp => if_neg (by omega)) fun c _ => if_pos rfl
    exact hleft c (by omega)

/-- The plane with one row, `(3, 4)`: the entry of `T` is the length of the row, up to its sign. -/
theorem null_space_tracks_plane : ∃ l : NullSpace.Ledger 2 1, History 2 1 True l ∧
    l.rows = [![3, 4]] ∧ l.free = [0, 1] ∧ l.factors.t 0 0 * l.factors.t 0 0 = 25 := by
  -- with two free variables and no row yet, the row (3, 4) can be added
  obtain ⟨f, hreset, hfree, hactive⟩ :=
    reset?_of (f := NullSpace.empty (K := ℝ) 2 1) (show 2 ≤ 2 from le_rfl)
  have hplane : History 2 1 True ⟨f, [], [0, 1]⟩ :=
    History.start.step (.reset [0, 1]) (show 2 ≤ 2 from le_rfl) (by
      simp only [Ledger.step, List.length_cons, List.length_nil, hreset]
      rfl)
  have hsum := f.nNull_add
  have hadmissible : Ledger.Admissible True ⟨f, [], [0, 1]⟩ (.addRow ![3, 4]) := by
    refine ⟨show 0 < f.nNull by omega, show f.nActive < 1 by omega, fun _ =>
      ⟨0, show 0 < f.nNull by omega, ?_⟩⟩
    show coord f.nFree _ _ 0 ≠ 0
    rw [hfree]
    unfold coord
    rw [sum_range_succ, sum_range_one, reset?_apply hreset (by omega) (by omega),
      reset?_apply hreset (by omega) (by omega)]
    norm_num [NullSpace.restrict]
  obtain ⟨-, hsteps, -⟩ := null_space_tracks 2 1 True _ hplane
  obtain ⟨l, hstep, hl⟩ := hsteps _ hadmissible
  have hrecord : l.rows = [![3, 4]] ∧ l.free = [0, 1] := by
    simp only [Ledger.step, Option.bind_eq_bind, Option.bind_eq_some_iff] at hstep
    obtain ⟨_, -, _, -, _, -, hl⟩ := hstep
    cases hl
    exact ⟨rfl, rfl⟩
  -- after the step the factors are those of this row alone
  obtain ⟨hrows, hlist⟩ := hrecord
  obtain ⟨⟨hnFree, hnActive, hfactors⟩, -⟩ := null_space_tracks 2 1 True l hl
  rw [hlist, List.length_cons, List.length_singleton] at hnFree
  rw [hrows, List.length_singleton] at hnActive
  have hnull : l.factors.nNull = 1 := by
    have := l.factors.nNull_add
    omega
  -- its coordinates are zero and the entry of `T`, so that entry is its length up to the sign
  have hzero := hfactors.null 0 0 (by omega) (by omega)
  have hentry := hfactors.range 0 0 (by omega) (by omega)
  have hthree := hfactors.orthonormal.expand (l.matrix 0) (show 0 < l.factors.nFree by omega)
  have hfour := hfactors.orthonormal.expand (l.matrix 0) (show 1 < l.factors.nFree by omega)
  have hunit := hfactors.orthonormal 1 1 (by omega) (by omega)
  rw [hnFree] at hzero hentry hthree hfour hunit
  rw [hnull] at hentry
  rw [sum_range_succ, sum_range_one, hzero, hentry, zero_mul, zero_add] at hthree hfour
  rw [sum_range_succ, sum_range_one, if_pos rfl] at hunit
  have hmatrix : l.matrix 0 0 = 3 ∧ l.matrix 0 1 = 4 := by
    unfold Ledger.matrix
    rw [hrows, hlist]
    exact ⟨rfl, rfl⟩
  rw [hmatrix.1] at hthree
  rw [hmatrix.2] at hfour
  refine ⟨l, hl, hrows, hlist, ?_⟩
  have hlength : l.factors.t 0 0 * l.factors.t 0 0 * (l.factors.q 0 1 * l.factors.q 0 1 +
      l.factors.q 1 1 * l.factors.q 1 1) = 3 * 3 + 4 * 4 := by
    rw [← hthree, ← hfour]
    ring
  rw [hunit, mul_one] at hlength
  rw [hlength]
  norm_num

end ActiveSet
