import ActiveSet.Factor.NullSpace

/-!
# Dimensions of the factorizations

Every operation of a factorization that has a requirement on dimensions has a value where the
requirement holds, and its result has the dimension that follows from the change. Where there is a
result, it is one that the operation computes (`Cholesky.factorize?_eq_ok`, `Cholesky.append?_eq_ok`).
Nothing here depends on the numbers, so the lemmas hold for any arithmetic.
-/

namespace ActiveSet

variable {K : Type} [Scalar K] {n m k : Nat}

namespace Cholesky

variable {f : Cholesky K n}

theorem identity?_of {d : Nat} (h : d ≤ n) : ∃ f', f.identity? d = some f' ∧ f'.dim = d := by
  unfold identity?
  rw [dif_pos h]
  exact ⟨_, rfl, rfl⟩

theorem factorize?_of {d : Nat} (mat : Nat → Nat → K) (tolerance : K) (h : d ≤ n) :
    (∃ f', f.factorize? d mat tolerance = some (.ok f') ∧ f'.dim = d) ∨
      ∃ e, f.factorize? d mat tolerance = some (.error e) := by
  unfold factorize?
  rw [dif_pos h]
  cases fillColumns mat tolerance d f.cleared with
  | ok G => exact .inl ⟨_, rfl, rfl⟩
  | error e => exact .inr ⟨_, rfl⟩

/-- A factor that was computed from scratch has the columns that were filled. -/
theorem factorize?_eq_ok {d : Nat} {mat : Nat → Nat → K} {tolerance : K} {f' : Cholesky K n}
    (h : f.factorize? d mat tolerance = some (.ok f')) :
    ∃ (hd : d ≤ n) (G : Grid K n n), fillColumns mat tolerance d f.cleared = .ok G ∧
      f' = ⟨G, d, hd⟩ := by
  unfold factorize? at h
  split at h
  next hd =>
    cases hfill : fillColumns mat tolerance d f.cleared with
    | error e =>
      rw [hfill] at h
      cases h
    | ok G =>
      rw [hfill] at h
      cases h
      exact ⟨hd, G, rfl, rfl⟩
  next => cases h

/-- Where a factorization fails, a column could not be filled, and nothing is left of the factor. -/
theorem factorize?_eq_error {d : Nat} {mat : Nat → Nat → K} {tolerance : K}
    {e : Failure (Cholesky K n)} (h : f.factorize? d mat tolerance = some (.error e)) :
    ∃ left, fillColumns mat tolerance d f.cleared = .error left ∧ e.error = left.error ∧
      e.left.dim = 0 := by
  unfold factorize? at h
  split at h
  next hd =>
    cases hfill : fillColumns mat tolerance d f.cleared with
    | error left =>
      rw [hfill] at h
      cases h
      exact ⟨left, rfl, rfl, rfl⟩
    | ok G =>
      rw [hfill] at h
      cases h
  next => cases h

theorem solveR?_of (tolerance : K) (b : Tuple K k) (h : k = f.dim) :
    f.solveR? tolerance b = some (backSubstitute tolerance f.entries b b) := by
  unfold solveR?
  rw [if_pos h]

theorem solveRT?_of (tolerance : K) (b : Tuple K k) (h : k = f.dim) :
    f.solveRT? tolerance b =
      some (forwardSubstitute tolerance (fun i j => f.entries j i) b b) := by
  unfold solveRT?
  rw [if_pos h]

theorem append?_of (col : Tuple K k) (diag pivotTolerance tolerance : K) (hn : f.dim < n)
    (hk : k = f.dim) :
    (∃ r f', f.append? col diag pivotTolerance tolerance = some (.ok (r, f')) ∧
        f'.dim = f.dim + 1) ∨
      ∃ e, f.append? col diag pivotTolerance tolerance = some (.error e) := by
  unfold append?
  rw [dif_pos hn, solveRT?_of tolerance col hk]
  cases forwardSubstitute tolerance (fun i j => f.entries j i) col col with
  | error e => exact .inr ⟨e, rfl⟩
  | ok r =>
    dsimp only
    split
    · exact .inr ⟨_, rfl⟩
    · exact .inl ⟨r, _, rfl, rfl⟩

/-- A factor that has been extended is bordered by the solution of a system and the root of a pivot above
the tolerance. -/
theorem append?_eq_ok {col r : Tuple K k} {diag pivotTolerance tolerance : K} {f' : Cholesky K n}
    (h : f.append? col diag pivotTolerance tolerance = some (.ok (r, f'))) :
    ∃ hn : f.dim < n, f.solveRT? tolerance col = some (.ok r) ∧
      ¬diag - dot k r r ≤ pivotTolerance ∧
      f' = ⟨f.bordered r (Scalar.sqrt (diag - dot k r r)), f.dim + 1, hn⟩ := by
  unfold append? at h
  split at h
  next hn =>
    split at h
    · cases h
    · cases h
    next hsolve =>
      dsimp only at h
      split at h
      · cases h
      next hpivot =>
        cases h
        exact ⟨hn, hsolve, hpivot, rfl⟩
  next => cases h

theorem removeColumn?_of {p : Nat} (h : p < f.dim) :
    ∃ f', f.removeColumn? p = some f' ∧ f'.dim = f.dim - 1 := by
  unfold removeColumn?
  rw [if_pos h]
  exact ⟨_, rfl, rfl⟩

theorem turnBasis?_of {j : Nat} (g : Rotation K) (h : j + 1 < f.dim) :
    ∃ f', f.turnBasis? j g = some f' ∧ f'.dim = f.dim := by
  unfold turnBasis?
  rw [if_pos h]
  exact ⟨_, rfl, rfl⟩

theorem turnBases?_of (gs : List (Rotation K)) : ∀ {f : Cholesky K n} (first : Nat),
    first + gs.length < f.dim → ∃ f', f.turnBases? first gs = some f' ∧ f'.dim = f.dim := by
  induction gs with
  | nil => exact fun _ _ => ⟨_, rfl, rfl⟩
  | cons g gs ih =>
    intro f first h
    rw [List.length_cons] at h
    obtain ⟨f1, hturn, hdim⟩ := turnBasis?_of (f := f) (j := first) g (by omega)
    obtain ⟨f', hrest, hdim'⟩ := ih (f := f1) (first + 1) (by omega)
    refine ⟨f', ?_, hdim'.trans hdim⟩
    rw [turnBases?, hturn]
    exact hrest

theorem dropLast?_of (h : 0 < f.dim) : ∃ f', f.dropLast? = some f' ∧ f'.dim = f.dim - 1 := by
  unfold dropLast?
  rw [if_pos h]
  exact ⟨_, rfl, rfl⟩

end Cholesky

namespace NullSpace

variable {f : NullSpace K n m}

theorem reset?_of (h : k ≤ n) :
    ∃ f', f.reset? k = some f' ∧ f'.nFree = k ∧ f'.nActive = 0 := by
  unfold reset?
  rw [dif_pos h]
  exact ⟨_, rfl, rfl, rfl⟩

theorem rowTimesQ?_of (a : Tuple K k) (h : k = f.nFree) :
    f.rowTimesQ? a = some (Tuple.ofFn k fun j => sum k fun p => a p * f.q p j) := by
  unfold rowTimesQ?
  rw [if_pos h]

/-- Concentrating a row takes one rotation less than the null space has dimensions. -/
theorem concentrate?_of (w : Tuple K k) (hz : 0 < f.nNull) (hk : f.nNull ≤ k) :
    ∃ gs w', f.concentrate? w = some (gs, w') ∧ gs.length = f.nNull - 1 := by
  unfold concentrate?
  rw [if_pos ⟨hz, .inr hk⟩]
  refine ⟨_, _, rfl, ?_⟩
  rw [Rotation.length_sweep]
  simp

@[simp] theorem nFree_turnZ (gs : List (Rotation K)) : (f.turnZ gs).nFree = f.nFree := rfl

@[simp] theorem nActive_turnZ (gs : List (Rotation K)) : (f.turnZ gs).nActive = f.nActive := rfl

@[simp] theorem nNull_turnZ (gs : List (Rotation K)) : (f.turnZ gs).nNull = f.nNull := rfl

theorem appendRow?_of (w : Tuple K k) (hk : k = f.nFree) (hm : f.nActive < min n m)
    (hz : f.nActive < f.nFree) :
    ∃ f', f.appendRow? w = some f' ∧ f'.nFree = f.nFree ∧ f'.nActive = f.nActive + 1 := by
  unfold appendRow?
  rw [dif_pos ⟨hk, hm, hz⟩]
  exact ⟨_, rfl, rfl, rfl⟩

theorem removeRow?_of {p : Nat} (h : p < f.nActive) :
    ∃ f', f.removeRow? p = some f' ∧ f'.nFree = f.nFree ∧ f'.nActive = f.nActive - 1 := by
  unfold removeRow?
  rw [if_pos h]
  exact ⟨_, rfl, rfl, rfl⟩

theorem swapRows?_of {a b : Nat} (ha : a < n) (hb : b < n) :
    ∃ f', f.swapRows? a b = some f' ∧ f'.nFree = f.nFree ∧ f'.nActive = f.nActive := by
  unfold swapRows?
  split
  · exact ⟨f, rfl, rfl, rfl⟩
  · rw [if_pos ⟨ha, hb⟩]
    exact ⟨_, rfl, rfl, rfl⟩

theorem removeLastRow?_of (h : f.nActive < f.nFree) :
    ∃ f', f.removeLastRow? = some f' ∧ f'.nFree = f.nFree - 1 ∧ f'.nActive = f.nActive := by
  unfold removeLastRow?
  rw [dif_pos h]
  exact ⟨_, rfl, rfl, rfl⟩

theorem appendFreeRow?_of (a : Tuple K k) (hk : k = f.nActive) (hn : f.nFree < n) :
    ∃ f' a', f.appendFreeRow? a = some (f', a') ∧ f'.nFree = f.nFree + 1 ∧
      f'.nActive = f.nActive := by
  unfold appendFreeRow?
  rw [dif_pos ⟨hk, hn⟩]
  exact ⟨_, _, rfl, rfl, rfl⟩

theorem solveT?_of (tolerance : K) (b x : Tuple K k) (h : k = f.nActive) :
    f.solveT? tolerance b x =
      some (backSubstitute tolerance (fun u j => f.t (k - 1 - u) j) (fun u => b (k - 1 - u)) x) := by
  unfold solveT?
  rw [if_pos h]

theorem solveTT?_of (tolerance : K) (b x : Tuple K k) (h : k = f.nActive) :
    f.solveTT? tolerance b x =
      some (backSubstitute tolerance (fun u i => f.t i (k - 1 - u)) (fun u => b (k - 1 - u)) x) := by
  unfold solveTT?
  rw [if_pos h]

end NullSpace

end ActiveSet
