import ActiveSet.Proofs.Factor.Pivots
import ActiveSet.Proofs.Solver.Box
import ActiveSet.Proofs.Solver.Constrained.Direction

/-!
# Directions that can be determined

A direction is found if the pivots of the factorizations are large enough, whatever the right-hand sides of
its systems are. So from a state in which one direction has been found all others can be found as well.

* `Constrained.Solvable`: the pivots of both factorizations are large enough.
* `Directed.solvable`, `Solvable.directed`, `Box.directed_of_solvable`: that is where a direction is found.
-/

namespace ActiveSet

variable {K : Type} [Scalar K] {n m : ℕ}

-- ---------------------------------------------------------------------------
-- With constraints
-- ---------------------------------------------------------------------------

namespace Constrained

variable {s s' : Constrained K n m}

/-- No pivot of the factorizations is too small to divide by. -/
structure Solvable (s : Constrained K n m) : Prop where
  nullSpace : s.nullSpace.Solvable s.parameters.epsZero
  factor : s.factor.Solvable s.parameters.epsZero

/-- Where one direction has been found, the systems of all others can be solved. -/
theorem Directed.solvable (h : s.Directed s') (hs : s.InStep) : s.Solvable := by
  obtain ⟨s1, s2, s3, hrange, hnull, h2, h3, -⟩ := h.stages
  constructor
  · obtain ⟨dx, dy, tilt, dax, rfl⟩ := hnull
    cases h3 with
    | intro hw => exact (NullSpace.solveTT?_ok_iff hs.nActive_eq.symm).1 ⟨_, hw⟩
  · obtain ⟨dx, dy, tilt, dax, rfl⟩ := hrange
    obtain ⟨-, h2⟩ | ⟨hzero, -⟩ := h2
    · cases h2 with
      | intro hz hw => exact (Cholesky.solveRT?_ok_iff hs.dim_eq.symm).1 ⟨_, hz⟩
    · intro i hi
      rw [hs.dim_eq, hzero] at hi
      exact absurd hi (Nat.not_lt_zero i)

theorem Solvable.not_unsolved (h : s.Solvable) (hs : s.InStep) : ¬s.Unsolved := by
  intro hunsolved
  cases hunsolved with
  | @range b x f hf =>
    obtain ⟨w, hw⟩ := (NullSpace.solveT?_ok_iff (b := b) (x := x) hs.nActive_eq.symm).2 h.nullSpace
    rw [hw] at hf
    cases hf
  | @lower b f hf =>
    obtain ⟨w, hw⟩ := (Cholesky.solveRT?_ok_iff (b := b) hs.dim_eq.symm).2 h.factor
    rw [hw] at hf
    cases hf
  | @upper b f hf =>
    obtain ⟨w, hw⟩ := (Cholesky.solveR?_ok_iff (b := b) hs.dim_eq.symm).2 h.factor
    rw [hw] at hf
    cases hf
  | @multiplier b x f hf =>
    obtain ⟨w, hw⟩ := (NullSpace.solveTT?_ok_iff (b := b) (x := x) hs.nActive_eq.symm).2 h.nullSpace
    rw [hw] at hf
    cases hf

/-- Where the systems can be solved, a direction is found. -/
theorem Solvable.directed (h : s.Solvable) (hs : s.InStep) :
    ∃ s', determineDirection s = .ok () s' ∧ s.Directed s' := by
  obtain ⟨⟨⟩, s', hrun, hdirected⟩ := ((determineDirection_ensures hs).mono (fun _ _ h => h)
    fun _ _ hf => h.not_unsolved hs hf.2.2).exists_ok
  exact ⟨s', hrun, hdirected⟩

end Constrained

-- ---------------------------------------------------------------------------
-- For bounds only
-- ---------------------------------------------------------------------------

namespace Box

variable {s s' : Box K n}

theorem Directed.solvable (h : s.Directed s') (hs : s.InStep) :
    s.factor.Solvable s.parameters.epsZero := by
  cases h with
  | intro hz hw => exact (Cholesky.solveRT?_ok_iff hs.dim_eq.symm).1 ⟨_, hz⟩

theorem not_unsolved_of_solvable (h : s.factor.Solvable s.parameters.epsZero) (hs : s.InStep) :
    ¬s.Unsolved := by
  rintro (⟨f, hf⟩ | ⟨z, f, hf⟩)
  · obtain ⟨w, hw⟩ := (Cholesky.solveRT?_ok_iff
      (b := freeRhs s.fixedDirection.withTilt) hs.dim_eq.symm).2 h
    rw [hw] at hf
    cases hf
  · obtain ⟨w, hw⟩ := (Cholesky.solveR?_ok_iff (b := z) hs.dim_eq.symm).2 h
    rw [hw] at hf
    cases hf

/-- Where the systems can be solved, a direction is found. -/
theorem directed_of_solvable (h : s.factor.Solvable s.parameters.epsZero) (hs : s.InStep) :
    ∃ s', determineDirection s = .ok () s' ∧ s.Directed s' ∧ ∃ dx dy tilt, s' = { s with dx, dy, tilt } := by
  obtain ⟨⟨⟩, s', hrun, hdirected⟩ := ((determineDirection_ensures hs).mono (fun _ _ h => h)
    fun _ _ hf => not_unsolved_of_solvable h hs hf.2.1).exists_ok
  exact ⟨s', hrun, hdirected⟩

end Box

end ActiveSet
