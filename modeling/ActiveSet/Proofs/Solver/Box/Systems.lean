import ActiveSet.Proofs.Factor.Definite
import ActiveSet.Proofs.Solver.Box.Factored
import ActiveSet.Proofs.Solver.FreeVariables
import ActiveSet.Proofs.Solver.Solvability

/-!
# Systems of a solver for bounds

The factor of a solver for bounds is that of the objective's matrix over the free variables, in their
order. So what it is used for are the systems over the free variables: their solutions are unique
(`Factored.freeRegular`), the direction is one of them (`Directed.tracks`), and whether a variable can
become free is a question of its pivot (`Ready.append?_decided`).
-/

namespace ActiveSet.Box

open Finset

variable {n : ℕ} {s s' : Box ℝ n}

/-- Over the free variables, the matrix of the factor is that of the objective. -/
theorem sum_freeHessian (hs : s.InStep) {v : ℕ → ℝ}
    (hv : ∀ i : Fin n, s.bounds.isActive i = true → v i = 0) {p : ℕ} (hp : p < s.free.length) :
    ∑ r ∈ range s.free.length, s.freeHessian p r * gather s.free v r =
      ∑ k ∈ range n, s.hessian s.free[p] k * v k := by
  rw [Core.sum_free hs.toFreeInStep fun i hi => by rw [hv i hi, mul_zero]]
  refine Finset.sum_congr rfl fun r _ => ?_
  rw [gather_mul, freeHessian, gather_of_lt hp]

/-- Systems over the free variables have one solution. -/
theorem Factored.freeRegular (hf : s.Factored) (hs : s.InStep) : Core.FreeRegular s := by
  intro v hv hfree i
  by_cases hi : s.bounds.isActive i = true
  · exact hv i hi
  obtain ⟨p, hp, hpi⟩ := List.mem_iff_getElem.1 ((hs.listed.mem_iff i).2 (by simpa using hi))
  have hzero := hf.triangular.eq_zero (v := gather s.free v) (fun r hr => by
    rw [hs.dim_eq] at hr ⊢
    rw [sum_freeHessian hs hv hr]
    exact hfree _ ((hs.listed.mem_iff _).1 (List.getElem_mem hr))) p (hs.dim_eq ▸ hp)
  rwa [gather_of_lt hp, hpi] at hzero

/-- The system of a direction has been solved. -/
theorem Factored.sum_freeHessian_eq (hf : s.Factored) (hs : s.InStep) {b z w : Tuple ℝ s.free.length}
    (hz : s.factor.solveRT? s.parameters.epsZero b = some (.ok z))
    (hw : s.factor.solveR? s.parameters.epsZero z = some (.ok w)) {p : ℕ}
    (hp : p < s.free.length) : ∑ r ∈ range s.free.length, s.freeHessian p r * w r = b p := by
  have hsolved := hf.triangular.solves hz hw (hs.dim_eq ▸ hp)
  rwa [hs.dim_eq] at hsolved

/-- No pivot is zero, so without a tolerance none is too small. -/
theorem Ready.solvable (hs : s.Ready) (heps : s.parameters.epsZero = 0) :
    s.factor.Solvable s.parameters.epsZero := by
  have hdim := hs.inStep.dim_eq.symm
  rw [heps]
  exact (Cholesky.solveR?_ok_iff hdim).1
    (hs.factored.triangular.solveR?_ok hdim (Tuple.fill _ 0))

/-- Without a tolerance for them, the systems of a direction have solutions. -/
theorem Ready.solved (hs : s.Ready) (heps : s.parameters.epsZero = 0) : ¬s.Unsolved :=
  not_unsolved_of_solvable (hs.solvable heps) hs.inStep

/-- The change of the gradient of the objective with the direction of free variables. -/
theorem tilt_withFree (hsymm : s.SymmetricHessian) (z : Tuple ℝ s.free.length) (i : Fin n) :
    (withFree s z).tilt i =
      ∑ k ∈ range n, s.hessian i k * spread s.free (fun p _ => z p) s.dx k + s.shift.gradient i :=
  Core.withTilt_tilt (s := { s with dx := spread s.free (fun p _ => z p) s.dx }) hsymm i.isLt

/-- A direction of free variables leaves fixed ones where they are. -/
theorem spread_of_active (hs : s.InStep) (z : ℕ → ℝ) (x : Tuple ℝ n) {i : Fin n}
    (hi : s.bounds.isActive i = true) : spread s.free (fun p _ => z p) x i = x i := by
  refine spread_of_notMem (fun hmem => ?_) _ _
  rw [hs.listed.mem_iff, hi] at hmem
  cases hmem

/-- Free variables make up for what the fixed ones do to the gradient. -/
theorem Factored.tilt_withFree (hf : s.Factored) (hs : s.InStep) (hsymm : s.SymmetricHessian)
    (htilt : ∀ i : Fin n, s.tilt i = ∑ k ∈ range n, s.hessian i k * s.dx k + s.shift.gradient i)
    (hdx : ∀ i : Fin n, s.bounds.isActive i = false → s.dx i = 0)
    {z w : Tuple ℝ s.free.length}
    (hz : s.factor.solveRT? s.parameters.epsZero (freeRhs s) = some (.ok z))
    (hw : s.factor.solveR? s.parameters.epsZero z = some (.ok w)) {i : Fin n}
    (hi : s.bounds.isActive i = false) : (withFree s w).tilt i = 0 := by
  obtain ⟨p, hp, rfl⟩ := List.mem_iff_getElem.1 ((hs.listed.mem_iff i).2 hi)
  have hsolved := hf.sum_freeHessian_eq hs hz hw hp
  let v : Tuple ℝ n := spread s.free (fun p _ => w p) s.dx
  have hmoved := sum_freeHessian hs (v := fun k => v k - s.dx k)
    (fun i hi => sub_eq_zero.2 (spread_of_active hs _ _ hi)) hp
  -- only free variables move, and before the step they had not moved at all
  have hgather : ∀ r ∈ range s.free.length,
      s.freeHessian p r * gather s.free (fun k => v k - s.dx k) r = s.freeHessian p r * w r := by
    intro r hr
    have hr := mem_range.1 hr
    have hv : v s.free[r] = w r :=
      spread_of_getElem? hs.listed.nodup (List.getElem?_eq_getElem hr) _ _
    rw [gather_of_lt hr, hv, hdx _ ((hs.listed.mem_iff _).1 (List.getElem_mem hr)), sub_zero]
  have hrhs : freeRhs s p = -(∑ k ∈ range n, s.hessian s.free[p] k * s.dx k +
      s.shift.gradient s.free[p]) := by
    rw [freeRhs, Tuple.ofFn_apply hp, gather_of_lt hp, htilt]
  rw [Finset.sum_congr rfl hgather, hsolved, hrhs] at hmoved
  simp only [mul_sub, sum_sub_distrib] at hmoved
  rw [Box.tilt_withFree hsymm]
  linarith

/-- A direction follows the data. -/
theorem Directed.tracks (h : s.Directed s') (hs : s.InStep) (hf : s.Factored)
    (hsymm : s.SymmetricHessian) : Core.Tracks s' := by
  obtain ⟨hfixed, hdy⟩ := Core.fixedDirection_spec s
  cases h with
  | @intro z w hz hw =>
    let c : Box ℝ n := s.fixedDirection.withTilt
    have hstep : c.InStep := hs.congr rfl rfl rfl
    have htilt := tilt_withFree (s := c) hsymm w
    -- the step balances the gradient in the free variables, and the multipliers do in the others
    have hfree : ∀ i : Fin n, s.bounds.isActive i = false → (withFree c w).tilt i = 0 :=
      fun i hi => Factored.tilt_withFree (s := c) ⟨hf.triangular, hf.positive⟩ hstep hsymm
        (fun i => Core.withTilt_tilt (s := s.fixedDirection) hsymm i.isLt)
        (fun i hi => (hfixed i).trans (if_neg fun h => absurd (hi.symm.trans h) Bool.false_ne_true))
        hz hw hi
    have hdual : ∀ i : Fin n, (withFree c w).withMultipliers.dy.bound i =
        if s.bounds.isActive i = true then (withFree c w).tilt i else 0 := by
      intro i
      show (Tuple.ofFn n fun i => _ : Tuple ℝ n) i = _
      rw [Tuple.ofFn_apply i.isLt]
      congr 1
      exact hdy (.bound i)
    refine ⟨fun i hi => ?_, fun i => ?_, fun i hi => ?_⟩
    · exact (spread_of_active (s := c) hstep w c.dx hi).trans ((hfixed i).trans (if_pos hi))
    · refine (htilt i).symm.trans (Eq.trans ?_ (hdual i).symm)
      split
      · rfl
      · next hi => exact hfree i (by simpa using hi)
    · exact (hdual i).trans (if_neg fun h => absurd (hi.symm.trans h) Bool.false_ne_true)

/-- Whether a fixed variable can become free depends on its pivot. -/
theorem Ready.append?_decided (h : s.Ready) {i : Fin n} (hi : s.bounds.isActive i = true)
    (heps : s.parameters.epsZero = 0) :
    ∃ a, Core.Pivot s i a ∧ Cholesky.DecidedBy a s.parameters.epsDefinite
      (s.factor.append? (s.newColumn i) (s.hessian i i) s.parameters.epsDefinite
        s.parameters.epsZero) := by
  obtain ⟨hs, hf, hsymm⟩ := h
  have hlt : s.factor.dim < n := hs.dim_eq ▸ hs.length_free_lt hi
  obtain ⟨w, hw, hdecided⟩ := hf.triangular.append?_decided hlt hs.dim_eq.symm (s.newColumn i)
    (s.hessian i i) s.parameters.epsDefinite
  rw [hs.dim_eq] at hw hdecided
  rw [heps]
  refine ⟨_, ?_, hdecided⟩
  -- the new variable moves by one, and the others make up for it
  obtain ⟨hold, hcolumn, hrow, hdiagonal⟩ := bordered hs.dim_eq hsymm i
  rw [hs.dim_eq] at hold hcolumn hrow hdiagonal
  let v : ℕ → ℝ := fun p => if p = s.free.length then 1 else -w p
  have hone : v s.free.length = 1 := if_pos rfl
  have hv : ∀ p ∈ range s.free.length, v p = -w p := fun p hp => if_neg (mem_range.1 hp).ne
  have hpivot := Core.Pivot.of_bordered hs.toFreeInStep hi (v := v) (fun _ _ => rfl) hone
    fun p hp => by
      change ∑ r ∈ range (s.free.length + 1),
        freeHessian { s with free := s.free ++ [i] } p r * v r = 0
      rw [sum_range_succ, hone, mul_one, hcolumn p hp, ← hw p hp, ← sum_add_distrib]
      refine sum_eq_zero fun r hr => ?_
      rw [hold p r hp (mem_range.1 hr), hv r hr]
      ring
  refine (congrArg (Core.Pivot s i) ?_).mp hpivot
  change ∑ r ∈ range (s.free.length + 1), freeHessian { s with free := s.free ++ [i] }
    s.free.length r * v r = _
  rw [sum_range_succ, hone, mul_one, hdiagonal, add_comm, sub_eq_add_neg, ← sum_neg_distrib]
  congr 1
  refine Finset.sum_congr rfl fun r hr => ?_
  have hlt := mem_range.1 hr
  rw [hrow r hlt, hcolumn r hlt, hv r hr, mul_neg]

end ActiveSet.Box
