import ActiveSet.Proofs.Endurance
import ActiveSet.Proofs.Factor.Definite
import ActiveSet.Proofs.Solver.Constrained.Changing
import ActiveSet.Proofs.Solver.Resumption
import ActiveSet.Proofs.Solver.Solvability

/-!
# Strictly convex problems with constraints

If the matrix of the objective is positive definite, so is its restriction to any null space, and
without tolerances no pivot of its factor is too small: neither when it is computed, nor when it is
extended by the direction that an entity gives back as it leaves, also in the middle of an exchange.
The systems with `T` and with the factor always have solutions. So none of the ways in which a step
can break down is left (`unbroken`).

* `Definite.gather`: the rows and columns of some of the variables.
* `Ready.solved`, `StrictlyConvex.extended`, `factorized`: systems, extensions and factorizations.
* `sturdy`: what this means for the parts of a call.
-/

namespace ActiveSet

open Finset

/-- The form of a vector that is zero where a list does not reach is one over the list. -/
theorem form_spread {n : ℕ} (h : ℕ → ℕ → ℝ) {l : List (Fin n)} (hl : l.Nodup) (v : ℕ → ℝ) :
    form n h (spread l (fun p _ => v p) (Tuple.fill n 0)) =
      form l.length (fun p r => ActiveSet.gather l (fun u => ActiveSet.gather l (h u) r) p) v := by
  unfold form
  simp only [sum_mul_spread_zero hl]
  let x : Tuple ℝ n := spread l (fun p _ => v p) (Tuple.fill n 0)
  calc ∑ i ∈ range n, x i * ∑ r ∈ range l.length, ActiveSet.gather l (h i) r * v r
      = ∑ i ∈ range n, (∑ r ∈ range l.length, ActiveSet.gather l (h i) r * v r) * x i :=
        Finset.sum_congr rfl fun i _ => mul_comm _ _
    _ = ∑ q ∈ range l.length, v q * ∑ r ∈ range l.length,
          ActiveSet.gather l (fun u => ActiveSet.gather l (h u) r) q * v r := by
        rw [sum_mul_spread_zero hl]
        refine Finset.sum_congr rfl fun q hq => ?_
        have hq := mem_range.1 hq
        rw [gather_of_lt hq, mul_comm]
        simp only [gather_of_lt hq]

/-- The rows and columns of a definite matrix that a list names are definite. -/
theorem Definite.gather {n : ℕ} {h : ℕ → ℕ → ℝ} (hdef : Definite n h) {l : List (Fin n)}
    (hl : l.Nodup) :
    Definite l.length fun p r => ActiveSet.gather l (fun u => ActiveSet.gather l (h u) r) p := by
  rintro v ⟨p, hp, hv⟩
  rw [← form_spread h hl]
  refine hdef _ ⟨l[p], (l[p]).isLt, ?_⟩
  have hentry := gather_spread hl hp (fun p _ => v p) (Tuple.fill n 0)
  rw [gather_of_lt hp] at hentry
  rw [hentry]
  exact hv

namespace Constrained

variable {n m : ℕ} {s s' : Constrained ℝ n m}

/-- The matrix of the objective is positive definite, and no comparison has a tolerance. -/
structure StrictlyConvex (s : Constrained ℝ n m) : Prop where
  definite : Definite n s.hessian
  epsZero_eq : s.parameters.epsZero = 0
  epsDefinite_eq : s.parameters.epsDefinite = 0
  epsDependent_eq : s.parameters.epsDependent = 0

theorem StrictlyConvex.congr (h : s.StrictlyConvex) (hsame : s.SameData s') :
    s'.StrictlyConvex := by
  refine ⟨?_, ?_, ?_, ?_⟩
  · rw [hsame.hessian]
    exact h.definite
  · rw [hsame.parameters]
    exact h.epsZero_eq
  · rw [hsame.parameters]
    exact h.epsDefinite_eq
  · rw [hsame.parameters]
    exact h.epsDependent_eq

theorem StrictlyConvex.tolerant (h : s.StrictlyConvex) : s.Tolerant :=
  ⟨h.epsDefinite_eq.ge, h.epsDependent_eq.ge⟩

/-- The matrix of the objective in the coordinates of the null space is definite. -/
theorem StrictlyConvex.reduced (h : s.StrictlyConvex) (hs : s.Listed)
    (hf : s.nullSpace.Factors s.activeEntry) : Definite s.nNull s.reduced := by
  have hnFree := hs.nFree_eq
  have hnull := hs.nNull_add
  have hfree : Definite s.nullSpace.nFree s.freeHessian := by
    rw [hnFree]
    exact h.definite.gather hs.listed.nodup
  exact hfree.quad hf.orthonormal (by omega)

-- ---------------------------------------------------------------------------
-- Systems and pivots
-- ---------------------------------------------------------------------------

/-- No pivot is zero, so without a tolerance none is too small. -/
theorem Ready.solvable (hs : s.Ready) (heps : s.parameters.epsZero = 0) : s.Solvable := by
  have hactive := hs.inStep.nActive_eq.symm
  have hdim := hs.inStep.dim_eq.symm
  constructor
  · rw [heps]
    exact (NullSpace.solveT?_ok_iff hactive).1
      (hs.factored.split.solveT?_ok hactive (Tuple.fill _ 0) (Tuple.fill _ 0))
  · rw [heps]
    exact (Cholesky.solveR?_ok_iff hdim).1
      (hs.factored.triangular.solveR?_ok hdim (Tuple.fill _ 0))

/-- Without a tolerance for them, the systems of a direction have solutions. -/
theorem Ready.solved (hs : s.Ready) (heps : s.parameters.epsZero = 0) : ¬s.Unsolved :=
  (hs.solvable heps).not_unsolved hs.inStep

/-- The coefficients of a dependent entity can be computed. -/
theorem Ready.determined (hs : s.Ready) (heps : s.parameters.epsZero = 0) {w : PreparedRow ℝ} :
    ¬s.Undetermined w := by
  rintro ⟨f, hfailed⟩
  obtain ⟨xi, hxi⟩ := hs.factored.split.solveTT?_ok hs.inStep.nActive_eq.symm
    (Tuple.ofFn s.active.length fun c => w.row (s.nNull + c)) (Tuple.fill _ 0)
  rw [heps, hxi] at hfailed
  cases hfailed

/-- The factor can be extended by a direction that the null space has gained. -/
theorem StrictlyConvex.extended (h : s.StrictlyConvex) (hs : s.Listed)
    (hsymm : s.SymmetricHessian) (hf : s.Factored) (hdim : s.factor.dim + 1 = s.nNull) :
    ¬s.Unextended := by
  have hnull := hs.nNull_add
  have hle := hs.length_free_le
  have hlast : s.factor.dim = s.nNull - 1 := by omega
  rintro ⟨f, hfailed⟩
  obtain ⟨column, factor, hok⟩ := hf.triangular.append?_ok (c := s.lastProducts)
    (a := s.lastCurvature) (N := s.reduced) (by omega) hlast.symm
    (by rw [hdim]; exact h.reduced hs hf.split) (fun _ _ _ _ => rfl)
    (fun j hj => by rw [lastProducts_apply hs (by omega), hlast])
    (fun j _ => reduced_comm hs hsymm _ _) (by rw [lastCurvature_eq hs, hlast])
  rw [h.epsDefinite_eq, h.epsZero_eq, hok] at hfailed
  cases hfailed

/-- Every entity that is no equality can leave. -/
theorem StrictlyConvex.leaves (h : s.StrictlyConvex) (hs : s.Moving) {e : Entity n m}
    {error : QpError} : ¬s.Stranded e error s' := by
  rintro ⟨s1, removal, hreleased, hlisted, hdim, hunfollowed⟩
  have hfactored := hreleased.factored hs.inStep hs.factored
  have hdata : s.SameData s1 := by
    cases hreleased <;> exact ⟨rfl, rfl, rfl, rfl, rfl⟩
  exact (h.congr hdata).extended hlisted (hs.symmetric.congr hdata.hessian) hfactored hdim
    hunfollowed.unextended

/-- The factor can be computed if the matrix of the objective is definite on the null space. -/
theorem factorized_of_definite (hs : s.Listed) (hsymm : s.SymmetricHessian)
    (hdef : Definite s.nNull s.reduced) (heps : s.parameters.epsDefinite = 0) :
    ¬s.Unfactorized := by
  have hnull := hs.nNull_add
  have hle := hs.length_free_le
  rintro ⟨f, hfailed⟩
  obtain ⟨f', hok⟩ := Cholesky.factorize?_ok_of_definite (f := s.factor) (by omega)
    (hdef.congr fun i j _ hj => reducedHessian_eq hs hj) fun i j hi hj => by
      rw [reducedHessian_eq hs hj, reducedHessian_eq hs hi]
      exact reduced_comm hs hsymm i j
  rw [heps, hok] at hfailed
  cases hfailed

theorem StrictlyConvex.factorized (h : s.StrictlyConvex) (hs : s.Listed)
    (hsymm : s.SymmetricHessian) (hf : s.nullSpace.Factors s.activeEntry) :
    ¬s.Unfactorized :=
  factorized_of_definite hs hsymm (h.reduced hs hf) h.epsDefinite_eq

-- ---------------------------------------------------------------------------
-- Steps and calls
-- ---------------------------------------------------------------------------

/-- A change of the working set fails only because no point is feasible, and leaves the status. -/
theorem ChangeFailed.of_strictlyConvex {event : StepEvent n m} {error : QpError}
    (h : s.ChangeFailed event error s') (hconvex : s.StrictlyConvex) (hs : s.Moving)
    (hfits : s.Fits event) : error.IsInfeasibility ∧ s'.status = s.status := by
  cases h with
  | refused herror horder hcause =>
    exfalso
    cases hcause with
    | undetermined hreordered hundetermined =>
      exact (hreordered.moving hs).determined (hconvex.congr hreordered.sameData).epsZero_eq hundetermined
    | exchange hreordered hw hind hdependent hstranded =>
      exact (hconvex.congr (hreordered.sameData.trans hdependent.sameData)).leaves
        (hdependent.moving (hreordered.moving hs)) hstranded
    | removal hstranded => exact hconvex.leaves hs hstranded
  | stuck hreordered hw hind hstuck =>
    exact ⟨isInfeasibility_addFailed _, hstuck.status_eq.trans hreordered.status_eq⟩
  | dependent hreordered hw hind hswapped hind' =>
    -- what has left took the dependency with it
    have hconvex' := hconvex.congr hreordered.sameData
    have hindependent := hswapped.independent (hreordered.moving hs) hconvex'.epsZero_eq
      hconvex'.epsDependent_eq hw hind (hreordered.canEnter hfits)
    rw [hind'] at hindependent
    cases hindependent

/-- No step breaks down. -/
theorem unbroken (hs : s.Moving) (hconvex : s.StrictlyConvex) :
    (Constrained.method : Method ℝ n m (Constrained ℝ n m)).Unbroken s := by
  have hmoving : Moving { s with status := .performingHomotopy } :=
    ⟨hs.toReady.congr rfl rfl rfl rfl rfl rfl rfl rfl, hs.tolerant.congr rfl⟩
  have hconvex' : StrictlyConvex { s with status := .performingHomotopy } :=
    hconvex.congr ⟨rfl, rfl, rfl, rfl, rfl⟩
  refine (determineDirection_ensures hmoving.inStep).mono ?_ ?_
  · rintro ⟨⟩ s1 hdirected hevent
    have hmoving1 := hdirected.same.moving hmoving
    have hconvex1 := hconvex'.congr hdirected.same.sameData
    have hstatus1 : s1.status = .performingHomotopy := by
      obtain ⟨dx, dy, tilt, dax, rfl⟩ := hdirected.same
      rfl
    -- a full step is no event, so the step ends where an entity changes its place
    obtain hlength | ⟨-, hfits⟩ := s1.stepLength_cases
    · exact absurd (congrArg Prod.snd hlength) hevent
    obtain ⟨hmoving2, hconvex2⟩ := performed (p := StrictlyConvex) (fun _ _ h => h.congr) hmoving1
      hconvex1 s1.stepLength.1 s1.stepLength.2
    have hframe := perform_frame s1.stepLength.1 s1.stepLength.2 s1
    change Update.Ensures (changeWorkingSet s1.stepLength.2)
      (s1.perform s1.stepLength.1 s1.stepLength.2) _ _
    have hfits2 : (s1.perform s1.stepLength.1 s1.stepLength.2).Fits s1.stepLength.2 := by
      obtain ⟨x, y, current, ax, hperform⟩ := hframe
      rw [hperform]
      exact hfits.congr rfl rfl
    refine (changeWorkingSet_ensures hmoving2.inStep hevent hfits2).mono (fun _ _ _ => trivial) ?_
    -- all pivots are there, so the working set fails to change only for lack of a feasible point
    rintro f s2 ⟨error, rfl, hfailed⟩
    obtain ⟨hinf, hstatus⟩ := hfailed.of_strictlyConvex hconvex2 hmoving2 hfits2
    refine ⟨⟨error, rfl, hinf⟩, hstatus.trans ?_⟩
    obtain ⟨x, y, current, ax, hperform⟩ := hframe
    rw [hperform]
    exact hstatus1
  · -- there is a direction wherever all pivots are there
    rintro f s1 ⟨-, -, hunsolved⟩
    exact hmoving.solved hconvex'.epsZero_eq hunsolved

/-- The set-up of an auxiliary problem is refused only for its limits or its guess. -/
theorem SetUpFailed.of_strictlyConvex {guess : Guess ℝ n m} {e : QpError}
    (h : s.SetUpFailed guess e) (hconvex : s.StrictlyConvex) (hsymm : s.SymmetricHessian) :
    e ∈ setupRefusals := by
  cases h with
  | refused he => exact he
  | @unfactorized s1 s2 hstarted hrows hunfactorized =>
    exfalso
    have hdata := hstarted.sameData
    obtain ⟨-, hsplit⟩ := split_of_enrolls hrows.entered
      (by rw [hdata.parameters]; exact hconvex.epsDependent_eq.ge) hstarted.split
    have hdata' : s.SameData (s2.withAdmissibleRows guess) := by
      obtain ⟨constraints, nullSpace, active, rfl⟩ := hrows.frame
      exact ⟨hdata.parameters, hdata.hessian, hdata.matrix, hdata.target, hdata.hessianType⟩
    exact (hconvex.congr hdata').factorized (hrows.listed.congr rfl rfl rfl rfl rfl)
      (hsymm.congr hdata'.hessian) hsplit hunfactorized

/-- No part of a call breaks down. -/
theorem sturdy (horder : s.InOrder) (hsymm : s.SymmetricHessian) (hconvex : s.StrictlyConvex) :
    (Constrained.interface ℝ n m).Sturdy (factoredPhases StrictlyConvex) s where
  prepare guess := by
    refine (prepare_reset_ensures horder).mono (fun _ _ _ => trivial) ?_
    rintro f s' ⟨⟨e, rfl, hfailed⟩, -⟩
    exact ⟨e, hfailed.of_strictlyConvex (hconvex.congr s.sameData_reset) hsymm, rfl⟩
  limits _ h := checkLimits_error h
  steps _ hs := unbroken hs.1 hs.2

/-- No call breaks down. -/
theorem endures (hs : (Constrained.interface ℝ n m).Reachable exactCalls s) (hdeclared : s.Declared)
    (hconvex : s.StrictlyConvex) : (Constrained.interface ℝ n m).Endures s := by
  obtain ⟨horder, hstatus⟩ := settled_factored hs
  have hI := respects_factored (n := n) (m := m) (p := StrictlyConvex) fun _ _ h => h.congr
  exact hI.endures ⟨horder, hstatus⟩ (fun _ _ _ _ _ => ⟨⟨hdeclared, hconvex.tolerant⟩, hconvex⟩)
    (fun _ _ _ => ⟨hconvex.tolerant, hconvex⟩) (sturdy horder hdeclared.symmetric hconvex)

end Constrained

end ActiveSet
