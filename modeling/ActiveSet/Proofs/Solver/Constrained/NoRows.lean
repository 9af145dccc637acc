import ActiveSet.Proofs.Solver.Constrained.Convex
import ActiveSet.Proofs.Solver.FreeVariables

/-!
# Bounds without constraints

A solver for bounds and constraints may have no constraints at all. Its null space is the space of all
free variables then, in a basis that changes of the working set have rotated. What is computed in this
basis is the same as without it: the direction (`Directed.tracks`), and the pivot of a variable that
becomes free (`Released.append?_decided`). No free variable depends on the others, so each can be fixed
(`Prepared.independent`).
-/

namespace ActiveSet.Constrained

open Finset

variable {n : ℕ} {s s' : Constrained ℝ n 0}

theorem active_eq_nil (s : Constrained ℝ n 0) : s.active = [] := by
  cases h : s.active with
  | nil => rfl
  | cons c rest => exact c.elim0

theorem Listed.nNull_eq (hs : s.Listed) : s.nNull = s.free.length := by
  have hsum := hs.nNull_add
  rwa [active_eq_nil, List.length_nil, Nat.add_zero] at hsum

/-- A direction follows the data. -/
theorem Directed.tracks (h : s.Directed s') (hs : s.Ready) : Core.Tracks s'.toCore := by
  have hfollows := h.follows hs.inStep hs.factored hs.symmetric
  refine ⟨fun i hi => ?_, fun i => ?_, fun i hi => hfollows.inactive (.bound i) hi⟩
  · have hlimit := hfollows.on_limit (.bound i) hi
    rwa [valueOf_bound] at hlimit
  · have hbalanced := hfollows.balanced i i.isLt
    rwa [sum_mul_row _ _ i.isLt, univ_eq_empty, sum_empty, add_zero] at hbalanced

/-- A free variable is independent of the others. -/
theorem Prepared.independent {w : PreparedRow ℝ} {i : Fin n} (h : s.Prepared w (.bound i))
    (hs : s.InStep) (hf : s.Factored) (heps : s.parameters.epsDependent < 1) :
    w.independent = true := by
  obtain ⟨hlast, rfl⟩ := h
  have hnull := hs.nNull_eq
  have hnFree := hs.nFree_eq
  have hpos : 0 < s.free.length := by
    rw [List.length_pos_iff]
    rintro hnil
    rw [hnil] at hlast
    cases hlast
  -- without rows every column belongs to `Z`, and a row of an orthogonal matrix has length one
  have hunit := hf.split.orthonormal.rows (i := s.free.length - 1) (k := s.free.length - 1)
    (by omega) (by omega)
  rw [if_pos rfl] at hunit
  have hnorm : norm s.nNull s.lastFreeRow.row = 1 := by
    rw [norm_eq_sqrt, ← Real.sqrt_one, ← hunit]
    congr 1
    refine Finset.sum_congr (by rw [hnull, hnFree]) fun j hj => ?_
    have hrow : s.lastFreeRow.row j = s.nullSpace.q (s.free.length - 1) j :=
      Tuple.ofFn_apply (mem_range.1 hj)
    rw [hrow]
  refine decide_eq_true ⟨by omega, ?_⟩
  change _ < norm s.nNull s.lastFreeRow.row
  rwa [hnorm]

/-- The old directions of the null space do not move a variable that has been released. -/
theorem Released.lastRow {i : Fin n} (h : s.Released (.bound i) s') (hs : s.Ready) :
    ∀ j, j < s.free.length → s'.nullSpace.q s.free.length j = 0 := by
  have hnull := hs.inStep.nNull_eq
  have hnFree := hs.inStep.nFree_eq
  have hnone : s.nullSpace.nActive = 0 := by
    rw [hs.inStep.nActive_eq, active_eq_nil, List.length_nil]
  cases h with
  | @bound _ bounds nullSpace column hdeactivate happend =>
    obtain ⟨-, -, -, hrow, -⟩ := hs.factored.split.appendFreeRow happend
      (B := activeEntry { s with bounds, nullSpace, free := s.free ++ [i] })
      (fun c p hc _ => absurd hc (by omega)) fun c hc => absurd hc (by omega)
    intro j hj
    rw [← hnFree]
    exact hrow j (by rw [show s.nullSpace.nNull = s.nNull from rfl, hnull]; exact hj)

/-- Whether a variable that has been released can become free depends on its pivot. -/
theorem Released.append?_decided {i : Fin n} (h : s.Released (.bound i) s') (hs : s.Ready)
    (hlisted : s'.Listed) (heps : s.parameters.epsZero = 0) :
    ∃ a, Core.Pivot s.toCore i a ∧ Cholesky.DecidedBy a s.parameters.epsDefinite
      (s'.factor.append? s'.lastProducts s'.lastCurvature s'.parameters.epsDefinite
        s'.parameters.epsZero) := by
  have hfactored := h.factored hs.inStep hs.factored
  have hrow := h.lastRow hs
  have hnull := hs.inStep.nNull_eq
  have hnull' := hlisted.nNull_eq
  have hnFree' := hlisted.nFree_eq
  have hle := hlisted.length_free_le
  obtain ⟨hactive, hfree, hhessian, hparameters, hdim⟩ : s.bounds.isActive i = true ∧
      s'.free = s.free ++ [i] ∧ s'.hessian = s.hessian ∧ s'.parameters = s.parameters ∧
        s'.factor.dim = s.free.length := by
    cases h with
    | bound hdeactivate happend =>
      exact ⟨(EntitySet.deactivate_spec hs.inStep.sound hdeactivate).1, rfl, rfl, rfl,
        hs.inStep.dim_eq.trans hnull⟩
  have hlength : s'.free.length = s.free.length + 1 := by
    rw [hfree, List.length_append, List.length_singleton]
  rw [hlength] at hnull' hnFree' hle
  have hlast : s'.nNull - 1 = s.free.length := by omega
  obtain ⟨w, hw, hdecided⟩ := hfactored.triangular.append?_decided (by omega)
    (hlast.trans hdim.symm) s'.lastProducts s'.lastCurvature s'.parameters.epsDefinite
  rw [hdim] at hw hdecided
  rw [hparameters] at hdecided ⊢
  rw [heps]
  refine ⟨_, ?_, hdecided⟩
  -- in the natural coordinates the system is that of the pivot
  have horthonormal := hfactored.split.orthonormal
  rw [hnFree'] at horthonormal
  have hcolumn : ∀ j, j < s.free.length → s'.lastProducts j =
      quad (s.free.length + 1) s'.freeHessian s'.nullSpace.q j s.free.length := by
    intro j hj
    rw [lastProducts_apply hlisted (by omega), hlast, reduced, hnFree']
  obtain ⟨v, hone, hzero, hpivot⟩ := horthonormal.exists_bordered hrow (h := s'.freeHessian)
    (fun p r hp hr => freeHessian_comm (fun a b => by rw [hhessian]; exact hs.symmetric a b)
      (by omega) (by omega)) (w := w) fun j hj => by
        rw [← hcolumn j hj, ← hw j hj, reduced, hnFree']
  have hbordered := Core.Pivot.of_bordered hs.inStep.toFreeInStep hactive (h := s'.freeHessian)
    (fun p r => by rw [freeHessian, hfree, hhessian]) hone hzero
  refine (congrArg (Core.Pivot s.toCore i) ?_).mp hbordered
  have hcurvature : s'.lastCurvature =
      quad (s.free.length + 1) s'.freeHessian s'.nullSpace.q s.free.length s.free.length := by
    rw [lastCurvature_eq hlisted, hlast, reduced, hnFree']
  rw [hpivot, hcurvature]
  congr 1
  exact Finset.sum_congr rfl fun j hj => by rw [hcolumn j (mem_range.1 hj)]

end ActiveSet.Constrained
