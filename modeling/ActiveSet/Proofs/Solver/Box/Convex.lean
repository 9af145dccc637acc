import ActiveSet.Proofs.Solver.Box.Systems
import ActiveSet.Proofs.Solver.Constrained.Convex

/-!
# Strictly convex problems with bounds

The rows and columns of a positive definite matrix that belong to the free variables are positive
definite, whichever variables these are. So without tolerances their factor can be computed, it can
be extended by every variable that becomes free, and its systems have solutions. No step breaks down
(`unbroken`), and there is no way to lose a working set.
-/

namespace ActiveSet.Box

variable {n : ℕ} {s s' : Box ℝ n}

/-- The matrix of the objective is positive definite, and no comparison of the factorization has a
tolerance. -/
structure StrictlyConvex (s : Box ℝ n) : Prop where
  definite : Definite n s.hessian
  epsZero_eq : s.parameters.epsZero = 0
  epsDefinite_eq : s.parameters.epsDefinite = 0

theorem StrictlyConvex.congr (h : s.StrictlyConvex) (hsame : s.SameData s') :
    s'.StrictlyConvex := by
  refine ⟨?_, ?_, ?_⟩
  · rw [hsame.hessian]
    exact h.definite
  · rw [hsame.parameters]
    exact h.epsZero_eq
  · rw [hsame.parameters]
    exact h.epsDefinite_eq

/-- The factor can be extended by every fixed variable. -/
theorem StrictlyConvex.leaves (h : s.StrictlyConvex) (hs : s.Moving) {i : Fin n}
    (hi : s.bounds.isActive i = true) : ¬s.Stranded i := by
  have hdim := hs.inStep.dim_eq
  have hlt := hs.inStep.length_free_lt hi
  have hnotin : i ∉ s.free := by
    rw [hs.inStep.listed.mem_iff, hi]
    exact Bool.true_eq_false_eq_False
  have hnodup : (s.free ++ [i]).Nodup :=
    (List.perm_append_singleton i s.free).nodup_iff.2
      (List.nodup_cons.2 ⟨hnotin, hs.inStep.listed.nodup⟩)
  have hlength : (s.free ++ [i]).length = s.factor.dim + 1 := by
    rw [List.length_append, List.length_singleton, hdim]
  rintro ⟨f, hfailed⟩
  obtain ⟨hM, hcol, hrow, hdiag⟩ := bordered hdim hs.symmetric i
  obtain ⟨column, factor, hok⟩ := hs.factored.triangular.append?_ok (c := s.newColumn i)
    (a := s.hessian i i) (N := freeHessian { s with free := s.free ++ [i] }) (by omega)
    hdim.symm (by rw [← hlength]; exact h.definite.gather hnodup) hM hcol hrow hdiag
  rw [h.epsDefinite_eq, h.epsZero_eq, hok] at hfailed
  cases hfailed

/-- The factor can be computed. -/
theorem StrictlyConvex.factorized (h : s.StrictlyConvex) (hsymm : s.SymmetricHessian)
    (hfree : s.FreeInStep) : ¬s.Unfactorized := by
  rintro ⟨f, hfailed⟩
  obtain ⟨f', hok⟩ := Cholesky.factorize?_ok_of_definite (f := s.factor) hfree.length_free_le
    (h.definite.gather hfree.listed.nodup) fun i j hi hj => freeHessian_comm hsymm hi hj
  rw [h.epsDefinite_eq] at hfailed
  change s.factor.factorize? s.free.length s.freeHessian 0 = some (.ok f') at hok
  rw [hok] at hfailed
  cases hfailed

/-- No step breaks down. -/
theorem unbroken (hs : s.Moving) (hconvex : s.StrictlyConvex) :
    (Box.method : Method ℝ n 0 (Box ℝ n)).Unbroken s := by
  have hmoving : Moving { s with status := .performingHomotopy } := hs.congr rfl rfl rfl rfl rfl
  have hconvex' : StrictlyConvex { s with status := .performingHomotopy } :=
    hconvex.congr ⟨rfl, rfl, rfl, rfl⟩
  refine (determineDirection_ensures hmoving.inStep).mono ?_ ?_
  · rintro ⟨⟩ s1 ⟨-, hframe⟩ hevent
    obtain ⟨hmoving1, hconvex1⟩ : Moving s1 ∧ StrictlyConvex s1 := by
      obtain ⟨dx, dy, tilt, rfl⟩ := hframe
      exact ⟨hmoving.congr rfl rfl rfl rfl rfl, hconvex'.congr ⟨rfl, rfl, rfl, rfl⟩⟩
    obtain ⟨hmoving2, hconvex2⟩ := performed (p := StrictlyConvex) (fun _ _ h => h.congr) hmoving1
      hconvex1 (stepLength s1).1 (stepLength s1).2
    have hfits2 : Fits (s1.perform (stepLength s1).1 (stepLength s1).2) (stepLength s1).2 := by
      obtain ⟨x, y, current, hperform⟩ := Core.perform_frame (stepLength s1).1 (stepLength s1).2 s1
      rw [hperform]
      exact (fits_stepLength s1).congr rfl
    refine (changeWorkingSet_ensures hmoving2.inStep hevent hfits2).mono (fun _ _ _ => trivial) ?_
    -- only a release can fail, and with all pivots there it does not
    rintro f s2 ⟨i, error, hremove, -, hhalf, -⟩
    have hstranded := hhalf.stranded
    rw [show (Box.method.stepLength s1).2 = (stepLength s1).2 from rfl] at hremove
    rw [hremove] at hfits2 hstranded hmoving2 hconvex2
    have hleave : EntitySet.CanLeave _ i := hfits2
    exact absurd hstranded (hconvex2.leaves hmoving2 hleave.active)
  · rintro f s1 ⟨-, hunsolved, -⟩
    exact hmoving.solved hconvex'.epsZero_eq hunsolved

/-- No part of a call breaks down. -/
theorem sturdy (horder : s.BoundsInOrder) (hsymm : s.SymmetricHessian)
    (hconvex : s.StrictlyConvex) :
    (Box.interface ℝ n).Sturdy (factoredPhases StrictlyConvex) s where
  prepare guess := by
    refine (prepare_reset_ensures guess horder).mono (fun _ _ _ => trivial) ?_
    rintro f s' ⟨⟨e, rfl, hfailed⟩, -⟩
    refine ⟨e, ?_, rfl⟩
    cases hfailed with
    | refused he => exact he
    | unfactorized hbounds hunfactorized =>
      obtain ⟨hdata, -⟩ := boundsPrepared_spec hbounds
      have hreset : s.SameData (Core.reset s) := ⟨rfl, rfl, rfl, rfl⟩
      exact absurd hunfactorized ((hconvex.congr (hreset.trans hdata)).factorized
        (hsymm.congr hdata.hessian) hbounds.freeInStep)
  limits _ h := .inl (Core.checkBounds_error h)
  steps _ hs := unbroken hs.1 hs.2

/-- No call breaks down. -/
theorem endures (hs : (Box.interface ℝ n).Reachable exactCalls s) (hdeclared : s.Declared)
    (hconvex : s.StrictlyConvex) : (Box.interface ℝ n).Endures s := by
  have hI := respects_factored (n := n) (p := StrictlyConvex) fun _ _ h => h.congr
  have heps := hconvex.epsDefinite_eq.ge
  exact hI.endures (settled_factored hs) (fun _ _ _ _ _ => ⟨⟨hdeclared, heps⟩, hconvex⟩)
    (fun _ _ _ => ⟨heps, hconvex⟩) (sturdy (settled_factored hs).1 hdeclared.symmetric hconvex)

end ActiveSet.Box
