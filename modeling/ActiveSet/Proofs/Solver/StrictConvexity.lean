import ActiveSet.Proofs.Solver.BoundsOnly.Agreement
import ActiveSet.Proofs.Solver.Box.Convex

/-!
# Strictly convex problems do not break a solver down

With a positive definite matrix of the objective and no tolerances, a solver of either kind ends a
call only in a way that a caller can understand from the problem: it succeeds, it refuses the loaded
limits or the guess, it has been told to stop, or no point is feasible. Nothing is lost when a solve
does not start from scratch (`strictly_convex_endures`).

It does not matter what the solver has been used for before. The problems of earlier calls need not
be strictly convex, and those calls may have ended in any way.
-/

namespace ActiveSet

/-- No call breaks down while a strictly convex problem is loaded. -/
theorem strictly_convex_endures (n m : ℕ) :
    (∀ s, (Constrained.interface ℝ n m).Reachable Constrained.exactCalls s → s.Declared →
      s.StrictlyConvex → (Constrained.interface ℝ n m).Endures s) ∧
      ∀ s, (Box.interface ℝ n).Reachable Box.exactCalls s → Box.Declared s →
        Box.StrictlyConvex s → (Box.interface ℝ n).Endures s :=
  ⟨fun _ hs hdeclared hconvex => Constrained.endures hs hdeclared hconvex,
    fun _ hs hdeclared hconvex => Box.endures hs hdeclared hconvex⟩

theorem Together.strictlyConvex {n : ℕ} {s : Box ℝ n} {t : Constrained ℝ n 0} (h : Together s t)
    (ht : t.StrictlyConvex) : Box.StrictlyConvex s := by
  refine ⟨?_, ?_, ?_⟩
  · rw [← h.matched.agrees.hessian]
    exact ht.definite
  · rw [h.parameters_eq]
    exact ht.epsZero_eq
  · rw [h.parameters_eq]
    exact ht.epsDefinite_eq

/-- Nothing breaks down when the row of the sum has entered the working set and is to leave it, and neither
does it with bounds only when the first variable has entered and is to leave. -/
theorem strictly_convex_endures_shared : ∃ s1 b1,
    (Constrained.interface ℝ 2 1).Endures (Constrained.shared 1) ∧
      (Constrained.interface ℝ 2 1).call (.solve Observer.silent () 2 none none)
        (Constrained.shared 1) = (.ok 2, s1) ∧
      s1.activity (.constraint 0) = .lower ∧ (Constrained.interface ℝ 2 1).Endures s1 ∧
      (Constrained.interface ℝ 2 1).Endures (s1.setShare (-1)) ∧
      (Box.interface ℝ 2).Endures (Box.capped 3 1) ∧
      (Box.interface ℝ 2).call (.solve Observer.silent () 2 none none) (Box.capped 3 1) = (.ok 2, b1) ∧
      b1.bounds.activity 0 = .upper ∧ (Box.interface ℝ 2).Endures b1 ∧
      (Box.interface ℝ 2).Endures (b1.setPull 0) := by
  -- the row is active after the solve, and its data change afterwards
  obtain ⟨s1, s2, h⟩ := Constrained.exists_sharedSession
  have hshared := Constrained.sharing_one
  have hload : ∀ d s, Constrained.exactCalls (n := 2) (m := 1) (.load d) s := fun _ _ => trivial
  have hreach := Constrained.reachable_shared hload 1
  have hreach1 := hreach.of_call (by exact ⟨hshared.declared, hshared.exact.tolerant⟩) h.solve
  have hreach2 := Constrained.reachable_setShare hload hreach1 (-1)
  -- the bound is active after the solve, and its data change afterwards
  obtain ⟨b1, b2, t1, t2, hb⟩ := exists_cappedSession
  have hcapped := Constrained.capping_one
  have hload' : ∀ d s, Box.exactCalls (n := 2) (.load d) s := fun _ _ => trivial
  have hbox := Box.reachable_capped hload' 3 1
  have hbox1 := hbox.of_call (by exact ⟨admits_capped.1, admits_capped.2.definite⟩) hb.solve
  have hbox2 : (Box.interface ℝ 2).Reachable Box.exactCalls (b1.setPull 0) := .call _ hbox1 trivial
  refine ⟨s1, b1, ?_, h.solve, h.held, ?_, ?_, ?_, hb.solve, hb.activity, ?_, ?_⟩
  · exact (strictly_convex_endures 2 1).1 _ hreach hshared.declared hshared.strictlyConvex
  · exact (strictly_convex_endures 2 1).1 _ hreach1 h.sharing.declared h.sharing.strictlyConvex
  · exact (strictly_convex_endures 2 1).1 _ hreach2 h.sharing_reloaded.declared
      h.sharing_reloaded.strictlyConvex
  · exact (strictly_convex_endures 2 0).2 _ hbox ((together_capped 3 1).declared hcapped.declared)
      ((together_capped 3 1).strictlyConvex hcapped.strictlyConvex)
  · exact (strictly_convex_endures 2 0).2 _ hbox1 (hb.together.declared hb.session.capping.declared)
      (hb.together.strictlyConvex hb.session.capping.strictlyConvex)
  · exact (strictly_convex_endures 2 0).2 _ hbox2
      ((hb.together.setPull 0).declared hb.session.capping_reloaded.declared)
      ((hb.together.setPull 0).strictlyConvex hb.session.capping_reloaded.strictlyConvex)

end ActiveSet
