import ActiveSet.Proofs.Solver.BoundsOnly.Companions
import ActiveSet.Proofs.Solver.Box.Systems
import ActiveSet.Proofs.Solver.Constrained.Singular

/-!
# Singular pivots without constraints

With bounds only, a variable that becomes free and whose pivot is not positive moves along a flat
direction (`HalfRemoved.flat`), and nothing else can lead to the verdict that the objective has no lower
bound (`halfRemoved_of_condemned`). There are no exchanges, so the loaded objective falls along a direction
that leads away from the limit: this is known of the companion with constraints (`falls_of_condemned`).
-/

namespace ActiveSet.Box

open Finset

variable {n : ℕ} {s s' : Box ℝ n} {i : Fin n} {error : QpError}

/-- The matrix of the objective is semidefinite, and no comparison of a pivot has a tolerance. -/
structure Convex (s : Box ℝ n) : Prop where
  semidefinite : Semidefinite n s.hessian
  epsZero_eq : s.parameters.epsZero = 0
  epsDefinite_eq : s.parameters.epsDefinite = 0

theorem Convex.congr (h : s.Convex) (hsame : s.SameData s') : s'.Convex := by
  refine ⟨?_, ?_, ?_⟩
  · rw [hsame.hessian]
    exact h.semidefinite
  · rw [hsame.parameters]
    exact h.epsZero_eq
  · rw [hsame.parameters]
    exact h.epsDefinite_eq

theorem HalfRemoved.sameData (h : s.HalfRemoved i error s') : s.SameData s' := by
  cases h
  exact ⟨rfl, rfl, rfl, rfl⟩

/-- A variable whose pivot is not positive leaves a flat direction behind. -/
theorem HalfRemoved.flat (h : s.HalfRemoved i error s') (hs : s.Moving) (hconvex : s.Convex) :
    ∃ d, Core.Flat s' d := by
  cases h with
  | @intro bounds f hdeactivate hfailed =>
    obtain ⟨hactive, hmoved⟩ := EntitySet.deactivate_spec hs.inStep.sound hdeactivate
    obtain ⟨a, ⟨v, hone, hfixed, hfree, hcurvature⟩, hdecided⟩ :=
      hs.toReady.append?_decided hactive hconvex.epsZero_eq
    rw [hfailed, hconvex.epsDefinite_eq] at hdecided
    cases hdecided with
    | fails hpivot =>
      -- only the variable itself feels the curvature
      have hform : form n s.hessian v ≤ 0 := by
        have hterms : ∀ j ∈ range n, j ≠ (i : ℕ) →
            v j * ∑ k ∈ range n, s.hessian j k * v k = 0 := by
          intro j hj hne
          have hji : (⟨j, mem_range.1 hj⟩ : Fin n) ≠ i := fun h => hne (congrArg Fin.val h)
          by_cases hfix : s.bounds.isActive (⟨j, mem_range.1 hj⟩ : Fin n) = true
          · rw [show v j = 0 from hfixed _ hji hfix, zero_mul]
          · rw [hfree ⟨j, mem_range.1 hj⟩ (by simpa using hfix), mul_zero]
        unfold form
        rw [sum_eq_single (i : ℕ) hterms fun hnot => absurd (mem_range.2 i.isLt) hnot, hone, one_mul,
          hcurvature]
        exact hpivot
      have hentry : ∀ k, k < n → Tuple.ofFn n v k = v k := fun k hk => Tuple.ofFn_apply hk
      refine ⟨Tuple.ofFn n v, ⟨i, i.isLt, ?_⟩, fun j hj => ?_, fun j hj => ?_⟩
      · rw [hentry i i.isLt, hone]
        exact one_ne_zero
      · rw [← hconvex.semidefinite.vanishes (fun i j _ _ => hs.symmetric i j) hform hj]
        exact Finset.sum_congr rfl fun k hk => by rw [hentry k (mem_range.1 hk)]
      · rw [hentry j j.isLt]
        have hj : bounds.isActive j = true := hj
        rw [hmoved.isActive] at hj
        by_cases hji : j = i
        · rw [hji, if_pos rfl] at hj
          cases hj
        · rw [if_neg hji] at hj
          exact hfixed j hji hj

/-- Where the homotopy of a call ends with the verdict, a variable was to leave and has left. -/
theorem halfRemoved_of_condemned (hs : (Box.interface ℝ n).Reachable exactCalls s)
    {c : Call ℝ n 0 (Core.Loading ℝ)} (hc : exactCalls c s) {start s1 : Box ℝ n} {event : StepEvent n 0}
    (hstarts : (Box.interface ℝ n).StartsBy s c start)
    (h : (Box.interface ℝ n).method.Condemned start event s1 s') :
    s1.Moving ∧ s.SameData s1 ∧ ∃ i error s2, event = .remove (.bound i) ∧ s1.HalfRemoved i error s2 ∧
      s' = { s2 with status := .notInitialised, unbounded := true } := by
  have hI := respects_factored (n := n) (p := s.SameData) fun _ _ h h' => h.trans h'
  cases h with
  | @intro s2 hcomes hchange =>
    obtain ⟨hmoving, hstart⟩ :=
      hI.moving_of_startsBy (settled_factored hs) ⟨hc, ⟨rfl, rfl, rfl, rfl⟩⟩ hstarts
    obtain ⟨⟨⟨hmoving1, hfits⟩, hdata⟩, hevent⟩ :=
      hI.method.stepped_of_comesTo hmoving hstart hcomes
    obtain ⟨i, error, hremove, -, hhalf, -⟩ :=
      (changeWorkingSet_ensures hmoving1.inStep hevent hfits).of_error hchange
    exact ⟨hmoving1, hdata, i, error, s2, hremove, hhalf, rfl⟩

/-- A call with the verdict leaves a flat direction behind, and does not touch what has been loaded. -/
theorem flat_of_call (hs : (Box.interface ℝ n).Reachable exactCalls s) (hconvex : s.Convex)
    {c : Call ℝ n 0 (Core.Loading ℝ)} (hc : exactCalls c s) {e : QpError}
    (he : c.unboundedness = some e)
    (hcall : (Box.interface ℝ n).call c s = (.error (.failed e), s')) :
    s'.unbounded = true ∧ s.SymmetricHessian ∧ s.SameData s' ∧ ∃ d, Core.Flat s' d := by
  obtain ⟨start, event, s1, hstarts, hcondemned⟩ := (Box.interface ℝ n).condemned_of_call he
    (fun h => by cases Core.checkBounds_error h) hcall
  obtain ⟨hmoving, hdata, i, error, s2, -, hhalf, rfl⟩ :=
    halfRemoved_of_condemned hs hc hstarts hcondemned
  obtain ⟨d, hd⟩ := hhalf.flat hmoving (hconvex.congr hdata)
  have hsame := hdata.trans hhalf.sameData
  exact ⟨rfl, hmoving.symmetric.congr hdata.hessian.symm,
    ⟨hsame.parameters, hsame.hessian, hsame.target, hsame.hessianType⟩, d, hd.ne_zero, hd.vanishes,
    hd.fixed⟩

/-- If it has come, without tolerances, to an event where a variable was to leave, the variable has left, and
the loaded objective falls along a flat direction that leads away from its limit. -/
theorem falls_of_condemned (hs : (Box.interface ℝ n).Reachable (courseCalls False) s)
    (hconvex : s.Convex) {c : Call ℝ n 0 (Core.Loading ℝ)} (hc : courseCalls False c s)
    {start s1 : Box ℝ n} (hstarts : (Box.interface ℝ n).StartsBy s c start)
    (hcondemned : (Box.interface ℝ n).method.Condemned start (.remove (.bound i)) s1 s') :
    s'.bounds.isActive i = false ∧
      ∃ d, Core.Flat s' d ∧ Core.slope s d < 0 ∧ Inwards (s1.bounds.activity i) (d i) := by
  -- a companion with constraints comes to the same event
  obtain ⟨t, ht⟩ := exists_companion hs
  have hst := ht.matched.agrees
  have hI := Box.respects_for (n := n) (q := fun p => (p.mapDependent noTolerance).Fit)
    fun _ h => h.definite
  obtain ⟨start', t1, t', hstarts', hcondemned', hst1, hst'⟩ :=
    (companions fun _ => rfl).exists_condemned hI Constrained.respects_for ht.matched.settled
      ht.matched.settled' (admits_of_courseCalls hc) (ht.matched.admits (admits_of_courseCalls hc)) hst
      hstarts hcondemned
  have hconvex' : t.Convex := by
    refine ⟨?_, ?_, ?_⟩
    · rw [hst.hessian]
      exact hconvex.semidefinite
    · rw [hst.parameters]
      exact hconvex.epsZero_eq
    · rw [hst.parameters]
      exact hconvex.epsDefinite_eq
  obtain ⟨hleft, d, hd, hfalls, hinwards⟩ := Constrained.falls_of_condemned ht.reachable hconvex'
    (ht.courseCalls hc) hstarts' hcondemned'
  refine ⟨?_, d, ⟨hd.ne_zero, ?_, ?_⟩, ?_, ?_⟩
  · rw [← hst'.bounds]
    exact hleft
  · rw [← hst'.hessian]
    exact hd.vanishes
  · rw [← hst'.bounds]
    exact hd.fixed
  · rwa [Core.slope, hst.target] at hfalls
  · rw [Constrained.valueOf_bound] at hinwards
    rw [← hst1.bounds]
    exact hinwards

end ActiveSet.Box
