import ActiveSet.Proofs.Solver.Box.Singular
import ActiveSet.Proofs.Solver.Constrained.ColdStart
import ActiveSet.Proofs.Solver.Constrained.Sides

/-!
# Linear objectives over a box

A linear objective that is declared to be semidefinite is not minimized over a box. A solve without a
guess starts with all variables on their lower limits (`Linear.started`). One in which the objective falls
from there leaves the working set at once, and as there is no curvature its pivot is zero. So the solve
ends with the verdict that the objective has no lower bound, wherever the upper limits are
(`Linear.solve_ensures`).
-/

namespace ActiveSet

variable {K : Type} [Scalar K] {n m : ℕ}

namespace Core

variable {s : Core K n m} {guess : Guess K n m}

/-- Without a guess, a semidefinite objective starts with a variable on its lower limit, if that is
finite. -/
theorem startingSide_semidefinite {i : Fin n} (htype : s.hessianType = .semidefinite)
    (hbounded : s.bounds.limitType i = .bounded) (hfinite : -s.parameters.infinity < s.target.lower i) :
    s.startingSide ⟨none, none⟩ i = .lower := by
  unfold startingSide
  dsimp only [Option.map_none]
  rw [guessedActivity_none (by rw [hbounded]; decide), if_pos ⟨htype, rfl, hbounded⟩, if_pos hfinite]

end Core

namespace Box

open Finset

variable {s s' : Box ℝ n} {i : Fin n}

/-- A linear objective, declared to be semidefinite, with a finite lower limit for each variable and
without equalities. In one of the variables it falls. -/
structure Linear (s : Box ℝ n) : Prop where
  semidefinite : s.hessianType = .semidefinite
  hessian_eq : ∀ i j : ℕ, s.hessian i j = 0
  bounded : ∀ i, s.loadedType i = .bounded
  finite : ∀ i : Fin n, -s.parameters.infinity < s.target.lower i
  ordered : ∀ i : Fin n, s.target.lower i ≤ s.target.upper i
  epsZero_eq : s.parameters.epsZero = 0
  epsDefinite_nonneg : 0 ≤ s.parameters.epsDefinite
  falls : ∃ i : Fin n, s.target.gradient i < 0

/-! ## The auxiliary problem -/

theorem Linear.congr (h : s.Linear) (hsame : s.SameData s') : s'.Linear := by
  obtain ⟨hp, hH, ht, htype⟩ := hsame
  refine ⟨htype.trans h.semidefinite, ?_, ?_, ?_, ?_, ?_, ?_, ?_⟩
  · rw [hH]
    exact h.hessian_eq
  · intro i
    rw [loadedType, ht, hp]
    exact h.bounded i
  · rw [hp, ht]
    exact h.finite
  · rw [ht]
    exact h.ordered
  · rw [hp]
    exact h.epsZero_eq
  · rw [hp]
    exact h.epsDefinite_nonneg
  · rw [ht]
    exact h.falls

theorem Linear.declared (h : s.Linear) : s.Declared where
  symmetric i j := by rw [h.hessian_eq, h.hessian_eq]
  identity hid := by
    rw [h.semidefinite] at hid
    cases hid

/-- All variables are on their lower limits, and the current objective is zero. -/
structure AtLower (s : Box ℝ n) : Prop where
  activity_eq : ∀ i : Fin n, s.bounds.activity i = .lower
  limitType_eq : ∀ i : Fin n, s.bounds.limitType i = .bounded
  multiplier_eq : ∀ i : Fin n, s.y.bound i = 0
  gradient_eq : ∀ i : Fin n, s.current.gradient i = 0

theorem AtLower.congr (h : s.AtLower) (hb : s'.bounds = s.bounds) (hy : s'.y = s.y)
    (hc : s'.current = s.current) : s'.AtLower := by
  refine ⟨?_, ?_, ?_, ?_⟩
  · rw [hb]
    exact h.activity_eq
  · rw [hb]
    exact h.limitType_eq
  · rw [hy]
    exact h.multiplier_eq
  · rw [hc]
    exact h.gradient_eq

/-- Bounds prepared without a guess are active at the lower limits. -/
theorem Linear.activity_eq {s1 : Box ℝ n} (h : s.Linear)
    (hbounds : Core.BoundsPrepared ⟨none, none⟩ s s1) (i : Fin n) :
    s1.bounds.limitType i = .bounded ∧ s1.bounds.activity i = .lower := by
  have htype := (hbounds.classifiedBy i).2.1.trans (h.bounded i)
  have hlinear : s1.Linear := by
    refine h.congr ?_
    rw [hbounds.frame]
    exact ⟨rfl, rfl, rfl, rfl⟩
  exact ⟨htype, (hbounds.activity_eq i).trans
    (Core.startingSide_semidefinite hlinear.semidefinite htype (hlinear.finite i))⟩

theorem Linear.prepare_ok (h : s.Linear) (hs : s.BoundsInOrder) :
    (prepare ⟨none, none⟩).Ensures (Core.reset s) (fun _ _ => True) fun _ _ => False := by
  let s0 : Box ℝ n := { Core.reset s with status := .preparingAuxiliary }
  have h0 : s0.Linear := h.congr ⟨rfl, rfl, rfl, rfl⟩
  have horder : s0.BoundsInOrder := (boundsInOrder_reset hs).congr rfl
  have hinactive : ∀ i : Fin n, s0.bounds.isActive i = false :=
    fun i => congrArg Activity.isActive (EntitySet.activity_reset s.bounds i)
  unfold prepare
  rw [Update.ensures_bind, Update.ensures_modify]
  refine Update.ensures_bind_of ((Core.prepareBounds_ensures ⟨none, none⟩ horder.sound hinactive).and
    (Core.prepareBounds_ok horder hinactive (fun i => EntitySet.limitType_reset s.bounds i)
      (fun i => not_lt.2 (h.ordered i)) fun _ hb _ => Core.sideFor_startingSide hb))
    (fun _ _ h => h.2) ?_
  rintro ⟨⟩ s1 ⟨hbounds, -⟩
  -- all variables are in the working set, and there is nothing to factorize
  have hfree : s1.free = [] := by
    refine List.eq_nil_iff_forall_not_mem.2 fun i hi => ?_
    rw [hbounds.freeInStep.listed.mem_iff, EntitySet.isActive, (h0.activity_eq hbounds i).2] at hi
    cases hi
  refine Update.ensures_bind_of (factorize_ensures hbounds.freeInStep.length_free_le) ?_
    fun _ _ _ => trivial
  rintro f _ ⟨⟨-, e, hfailed⟩, -⟩
  rw [hfree, List.length_nil, Cholesky.factorize?, dif_pos (Nat.zero_le n)] at hfailed
  cases hfailed

/-- A solve from scratch starts on the lower limits. -/
theorem Linear.started (h : s.Linear) (hsetup : SetUp ⟨none, none⟩ (Core.reset s) s') :
    s'.Linear ∧ s'.AtLower := by
  have hreset : SameData (Core.reset s) s' := hsetup.sameData
  have hdata : s.SameData s' :=
    ⟨hreset.parameters, hreset.hessian, hreset.target, hreset.hessianType⟩
  refine ⟨h.congr hdata, ?_⟩
  cases hsetup with
  | @intro s1 s2 hbounds hfactorized =>
    have h0 : Linear { Core.reset s with status := .preparingAuxiliary } := h.congr ⟨rfl, rfl, rfl, rfl⟩
    have hactivity := h0.activity_eq hbounds
    have hy : ∀ i : Fin n, s1.y.bound i = 0 := by
      intro i
      rw [hbounds.frame]
      refine (Tuple.ofFn_apply i.isLt).trans ?_
      rw [(hactivity i).1, (hactivity i).2]
      refine (congrArg (max · 0) (Tuple.scale_apply _ _ i.isLt)).trans ?_
      rw [zero_mul, max_self]
    obtain ⟨hb, hy2⟩ : s2.bounds = s1.bounds ∧ s2.y = s1.y := by
      cases hfactorized <;> exact ⟨rfl, rfl⟩
    refine ⟨fun i => ?_, fun i => ?_, fun i => ?_, fun i => ?_⟩
    · show s2.bounds.activity i = .lower
      rw [hb]
      exact (hactivity i).2
    · show s2.bounds.limitType i = .bounded
      rw [hb]
      exact (hactivity i).1
    · show s2.y.bound i = 0
      rw [hy2]
      exact hy i
    · -- there is no curvature, and no multiplier either
      have hcurvature : s2.hessian.combine 1 s2.x 0 s2.current.gradient i = 0 := by
        rw [Grid.combine_apply _ _ _ _ _ i.isLt, accumulate_eq_sum, zero_mul, zero_add]
        refine sum_eq_zero fun r _ => ?_
        rw [show s2.hessian r i = 0 from (h.congr hdata).hessian_eq r i, mul_zero]
      show Tuple.addScaled 1 s2.y.bound (Tuple.scale (-1) _) i = 0
      rw [Tuple.addScaled_apply _ _ _ i.isLt, Tuple.scale_apply _ _ i.isLt, hcurvature, hy2, hy]
      ring

/-! ## The first step -/

/-- On the lower limits, the direction of a multiplier is the gradient. -/
theorem Linear.dy_eq (h : s.Linear) (hat : s.AtLower) (hs : s.Moving) (hdirected : s.Directed s')
    (hframe : ∃ dx dy tilt, s' = { s with dx, dy, tilt }) (i : Fin n) :
    s'.dy.bound i = s.target.gradient i := by
  rw [← (hdirected.tracks hs.inStep hs.factored hs.symmetric).balanced i]
  obtain ⟨dx, dy, tilt, rfl⟩ := hframe
  show ∑ k ∈ range n, s.hessian i k * dx k + s.shift.gradient i = _
  rw [sum_eq_zero fun k _ => by rw [h.hessian_eq, zero_mul], zero_add]
  exact (Tuple.sub_apply _ _ i.isLt).trans (by rw [hat.gradient_eq, sub_zero])

/-- The first step ends at its start, where a variable is to leave its limit. -/
theorem Linear.stepLength_eq (h : s.Linear) (hat : s.AtLower)
    (hdy : ∀ i : Fin n, s.dy.bound i = s.target.gradient i) :
    ∃ i : Fin n, stepLength s = (0, .remove (.bound i)) := by
  -- at their lower limits all variables stay, so only a multiplier can block
  have hblocker : ∀ b, b ∈ s.boundBlockers ↔
      ∃ i : Fin n, s.target.gradient i < 0 ∧ b = ⟨0, .remove (.bound i)⟩ := by
    intro b
    rw [Core.mem_boundBlockers]
    refine exists_congr fun i => ?_
    rw [Course.mem_blockers]
    simp only [Core.boundCourse, hat.activity_eq, hat.limitType_eq, hat.multiplier_eq, hdy,
      h.epsZero_eq]
    simp
  -- one does, and at the very start of the homotopy
  obtain ⟨i, hi⟩ := h.falls
  obtain ⟨hcases, -, hfirst⟩ := firstBlocker_spec s.boundBlockers
  have hle := hfirst _ ((hblocker _).2 ⟨i, hi, rfl⟩)
  unfold stepLength
  rcases hcases with hfull | ⟨hmem, -⟩
  · rw [hfull] at hle
    exact absurd hle (not_le.2 zero_lt_one)
  · obtain ⟨j, -, hj⟩ := (hblocker _).1 hmem
    exact ⟨j, by rw [hj]⟩

/-- No variable can leave its limit, and the error says that the objective has no lower bound. -/
theorem Linear.changeWorkingSet_ensures (h : s.Linear) (hs : s.Moving)
    (hfits : s.Fits (.remove (.bound i))) :
    (changeWorkingSet (.remove (.bound i))).Ensures s (fun _ _ => False)
      fun f _ => f = .failed .hotstartStoppedUnboundedness := by
  have hactive : s.bounds.isActive i = true := EntitySet.CanLeave.active hfits
  -- the pivot is what is left of the curvature
  obtain ⟨a, hpivot, hdecided⟩ := hs.toReady.append?_decided hactive h.epsZero_eq
  obtain ⟨v, -, -, -, hcurvature⟩ := hpivot
  have hzero : a ≤ s.parameters.epsDefinite := by
    rw [← hcurvature, sum_eq_zero fun k _ => by rw [h.hessian_eq, zero_mul]]
    exact h.epsDefinite_nonneg
  refine (Box.changeWorkingSet_ensures hs.inStep (by exact nofun) hfits).mono ?_ ?_
  · rintro ⟨⟩ s' ⟨-, hchanged⟩
    cases hchanged with
    | removed hdeactivate hfactor =>
      rw [hfactor] at hdecided
      cases hdecided with
      | succeeds hlt => exact absurd hzero (not_le.2 hlt)
  · rintro f s' ⟨j, error, hevent, rfl, hhalf, -⟩
    cases hevent
    cases hhalf with
    | intro hdeactivate hfailed =>
      rw [hfailed] at hdecided
      cases hdecided with
      | fails =>
        unfold Core.extensionError
        exact congrArg Fault.failed (if_pos h.semidefinite)

/-- The first step ends with the verdict. -/
theorem Linear.step_ensures (h : s.Linear) (hat : s.AtLower) (hs : s.Moving) (index : ℕ) :
    ((method : Method ℝ n 0 (Box ℝ n)).step index).Ensures s (fun _ _ => False)
      fun f _ => f = .failed .hotstartStoppedUnboundedness := by
  let s0 : Box ℝ n := { s with status := .performingHomotopy }
  have h0 : s0.Linear := h.congr ⟨rfl, rfl, rfl, rfl⟩
  have hmoving0 : s0.Moving := hs.congr rfl rfl rfl rfl rfl
  have hlength {s1 : Box ℝ n} (hdirection : determineDirection s0 = .ok () s1) :
      ∃ i : Fin n, stepLength s1 = (0, .remove (.bound i)) ∧ s1.Linear ∧ s1.Moving := by
    obtain ⟨hdirected, hframe⟩ := (determineDirection_ensures hmoving0.inStep).of_ok hdirection
    have hdy := h0.dy_eq (hat.congr rfl rfl rfl) hmoving0 hdirected hframe
    obtain ⟨h1, hat1, hmoving1, htarget⟩ :
        s1.Linear ∧ s1.AtLower ∧ s1.Moving ∧ s1.target = s0.target := by
      obtain ⟨dx, dy, tilt, rfl⟩ := hframe
      exact ⟨h0.congr ⟨rfl, rfl, rfl, rfl⟩, hat.congr rfl rfl rfl,
        hmoving0.congr rfl rfl rfl rfl rfl, rfl⟩
    rw [← htarget] at hdy
    obtain ⟨i, hlength⟩ := h1.stepLength_eq hat1 hdy
    exact ⟨i, hlength, h1, hmoving1⟩
  -- the step goes nowhere, and the change of the working set fails there
  have hchanged {s1 : Box ℝ n} (hdirection : determineDirection s0 = .ok () s1) :
      (changeWorkingSet (stepLength s1).2).Ensures
        (s1.perform (stepLength s1).1 (stepLength s1).2) (fun _ _ => False)
        fun f _ => f = .failed .hotstartStoppedUnboundedness := by
    obtain ⟨i, hlength, h1, hmoving1⟩ := hlength hdirection
    have hfits := fits_stepLength s1
    rw [hlength] at hfits ⊢
    obtain ⟨x, y, current, hperform⟩ := Core.perform_frame 0 (.remove (.bound i)) s1
    rw [hperform]
    exact Linear.changeWorkingSet_ensures (h1.congr ⟨rfl, rfl, rfl, rfl⟩)
      (hmoving1.congr rfl rfl rfl rfl rfl) (hfits.congr rfl)
  have hsolved := hmoving0.solved h0.epsZero_eq
  refine (method.step_spec index s).mono (fun it s' hstep => ?_) fun f s' hfailed => ?_
  · cases hstep with
    | full hdirection hevent =>
      obtain ⟨i, hlength, -⟩ := hlength hdirection
      cases hevent.symm.trans (congrArg Prod.snd hlength)
    | changed hdirection _ hchange => exact ((hchanged hdirection).of_ok hchange).elim
  · cases hfailed with
    | undirected hdirection =>
      exact absurd ((determineDirection_ensures hmoving0.inStep).of_error hdirection).2.1 hsolved
    | unchanged hdirection _ hchange hreported =>
      cases (hchanged hdirection).of_error hchange
      cases hreported with
      | infeasible hinf => obtain h | h := hinf <;> cases h
      | unbounded => rfl
      | other => rfl
    | directionBroken hdirection =>
      exact absurd ((determineDirection_ensures hmoving0.inStep).of_error hdirection).2.1 hsolved
    | lengthBroken hdirection hevent =>
      obtain ⟨i, hlength, -⟩ := hlength hdirection
      cases hevent.symm.trans (congrArg Prod.snd hlength)
    | changeBroken hdirection _ hchange =>
      cases (hchanged hdirection).of_error hchange

/-- A solve without a guess ends with the verdict that a linear objective has no lower bound over a
box. -/
theorem Linear.solve_ensures {τ : Type} (h : s.Linear) (hs : s.BoundsInOrder)
    (obs : Observer ℝ n 0 τ) (view : τ) (budget : ℕ) :
    ((method : Method ℝ n 0 (Box ℝ n)).solve obs (budget + 1) none none).Ensures (s, view)
      (fun _ _ => False) fun f _ => f = .failed .initFailedUnboundedness := by
  unfold Method.solve
  rw [show Guess.ofArrays n 0 none none = Except.ok (⟨none, none⟩ : Guess ℝ n 0) from rfl,
    Update.ensures_bind, Update.ofExcept_ok, Update.ensures_pure, Update.ensures_bind,
    Update.ensures_first, Update.ensures_bind, Update.ensures_modify, Update.ensures_recover]
  refine ((prepare_reset_ensures ⟨none, none⟩ hs).and (h.prepare_ok hs)).mono ?_ fun _ _ h => h.2.elim
  rintro ⟨⟩ s1 ⟨⟨hsetup, hs1, -⟩, -⟩
  obtain ⟨hlinear, hat⟩ := h.started hsetup
  have hfactored := hsetup.factored ⟨h.declared.symmetric, h.declared.identity⟩ h.epsDefinite_nonneg
  have hmoving : s1.Moving :=
    ⟨⟨hs1, hfactored, hlinear.declared.symmetric⟩, hlinear.epsDefinite_nonneg⟩
  have hstep := Linear.step_ensures (s := method.clearVerdict s1) (hlinear.congr ⟨rfl, rfl, rfl, rfl⟩)
    (hat.congr rfl rfl rfl) (hmoving.congr rfl rfl rfl rfl rfl) 0
  rw [Update.ensures_mapError]
  refine (Method.homotopy_of_step (Q := fun _ => False) obs budget
    (hstep.mono (fun _ _ h => h.elim) fun _ _ h => h)).mono (fun _ _ h => h.2) ?_
  rintro f r rfl
  rfl

end Box

end ActiveSet
