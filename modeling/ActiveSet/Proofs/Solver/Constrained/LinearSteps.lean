import ActiveSet.Proofs.Solver.Constrained.KnownAim

/-!
# Linear objectives with constraints

A linear objective that is declared to be semidefinite has no curvature, so no entity can leave the working
set: the pivot that it would give back is zero (`Linear.append?_fails`). If a step comes to an event where an
entity is to leave, or where one is to enter in the place of another one, it ends with the verdict that the
objective has no lower bound (`Linear.step_ensures`), whatever the limits are.
-/

namespace ActiveSet.Constrained

open Finset

variable {n m : ℕ} {s s' : Constrained ℝ n m} {z : ℕ → ℝ} {v : Entity n m → ℝ}
  {event : StepEvent n m} {e : Entity n m} {side : Activity} {w : PreparedRow ℝ}

theorem dependsOn_active_iff (hdata : s.SameData s') (hactivity : s'.activity = s.activity) :
    s'.DependsOn (fun a => s'.isActive a = true) e ↔ s.DependsOn (fun a => s.isActive a = true) e := by
  rw [hdata.dependsOn_iff]
  simp only [isActive, hactivity]

/-- A linear objective, declared to be semidefinite, and no tolerances. -/
structure Linear (s : Constrained ℝ n m) : Prop where
  type_eq : s.hessianType = .semidefinite
  hessian_eq : ∀ i j : ℕ, s.hessian i j = 0
  epsZero_eq : s.parameters.epsZero = 0
  epsDefinite_eq : s.parameters.epsDefinite = 0
  epsDependent_eq : s.parameters.epsDependent = 0

namespace Linear

theorem congr (h : s.Linear) (hdata : s.SameData s') : s'.Linear := by
  refine ⟨hdata.hessianType.trans h.type_eq, ?_, ?_, ?_, ?_⟩
  · rw [hdata.hessian]
    exact h.hessian_eq
  · rw [hdata.parameters]
    exact h.epsZero_eq
  · rw [hdata.parameters]
    exact h.epsDefinite_eq
  · rw [hdata.parameters]
    exact h.epsDependent_eq

theorem form_eq (h : s.Linear) (u : ℕ → ℝ) : form n s.hessian u = 0 := by
  simp [form, h.hessian_eq]

theorem convex (h : s.Linear) : s.Convex :=
  ⟨fun u => (h.form_eq u).ge, h.epsZero_eq, h.epsDefinite_eq⟩

theorem declared (h : s.Linear) : s.Declared := by
  refine ⟨fun i j => ?_, fun htype => ?_⟩
  · rw [h.hessian_eq, h.hessian_eq]
  · cases h.type_eq.symm.trans htype

/-! ## Nothing can leave -/

theorem reduced_eq_zero (h : s.Linear) (hs : s.Listed) (i j : ℕ) : s.reduced i j = 0 := by
  rw [reduced_eq hs]
  refine sum_eq_zero fun p hp => mul_eq_zero_of_right _ (sum_eq_zero fun r hr => ?_)
  rw [freeHessian, gather_of_lt (mem_range.1 hp), gather_of_lt (mem_range.1 hr), h.hessian_eq, zero_mul]

/-- The pivot of an entity that has been released is zero. -/
theorem append?_fails (h : s.Linear) (hs : s.Listed) (hf : s.Factored)
    (hdim : s.factor.dim + 1 = s.nNull) : ∃ r, s.factor.append? s.lastProducts s.lastCurvature
      s.parameters.epsDefinite s.parameters.epsZero = some (.error ⟨.hessianNotSpd, r⟩) := by
  have hle := hs.length_free_le
  have hnull := hs.nNull_add
  obtain ⟨u, -, hdecided⟩ := hf.triangular.append?_decided (by omega)
    (show s.nNull - 1 = s.factor.dim by omega) s.lastProducts s.lastCurvature s.parameters.epsDefinite
  have hcurvature : s.lastCurvature = 0 := (lastCurvature_eq hs).trans (h.reduced_eq_zero hs _ _)
  have hproducts : ∀ i, i < s.factor.dim → s.lastProducts i = 0 := fun i hi =>
    (lastProducts_apply hs (by omega)).trans (h.reduced_eq_zero hs _ _)
  have hpivot : s.lastCurvature - ∑ i ∈ range s.factor.dim, s.lastProducts i * u i = 0 := by
    rw [hcurvature, sum_eq_zero fun i hi => by rw [hproducts i (mem_range.1 hi), zero_mul], sub_zero]
  rw [hpivot, h.epsDefinite_eq] at hdecided
  rw [h.epsZero_eq, h.epsDefinite_eq]
  generalize s.factor.append? _ _ _ _ = r at hdecided ⊢
  cases hdecided with
  | succeeds hlt => exact absurd hlt (lt_irrefl _)
  | fails _ r => exact ⟨r, rfl⟩

theorem not_left (h : s.Linear) (hs : s.Moving) : ¬s.Left e s' := by
  rintro ⟨s1, hreleased, hlisted, hextended⟩
  have hdata : s.SameData s1 := by
    cases hreleased <;> exact ⟨rfl, rfl, rfl, rfl, rfl⟩
  obtain ⟨r, hfails⟩ := (h.congr hdata).append?_fails hlisted
    (hreleased.factored hs.inStep hs.factored) (hreleased.dim_succ hs.inStep hlisted)
  cases hextended with
  | intro happend =>
    rw [hfails] at happend
    cases happend

/-- What is released and cannot leave is reported with the verdict. -/
theorem error_eq (h : s.Linear) (hs : s.Moving) {error : QpError} (hstranded : s.Stranded e error s') :
    error = .hotstartStoppedUnboundedness := by
  obtain ⟨s1, removal, hreleased, hlisted, hdim, hunfollowed⟩ := hstranded
  have hdata : s.SameData s1 := by
    cases hreleased <;> exact ⟨rfl, rfl, rfl, rfl, rfl⟩
  obtain ⟨r, hfails⟩ := (h.congr hdata).append?_fails hlisted
    (hreleased.factored hs.inStep hs.factored) hdim
  cases hunfollowed with
  | intro hfailed =>
    rw [hfails] at hfailed
    cases hfailed
    exact if_pos (h.congr hdata).type_eq

/-- Where the row of an entity is a combination of active rows, and something could leave for it, the working
set does not follow. -/
theorem changeWorkingSet_ensures (h : s.Linear) (hs : s.Moving) (hevent : event ≠ .full)
    (hfits : s.Fits event) (hway : ∀ e side, event = .add e side →
      s.DependsOn (fun a => s.isActive a = true) e ∧ ¬s.Walled e side) :
    (changeWorkingSet event).Ensures s (fun _ _ => False)
      fun f _ => f = .failed .hotstartStoppedUnboundedness := by
  refine (Constrained.changeWorkingSet_ensures hs.inStep hevent hfits).mono ?_ ?_
  · -- neither a release nor an exchange succeeds, as nothing can leave for lack of curvature
    rintro ⟨⟩ s' ⟨hchanged, -⟩
    cases hchanged with
    | @added e side w s1 _ hreordered hw hind =>
      have hs1 := hreordered.moving hs
      obtain ⟨-, hactivity, -⟩ := hreordered.kept
      have hdepends := (dependsOn_active_iff hreordered.sameData hactivity).2 (hway e side rfl).1
      rw [hw.independent_of_dependsOn hs1.inStep.toListed hs1.factored.split
        (h.congr hreordered.sameData).epsDependent_eq.ge hdepends] at hind
      cases hind
    | exchanged hreordered hw hind hexchanged =>
      cases hexchanged with
      | intro hswapped =>
        obtain ⟨s2, s3, hdependent, -, hleft, -⟩ := hswapped.chain
        exact (h.congr (hreordered.sameData.trans hdependent.sameData)).not_left
          (hdependent.moving (hreordered.moving hs)) hleft
    | removed hleft => exact h.not_left hs hleft
  · -- of all errors, only the one at the missing pivot is left
    rintro f s' ⟨error, rfl, hfailed⟩
    refine congrArg Fault.failed ?_
    cases hfailed with
    | refused _ _ hcause =>
      cases hcause with
      | undetermined hreordered hundetermined =>
        exact absurd hundetermined ((hreordered.moving hs).determined
          (h.congr hreordered.sameData).epsZero_eq)
      | exchange hreordered hw hind hdependent hstranded =>
        exact (h.congr (hreordered.sameData.trans hdependent.sameData)).error_eq
          (hdependent.moving (hreordered.moving hs)) hstranded
      | removal hstranded => exact h.error_eq hs hstranded
    | @stuck e side w s1 _ hreordered hw hind hstuck =>
      have hs1 := hreordered.moving hs
      have hwalled := hstuck.walled hs1.inStep hs1.factored.split hw
        (h.congr hreordered.sameData).epsDependent_eq hind (hreordered.canEnter hfits)
      obtain ⟨hkept, hactivity, -⟩ := hreordered.kept
      exact absurd (hwalled.congr hkept.toSameData.symm hactivity.symm fun a => (hkept.type_eq a).symm)
        (hway e side rfl).2
    | dependent hreordered hw hind hswapped =>
      obtain ⟨s2, s3, hdependent, -, hleft, -⟩ := hswapped.chain
      exact absurd hleft ((h.congr (hreordered.sameData.trans hdependent.sameData)).not_left
        (hdependent.moving (hreordered.moving hs)))

end Linear

/-! ## Steps -/

/-- One thing is wrong with the aim of a step for a linear objective: an entity is to leave, or one is to
enter for which another one could leave. -/
structure HeldUp (s : Constrained ℝ n m) (event : StepEvent n m) : Prop where
  linear : s.Linear
  underway : s.Underway True
  aims : ∃ z v, s.Aims z v ∧ s.Objection z v event ∧ ∀ event', s.Objection z v event' → event' = event
  exchange : ∀ e side, event = .add e side →
    s.DependsOn (fun a => s.isActive a = true) e ∧ ¬s.Walled e side

namespace HeldUp

theorem ne_full (h : s.HeldUp event) : event ≠ .full := by
  rintro rfl
  obtain ⟨z, v, -, hobjection, -⟩ := h.aims
  cases hobjection

/-- The step comes to this event, and the working set does not follow. -/
theorem comes_to (h : s.HeldUp event) {s1 : Constrained ℝ n m}
    (hdirection : determineDirection { s with status := .performingHomotopy } = .ok () s1) :
    s1.stepLength.2 = event ∧ (changeWorkingSet s1.stepLength.2).Ensures
      (s1.perform s1.stepLength.1 s1.stepLength.2) (fun _ _ => False)
      fun f _ => f = .failed .hotstartStoppedUnboundedness := by
  obtain ⟨z, v, haims, hobjection, honly⟩ := h.aims
  obtain ⟨hevent, hs2, hfits, hsame⟩ :=
    h.underway.comes_to h.linear.convex.semidefinite haims hobjection honly hdirection
  rw [hevent] at hs2 hfits hsame ⊢
  refine ⟨rfl, (h.linear.congr hsame.toSameData).changeWorkingSet_ensures hs2.toMoving h.ne_full hfits
    fun e side he => ?_⟩
  obtain ⟨hdepends, hnot⟩ := h.exchange e side he
  exact ⟨(dependsOn_active_iff hsame.toSameData hsame.activity).2 hdepends, fun hwalled => hnot
    (hwalled.congr hsame.toSameData.symm hsame.activity.symm fun a => congrFun hsame.limitType.symm a)⟩

/-- So it ends with the verdict. -/
theorem step_ensures (h : s.HeldUp event) (index : ℕ) :
    ((method : Method ℝ n m (Constrained ℝ n m)).step index).Ensures s (fun _ _ => False)
      fun f _ => f = .failed .hotstartStoppedUnboundedness := by
  have hs0 := h.underway.withVerdict .performingHomotopy s.infeasible s.unbounded
  have hsolved := hs0.solved hs0.epsZero_eq
  refine (method.step_spec index s).mono (fun it s' hstepped => ?_) fun f s' hfailed => ?_
  · -- the event is known and its change fails, so the step does not succeed
    cases hstepped with
    | full hdirection hevent => exact absurd ((h.comes_to hdirection).1.symm.trans hevent) h.ne_full
    | changed hdirection _ hchange => exact ((h.comes_to hdirection).2.of_ok hchange).elim
  · -- of the ways to fail only that of the change is left
    cases hfailed with
    | undirected hdirection | directionBroken hdirection =>
      exact absurd ((determineDirection_ensures hs0.inStep).of_error hdirection).2.2 hsolved
    | unchanged hdirection _ hchange hreported =>
      cases (h.comes_to hdirection).2.of_error hchange
      cases hreported with
      | infeasible hinf => obtain h | h := hinf <;> cases h
      | unbounded => rfl
      | other => rfl
    | lengthBroken hdirection hevent =>
      exact absurd ((h.comes_to hdirection).1.symm.trans hevent) h.ne_full
    | changeBroken hdirection _ hchange => cases (h.comes_to hdirection).2.of_error hchange

/-- If this is the first step of a call, the call ends with the verdict, which comes at this event. -/
theorem call {c : Call ℝ n m (Loading ℝ)} {start : Constrained ℝ n m}
    (h : (method.clearVerdict start).HeldUp event)
    (hstarts : (Constrained.interface ℝ n m).StartsBy s c start) (hbudget : 0 < c.budget) :
    ∃ s', (Constrained.interface ℝ n m).call c s =
        (.error ((Fault.failed .hotstartStoppedUnboundedness).mapError c.report), s') ∧
      ∀ start' event' s1 s2, (Constrained.interface ℝ n m).StartsBy s c start' →
        (Constrained.interface ℝ n m).method.Condemned start' event' s1 s2 → event' = event := by
  obtain ⟨f, s', hrun, rfl⟩ := (h.step_ensures 0).exists_error
  refine ⟨s', hstarts.call_of_failing hbudget hrun, fun start' event' s1 s2 hstarts' hcondemned => ?_⟩
  obtain rfl := hstarts'.unique hstarts
  cases hcondemned with
  | intro hcomes hchange =>
    cases hcomes with
    | intro hbetween hdirection hevent =>
      obtain rfl := hbetween.eq_start fun index it s' hstep => (h.step_ensures index).of_ok hstep
      exact (h.comes_to hdirection).1

end HeldUp

end ActiveSet.Constrained
