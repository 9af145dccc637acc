import ActiveSet.Proofs.Solver.BoundsOnly.SetUp
import ActiveSet.Proofs.Solver.Box.Systems

/-!
# Two ways to solve a problem with bounds only

A solver for bounds keeps a triangular factor of the objective's matrix over the free variables, in
their order. A solver for bounds and constraints without constraints keeps one in a rotated basis, and
its free variables stand in another order. While no system has a tolerance, this makes no difference to
what they do: directions and pivots are solutions of the same systems over the free variables, and such
systems have one solution.

* `direction_alike`, `addBound_alike`, `removeBound_alike`: the parts of a step.
* `companions`: the solvers as a whole.
-/

namespace ActiveSet

variable {n : ℕ} {g : ℝ → ℝ} {s : Box ℝ n} {t : Constrained ℝ n 0}

/-! ## Directions -/

/-- Both solvers find the same direction. -/
theorem direction_alike (hs : s.Moving) (heps : s.parameters.epsZero = 0) (ht : t.Moving)
    (heps' : t.parameters.epsZero = 0) (h : s.Agrees g t.toCore) :
    Box.determineDirection.Alike Constrained.determineDirection s t
      (fun _ s' t' => s'.AgreesAlong g t'.toCore) fun _ s' t' => s'.Agrees g t'.toCore := by
  have hsolved := hs.toReady.solved heps
  have hsolved' := ht.toReady.solved heps'
  -- neither side can fail, which leaves the case that both directions are found
  refine Update.related_of_ensures (Box.determineDirection_ensures hs.inStep)
    (Constrained.determineDirection_ensures ht.inStep) ?_
    (fun _ _ _ _ hfailed _ => absurd hfailed.2.1 hsolved)
    (fun _ _ _ _ _ hfailed => hsolved' hfailed.2.2)
    (fun _ _ _ _ hfailed _ => hsolved hfailed.2.1)
  rintro ⟨⟩ s' ⟨⟩ t' ⟨hdirected, hframe⟩ hdirected'
  refine ⟨rfl, ?_⟩
  -- both directions solve the same regular system, so they are equal
  have htracks := hdirected.tracks hs.inStep hs.factored hs.symmetric
  have htracks' := hdirected'.tracks ht.toReady
  obtain ⟨dx, dy, tilt, rfl⟩ := hframe
  obtain ⟨dx', dy', tilt', dax', rfl⟩ := hdirected'.same
  have hregular := hs.factored.freeRegular hs.inStep
  obtain ⟨hdx, hdy⟩ := htracks.unique htracks' hregular h.bounds h.hessian h.shift
  exact ⟨h.withDirection _ _ _ _ _ _, hdx, hdy⟩

/-- Along the same direction the same bounds come in the way. -/
theorem Core.AgreesAlong.boundBlockers {m : ℕ} {c c' : Core ℝ n m} (h : c.AgreesAlong g c') :
    c'.boundBlockers = c.boundBlockers := by
  obtain ⟨hagree, hdx, hdy⟩ := h
  cases hagree with
  | intro dx dy tilt factor free =>
    obtain rfl : dx = c.dx := hdx
    obtain rfl : dy = c.dy := hdy
    rfl

theorem Core.AgreesAlong.perform {m : ℕ} {c c' : Core ℝ n m} (h : c.AgreesAlong g c') (tau : ℝ)
    (event : StepEvent n m) : (c.perform tau event).Agrees g (c'.perform tau event) := by
  obtain ⟨hagree, hdx, hdy⟩ := h
  cases hagree with
  | intro dx dy tilt factor free =>
    obtain rfl : dx = c.dx := hdx
    obtain rfl : dy = c.dy := hdy
    cases event with
    | full => exact .intro _ _ _ _ _
    | add e side => cases e <;> exact .intro _ _ _ _ _
    | remove e => exact .intro _ _ _ _ _

/-- Both solvers go equally far. -/
theorem stepLength_eq (h : s.AgreesAlong g t.toCore) : t.stepLength = s.stepLength := by
  have hrows : t.rowBlockers = [] := by
    rw [Constrained.rowBlockers, List.finRange_zero]
    rfl
  unfold Constrained.stepLength Box.stepLength
  rw [hrows, List.append_nil, h.boundBlockers]

/-! ## Changes of the working set -/

/-- Both solvers fix a variable. -/
theorem addBound_alike (hs : s.InStep) (ht : t.Moving) (hdependent : t.parameters.epsDependent < 1)
    (h : s.Agrees g t.toCore) {i : Fin n} {side : Activity} (hi : s.bounds.CanEnter i side) :
    (Box.addBound i side).Alike (Constrained.addEntity (.bound i) side) s t
      (fun _ s' t' => s'.Agrees g t'.toCore) fun _ s' t' => s'.Agrees g t'.toCore := by
  have hi' : t.CanEnter side (.bound i) := by
    unfold Constrained.CanEnter
    rw [h.bounds]
    exact hi
  -- without rows the unit vector of a free variable is never dependent
  have hindependent : ∀ w t1, t.Reordered t1 → t1.Prepared w (.bound i) → w.independent = true := by
    intro w t1 hreordered hw
    have ht1 := hreordered.moving ht
    refine hw.independent ht1.inStep ht1.factored ?_
    rw [hreordered.sameData.parameters]
    exact hdependent
  refine Update.related_of_ensures (Box.addBound_ensures hs hi)
    (Constrained.addEntity_ensures ht.inStep hi') ?_ (fun _ _ _ _ h => h.elim) ?_
    (fun _ _ _ _ h => h.elim)
  · rintro ⟨⟩ s' ⟨⟩ t' ⟨-, hchanged⟩ ⟨-, w, t1, hreordered, hw, ⟨-, hentered⟩ | ⟨hind, -⟩⟩
    · refine ⟨rfl, ?_⟩
      have hbounds : t1.bounds = s.bounds := by
        rw [← h.bounds]
        cases hreordered <;> rfl
      cases hchanged with
      | @added _ _ p bounds factor hp hactivate hfactor =>
        cases hentered with
        | @intro bounds' gs row factor' nullSpace hactivate' hrow hfactor' hnull =>
          rw [hbounds, hactivate] at hactivate'
          cases hactivate'
          cases hreordered <;> exact h.withWorkingSet rfl _ _ _ _ _
    · rw [hindependent w t1 hreordered hw] at hind
      cases hind
  · rintro ⟨⟩ s' f t' - ⟨error, w, t1, -, hreordered, hw, hind, -⟩
    rw [hindependent w t1 hreordered hw] at hind
    cases hind

/-- Both solvers free a variable, or cannot. -/
theorem removeBound_alike (hs : s.Moving) (heps : s.parameters.epsZero = 0) (ht : t.Moving)
    (heps' : t.parameters.epsZero = 0) (h : s.Agrees g t.toCore) {i : Fin n}
    (hi : s.bounds.CanLeave i) :
    (Box.removeBound i).Alike (Constrained.removeBound i) s t
      (fun _ s' t' => s'.Agrees g t'.toCore) fun _ s' t' => s'.Agrees g t'.toCore := by
  have hi' : t.bounds.CanLeave i := by
    rw [h.bounds]
    exact hi
  obtain ⟨a, ha, hdecided⟩ := hs.toReady.append?_decided hi.active heps
  have hregular := hs.factored.freeRegular hs.inStep
  -- the pivots of the two solvers are the same
  have hdecided' : ∀ t1, t.Released (.bound i) t1 → t1.Listed →
      Cholesky.DecidedBy a s.parameters.epsDefinite (t1.factor.append? t1.lastProducts
        t1.lastCurvature t1.parameters.epsDefinite t1.parameters.epsZero) := by
    intro t1 hreleased hlisted
    obtain ⟨b, hb, hdecided'⟩ := hreleased.append?_decided ht.toReady hlisted heps'
    obtain rfl := ha.unique (hb.congr h.bounds.symm h.hessian.symm) hregular
    rwa [h.epsDefinite] at hdecided'
  have hright : (Constrained.removeBound i).Ensures t
      (fun _ t' => ∃ t1, t.Released (.bound i) t1 ∧ t1.Listed ∧ t1.Extended t')
      fun f t' => ∃ t1 e, t.Released (.bound i) t1 ∧ t1.Listed ∧ f = .failed e ∧
        t1.Unfollowed .removeBoundFailed e t' :=
    Constrained.removeBound_of_released ht.inStep hi' fun t1 hreleased hlisted hdim _ =>
      (Constrained.extendFactor_ensures hlisted hdim _).mono
        (fun _ _ h => ⟨t1, hreleased, hlisted, h.1⟩)
        fun _ _ h => ⟨t1, h.choose, hreleased, hlisted, h.choose_spec⟩
  refine Update.related_of_ensures (Box.removeBound_ensures hs.inStep hi) hright ?_ ?_ ?_ ?_
  · rintro ⟨⟩ s' ⟨⟩ t' ⟨-, hchanged⟩ ⟨t1, hreleased, -, hextended⟩
    refine ⟨rfl, ?_⟩
    cases hchanged with
    | @removed _ bounds column factor hdeactivate hfactor =>
      cases hreleased with
      | @bound _ bounds' nullSpace column' hdeactivate' hnull =>
        rw [h.bounds, hdeactivate] at hdeactivate'
        cases hdeactivate'
        cases hextended
        exact h.withWorkingSet rfl _ _ _ _ _
  · rintro f s' f' t' ⟨⟨e, rfl, hhalf⟩, -⟩ ⟨t1, e', hreleased, hlisted, rfl, hunfollowed⟩
    have hdecided' := hdecided' t1 hreleased hlisted
    cases hhalf with
    | @intro bounds f hdeactivate hfailed =>
      cases hunfollowed with
      | @intro f' tilt hfailed' =>
        rw [hfailed] at hdecided
        rw [hfailed'] at hdecided'
        cases hreleased with
        | @bound _ bounds' nullSpace column' hdeactivate' hnull =>
          rw [h.bounds, hdeactivate] at hdeactivate'
          cases hdeactivate'
          refine ⟨?_, h.withWorkingSet rfl _ _ _ _ _⟩
          rw [hdecided.error_eq, hdecided'.error_eq, Core.extensionError, Core.extensionError]
          dsimp only
          rw [h.hessianType]
  · rintro ⟨⟩ s' f' t' ⟨-, hchanged⟩ ⟨t1, e', hreleased, hlisted, -, hunfollowed⟩
    have hdecided' := hdecided' t1 hreleased hlisted
    cases hchanged with
    | removed hdeactivate hfactor =>
      cases hunfollowed with
      | intro hfailed' =>
        rw [hfactor] at hdecided
        rw [hfailed'] at hdecided'
        exact hdecided.not_error hdecided'
  · rintro f s' ⟨⟩ t' ⟨⟨e, -, hhalf⟩, -⟩ ⟨t1, hreleased, hlisted, hextended⟩
    have hdecided' := hdecided' t1 hreleased hlisted
    cases hhalf with
    | intro hdeactivate hfailed =>
      cases hextended with
      | intro hfactor =>
        rw [hfailed] at hdecided
        rw [hfactor] at hdecided'
        exact hdecided'.not_error hdecided

end ActiveSet
