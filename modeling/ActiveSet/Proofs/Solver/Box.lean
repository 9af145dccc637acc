import ActiveSet.Proofs.Factor.Dimensions
import ActiveSet.Proofs.Solver.Bounds
import ActiveSet.Proofs.Solver.Loading
import Mathlib.Data.List.Perm.Basic

/-!
# The working set of a solver for bounds

While there is a factorization, the list of free variables agrees with the bounds and the factor has
one row for each of them (`Box.InStep`). Each part of a solve keeps this for any arithmetic, so none
of their requirements is ever broken.

* `Box.addBound_ensures`, `Box.removeBound_ensures`: what a change of the working set computes.
* `Box.phases`, `Box.respects`: the invariant, phase by phase.
-/

namespace ActiveSet.Box

variable {K : Type} [Scalar K] {n : Nat} {s : Box K n}

/-- The records of the working set agree with each other and with the factor. -/
structure InStep (s : Box K n) : Prop extends s.BoundsInOrder, s.FreeInStep where
  dim_eq : s.factor.dim = s.free.length

/-- An event names a bound that can follow it. -/
def Fits (s : Box K n) : StepEvent n 0 → Prop
  | .full => True
  | .add (.bound i) side => s.bounds.CanEnter i side
  | .remove (.bound i) => s.bounds.CanLeave i
  | .add (.constraint _) _ | .remove (.constraint _) => False

omit [Scalar K] in
theorem InStep.congr {s' : Box K n} (h : s.InStep) (hb : s'.bounds = s.bounds)
    (hf : s'.free = s.free) (hdim : s'.factor.dim = s.factor.dim) : s'.InStep := by
  refine ⟨h.toBoundsInOrder.congr hb, h.toFreeInStep.congr hb hf, ?_⟩
  rw [hdim, hf]
  exact h.dim_eq

/-! ## Changes of the working set -/

/-- The column that borders the factor when a variable becomes free. -/
def newColumn (s : Box K n) (i : Fin n) : Tuple K s.free.length :=
  Tuple.ofFn _ fun p => gather s.free (fun v => s.hessian v i) p

/-- The working set has followed an event. -/
inductive Changed (s : Box K n) : StepEvent n 0 → Box K n → Prop
  | added {i : Fin n} {side : Activity} {p : Nat} {bounds : EntitySet .bound n}
    {factor : Cholesky K n} (hp : s.free[p]? = some i)
    (hactivate : s.bounds.activate i side = .ok bounds)
    (hfactor : s.factor.removeColumn? p = some factor) :
    Changed s (.add (.bound i) side) { s with bounds, factor, free := s.free.eraseIdx p }
  | removed {i : Fin n} {bounds : EntitySet .bound n} {column : Tuple K s.free.length}
    {factor : Cholesky K n} (hdeactivate : s.bounds.deactivate i = .ok bounds)
    (hfactor : s.factor.append? (s.newColumn i) (s.hessian i i) s.parameters.epsDefinite
      s.parameters.epsZero = some (.ok (column, factor))) :
    Changed s (.remove (.bound i)) { s with bounds, factor, free := s.free ++ [i] }

/-- The factor cannot be extended by a variable. -/
def Stranded (s : Box K n) (i : Fin n) : Prop :=
  ∃ f, s.factor.append? (s.newColumn i) (s.hessian i i) s.parameters.epsDefinite
    s.parameters.epsZero = some (.error f)

/-- A bound has left the working set, but the factor could not follow. -/
inductive HalfRemoved (s : Box K n) (i : Fin n) : QpError → Box K n → Prop
  | intro {bounds : EntitySet .bound n} {f : Failure (Tuple K s.free.length)}
    (hdeactivate : s.bounds.deactivate i = .ok bounds)
    (hfailed : s.factor.append? (s.newColumn i) (s.hessian i i) s.parameters.epsDefinite
      s.parameters.epsZero = some (.error f)) :
    HalfRemoved s i (s.extensionError .removeBoundFailed f.error) { s with bounds }

/-- A bound enters: the factor loses a column, and the list of free variables a position. -/
theorem addBound_ensures (hs : s.InStep) {i : Fin n} {side : Activity}
    (h : s.bounds.CanEnter i side) :
    (addBound i side).Ensures s
      (fun _ s' => s'.InStep ∧ s.Changed (.add (.bound i) side) s') fun _ _ => False := by
  have hmem : i ∈ s.free := (hs.listed.mem_iff i).2 h.isActive_eq
  -- an inactive bound leaves room in the set, and its variable a column in the factor
  have hroom : s.bounds.partition.activeCount < s.bounds.partition.capacity := by
    rw [hs.capacity]
    exact hs.sound.activeCount_lt h.isActive_eq
  obtain ⟨bounds, hbounds, hmoved, hclass⟩ := h.activate hs.sound hs.classified hroom
  unfold addBound
  rw [Update.ensures_bind, Update.ensures_get]
  cases hfind : s.free.idxOf? i with
  | none => exact absurd hmem (List.idxOf?_eq_none_iff.1 hfind)
  | some p =>
    obtain ⟨hp, hpi, -⟩ := List.idxOf?_eq_some_iff.1 hfind
    obtain ⟨factor, hfactor, hdim⟩ := Cholesky.removeColumn?_of (hs.dim_eq ▸ hp)
    dsimp only
    rw [hbounds, hfactor, Update.ensures_bind, Update.ofExcept_ok, Update.ensures_mapError,
      Update.ensures_pure, Update.ensures_bind, Update.require_some, Update.ensures_pure,
      Update.ensures_set]
    have hperm : s.free.Perm (i :: s.free.eraseIdx p) := by
      rw [← hpi]
      exact (List.getElem_cons_eraseIdx_perm hp).symm
    refine ⟨⟨⟨hmoved.sound, hmoved.capacity.trans hs.capacity⟩,
      ⟨hs.listed.remove hperm (by simp [h.isActive_side]) hmoved, hclass⟩, ?_⟩,
      .added (by rw [List.getElem?_eq_getElem hp, hpi]) hbounds hfactor⟩
    rw [hdim, hs.dim_eq, List.length_eraseIdx_of_lt hp]

/-- A bound leaves: the factor is bordered by its row, and the variable is the last free one. If the
factor cannot be extended, the records of the bounds still agree. -/
theorem removeBound_ensures (hs : s.InStep) {i : Fin n} (h : s.bounds.CanLeave i) :
    (removeBound i).Ensures s
      (fun _ s' => s'.InStep ∧ s.Changed (.remove (.bound i)) s')
      fun f s' => (∃ e, f = .failed e ∧ s.HalfRemoved i e s') ∧ s'.BoundsInOrder := by
  obtain ⟨bounds, hbounds, hmoved, hclass⟩ := h.deactivate hs.sound hs.classified
  have horder : { s with bounds := bounds }.BoundsInOrder :=
    ⟨hmoved.sound, hmoved.capacity.trans hs.capacity⟩
  have hlt := hs.length_free_lt h.active
  unfold removeBound
  rw [Update.ensures_bind, Update.ensures_get, hbounds, Update.ofExcept_ok, Update.ensures_bind,
    Update.ensures_mapError, Update.ensures_pure, Update.ensures_bind, Update.ensures_set]
  change Update.Ensures (Update.require (s.factor.append? (s.newColumn i) (s.hessian i i)
    s.parameters.epsDefinite s.parameters.epsZero) >>= _) _ _ _
  -- the factor of the larger set either exists or is refused for its pivot
  obtain ⟨column, factor, hfactor, hdim⟩ | ⟨e, herror⟩ :=
    Cholesky.append?_of (f := s.factor) (s.newColumn i) (s.hessian i i)
      s.parameters.epsDefinite s.parameters.epsZero (hs.dim_eq ▸ hlt) hs.dim_eq.symm
  · rw [hfactor, Update.require_some, Update.ensures_bind, Update.ensures_pure, Update.ensures_set]
    have hperm : (s.free ++ [i]).Perm (i :: s.free) := List.perm_append_singleton i s.free
    refine ⟨⟨⟨horder.sound, horder.capacity⟩,
      ⟨hs.listed.insert hperm (by simp [h.active]) rfl hmoved, hclass⟩, ?_⟩,
      .removed hbounds hfactor⟩
    rw [hdim, hs.dim_eq, List.length_append, List.length_singleton]
  · -- a refused pivot leaves the bound inactive
    rw [herror, Update.require_some, Update.ensures_bind, Update.ensures_pure, Update.ensures_fail]
    exact ⟨⟨_, rfl, .intro hbounds herror⟩, horder⟩

/-! ## Auxiliary problem -/

/-- The entry of the objective's matrix for two free variables. -/
def freeHessian (s : Box K n) (i j : Nat) : K :=
  gather s.free (fun u => gather s.free (s.hessian u) j) i

/-- The objective's matrix has been factorized on the free variables. -/
inductive Factorized (s : Box K n) : Box K n → Prop
  | identity {factor : Cholesky K n} (hidentity : s.identityHessian = true)
    (hfactor : s.factor.identity? s.free.length = some factor) : Factorized s { s with factor }
  | computed {factor : Cholesky K n} (hidentity : s.identityHessian = false)
    (hfactor : s.factor.factorize? s.free.length s.freeHessian s.parameters.epsDefinite =
      some (.ok factor)) : Factorized s { s with factor }

/-- A pivot of the objective's matrix on the free variables is too small. -/
def Unfactorized (s : Box K n) : Prop :=
  ∃ f, s.factor.factorize? s.free.length s.freeHessian s.parameters.epsDefinite =
    some (.error f)

/-- The factorization of an auxiliary problem writes the factor only, which then has a row for each
free variable. -/
theorem factorize_ensures (hfree : s.free.length ≤ n) :
    factorize.Ensures s
      (fun _ s' => s.Factorized s' ∧
        ∃ factor : Cholesky K n, factor.dim = s.free.length ∧ s' = { s with factor })
      fun f s' => (f = .failed .initFailedCholesky ∧ s.Unfactorized) ∧
        ∃ factor, s' = { s with factor } := by
  unfold factorize
  rw [Update.ensures_bind, Update.ensures_get, Update.ensures_ite]
  constructor
  · intro hidentity
    obtain ⟨factor, hfactor, hdim⟩ := Cholesky.identity?_of (f := s.factor) hfree
    rw [hfactor, Update.require_some, Update.ensures_bind, Update.ensures_pure, Update.ensures_set]
    exact ⟨.identity hidentity hfactor, factor, hdim, rfl⟩
  · intro hidentity
    dsimp only
    rw [Update.ensures_bind]
    change Update.Ensures (Update.require
      (s.factor.factorize? s.free.length s.freeHessian s.parameters.epsDefinite)) s _ _
    obtain ⟨factor, hfactor, hdim⟩ | ⟨e, herror⟩ :=
      Cholesky.factorize?_of (f := s.factor) s.freeHessian s.parameters.epsDefinite hfree
    · rw [hfactor, Update.require_some, Update.ensures_pure, Update.ensures_set]
      exact ⟨.computed (by simpa using hidentity) hfactor, factor, hdim, rfl⟩
    · rw [herror, Update.require_some, Update.ensures_pure, Update.ensures_bind,
        Update.ensures_set, Update.ensures_fail]
      exact ⟨⟨rfl, e, herror⟩, e.left, rfl⟩

/-- The auxiliary problem has been set up. -/
inductive SetUp (guess : Guess K n 0) (s : Box K n) : Box K n → Prop
  | intro {s1 s2 : Box K n}
    (hbounds : Core.BoundsPrepared guess { s with status := .preparingAuxiliary } s1)
    (hfactorized : s1.Factorized s2) :
    SetUp guess s { s2.auxiliaryData with status := .auxiliarySolved }

/-- How a set-up fails: limits or a guess are refused, or the objective's matrix has no factor. -/
inductive SetUpFailed (guess : Guess K n 0) (s : Box K n) : QpError → Prop
  | refused {e : QpError} (he : e ∈ setupRefusals) : SetUpFailed guess s e
  | unfactorized {s1 : Box K n}
    (hbounds : Core.BoundsPrepared guess { s with status := .preparingAuxiliary } s1)
    (h : s1.Unfactorized) : SetUpFailed guess s .initFailedCholesky

theorem prepare_ensures (guess : Guess K n 0) (hs : s.BoundsInOrder)
    (hinactive : ∀ i : Fin n, s.bounds.isActive i = false) :
    (prepare guess).Ensures s
      (fun _ s' => s.SetUp guess s' ∧ s'.InStep ∧ s'.status = .auxiliarySolved)
      fun f s' => (∃ e, f = .failed e ∧ s.SetUpFailed guess e) ∧ s'.BoundsInOrder := by
  unfold prepare
  rw [Update.ensures_bind, Update.ensures_modify]
  refine Update.ensures_bind_of (Core.prepareBounds_ensures guess hs.sound hinactive) ?_ ?_
  · rintro f s' ⟨⟨e, he, hf⟩, hsound, hcap⟩
    exact ⟨⟨e, hf, .refused he⟩, hsound, hcap.trans hs.capacity⟩
  rintro ⟨⟩ s1 hs1
  have horder : s1.BoundsInOrder := ⟨hs1.sound, hs1.capacity.trans hs.capacity⟩
  have hfree := hs1.freeInStep.length_free_le
  refine Update.ensures_bind_of (factorize_ensures hfree) ?_ ?_
  · rintro f _ ⟨⟨hf, hunfactorized⟩, factor, rfl⟩
    exact ⟨⟨_, hf, .unfactorized hs1 hunfactorized⟩, horder.sound, horder.capacity⟩
  rintro ⟨⟩ _ ⟨hfactorized, factor, hdim, rfl⟩
  rw [Update.ensures_modify]
  exact ⟨.intro hs1 hfactorized, ⟨⟨horder.sound, horder.capacity⟩,
    ⟨hs1.freeInStep.listed, hs1.freeInStep.classified⟩, hdim⟩, rfl⟩

/-! ## Steps -/

/-- The right-hand side of the system for the direction of the free variables. -/
def freeRhs (s : Box K n) : Tuple K s.free.length := Tuple.ofFn _ fun p => -gather s.free s.tilt p

/-- The free variables have moved by the solution of a system. -/
def withFree (s : Box K n) (z : Tuple K s.free.length) : Box K n :=
  Core.withTilt { s with dx := spread s.free (fun p _ => z p) s.dx }

/-- The multipliers of the fixed variables have taken up what is left of the gradient. -/
def withMultipliers (s : Box K n) : Box K n :=
  { s with
    dy := ⟨Tuple.ofFn n fun i => if s.bounds.isActive i then s.tilt i else s.dy.bound i,
      s.dy.row⟩ }

/-- A direction has been determined by the two systems of the factor. -/
inductive Directed (s : Box K n) : Box K n → Prop
  | intro {z w : Tuple K s.fixedDirection.withTilt.free.length}
    (hz : s.factor.solveRT? s.parameters.epsZero (freeRhs s.fixedDirection.withTilt) =
      some (.ok z)) (hw : s.factor.solveR? s.parameters.epsZero z = some (.ok w)) :
    Directed s (withFree s.fixedDirection.withTilt w).withMultipliers

/-- One of the two systems of the factor cannot be solved. -/
def Unsolved (s : Box K n) : Prop :=
  (∃ f, s.factor.solveRT? s.parameters.epsZero (freeRhs s.fixedDirection.withTilt) =
    some (.error f)) ∨
  ∃ (z : Tuple K s.free.length) (f : _), s.factor.solveR? s.parameters.epsZero z = some (.error f)

/-- A direction is two systems with the factor, which have its dimension; it writes nothing that the
working set is recorded in. -/
theorem determineDirection_ensures (hs : s.InStep) :
    determineDirection.Ensures s
      (fun _ s' => s.Directed s' ∧ ∃ dx dy tilt, s' = { s with dx, dy, tilt })
      fun f s' => (∃ e, f = .failed e) ∧ s.Unsolved ∧
        ∃ dx dy tilt, s' = { s with dx, dy, tilt } := by
  unfold determineDirection
  rw [Update.ensures_bind, Update.ensures_modify, Update.ensures_bind, Update.ensures_get]
  -- the factor has as many columns as there are free variables, so only a pivot can be in the way
  have hdim : s.factor.dim = s.fixedDirection.withTilt.free.length := hs.dim_eq
  change Update.Ensures (Update.ofAttempt (s.factor.solveRT? s.parameters.epsZero
    (freeRhs s.fixedDirection.withTilt)) >>= _) _ _ _
  rw [Update.ensures_bind]
  cases hz : s.factor.solveRT? s.parameters.epsZero (freeRhs s.fixedDirection.withTilt) with
  | none =>
    rw [Cholesky.solveRT?_of _ _ hdim.symm] at hz
    cases hz
  | some r =>
    cases r with
    | error e =>
      rw [Update.ofAttempt_error, Update.ensures_fail]
      exact ⟨⟨_, rfl⟩, .inl ⟨e, hz⟩, _, _, _, rfl⟩
    | ok z =>
      rw [Update.ofAttempt_ok, Update.ensures_pure]
      change Update.Ensures (Update.ofAttempt (s.factor.solveR? s.parameters.epsZero z) >>= _) _ _ _
      rw [Update.ensures_bind]
      cases hw : s.factor.solveR? s.parameters.epsZero z with
      | none =>
        rw [Cholesky.solveR?_of _ _ hdim.symm] at hw
        cases hw
      | some r =>
        cases r with
        | error e =>
          rw [Update.ofAttempt_error, Update.ensures_fail]
          exact ⟨⟨_, rfl⟩, .inr ⟨z, e, hw⟩, _, _, _, rfl⟩
        | ok w =>
          rw [Update.ofAttempt_ok, Update.ensures_pure, Update.ensures_bind, Update.ensures_modify,
            Update.ensures_modify]
          exact ⟨.intro hz hw, _, _, _, rfl⟩

/-- A step ends in an event that the working set can follow. -/
theorem fits_stepLength (s : Box K n) : s.Fits (stepLength s).2 := by
  unfold stepLength
  dsimp only
  obtain h | h := firstBlocker_cases s.boundBlockers
  · rw [h]
    trivial
  · obtain ⟨i, ⟨hevent, hleave⟩ | ⟨side, hevent, henter⟩⟩ := Core.boundBlocker_event h
    · rw [hevent]
      exact hleave
    · rw [hevent]
      exact henter

/-- A step goes the whole way, or it ends in an event that the working set can follow. -/
theorem stepLength_cases (s : Box K n) :
    stepLength s = (1, .full) ∨ (stepLength s).2 ≠ .full ∧ s.Fits (stepLength s).2 := by
  have hfits := fits_stepLength s
  obtain h | h := firstBlocker_cases s.boundBlockers
  · left
    unfold stepLength
    rw [h]
  · right
    refine ⟨?_, hfits⟩
    obtain ⟨i, ⟨hevent, -⟩ | ⟨side, hevent, -⟩⟩ := Core.boundBlocker_event h
    · exact hevent.trans_ne nofun
    · exact hevent.trans_ne nofun

omit [Scalar K] in
theorem Fits.congr {s' : Box K n} {event : StepEvent n 0} (h : s.Fits event) (hb : s'.bounds = s.bounds) :
    s'.Fits event := by
  match event, h with
  | .full, h => exact h
  | .add (.bound i) side, h =>
    unfold Fits
    rw [hb]
    exact h
  | .remove (.bound i), h =>
    unfold Fits
    rw [hb]
    exact h

/-! ## Sessions -/

/-- The working set in the course of a session. The errors of a change of the working set come from
the factor, and none of them says that no point is feasible. -/
def phases (K : Type) [Scalar K] (n : Nat) : Phases n 0 (Box K n) where
  rest := Core.BoundsInOrder
  ready := InStep
  moving := InStep
  directed := InStep
  stepped event s := s.InStep ∧ s.Fits event
  arrived := InStep
  blocked _ := False
  refusal e := e ∈ [.removeBoundFailed, .hessianNotSpd, .hotstartStoppedUnboundedness]

/-- The errors with which a bound may be refused to leave. -/
theorem HalfRemoved.refusal {i : Fin n} {error : QpError} {s' : Box K n}
    (h : s.HalfRemoved i error s') : (phases K n).refusal error := by
  cases h with
  | @intro bounds f hdeactivate hfailed => exact s.extensionError_mem .removeBoundFailed f.error

theorem HalfRemoved.stranded {i : Fin n} {error : QpError} {s' : Box K n}
    (h : s.HalfRemoved i error s') : s.Stranded i := by
  cases h with
  | intro hdeactivate hfailed => exact ⟨_, hfailed⟩

/-- How a change of the working set fails: the factor cannot be extended by the variable that
becomes free. -/
theorem changeWorkingSet_ensures (hs : s.InStep) {event : StepEvent n 0} (hevent : event ≠ .full)
    (hfits : s.Fits event) :
    (changeWorkingSet event).Ensures s (fun _ s' => s'.InStep ∧ s.Changed event s') fun f s' =>
      ∃ i error, event = .remove (.bound i) ∧ f = .failed error ∧ s.HalfRemoved i error s' ∧
        s'.BoundsInOrder := by
  cases event with
  | full => exact absurd rfl hevent
  | add e side =>
    cases e with
    | bound i => exact (addBound_ensures hs hfits).mono (fun _ _ h => h) fun _ _ h => h.elim
    | constraint i => exact hfits.elim
  | remove e =>
    cases e with
    | bound i =>
      refine (removeBound_ensures hs hfits).mono (fun _ _ h => h) ?_
      rintro f s' ⟨⟨error, rfl, hhalf⟩, horder⟩
      exact ⟨i, error, rfl, rfl, hhalf, horder⟩
    | constraint i => exact hfits.elim

theorem stepLength_eq_one (h : (stepLength s).2 = .full) : (stepLength s).1 = 1 := by
  obtain hfull | hstop := stepLength_cases s
  · rw [hfull]
  · exact absurd h hstop.1

/-- The working set can still follow the event at the end of a step. -/
theorem fits_perform (s : Box K n) :
    Fits (s.perform (stepLength s).1 (stepLength s).2) (stepLength s).2 := by
  obtain ⟨x, y, current, hperform⟩ := Core.perform_frame (stepLength s).1 (stepLength s).2 s
  rw [hperform]
  exact (fits_stepLength s).congr rfl

/-- A bound that may not leave does not say that no point is feasible. -/
theorem HalfRemoved.not_isInfeasibility {i : Fin n} {error : QpError} {s' : Box K n}
    (h : s.HalfRemoved i error s') :
    ¬error.IsInfeasibility ∧ error ≠ .hotstartStoppedInfeasibility := by
  have herror := h.refusal
  refine ⟨?_, ?_⟩
  · rintro (rfl | rfl) <;> simp [phases] at herror
  · rintro rfl
    simp [phases] at herror

theorem respects_method (hone : ((1 : K) == 1) = true) :
    (Box.method : Method K n 0 (Box K n)).Respects (phases K n) where
  core_withCore _ _ := rfl
  rest_ignores _ _ _ _ h := h.congr rfl
  ready_ignores _ _ _ _ h := h.congr rfl rfl rfl
  moving_ignores _ _ _ _ h := h.congr rfl rfl rfl
  arrived_ignores _ _ _ _ h := h.congr rfl rfl rfl
  blocked_ignores _ _ _ _ h := h
  rest_of_ready _ h := h.toBoundsInOrder
  ready_of_moving _ h := h
  moving_of_arrived _ h := h
  direction s hs := by
    refine (determineDirection_ensures hs).mono ?_ ?_
    · rintro ⟨⟩ _ ⟨-, dx, dy, tilt, rfl⟩
      exact ⟨hs.congr rfl rfl rfl, rfl⟩
    · rintro f _ ⟨hf, -, dx, dy, tilt, rfl⟩
      exact ⟨hf, hs.congr rfl rfl rfl⟩
  full s hs hfull := by
    refine ⟨?_, hs.congr rfl rfl rfl⟩
    rw [show (method.stepLength s).1 = 1 from stepLength_eq_one hfull]
    exact hone
  stop s hs _ := by
    refine ⟨?_, fits_perform s⟩
    obtain ⟨x, y, current, hperform⟩ := Core.perform_frame (stepLength s).1 (stepLength s).2 s
    change InStep (s.perform (stepLength s).1 (stepLength s).2)
    rw [hperform]
    exact hs.congr rfl rfl rfl
  status_perform := Core.status_perform
  change event s hevent hs _ := by
    refine (changeWorkingSet_ensures hs.1 hevent hs.2).mono (fun _ _ h => h.1) ?_
    rintro f s' ⟨i, e, -, rfl, hhalf, horder⟩
    obtain ⟨hinf, hne⟩ := hhalf.not_isInfeasibility
    exact ⟨e, rfl, horder, .inr ⟨hinf, hne, hhalf.refusal⟩⟩

theorem boundsInOrder_reset (hs : s.BoundsInOrder) : (Core.reset s).BoundsInOrder :=
  ⟨EntitySet.sound_reset _, hs.capacity⟩

/-- A solve from scratch starts without a working set. -/
theorem prepare_reset_ensures (guess : Guess K n 0) (hs : s.BoundsInOrder) :
    (prepare guess).Ensures (Core.reset s)
      (fun _ s' => SetUp guess (Core.reset s) s' ∧ s'.InStep ∧ s'.status = .auxiliarySolved)
      fun f s' => (∃ e, f = .failed e ∧ SetUpFailed guess (Core.reset s) e) ∧
        s'.BoundsInOrder :=
  prepare_ensures guess (boundsInOrder_reset hs) fun i =>
    congrArg Activity.isActive (EntitySet.activity_reset s.bounds i)

/-- Loaded data leaves the table in order. -/
theorem boundsInOrder_load {d : Core.Loading K} {s' : Box K n} (h : d.apply s = .ok s')
    (hs : s.BoundsInOrder) : s'.BoundsInOrder := by
  obtain ⟨_, _, _, _, rfl⟩ | ⟨_, _, rfl⟩ := Core.Loading.apply_cases h
  · exact hs.congr rfl
  · exact hs.congr rfl

theorem respects (hone : ((1 : K) == 1) = true) :
    (Box.interface K n).Respects (phases K n) anyCall where
  method := respects_method hone
  fresh := ⟨EntitySet.sound_empty _, rfl⟩
  status_fresh := rfl
  rest_load _ _ _ := boundsInOrder_load
  ready_load d s s' h := by
    obtain ⟨_, _, _, _, rfl⟩ | ⟨_, _, rfl⟩ := Core.Loading.apply_cases h
    · exact .inl rfl
    · exact .inr ⟨rfl, fun hs => hs.congr rfl rfl rfl⟩
  reset s hs := boundsInOrder_reset hs
  status_reset _ := rfl
  prepare obs view budget xGuess yGuess s guess _ hs _ :=
    (prepare_reset_ensures guess hs).mono (fun _ _ h => h.2) fun _ _ h =>
      ⟨h.1.imp fun _ h => h.1, h.2⟩
  resume obs view budget s _ _ hs _ := hs

end ActiveSet.Box
