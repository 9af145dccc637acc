import ActiveSet.Proofs.Solver.Constrained.Factored
import ActiveSet.Proofs.Solver.Constrained.Session

/-!
# Valid factorizations in the course of a session

The set-up of an auxiliary problem computes both factorizations, and every change of the working set
keeps them valid, also where it ends without success but with a working set to go on with. So they
are valid between all calls while there is a factorization at all (`respects_factored`).

Of the tolerances it is needed that they are not negative, and of the objective's matrix that it is
symmetric, and the identity if it is declared to be.
-/

namespace ActiveSet

open Finset

variable {n m : ℕ}

/-- A matrix that is treated as the identity is the identity. -/
theorem Core.hessian_of_hasIdentityHessian {s : Core ℝ n m} (hidentity : s.hessianType = .identity →
      ∀ i j, i < n → j < n → s.hessian i j = if i = j then 1 else 0)
    (h : s.hasIdentityHessian = true) {i j : ℕ} (hi : i < n) (hj : j < n) :
    s.hessian i j = if i = j then 1 else 0 := by
  rw [hasIdentityHessian, Bool.or_eq_true] at h
  rcases h with htype | hentries
  · exact hidentity (by simpa using htype) i j hi hj
  · rw [Bool.and_eq_true] at hentries
    have hall := hentries.2
    unfold Grid.isIdentity at hall
    rw [List.all_eq_true] at hall
    have hrow := List.all_eq_true.1 (hall i (List.mem_range.2 hi)) j (List.mem_range.2 hj)
    simpa using hrow

namespace Constrained

variable {s s' : Constrained ℝ n m} {guess : Guess ℝ n m}

/-- The tolerances by which something counts as definite or as independent are not negative. -/
structure Tolerant (s : Constrained ℝ n m) : Prop where
  definite : 0 ≤ s.parameters.epsDefinite
  dependent : 0 ≤ s.parameters.epsDependent

/-- The objective's matrix is symmetric, and it is what it is declared to be. -/
structure Declared (s : Constrained ℝ n m) : Prop where
  symmetric : s.SymmetricHessian
  identity : s.hessianType = .identity → ∀ i j, i < n → j < n →
    s.hessian i j = if i = j then 1 else 0

theorem Declared.reset (h : s.Declared) : s.reset.Declared := ⟨h.symmetric, h.identity⟩

theorem Tolerant.congr (h : s.Tolerant) (hp : s'.parameters = s.parameters) : s'.Tolerant := by
  refine ⟨?_, ?_⟩
  · rw [hp]
    exact h.definite
  · rw [hp]
    exact h.dependent

theorem SymmetricHessian.congr (h : s.SymmetricHessian) (hH : s'.hessian = s.hessian) :
    s'.SymmetricHessian := by
  intro i j
  rw [hH]
  exact h i j

-- ---------------------------------------------------------------------------
-- The set-up
-- ---------------------------------------------------------------------------

/-- Without constraints the null space is that of all free variables. -/
theorem Started.split (h : s.Started guess s') : s'.nullSpace.Factors s'.activeEntry :=
  NullSpace.factors_reset h.nullSpace_eq

/-- Constraints enter the null space factorization one after the other. -/
theorem split_of_enrolls (h : Relation.ReflTransGen Enrolls s s')
    (heps : 0 ≤ s.parameters.epsDependent) (hf : s.nullSpace.Factors s.activeEntry) :
    s'.parameters = s.parameters ∧ s'.nullSpace.Factors s'.activeEntry := by
  induction h with
  | refl => exact ⟨rfl, hf⟩
  | tail _ henroll ih =>
    obtain ⟨hparameters, hsplit⟩ := ih
    cases henroll with
    | intro hlisted hw hind hentered =>
      rw [← hparameters] at heps
      have hsplit' := hentered.split hlisted hw (hw.norm_pos hind heps) hsplit
      cases hentered
      exact ⟨hparameters, hsplit'⟩

theorem reducedHessian_eq (hs : s.Listed) {i j : ℕ} (hj : j < s.nNull) :
    s.reducedHessian i j = s.reduced i j := by
  rw [reducedHessian, sum_eq_sum, reduced_eq hs]
  refine Finset.sum_congr rfl fun p hp => ?_
  rw [hessianTimesNullSpace, Grid.ofFn_apply (mem_range.1 hp) hj, sum_eq_sum]
  rfl

/-- The factor of the objective's matrix has been computed, or it is known to be the identity. -/
theorem Factorized.factored (h : s.Factorized s') (hs : s.Listed) (hsymm : s.SymmetricHessian)
    (hidentity : s.identityHessian = true →
      ∀ i j, i < n → j < n → s.hessian i j = if i = j then 1 else 0)
    (heps : 0 ≤ s.parameters.epsDefinite) (hf : s.nullSpace.Factors s.activeEntry) :
    s'.Factored := by
  have hnFree := hs.nFree_eq
  have hnull := s.nullSpace.nNull_add
  cases h with
  | identity hid hfactor =>
    obtain ⟨-, hfactors⟩ := Cholesky.factors_identity (M := s.reduced) hfactor fun i j hi hj => by
      have hi : i < s.nullSpace.nNull := hi
      have hj : j < s.nullSpace.nNull := hj
      -- orthonormal columns keep the identity
      refine quad_of_identity hf.orthonormal (fun p r hp hr => ?_) (by omega) (by omega)
      exact gather_gather_of_identity hs.listed.nodup (hidentity hid) (by omega) (by omega)
    exact ⟨hf, hfactors⟩
  | computed hid hfactor =>
    obtain ⟨hdim, hfactors⟩ := Cholesky.factors_factorize heps (fun i j hi hj => by
      rw [reducedHessian_eq hs hj, reducedHessian_eq hs hi]
      exact reduced_comm hs hsymm i j) hfactor
    refine ⟨hf, hfactors.congr fun i j _ hj => ?_⟩
    rw [hdim] at hj
    exact (reducedHessian_eq hs hj).symm

/-- An auxiliary problem starts with valid factorizations. -/
theorem SetUp.factored (h : s.SetUp guess s') (hdeclared : s.Declared) (htol : s.Tolerant) :
    s'.Factored ∧ s'.SymmetricHessian ∧ s'.Tolerant := by
  obtain ⟨s1, s2, s3, hstarted, hrows, hfactorized, hstep, rfl⟩ := h.stages
  have hframe := hstarted.bounds.frame
  obtain ⟨constraints, nullSpace, active, rfl⟩ := hrows.frame
  have hparameters : s1.parameters = s.parameters := hstarted.sameData.parameters
  have hhessian : s1.hessian = s.hessian := hstarted.sameData.hessian
  have hidentity : s1.identityHessian = s.toCore.hasIdentityHessian := by
    rw [hframe]
    rfl
  -- every constraint in the working set has entered through an update of the factors
  obtain ⟨-, hsplit⟩ := split_of_enrolls hrows.entered
    (by rw [hparameters]; exact htol.dependent) hstarted.split
  have hsymm : s1.SymmetricHessian := hdeclared.symmetric.congr hhessian
  have hfactored := hfactorized.factored (hrows.listed.congr rfl rfl rfl rfl rfl) hsymm
    (fun hid i j hi hj => by
      have hid : s1.identityHessian = true := hid
      show s1.hessian i j = _
      rw [hidentity] at hid
      rw [hhessian]
      exact Core.hessian_of_hasIdentityHessian hdeclared.identity hid hi hj)
    (by
      show 0 ≤ s1.parameters.epsDefinite
      rw [hparameters]
      exact htol.definite) hsplit
  have htol' : s1.Tolerant := htol.congr hparameters
  cases hfactorized
  · exact ⟨hfactored.congr rfl rfl rfl rfl rfl rfl, hsymm, htol'.congr rfl⟩
  · exact ⟨hfactored.congr rfl rfl rfl rfl rfl rfl, hsymm, htol'.congr rfl⟩

-- ---------------------------------------------------------------------------
-- Changes of the working set
-- ---------------------------------------------------------------------------

/-- A state whose factorizations are valid and stay so. -/
structure Ready (s : Constrained ℝ n m) : Prop where
  inStep : s.InStep
  factored : s.Factored
  symmetric : s.SymmetricHessian

/-- A state from which a homotopy goes on. -/
structure Moving (s : Constrained ℝ n m) : Prop extends s.Ready where
  tolerant : s.Tolerant

theorem Ready.congr (h : s.Ready) (hb : s'.bounds = s.bounds)
    (hc : s'.constraints = s.constraints) (hn : s'.nullSpace = s.nullSpace)
    (hf : s'.factor = s.factor) (hfree : s'.free = s.free) (ha : s'.active = s.active)
    (hA : s'.matrix = s.matrix) (hH : s'.hessian = s.hessian) : s'.Ready :=
  ⟨h.inStep.congr hb hc hfree ha hn (congrArg Cholesky.dim hf),
    h.factored.congr hn hf hfree ha hA hH, h.symmetric.congr hH⟩

theorem Moving.of_ready (h : s.Moving) (hs' : s'.InStep) (hf : s'.Factored)
    (hsame : s.SameData s') : s'.Moving :=
  ⟨⟨hs', hf, h.symmetric.congr hsame.hessian⟩, h.tolerant.congr hsame.parameters⟩

theorem Reordered.moving (h : s.Reordered s') (hs : s.Moving) : s'.Moving :=
  hs.of_ready (h.inStep hs.inStep) (h.factored hs.inStep hs.factored) h.sameData

theorem Dependent.moving {e : Entity n m} {w : PreparedRow ℝ} (h : s.Dependent e w s')
    (hs : s.Moving) : s'.Moving := by
  refine hs.of_ready (h.inStep hs.inStep) ?_ h.sameData
  cases h
  exact hs.factored.congr rfl rfl rfl rfl rfl rfl

theorem Left.moving {e : Entity n m} (h : s.Left e s') (hs : s.Moving) (hs' : s'.InStep) :
    s'.Moving :=
  hs.of_ready hs' (h.factored hs.inStep hs.symmetric hs.tolerant.definite hs.factored) h.sameData

theorem Entered.moving {e : Entity n m} {side : Activity} {w : PreparedRow ℝ}
    (h : s.Entered side w s' e) (hs : s.Moving) (hw : s.Prepared w e)
    (hind : w.independent = true) (hs' : s'.InStep) : s'.Moving :=
  hs.of_ready hs' (h.factored hs.inStep hw (hw.norm_pos hind hs.tolerant.dependent) hs.factored)
    h.sameData

theorem Swapped.moving {e leaver : Entity n m} {side : Activity} {w w' : PreparedRow ℝ}
    {flip : Bool} {t : ℝ} (h : s.Swapped e side w flip t leaver w' s') (hs : s.Moving) :
    s'.Moving := by
  obtain ⟨s1, s2, hdependent, -, hleft, hs2, hreordered⟩ := h.chain
  exact hreordered.moving (hleft.moving (hdependent.moving hs) hs2)

/-- The working set has followed an event, and both factorizations have followed the working set. -/
theorem Changed.moving {event : StepEvent n m} (h : s.Changed event s') (hs : s.Moving)
    (hs' : s'.InStep) : s'.Moving := by
  cases h with
  | added hreordered hw hind hentered =>
    exact hentered.moving (hreordered.moving hs) hw hind hs'
  | exchanged hreordered hw hind hexchanged =>
    cases hexchanged with
    | @intro flip t leaver w' s1 s2 hswapped hind' hentered =>
      have hs2 : s2.InStep := hs'.congr rfl rfl rfl rfl rfl rfl
      have hmoving := hentered.moving (hswapped.moving (hreordered.moving hs)) hswapped.prepared
        hind' hs2
      exact ⟨hmoving.toReady.congr rfl rfl rfl rfl rfl rfl rfl rfl,
        hmoving.tolerant.congr rfl⟩
  | removed hleft => exact hleft.moving hs hs'

-- ---------------------------------------------------------------------------
-- Sessions
-- ---------------------------------------------------------------------------

/-- A predicate of what has been loaded. -/
def OfData (p : Constrained ℝ n m → Prop) : Prop := ∀ s s', p s → s.SameData s' → p s'

/-- The factorizations in the course of a session, while a predicate holds of what has been loaded. -/
def factoredPhases (p : Constrained ℝ n m → Prop) : Phases n m (Constrained ℝ n m) where
  rest := InOrder
  ready := Ready
  moving s := s.Moving ∧ p s
  directed s := s.Moving ∧ p s
  stepped event s := (s.Moving ∧ s.Fits event) ∧ p s
  arrived s := s.Moving ∧ p s
  blocked _ := True
  refusal e := e ∈ refusals

/-- Every solve happens with tolerances that are not negative, and with a matrix of the objective
that is symmetric and what it is declared to be. -/
def exactCalls : Call ℝ n m (Loading ℝ) → Constrained ℝ n m → Prop
  | .solve .., s => s.Declared ∧ s.Tolerant
  | .resume .., s => s.Tolerant
  | .load _, _ | .reset, _ => True

theorem SameButDirection.moving (h : s.SameButDirection s') (hs : s.Moving) : s'.Moving := by
  obtain ⟨dx, dy, tilt, dax, rfl⟩ := h
  exact ⟨hs.toReady.congr rfl rfl rfl rfl rfl rfl rfl rfl, hs.tolerant.congr rfl⟩

/-- Following a direction changes neither what has been loaded nor the factorizations. -/
theorem performed {p : Constrained ℝ n m → Prop} (hp : OfData p) (hs : s.Moving) (hps : p s)
    (tau : ℝ) (event : StepEvent n m) :
    (s.perform tau event).Moving ∧ p (s.perform tau event) := by
  obtain ⟨x, y, current, ax, hperform⟩ := perform_frame tau event s
  rw [hperform]
  exact ⟨⟨hs.toReady.congr rfl rfl rfl rfl rfl rfl rfl rfl, hs.tolerant.congr rfl⟩,
    hp _ _ hps ⟨rfl, rfl, rfl, rfl, rfl⟩⟩

theorem respects_factored_method {p : Constrained ℝ n m → Prop} (hp : OfData p) :
    (Constrained.method : Method ℝ n m (Constrained ℝ n m)).Respects (factoredPhases p) where
  core_withCore _ _ := rfl
  rest_ignores _ _ _ _ h := h.congr rfl rfl
  ready_ignores _ _ _ _ h := h.congr rfl rfl rfl rfl rfl rfl rfl rfl
  moving_ignores _ _ _ _ h :=
    ⟨⟨h.1.toReady.congr rfl rfl rfl rfl rfl rfl rfl rfl, h.1.tolerant.congr rfl⟩,
      hp _ _ h.2 ⟨rfl, rfl, rfl, rfl, rfl⟩⟩
  arrived_ignores _ _ _ _ h :=
    ⟨⟨h.1.toReady.congr rfl rfl rfl rfl rfl rfl rfl rfl, h.1.tolerant.congr rfl⟩,
      hp _ _ h.2 ⟨rfl, rfl, rfl, rfl, rfl⟩⟩
  blocked_ignores _ _ _ _ h := h
  rest_of_ready _ h := h.inStep.toInOrder
  ready_of_moving _ h := h.1.toReady
  moving_of_arrived _ h := h
  direction s hs := by
    refine (determineDirection_ensures hs.1.inStep).mono ?_ ?_
    · rintro ⟨⟩ s' hdirected
      refine ⟨⟨hdirected.same.moving hs.1, hp _ _ hs.2 hdirected.same.sameData⟩, ?_⟩
      obtain ⟨dx, dy, tilt, dax, rfl⟩ := hdirected.same
      rfl
    · rintro f s' ⟨hf, hsame, -⟩
      exact ⟨hf, hsame.moving hs.1, hp _ _ hs.2 hsame.sameData⟩
  full s hs hfull := by
    refine ⟨?_, ?_⟩
    · rw [show (method.stepLength s).1 = 1 from stepLength_eq_one hfull]
      simp
    · exact performed hp hs.1 hs.2 s.stepLength.1 .full
  stop s hs hstop := by
    obtain ⟨hmoving, hps⟩ := performed hp hs.1 hs.2 s.stepLength.1 s.stepLength.2
    exact ⟨⟨hmoving, s.fits_perform⟩, hps⟩
  status_perform := status_perform
  change event s hevent hs hstatus := by
    obtain ⟨⟨hmoving, hfits⟩, hps⟩ := hs
    refine (changeWorkingSet_ensures hmoving.inStep hevent hfits).mono ?_ ?_
    · rintro ⟨⟩ s' ⟨hchanged, hs'⟩
      exact ⟨hchanged.moving hmoving hs', hp _ _ hps hchanged.sameData⟩
    rintro f s' ⟨error, rfl, hfailed⟩
    refine ⟨error, rfl, ?_⟩
    -- with nothing to exchange the solver stays where it is, after a failed exchange it starts over
    cases hfailed with
    | refused herror horder =>
      obtain ⟨hinf, hne⟩ := not_isInfeasibility_of_mem_refusals herror
      exact ⟨horder, .inr ⟨hinf, hne, herror⟩⟩
    | stuck hreordered hw hind hstuck =>
      have hs' := hstuck.dependent.moving (hreordered.moving hmoving)
      refine ⟨hs'.inStep.toInOrder,
        .inl ⟨isInfeasibility_addFailed _, trivial, .inr ⟨?_, hs'.toReady⟩⟩⟩
      exact (hstuck.status_eq.trans hreordered.status_eq).trans hstatus
    | dependent hreordered hw hind hswapped hind' =>
      exact ⟨hswapped.inStep.toInOrder.congr rfl rfl,
        .inl ⟨isInfeasibility_addFailed _, trivial, .inl rfl⟩⟩

/-- A solve from scratch starts its homotopy with valid factorizations. -/
theorem prepare_moving {p : Constrained ℝ n m → Prop} (hp : OfData p) (hs : s.InOrder)
    (hadmits : s.Declared ∧ s.Tolerant) (hps : p s) :
    (prepare guess).Ensures s.reset
      (fun _ s' => (s'.Moving ∧ p s') ∧ s'.status = .auxiliarySolved)
      fun f s' => (∃ e, f = .failed e) ∧ s'.InOrder := by
  refine (prepare_reset_ensures hs).mono ?_ fun _ _ h => ⟨h.1.imp fun _ h => h.1, h.2⟩
  rintro ⟨⟩ s' ⟨hsetup, hs', hstatus⟩
  obtain ⟨hdeclared, htol⟩ := hadmits
  obtain ⟨hf, hsymm, htol'⟩ := hsetup.factored hdeclared.reset (htol.congr rfl)
  have hdata := s.sameData_reset.trans hsetup.sameData
  exact ⟨⟨⟨⟨hs', hf, hsymm⟩, htol'⟩, hp _ _ hps hdata⟩, hstatus⟩

theorem respects_factored {p : Constrained ℝ n m → Prop} (hp : OfData p) :
    (Constrained.interface ℝ n m).Respects (factoredPhases p) fun c s => exactCalls c s ∧ p s where
  method := respects_factored_method hp
  fresh := inOrder_fresh n m
  status_fresh := rfl
  rest_load _ _ _ := Loading.inOrder
  ready_load d s s' h := by
    obtain ⟨_, _, _, _, _, rfl⟩ | ⟨_, _, rfl⟩ := Loading.apply_cases h
    · exact .inl rfl
    · exact .inr ⟨rfl, fun hs => hs.congr rfl rfl rfl rfl rfl rfl rfl rfl⟩
  reset s hs := hs.reset
  status_reset _ := rfl
  prepare obs view budget xGuess yGuess s guess hadmits hs _ :=
    prepare_moving hp hs hadmits.1 hadmits.2
  resume obs view budget s hadmits _ hs _ := ⟨⟨hs, hadmits.1⟩, hadmits.2⟩

/-- Between all calls the factorizations are valid while a homotopy could start. -/
theorem settled_factored (hs : (Constrained.interface ℝ n m).Reachable exactCalls s) :
    s.InOrder ∧ (s.status = .notInitialised ∨ s.status.isStart = true ∧ s.Ready) := by
  have hI := respects_factored (n := n) (m := m) (p := fun _ => True) fun _ _ _ _ => trivial
  induction hs with
  | fresh => exact ⟨inOrder_fresh n m, .inl rfl⟩
  | call c _ hc ih => exact hI.settled_call c ih ⟨hc, trivial⟩

end Constrained

end ActiveSet
