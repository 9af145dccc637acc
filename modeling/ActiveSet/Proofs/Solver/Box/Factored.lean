import ActiveSet.Proofs.Factor.Deletion
import ActiveSet.Proofs.Solver.Box
import ActiveSet.Proofs.Solver.Constrained.FactoredSession

/-!
# The factor of a solver for bounds

Without constraints the null space is that of all free variables, and the factor is one of the
objective's matrix in their rows and columns. It loses a row and a column where a variable becomes
fixed, and is bordered where one becomes free. In exact arithmetic it stays a factor, with a positive
diagonal, so it is the one that a factorization from scratch would compute (`Factored`).

* `Factorized.factored`, `Changed.factored`: how the factor comes about and how it is kept.
* `factoredPhases`, `settled_factored`: factors in the course of a session.
-/

namespace ActiveSet.Box

variable {n : ℕ} {s s' : Box ℝ n} {guess : Guess ℝ n 0}

/-- The factor is that of the free variables, and its diagonal is positive. -/
structure Factored (s : Box ℝ n) : Prop where
  triangular : s.factor.Factors s.freeHessian
  positive : s.factor.Positive

/-- The objective's matrix is symmetric. -/
def SymmetricHessian (s : Box ℝ n) : Prop := ∀ i j : ℕ, s.hessian i j = s.hessian j i

/-- The objective's matrix is symmetric, and it is what it is declared to be. -/
structure Declared (s : Box ℝ n) : Prop where
  symmetric : s.SymmetricHessian
  identity : s.hessianType = .identity → ∀ i j, i < n → j < n →
    s.hessian i j = if i = j then 1 else 0

/-- What has been loaded is the same. -/
structure SameData (s s' : Box ℝ n) : Prop where
  parameters : s'.parameters = s.parameters
  hessian : s'.hessian = s.hessian
  target : s'.target = s.target
  hessianType : s'.hessianType = s.hessianType

theorem SameData.trans {s'' : Box ℝ n} (h : s.SameData s') (h' : s'.SameData s'') :
    s.SameData s'' :=
  ⟨h'.parameters.trans h.parameters, h'.hessian.trans h.hessian, h'.target.trans h.target,
    h'.hessianType.trans h.hessianType⟩

theorem SymmetricHessian.congr (h : s.SymmetricHessian) (hH : s'.hessian = s.hessian) :
    s'.SymmetricHessian := by
  intro i j
  rw [hH]
  exact h i j

theorem Factored.congr (h : s.Factored) (hf : s'.factor = s.factor) (hfree : s'.free = s.free)
    (hH : s'.hessian = s.hessian) : s'.Factored := by
  have hentry : s'.freeHessian = s.freeHessian := by
    unfold freeHessian
    rw [hfree, hH]
  refine ⟨?_, ?_⟩
  · rw [hf, hentry]
    exact h.triangular
  · rw [hf]
    exact h.positive

theorem freeHessian_comm (hsymm : s.SymmetricHessian) {p r : ℕ} (hp : p < s.free.length)
    (hr : r < s.free.length) : s.freeHessian p r = s.freeHessian r p := by
  unfold freeHessian
  rw [gather_of_lt hp, gather_of_lt hr, gather_of_lt hr, gather_of_lt hp]
  exact hsymm _ _

-- ---------------------------------------------------------------------------
-- Factors from scratch
-- ---------------------------------------------------------------------------

theorem Factorized.factored (h : s.Factorized s') (hfree : s.FreeInStep)
    (hsymm : s.SymmetricHessian) (hidentity : s.identityHessian = true →
      ∀ i j, i < n → j < n → s.hessian i j = if i = j then 1 else 0)
    (heps : 0 ≤ s.parameters.epsDefinite) : s'.Factored := by
  cases h with
  | identity hid hfactor =>
    obtain ⟨-, hfactors⟩ := Cholesky.factors_identity (M := s.freeHessian) hfactor
      fun i j hi hj => gather_gather_of_identity hfree.listed.nodup (hidentity hid) hi hj
    exact ⟨hfactors, Cholesky.positive_identity hfactor⟩
  | computed hid hfactor =>
    obtain ⟨-, hfactors⟩ := Cholesky.factors_factorize heps
      (fun i j hi hj => freeHessian_comm hsymm hi hj) hfactor
    exact ⟨hfactors, Cholesky.positive_factorize heps hfactor⟩

theorem SetUp.sameData (h : s.SetUp guess s') : s.SameData s' := by
  cases h with
  | intro hbounds hfactorized =>
    have hframe := hbounds.frame
    cases hfactorized <;> rw [hframe] <;> exact ⟨rfl, rfl, rfl, rfl⟩

/-- The state after the bounds have been prepared has what was loaded, and it is known whether the
objective's matrix is the identity. -/
theorem boundsPrepared_spec {s1 : Box ℝ n}
    (h : Core.BoundsPrepared guess { s with status := .preparingAuxiliary } s1) :
    s.SameData s1 ∧ s1.identityHessian = s.hasIdentityHessian := by
  rw [h.frame]
  exact ⟨⟨rfl, rfl, rfl, rfl⟩, rfl⟩

/-- An auxiliary problem starts with a valid factor. -/
theorem SetUp.factored (h : s.SetUp guess s') (hdeclared : s.Declared)
    (heps : 0 ≤ s.parameters.epsDefinite) : s'.Factored := by
  cases h with
  | @intro s1 s2 hbounds hfactorized =>
    obtain ⟨hdata, hid⟩ := boundsPrepared_spec hbounds
    have hfactored := hfactorized.factored hbounds.freeInStep
      (hdeclared.symmetric.congr hdata.hessian) (fun hid' i j hi hj => by
        rw [hid] at hid'
        rw [hdata.hessian]
        exact Core.hessian_of_hasIdentityHessian hdeclared.identity hid' hi hj)
      (by rw [hdata.parameters]; exact heps)
    exact hfactored.congr rfl rfl rfl

-- ---------------------------------------------------------------------------
-- Changes of the working set
-- ---------------------------------------------------------------------------

theorem Changed.sameData {event : StepEvent n 0} (h : s.Changed event s') : s.SameData s' := by
  cases h <;> exact ⟨rfl, rfl, rfl, rfl⟩

/-- With one more variable at the end of the list, the matrix of the free variables is bordered. -/
theorem bordered (hdim : s.factor.dim = s.free.length) (hsymm : s.SymmetricHessian) (i : Fin n) :
    let M := freeHessian { s with free := s.free ++ [i] }
    (∀ a b, a < s.factor.dim → b < s.factor.dim → M a b = s.freeHessian a b) ∧
      (∀ a, a < s.factor.dim → M a s.factor.dim = s.newColumn i a) ∧
      (∀ a, a < s.factor.dim → M s.factor.dim a = M a s.factor.dim) ∧
      M s.factor.dim s.factor.dim = s.hessian i i := by
  -- the old variables keep their places, and the new one has the last one
  have hinner : ∀ (x : ℕ → ℝ) q, q < s.factor.dim →
      gather (s.free ++ [i]) x q = gather s.free x q :=
    fun x q hq => gather_append_left (hdim ▸ hq) x
  have hlast : ∀ x : ℕ → ℝ, gather (s.free ++ [i]) x s.factor.dim = x i := by
    intro x
    rw [hdim]
    exact gather_concat_length i x
  unfold freeHessian newColumn
  dsimp only
  refine ⟨fun a b ha hb => ?_, fun a ha => ?_, fun a ha => ?_, ?_⟩
  · rw [hinner _ a ha]
    simp only [hinner _ b hb]
  · rw [hinner _ a ha, Tuple.ofFn_apply (hdim ▸ ha)]
    simp only [hlast]
  · rw [hlast, hinner _ a ha, hinner _ a ha]
    simp only [hlast]
    unfold gather
    split
    · exact hsymm _ _
    · rfl
  · rw [hlast, hlast]

/-- The factor has followed a change of the working set. -/
theorem Changed.factored {event : StepEvent n 0} (h : s.Changed event s') (hs : s.InStep)
    (hsymm : s.SymmetricHessian) (heps : 0 ≤ s.parameters.epsDefinite) (hf : s.Factored) :
    s'.Factored := by
  have hdim := hs.dim_eq
  cases h with
  | @added i side p bounds factor hp hactivate hfactor =>
    -- the free variables without one are read by skipping its position
    have hskip : ∀ (x : ℕ → ℝ) q, gather (s.free.eraseIdx p) x q =
        gather s.free x (Cholesky.skip p q) := by
      intro x q
      rw [gather_eraseIdx, Cholesky.skip]
      rcases Nat.lt_or_ge q p with hlt | hge
      · rw [if_pos hlt, if_neg (by omega)]
      · rw [if_neg (by omega), if_pos hge]
    obtain ⟨-, hfactors⟩ := hf.triangular.removeColumn hfactor
    refine ⟨hfactors.congr fun a b _ _ => ?_, hf.positive.removeColumn hf.triangular hfactor⟩
    unfold freeHessian
    simp only [hskip]
  | @removed i bounds column factor hdeactivate hfactor =>
    obtain ⟨hM, hcol, hrow, hdiag⟩ := bordered hdim hsymm i
    obtain ⟨-, hfactors⟩ := hf.triangular.append heps hfactor hM hcol hrow hdiag
    exact ⟨hfactors, hf.positive.append heps hfactor⟩

-- ---------------------------------------------------------------------------
-- Sessions
-- ---------------------------------------------------------------------------

/-- A state whose factor is valid and stays so. -/
structure Ready (s : Box ℝ n) : Prop where
  inStep : s.InStep
  factored : s.Factored
  symmetric : s.SymmetricHessian

/-- A state from which a homotopy goes on. -/
structure Moving (s : Box ℝ n) : Prop extends s.Ready where
  tolerant : 0 ≤ s.parameters.epsDefinite

theorem Ready.congr (h : s.Ready) (hb : s'.bounds = s.bounds) (hf : s'.factor = s.factor)
    (hfree : s'.free = s.free) (hH : s'.hessian = s.hessian) : s'.Ready :=
  ⟨h.inStep.congr hb hfree (congrArg Cholesky.dim hf), h.factored.congr hf hfree hH,
    h.symmetric.congr hH⟩

theorem Moving.congr (h : s.Moving) (hb : s'.bounds = s.bounds) (hf : s'.factor = s.factor)
    (hfree : s'.free = s.free) (hH : s'.hessian = s.hessian)
    (hp : s'.parameters = s.parameters) : s'.Moving :=
  ⟨h.toReady.congr hb hf hfree hH, hp ▸ h.tolerant⟩

theorem Changed.moving {event : StepEvent n 0} (h : s.Changed event s') (hs : s.Moving)
    (hs' : s'.InStep) : s'.Moving :=
  ⟨⟨hs', h.factored hs.inStep hs.symmetric hs.tolerant hs.factored,
    hs.symmetric.congr h.sameData.hessian⟩, h.sameData.parameters ▸ hs.tolerant⟩

/-- A predicate of what has been loaded. -/
def OfData (p : Box ℝ n → Prop) : Prop := ∀ s s', p s → SameData s s' → p s'

/-- The factor in the course of a session, while a predicate holds of what has been loaded. -/
def factoredPhases (p : Box ℝ n → Prop) : Phases n 0 (Box ℝ n) where
  rest := Core.BoundsInOrder
  ready := Ready
  moving s := Moving s ∧ p s
  directed s := Moving s ∧ p s
  stepped event s := (Moving s ∧ Fits s event) ∧ p s
  arrived s := Moving s ∧ p s
  blocked _ := False
  refusal e := e ∈ [.removeBoundFailed, .hessianNotSpd, .hotstartStoppedUnboundedness]

/-- Every solve happens with a tolerance for definiteness that is not negative, and with a matrix of
the objective that is symmetric and what it is declared to be. -/
def exactCalls : Call ℝ n 0 (Core.Loading ℝ) → Box ℝ n → Prop
  | .solve .., s => Declared s ∧ 0 ≤ s.parameters.epsDefinite
  | .resume .., s => 0 ≤ s.parameters.epsDefinite
  | .load _, _ | .reset, _ => True

/-- Following a direction changes neither what has been loaded nor the factor. -/
theorem performed {p : Box ℝ n → Prop} (hp : OfData p) (hs : s.Moving) (hps : p s) (tau : ℝ)
    (event : StepEvent n 0) : Moving (s.perform tau event) ∧ p (s.perform tau event) := by
  obtain ⟨x, y, current, hperform⟩ := Core.perform_frame tau event s
  rw [hperform]
  exact ⟨hs.congr rfl rfl rfl rfl rfl, hp _ _ hps ⟨rfl, rfl, rfl, rfl⟩⟩

theorem respects_factored_method {p : Box ℝ n → Prop} (hp : OfData p) :
    (Box.method : Method ℝ n 0 (Box ℝ n)).Respects (factoredPhases p) where
  core_withCore _ _ := rfl
  rest_ignores _ _ _ _ h := h.congr rfl
  ready_ignores _ _ _ _ h := h.congr rfl rfl rfl rfl
  moving_ignores _ _ _ _ h := ⟨h.1.congr rfl rfl rfl rfl rfl, hp _ _ h.2 ⟨rfl, rfl, rfl, rfl⟩⟩
  arrived_ignores _ _ _ _ h := ⟨h.1.congr rfl rfl rfl rfl rfl, hp _ _ h.2 ⟨rfl, rfl, rfl, rfl⟩⟩
  blocked_ignores _ _ _ _ h := h
  rest_of_ready _ h := h.inStep.toBoundsInOrder
  ready_of_moving _ h := h.1.toReady
  moving_of_arrived _ h := h
  direction s hs := by
    refine (determineDirection_ensures hs.1.inStep).mono ?_ ?_
    · rintro ⟨⟩ _ ⟨-, dx, dy, tilt, rfl⟩
      exact ⟨⟨hs.1.congr rfl rfl rfl rfl rfl, hp _ _ hs.2 ⟨rfl, rfl, rfl, rfl⟩⟩, rfl⟩
    · rintro f _ ⟨hf, -, dx, dy, tilt, rfl⟩
      exact ⟨hf, hs.1.congr rfl rfl rfl rfl rfl, hp _ _ hs.2 ⟨rfl, rfl, rfl, rfl⟩⟩
  full s hs hfull := by
    refine ⟨?_, ?_⟩
    · rw [show (method.stepLength s).1 = 1 from stepLength_eq_one hfull]
      simp
    · exact performed hp hs.1 hs.2 (stepLength s).1 .full
  stop s hs hstop := by
    obtain ⟨hmoving, hps⟩ := performed hp hs.1 hs.2 (stepLength s).1 (stepLength s).2
    exact ⟨⟨hmoving, fits_perform s⟩, hps⟩
  status_perform := Core.status_perform
  change event s hevent hs _ := by
    obtain ⟨⟨hmoving, hfits⟩, hps⟩ := hs
    refine (changeWorkingSet_ensures hmoving.inStep hevent hfits).mono ?_ ?_
    · rintro ⟨⟩ s' ⟨hs', hchanged⟩
      exact ⟨hchanged.moving hmoving hs', hp _ _ hps hchanged.sameData⟩
    · rintro f s' ⟨i, e, -, rfl, hhalf, horder⟩
      obtain ⟨hinf, hne⟩ := hhalf.not_isInfeasibility
      exact ⟨e, rfl, horder, .inr ⟨hinf, hne, hhalf.refusal⟩⟩

/-- A solve from scratch starts its homotopy with a valid factor. -/
theorem prepare_moving {p : Box ℝ n → Prop} (hp : OfData p) (hs : s.BoundsInOrder)
    (hadmits : s.Declared ∧ 0 ≤ s.parameters.epsDefinite) (hps : p s) :
    (prepare guess).Ensures (Core.reset s)
      (fun _ s' => (s'.Moving ∧ p s') ∧ s'.status = .auxiliarySolved)
      fun f s' => (∃ e, f = .failed e) ∧ s'.BoundsInOrder := by
  refine (prepare_reset_ensures guess hs).mono ?_ fun _ _ h => ⟨h.1.imp fun _ h => h.1, h.2⟩
  rintro ⟨⟩ s' ⟨hsetup, hs', hstatus⟩
  obtain ⟨hdeclared, heps⟩ := hadmits
  have hfactored := hsetup.factored ⟨hdeclared.symmetric, hdeclared.identity⟩ heps
  have hreset : s.SameData (Core.reset s) := ⟨rfl, rfl, rfl, rfl⟩
  have hdata := hreset.trans hsetup.sameData
  exact ⟨⟨⟨⟨hs', hfactored, hdeclared.symmetric.congr hdata.hessian⟩, hdata.parameters ▸ heps⟩,
    hp _ _ hps hdata⟩, hstatus⟩

theorem respects_factored {p : Box ℝ n → Prop} (hp : OfData p) :
    (Box.interface ℝ n).Respects (factoredPhases p) fun c s => exactCalls c s ∧ p s where
  method := respects_factored_method hp
  fresh := ⟨EntitySet.sound_empty _, rfl⟩
  status_fresh := rfl
  rest_load _ _ _ := boundsInOrder_load
  ready_load d s s' h := by
    obtain ⟨_, _, _, _, rfl⟩ | ⟨_, _, rfl⟩ := Core.Loading.apply_cases h
    · exact .inl rfl
    · exact .inr ⟨rfl, fun hs => hs.congr rfl rfl rfl rfl⟩
  reset s hs := boundsInOrder_reset hs
  status_reset _ := rfl
  prepare obs view budget xGuess yGuess s guess hadmits hs _ :=
    prepare_moving hp hs hadmits.1 hadmits.2
  resume obs view budget s hadmits _ hs _ := ⟨⟨hs, hadmits.1⟩, hadmits.2⟩

/-- Between all calls the factor is valid while a homotopy could start. -/
theorem settled_factored (hs : (Box.interface ℝ n).Reachable exactCalls s) :
    s.BoundsInOrder ∧ (s.status = .notInitialised ∨ s.status.isStart = true ∧ s.Ready) := by
  have hI := respects_factored (n := n) (p := fun _ => True) fun _ _ _ _ => trivial
  induction hs with
  | fresh => exact hI.settled .fresh
  | call c _ hc ih => exact hI.settled_call c ih ⟨hc, trivial⟩

end ActiveSet.Box
