import ActiveSet.Proofs.Solver.Constrained.Convex
import ActiveSet.Proofs.Solver.Constrained.OptimalSession

/-!
# Starting without a guess

A solve whose limits do not cross, which has no equalities and whose matrix counts as the identity
can always be started: without a guess nothing enters the working set, and there is nothing to
factorize (`prepare_ok`). If there are no limits at all, the first step leads to the solution
(`solve_of_unlimited`).
-/

namespace ActiveSet

variable {K : Type} [Scalar K] {n m : Nat}

/-- Without a guess only an equality starts in the working set. -/
theorem guessedActivity_none {p : Parameters K} {type : LimitType} (htype : type ≠ .equality)
    (lower upper : K) : guessedActivity p type lower upper none none = .inactive := by
  cases type with
  | equality => exact absurd rfl htype
  | unbounded => rfl
  | unknown => rfl
  | bounded => rfl

-- ---------------------------------------------------------------------------
-- Bounds
-- ---------------------------------------------------------------------------

namespace Core

/-- A number between the infinities is loaded as it is. -/
theorem clamp_of {infinity a : ℝ} (hlower : -infinity ≤ a) (hupper : a ≤ infinity) :
    clamp infinity a = a := by
  rw [clamp, max_eq_left hlower, min_eq_left hupper]

variable {s : Core K n m}

/-- Without a guess no bound starts in the working set, if none is an equality and the objective is
not declared to be semidefinite. -/
theorem startingSide_cold (hdefinite : s.hessianType ≠ .semidefinite) {i : Fin n}
    (htype : s.bounds.limitType i ≠ .equality) : s.startingSide ⟨none, none⟩ i = .inactive := by
  unfold startingSide
  dsimp only [Option.map_none]
  rw [guessedActivity_none htype, if_neg (fun h => hdefinite h.1)]

/-- So no bound asks for a side. -/
theorem placeable_cold (hdefinite : s.hessianType ≠ .semidefinite)
    (htype : ∀ i : Fin n, s.bounds.limitType i ≠ .equality) : s.Placeable ⟨none, none⟩ := by
  intro i hi
  rw [startingSide_cold hdefinite (htype i)] at hi
  cases hi

end Core

-- ---------------------------------------------------------------------------
-- Constraints
-- ---------------------------------------------------------------------------

namespace Constrained

variable {s : Constrained K n m}

theorem activateConstraints_idle {guess : Guess K n m}
    (hside : ∀ i : Fin m, (s.startingSide guess i).isActive = false) :
    (activateConstraints guess).Ensures s (fun _ s' => s' = s) fun _ _ => False := by
  unfold activateConstraints
  refine Update.ensures_forM (I := fun _ s' => s' = s) ?_ rfl
  rintro i rest s' rfl
  rw [Update.ensures_bind, Update.ensures_get]
  dsimp only
  rw [if_neg (by rw [hside i]; exact Bool.false_ne_true), Update.ensures_pure]

/-- A loaded problem that can be started without a guess: the matrix of the objective counts as the
identity, no limits cross, and there are no equalities. -/
structure Cold (s : Constrained K n m) : Prop where
  definite : s.hessianType ≠ .semidefinite
  identity : s.toCore.hasIdentityHessian = true
  ordered : ∀ e, ¬s.target.upperOf e < s.target.lowerOf e
  type_ne : ∀ e, EntitySet.typeOfLimits (s.target.lowerOf e) (s.target.upperOf e)
    s.parameters.epsBound s.parameters.infinity ≠ .equality

theorem factorize_ok (hs : s.Listed) (hidentity : s.identityHessian = true) :
    factorize.Ensures s (fun _ _ => True) fun _ _ => False := by
  have hnull : s.nNull ≤ n := by
    have := hs.nNull_add
    have := hs.length_free_le
    omega
  obtain ⟨factor, hfactor, hdim⟩ := Cholesky.identity?_of (f := s.factor) hnull
  unfold factorize
  rw [Update.ensures_bind, Update.ensures_get, if_pos hidentity, hfactor, Update.require_some,
    Update.ensures_bind, Update.ensures_pure, Update.ensures_set]
  trivial

/-- A cold start succeeds. -/
theorem prepare_ok (hs : s.InOrder) (hcold : s.Cold) :
    (prepare ⟨none, none⟩).Ensures s.reset (fun _ _ => True) fun _ _ => False := by
  -- there is no equality and no guess, so no bound has to be placed anywhere
  have hplaceable : ∀ b : EntitySet .bound n, b.ClassifiedBy s.target.lower s.target.upper
      s.parameters.epsBound s.parameters.infinity →
        Core.Placeable { s.reset.toCore with bounds := b } ⟨none, none⟩ :=
    fun b hb => Core.placeable_cold hcold.definite fun i => by
      show b.limitType i ≠ .equality
      rw [(hb i).2.1]
      exact hcold.type_ne (.bound i)
  rw [prepare_ensures_iff]
  refine ((start_ensures hs.reset (blank_reset s)).and (start_ok hs.reset (blank_reset s)
    (fun i => hcold.ordered (.bound i)) (fun i => hcold.ordered (.constraint i))
    hplaceable)).mono ?_ fun _ _ h => h.2
  rintro ⟨⟩ s1 ⟨hstarted, -⟩
  -- the objective's matrix is the unit matrix, so the factorization has its pivots
  have hidentity : s1.identityHessian = true := by
    rw [hstarted.bounds.frame]
    exact hcold.identity
  unfold finish
  refine Update.ensures_bind_of (activateConstraints_idle fun i => ?_) (fun _ _ h => h.elim) ?_
  · have htype : s1.constraints.limitType i ≠ .equality := by
      rw [(hstarted.rows i).2.1]
      exact hcold.type_ne (.constraint i)
    exact congrArg Activity.isActive (guessedActivity_none htype _ _)
  rintro ⟨⟩ _ rfl
  rw [Update.ensures_bind, Update.ensures_modify]
  refine Update.ensures_bind_of (factorize_ok (hstarted.listed.congr rfl rfl rfl rfl rfl) hidentity)
    (fun _ _ h => h) ?_
  rintro ⟨⟩ s3 -
  rw [Update.ensures_bind, Update.ensures_modify, Update.ensures_modify]
  trivial

/-- After a cold start nothing is in the working set. -/
theorem SetUp.inactive {s' : Constrained K n m} (h : s.reset.SetUp ⟨none, none⟩ s')
    (hcold : s.Cold) (e : Entity n m) : s'.activity e = .inactive := by
  obtain ⟨s1, s2, s3, hstarted, hrows, hfactorized, -, rfl⟩ := h.stages
  have hbounds := hstarted.bounds
  have hdefinite : s1.hessianType ≠ .semidefinite := by
    rw [hbounds.frame]
    exact hcold.definite
  -- without a guess, only equalities and bounds of semidefinite problems start in the working set
  have hbound : ∀ i : Fin n, s1.bounds.activity i = .inactive := by
    intro i
    rw [hbounds.activity_eq]
    refine Core.startingSide_cold hdefinite ?_
    rw [(hbounds.classifiedBy i).2.1]
    exact hcold.type_ne (.bound i)
  have hrow : ∀ i : Fin m, s2.constraints.activity i = .inactive := by
    intro i
    obtain hi | hi := hrows.activity i
    · exact hi
    · rw [hi]
      refine guessedActivity_none ?_ _ _
      rw [(hstarted.rows i).2.1]
      exact hcold.type_ne (.constraint i)
  obtain ⟨constraints, nullSpace, active, rfl⟩ := hrows.frame
  cases hfactorized <;> cases e with
  | bound i => exact hbound i
  | constraint i => exact hrow i

omit [Scalar K] in
theorem isActive_of_canLeave {e : Entity n m} (h : s.CanLeave e) : s.isActive e = true := by
  cases e with
  | bound i => exact EntitySet.CanLeave.active h
  | constraint i => exact EntitySet.CanLeave.active h

/-- While nothing is in the working set, a step goes the whole way or ends where something enters. -/
theorem stepLength_of_inactive (hinactive : ∀ e, s.isActive e = false) :
    s.stepLength = (1, .full) ∨
      ∃ e side, s.stepLength.2 = .add e side ∧ s.CanEnter side e := by
  obtain h | ⟨hevent, hfits⟩ := s.stepLength_cases
  · exact .inl h
  · right
    generalize s.stepLength.2 = event at hevent hfits
    cases event with
    | full => exact absurd rfl hevent
    | add e side => exact ⟨e, side, rfl, hfits⟩
    | remove e =>
      have hactive := isActive_of_canLeave (show s.CanLeave e from hfits)
      rw [hinactive e] at hactive
      cases hactive

/-- No entity has a limit. -/
def Unlimited (s : Constrained K n m) : Prop := ∀ e, s.limitType e = .unbounded

theorem stepLength_of_unlimited (hinactive : ∀ e, s.isActive e = false) (h : s.Unlimited) :
    s.stepLength = (1, .full) := by
  refine (stepLength_of_inactive hinactive).resolve_right ?_
  rintro ⟨e, side, -, henter⟩
  cases e with
  | bound i => exact EntitySet.CanEnter.type_ne henter (h (.bound i))
  | constraint i => exact EntitySet.CanEnter.type_ne henter (h (.constraint i))

/-- A solve from scratch without a guess ends with its first step, if that leads to the loaded
problem or fails. -/
theorem solve_of_cold {τ : Type} (hs : s.InOrder) (hcold : s.Cold) (obs : Observer K n m τ)
    (view : τ) (budget : ℕ) {Q : Constrained K n m → Prop} {E : Fault → Prop}
    (hstep : ∀ s1, s.reset.SetUp ⟨none, none⟩ s1 → s1.InStep →
      ((method : Method K n m (Constrained K n m)).step 0).Ensures (method.clearVerdict s1)
        (fun it s2 => it.event = .full ∧ Q s2) fun f _ => E f) :
    ((method : Method K n m (Constrained K n m)).solve obs (budget + 1) none none).Ensures
      (s, view) (fun k r => k = 1 ∧ Q r.1) fun f _ => ∃ e, f = e.mapError Method.initError ∧ E e := by
  unfold Method.solve
  rw [show Guess.ofArrays n m none none = Except.ok (⟨none, none⟩ : Guess K n m) from rfl,
    Update.ensures_bind, Update.ofExcept_ok, Update.ensures_pure, Update.ensures_bind,
    Update.ensures_first, Update.ensures_bind, Update.ensures_modify, Update.ensures_recover]
  refine ((prepare_reset_ensures hs).and (prepare_ok hs hcold)).mono ?_ fun _ _ h => h.2.elim
  rintro ⟨⟩ s1 ⟨⟨hsetup, hs1, -⟩, -⟩
  rw [Update.ensures_mapError]
  exact (Method.homotopy_of_step obs budget (hstep s1 hsetup hs1)).mono (fun _ _ h => h)
    fun f _ h => ⟨f, rfl, h⟩

section Real

variable {s : Constrained ℝ n m} {τ : Type}

theorem Cold.equalLimits (h : s.Cold) : s.EqualLimits :=
  fun e htype => absurd htype (h.type_ne e)

/-- Without limits the first step leads to the loaded problem. -/
theorem step_of_unlimited (hs : s.Moving) (hconvex : s.StrictlyConvex)
    (hinactive : ∀ e, s.isActive e = false) (h : s.Unlimited) (index : ℕ) :
    ((method : Method ℝ n m (Constrained ℝ n m)).step index).Ensures s
      (fun it s' => it.event = .full ∧ s'.status = .solved) fun _ _ => False := by
  have hmoving : Moving { s with status := .performingHomotopy } :=
    ⟨hs.toReady.congr rfl rfl rfl rfl rfl rfl rfl rfl, hs.tolerant.congr rfl⟩
  -- nothing can be in the way, so the step is a full one
  have hlength {s1 : Constrained ℝ n m}
      (hdirection : determineDirection { s with status := .performingHomotopy } = .ok () s1) :
      s1.stepLength = (1, .full) := by
    obtain ⟨dx, dy, tilt, dax, rfl⟩ :=
      ((determineDirection_ensures hmoving.inStep).of_ok hdirection).same
    refine stepLength_of_unlimited (fun e => ?_) fun e => ?_
    · have he := hinactive e
      cases e <;> exact he
    · have he := h e
      cases e <;> exact he
  have hunbroken := unbroken hs hconvex
  refine (method.step_spec index s).mono (fun it s' hstep => ?_) fun f s' hfailed => ?_
  · cases hstep with
    | full hdirection hevent => exact ⟨hevent, rfl⟩
    | changed hdirection hevent => exact absurd (congrArg Prod.snd (hlength hdirection)) hevent
  · cases hfailed with
    | undirected hdirection => exact (hunbroken.of_error hdirection).elim
    | unchanged hdirection hevent => exact hevent (congrArg Prod.snd (hlength hdirection))
    | directionBroken hdirection => exact (hunbroken.of_error hdirection).elim
    | lengthBroken hdirection _ htau =>
      exact htau (beq_iff_eq.2 (congrArg Prod.fst (hlength hdirection)))
    | changeBroken hdirection hevent => exact hevent (congrArg Prod.snd (hlength hdirection))

/-- Without limits a solve from scratch arrives in one step. -/
theorem solve_of_unlimited (hs : s.InOrder) (hcold : s.Cold) (hdeclared : s.Declared)
    (hconvex : s.StrictlyConvex) (hunlimited : ∀ e, EntitySet.typeOfLimits (s.target.lowerOf e)
      (s.target.upperOf e) s.parameters.epsBound s.parameters.infinity = .unbounded)
    (hrelaxation : 0 ≤ s.parameters.relaxation) (obs : Observer ℝ n m τ) (view : τ)
    (budget : ℕ) :
    ((method : Method ℝ n m (Constrained ℝ n m)).solve obs (budget + 1) none none).Ensures
      (s, view) (fun k r => k = 1 ∧ r.1.status = .solved) fun _ _ => False := by
  refine (solve_of_cold hs hcold obs view budget (Q := fun s' => s'.status = .solved)
    (E := fun _ => False) ?_).mono (fun _ _ h => h) fun _ _ ⟨_, _, h⟩ => h
  -- nothing is active at a cold start, and no entity has a type that could block
  intro s1 hsetup hs1
  have hdata := s.sameData_reset.trans hsetup.sameData
  obtain ⟨hfactored, hsymm, htolerant⟩ :=
    hsetup.factored hdeclared.reset (hconvex.tolerant.congr rfl)
  obtain ⟨-, htyped⟩ := hsetup.optimal hdeclared.symmetric hrelaxation
  have hready : s1.Ready := ⟨hs1, hfactored, hsymm⟩
  refine step_of_unlimited (s := method.clearVerdict s1)
    ⟨hready.congr rfl rfl rfl rfl rfl rfl rfl rfl, htolerant.congr rfl⟩
    ((hconvex.congr hdata).congr ⟨rfl, rfl, rfl, rfl, rfl⟩)
    (fun e => ?_) (fun e => ?_) 0
  · have hinactive := hsetup.inactive hcold e
    cases e <;> exact congrArg Activity.isActive hinactive
  · have htype := (htyped e).1
    rw [hdata.target, hdata.parameters, hunlimited e] at htype
    cases e <;> exact htype

end Real

-- ---------------------------------------------------------------------------
-- An instance
-- ---------------------------------------------------------------------------

/-- Parameters for exact arithmetic: where numbers are compared with zero there is no tolerance. -/
noncomputable def exactParameters : Parameters ℝ :=
  { Parameters.default ℝ with epsZero := 0, epsDefinite := 0, epsDependent := 0 }

theorem infinity_exactParameters : exactParameters.infinity = 10 ^ 20 :=
  Nat.cast_pow 10 20

theorem epsBound_exactParameters : exactParameters.epsBound = 1 / 10 ^ 10 :=
  congrArg (1 / ·) (Nat.cast_pow 10 10)

theorem relaxation_exactParameters : exactParameters.relaxation = 10 ^ 3 :=
  Nat.cast_pow 10 3

/-- A number that is not beyond infinity is loaded as it is. -/
theorem clamp_of_abs_le {a : ℝ} (h : |a| ≤ 10 ^ 20) : Core.clamp exactParameters.infinity a = a := by
  refine Core.clamp_of ?_ ?_
  · rw [infinity_exactParameters]
    exact (abs_le.1 h).1
  · rw [infinity_exactParameters]
    exact (abs_le.1 h).2

theorem clamp_exactParameters {a : ℝ} (hsmall : |a| ≤ 100) :
    Core.clamp exactParameters.infinity a = a :=
  clamp_of_abs_le (hsmall.trans (by norm_num))

theorem clamp_infinity : Core.clamp exactParameters.infinity exactParameters.infinity = 10 ^ 20 := by
  refine (clamp_of_abs_le ?_).trans infinity_exactParameters
  rw [infinity_exactParameters]
  norm_num

/-- With one variable and one row there are two entities. -/
theorem entity_of_one (e : Entity 1 1) : e = .bound 0 ∨ e = .constraint 0 := by
  cases e with
  | bound i => exact .inl (congrArg _ (Subsingleton.elim i 0))
  | constraint i => exact .inr (congrArg _ (Subsingleton.elim i 0))

/-- A problem with one variable and one row that is zero: half the square of the variable, with no
limits. -/
noncomputable def loadSquare : List (Call ℝ 1 1 (Loading ℝ)) :=
  [.load (.core (.parameters exactParameters)), .load (.core (.hessian #[1]))]

/-- A solver with this problem loaded. -/
noncomputable def square : Constrained ℝ 1 1 :=
  loadSquare.foldl (fun s c => ((Constrained.interface ℝ 1 1).call c s).2) (Constrained.fresh 1 1)

theorem square_eq : square = { fresh 1 1 with
    parameters := exactParameters
    hessian := Grid.ofFn 1 1 fun i j => #[(1 : ℝ)].getD (i * 1 + j) 0 } := rfl

theorem reachable_square (admits : Call ℝ 1 1 (Loading ℝ) → Constrained ℝ 1 1 → Prop)
    (h : ∀ d s, admits (.load d) s) : (Constrained.interface ℝ 1 1).Reachable admits square :=
  .call _ (.call _ .fresh (h _ _)) (h _ _)

theorem hessian_square (i j : ℕ) : square.hessian i j = if i = 0 ∧ j = 0 then 1 else 0 := by
  rw [square_eq]
  split
  · next h =>
    obtain ⟨rfl, rfl⟩ := h
    exact Grid.ofFn_apply Nat.zero_lt_one Nat.zero_lt_one
  · next h =>
    rcases Nat.eq_zero_or_pos i with rfl | hi
    · exact Grid.apply_of_column_le _ (Nat.pos_of_ne_zero fun hj => h ⟨rfl, hj⟩)
    · exact Grid.apply_of_row_le _ hi

theorem lowerOf_square (e : Entity 1 1) : square.target.lowerOf e = -10 ^ 20 := by
  have hfill : ∀ i : Fin 1, Tuple.fill 1 (-exactParameters.infinity) i = -10 ^ 20 := fun i => by
    rw [Tuple.fill_apply i.isLt, infinity_exactParameters]
  cases e with
  | bound i => exact hfill i
  | constraint i => exact hfill i

theorem upperOf_square (e : Entity 1 1) : square.target.upperOf e = 10 ^ 20 := by
  have hfill : ∀ i : Fin 1, Tuple.fill 1 exactParameters.infinity i = 10 ^ 20 := fun i => by
    rw [Tuple.fill_apply i.isLt, infinity_exactParameters]
  cases e with
  | bound i => exact hfill i
  | constraint i => exact hfill i

theorem typeOfLimits_square (e : Entity 1 1) : EntitySet.typeOfLimits (square.target.lowerOf e)
    (square.target.upperOf e) square.parameters.epsBound square.parameters.infinity =
      .unbounded := by
  rw [lowerOf_square, upperOf_square]
  exact if_pos ⟨(congrArg Neg.neg infinity_exactParameters).ge, infinity_exactParameters.le⟩

theorem declared_square : square.Declared where
  symmetric i j := by
    rw [hessian_square, hessian_square]
    simp only [and_comm]
  identity h := by cases h

theorem strictlyConvex_square : square.StrictlyConvex where
  definite := by
    rintro v ⟨i, hi, hv⟩
    obtain rfl : i = 0 := by omega
    have hform : form 1 square.hessian v = v 0 * v 0 := by simp [form, hessian_square]
    rw [hform]
    exact mul_self_pos.2 hv
  epsZero_eq := rfl
  epsDefinite_eq := rfl
  epsDependent_eq := rfl

theorem cold_square : square.Cold where
  definite := by decide
  identity := by
    have hentry : square.hessian.isIdentity = true := by
      simp [Grid.isIdentity, hessian_square]
    unfold Core.hasIdentityHessian
    rw [hentry]
    rfl
  ordered e := by
    rw [lowerOf_square, upperOf_square]
    norm_num
  type_ne e := by
    rw [typeOfLimits_square]
    decide

theorem exact_square : square.Exact :=
  ⟨rfl, rfl, le_rfl, relaxation_exactParameters ▸ by norm_num⟩

/-- The problem is solved in one step. -/
theorem call_square : ∃ s', (Constrained.interface ℝ 1 1).call
    (.solve Observer.silent () 1 none none) square = (.ok 1, s') ∧ s'.status = .solved := by
  have horder : square.InOrder := (inOrder_fresh 1 1).congr rfl rfl
  have hrun := solve_of_unlimited horder cold_square declared_square strictlyConvex_square
    typeOfLimits_square exact_square.relaxation_nonneg Observer.silent () 0
  obtain ⟨k, r, hcall, rfl, hstatus⟩ | ⟨f, r, -, hfalse⟩ := outcome_of_ensures hrun
  · exact ⟨r.1, hcall, hstatus⟩
  · exact hfalse.elim

end Constrained

end ActiveSet
