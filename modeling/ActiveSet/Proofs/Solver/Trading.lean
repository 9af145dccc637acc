import ActiveSet.Proofs.Solver.Guessing

/-!
# Exchanges of dependent entities

An entity whose row is a combination of those in the working set cannot enter as it is. If one of them
can be given up, the two trade places. The multipliers move along the coefficients of the combination
meanwhile, which the gradient of the objective does not see, until that of the entity that leaves is
zero; none of the others loses its sign on this way. If none can be given up, nothing has happened but
that a free variable may have another place, and the coefficients show why: no active inequality has one
of the sign that would call for it.

There is no third way (`exchange_exact`). For a strictly convex problem in exact arithmetic the
coefficients can always be computed, every inequality can leave, and without it the entity that enters
is independent.

* `Replaced`, `Declined`: the two ways in which an exchange ends.
-/

namespace ActiveSet

open Finset

/-- The active group of a set holds the active entities. -/
theorem EntitySet.Sound.activeCount_eq_card {kind : EntityKind} {n : ℕ} {s : EntitySet kind n}
    (h : s.Sound) : s.activeCount = (univ.filter fun i : Fin n => s.isActive i = true).card := by
  have hset : s.active.toFinset = ({i | s.isActive i = true} : Finset (Fin n)) := by
    ext i
    rw [List.mem_toFinset, h.mem_active, mem_filter_univ]
  rw [← hset]
  exact s.partition.length_active.symm.trans
    (List.toFinset_card_of_nodup h.partition.nodup_active).symm

namespace Constrained

variable {n m : ℕ} {s s' s1 : Constrained ℝ n m} {e leaver : Entity n m} {side : Activity}
  {w : PreparedRow ℝ}

-- ---------------------------------------------------------------------------
-- Ends of an exchange
-- ---------------------------------------------------------------------------

/-- The entities in the working set. -/
def workingSet (s : Constrained ℝ n m) : Finset (Entity n m) := {a | s.isActive a = true}

theorem mem_workingSet {a : Entity n m} : a ∈ s.workingSet ↔ s.isActive a = true :=
  mem_filter_univ a

/-- A dependent entity has taken the place of another one. The factorizations are those of the new
working set, which is as large as the old one, the gradient of the objective is balanced as before, and
the multipliers of inequalities have the signs of their sides. -/
structure Replaced (s : Constrained ℝ n m) (e : Entity n m) (side : Activity) (leaver : Entity n m)
    (s' : Constrained ℝ n m) : Prop extends s.Traded e side leaver s' where
  ready : s'.Ready
  count_eq : s'.bounds.activeCount + s'.constraints.activeCount =
    s.bounds.activeCount + s.constraints.activeCount
  gradient_eq : ∀ j : Fin n, s'.y.bound j + ∑ i : Fin m, s'.y.row i * s.matrix i j =
    s.y.bound j + ∑ i : Fin m, s.y.row i * s.matrix i j
  leaver_eq : s'.y.get leaver = 0
  entering_nonneg : side = .lower → 0 ≤ s'.y.get e
  entering_nonpos : side = .upper → s'.y.get e ≤ 0

/-- A dependent entity stays outside, and of the working set nothing has changed but the order of the
free variables. The row of the entity is a combination of active rows in which no inequality has a
coefficient of the sign with which it could be given up. -/
structure Declined (s : Constrained ℝ n m) (e : Entity n m) (side : Activity)
    (s' : Constrained ℝ n m) : Prop extends s.Kept s' where
  y_eq : s'.y = s.y
  bounds_eq : s'.bounds = s.bounds
  constraints_eq : s'.constraints = s.constraints
  free_perm : s'.free.Perm s.free
  active_eq : s'.active = s.active
  ready : s'.Ready
  blocked : ∃ c : Entity n m → ℝ, (∀ a, s.isActive a = false → c a = 0) ∧
    (∀ j, j < n → s.row e j = ∑ a, c a * s.row a j) ∧
      ∀ a, s.limitType a ≠ .equality →
        (s.activity a = .lower → sign (side = .upper) * c a ≤ 0) ∧
          (s.activity a = .upper → 0 ≤ sign (side = .upper) * c a)

-- ---------------------------------------------------------------------------
-- A trade
-- ---------------------------------------------------------------------------

theorem InOrder.activeCount_add (h : s.InOrder) :
    s.bounds.activeCount + s.constraints.activeCount = s.workingSet.card := by
  rw [workingSet, h.sound.activeCount_eq_card, h.constraints_sound.activeCount_eq_card, card_filter,
    card_filter, card_filter, Entity.sum_eq]
  rfl

/-- The working set has lost one entity and gained another one. -/
theorem Traded.workingSet_eq (h : s.Traded e side leaver s') (hne : leaver ≠ e)
    (hside : side.isActive = true) : s'.workingSet = insert e (s.workingSet.erase leaver) := by
  ext a
  rw [mem_workingSet, mem_insert, mem_erase, mem_workingSet, isActive, h.activity_eq]
  by_cases hae : a = e
  · simp [hae, hside]
  · by_cases hal : a = leaver
    · simp [hal, hne, Activity.isActive]
    · simp [hae, hal, isActive]

theorem Traded.card_workingSet (h : s.Traded e side leaver s') (he : s.isActive e = false)
    (hside : side.isActive = true) : s'.workingSet.card = s.workingSet.card := by
  have hne : leaver ≠ e := by
    rintro rfl
    rw [h.leaver_active] at he
    cases he
  have hnot : e ∉ s.workingSet.erase leaver := by
    intro hmem
    rw [mem_workingSet.1 (mem_of_mem_erase hmem)] at he
    cases he
  rw [h.workingSet_eq hne hside, card_insert_of_notMem hnot]
  exact card_erase_add_one (mem_workingSet.2 h.leaver_active)

theorem Traded.gradient_eq (h : s.Traded e side leaver s') (j : Fin n) :
    s'.y.bound j + ∑ i : Fin m, s'.y.row i * s.matrix i j =
      s.y.bound j + ∑ i : Fin m, s.y.row i * s.matrix i j := by
  have hsum := h.balanced j j.isLt
  rw [s.sum_mul_row _ j.isLt, s.sum_mul_row _ j.isLt] at hsum
  exact hsum

theorem Traded.replaced (h : s.Traded e side leaver s') (hs : s.InStep) (hs' : s'.Ready)
    (he : s.CanEnter side e) : s.Replaced e side leaver s' := by
  obtain ⟨hactivity, htype, hside⟩ := canEnter_spec hs he
  have houtside : s.isActive e = false := by
    rw [isActive, hactivity]
    rfl
  have hne : leaver ≠ e := by
    rintro rfl
    rw [h.leaver_active] at houtside
    cases houtside
  have hentering : s'.activity e = side := by rw [h.activity_eq, if_pos rfl]
  have htype' : s'.limitType e ≠ .equality := by rwa [h.type_eq]
  -- one in and one out, so the number of active entities is the same
  have hcount : s'.workingSet.card = s.workingSet.card := by
    refine h.card_workingSet houtside ?_
    rcases hside with rfl | rfl <;> rfl
  rw [← hs'.inStep.activeCount_add, ← hs.activeCount_add] at hcount
  refine ⟨h, hs', hcount, h.gradient_eq, h.signed.inactive leaver ?_,
    fun hlower => h.signed.nonneg e (hentering.trans hlower) htype',
    fun hupper => h.signed.nonpos e (hentering.trans hupper) htype'⟩
  rw [isActive, h.activity_eq, if_neg hne, if_pos rfl]
  rfl

/-- What has been traded does not depend on the order of the factorization. -/
theorem Reordered.traded (h : s.Reordered s1) (htraded : s1.Traded e side leaver s') :
    s.Traded e side leaver s' := by
  obtain ⟨hkept, hactivity, hy, -⟩ := h.kept
  refine ⟨hkept.trans htraded.toKept, ?_, ?_, fun a => ?_, fun j hj => ?_, htraded.signed⟩
  · rw [isActive, ← hactivity]
    exact htraded.leaver_active
  · rw [← hkept.type_eq]
    exact htraded.leaver_type
  · rw [htraded.activity_eq, hactivity]
  · rw [← hkept.row_eq, ← hy]
    exact htraded.balanced j hj

-- ---------------------------------------------------------------------------
-- A refusal
-- ---------------------------------------------------------------------------

/-- An exchange fails only because none can be given up. -/
theorem ExchangeFailed.of_strictlyConvex {error : QpError} (h : s.ExchangeFailed e side w error s')
    (hconvex : s.StrictlyConvex) (hs : s.Moving) (hw : s.Prepared w e) (hind : w.independent = false)
    (he : s.CanEnter side e) : error = e.kind.addFailedInfeasibility ∧ s.Stuck e side w s' := by
  cases h with
  | unsolved hundetermined => exact (hs.determined hconvex.epsZero_eq hundetermined).elim
  | stuck hstuck => exact ⟨rfl, hstuck⟩
  | removal hdependent hstranded =>
    exact ((hconvex.congr hdependent.sameData).leaves (hdependent.moving hs) hstranded).elim
  | dependent hswapped hind' =>
    rw [hswapped.independent hs hconvex.epsZero_eq hconvex.epsDependent_eq hw hind he] at hind'
    cases hind'

/-- Apart from the coefficients of the dependency only the order of the free variables has changed. -/
theorem Stuck.declined (h : s1.Stuck e side w s') (hreordered : s.Reordered s1) (hs : s1.Moving)
    (heps : s1.parameters.epsDependent = 0) (hw : s1.Prepared w e) (hind : w.independent = false)
    (he : s1.CanEnter side e) : s.Declined e side s' := by
  obtain ⟨hactivity1, htype, -⟩ := canEnter_spec hs.inStep he
  obtain ⟨hdependent, hnone⟩ := h
  obtain ⟨hkept, hactivity, hy, -⟩ := hreordered.kept
  -- only the order of the free variables has changed, and what is known about the dependency
  obtain ⟨hkept', hactivity', hy'⟩ := hdependent.kept
  obtain ⟨hrow, hinactive⟩ := hdependent.row_eq hs.inStep.toListed hs.factored.split hw heps
    (by rw [isActive, hactivity1]; rfl) hind
  have hready := (hdependent.moving hs).toReady
  have hblocked := leaving_of_firstLeaving_eq_none hnone (by rwa [hkept'.type_eq])
  have heps' : s'.parameters.epsDependent = 0 := by rw [hkept'.parameters, heps]
  have hframe : s1.bounds = s.bounds ∧ s1.constraints = s.constraints ∧ s1.free.Perm s.free ∧
      s1.active = s.active := by
    cases hreordered with
    | refl => exact ⟨rfl, rfl, .refl _, rfl⟩
    | swap hp hswap => exact ⟨rfl, rfl, perm_moveLast hp, rfl⟩
  have hframe' : s'.bounds = s1.bounds ∧ s'.constraints = s1.constraints ∧ s'.free = s1.free ∧
      s'.active = s1.active := by
    cases hdependent
    exact ⟨rfl, rfl, rfl, rfl⟩
  obtain ⟨hbounds, hconstraints, hfree, hactive⟩ := hframe
  obtain ⟨hbounds', hconstraints', hfree', hactive'⟩ := hframe'
  refine ⟨hkept.trans hkept', hy'.trans hy, hbounds'.trans hbounds,
    -- the coefficients are those of the entity's row, and no multiplier moves towards zero along them
    hconstraints'.trans hconstraints, hfree' ▸ hfree, hactive'.trans hactive, hready,
    fun a => s'.dependency.get a, fun a ha => hinactive a ?_, fun j hj => ?_, fun a htype => ?_⟩
  · rw [isActive, hactivity]
    exact ha
  · rw [← hkept.row_eq]
    exact hrow j hj
  · rw [← hkept.type_eq, ← hkept'.type_eq] at htype
    rw [← hactivity, ← hactivity']
    exact sign_of_leaving_eq_none hblocked heps' htype

-- ---------------------------------------------------------------------------
-- Exchanges
-- ---------------------------------------------------------------------------

/-- A dependent entity is prepared, and found to be dependent. -/
theorem prepareEntity_dependent (hs : s.Ready) (heps : 0 ≤ s.parameters.epsDependent)
    (he : s.CanEnter side e) (hdepends : s.DependsOn (fun a => s.isActive a = true) e) :
    ∃ w s1, prepareEntity e s = .ok w s1 ∧ s.Reordered s1 ∧ s1.Prepared w e ∧
      w.independent = false := by
  obtain ⟨w, s1, hrun, hreordered, hw⟩ := (prepareEntity_ensures hs.inStep.toListed he).exists_ok
  obtain ⟨hkept, hactivity, -⟩ := hreordered.kept
  refine ⟨w, s1, hrun, hreordered, hw, hw.independent_of_dependsOn
    (hreordered.inStep hs.inStep).toListed (hreordered.factored hs.inStep hs.factored).split
    (by rwa [hkept.parameters]) ?_⟩
  rw [hkept.dependsOn_iff]
  exact hdepends.mono fun a ha => by rwa [isActive, hactivity]

/-- An exchange trades the entity for another one, or is declined. -/
theorem exchange_replaces (hreordered : s.Reordered s1) (hs : s.Ready) (hconvex : s.StrictlyConvex)
    (hsigned : s.Signed) (hw : s1.Prepared w e) (hind : w.independent = false)
    (he : s.CanEnter side e) :
    (exchange e side w).Ensures s1 (fun _ s' => ∃ leaver, s.Replaced e side leaver s')
      fun f s' => f = .failed e.kind.addFailedInfeasibility ∧ s.Declined e side s' := by
  have hmoving : s.Moving := ⟨hs, hconvex.tolerant⟩
  have hmoving1 := hreordered.moving hmoving
  have he1 := hreordered.canEnter he
  obtain ⟨hkept, hactivity, hy, -⟩ := hreordered.kept
  have hsigned1 := hsigned.congr hactivity hkept.type_eq hy
  have hconvex1 := hconvex.congr hreordered.sameData
  refine (exchange_ensures hmoving1.inStep hw he1).mono ?_ ?_
  · rintro ⟨⟩ s' ⟨hexchanged, hs'⟩
    have hmoving' := Changed.moving (.exchanged hreordered hw hind hexchanged) hmoving hs'
    -- the exchange succeeds with some entity that leaves, or finds none
    obtain ⟨leaver, htraded⟩ := hexchanged.traded hmoving1.inStep hmoving1.factored.split
      hconvex1.epsDependent_eq hsigned1 hw hind he1
    exact ⟨leaver, (hreordered.traded htraded).replaced hs.inStep hmoving'.toReady he⟩
  · rintro f s' ⟨error, rfl, hfailed⟩
    obtain ⟨rfl, hstuck⟩ := hfailed.of_strictlyConvex hconvex1 hmoving1 hw hind he1
    exact ⟨rfl, hstuck.declined hreordered hmoving1 hconvex1.epsDependent_eq hw hind he1⟩

theorem canEnter_of_bounded (hactivity : s.activity e = .inactive) (htype : s.limitType e = .bounded)
    (hside : side = .lower ∨ side = .upper) (hlimit : s.hasSide side e = true) :
    s.CanEnter side e := by
  have hactive : side.isActive = true := by rcases hside with rfl | rfl <;> rfl
  have hne : s.limitType e ≠ .unbounded := by
    rw [htype]
    decide
  cases e with
  | bound i => exact ⟨hactivity, hactive, hne, hlimit⟩
  | constraint i => exact ⟨hactivity, hactive, hne, hlimit⟩

-- ---------------------------------------------------------------------------
-- An instance
-- ---------------------------------------------------------------------------

/-- The tied problem with some slack: the row may have any value from one half to one. -/
noncomputable def slack : Constrained ℝ 1 1 :=
  ((Constrained.interface ℝ 1 1).call (.load (.rowUpper #[1])) tied).2

theorem slack_eq : slack = { tied with target := { tied.target with
    rowUpper := Tuple.ofFn 1 fun i => Core.clamp exactParameters.infinity (#[1].getD i 0) } } := rfl

theorem parameters_slack : slack.parameters = exactParameters := by
  rw [slack_eq]
  exact parameters_tied

theorem limits_slack_bound :
    slack.target.lowerOf (.bound 0) = 0 ∧ slack.target.upperOf (.bound 0) = 1 := by
  rw [slack_eq]
  exact limits_tied_bound

theorem limits_slack_constraint : slack.target.lowerOf (.constraint 0) = 1 / 2 ∧
    slack.target.upperOf (.constraint 0) = 1 := by
  rw [slack_eq]
  exact ⟨limits_tied_constraint.1,
    (Tuple.ofFn_apply Nat.zero_lt_one).trans (clamp_exactParameters (by norm_num))⟩

/-- The limits of both entities have a gap. -/
theorem gap_slack (e : Entity 1 1) : 0 ≤ slack.target.lowerOf e ∧
    1 / 2 ≤ slack.target.upperOf e - slack.target.lowerOf e := by
  obtain rfl | rfl := entity_of_one e
  · rw [limits_slack_bound.1, limits_slack_bound.2]
    norm_num
  · rw [limits_slack_constraint.1, limits_slack_constraint.2]
    norm_num

theorem loadedType_slack (e : Entity 1 1) : slack.loadedType e = .bounded :=
  loadedType_of_gap parameters_slack (gap_slack e).1 (gap_slack e).2

theorem row_slack (e : Entity 1 1) : slack.row e 0 = 1 := by
  rw [slack_eq]
  exact row_tied e

theorem hessian_slack : slack.hessian = square.hessian := by
  rw [slack_eq, tied_eq]

theorem declared_slack : slack.Declared := by
  have htype : slack.hessianType = square.hessianType := by rw [slack_eq, tied_eq]
  refine ⟨fun i j => ?_, fun h => ?_⟩
  · rw [hessian_slack]
    exact declared_square.symmetric i j
  · rw [hessian_slack]
    exact declared_square.identity (htype ▸ h)

theorem strictlyConvex_slack : slack.StrictlyConvex := by
  refine ⟨?_, ?_, ?_, ?_⟩
  · rw [hessian_slack]
    exact strictlyConvex_square.definite
  · rw [parameters_slack]
    rfl
  · rw [parameters_slack]
    rfl
  · rw [parameters_slack]
    rfl

theorem wantedSide_slack : slack.wantedSide zeroGuess (.bound 0) = .lower :=
  wantedSide_zeroGuess parameters_slack (loadedType_slack _) limits_slack_bound.1

/-- The variable is on its lower limit, and the row outside the working set. -/
structure Leaning (s : Constrained ℝ 1 1) : Prop where
  ready : s.Ready
  strictlyConvex : s.StrictlyConvex
  signed : s.Signed
  inactive : s.activity (.constraint 0) = .inactive
  activity_eq : s.activity (.bound 0) = .lower
  type_eq : s.limitType (.constraint 0) = .bounded
  bound_type_eq : s.limitType (.bound 0) = .bounded
  hasSide : s.hasSide .lower (.constraint 0) = true
  row_eq : ∀ e, s.row e 0 = 1

theorem Leaning.eq_bound {s : Constrained ℝ 1 1} (h : s.Leaning) {a : Entity 1 1}
    (ha : s.isActive a = true) : a = .bound 0 := by
  cases a with
  | bound i => rw [Subsingleton.elim i 0]
  | constraint i =>
    rw [Subsingleton.elim i 0, isActive, h.inactive] at ha
    cases ha

theorem Leaning.dependsOn {s : Constrained ℝ 1 1} (h : s.Leaning) :
    s.DependsOn (fun a => s.isActive a = true) (.constraint 0) :=
  dependsOn_of_row_eq h.row_eq (congrArg Activity.isActive h.activity_eq)

/-- The multiplier of the variable can be used up. -/
theorem Leaning.not_declined {s s' : Constrained ℝ 1 1} (h : s.Leaning) :
    ¬s.Declined (.constraint 0) .lower s' := by
  intro hdeclined
  obtain ⟨c, hinactive, hrow, hsign⟩ := hdeclined.blocked
  have hzero : c (.constraint 0) = 0 := hinactive _ (by rw [isActive, h.inactive]; rfl)
  have hone := hrow 0 Nat.zero_lt_one
  simp only [h.row_eq, mul_one, Entity.sum_eq, Fin.sum_univ_one] at hone
  rw [hzero, add_zero] at hone
  have hle := (hsign (.bound 0) (by rw [h.bound_type_eq]; decide)).1 h.activity_eq
  rw [show sign (Activity.lower = .upper) = 1 from if_neg (by decide), one_mul, ← hone] at hle
  exact absurd hle (by norm_num)

/-- The guess of zero puts the variable on its lower limit, and the row would depend on it. -/
theorem StartsWith.leaning {s : Constrained ℝ 1 1} (h : slack.StartsWith zeroGuess s)
    (hsetup : slack.reset.SetUp zeroGuess s) (hs : s.InStep) : s.Leaning := by
  have hreset := slack.sameData_reset
  have hdata := hreset.trans hsetup.sameData
  obtain ⟨hfactored, hsymm, -⟩ :=
    hsetup.factored declared_slack.reset (strictlyConvex_slack.tolerant.congr hreset.parameters)
  obtain ⟨hoptimal, htyped⟩ := hsetup.optimal declared_slack.reset.symmetric (by
    rw [hreset.parameters, parameters_slack]
    exact exact_square.relaxation_nonneg)
  have htype : ∀ e, s.limitType e = .bounded := by
    intro e
    rw [(htyped e).1, hdata.target, hdata.parameters]
    exact loadedType_slack e
  -- the bound starts in the working set, and the row depends on it
  have hwanted : slack.Wanted zeroGuess (.bound 0) := congrArg Activity.isActive wantedSide_slack
  have hin : slack.startingSet zeroGuess 1 (.bound 0) := (startingSet_bound 0).2 hwanted
  have hout : ¬slack.startingSet zeroGuess 1 (.constraint 0) := by
    intro hmem
    exact ((startingSet_constraint 0).1 hmem).2.2
      (dependsOn_of_row_eq row_slack ((startingSet_bound 0).2 hwanted))
  refine ⟨⟨hs, hfactored, hsymm⟩, strictlyConvex_slack.congr hdata, hoptimal.signed,
    h.inactive _ hout, (h.activity_eq _ hin).trans wantedSide_slack, htype _, htype _,
    (htyped _).2.1.2 ?_, fun e => ?_⟩
  · rw [hdata.target, hdata.parameters, limits_slack_constraint.1, parameters_slack,
      infinity_exactParameters]
    norm_num
  · rw [hdata.row_eq]
    exact row_slack e

theorem prepare_slack : ∃ s, prepare zeroGuess slack.reset = .ok () s ∧ s.Leaning := by
  have horder : slack.InOrder := (inOrder_fresh 1 1).congr rfl rfl
  have hordered : ∀ e, slack.target.lowerOf e ≤ slack.target.upperOf e := by
    intro e
    linarith [(gap_slack e).2]
  have hunobstructed : ¬slack.Obstructed zeroGuess := by
    rintro ⟨i, htype, -⟩
    rw [loadedType_slack] at htype
    cases htype
  obtain ⟨s, hprepare, hsetup, hs, -, hstarts⟩ := prepare_of_strictlyConvex horder declared_slack
    strictlyConvex_slack hordered hunobstructed
  exact ⟨s, hprepare, hstarts.leaning hsetup hs⟩

end Constrained

/-- An inequality that depends on the working set enters it by an exchange. Either it takes the place of
another inequality, and the number of active entities, the balance of the gradient, the signs of the
multipliers and the validity of the factorizations stay, or the exchange is declined for
infeasibility, and everything stays but the order of the free variables. -/
theorem exchange_exact (n m : ℕ) {s : Constrained ℝ n m} (hs : s.Ready) (hconvex : s.StrictlyConvex)
    (hsigned : s.Signed) {e : Entity n m} {side : Activity} (hactivity : s.activity e = .inactive)
    (htype : s.limitType e = .bounded) (hside : side = .lower ∨ side = .upper)
    (hlimit : s.hasSide side e = true) (hdepends : s.DependsOn (fun a => s.isActive a = true) e) :
    ∃ w s1, Constrained.prepareEntity e s = .ok w s1 ∧ w.independent = false ∧
      Constrained.addEntity e side s = Constrained.exchange e side w s1 ∧
      (Constrained.exchange e side w).Ensures s1 (fun _ s' => ∃ leaver, s.Replaced e side leaver s')
        fun f s' => f = .failed e.kind.addFailedInfeasibility ∧ s.Declined e side s' := by
  have he := Constrained.canEnter_of_bounded hactivity htype hside hlimit
  obtain ⟨w, s1, hrun, hreordered, hw, hind⟩ :=
    Constrained.prepareEntity_dependent hs hconvex.epsDependent_eq.ge he hdepends
  refine ⟨w, s1, hrun, hind, ?_,
    Constrained.exchange_replaces hreordered hs hconvex hsigned hw hind he⟩
  have hnot : ¬w.independent = true := by
    rw [hind]
    exact Bool.false_ne_true
  unfold Constrained.addEntity
  rw [Update.bind_of_ok hrun, if_neg hnot]

/-- With the variable on its lower limit, the row takes its place when it enters at its own. -/
theorem exchange_exact_slack : ∃ s : Constrained ℝ 1 1,
    Constrained.prepare Constrained.zeroGuess Constrained.slack.reset = .ok () s ∧
      s.activity (.constraint 0) = .inactive ∧ s.activity (.bound 0) = .lower ∧
        ∃ s', Constrained.addEntity (.constraint 0) .lower s = .ok () s' ∧
          s'.activity (.constraint 0) = .lower ∧ s'.activity (.bound 0) = .inactive := by
  obtain ⟨s, hprepare, hleaning⟩ := Constrained.prepare_slack
  obtain ⟨w, s1, -, -, hrun, hensures⟩ := exchange_exact 1 1 hleaning.ready hleaning.strictlyConvex
    hleaning.signed hleaning.inactive hleaning.type_eq (.inl rfl) hleaning.hasSide hleaning.dependsOn
  refine ⟨s, hprepare, hleaning.inactive, hleaning.activity_eq, ?_⟩
  rw [hrun]
  obtain ⟨⟨⟩, s', hexchange, leaver, hreplaced⟩ :=
    (hensures.mono (fun _ _ h => h) fun _ _ h => hleaning.not_declined h.2).exists_ok
  have hleaver : leaver = .bound 0 := hleaning.eq_bound hreplaced.leaver_active
  refine ⟨s', hexchange, ?_, ?_⟩
  · rw [hreplaced.activity_eq, if_pos rfl]
  · rw [hreplaced.activity_eq, if_neg nofun, if_pos hleaver.symm]

end ActiveSet
