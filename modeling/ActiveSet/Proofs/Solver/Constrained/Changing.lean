import ActiveSet.Proofs.Solver.Constrained.Depending
import ActiveSet.Proofs.Solver.Constrained.FactoredSession
import ActiveSet.Proofs.Solver.Constrained.Stepping

/-!
# A change of the working set keeps a solution

An entity enters the working set when it lies on its limit, and it leaves when its multiplier is
zero, so the solution stays one. In an exchange the multipliers move along the coefficients of the
dependency, which keeps the gradient of the objective balanced, and the entity that leaves is the
first whose multiplier is used up (`Exchanged.traded`, `Changed.underway`).

With the entity that leaves the dependency is gone: the entity that enters is found independent of
the others (`Swapped.independent`).
-/

namespace ActiveSet.Constrained

open Finset

variable {n m : ℕ} {s s' : Constrained ℝ n m} {e : Entity n m} {w : PreparedRow ℝ}

-- ---------------------------------------------------------------------------
-- Moves
-- ---------------------------------------------------------------------------

/-- Point, current problem and the classification of the entities are the same. -/
structure Kept (s s' : Constrained ℝ n m) : Prop extends s.SameData s' where
  x_eq : s'.x = s.x
  ax_eq : s'.ax = s.ax
  current_eq : s'.current = s.current
  type_eq : ∀ a, s'.limitType a = s.limitType a
  side_eq : ∀ side a, s'.hasSide side a = s.hasSide side a

theorem activity_congr (hb : s'.bounds = s.bounds) (hc : s'.constraints = s.constraints) :
    s'.activity = s.activity := by
  funext a
  cases a with
  | bound i => simp only [activity, hb]
  | constraint i => simp only [activity, hc]

/-- With the sets of entities their classification is the same. -/
theorem kept_of_sets (hdata : s.SameData s') (hb : s'.bounds = s.bounds)
    (hc : s'.constraints = s.constraints) (hx : s'.x = s.x) (hax : s'.ax = s.ax)
    (hcurrent : s'.current = s.current) : s.Kept s' := by
  refine ⟨hdata, hx, hax, hcurrent, fun a => ?_, fun side a => ?_⟩
  · cases a with
    | bound i => simp only [limitType, hb]
    | constraint i => simp only [limitType, hc]
  · cases a with
    | bound i => simp only [hasSide, hb]
    | constraint i => simp only [hasSide, hc]

/-- One entity has changed its place in the working set. -/
structure Moved (s : Constrained ℝ n m) (e : Entity n m) (activity : Activity)
    (s' : Constrained ℝ n m) : Prop extends s.Kept s' where
  activity_eq : ∀ a, s'.activity a = if a = e then activity else s.activity a
  y_eq : s'.y = s.y
  dependency_eq : s'.dependency = s.dependency

/-- A set of bounds in which one has moved. -/
theorem moved_of_bounds {i : Fin n} {activity : Activity} (hb : s.bounds.Moved i activity s'.bounds)
    (hc : s'.constraints = s.constraints) (hdata : s.SameData s') (hx : s'.x = s.x)
    (hax : s'.ax = s.ax) (hcurrent : s'.current = s.current) (hy : s'.y = s.y)
    (hdependency : s'.dependency = s.dependency) : s.Moved (.bound i) activity s' := by
  refine ⟨⟨hdata, hx, hax, hcurrent, fun a => ?_, fun side a => ?_⟩, fun a => ?_, hy,
    hdependency⟩
  · cases a with
    | bound k => exact hb.limitType k
    | constraint k => exact congrArg (fun c => EntitySet.limitType c k) hc
  · cases a with
    | bound k => exact hb.hasSide k side
    | constraint k => exact congrArg (fun c => EntitySet.hasSide c k side) hc
  · cases a with
    | bound k =>
      have hk := hb.activity k
      simp only [Entity.bound.injEq]
      exact hk
    | constraint k =>
      rw [if_neg nofun]
      exact congrArg (fun c => EntitySet.activity c k) hc

/-- A set of constraints in which one has moved. -/
theorem moved_of_constraints {i : Fin m} {activity : Activity}
    (hc : s.constraints.Moved i activity s'.constraints) (hb : s'.bounds = s.bounds)
    (hdata : s.SameData s') (hx : s'.x = s.x) (hax : s'.ax = s.ax)
    (hcurrent : s'.current = s.current) (hy : s'.y = s.y)
    (hdependency : s'.dependency = s.dependency) : s.Moved (.constraint i) activity s' := by
  refine ⟨⟨hdata, hx, hax, hcurrent, fun a => ?_, fun side a => ?_⟩, fun a => ?_, hy,
    hdependency⟩
  · cases a with
    | bound k => exact congrArg (fun b => EntitySet.limitType b k) hb
    | constraint k => exact hc.limitType k
  · cases a with
    | bound k => exact congrArg (fun b => EntitySet.hasSide b k side) hb
    | constraint k => exact hc.hasSide k side
  · cases a with
    | bound k =>
      rw [if_neg nofun]
      exact congrArg (fun b => EntitySet.activity b k) hb
    | constraint k =>
      have hk := hc.activity k
      simp only [Entity.constraint.injEq]
      exact hk

theorem Released.moved (h : s.Released e s') (hs : s.InOrder) : s.Moved e .inactive s' := by
  cases h with
  | bound hdeactivate hnull =>
    exact moved_of_bounds (EntitySet.deactivate_spec hs.sound hdeactivate).2 rfl
      ⟨rfl, rfl, rfl, rfl, rfl⟩ rfl rfl rfl rfl rfl
  | constraint hp hdeactivate hnull =>
    exact moved_of_constraints (EntitySet.deactivate_spec hs.constraints_sound hdeactivate).2 rfl
      ⟨rfl, rfl, rfl, rfl, rfl⟩ rfl rfl rfl rfl rfl

theorem Left.moved (h : s.Left e s') (hs : s.InOrder) : s.Moved e .inactive s' := by
  obtain ⟨s1, hreleased, -, hextended⟩ := h
  have hmoved := hreleased.moved hs
  cases hextended
  refine ⟨⟨⟨hmoved.parameters, hmoved.hessian, hmoved.matrix, hmoved.target, hmoved.hessianType⟩,
    hmoved.x_eq, hmoved.ax_eq, hmoved.current_eq, fun a => ?_, fun side a => ?_⟩, fun a => ?_, hmoved.y_eq,
    hmoved.dependency_eq⟩
  · rw [← hmoved.type_eq]
    cases a <;> rfl
  · rw [← hmoved.side_eq]
    cases a <;> rfl
  · rw [← hmoved.activity_eq]
    cases a <;> rfl

theorem Entered.moved {side : Activity} (h : s.Entered side w s' e) (hs : s.InStep)
    (he : s.CanEnter side e) : s.Moved e side s' := by
  have hdata := h.sameData
  cases e with
  | bound i =>
    have he : s.bounds.CanEnter i side := he
    cases (show s.BoundEntered i side w s' from h) with
    | intro hactivate hrow hfactor hnull =>
      have hmoved := he.moved_of_activate hs.sound hs.classified hactivate
      exact moved_of_bounds hmoved rfl hdata rfl rfl rfl rfl rfl
  | constraint i =>
    have he : s.constraints.CanEnter i side := he
    cases (show s.ConstraintEntered i side w true s' from h) with
    | intro hactivate hrow hfactor hnull =>
      have hmoved :=
        he.moved_of_activate hs.constraints_sound hs.classified_constraints hactivate
      exact moved_of_constraints hmoved rfl hdata rfl rfl rfl rfl rfl

-- ---------------------------------------------------------------------------
-- Optimality after moves
-- ---------------------------------------------------------------------------

/-- The multipliers fit the working set: outside of it they are zero, and inside those of inequalities
have the signs of their sides. -/
structure Signed (s : Constrained ℝ n m) : Prop where
  inactive : ∀ a, s.isActive a = false → s.y.get a = 0
  nonneg : ∀ a, s.activity a = .lower → s.limitType a ≠ .equality → 0 ≤ s.y.get a
  nonpos : ∀ a, s.activity a = .upper → s.limitType a ≠ .equality → s.y.get a ≤ 0

theorem Optimal.signed (h : s.Optimal) : s.Signed := ⟨h.inactive, h.nonneg, h.nonpos⟩

theorem Signed.congr (h : s.Signed) (hactivity : s'.activity = s.activity)
    (htype : ∀ a, s'.limitType a = s.limitType a) (hy : s'.y = s.y) : s'.Signed := by
  refine ⟨fun a ha => ?_, fun a hside hne => ?_, fun a hside hne => ?_⟩
  · rw [isActive, hactivity] at ha
    rw [hy]
    exact h.inactive a ha
  · rw [hactivity] at hside
    rw [htype] at hne
    rw [hy]
    exact h.nonneg a hside hne
  · rw [hactivity] at hside
    rw [htype] at hne
    rw [hy]
    exact h.nonpos a hside hne

/-- A solution stays one for another working set and other multipliers, if these balance the gradient
as well and fit the working set. -/
theorem Kept.optimal (hkept : s.Kept s') (h : s.Optimal) (hdefined : ∀ a, s'.activity a ≠ .undefined)
    (hrows : ∀ j, j < n → ∑ a, s'.y.get a * s.row a j = ∑ a, s.y.get a * s.row a j)
    (honLimit : ∀ a, s'.isActive a = true →
      s.valueOf s.x a = s.current.limitOf (s'.activity a) a) (hsigned : s'.Signed) :
    s'.Optimal := by
  refine ⟨hdefined, fun a side hside => ?_, fun j hj => ?_, fun i => ?_, fun a ha => ?_,
    fun a hside => ?_, fun a hside => ?_, hsigned.inactive, hsigned.nonneg, hsigned.nonpos⟩
  · rw [hkept.side_eq] at hside
    rw [hkept.type_eq]
    exact h.limited a side hside
  · rw [hkept.hessian, hkept.x_eq, hkept.current_eq, hkept.row_eq, hrows j hj]
    exact h.stationary j hj
  · rw [hkept.ax_eq, hkept.x_eq, hkept.valueOf_eq]
    exact h.ax_eq i
  · rw [hkept.x_eq, hkept.valueOf_eq, hkept.current_eq]
    exact honLimit a ha
  · rw [hkept.side_eq] at hside
    rw [hkept.x_eq, hkept.valueOf_eq, hkept.current_eq]
    exact h.lower_le a hside
  · rw [hkept.side_eq] at hside
    rw [hkept.x_eq, hkept.valueOf_eq, hkept.current_eq]
    exact h.le_upper a hside

/-- An entity with a zero multiplier may leave the working set, and it may enter where it lies on its
limit. -/
theorem Moved.optimal {activity : Activity} (hmoved : s.Moved e activity s') (h : s.Optimal)
    (hy : s.y.get e = 0) (hdefined : activity ≠ .undefined) (honLimit : activity.isActive = true →
      s.valueOf s.x e = s.current.limitOf activity e) : s'.Optimal := by
  have hactivity := hmoved.activity_eq
  -- only one entity has moved: it has no multiplier, and it is on its limit if it is active now
  refine hmoved.toKept.optimal h (fun a => ?_) (fun j _ => by rw [hmoved.y_eq])
    (fun a ha => ?_) ⟨fun a ha => ?_, fun a hside htype => ?_, fun a hside htype => ?_⟩
  · rw [hactivity]
    split
    · exact hdefined
    · exact h.defined a
  · rw [isActive, hactivity] at ha
    rw [hactivity]
    split
    · next heq =>
      rw [if_pos heq] at ha
      rw [heq]
      exact honLimit ha
    · next hne =>
      rw [if_neg hne] at ha
      exact h.on_limit a ha
  · rw [isActive, hactivity] at ha
    rw [hmoved.y_eq]
    split at ha
    · next heq => rw [heq, hy]
    · exact h.inactive a ha
  · rw [hactivity] at hside
    rw [hmoved.type_eq] at htype
    rw [hmoved.y_eq]
    split at hside
    · next heq => rw [heq, hy]
    · exact h.nonneg a hside htype
  · rw [hactivity] at hside
    rw [hmoved.type_eq] at htype
    rw [hmoved.y_eq]
    split at hside
    · next heq => rw [heq, hy]
    · exact h.nonpos a hside htype

-- ---------------------------------------------------------------------------
-- The entity that leaves in an exchange
-- ---------------------------------------------------------------------------

/-- What is found among some entities is not later than what was found before, and than the next
one. -/
theorem earlier_le {flip : Bool} {best : Option (ℝ × Entity n m)} {a leaver : Entity n m} {t : ℝ}
    (h : s.earlier flip best a = some (t, leaver)) :
    (∀ t' a', best = some (t', a') → t ≤ t') ∧
      ∀ t', s.leavingAmount flip a = some t' → t ≤ t' := by
  unfold earlier at h
  -- whichever of the two amounts is kept, it is the smaller one
  split at h
  · next hnone =>
    rw [h, hnone]
    refine ⟨?_, nofun⟩
    rintro t' a' heq
    cases heq
    exact le_refl t
  · next hsome =>
    cases h
    rw [hsome]
    refine ⟨nofun, ?_⟩
    rintro t' heq
    cases heq
    exact le_refl t
  · next t1 t2 e2 hsome =>
    rw [hsome]
    split at h
    · next hlt =>
      cases h
      constructor
      · rintro t' a' heq
        cases heq
        exact hlt.le
      · rintro t' heq
        cases heq
        exact le_refl t
    · next hnot =>
      cases h
      constructor
      · rintro t' a' heq
        cases heq
        exact le_refl t
      · rintro t' heq
        cases heq
        exact not_lt.1 hnot

/-- The entity that leaves is the first whose multiplier is used up. -/
theorem leaving_le {flip : Bool} {leaver : Entity n m} {t : ℝ}
    (h : s.leaving flip = some (t, leaver)) {a : Entity n m} {t' : ℝ}
    (ha : s.leavingAmount flip a = some t') : t ≤ t' := by
  rw [leaving_eq] at h
  -- by induction on the entities that are looked at, with any best one so far
  suffices hfold : ∀ (l : List (Entity n m)) (best : Option (ℝ × Entity n m)),
      l.foldl (s.earlier flip) best = some (t, leaver) →
        (∀ t' a', best = some (t', a') → t ≤ t') ∧
          ∀ a ∈ l, ∀ t', s.leavingAmount flip a = some t' → t ≤ t' from
    (hfold _ none h).2 a (Entity.mem_all a) t' ha
  intro l
  induction l with
  | nil =>
    rintro best rfl
    refine ⟨?_, nofun⟩
    rintro t' a' heq
    cases heq
    exact le_refl t
  | cons a rest ih =>
    intro best hbest
    obtain ⟨hfirst, hrest⟩ := ih _ hbest
    cases hnext : s.earlier flip best a with
    | none =>
      obtain ⟨hnone, hamount⟩ := earlier_eq_none_iff.1 hnext
      refine ⟨?_, List.forall_mem_cons.2 ⟨?_, hrest⟩⟩
      · rw [hnone]
        exact nofun
      · rw [hamount]
        exact nofun
    | some r =>
      obtain ⟨t1, a1⟩ := r
      have hle := hfirst t1 a1 hnext
      obtain ⟨hbest', hamount⟩ := earlier_le hnext
      exact ⟨fun t' a' heq => hle.trans (hbest' t' a' heq),
        List.forall_mem_cons.2 ⟨fun t' heq => hle.trans (hamount t' heq), hrest⟩⟩

/-- The entity that leaves has a part in the dependency. -/
theorem coefficient_ne_of_leaving (heps : s.parameters.epsDependent = 0) {flip : Bool}
    {leaver : Entity n m} {t : ℝ} (hleaving : s.leaving flip = some (t, leaver)) :
    s.dependency.get leaver ≠ 0 := by
  obtain ⟨-, -, hside⟩ := (leavingAmount_eq_some_iff heps).1 (leavingAmount_of_leaving hleaving)
  intro hzero
  rw [hzero, mul_zero] at hside
  rcases hside with ⟨-, hlt⟩ | ⟨-, hlt⟩
  · exact lt_irrefl 0 hlt
  · exact lt_irrefl 0 hlt

/-- While the multipliers move until the first is used up, none loses its sign. -/
theorem leaving_spec (h : s.Signed) (heps : s.parameters.epsDependent = 0) {flip : Bool}
    {leaver : Entity n m} {t : ℝ} (hleaving : s.leaving flip = some (t, leaver)) :
    0 ≤ t ∧ s.y.get leaver - sign flip * t * s.dependency.get leaver = 0 ∧
      (∀ a, s.activity a = .lower → s.limitType a ≠ .equality →
        0 ≤ s.y.get a - sign flip * t * s.dependency.get a) ∧
      ∀ a, s.activity a = .upper → s.limitType a ≠ .equality →
        s.y.get a - sign flip * t * s.dependency.get a ≤ 0 := by
  have hproduct : ∀ a, sign flip * t * s.dependency.get a = t * (sign flip * s.dependency.get a) :=
    fun a => by ring
  have hfirst : ∀ a, ∀ t', s.leavingAmount flip a = some t' → t ≤ t' :=
    fun a t' ha => leaving_le hleaving ha
  simp only [leavingAmount_eq_some_iff heps] at hfirst
  obtain ⟨htype, ht, hside⟩ :=
    (leavingAmount_eq_some_iff heps).1 (leavingAmount_of_leaving hleaving)
  have hnonneg : 0 ≤ t := by
    rw [ht]
    exact le_max_right _ _
  refine ⟨hnonneg, ?_, fun a hside htype => ?_, fun a hside htype => ?_⟩
  · -- the multiplier of the leaver is used up at `t`, which is its ratio
    rw [hproduct]
    rcases hside with ⟨hside, hpos⟩ | ⟨hside, hneg⟩
    · have hsign := h.nonneg leaver hside htype
      have hzero := ((ratio_spec t hsign (neg_neg_of_pos hpos)).2 (by rw [neg_neg, ← ht])).1
      linarith
    · have hsign := neg_nonneg.2 (h.nonpos leaver hside htype)
      have hzero := ((ratio_spec t hsign hneg).2 (by rw [neg_div_neg_eq, ← ht])).1
      linarith
  · -- no other multiplier is used up earlier
    rw [hproduct]
    have hsign := h.nonneg a hside htype
    by_cases hpos : 0 < sign flip * s.dependency.get a
    · have hle := (ratio_spec t hsign (neg_neg_of_pos hpos)).1
        (by rw [neg_neg]; exact hfirst a _ ⟨htype, rfl, .inl ⟨hside, hpos⟩⟩)
      linarith
    · have hle := mul_nonneg hnonneg (neg_nonneg.2 (not_lt.1 hpos))
      linarith
  · rw [hproduct]
    have hsign := neg_nonneg.2 (h.nonpos a hside htype)
    by_cases hneg : sign flip * s.dependency.get a < 0
    · have hle := (ratio_spec t hsign hneg).1
        (by rw [neg_div_neg_eq]; exact hfirst a _ ⟨htype, rfl, .inr ⟨hside, hneg⟩⟩)
      linarith
    · have hle := mul_nonneg hnonneg (not_lt.1 hneg)
      linarith

-- ---------------------------------------------------------------------------
-- Exchanges
-- ---------------------------------------------------------------------------

theorem Kept.trans {s'' : Constrained ℝ n m} (h : s.Kept s') (h' : s'.Kept s'') : s.Kept s'' :=
  ⟨h.toSameData.trans h'.toSameData, h'.x_eq.trans h.x_eq, h'.ax_eq.trans h.ax_eq,
    h'.current_eq.trans h.current_eq, fun a => (h'.type_eq a).trans (h.type_eq a),
    fun side a => (h'.side_eq side a).trans (h.side_eq side a)⟩

/-- The order of the factorization does not matter for the solution. -/
theorem Reordered.kept (h : s.Reordered s') : s.Kept s' ∧ s'.activity = s.activity ∧ s'.y = s.y ∧
    s'.dependency = s.dependency := by
  have hdata := h.sameData
  cases h with
  | refl => exact ⟨kept_of_sets hdata rfl rfl rfl rfl rfl, rfl, rfl, rfl⟩
  | swap hp hswap =>
    exact ⟨kept_of_sets hdata rfl rfl rfl rfl rfl, activity_congr rfl rfl, rfl, rfl⟩

theorem Dependent.kept (h : s.Dependent e w s') : s.Kept s' ∧ s'.activity = s.activity ∧
    s'.y = s.y := by
  have hdata := h.sameData
  cases h
  exact ⟨kept_of_sets hdata rfl rfl rfl rfl rfl, activity_congr rfl rfl, rfl⟩

/-- An entity has left its place to a dependent one. It has a part in the dependency, whose
coefficients are `d`. -/
structure Vacated (s : Constrained ℝ n m) (e leaver : Entity n m) (d : Dual ℝ n m)
    (s' : Constrained ℝ n m) : Prop extends s.Kept s' where
  activity_eq : ∀ a, s'.activity a = if a = leaver then .inactive else s.activity a
  y_eq : s'.y = s.y
  dependency_eq : s'.dependency = d
  row_eq_sum : ∀ j, j < n → s.row e j = ∑ a, d.get a * s.row a j
  coefficient_eq : ∀ a, s.isActive a = false → d.get a = 0
  coefficient_ne : d.get leaver ≠ 0
  type_ne : s.limitType leaver ≠ .equality

/-- What an exchange does before the dependent entity enters, with what it will make of the
multipliers. -/
structure Swap (s : Constrained ℝ n m) (e : Entity n m) (side : Activity) (t : ℝ)
    (leaver : Entity n m) (d : Dual ℝ n m) (s' : Constrained ℝ n m) : Prop
    extends s.Vacated e leaver d s' where
  nonneg : 0 ≤ t
  used_up : s.y.get leaver - sign (side = .upper) * t * d.get leaver = 0
  lower : ∀ a, s.activity a = .lower → s.limitType a ≠ .equality →
    0 ≤ s.y.get a - sign (side = .upper) * t * d.get a
  upper : ∀ a, s.activity a = .upper → s.limitType a ≠ .equality →
    s.y.get a - sign (side = .upper) * t * d.get a ≤ 0

/-- An entity that enters as no equality does so with the sign of its side. -/
theorem flip_of_firstLeaving {side : Activity} {flip : Bool} {t : ℝ} {leaver : Entity n m}
    (h : s.firstLeaving e side = some (flip, t, leaver)) (htype : s.limitType e ≠ .equality) :
    flip = decide (side = .upper) ∧ s.leaving flip = some (t, leaver) := by
  obtain ⟨hflip, hleaving⟩ := firstLeaving_eq_some h
  refine ⟨?_, hleaving⟩
  unfold directions at hflip
  rw [if_neg htype] at hflip
  split at hflip
  · next hside => simpa [hside] using hflip
  · next hside => simpa [hside] using hflip

/-- An exchange gives up an entity with a part in the dependency of the new one, and moves the
multipliers in the direction of its side. -/
theorem Swapped.vacated {side : Activity} {w' : PreparedRow ℝ} {flip : Bool} {t : ℝ}
    {leaver : Entity n m} (h : s.Swapped e side w flip t leaver w' s') (hs : s.InStep)
    (hf : s.nullSpace.Factors s.activeEntry) (heps : s.parameters.epsDependent = 0)
    (hw : s.Prepared w e) (hind : w.independent = false) (he : s.CanEnter side e) :
    flip = decide (side = .upper) ∧ ∃ s1, s.Dependent e w s1 ∧ s1.leaving flip = some (t, leaver) ∧
      s.Vacated e leaver s1.dependency s' := by
  obtain ⟨s1, s2, hdependent, hfirst, hleft, hs2, hreordered⟩ := h.chain
  obtain ⟨hactivity, htype, -⟩ := canEnter_spec hs he
  -- the row depends on the active ones, and it is not active itself
  obtain ⟨hrow, hinactive⟩ := hdependent.row_eq hs.toListed hf hw heps
    (by rw [isActive, hactivity]; rfl) hind
  obtain ⟨hkept1, hactivity1, hy1⟩ := hdependent.kept
  obtain ⟨hflip, hleaving⟩ := flip_of_firstLeaving hfirst (by rw [hkept1.type_eq]; exact htype)
  have hmoved2 := hleft.moved (hdependent.inStep hs).toInOrder
  obtain ⟨hkept3, hactivity3, hy3, hdependency3⟩ := hreordered.kept
  -- the swap is the chain of its three changes, each of which keeps the problem
  refine ⟨hflip, s1, hdependent, hleaving, (hkept1.trans hmoved2.toKept).trans hkept3,
    fun a => ?_, ?_, ?_, hrow, hinactive,
    coefficient_ne_of_leaving (by rw [hkept1.parameters]; exact heps) hleaving, ?_⟩
  · rw [hactivity3, hmoved2.activity_eq, hactivity1]
  · rw [hy3, hmoved2.y_eq, hy1]
  · rw [hdependency3, hmoved2.dependency_eq]
  · rw [← hkept1.type_eq]
    exact (amountToZero_eq_some_iff.1 (leavingAmount_of_leaving hleaving)).1

theorem Swapped.swap {side : Activity} {w' : PreparedRow ℝ} {flip : Bool} {t : ℝ}
    {leaver : Entity n m} (h : s.Swapped e side w flip t leaver w' s') (hs : s.InStep)
    (hf : s.nullSpace.Factors s.activeEntry) (heps : s.parameters.epsDependent = 0)
    (hsigned : s.Signed) (hw : s.Prepared w e) (hind : w.independent = false)
    (he : s.CanEnter side e) :
    flip = decide (side = .upper) ∧ ∃ d, s.Swap e side t leaver d s' := by
  obtain ⟨hflip, s1, hdependent, hleaving, hvacated⟩ := h.vacated hs hf heps hw hind he
  obtain ⟨hkept1, hactivity1, hy1⟩ := hdependent.kept
  have hsigned1 := hsigned.congr hactivity1 hkept1.type_eq hy1
  obtain ⟨hnonneg, hused, hlower, hupper⟩ :=
    leaving_spec hsigned1 (by rw [hkept1.parameters]; exact heps) hleaving
  rw [hy1] at hused hlower hupper
  rw [hactivity1] at hlower hupper
  simp only [hkept1.type_eq] at hlower hupper
  subst hflip
  exact ⟨rfl, s1.dependency, hvacated, hnonneg, hused, hlower, hupper⟩

/-- The multipliers after an exchange have moved along the coefficients of the dependency. -/
theorem Swap.exchanged_get {side : Activity} {t : ℝ} {leaver : Entity n m} {d : Dual ℝ n m}
    (h : s.Swap e side t leaver d s') (hsigned : s.Signed) (he : s.isActive e = false)
    (a : Entity n m) :
    (s'.exchangedMultipliers e leaver (sign (side = .upper) * t)).get a =
      s.y.get a - sign (side = .upper) * t * d.get a +
        if a = e then sign (side = .upper) * t else 0 := by
  unfold exchangedMultipliers
  rw [Dual.get_set, Dual.get_set, Dual.get_addScaled, h.y_eq, h.dependency_eq]
  by_cases hae : a = e
  · rw [if_pos hae, if_pos hae, hae, hsigned.inactive e he, h.coefficient_eq e he]
    ring
  · rw [if_neg hae, if_neg hae, add_zero]
    split
    · next hleaver =>
      rw [hleaver]
      exact h.used_up.symm
    · ring

theorem Kept.withMultipliers (h : s.Kept s') (y : Dual ℝ n m) : s.Kept { s' with y } :=
  h.trans (kept_of_sets ⟨rfl, rfl, rfl, rfl, rfl⟩ rfl rfl rfl rfl rfl)

theorem Swapped.canEnter {side : Activity} {w' : PreparedRow ℝ} {flip : Bool} {t : ℝ}
    {leaver : Entity n m} (h : s.Swapped e side w flip t leaver w' s') (hs : s.InStep)
    (he : s.CanEnter side e) : s'.CanEnter side e := by
  obtain ⟨s1, s2, hdependent, -, hleft, -, hreordered⟩ := h.chain
  have he1 : s1.CanEnter side e := by
    cases hdependent
    exact he.congr rfl rfl
  exact hreordered.canEnter (hleft.canEnter (hdependent.inStep hs).toInOrder he1)

/-- What the other multipliers lose along the coefficients is what that of the new entity gains. -/
theorem Swap.balanced {side : Activity} {t : ℝ} {leaver : Entity n m} {d : Dual ℝ n m}
    {s1 : Constrained ℝ n m} (h : s.Swap e side t leaver d s1) {y : Dual ℝ n m}
    (hy : ∀ a, y.get a = s.y.get a - sign (side = .upper) * t * d.get a +
      if a = e then sign (side = .upper) * t else 0) {j : ℕ} (hj : j < n) :
    ∑ a, y.get a * s.row a j = ∑ a, s.y.get a * s.row a j := by
  have hlost : ∑ a, sign (side = .upper) * t * d.get a * s.row a j =
      sign (side = .upper) * t * s.row e j := by
    rw [h.row_eq_sum j hj, mul_sum]
    exact Finset.sum_congr rfl fun a _ => mul_assoc _ _ _
  have hgained : ∑ a, (if a = e then sign (side = .upper) * t else 0) * s.row a j =
      sign (side = .upper) * t * s.row e j := by
    rw [sum_eq_single e]
    · rw [if_pos rfl]
    · intro a _ hne
      rw [if_neg hne, zero_mul]
    · exact fun hnot => absurd (mem_univ e) hnot
  simp only [hy, add_mul, sub_mul, sum_add_distrib, sum_sub_distrib]
  rw [hlost, hgained, sub_add_cancel]

/-- The multiplier of the new entity has the sign of its side. -/
theorem Swap.entering_sign {side : Activity} {t : ℝ} {leaver : Entity n m} {d : Dual ℝ n m}
    {s1 : Constrained ℝ n m} (h : s.Swap e side t leaver d s1) :
    (side = .lower → 0 ≤ sign (side = .upper) * t) ∧
      (side = .upper → sign (side = .upper) * t ≤ 0) := by
  have ht := h.nonneg
  constructor
  · rintro rfl
    rw [show sign (Activity.lower = .upper) = 1 from if_neg nofun, one_mul]
    exact ht
  · rintro rfl
    rw [show sign (Activity.upper = .upper) = -1 from if_pos rfl, neg_one_mul]
    exact neg_nonpos.2 ht

/-- With the new entity in the place of the one that leaves, the moved multipliers fit the working set. -/
theorem Swap.signed {side : Activity} {t : ℝ} {leaver : Entity n m} {d : Dual ℝ n m}
    {s1 : Constrained ℝ n m} (h : s.Swap e side t leaver d s1) (hsigned : s.Signed)
    (hactivity : s.activity e = .inactive) (hside : side = .lower ∨ side = .upper)
    (htypes : ∀ a, s'.limitType a = s.limitType a)
    (hactivity' : ∀ a, s'.activity a =
      if a = e then side else if a = leaver then .inactive else s.activity a)
    (hy : ∀ a, s'.y.get a = s.y.get a - sign (side = .upper) * t * d.get a +
      if a = e then sign (side = .upper) * t else 0) : s'.Signed := by
  have houtside : s.isActive e = false := by
    rw [isActive, hactivity]
    rfl
  -- the new entity has the amount as its multiplier, and the others change along the coefficients
  have hentering : s'.y.get e = sign (side = .upper) * t := by
    rw [hy, if_pos rfl, hsigned.inactive e houtside, h.coefficient_eq e houtside, mul_zero, sub_zero,
      zero_add]
  have hother : ∀ a, a ≠ e → s'.y.get a = s.y.get a - sign (side = .upper) * t * d.get a := by
    intro a hne
    rw [hy, if_neg hne, add_zero]
  refine ⟨fun a ha => ?_, fun a ha htype => ?_, fun a ha htype => ?_⟩
  · -- an entity outside has just left, or it has been outside before
    rw [isActive, hactivity'] at ha
    by_cases heq : a = e
    · rw [if_pos heq] at ha
      rcases hside with rfl | rfl <;> cases ha
    · rw [if_neg heq] at ha
      rw [hother a heq]
      by_cases hleaver : a = leaver
      · rw [hleaver]
        exact h.used_up
      · rw [if_neg hleaver] at ha
        rw [hsigned.inactive a ha, h.coefficient_eq a ha, mul_zero, sub_zero]
  · -- an entity on its lower limit has just entered, or it has been there before
    rw [hactivity'] at ha
    rw [htypes] at htype
    by_cases heq : a = e
    · rw [if_pos heq] at ha
      rw [heq, hentering]
      exact h.entering_sign.1 ha
    · rw [if_neg heq] at ha
      rw [hother a heq]
      by_cases hleaver : a = leaver
      · rw [if_pos hleaver] at ha
        cases ha
      · rw [if_neg hleaver] at ha
        exact h.lower a ha htype
  · -- an entity on its upper limit has just entered, or it has been there before
    rw [hactivity'] at ha
    rw [htypes] at htype
    by_cases heq : a = e
    · rw [if_pos heq] at ha
      rw [heq, hentering]
      exact h.entering_sign.2 ha
    · rw [if_neg heq] at ha
      rw [hother a heq]
      by_cases hleaver : a = leaver
      · rw [if_pos hleaver] at ha
        cases ha
      · rw [if_neg hleaver] at ha
        exact h.upper a ha htype

/-- A dependent entity has taken the place of another one, and the multipliers have moved along the
coefficients of the dependency. -/
structure Traded (s : Constrained ℝ n m) (e : Entity n m) (side : Activity) (leaver : Entity n m)
    (s' : Constrained ℝ n m) : Prop extends s.Kept s' where
  leaver_active : s.isActive leaver = true
  leaver_type : s.limitType leaver ≠ .equality
  activity_eq : ∀ a, s'.activity a =
    if a = e then side else if a = leaver then .inactive else s.activity a
  balanced : ∀ j, j < n → ∑ a, s'.y.get a * s.row a j = ∑ a, s.y.get a * s.row a j
  signed : s'.Signed

/-- An exchange trades the entity for another one, and keeps the signs of the multipliers. -/
theorem Exchanged.traded {side : Activity} (h : s.Exchanged e side w s') (hs : s.InStep)
    (hf : s.nullSpace.Factors s.activeEntry) (heps : s.parameters.epsDependent = 0)
    (hsigned : s.Signed) (hw : s.Prepared w e) (hind : w.independent = false)
    (he : s.CanEnter side e) : ∃ leaver, s.Traded e side leaver s' := by
  cases h with
  | @intro flip t leaver w' s1 s2 hswapped hind' hentered =>
    obtain ⟨hflip, d, hswap⟩ := hswapped.swap hs hf heps hsigned hw hind he
    obtain ⟨hactivity, -, hside⟩ := canEnter_spec hs he
    have houtside : s.isActive e = false := by
      rw [isActive, hactivity]
      rfl
    -- the new entity enters the working set that the leaver is no longer in
    have hmoved := hentered.moved hswapped.inStep (hswapped.canEnter hs he)
    have hkept := (hswap.toKept.trans hmoved.toKept).withMultipliers
      (s2.exchangedMultipliers e leaver (if flip then -t else t))
    have hactivity' : ∀ a, Constrained.activity { s2 with
        y := s2.exchangedMultipliers e leaver (if flip then -t else t) } a =
          if a = e then side else if a = leaver then .inactive else s.activity a := by
      intro a
      have hsame : Constrained.activity { s2 with
          y := s2.exchangedMultipliers e leaver (if flip then -t else t) } = s2.activity :=
        activity_congr rfl rfl
      rw [hsame, hmoved.activity_eq, hswap.activity_eq]
    -- the change of the multipliers is written back when it has entered
    have hy : ∀ a, (s2.exchangedMultipliers e leaver (if flip then -t else t)).get a =
        s.y.get a - sign (side = .upper) * t * d.get a +
          if a = e then sign (side = .upper) * t else 0 := by
      intro a
      rw [sign_mul, hflip, ← hswap.exchanged_get hsigned houtside]
      unfold exchangedMultipliers
      rw [hmoved.y_eq, hmoved.dependency_eq]
    refine ⟨leaver, hkept, ?_, hswap.type_ne, hactivity', fun j hj => hswap.balanced hy hj,
      hswap.signed hsigned hactivity hside hkept.type_eq hactivity' hy⟩
    -- the leaver has a coefficient, so it was in the working set
    by_contra hout
    exact hswap.coefficient_ne (hswap.coefficient_eq _ (Bool.eq_false_of_not_eq_true hout))

/-- After an exchange the point is still a solution, if the new entity lies on its limit. -/
theorem Traded.optimal {side : Activity} {leaver : Entity n m} (h : s.Traded e side leaver s')
    (hopt : s.Optimal) (hside : side = .lower ∨ side = .upper)
    (honLimit : s.valueOf s.x e = s.current.limitOf side e) : s'.Optimal := by
  refine h.toKept.optimal hopt (fun a => ?_) h.balanced (fun a ha => ?_) h.signed
  · -- the new entity is on its limit, the leaver is outside, and all others have stayed
    rw [h.activity_eq]
    split
    · rcases hside with rfl | rfl <;> decide
    · split
      · decide
      · exact hopt.defined a
  · rw [isActive, h.activity_eq] at ha
    rw [h.activity_eq]
    split
    · next heq =>
      rw [heq]
      exact honLimit
    · next hne =>
      rw [if_neg hne] at ha
      split
      · next heq =>
        rw [if_pos heq] at ha
        cases ha
      · next hne' =>
        rw [if_neg hne'] at ha
        exact hopt.on_limit a ha

-- ---------------------------------------------------------------------------
-- All changes
-- ---------------------------------------------------------------------------

/-- With the entity that leaves goes the dependency: the remaining rows would have to combine to that
of the new entity with the same coefficients. -/
theorem Swapped.independent {side : Activity} {w' : PreparedRow ℝ} {flip : Bool} {t : ℝ}
    {leaver : Entity n m} (h : s.Swapped e side w flip t leaver w' s') (hs : s.Moving)
    (hzero : s.parameters.epsZero = 0) (heps : s.parameters.epsDependent = 0)
    (hw : s.Prepared w e) (hind : w.independent = false) (he : s.CanEnter side e) :
    w'.independent = true := by
  by_contra hind'
  have hmoving := h.moving hs
  obtain ⟨-, s1, -, -, hvacated⟩ := h.vacated hs.inStep hs.factored.split heps hw hind he
  obtain ⟨hactivity, -, -⟩ := canEnter_spec hs.inStep he
  -- were the entity still dependent, its coefficients could be computed again
  have hdependent : ∃ s'', s'.Dependent e w' s'' := by
    have heps' : s'.parameters.epsZero = 0 := by rw [hvacated.parameters, hzero]
    obtain ⟨xi, hxi⟩ := hmoving.factored.split.solveTT?_ok hmoving.inStep.nActive_eq.symm
      (Tuple.ofFn s'.active.length fun c => w'.row (s'.nNull + c)) (Tuple.fill _ 0)
    exact ⟨_, .intro (by rw [heps']; exact hxi)⟩
  obtain ⟨s'', hdependent⟩ := hdependent
  have hinside : ∀ a, s'.isActive a = if a = leaver then false else s.isActive a := by
    intro a
    rw [isActive, hvacated.activity_eq]
    split <;> rfl
  obtain ⟨hrow, hinactive⟩ := hdependent.row_eq hmoving.inStep.toListed hmoving.factored.split
    h.prepared (by rw [hvacated.parameters]; exact heps) (by
      rw [hinside, isActive, hactivity]
      split <;> rfl) (by simpa using hind')
  rw [hvacated.row_eq] at hrow
  have hsame := combination_unique hs.inStep.toListed hs.factored.split
    (c := fun a => s1.dependency.get a - s''.dependency.get a) (fun a ha => by
      rw [hvacated.coefficient_eq a ha, hinactive a (by
        rw [hinside, ha]
        split <;> rfl), sub_zero]) fun j hj => by
      simp only [sub_mul, sum_sub_distrib]
      rw [← hvacated.row_eq_sum j hj, ← hrow j hj, sub_self]
  refine hvacated.coefficient_ne ?_
  rw [sub_eq_zero.1 (hsame leaver), hinactive leaver (by rw [hinside, if_pos rfl])]

/-- A solution on the way to the loaded problem, where every comparison is exact. If `strict` holds, the
loaded limits are of the types that the entities have, and those of an equality are equal. -/
structure Underway (s : Constrained ℝ n m) (strict : Prop) : Prop extends s.Moving where
  optimal : s.Optimal
  ordered : ∀ e, s.target.lowerOf e ≤ s.target.upperOf e
  equal : strict → ∀ e, s.limitType e = .equality → s.target.lowerOf e = s.target.upperOf e
  typed : strict → s.Typed
  epsZero_eq : s.parameters.epsZero = 0
  epsDependent_eq : s.parameters.epsDependent = 0

/-- At a point on the loaded limits of the working set the gradient of the loaded objective is balanced
by multipliers of which that of an entity has the wrong sign: the direction of the last step leads to
both. -/
def Yields (s : Constrained ℝ n m) (e : Entity n m) : Prop :=
  ∃ (z : ℕ → ℝ) (v : Entity n m → ℝ),
    (∀ a, s.isActive a = true → s.valueOf z a = s.target.limitOf (s.activity a) a) ∧
    (∀ j, j < n → ∑ k ∈ range n, s.hessian j k * z k + s.target.gradient j =
      ∑ a, v a * s.row a j) ∧
    (∀ a, s.isActive a = false → v a = 0) ∧
    (s.activity e = .lower ∧ v e < 0 ∨ s.activity e = .upper ∧ 0 < v e)

/-- What has been reached at the end of a step. An entity that enters has reached its limit, and one
that leaves has a multiplier of zero. -/
def Reached (s : Constrained ℝ n m) : StepEvent n m → Prop
  | .full => s.current = s.target
  | .add e side => s.valueOf s.x e = s.current.limitOf side e ∧ s.Passes e side
  | .remove e => s.y.get e = 0 ∧ s.Yields e

variable {strict : Prop}

theorem Kept.underway (h : s.Kept s') (hs : s.Underway strict) (hmoving : s'.Moving)
    (hopt : s'.Optimal) : s'.Underway strict := by
  refine ⟨hmoving, hopt, fun a => ?_, fun hstrict a htype => ?_, fun hstrict a => ?_, ?_, ?_⟩
  · rw [h.target]
    exact hs.ordered a
  · rw [h.type_eq] at htype
    rw [h.target]
    exact hs.equal hstrict a htype
  · rw [h.type_eq, h.side_eq, h.side_eq, h.target, h.parameters]
    exact hs.typed hstrict a
  · rw [h.parameters]
    exact hs.epsZero_eq
  · rw [h.parameters]
    exact hs.epsDependent_eq

theorem Reordered.underway (h : s.Reordered s') (hs : s.Underway strict) : s'.Underway strict := by
  refine h.kept.1.underway hs (h.moving hs.toMoving) ?_
  cases h with
  | refl => exact hs.optimal
  | swap hp hswap => exact hs.optimal.congr rfl rfl rfl rfl rfl rfl rfl rfl

/-- What has been reached does not depend on the order of the factorization. -/
theorem Reordered.reached {event : StepEvent n m} (h : s.Reordered s') (hreached : s.Reached event) :
    s'.Reached event := by
  -- only the order of the lists has changed
  obtain ⟨hkept, hactivity, hy, -⟩ := h.kept
  cases event with
  | full =>
    show s'.current = s'.target
    rw [hkept.current_eq, hkept.target]
    exact hreached
  | add e side =>
    obtain ⟨honLimit, z, hz, hpasses⟩ := hreached
    refine ⟨?_, z, fun a ha => ?_, ?_⟩
    · rw [hkept.valueOf_eq, hkept.x_eq, hkept.current_eq]
      exact honLimit
    · rw [isActive, hactivity] at ha
      rw [hkept.valueOf_eq, hkept.target, hactivity]
      exact hz a ha
    · rw [hkept.valueOf_eq, hkept.target]
      exact hpasses
  | remove e =>
    obtain ⟨hzero, z, v, hz, hv, hinactive, hsign⟩ := hreached
    refine ⟨by rw [hy]; exact hzero, z, v, fun a ha => ?_, fun j hj => ?_, fun a ha => ?_, ?_⟩
    · rw [isActive, hactivity] at ha
      rw [hkept.valueOf_eq, hkept.target, hactivity]
      exact hz a ha
    · rw [hkept.hessian, hkept.target, hkept.row_eq]
      exact hv j hj
    · rw [isActive, hactivity] at ha
      exact hinactive a ha
    · rw [hactivity]
      exact hsign

/-- The working set has followed an event, and the point is still a solution on the way. -/
theorem Changed.underway {event : StepEvent n m} (h : s.Changed event s')
    (hs : s.Underway strict) (hs' : s'.InStep) (hfits : s.Fits event) (hreached : s.Reached event) :
    s.SameData s' ∧ s'.Underway strict := by
  have hmoving := h.moving hs.toMoving hs'
  cases h with
  | added hreordered hw hind hentered =>
    have hs1 := hreordered.underway hs
    have he1 := hreordered.canEnter hfits
    have hmoved := hentered.moved hs1.inStep he1
    -- the new entity is on its limit, without a multiplier yet
    obtain ⟨honLimit, -⟩ := hreordered.reached hreached
    obtain ⟨hactivity, -, hside⟩ := canEnter_spec hs1.inStep he1
    have hoptimal := hmoved.optimal hs1.optimal
      (hs1.optimal.inactive _ (by rw [isActive, hactivity]; rfl))
      (by rcases hside with rfl | rfl <;> decide) fun _ => honLimit
    exact ⟨hreordered.sameData.trans hentered.sameData,
      hmoved.toKept.underway hs1 hmoving hoptimal⟩
  | exchanged hreordered hw hind hexchanged =>
    have hs1 := hreordered.underway hs
    obtain ⟨honLimit, -⟩ := hreordered.reached hreached
    have he1 := hreordered.canEnter hfits
    -- the leaver's multiplier is used up by the exchange
    obtain ⟨leaver, htraded⟩ := hexchanged.traded hs1.inStep hs1.factored.split
      hs1.epsDependent_eq hs1.optimal.signed hw hind he1
    have hoptimal := htraded.optimal hs1.optimal (canEnter_spec hs1.inStep he1).2.2 honLimit
    exact ⟨hreordered.sameData.trans htraded.toSameData,
      htraded.toKept.underway hs1 hmoving hoptimal⟩
  | removed hleft =>
    have hmoved := hleft.moved hs.inStep.toInOrder
    -- the multiplier of the entity that leaves has come to zero
    have hoptimal := hmoved.optimal hs.optimal hreached.1 (by decide) fun h => by cases h
    exact ⟨hleft.sameData, hmoved.toKept.underway hs hmoving hoptimal⟩

theorem Dependent.underway (h : s.Dependent e w s') (hs : s.Underway strict) : s'.Underway strict := by
  refine h.kept.1.underway hs (h.moving hs.toMoving) ?_
  cases h
  exact hs.optimal.congr rfl rfl rfl rfl rfl rfl rfl rfl

end ActiveSet.Constrained
