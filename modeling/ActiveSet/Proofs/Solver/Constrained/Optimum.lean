import ActiveSet.Proofs.Solver.Constrained.Singular
import ActiveSet.Proofs.Solver.Constrained.StartingSet
import ActiveSet.Proofs.Solver.Standstill

/-!
# The optimum as a guess

A guess that solves the loaded problem leaves a homotopy with nothing to do. The entities on a limit are the
working set for which it asks, none of them depends on the others, and the auxiliary problem that is made
up around the guess has the gradient of the loaded problem. Its limits are other ones, but those of the
working set are the same, and the others cannot be in the way of a point that is feasible.

* `Optimum`: the optimality conditions of the loaded problem, for any point and any multipliers.
* `OptimalGuess`: an optimum that is a good guess, since it says without doubt what the working set is.
* `OptimalGuess.suits`, `OptimalGuess.prepare_ok`: the working set, and the set-up.
* `StartsAt.arrives`: the step from the auxiliary problem to the loaded one.
-/

namespace ActiveSet.Constrained

open Finset

variable {n m : ℕ} {s s' s1 s2 : Constrained ℝ n m} {x : Tuple ℝ n} {y : Dual ℝ n m} {e : Entity n m}

-- ---------------------------------------------------------------------------
-- Optimality conditions
-- ---------------------------------------------------------------------------

/-- The value of an entity is its loaded lower limit, and that is not infinite. -/
@[mk_iff]
structure OnLower (s : Constrained ℝ n m) (x : Tuple ℝ n) (e : Entity n m) : Prop where
  finite : -s.parameters.infinity < s.target.lowerOf e
  value_eq : s.valueOf x e = s.target.lowerOf e

/-- The value of an entity is its loaded upper limit, and that is not infinite. -/
@[mk_iff]
structure OnUpper (s : Constrained ℝ n m) (x : Tuple ℝ n) (e : Entity n m) : Prop where
  finite : s.target.upperOf e < s.parameters.infinity
  value_eq : s.valueOf x e = s.target.upperOf e

/-- An entity is on a limit. -/
def OnLimit (s : Constrained ℝ n m) (x : Tuple ℝ n) (e : Entity n m) : Prop :=
  s.OnLower x e ∨ s.OnUpper x e

/-- Point and multipliers satisfy the optimality conditions of the loaded problem. There is no lower limit
at minus infinity or below, and no upper limit at infinity or above. -/
structure Optimum (s : Constrained ℝ n m) (x : Tuple ℝ n) (y : Dual ℝ n m) : Prop where
  stationary : ∀ j, j < n → ∑ k ∈ range n, s.hessian j k * x k + s.target.gradient j =
    ∑ e, y.get e * s.row e j
  lower_le : ∀ e, -s.parameters.infinity < s.target.lowerOf e → s.target.lowerOf e ≤ s.valueOf x e
  le_upper : ∀ e, s.target.upperOf e < s.parameters.infinity → s.valueOf x e ≤ s.target.upperOf e
  onLower : ∀ e, 0 < y.get e → s.OnLower x e
  onUpper : ∀ e, y.get e < 0 → s.OnUpper x e

/-- The rows of the entities on a limit are independent, and the matrix of the objective is positive
definite on the vectors to which they are orthogonal. -/
structure Regular (s : Constrained ℝ n m) (x : Tuple ℝ n) : Prop where
  independent : s.Independent (s.OnLimit x)
  definite : ∀ v : Tuple ℝ n, (∃ j, j < n ∧ v j ≠ 0) → (∀ e, s.OnLimit x e → s.valueOf v e = 0) →
    0 < form n s.hessian v

/-- In exact arithmetic, a regular optimum of which it is clear what its working set is: no entity is near
a limit without being on it. -/
structure OptimalGuess (s : Constrained ℝ n m) (x : Tuple ℝ n) (y : Dual ℝ n m) : Prop where
  exact : s.Exact
  epsDefinite_eq : s.parameters.epsDefinite = 0
  epsBound_pos : 0 < s.parameters.epsBound
  not_semidefinite : s.hessianType ≠ .semidefinite
  declared : s.Declared
  optimum : s.Optimum x y
  regular : s.Regular x
  lower_of_near : ∀ e, -s.parameters.infinity < s.target.lowerOf e →
    |s.valueOf x e - s.target.lowerOf e| ≤ s.parameters.epsBound → s.valueOf x e = s.target.lowerOf e
  upper_of_near : ∀ e, s.target.upperOf e < s.parameters.infinity →
    |s.valueOf x e - s.target.upperOf e| ≤ s.parameters.epsBound → s.valueOf x e = s.target.upperOf e
  equalLimits : s.EqualLimits

/-- No loaded limits cross, and those of an equality are attained, whether they are infinite or not. -/
structure Attained (s : Constrained ℝ n m) (x : Tuple ℝ n) : Prop where
  ordered : ∀ e, s.target.lowerOf e ≤ s.target.upperOf e
  equality : ∀ e, s.loadedType e = .equality → s.valueOf x e = s.target.lowerOf e

-- ---------------------------------------------------------------------------
-- The side that is asked for
-- ---------------------------------------------------------------------------

/-- The types that loaded limits can have. -/
theorem loadedType_cases (s : Constrained ℝ n m) (e : Entity n m) :
    (s.loadedType e = .unbounded ∧ s.target.lowerOf e ≤ -s.parameters.infinity ∧
        s.parameters.infinity ≤ s.target.upperOf e) ∨
      (s.loadedType e = .equality ∧ (-s.parameters.infinity < s.target.lowerOf e ∨
        s.target.upperOf e < s.parameters.infinity)) ∨
      (s.loadedType e = .bounded ∧
        s.parameters.epsBound ≤ s.target.upperOf e - s.target.lowerOf e) := by
  unfold loadedType EntitySet.typeOfLimits
  split
  · next hnone => exact .inl ⟨rfl, hnone⟩
  · next hsome =>
    split
    · refine .inr (.inl ⟨rfl, ?_⟩)
      by_contra hnot
      push Not at hnot
      exact hsome hnot
    · next hgap => exact .inr (.inr ⟨rfl, not_lt.1 hgap⟩)

section

variable {p : Parameters ℝ} {lower upper v w : ℝ}

/-- A value close to a finite lower limit asks for it. -/
theorem guessedActivity_lower (hfinite : -p.infinity < lower) (hnear : |v - lower| ≤ p.epsBound) :
    guessedActivity p .bounded lower upper (some v) (some w) = .lower := by
  unfold guessedActivity
  dsimp only [Option.bind_some]
  rw [if_pos ⟨decide_eq_true hfinite, hnear⟩]
  rfl

/-- A value close to a finite upper limit asks for it, if it is not close to the lower one. -/
theorem guessedActivity_upper (hfar : ¬(-p.infinity < lower ∧ |v - lower| ≤ p.epsBound))
    (hfinite : upper < p.infinity) (hnear : |upper - v| ≤ p.epsBound) :
    guessedActivity p .bounded lower upper (some v) (some w) = .upper := by
  unfold guessedActivity
  dsimp only [Option.bind_some]
  rw [if_neg fun h => hfar ⟨of_decide_eq_true h.1, h.2⟩, if_pos ⟨decide_eq_true hfinite, hnear⟩]
  rfl

/-- Neither a value between the limits nor a multiplier of zero asks for one of them. -/
theorem guessedActivity_inactive (hlower : ¬(-p.infinity < lower ∧ |v - lower| ≤ p.epsBound))
    (hupper : ¬(upper < p.infinity ∧ |upper - v| ≤ p.epsBound)) (hpos : w ≤ p.epsZero)
    (hneg : -p.epsZero ≤ w) :
    guessedActivity p .bounded lower upper (some v) (some w) = .inactive := by
  unfold guessedActivity
  dsimp only [Option.bind_some]
  rw [if_neg fun h => hlower ⟨of_decide_eq_true h.1, h.2⟩,
    if_neg fun h => hupper ⟨of_decide_eq_true h.1, h.2⟩, if_neg fun h => absurd h.2 (not_lt.2 hpos),
    if_neg fun h => absurd h.2 (not_lt.2 hneg)]
  rfl

end

/-- A side fits an optimum: it is one of the working set where there is a limit, the limit is there, and
the multiplier has its sign. -/
structure Suits (s : Constrained ℝ n m) (x : Tuple ℝ n) (y : Dual ℝ n m) (e : Entity n m)
    (side : Activity) : Prop where
  isActive_iff : side.isActive = true ↔ s.OnLimit x e
  limit_eq : side.isActive = true → s.target.limitOf side e = s.valueOf x e
  admissible_eq : admissible (s.loadedType e) side (y.get e) (some (y.get e)) = y.get e

/-- A multiplier is zero where there is no limit. -/
theorem Optimum.multiplier_eq_zero (h : s.Optimum x y) (he : ¬s.OnLimit x e) : y.get e = 0 := by
  refine le_antisymm (not_lt.1 fun hpos => ?_) (not_lt.1 fun hneg => ?_)
  · exact he (.inl (h.onLower e hpos))
  · exact he (.inr (h.onUpper e hneg))

namespace OptimalGuess

/-- An entity with a gap between its limits is on one of them at most. -/
theorem not_onUpper (h : s.OptimalGuess x y)
    (hgap : s.parameters.epsBound ≤ s.target.upperOf e - s.target.lowerOf e) (he : s.OnLower x e) :
    ¬s.OnUpper x e := by
  intro hupper
  have hpos := h.epsBound_pos
  have hvalue := he.value_eq.symm.trans hupper.value_eq
  linarith

/-- An equality starts at its lower limit. -/
theorem suits_of_equality (hat : s.Attained x) (hequal : s.EqualLimits)
    (htype : s.loadedType e = .equality)
    (hfinite : -s.parameters.infinity < s.target.lowerOf e ∨ s.target.upperOf e < s.parameters.infinity) :
    s.Suits x y e (s.guessedSide ⟨some x, some y⟩ e) := by
  have hlower := hat.equality e htype
  have hupper := hlower.trans (hequal e htype)
  have hside : s.guessedSide ⟨some x, some y⟩ e = .lower := by
    rw [guessedSide, htype]
    rfl
  rw [hside]
  refine ⟨iff_of_true rfl ?_, fun _ => hlower.symm, ?_⟩
  · exact hfinite.imp (fun hfinite => ⟨hfinite, hlower⟩) fun hfinite => ⟨hfinite, hupper⟩
  · rw [htype]
    rfl

/-- An inequality starts at the limit on which it is, if there is one. -/
theorem suits_of_bounded (h : s.OptimalGuess x y) (htype : s.loadedType e = .bounded)
    (hgap : s.parameters.epsBound ≤ s.target.upperOf e - s.target.lowerOf e) :
    s.Suits x y e (s.guessedSide ⟨some x, some y⟩ e) := by
  have hside : s.guessedSide ⟨some x, some y⟩ e = guessedActivity s.parameters .bounded
      (s.target.lowerOf e) (s.target.upperOf e) (some (s.valueOf x e)) (some (y.get e)) := by
    rw [guessedSide, htype]
    rfl
  rw [hside]
  -- on its lower limit, an entity cannot have a negative multiplier, as the upper one is too far
  by_cases hlower : s.OnLower x e
  · have hnear : |s.valueOf x e - s.target.lowerOf e| ≤ s.parameters.epsBound := by
      rw [hlower.value_eq, sub_self, abs_zero]
      exact h.epsBound_pos.le
    have hsign : 0 ≤ y.get e :=
      not_lt.1 fun hneg => h.not_onUpper hgap hlower (h.optimum.onUpper e hneg)
    rw [guessedActivity_lower hlower.finite hnear]
    refine ⟨iff_of_true rfl (.inl hlower), fun _ => hlower.value_eq.symm, ?_⟩
    rw [htype]
    exact max_eq_left hsign
  have hfar : ¬(-s.parameters.infinity < s.target.lowerOf e ∧
      |s.valueOf x e - s.target.lowerOf e| ≤ s.parameters.epsBound) :=
    fun hnear => hlower ⟨hnear.1, h.lower_of_near e hnear.1 hnear.2⟩
  -- on its upper limit, its multiplier is negative or zero
  by_cases hupper : s.OnUpper x e
  · have hnear : |s.target.upperOf e - s.valueOf x e| ≤ s.parameters.epsBound := by
      rw [hupper.value_eq, sub_self, abs_zero]
      exact h.epsBound_pos.le
    have hsign : y.get e ≤ 0 := not_lt.1 fun hpos => hlower (h.optimum.onLower e hpos)
    rw [guessedActivity_upper hfar hupper.finite hnear]
    refine ⟨iff_of_true rfl (.inr hupper), fun _ => hupper.value_eq.symm, ?_⟩
    rw [htype]
    exact min_eq_left hsign
  · -- on neither, it has no multiplier, so the guess leaves it outside
    have hnone : ¬s.OnLimit x e := not_or.2 ⟨hlower, hupper⟩
    have hfar' : ¬(s.target.upperOf e < s.parameters.infinity ∧
        |s.target.upperOf e - s.valueOf x e| ≤ s.parameters.epsBound) :=
      fun hnear => hupper ⟨hnear.1, h.upper_of_near e hnear.1 (by
        rw [abs_sub_comm]
        exact hnear.2)⟩
    rw [h.optimum.multiplier_eq_zero hnone, guessedActivity_inactive hfar hfar'
      h.exact.epsZero_eq.ge (by rw [h.exact.epsZero_eq, neg_zero])]
    refine ⟨iff_of_false Bool.false_ne_true hnone, fun hactive => (by cases hactive), ?_⟩
    rw [htype, h.optimum.multiplier_eq_zero hnone]
    rfl

/-- Every entity is to start where it is at the optimum. -/
theorem suits (h : s.OptimalGuess x y) (hat : s.Attained x) (e : Entity n m) :
    s.Suits x y e (s.wantedSide ⟨some x, some y⟩ e) := by
  have hwanted : s.wantedSide ⟨some x, some y⟩ e = s.guessedSide ⟨some x, some y⟩ e := by
    cases e with
    | bound i => exact if_neg fun hsemi => h.not_semidefinite hsemi.1
    | constraint i => rfl
  rw [hwanted]
  -- unbounded entities stay out, equalities come in, and the others go by where the point is
  obtain ⟨htype, hnone⟩ | ⟨htype, hfinite⟩ | ⟨htype, hgap⟩ := s.loadedType_cases e
  · have hout : ¬s.OnLimit x e := by
      rintro (hlower | hupper)
      · exact absurd hlower.finite (not_lt.2 hnone.1)
      · exact absurd hupper.finite (not_lt.2 hnone.2)
    have hside : s.guessedSide ⟨some x, some y⟩ e = .inactive := by
      rw [guessedSide, htype]
      rfl
    rw [hside]
    exact ⟨iff_of_false Bool.false_ne_true hout, fun hactive => (by cases hactive),
      by rw [htype, h.optimum.multiplier_eq_zero hout]; rfl⟩
  · exact suits_of_equality hat h.equalLimits htype hfinite
  · exact h.suits_of_bounded htype hgap

theorem wanted_iff (h : s.OptimalGuess x y) (hat : s.Attained x) :
    s.Wanted ⟨some x, some y⟩ e ↔ s.OnLimit x e :=
  (h.suits hat e).isActive_iff

end OptimalGuess

-- ---------------------------------------------------------------------------
-- The set-up
-- ---------------------------------------------------------------------------

theorem Optimum.congr (h : s.Optimum x y) (hdata : s.SameData s') : s'.Optimum x y := by
  refine ⟨?_, ?_, ?_, ?_, ?_⟩
  · rw [hdata.hessian, hdata.target, hdata.row_eq]
    exact h.stationary
  · simp only [hdata.parameters, hdata.target, hdata.valueOf_eq]
    exact h.lower_le
  · simp only [hdata.parameters, hdata.target, hdata.valueOf_eq]
    exact h.le_upper
  · simp only [onLower_iff, hdata.parameters, hdata.target, hdata.valueOf_eq]
    exact fun e he => (onLower_iff _ _ _).1 (h.onLower e he)
  · simp only [onUpper_iff, hdata.parameters, hdata.target, hdata.valueOf_eq]
    exact fun e he => (onUpper_iff _ _ _).1 (h.onUpper e he)

namespace OptimalGuess

/-- All entities on a limit enter the working set. -/
theorem startingSet_iff (h : s.OptimalGuess x y) (hat : s.Attained x) :
    s.startingSet ⟨some x, some y⟩ m e ↔ s.OnLimit x e := by
  rw [← h.wanted_iff hat]
  refine ⟨wanted_of_startingSet, fun hwanted => ?_⟩
  by_contra hout
  obtain ⟨i, rfl, hdepends⟩ := exists_dependsOn hwanted hout
  refine h.regular.independent.not_dependsOn (fun a ha => ?_) ((h.wanted_iff hat).1 hwanted)
    (fun hin => ?_) hdepends
  · exact (h.wanted_iff hat).1 (wanted_of_startingSet ha)
  · exact absurd ((startingSet_constraint i).1 hin).1 (lt_irrefl _)

/-- So nothing obstructs the set-up. -/
theorem unobstructed (h : s.OptimalGuess x y) (hat : s.Attained x) :
    ¬s.Obstructed ⟨some x, some y⟩ := by
  rintro ⟨i, htype, hdepends⟩
  have hin := (h.startingSet_iff hat).2 ((h.wanted_iff hat).1 (wanted_of_equality htype))
  exact ((startingSet_constraint i).1 hin).2.2 hdepends

theorem definiteApart (h : s.OptimalGuess x y) (hat : s.Attained x) :
    s.DefiniteApart ⟨some x, some y⟩ := fun v hv hzero =>
  h.regular.definite v hv fun e he => hzero e ((h.startingSet_iff hat).2 he)

end OptimalGuess

/-- A homotopy starts at an optimum of the loaded problem, with the working set that it has there. -/
structure StartsAt (s : Constrained ℝ n m) (x : Tuple ℝ n) (y : Dual ℝ n m) (s1 : Constrained ℝ n m) :
    Prop where
  underway : s1.Underway True
  sameData : s.SameData s1
  optimum : s1.Optimum x y
  suits : ∀ e, s.Suits x y e (s1.activity e)
  x_eq : s1.x = x
  y_eq : s1.y = y

/-- A set-up from scratch succeeds, with the point, the multipliers and the working set of the
optimum. -/
theorem OptimalGuess.prepare_ok (h : s.OptimalGuess x y) (hat : s.Attained x) (hs : s.InOrder) :
    ∃ s1, prepare ⟨some x, some y⟩ s.reset = .ok () s1 ∧ s.StartsAt x y s1 := by
  obtain ⟨s1, hrun, hsetup, hs1, -, hstarts⟩ := prepare_of_definite hs h.declared.symmetric
    (h.definiteApart hat) h.exact.epsDependent_eq h.epsDefinite_eq hat.ordered (h.unobstructed hat)
  have hdata := s.sameData_reset.trans hsetup.sameData
  have hexact := h.exact
  have hunderway : s1.Underway True := hsetup.underway h.declared.reset
    ⟨hexact.epsZero_eq, hexact.epsDependent_eq, hexact.epsDefinite_nonneg, hexact.relaxation_nonneg⟩
    (fun _ => h.equalLimits) hs1
  -- an entity is active exactly if it is on a limit, and then it is on the right one
  have hsuits : ∀ e, s.Suits x y e (s1.activity e) := by
    intro e
    have hactivity : s1.activity e = s.wantedSide ⟨some x, some y⟩ e := by
      by_cases he : s.OnLimit x e
      · exact hstarts.activity_eq e ((h.startingSet_iff hat).2 he)
      · rw [hstarts.inactive e fun hin => he ((h.startingSet_iff hat).1 hin),
          wantedSide_of_not_wanted fun hwanted => he ((h.wanted_iff hat).1 hwanted)]
    rw [hactivity]
    exact h.suits hat e
  obtain ⟨hx, hy⟩ := hsetup.guessed
  -- the point and the multipliers are those of the guess
  refine ⟨s1, hrun, hunderway, hdata, h.optimum.congr hdata, hsuits, hx, Dual.ext_get fun e => ?_⟩
  have htype : s1.limitType e = s.loadedType e := by
    rw [(hunderway.typed trivial e).1, hdata.target, hdata.parameters]
    rfl
  rw [hy, htype]
  exact (hsuits e).admissible_eq

-- ---------------------------------------------------------------------------
-- The step
-- ---------------------------------------------------------------------------

namespace StartsAt

theorem isActive_iff (h : s.StartsAt x y s1) : s1.isActive e = true ↔ s.OnLimit x e :=
  (h.suits e).isActive_iff

/-- The loaded limits of the working set are those of the auxiliary problem. -/
theorem shift_limit (h : s.StartsAt x y s1) (he : s1.isActive e = true) :
    s1.shift.limitOf (s1.activity e) e = 0 := by
  have htarget := (h.suits e).limit_eq he
  have hcurrent := h.underway.optimal.on_limit e he
  rw [h.x_eq, h.sameData.valueOf_eq] at hcurrent
  rw [show s1.shift.limitOf (s1.activity e) e = _ from Data.limitOf_sub _ _ _ e, h.sameData.target,
    htarget, ← hcurrent, sub_self]

/-- The gradient of the auxiliary problem is that of the loaded one. -/
theorem shift_gradient (h : s.StartsAt x y s1) (j : ℕ) : s1.shift.gradient j = 0 := by
  by_cases hj : j < n
  · have hcurrent := h.underway.optimal.stationary j hj
    have htarget := h.optimum.stationary j hj
    rw [h.x_eq, h.y_eq] at hcurrent
    rw [show s1.shift.gradient j = _ from Tuple.sub_apply _ _ hj]
    linarith
  · exact Tuple.apply_of_le _ (not_lt.1 hj)

/-- So nothing that matters has a way to go. -/
theorem atRest (h : s.StartsAt x y s1) : s1.AtRest where
  gradient := h.shift_gradient
  bound i hi := h.shift_limit (e := .bound i) hi
  row i hi := h.shift_limit (e := .constraint i) hi

/-- No loaded limit is in the way of a point that is feasible. -/
theorem clear (h : s.StartsAt x y s1) (e : Entity n m) : (s1.courseOf e).Clear := by
  obtain ⟨-, hlower, hupper⟩ := h.underway.typed trivial e
  have hend : ∀ side, s1.current.limitOf side e + s1.shift.limitOf side e =
      s1.target.limitOf side e := by
    intro side
    rw [show s1.shift.limitOf side e = _ from Data.limitOf_sub s1.target s1.current side e,
      add_sub_cancel]
  have hbelow := fun hside => (hend .lower).trans_le (h.optimum.lower_le e (hlower.1 hside))
  have habove := fun hside => (h.optimum.le_upper e (hupper.1 hside)).trans_eq (hend .upper).symm
  rw [← h.x_eq] at hbelow habove
  cases e with
  | bound i =>
    rw [valueOf_bound] at hbelow habove
    exact ⟨fun _ hside => .inr (hbelow hside), fun _ hside => .inr (habove hside)⟩
  | constraint i =>
    rw [← h.underway.optimal.ax_eq] at hbelow habove
    exact ⟨fun _ hside => .inr (hbelow hside), fun _ hside => .inr (habove hside)⟩

/-- The first step leads to the loaded problem, at the same point and in the same working set. -/
theorem arrives (h : s.StartsAt x y s1) : ∃ s', method.Arrives (method.clearVerdict s1) s' ∧
    s'.x = x ∧ s'.y = y ∧ ∀ e, s'.isActive e = true ↔ s.OnLimit x e := by
  let s2 : Constrained ℝ n m := method.clearVerdict s1
  have hs2 : s2.InStep := h.underway.inStep.congr rfl rfl rfl rfl rfl rfl
  have hsolvable := h.underway.solvable h.underway.epsZero_eq
  have hrest := h.atRest
  obtain ⟨s', harrives, dx, dy, tilt, dax, rfl⟩ := arrives_of_atRest hs2
    ⟨hsolvable.nullSpace, hsolvable.factor⟩ ⟨⟨hrest.gradient, hrest.bound⟩, hrest.row⟩
    h.underway.epsZero_eq.ge fun e => by
      have hclear := h.clear e
      cases e with
      | bound i => exact ⟨hclear.lower, hclear.upper⟩
      | constraint i => exact ⟨hclear.lower, hclear.upper⟩
  refine ⟨_, harrives, h.x_eq, h.y_eq, fun e => ?_⟩
  rw [← h.isActive_iff]
  cases e <;> rfl

end StartsAt

end ActiveSet.Constrained
