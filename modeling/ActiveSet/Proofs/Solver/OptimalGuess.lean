import ActiveSet.Proofs.Solver.BoundsOnly.SetUp
import ActiveSet.Proofs.Solver.Constrained.ColdStart
import ActiveSet.Proofs.Solver.Constrained.Optimum
import ActiveSet.Proofs.Solver.Guessing
import ActiveSet.Proofs.Solver.StrictConvexity
import ActiveSet.Proofs.Solver.WarmStart

/-!
# Starting at the optimum

A solve from scratch that is given the optimum makes one step, which changes neither the point nor the
multipliers, and ends with the entities on a limit as its working set (`start_at_optimum`). For problems
with bounds only this is read off the same set-up with constraints of which there are none.

Two things have to be asked for that the optimality conditions do not say, since a limit that is infinite
counts as absent there. An equality starts at its limits even if one of them is infinite, so the point has
to be there. And limits that cross are refused even if both are infinite (`optimum_missed`).
-/

namespace ActiveSet

open Finset

variable {n m : ℕ}

-- ---------------------------------------------------------------------------
-- Bounds only
-- ---------------------------------------------------------------------------

namespace Box

variable {s : Box ℝ n} {x : Tuple ℝ n} {y : Dual ℝ n 0}

/-- A problem with bounds only, as one with constraints of which there are none. -/
noncomputable def withoutRows (s : Box ℝ n) : Constrained ℝ n 0 := { Constrained.fresh n 0 with toCore := s }

theorem agrees_withoutRows (s : Box ℝ n) : s.Agrees id s.withoutRows.toCore :=
  .intro s.dx s.dy s.tilt s.factor s.free

theorem inOrder_withoutRows (hs : s.BoundsInOrder) : s.withoutRows.InOrder :=
  have hfresh : (Constrained.fresh n 0 : Constrained ℝ n 0).InOrder := Constrained.inOrder_fresh n 0
  ⟨hs, hfresh.constraints_sound, hfresh.constraints_capacity⟩

/-- The homotopy starts at the optimum, and its first step leads to the loaded problem. -/
theorem arrives_of_optimalGuess (h : s.withoutRows.OptimalGuess x y) (hat : s.withoutRows.Attained x)
    (hs : s.BoundsInOrder) : ∃ s1 s', prepare ⟨some x, some y⟩ (Core.reset s) = .ok () s1 ∧
      method.Arrives (method.clearVerdict s1) s' ∧ s'.x = x ∧ s'.y = y ∧
        ∀ i : Fin n, s'.bounds.isActive i = true ↔ s.withoutRows.OnLimit x (.bound i) := by
  obtain ⟨t1, ht1, hstarts⟩ := h.prepare_ok hat (inOrder_withoutRows hs)
  have halike : (prepare ⟨some x, some y⟩).Alike (Constrained.prepare ⟨some x, some y⟩) (Core.reset s)
      s.withoutRows.reset _ _ := (agrees_withoutRows s).prepare_alike
  -- both solvers are set up, or neither is
  obtain ⟨⟨⟩, s1, t1', hrun, ht1', hagree⟩ | ⟨f, s1, t1', -, hfailed, -⟩ := halike.cases
  swap
  · rw [ht1] at hfailed
    cases hfailed
  rw [ht1] at ht1'
  cases ht1'
  obtain ⟨hsetup, hs1, -⟩ := (prepare_reset_ensures _ hs).of_ok hrun
  have hdeclared : Declared (Core.reset s) := ⟨h.declared.symmetric, h.declared.identity⟩
  have hready : s1.Ready := ⟨hs1, hsetup.factored hdeclared h.exact.epsDefinite_nonneg,
    hdeclared.symmetric.congr hsetup.sameData.hessian⟩
  have hrest := hstarts.atRest.toAtRest
  have hclear := fun i => hstarts.clear (.bound i)
  have hzero : t1.parameters.epsZero = 0 := hstarts.underway.epsZero_eq
  have hx := hstarts.x_eq
  have hy := hstarts.y_eq
  have hactive := fun i => hstarts.isActive_iff (e := .bound i)
  obtain ⟨c⟩ := t1
  cases hagree
  have hs2 : InStep (method.clearVerdict s1) := hs1.congr rfl rfl rfl
  -- what is at rest there is at rest here too, and there is a direction
  obtain ⟨dx, dy, tilt, harrives⟩ := arrives_of_atRest hs2 (hready.solvable hzero)
    ⟨hrest.gradient, hrest.bound⟩ hzero.ge fun i => ⟨(hclear i).lower, (hclear i).upper⟩
  exact ⟨s1, _, hrun, harrives, hx, hy, hactive⟩

end Box

-- ---------------------------------------------------------------------------
-- Instances
-- ---------------------------------------------------------------------------

namespace Constrained

variable {s : Constrained ℝ 1 m} {x : Tuple ℝ 1} {y : Dual ℝ 1 m}

/-- A matrix with one entry is symmetric. -/
theorem symmetric_of_one (H : Grid ℝ 1 1) (i j : ℕ) : H i j = H j i := by
  rcases Nat.eq_zero_or_pos i with rfl | hi
  · rcases Nat.eq_zero_or_pos j with rfl | hj
    · rfl
    · rw [Grid.apply_of_column_le _ hj, Grid.apply_of_row_le _ hj]
  · rw [Grid.apply_of_row_le _ hi, Grid.apply_of_column_le _ hi]

/-- The matrix of an objective in one variable is definite if its entry is positive. -/
theorem definite_of_one {H : Grid ℝ 1 1} (hpos : 0 < H 0 0) {v : Tuple ℝ 1}
    (hv : ∃ j, j < 1 ∧ v j ≠ 0) : 0 < form 1 H v := by
  obtain ⟨j, hj, hne⟩ := hv
  obtain rfl : j = 0 := by omega
  have hform : form 1 H v = H 0 0 * (v 0 * v 0) := by
    simp only [form, sum_range_one]
    ring
  rw [hform]
  exact mul_pos hpos (mul_self_pos.2 hne)

/-- A point in one variable that is on no limit is an optimum where the objective is stationary. -/
theorem optimalGuess_of_interior (hexact : s.Exact) (hdefinite : s.parameters.epsDefinite = 0)
    (hbound : 0 < s.parameters.epsBound) (htype : s.hessianType = .definite)
    (hpos : 0 < s.hessian 0 0) (hstationary : s.hessian 0 0 * x 0 + s.target.gradient 0 = 0)
    (hlower : ∀ e, -s.parameters.infinity < s.target.lowerOf e →
      s.target.lowerOf e + s.parameters.epsBound < s.valueOf x e)
    (hupper : ∀ e, s.target.upperOf e < s.parameters.infinity →
      s.valueOf x e + s.parameters.epsBound < s.target.upperOf e)
    (hequal : s.EqualLimits) (hzero : ∀ e, y.get e = 0) : s.OptimalGuess x y := by
  -- nothing is on a limit, so nothing is active
  have hout : ∀ e, ¬s.OnLimit x e := by
    rintro e (⟨hfinite, hvalue⟩ | ⟨hfinite, hvalue⟩)
    · linarith [hlower e hfinite]
    · linarith [hupper e hfinite]
  refine ⟨hexact, hdefinite, hbound, by rw [htype]; decide, ⟨symmetric_of_one _, fun h => ?_⟩,
    ⟨fun j hj => ?_, fun e hfinite => ?_, fun e hfinite => ?_, fun e h => ?_, fun e h => ?_⟩,
    ⟨fun c hc _ e => hc e (hout e), fun v hv _ => definite_of_one hpos hv⟩,
    fun e hfinite hnear => ?_, fun e hfinite hnear => ?_, hequal⟩
  · rw [htype] at h
    cases h
  · obtain rfl : j = 0 := by omega
    rw [sum_range_one, hstationary, sum_eq_zero fun e _ => by rw [hzero, zero_mul]]
  · linarith [hlower e hfinite]
  · linarith [hupper e hfinite]
  · rw [hzero] at h
    exact absurd h (lt_irrefl 0)
  · rw [hzero] at h
    exact absurd h (lt_irrefl 0)
  · linarith [hlower e hfinite, (abs_le.1 hnear).2]
  · linarith [hupper e hfinite, (abs_le.1 hnear).1]

theorem get_multipliers_zero {ys : Array ℝ} (h : ∀ k, ys.getD k 0 = 0) (e : Entity 1 m) :
    (multipliers m ys).get e = 0 := by
  cases e with
  | bound i => exact (Tuple.ofFn_apply i.isLt).trans (h _)
  | constraint i => exact (Tuple.ofFn_apply i.isLt).trans (h _)

theorem getD_zeros (k : ℕ) : #[(0 : ℝ), 0].getD k 0 = 0 :=
  match k with
  | 0 | 1 | _ + 2 => rfl

/-- An objective in one variable, and limits for it that are both infinity. -/
noncomputable def loadFar : List (Call ℝ 1 1 (Loading ℝ)) :=
  [.load (.core (.parameters { exactParameters with infinity := 1 })),
    .load (.core (.hessian #[0.5])), .load (.core (.gradient #[-1])), .load (.core (.lower #[1])),
    .load (.core (.upper #[1]))]

/-- A solver with this problem loaded. -/
noncomputable def far : Constrained ℝ 1 1 :=
  loadFar.foldl (fun s c => ((Constrained.interface ℝ 1 1).call c s).2) (fresh 1 1)

theorem reachable_far {admits : Call ℝ 1 1 (Loading ℝ) → Constrained ℝ 1 1 → Prop}
    (h : ∀ d s, admits (.load d) s) : (Constrained.interface ℝ 1 1).Reachable admits far :=
  .call _ (.call _ (.call _ (.call _ (.call _ .fresh (h _ _)) (h _ _)) (h _ _)) (h _ _)) (h _ _)

theorem gradient_far : far.target.gradient 0 = -1 :=
  have hclamp : Core.clamp (1 : ℝ) (-1) = -1 := Core.clamp_of le_rfl (by norm_num)
  (Tuple.ofFn_apply Nat.zero_lt_one).trans hclamp

theorem hessian_far : far.hessian 0 0 = 1 / 2 :=
  have hentry : (0.5 : ℝ) = 1 / 2 := by norm_num
  (Grid.ofFn_apply Nat.zero_lt_one Nat.zero_lt_one).trans hentry

theorem limits_far_bound :
    far.target.lowerOf (.bound 0) = 1 ∧ far.target.upperOf (.bound 0) = 1 :=
  have hclamp : Core.clamp (1 : ℝ) 1 = 1 := Core.clamp_of (by norm_num) le_rfl
  ⟨(Tuple.ofFn_apply Nat.zero_lt_one).trans hclamp, (Tuple.ofFn_apply Nat.zero_lt_one).trans hclamp⟩

theorem limits_far_constraint :
    far.target.lowerOf (.constraint 0) = -10 ^ 20 ∧ far.target.upperOf (.constraint 0) = 10 ^ 20 :=
  ⟨lowerOf_square (.constraint 0), upperOf_square (.constraint 0)⟩

theorem loadedType_far_bound : far.loadedType (.bound 0) = .equality := by
  rw [loadedType, limits_far_bound.1, limits_far_bound.2,
    show far.parameters = { exactParameters with infinity := 1 } from rfl, epsBound_exactParameters]
  unfold EntitySet.typeOfLimits
  rw [if_neg (by norm_num), if_pos (by norm_num)]

theorem equalLimits_far : far.EqualLimits := by
  intro e htype
  obtain rfl | rfl := entity_of_one e
  · rw [limits_far_bound.1, limits_far_bound.2]
  · rw [limits_far_constraint.1, limits_far_constraint.2,
      show far.parameters.infinity = 1 from rfl] at htype
    unfold EntitySet.typeOfLimits at htype
    rw [if_pos (by norm_num)] at htype
    cases htype

theorem exact_far : far.Exact := ⟨rfl, rfl, le_rfl, relaxation_exactParameters ▸ by norm_num⟩

/-- The objective is stationary beyond both limits, of which the upper one does not count. -/
theorem optimalGuess_far : far.OptimalGuess (point 2) (multipliers 1 #[0, 0]) := by
  have hbound : far.valueOf (point 2) (.bound 0) = 2 := valueOf_bound far (point 2) 0
  have heps : far.parameters.epsBound = 1 / 10 ^ 10 := epsBound_exactParameters
  have hinfinity : far.parameters.infinity = 1 := rfl
  refine optimalGuess_of_interior exact_far rfl (heps ▸ by norm_num) rfl ?_ ?_ (fun e hfinite => ?_)
    (fun e hfinite => ?_) equalLimits_far (get_multipliers_zero getD_zeros)
  · rw [hessian_far]
    norm_num
  · rw [hessian_far, gradient_far]
    show (1 / 2 : ℝ) * 2 + -1 = 0
    norm_num
  · -- the point is above the lower limit of the bound, and that of the row does not count
    obtain rfl | rfl := entity_of_one e
    · rw [limits_far_bound.1, heps, hbound]
      norm_num
    · rw [limits_far_constraint.1, hinfinity] at hfinite
      norm_num at hfinite
  · -- no upper limit counts
    obtain rfl | rfl := entity_of_one e
    · rw [limits_far_bound.2, hinfinity] at hfinite
      exact absurd hfinite (lt_irrefl 1)
    · rw [limits_far_constraint.2, hinfinity] at hfinite
      norm_num at hfinite

/-- But a solver that makes one step ends on them. -/
theorem x_far {xGuess yGuess : Option (Array ℝ)} {s' : Constrained ℝ 1 1}
    (h : method.InOneStep (.scratch xGuess yGuess) far s') : s'.x 0 = 1 := by
  have hadmits : courseCalls True (.solve Observer.silent () 1 xGuess yGuess) far :=
    ⟨⟨symmetric_of_one _, fun h => by cases h⟩, exact_far, fun _ => equalLimits_far⟩
  obtain ⟨hdata, hunderway, hcurrent, hsided⟩ := arrived_of_solve (reachable_far fun _ _ => trivial)
    rfl hadmits (Interface.call_of_inOneStep h)
  have htype : s'.limitType (.bound 0) = .equality := by
    rw [(hunderway.typed trivial (.bound 0)).1, hdata.target, hdata.parameters]
    exact loadedType_far_bound
  have hactive := hunderway.inStep.isActive_of_equality htype
  have hvalue := hunderway.optimal.on_limit (.bound 0) hactive
  rw [hsided.eq_lower hactive htype, hcurrent, hdata.target, valueOf_bound] at hvalue
  exact hvalue.trans limits_far_bound.1

/-- An objective in one variable, and limits for it that cross beyond the infinities. -/
noncomputable def loadCrossed : List (Call ℝ 1 1 (Loading ℝ)) :=
  [.load (.core (.hessian #[1])), .load (.core (.lower #[1])), .load (.core (.upper #[0])),
    .load (.core (.parameters { exactParameters with infinity := -1 }))]

/-- A solver with this problem loaded. -/
noncomputable def crossed : Constrained ℝ 1 1 :=
  loadCrossed.foldl (fun s c => ((Constrained.interface ℝ 1 1).call c s).2) (fresh 1 1)

theorem reachable_crossed : (Constrained.interface ℝ 1 1).Reachable anyCall crossed :=
  Interface.reachable_foldl _ _ .fresh

theorem limits_crossed_bound :
    crossed.target.lowerOf (.bound 0) = 1 ∧ crossed.target.upperOf (.bound 0) = 0 :=
  ⟨(Tuple.ofFn_apply Nat.zero_lt_one).trans (clamp_exactParameters (by norm_num)),
    (Tuple.ofFn_apply Nat.zero_lt_one).trans (clamp_exactParameters (by norm_num))⟩

theorem limits_crossed_constraint : crossed.target.lowerOf (.constraint 0) = -10 ^ 20 ∧
    crossed.target.upperOf (.constraint 0) = 10 ^ 20 :=
  ⟨lowerOf_square (.constraint 0), upperOf_square (.constraint 0)⟩

/-- None of its limits counts. -/
theorem limits_crossed (e : Entity 1 1) :
    crossed.target.lowerOf e ≤ -crossed.parameters.infinity ∧
      crossed.parameters.infinity ≤ crossed.target.upperOf e := by
  have hinfinity : crossed.parameters.infinity = -1 := rfl
  rw [hinfinity]
  obtain rfl | rfl := entity_of_one e
  · rw [limits_crossed_bound.1, limits_crossed_bound.2]
    norm_num
  · rw [limits_crossed_constraint.1, limits_crossed_constraint.2]
    norm_num

theorem optimalGuess_crossed : crossed.OptimalGuess (point 0) (multipliers 1 #[0, 0]) := by
  have heps : crossed.parameters.epsBound = 1 / 10 ^ 10 := epsBound_exactParameters
  have hhessian : crossed.hessian 0 0 = 1 := hessian_square 0 0
  refine optimalGuess_of_interior
    ⟨rfl, rfl, le_rfl, relaxation_exactParameters ▸ by norm_num⟩ rfl (heps ▸ by norm_num) rfl ?_ ?_
    (fun e hfinite => absurd hfinite (not_lt.2 (limits_crossed e).1))
    (fun e hfinite => absurd hfinite (not_lt.2 (limits_crossed e).2)) (fun e htype => ?_)
    (get_multipliers_zero getD_zeros)
  · rw [hhessian]
    exact zero_lt_one
  · rw [show crossed.target.gradient 0 = 0 from Tuple.fill_apply Nat.zero_lt_one, add_zero]
    exact mul_zero _
  · unfold EntitySet.typeOfLimits at htype
    rw [if_pos (limits_crossed e)] at htype
    cases htype

/-- But they are refused. -/
theorem refused_crossed {xGuess yGuess : Option (Array ℝ)} {s' : Constrained ℝ 1 1} :
    ¬method.InOneStep (.scratch xGuess yGuess) crossed s' := by
  intro h
  have horder : crossed.InOrder := (inOrder_fresh 1 1).congr rfl rfl
  obtain ⟨start, hstarts⟩ :=
    Interface.startsBy_of_call (I := Constrained.interface ℝ 1 1) rfl (Interface.call_of_inOneStep h)
  cases hstarts with
  | prepared hguess hprepare =>
    obtain ⟨hsetup, -⟩ := (prepare_reset_ensures horder).of_ok hprepare
    have hle : crossed.target.lowerOf (.bound 0) ≤ crossed.target.upperOf (.bound 0) :=
      hsetup.ordered (.bound 0)
    rw [limits_crossed_bound.1, limits_crossed_bound.2] at hle
    exact absurd hle (not_le.2 zero_lt_one)

/-- The limits of the tied problem. -/
theorem limits_tied (e : Entity 1 1) :
    e = .bound 0 ∧ tied.target.lowerOf e = 0 ∧ tied.target.upperOf e = 1 ∨
      e = .constraint 0 ∧ tied.target.lowerOf e = 1 / 2 ∧ tied.target.upperOf e = 1 / 2 := by
  obtain rfl | rfl := entity_of_one e
  · exact .inl ⟨rfl, limits_tied_bound⟩
  · exact .inr ⟨rfl, limits_tied_constraint⟩

theorem valueOf_tied (e : Entity 1 1) : tied.valueOf (point (1 / 2)) e = 1 / 2 := by
  rw [valueOf, sum_range_one, row_tied, one_mul]
  rfl

theorem get_multipliers_tied (e : Entity 1 1) :
    (multipliers 1 #[0, 1 / 2]).get e = if e = .bound 0 then 0 else 1 / 2 := by
  obtain rfl | rfl := entity_of_one e
  · exact Tuple.ofFn_apply Nat.zero_lt_one
  · exact Tuple.ofFn_apply Nat.zero_lt_one

/-- The variable is where the row ties it. -/
theorem optimum_tied : tied.Optimum (point (1 / 2)) (multipliers 1 #[0, 1 / 2]) := by
  have hinfinity : tied.parameters.infinity = 10 ^ 20 := infinity_exactParameters
  refine ⟨fun j hj => ?_, fun e _ => ?_, fun e _ => ?_, fun e he => ?_, fun e he => ?_⟩
  · -- the gradient condition of the one variable
    obtain rfl : j = 0 := by omega
    simp only [sum_range_one, row_tied, get_multipliers_tied, Entity.sum_eq, Fin.sum_univ_one]
    rw [show tied.hessian 0 0 = 1 from hessian_square 0 0,
      show tied.target.gradient 0 = 0 from Tuple.fill_apply Nat.zero_lt_one]
    show (1 : ℝ) * (1 / 2) + 0 = 0 * 1 + 1 / 2 * 1
    norm_num
  · -- the point is inside every limit that counts
    rw [valueOf_tied]
    obtain ⟨-, hlower, -⟩ | ⟨-, hlower, -⟩ := limits_tied e <;> rw [hlower]
    norm_num
  · rw [valueOf_tied]
    obtain ⟨-, -, hupper⟩ | ⟨-, -, hupper⟩ := limits_tied e <;> rw [hupper]
    norm_num
  · -- no entity has a negative multiplier, and only the row has a positive one
    rw [get_multipliers_tied] at he
    obtain ⟨rfl, -⟩ | ⟨rfl, hlower, -⟩ := limits_tied e
    · exact absurd he (lt_irrefl 0)
    · refine ⟨?_, (valueOf_tied _).trans hlower.symm⟩
      rw [hlower, hinfinity]
      norm_num
  · rw [get_multipliers_tied] at he
    split at he <;> norm_num at he

theorem optimalGuess_tied : tied.OptimalGuess (point (1 / 2)) (multipliers 1 #[0, 1 / 2]) := by
  have heps : tied.parameters.epsBound = 1 / 10 ^ 10 := epsBound_exactParameters
  have hpos : 0 < tied.hessian 0 0 := by
    rw [show tied.hessian 0 0 = 1 from hessian_square 0 0]
    exact zero_lt_one
  -- the variable is at 1/2, and its limits are 0 and 1
  have hout : ¬tied.OnLimit (point (1 / 2)) (.bound 0) := by
    rintro (⟨-, h⟩ | ⟨-, h⟩)
    · rw [valueOf_tied, limits_tied_bound.1] at h
      norm_num at h
    · rw [valueOf_tied, limits_tied_bound.2] at h
      norm_num at h
  refine ⟨⟨rfl, rfl, le_rfl, relaxation_exactParameters ▸ by norm_num⟩, rfl,
    heps ▸ by norm_num, fun h => (by cases h), ⟨symmetric_of_one _, fun h => (by cases h)⟩, optimum_tied,
    ⟨independent_tied hout, fun v hv _ => definite_of_one hpos hv⟩, fun e _ hnear => ?_,
    fun e _ hnear => ?_, fun e htype => ?_⟩
  · -- a value near a limit is on it, for the row as well as for the variable
    rw [valueOf_tied, heps] at hnear
    rw [valueOf_tied]
    obtain ⟨-, hlower, -⟩ | ⟨-, hlower, -⟩ := limits_tied e
    · rw [hlower] at hnear
      norm_num [abs_of_pos] at hnear
    · exact hlower.symm
  · rw [valueOf_tied, heps] at hnear
    rw [valueOf_tied]
    obtain ⟨-, -, hupper⟩ | ⟨-, -, hupper⟩ := limits_tied e
    · rw [hupper] at hnear
      norm_num [abs_of_neg] at hnear
    · exact hupper.symm
  · obtain ⟨rfl, -⟩ | ⟨-, hlower, hupper⟩ := limits_tied e
    · cases loadedType_tied_bound.symm.trans htype
    · exact hlower.trans hupper.symm

theorem attained_tied : tied.Attained (point (1 / 2)) := by
  refine ⟨ordered_tied, fun e htype => ?_⟩
  rw [valueOf_tied]
  obtain ⟨rfl, -⟩ | ⟨-, hlower, -⟩ := limits_tied e
  · cases loadedType_tied_bound.symm.trans htype
  · exact hlower.symm

section SingleLimit

variable {s : Constrained ℝ n m} {e : Entity n m} {side : Activity} {z w : ℕ → ℝ} {r : ℝ}
  {x : Tuple ℝ n} {y : Dual ℝ n m}

/-- The one limit is the only one that a point can be on. -/
theorem SingleLimit.eq_of_onLimit (h : s.SingleLimit e side) {a : Entity n m} (ha : s.OnLimit x a) :
    a = e := by
  rcases ha with ⟨hfinite, -⟩ | ⟨hfinite, -⟩
  · exact ((h.lower_iff a).1 hfinite).1
  · exact ((h.upper_iff a).1 hfinite).1

theorem SingleLimit.attained (h : s.SingleLimit e side) : s.Attained x :=
  ⟨h.ordered, fun a htype => absurd htype (h.loadedType_ne a)⟩

namespace Minima

variable (h : s.Minima e side z w r) (hx : ∀ j, j < n → x j = w j)
include h hx

theorem valueOf_eq : s.valueOf x e = s.target.limitOf side e :=
  (valueOf_congr hx e).trans h.on_limit

theorem onLimit : s.OnLimit x e := by
  have hvalue := h.valueOf_eq hx
  rcases h.side_eq with rfl | rfl
  · exact .inl ⟨(h.lower_iff e).2 ⟨rfl, rfl⟩, hvalue⟩
  · exact .inr ⟨(h.upper_iff e).2 ⟨rfl, rfl⟩, hvalue⟩

/-- The minimum on the limit is an optimum if its multiplier has the sign of the side. -/
theorem optimum (hkeeps : ¬Repels side r) (hy : ∀ a, y.get a = if a = e then r else 0) :
    s.Optimum x y := by
  have hvalue := h.valueOf_eq hx
  -- the entity is the only one with a finite limit, and it is on that limit
  have hlower : ∀ a, -s.parameters.infinity < s.target.lowerOf a → s.OnLower x a := by
    intro a hfinite
    obtain ⟨rfl, rfl⟩ := (h.lower_iff a).1 hfinite
    exact ⟨hfinite, hvalue⟩
  have hupper : ∀ a, s.target.upperOf a < s.parameters.infinity → s.OnUpper x a := by
    intro a hfinite
    obtain ⟨rfl, rfl⟩ := (h.upper_iff a).1 hfinite
    exact ⟨hfinite, hvalue⟩
  refine ⟨fun j hj => ?_, fun a hfinite => (hlower a hfinite).value_eq.ge,
    fun a hfinite => (hupper a hfinite).value_eq.le, fun a ha => ?_, fun a ha => ?_⟩
  · -- its multiplier alone balances the gradient
    rw [sum_eq_single e (fun a _ hne => by rw [hy, if_neg hne, zero_mul])
      fun hnot => absurd (mem_univ e) hnot, hy, if_pos rfl, ← h.held j hj]
    congr 1
    exact Finset.sum_congr rfl fun k hk => by rw [hx k (mem_range.1 hk)]
  · rw [hy] at ha
    split at ha
    · next he =>
      refine hlower a ((h.lower_iff a).2 ⟨he, h.side_eq.resolve_right ?_⟩)
      rintro rfl
      exact hkeeps ha
    · exact absurd ha (lt_irrefl 0)
  · rw [hy] at ha
    split at ha
    · next he =>
      refine hupper a ((h.upper_iff a).2 ⟨he, h.side_eq.resolve_left ?_⟩)
      rintro rfl
      exact hkeeps ha
    · exact absurd ha (lt_irrefl 0)

/-- It is one at which a solve from scratch can start. -/
theorem optimalGuess (hkeeps : ¬Repels side r) (hy : ∀ a, y.get a = if a = e then r else 0)
    (hexact : s.Exact) (hbound : 0 < s.parameters.epsBound) (hdefinite : s.hessianType ≠ .semidefinite)
    (hdeclared : s.Declared) (hrow : ∃ j, j < n ∧ s.row e j ≠ 0) : s.OptimalGuess x y := by
  have hvalue := h.valueOf_eq hx
  refine ⟨hexact, h.convex.epsDefinite_eq, hbound, hdefinite, hdeclared, h.optimum hx hkeeps hy,
    ⟨fun c hc hsum a => ?_, fun v hv _ => h.convex.definite v hv⟩, fun a hfinite _ => ?_,
    fun a hfinite _ => ?_, h.equalLimits⟩
  · -- a combination of one row is zero only if its coefficient is
    have hother : ∀ a, a ≠ e → c a = 0 := fun a hne => hc a fun ha => hne (h.eq_of_onLimit ha)
    by_cases ha : a = e
    · obtain ⟨j, hj, hne⟩ := hrow
      have hzero := hsum j hj
      rw [sum_eq_single e (fun a _ hne => by rw [hother a hne, zero_mul])
        fun hnot => absurd (mem_univ e) hnot] at hzero
      rw [ha]
      exact (mul_eq_zero.1 hzero).resolve_right hne
    · exact hother a ha
  · obtain ⟨rfl, rfl⟩ := (h.lower_iff a).1 hfinite
    exact hvalue
  · obtain ⟨rfl, rfl⟩ := (h.upper_iff a).1 hfinite
    exact hvalue

end Minima

end SingleLimit

/-- A point of two variables. -/
noncomputable def pair (a b : ℝ) : Tuple ℝ 2 := ⟨⟨#[a, b], rfl⟩⟩

/-- Multipliers of which only that of the first variable is not zero. -/
noncomputable def pairMultipliers (r : ℝ) : Dual ℝ 2 0 := Dual.ofFn 2 0 fun k => #[r, 0].getD k 0

theorem ofArrays_pair (a b r : ℝ) : Guess.ofArrays 2 0 (some #[a, b]) (some #[r, 0]) =
    .ok ⟨some (pair a b), some (pairMultipliers r)⟩ := by
  have hys : Dual.ofArray? 2 0 #[r, 0] = some (pairMultipliers r) := if_pos rfl
  rw [Guess.ofArrays, Option.map_some, Option.map_some, hys]
  rfl

theorem pair_apply (a b : ℝ) {j : ℕ} (hj : j < 2) : pair a b j = if j = 0 then a else b := by
  obtain rfl | rfl : j = 0 ∨ j = 1 := by omega
  · rfl
  · rfl

theorem get_pairMultipliers (r : ℝ) (a : Entity 2 0) :
    (pairMultipliers r).get a = if a = .bound 0 then r else 0 := by
  cases a with
  | bound i =>
    refine (Tuple.ofFn_apply i.isLt).trans ?_
    fin_cases i
    · rfl
    · rfl
  | constraint i => exact i.elim0

/-- The point at which the first variable is held at its upper limit, and its multiplier there. -/
theorem optimalGuess_capped :
    (capped 3 1).OptimalGuess (pair 1 (-1 / 2)) (pairMultipliers (-3 / 2)) := by
  have h := capping_one
  have hy (a : Entity 2 0) :
      (pairMultipliers (-3 / 2)).get a = if a = .bound 0 then 3 * 1 / 2 - 3 else 0 := by
    rw [get_pairMultipliers]
    norm_num
  refine h.minima.optimalGuess (fun j hj => pair_apply _ _ hj) ?_ hy h.exact ?_ h.definite
    h.declared ⟨0, Nat.zero_lt_two, one_ne_zero⟩
  · unfold Repels
    rw [if_pos rfl]
    norm_num
  · rw [h.parameters, epsBound_exactParameters]
    norm_num

end Constrained

-- ---------------------------------------------------------------------------
-- Calls
-- ---------------------------------------------------------------------------

/-- A solve from scratch that is given the optimum makes one step, whatever its observer and its budget. It
ends at the optimum, and the entities on a limit are its working set. -/
theorem start_at_optimum (n m : ℕ) :
    (∀ {s : Constrained ℝ n m} {xs ys : Array ℝ} {x : Tuple ℝ n} {y : Dual ℝ n m},
      (Constrained.interface ℝ n m).Reachable anyCall s →
        Guess.ofArrays n m (some xs) (some ys) = .ok ⟨some x, some y⟩ → s.OptimalGuess x y →
          s.Attained x → ∃ s', Constrained.method.InOneStep (.scratch (some xs) (some ys)) s s' ∧
            s'.x = x ∧ s'.y = y ∧ ∀ e, s'.isActive e = true ↔ s.OnLimit x e) ∧
      ∀ {s : Box ℝ n} {xs ys : Array ℝ} {x : Tuple ℝ n} {y : Dual ℝ n 0},
        (Box.interface ℝ n).Reachable anyCall s →
          Guess.ofArrays n 0 (some xs) (some ys) = .ok ⟨some x, some y⟩ →
            s.withoutRows.OptimalGuess x y → s.withoutRows.Attained x →
              ∃ s', Box.method.InOneStep (.scratch (some xs) (some ys)) s s' ∧ s'.x = x ∧ s'.y = y ∧
                ∀ i : Fin n, s'.bounds.isActive i = true ↔ s.withoutRows.OnLimit x (.bound i) := by
  have hone : ((1 : ℝ) == 1) = true := by simp
  constructor
  · intro s xs ys x y hreach hguess h hat
    -- the set-up keeps the point, since every entity on a limit starts active
    obtain ⟨s1, hprepare, hstarts⟩ :=
      h.prepare_ok hat ((Constrained.respects hone).settled hreach).1
    -- at such a start the direction is zero, so that one full step arrives
    obtain ⟨s', harrives, hx, hy, hactive⟩ := hstarts.arrives
    exact ⟨s', harrives.solve hguess hprepare, hx, hy, hactive⟩
  · intro s xs ys x y hreach hguess h hat
    -- with bounds only both are read off the companion without rows
    obtain ⟨s1, s', hprepare, harrives, hx, hy, hactive⟩ :=
      Box.arrives_of_optimalGuess h hat ((Box.respects hone).settled hreach).1
    exact ⟨s', harrives.solve hguess hprepare, hx, hy, hactive⟩

/-- With constraints the variable is tied to one half by a row, which becomes active. With bounds only the
first of two variables is at its upper limit, which becomes active as well. Both solvers stay where they
start. -/
theorem start_at_optimum_tied :
    (∃ s', Constrained.method.InOneStep (.scratch (some #[1 / 2]) (some #[0, 1 / 2]))
        Constrained.tied s' ∧ s'.x = Constrained.point (1 / 2) ∧
        s'.y = Constrained.multipliers 1 #[0, 1 / 2] ∧ s'.isActive (.constraint 0) = true) ∧
      ∃ s', Box.method.InOneStep (.scratch (some #[1, -1 / 2]) (some #[-3 / 2, 0])) (Box.capped 3 1) s' ∧
        s'.x = Constrained.pair 1 (-1 / 2) ∧ s'.y = Constrained.pairMultipliers (-3 / 2) ∧
        s'.bounds.isActive 0 = true := by
  obtain ⟨s', hstep, hx, hy, hactive⟩ := (start_at_optimum 1 1).1
    (Constrained.reachable_tied fun _ _ => trivial)
    (Constrained.ofArrays_point (1 / 2) rfl) Constrained.optimalGuess_tied Constrained.attained_tied
  -- the row is on its lower limit, as its multiplier is positive
  have honLower : Constrained.tied.OnLower (Constrained.point (1 / 2)) (.constraint 0) := by
    refine Constrained.optimum_tied.onLower _ ?_
    rw [Constrained.get_multipliers_tied, if_neg nofun]
    exact one_half_pos
  have hreach : (Box.interface ℝ 2).Reachable anyCall (Box.capped 3 1) :=
    Box.reachable_capped (fun _ _ => trivial) 3 1
  have hcapped := Constrained.capping_one
  obtain ⟨t', hstep', hx', hy', hactive'⟩ := (start_at_optimum 2 0).2 hreach
    (Constrained.ofArrays_pair _ _ _) Constrained.optimalGuess_capped hcapped.single.attained
  exact ⟨⟨s', hstep, hx, hy, (hactive _).2 (.inl honLower)⟩, t', hstep', hx', hy',
    (hactive' 0).2 (hcapped.minima.onLimit fun _ hj => Constrained.pair_apply _ _ hj)⟩

/-- Two optima at which no solve can start. The first one is beyond the equal limits of its variable, of
which the upper one does not count, and the solver goes back to them. The second one has limits that do not
count either, but the solver refuses them since they cross. -/
theorem optimum_missed :
    ((Constrained.interface ℝ 1 1).Reachable anyCall Constrained.far ∧
        Guess.ofArrays 1 1 (some #[2]) (some #[0, 0]) =
          .ok ⟨some (Constrained.point 2), some (Constrained.multipliers 1 #[0, 0])⟩ ∧
        Constrained.far.OptimalGuess (Constrained.point 2) (Constrained.multipliers 1 #[0, 0]) ∧
          ¬∃ s', Constrained.method.InOneStep (.scratch (some #[2]) (some #[0, 0]))
            Constrained.far s' ∧ s'.x = Constrained.point 2) ∧
      (Constrained.interface ℝ 1 1).Reachable anyCall Constrained.crossed ∧
        Guess.ofArrays 1 1 (some #[0]) (some #[0, 0]) =
          .ok ⟨some (Constrained.point 0), some (Constrained.multipliers 1 #[0, 0])⟩ ∧
        Constrained.crossed.OptimalGuess (Constrained.point 0) (Constrained.multipliers 1 #[0, 0]) ∧
          ¬∃ s', Constrained.method.InOneStep (.scratch (some #[0]) (some #[0, 0]))
            Constrained.crossed s' := by
  refine ⟨⟨Constrained.reachable_far fun _ _ => trivial, Constrained.ofArrays_point 2 rfl,
    Constrained.optimalGuess_far, ?_⟩, Constrained.reachable_crossed, Constrained.ofArrays_point 0 rfl,
    Constrained.optimalGuess_crossed, fun ⟨_, h⟩ => Constrained.refused_crossed h⟩
  rintro ⟨s', h, hx⟩
  -- with equal limits the solver ends at one, and the optimum given is two
  have hone := Constrained.x_far h
  rw [hx] at hone
  have htwo : (2 : ℝ) = 1 := hone
  norm_num at htwo

end ActiveSet
