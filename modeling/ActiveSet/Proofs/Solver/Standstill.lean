import ActiveSet.Proofs.Arrival
import ActiveSet.Proofs.Solver.Constrained.Stepping
import ActiveSet.Proofs.Solver.Solvability

/-!
# Steps in which nothing moves

Where neither the gradient nor a limit in the working set changes on the way to the loaded problem, the
direction of a step is zero: all its systems are without right-hand side. The multipliers stay, so nothing
leaves the working set, and nothing enters it as long as the loaded limits of the other entities do not pass
the point. Such a step leads to the loaded problem and changes nothing but the data.

* `AtRest`, `Directed.still`: nothing in the working set moves, and neither does the point.
* `Course.Clear`: a limit that moves past the point is none of a step that is still.
* `Constrained.arrives_of_atRest`, `Box.arrives_of_atRest`: the step as a whole.
-/

namespace ActiveSet

open Finset

variable {n m : ℕ}

-- ---------------------------------------------------------------------------
-- Nothing moves
-- ---------------------------------------------------------------------------

/-- Spreading what keeps zero keeps a vector of zeros. -/
theorem spread_eq_zero {k : ℕ} {l : List (Fin k)} {f : ℕ → ℝ → ℝ} {x : Tuple ℝ k}
    (hf : ∀ p, f p 0 = 0) (hx : ∀ i, x i = 0) (i : ℕ) : spread l f x i = 0 := by
  by_cases hi : i < k
  · unfold spread
    rw [Tuple.ofFn_apply hi, hx i]
    split
    · exact hf _
    · rfl
  · exact Tuple.apply_of_le _ (not_lt.1 hi)

theorem gather_eq_zero {k : ℕ} {l : List (Fin k)} {x : ℕ → ℝ} (hx : ∀ i, x i = 0) (p : ℕ) :
    gather l x p = 0 := by
  unfold gather
  split
  · exact hx _
  · rfl

theorem Tuple.addScaled_eq_self {k : ℕ} {d x : Tuple ℝ k} (hd : ∀ i, d i = 0) (a : ℝ) :
    Tuple.addScaled a d x = x :=
  Tuple.ext fun i hi => by rw [addScaled_apply _ _ _ hi, hd, mul_zero, add_zero]

namespace Core

variable {s : Core ℝ n m}

/-- On the way to the loaded problem neither the gradient nor the limit of a fixed variable changes. -/
structure AtRest (s : Core ℝ n m) : Prop where
  gradient : ∀ j, s.shift.gradient j = 0
  bound : ∀ i : Fin n, s.bounds.isActive i = true →
    s.shift.limitOf (s.bounds.activity i) (.bound i) = 0

/-- The direction leads nowhere. -/
structure Still (s : Core ℝ n m) : Prop where
  dx : ∀ j, s.dx j = 0
  dy : ∀ e, s.dy.get e = 0

theorem AtRest.fixedDirection (h : s.AtRest) : s.fixedDirection.Still := by
  obtain ⟨hdx, hdy⟩ := fixedDirection_spec s
  refine ⟨fun j => ?_, hdy⟩
  by_cases hj : j < n
  · rw [hdx ⟨j, hj⟩]
    split
    · next hactive => exact h.bound ⟨j, hj⟩ hactive
    · rfl
  · exact Tuple.apply_of_le _ (not_lt.1 hj)

/-- Where neither the point nor the data moves, the gradient of the objective does not change. -/
theorem withTilt_eq_zero (hgradient : ∀ j, s.shift.gradient j = 0) (hdx : ∀ j, s.dx j = 0) (j : ℕ) :
    s.withTilt.tilt j = 0 := by
  by_cases hj : j < n
  · show Tuple.addScaled 1 s.shift.gradient (s.hessian.combine 1 s.dx 0 s.tilt) j = 0
    rw [Tuple.addScaled_apply _ _ _ hj, Grid.combine_apply _ _ _ _ _ hj, accumulate_eq_sum, hgradient,
      zero_mul, zero_add, mul_zero, add_zero]
    exact sum_eq_zero fun r _ => by rw [hdx, mul_zero, zero_mul]
  · exact Tuple.apply_of_le _ (not_lt.1 hj)

/-- A direction that leads nowhere is followed by going over to the loaded problem. -/
theorem Still.perform (h : s.Still) : s.perform 1 .full = { s with current := s.target } := by
  have hx : Tuple.addScaled 1 s.dx s.x = s.x := Tuple.addScaled_eq_self h.dx 1
  have hbound : Tuple.addScaled 1 s.dy.bound s.y.bound = s.y.bound := by
    refine Tuple.ext fun i hi => ?_
    rw [Tuple.addScaled_apply _ _ _ hi, show s.dy.bound i = 0 from h.dy (.bound ⟨i, hi⟩), mul_zero,
      add_zero]
  have hrow : Tuple.addScaled 1 s.dy.row s.y.row = s.y.row := by
    refine Tuple.ext fun i hi => ?_
    rw [Tuple.addScaled_apply _ _ _ hi, show s.dy.row i = 0 from h.dy (.constraint ⟨i, hi⟩), mul_zero,
      add_zero]
  simp only [Core.perform, if_true, Dual.addScaled, hx, hbound, hrow]

end Core

-- ---------------------------------------------------------------------------
-- Nothing is in the way
-- ---------------------------------------------------------------------------

/-- A loaded limit of an entity outside the working set does not come closer to its value, or does not pass
it. -/
structure Course.Clear (c : Course ℝ) : Prop where
  lower : c.activity = .inactive → c.finite.lower = true →
    c.lowerChange ≤ 0 ∨ c.lower + c.lowerChange ≤ c.value
  upper : c.activity = .inactive → c.finite.upper = true →
    0 ≤ c.upperChange ∨ c.value ≤ c.upper + c.upperChange

/-- An entity that does not move blocks no step if nothing is in its way. -/
theorem Course.Clear.one_le {c : Course ℝ} (h : c.Clear) (hvalue : c.valueChange = 0)
    (hmultiplier : c.multiplierChange = 0) {eps : ℝ} (heps : 0 ≤ eps) {e : Entity n m}
    {b : Blocker ℝ n m} (hb : b ∈ c.blockers eps e) : 1 ≤ b.tau := by
  rw [mem_blockers, hvalue, hmultiplier] at hb
  obtain ⟨-, -, hused, -⟩ | ⟨-, -, hused, -⟩ | ⟨hact, -, hfinite, hcloser, rfl⟩ |
    ⟨hact, -, hfinite, hcloser, rfl⟩ := hb
  · exact absurd hused (by linarith)
  · exact absurd hused (by linarith)
  · refine le_max_of_le_left ((one_le_div (by linarith)).2 ?_)
    obtain haway | hbelow := h.lower hact hfinite
    · linarith
    · linarith
  · refine le_max_of_le_left ((one_le_div (by linarith)).2 ?_)
    obtain haway | habove := h.upper hact hfinite
    · linarith
    · linarith

/-- Without an earlier blocker the whole way is free. -/
theorem firstBlocker_eq_full {l : List (Blocker ℝ n m)} (h : ∀ b ∈ l, 1 ≤ b.tau) :
    firstBlocker l = ⟨1, .full⟩ := by
  obtain ⟨hfull | ⟨hmem, hearlier⟩, -⟩ := firstBlocker_spec l
  · exact hfull
  · exact absurd hearlier (not_lt.2 (h _ hmem))

-- ---------------------------------------------------------------------------
-- With constraints
-- ---------------------------------------------------------------------------

namespace Constrained

variable {s s' : Constrained ℝ n m}

/-- On the way to the loaded problem neither the gradient nor a limit in the working set changes. -/
structure AtRest (s : Constrained ℝ n m) : Prop extends s.toCore.AtRest where
  row : ∀ i : Fin m, s.constraints.isActive i = true →
    s.shift.limitOf (s.constraints.activity i) (.constraint i) = 0

/-- The direction leads nowhere. -/
structure Still (s : Constrained ℝ n m) : Prop extends s.toCore.Still where
  dax : ∀ i, s.dax i = 0

theorem rangeRhs_eq_zero (hs : s.Listed) (hrest : s.AtRest) (hstill : s.toCore.Still) {p : ℕ}
    (hp : p < s.active.length) : s.rangeRhs p = 0 := by
  have hactive : s.constraints.isActive s.active[p] = true :=
    (hs.active_listed.mem_iff _).1 (List.getElem_mem hp)
  have hchange : s.activeLimitChange s.active[p] = 0 := hrest.row _ hactive
  have hdot : dot n (s.matrix s.active[p]) s.dx = 0 := by
    rw [dot_eq_sum]
    exact sum_eq_zero fun j _ => by rw [hstill.dx, mul_zero]
  rw [rangeRhs, Tuple.ofFn_apply hp, gather_of_lt hp, hchange, hdot, sub_zero]

theorem RangeStepped.still (h : s.RangeStepped s') (hs : s.Listed) (hrest : s.AtRest)
    (hstill : s.toCore.Still) : s'.AtRest ∧ s'.toCore.Still := by
  cases h with
  | @intro w hw =>
    have hzero := NullSpace.solveT?_eq_zero hw fun p hp => rangeRhs_eq_zero hs hrest hstill hp
    refine ⟨⟨⟨hrest.gradient, hrest.bound⟩, hrest.row⟩, fun j => spread_eq_zero (fun p => ?_) hstill.dx j,
      hstill.dy⟩
    rw [sum_eq_sum, zero_add]
    exact sum_eq_zero fun c _ => by rw [hzero, mul_zero]

theorem NullStepped.still (h : s.NullStepped s') (hrest : s.AtRest) (hstill : s.toCore.Still) :
    s'.AtRest ∧ s'.toCore.Still := by
  have htilt := Core.withTilt_eq_zero hrest.gradient hstill.dx
  have hrhs : ∀ k, k < s.nNull → s.nullRhs k = 0 := by
    intro k hk
    rw [nullRhs, Tuple.ofFn_apply hk, sum_eq_sum, neg_eq_zero]
    exact sum_eq_zero fun p _ => by rw [gather_eq_zero htilt, mul_zero]
  cases h with
  | @intro z w hz hw =>
    have hzero := Cholesky.solveR?_eq_zero hw fun k _ => Cholesky.solveRT?_eq_zero hz hrhs k
    refine ⟨⟨⟨hrest.gradient, hrest.bound⟩, hrest.row⟩, fun j => spread_eq_zero (fun p => ?_) hstill.dx j,
      hstill.dy⟩
    rw [sum_eq_sum, zero_add]
    exact sum_eq_zero fun c _ => by rw [hzero, mul_zero]

theorem MultiplierStepped.still (h : s.MultiplierStepped s') (hrest : s.AtRest)
    (hstill : s.toCore.Still) : s'.toCore.Still := by
  have htilt := Core.withTilt_eq_zero hrest.gradient hstill.dx
  have hrhs : ∀ c, c < s.active.length → s.multiplierRhs c = 0 := by
    intro c hc
    rw [multiplierRhs, Tuple.ofFn_apply hc, sum_eq_sum]
    exact sum_eq_zero fun p _ => by rw [gather_eq_zero htilt, mul_zero]
  cases h with
  | @intro w hw =>
    -- the multipliers of the rows do not change, since their right-hand side is zero
    have hzero := NullSpace.solveTT?_eq_zero hw hrhs
    refine ⟨hstill.dx, fun e => ?_⟩
    cases e with
    | bound j =>
      show (Tuple.ofFn n fun j => _ : Tuple ℝ n) j = 0
      rw [Tuple.ofFn_apply j.isLt]
      split
      · rw [deduct_eq_sum, htilt, zero_sub, neg_eq_zero]
        exact sum_eq_zero fun c _ => by rw [hzero, mul_zero]
      · exact hstill.dy (.bound j)
    | constraint i =>
      refine spread_eq_zero (fun c => hzero c) (fun r => ?_) i
      by_cases hr : r < m
      · exact hstill.dy (.constraint ⟨r, hr⟩)
      · exact Tuple.apply_of_le _ (not_lt.1 hr)

/-- Where nothing in the working set moves, nothing else does. -/
theorem Directed.still (h : s.Directed s') (hs : s.InStep) (hrest : s.AtRest) : s'.Still := by
  obtain ⟨s1, s2, s3, h1, h2, h3, rfl⟩ := h.chain
  have hfixed : s.SameButDirection { s with toCore := s.toCore.fixedDirection } :=
    ⟨_, _, _, _, rfl⟩
  have hrest0 : AtRest { s with toCore := s.toCore.fixedDirection } :=
    ⟨⟨hrest.gradient, hrest.bound⟩, hrest.row⟩
  -- none of the three parts of the direction moves anything
  have hstill1 : s1.AtRest ∧ s1.toCore.Still := by
    obtain ⟨-, h1⟩ | ⟨-, rfl⟩ := h1
    · exact h1.still (hfixed.inStep hs).toListed hrest0 hrest.fixedDirection
    · exact ⟨hrest0, hrest.fixedDirection⟩
  have hstill2 : s2.AtRest ∧ s2.toCore.Still := by
    obtain ⟨-, h2⟩ | ⟨-, rfl⟩ := h2
    · exact h2.still hstill1.1 hstill1.2
    · exact hstill1
  have hstill3 := h3.still hstill2.1 hstill2.2
  refine ⟨⟨hstill3.dx, hstill3.dy⟩, fun i => ?_⟩
  show s3.matrix.apply 1 s3.dx 0 s3.dax i = 0
  by_cases hi : i < m
  · rw [Grid.apply_apply _ _ _ _ _ hi, dot_eq_sum, zero_mul, add_zero, one_mul]
    exact sum_eq_zero fun j _ => by rw [hstill3.dx, mul_zero]
  · exact Tuple.apply_of_le _ (not_lt.1 hi)

theorem Still.stepLength (h : s.Still) (heps : 0 ≤ s.parameters.epsZero)
    (hclear : ∀ e, (s.courseOf e).Clear) : s.stepLength = (1, .full) := by
  have hfull : firstBlocker (s.boundBlockers ++ s.rowBlockers) = ⟨1, .full⟩ := by
    refine firstBlocker_eq_full fun b hb => ?_
    obtain ⟨e, he⟩ := mem_blockers.1 hb
    cases e with
    | bound i => exact (hclear (.bound i)).one_le (h.dx i) (h.dy (.bound i)) heps he
    | constraint i => exact (hclear (.constraint i)).one_le (h.dax i) (h.dy (.constraint i)) heps he
  unfold Constrained.stepLength
  rw [hfull]

theorem Still.perform (h : s.Still) :
    s.perform 1 .full = { s with current := s.target, ax := s.withRowValues.ax } := by
  unfold Constrained.perform
  rw [h.toStill.perform]
  rfl

/-- A step in which nothing moves leads to the loaded problem, and leaves the rest as it is. -/
theorem arrives_of_atRest (hs : s.InStep) (hsolvable : s.Solvable) (hrest : s.AtRest)
    (heps : 0 ≤ s.parameters.epsZero) (hclear : ∀ e, (s.courseOf e).Clear) :
    ∃ s', method.Arrives s s' ∧ SameButDirection
      { s with current := s.target, status := .solved, ax := s.withRowValues.ax } s' := by
  have hs' : InStep { s with status := .performingHomotopy } := hs.congr rfl rfl rfl rfl rfl rfl
  have hrest' : AtRest { s with status := .performingHomotopy } :=
    ⟨⟨hrest.gradient, hrest.bound⟩, hrest.row⟩
  obtain ⟨s1, hrun, hdirected⟩ :=
    Solvable.directed (s := { s with status := .performingHomotopy })
      ⟨hsolvable.nullSpace, hsolvable.factor⟩ hs'
  -- the direction is zero, so nothing can block and the step is full
  have hstill := hdirected.still hs' hrest'
  have hperform : method.perform 1 .full s1 = _ := hstill.perform
  have hlength : method.stepLength s1 = (1, .full) := by
    obtain ⟨dx, dy, tilt, dax, rfl⟩ := hdirected.same
    refine hstill.stepLength heps fun e => ?_
    cases e with
    | bound i => exact ⟨(hclear (.bound i)).lower, (hclear (.bound i)).upper⟩
    | constraint i => exact ⟨(hclear (.constraint i)).lower, (hclear (.constraint i)).upper⟩
  have harrives := Method.Arrives.intro hrun hlength
  rw [hperform] at harrives
  obtain ⟨dx, dy, tilt, dax, rfl⟩ := hdirected.same
  exact ⟨_, harrives, dx, dy, tilt, dax, rfl⟩

end Constrained

-- ---------------------------------------------------------------------------
-- For bounds only
-- ---------------------------------------------------------------------------

namespace Box

variable {s s' : Box ℝ n}

/-- Where no limit of a fixed variable moves, nothing else does. -/
theorem Directed.still (h : s.Directed s') (hrest : s.AtRest) : s'.Still := by
  have hfixed := hrest.fixedDirection
  have htilt : ∀ j, s.fixedDirection.withTilt.tilt j = 0 :=
    Core.withTilt_eq_zero hrest.gradient hfixed.dx
  cases h with
  | @intro z w hz hw =>
    have hrhs : ∀ p, p < s.fixedDirection.withTilt.free.length →
        freeRhs s.fixedDirection.withTilt p = 0 := by
      intro p hp
      rw [freeRhs, Tuple.ofFn_apply hp, gather_eq_zero htilt, neg_zero]
    -- both substitutions solve for zero
    have hzero := Cholesky.solveR?_eq_zero hw fun k _ => Cholesky.solveRT?_eq_zero hz hrhs k
    have hdx : ∀ j, (withFree s.fixedDirection.withTilt w).dx j = 0 :=
      spread_eq_zero (fun p => hzero p) hfixed.dx
    have htilt' : ∀ j, (withFree s.fixedDirection.withTilt w).tilt j = 0 :=
      Core.withTilt_eq_zero hrest.gradient hdx
    refine ⟨hdx, fun e => ?_⟩
    cases e with
    | bound j =>
      show (Tuple.ofFn n fun j => _ : Tuple ℝ n) j = 0
      rw [Tuple.ofFn_apply j.isLt]
      split
      · exact htilt' j
      · exact hfixed.dy (.bound j)
    | constraint i => exact i.elim0

theorem stepLength_of_still (h : s.Still) (heps : 0 ≤ s.parameters.epsZero)
    (hclear : ∀ i : Fin n, (s.boundCourse i).Clear) : stepLength s = (1, .full) := by
  have hfull : firstBlocker s.boundBlockers = ⟨1, .full⟩ := by
    refine firstBlocker_eq_full fun b hb => ?_
    obtain ⟨i, hi⟩ := Core.mem_boundBlockers.1 hb
    exact (hclear i).one_le (h.dx i) (h.dy (.bound i)) heps hi
  unfold stepLength
  rw [hfull]

/-- A step in which nothing moves leads to the loaded problem, and leaves the rest as it is. -/
theorem arrives_of_atRest (hs : s.InStep) (hsolvable : s.factor.Solvable s.parameters.epsZero)
    (hrest : s.AtRest) (heps : 0 ≤ s.parameters.epsZero)
    (hclear : ∀ i : Fin n, (s.boundCourse i).Clear) :
    ∃ dx dy tilt, method.Arrives s
      { s with current := s.target, status := .solved, dx, dy, tilt } := by
  have hs' : InStep { s with status := .performingHomotopy } := hs.congr rfl rfl rfl
  obtain ⟨_, hrun, hdirected, dx, dy, tilt, rfl⟩ :=
    directed_of_solvable (s := { s with status := .performingHomotopy }) hsolvable hs'
  have hstill := hdirected.still ⟨hrest.gradient, hrest.bound⟩
  have hlength := stepLength_of_still hstill heps fun i => ⟨(hclear i).lower, (hclear i).upper⟩
  refine ⟨dx, dy, tilt, ?_⟩
  have harrives := Method.Arrives.intro (M := method) hrun hlength
  change method.Arrives s { Core.perform 1 .full _ with status := .solved } at harrives
  rw [hstill.perform] at harrives
  exact harrives

end Box

end ActiveSet
