import ActiveSet.Proofs.Factor.Semidefinite
import ActiveSet.Proofs.Solver.Constrained.Sides
import ActiveSet.Proofs.Solver.FlatDirections

/-!
# Minima of the loaded objective

With a positive definite matrix, a point at which the optimality conditions hold is the only one at which
the objective is least. The points with which it is compared are those that the solver knows of: an
equality counts with its lower limit, and another entity with the limits at its finite sides. Types and
sides are those of the last classification, so these need not be the points within the loaded limits
(`Optimal.minimises_allows`). If no loaded limit is overlooked and no infinite one is held, they are
(`Optimal.minimises_within`).

* `Core.Minimises`: the only minimum of the loaded objective over a set of points.
* `Core.Allows`, `Constrained.Allows`: the points that a solver compares.
* `Constrained.Faithful`, `Constrained.Held`: no limit is overlooked, and no infinite one held.
-/

namespace ActiveSet

open Finset

variable {n m : ℕ}

/-- An objective is half a form and a linear part. -/
theorem objective_eq (H : Grid ℝ n n) (g x : Tuple ℝ n) :
    objective H g x = form n H x / 2 + ∑ j ∈ range n, x j * g j := by
  unfold objective form
  rw [sum_eq_sum, div_eq_mul_inv, sum_mul, ← sum_add_distrib]
  refine Finset.sum_congr rfl fun j _ => ?_
  rw [dot_eq_sum]
  ring

/-- The objective at another point, from the gradient at the first one. -/
theorem objective_add {H : Grid ℝ n n} (hsymm : ∀ i j : ℕ, H i j = H j i) (g x z : Tuple ℝ n) :
    objective H g z = objective H g x +
      ∑ j ∈ range n, (∑ k ∈ range n, H j k * x k + g j) * (z j - x j) +
        form n H (fun j => z j - x j) / 2 := by
  have hform : form n H z = form n H (fun j => x j + 1 * (z j - x j)) := by
    refine congrArg (form n H) (funext fun j => ?_)
    ring
  have hlinear : ∑ j ∈ range n, z j * g j =
      ∑ j ∈ range n, x j * g j + ∑ j ∈ range n, (z j - x j) * g j := by
    rw [← sum_add_distrib]
    exact Finset.sum_congr rfl fun j _ => by ring
  have hgradient : ∑ j ∈ range n, (∑ k ∈ range n, H j k * x k + g j) * (z j - x j) =
      ∑ j ∈ range n, (z j - x j) * ∑ k ∈ range n, H j k * x k +
        ∑ j ∈ range n, (z j - x j) * g j := by
    rw [← sum_add_distrib]
    exact Finset.sum_congr rfl fun j _ => by ring
  rw [objective_eq, objective_eq, hform, form_add_mul fun i j _ _ => hsymm i j, hlinear, hgradient]
  ring

-- ---------------------------------------------------------------------------
-- Bounds
-- ---------------------------------------------------------------------------

namespace Core

variable {s : Core ℝ n m} {p : Tuple ℝ n → Prop} {x z : Tuple ℝ n}

/-- A point is the only one in a set at which the loaded objective is least. -/
structure Minimises (s : Core ℝ n m) (p : Tuple ℝ n → Prop) (x : Tuple ℝ n) : Prop where
  mem : p x
  least : ∀ z, p z → z ≠ x → ActiveSet.objective s.hessian s.target.gradient x <
    ActiveSet.objective s.hessian s.target.gradient z

/-- There is at most one minimum. -/
theorem Minimises.unique (hx : s.Minimises p x) (hz : s.Minimises p z) : z = x := by
  by_contra hne
  exact lt_asymm (hx.least z hz.mem hne) (hz.least x hx.mem (Ne.symm hne))

/-- A point is one that the solver looks for: an equality has the value of its lower limit, and the limits
at the finite sides hold. Types and sides are those of the last classification. -/
structure Allows (s : Core ℝ n m) (x : Tuple ℝ n) : Prop where
  equality : ∀ i : Fin n, s.bounds.limitType i = .equality → x i = s.target.lower i
  lower_le : ∀ i : Fin n, s.bounds.hasSide i .lower = true → s.target.lower i ≤ x i
  le_upper : ∀ i : Fin n, s.bounds.hasSide i .upper = true → x i ≤ s.target.upper i

end Core

-- ---------------------------------------------------------------------------
-- Bounds and constraints
-- ---------------------------------------------------------------------------

namespace Constrained

variable {s s' : Constrained ℝ n m} {x z : Tuple ℝ n}

/-- A point is one that the solver looks for, for bounds and for constraints. -/
structure Allows (s : Constrained ℝ n m) (x : Tuple ℝ n) : Prop extends s.toCore.Allows x where
  rowEquality : ∀ i : Fin m, s.constraints.limitType i = .equality →
    ∑ j ∈ range n, s.matrix i j * x j = s.target.rowLower i
  rowLower_le : ∀ i : Fin m, s.constraints.hasSide i .lower = true →
    s.target.rowLower i ≤ ∑ j ∈ range n, s.matrix i j * x j
  le_rowUpper : ∀ i : Fin m, s.constraints.hasSide i .upper = true →
    ∑ j ∈ range n, s.matrix i j * x j ≤ s.target.rowUpper i

/-- No loaded limit is overlooked: a finite one is at a side that was finite when the entity was
classified, and one of an equality is its only one. -/
structure Faithful (s : Constrained ℝ n m) : Prop where
  lower : ∀ e, s.limitType e ≠ .equality → -s.parameters.infinity < s.target.lowerOf e →
    s.hasSide .lower e = true
  upper : ∀ e, s.limitType e ≠ .equality → s.target.upperOf e < s.parameters.infinity →
    s.hasSide .upper e = true
  equality : ∀ e, s.limitType e = .equality → -s.parameters.infinity < s.target.lowerOf e ∧
    s.target.lowerOf e = s.target.upperOf e ∧ s.target.upperOf e < s.parameters.infinity

/-- No entity of the working set is held at a loaded limit that is infinite. -/
structure Held (s : Constrained ℝ n m) : Prop where
  lower : ∀ e, s.limitType e ≠ .equality → s.activity e = .lower →
    -s.parameters.infinity < s.target.lowerOf e
  upper : ∀ e, s.limitType e ≠ .equality → s.activity e = .upper →
    s.target.upperOf e < s.parameters.infinity

theorem valueOf_constraint (s : Constrained ℝ n m) (x : ℕ → ℝ) (i : Fin m) :
    s.valueOf x (.constraint i) = ∑ j ∈ range n, s.matrix i j * x j := rfl

/-- The points that a solver looks for, one condition for all entities. -/
theorem allows_iff : s.Allows x ↔
    ∀ e, (s.limitType e = .equality → s.valueOf x e = s.target.lowerOf e) ∧
      (s.hasSide .lower e = true → s.target.lowerOf e ≤ s.valueOf x e) ∧
        (s.hasSide .upper e = true → s.valueOf x e ≤ s.target.upperOf e) := by
  constructor
  · intro h e
    cases e with
    | bound i =>
      rw [valueOf_bound]
      exact ⟨h.equality i, h.lower_le i, h.le_upper i⟩
    | constraint i => exact ⟨h.rowEquality i, h.rowLower_le i, h.le_rowUpper i⟩
  · intro h
    have hbound := fun i => h (.bound i)
    simp only [valueOf_bound] at hbound
    have hrow := fun i => h (.constraint i)
    exact ⟨⟨fun i => (hbound i).1, fun i => (hbound i).2.1, fun i => (hbound i).2.2⟩,
      fun i => (hrow i).1, fun i => (hrow i).2.1, fun i => (hrow i).2.2⟩

/-- The points within the loaded limits, one condition for all entities. -/
theorem within_iff : s.Within x ↔
    ∀ e, (-s.parameters.infinity < s.target.lowerOf e → s.target.lowerOf e ≤ s.valueOf x e) ∧
      (s.target.upperOf e < s.parameters.infinity → s.valueOf x e ≤ s.target.upperOf e) := by
  constructor
  · intro h e
    cases e with
    | bound i =>
      rw [valueOf_bound]
      exact ⟨h.lower_le i, h.le_upper i⟩
    | constraint i => exact ⟨h.rowLower_le i, h.le_rowUpper i⟩
  · intro h
    have hbound := fun i => h (.bound i)
    simp only [valueOf_bound] at hbound
    have hrow := fun i => h (.constraint i)
    exact ⟨⟨fun i => (hbound i).1, fun i => (hbound i).2⟩, fun i => (hrow i).1, fun i => (hrow i).2⟩

/-- At the loaded problem the point is the only minimum over a set in which equalities have the values of
their lower limits and the limits hold at which the working set stands: the multiplier of an entity says
to which side of its limit the objective grows. -/
theorem Optimal.minimises (h : s.Optimal) (hsided : s.Sided)
    (hdefinite : Definite n s.hessian) (hsymm : s.SymmetricHessian)
    (hcurrent : s.current = s.target) {p : Tuple ℝ n → Prop} (hmem : p s.x)
    (hequality : ∀ z, p z → ∀ e, s.limitType e = .equality → s.valueOf z e = s.target.lowerOf e)
    (hlower : ∀ z, p z → ∀ e, s.limitType e ≠ .equality → s.activity e = .lower →
      s.target.lowerOf e ≤ s.valueOf z e)
    (hupper : ∀ z, p z → ∀ e, s.limitType e ≠ .equality → s.activity e = .upper →
      s.valueOf z e ≤ s.target.upperOf e) : s.Minimises p s.x := by
  refine ⟨hmem, fun z hz hne => ?_⟩
  have honLimit := h.on_limit
  have hstationary := h.stationary
  rw [hcurrent] at honLimit hstationary
  -- each multiplier times the way to `z` is nonnegative, as `z` is on the allowed side
  have hterm : ∀ e, 0 ≤ s.y.get e * (s.valueOf z e - s.valueOf s.x e) := by
    intro e
    by_cases he : s.isActive e = true
    · have hx := honLimit e he
      by_cases htype : s.limitType e = .equality
      · rw [hsided.eq_lower he htype] at hx
        rw [hx, hequality z hz e htype]
        exact (mul_eq_zero_of_right _ (sub_self _)).ge
      · cases hside : s.activity e with
        | lower =>
          rw [hside] at hx
          rw [hx]
          exact mul_nonneg (h.nonneg e hside htype) (sub_nonneg.2 (hlower z hz e htype hside))
        | upper =>
          rw [hside] at hx
          rw [hx]
          exact mul_nonneg_of_nonpos_of_nonpos (h.nonpos e hside htype)
            (sub_nonpos.2 (hupper z hz e htype hside))
        | inactive =>
          rw [isActive, hside] at he
          cases he
        | undefined =>
          rw [isActive, hside] at he
          cases he
    · rw [h.inactive e (by simpa using he), zero_mul]
  have hway : ∀ e, s.valueOf (fun j => z j - s.x j) e = s.valueOf z e - s.valueOf s.x e := by
    intro e
    simp only [valueOf, mul_sub, sum_sub_distrib]
  -- so the objective has no descent along that way, and it is curved upwards
  have hgradient : 0 ≤ ∑ j ∈ range n,
      (∑ k ∈ range n, s.hessian j k * s.x k + s.target.gradient j) * (z j - s.x j) := by
    rw [sum_mul_valueOf hstationary fun j => z j - s.x j]
    refine sum_nonneg fun e _ => ?_
    rw [hway]
    exact hterm e
  have hcurvature : 0 < form n s.hessian fun j => z j - s.x j := by
    refine hdefinite _ ?_
    by_contra hnone
    refine hne (Tuple.ext fun j hj => ?_)
    by_contra hj'
    exact hnone ⟨j, hj, sub_ne_zero.2 hj'⟩
  have hexpand := objective_add hsymm s.target.gradient s.x z
  linarith

/-- At the loaded problem the point is one that the solver looks for. -/
theorem Optimal.allows (h : s.Optimal) (hs : s.InStep) (hsided : s.Sided)
    (hcurrent : s.current = s.target) : s.Allows s.x := by
  have hlower := h.lower_le
  have hupper := h.le_upper
  rw [hcurrent] at hlower hupper
  refine allows_iff.2 fun e => ⟨fun htype => ?_, hlower e, hupper e⟩
  have hactive := hs.isActive_of_equality htype
  have honLimit := h.on_limit e hactive
  rwa [hsided.eq_lower hactive htype, hcurrent] at honLimit

/-- It is the only minimum over these points. -/
theorem Optimal.minimises_allows (h : s.Optimal) (hs : s.InStep) (hsided : s.Sided)
    (hdefinite : Definite n s.hessian) (hsymm : s.SymmetricHessian)
    (hcurrent : s.current = s.target) : s.Minimises s.Allows s.x := by
  refine h.minimises hsided hdefinite hsymm hcurrent (h.allows hs hsided hcurrent)
    (fun z hz e => (allows_iff.1 hz e).1) (fun z hz e htype hside => ?_)
    fun z hz e htype hside => ?_
  · exact (allows_iff.1 hz e).2.1 (hsided.hasSide hside rfl htype)
  · exact (allows_iff.1 hz e).2.2 (hsided.hasSide hside rfl htype)

/-- If no limit is overlooked, and no infinite one held, the point is the only minimum within the loaded
limits. -/
theorem Optimal.minimises_within (h : s.Optimal) (hs : s.InStep) (hsided : s.Sided)
    (hdefinite : Definite n s.hessian) (hsymm : s.SymmetricHessian)
    (hcurrent : s.current = s.target) (hfaithful : s.Faithful) (hheld : s.Held) :
    s.Minimises s.Within s.x := by
  have hallows := allows_iff.1 (h.allows hs hsided hcurrent)
  refine h.minimises hsided hdefinite hsymm hcurrent (within_iff.2 fun e => ?_)
    (fun z hz e htype => ?_) (fun z hz e htype hside => ?_) fun z hz e htype hside => ?_
  · obtain ⟨hequality, hlower, hupper⟩ := hallows e
    by_cases htype : s.limitType e = .equality
    · rw [hequality htype]
      exact ⟨fun _ => le_rfl, fun _ => (hfaithful.equality e htype).2.1.le⟩
    · exact ⟨fun hfinite => hlower (hfaithful.lower e htype hfinite),
        fun hfinite => hupper (hfaithful.upper e htype hfinite)⟩
  · obtain ⟨hlower, hequal, hupper⟩ := hfaithful.equality e htype
    have hz := within_iff.1 hz e
    exact le_antisymm ((hz.2 hupper).trans_eq hequal.symm) (hz.1 hlower)
  · exact (within_iff.1 hz e).1 (hheld.lower e htype hside)
  · exact (within_iff.1 hz e).2 (hheld.upper e htype hside)

/-- Right after a classification no limit is overlooked and no infinite one held, if the limits of every
equality are equal and finite. -/
theorem Typed.faithful (h : s.Typed)
    (hequality : ∀ e, s.limitType e = .equality → -s.parameters.infinity < s.target.lowerOf e ∧
      s.target.lowerOf e = s.target.upperOf e ∧ s.target.upperOf e < s.parameters.infinity) :
    s.Faithful :=
  ⟨fun e _ => (h e).2.1.2, fun e _ => (h e).2.2.2, hequality⟩

theorem Typed.held (h : s.Typed) (hsided : s.Sided) : s.Held :=
  ⟨fun e htype hside => (h e).2.1.1 (hsided.hasSide hside rfl htype),
    fun e htype hside => (h e).2.2.1 (hsided.hasSide hside rfl htype)⟩

end Constrained

end ActiveSet
