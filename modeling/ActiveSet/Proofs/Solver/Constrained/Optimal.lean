import ActiveSet.Proofs.Solver.Constrained.Factored
import ActiveSet.Proofs.Solver.Constrained.Session
import Mathlib.Algebra.BigOperators.Fin

/-!
# Optimality over the real numbers

A bound is a constraint whose row is a unit vector, so one and the same formula speaks of both:
`row` is the row of an entity, `valueOf` its product with a point, and limits, types and multipliers
are looked up by entity as well.

`Optimal` says that point and multipliers solve the current problem for the working set, exactly. It
is what a homotopy keeps. The set-up of an auxiliary problem provides it, by its choice of the
gradient and of the limits (`SetUp.optimal`).
-/

namespace ActiveSet

open Finset

variable {K : Type} {n m : ℕ}

-- ---------------------------------------------------------------------------
-- Entities
-- ---------------------------------------------------------------------------

/-- Bounds and constraints side by side. -/
def Entity.equivSum (n m : ℕ) : Entity n m ≃ Fin n ⊕ Fin m where
  toFun
    | .bound i => .inl i
    | .constraint i => .inr i
  invFun
    | .inl i => .bound i
    | .inr i => .constraint i
  left_inv e := by cases e <;> rfl
  right_inv e := by cases e <;> rfl

instance : Fintype (Entity n m) := Fintype.ofEquiv _ (Entity.equivSum n m).symm

/-- A sum over all entities is one over the bounds and one over the constraints. -/
theorem Entity.sum_eq {M : Type} [AddCommMonoid M] (f : Entity n m → M) :
    ∑ e, f e = ∑ i, f (.bound i) + ∑ i, f (.constraint i) := by
  rw [← Equiv.sum_comp (Entity.equivSum n m).symm f, Fintype.sum_sum_type]
  rfl

namespace Data

variable [Zero K]

/-- The lower limit of an entity. -/
def lowerOf (d : Data K n m) : Entity n m → K
  | .bound i => d.lower i
  | .constraint i => d.rowLower i

/-- The upper limit of an entity. -/
def upperOf (d : Data K n m) : Entity n m → K
  | .bound i => d.upper i
  | .constraint i => d.rowUpper i

/-- The limit of an entity at a side. -/
def limitOf (d : Data K n m) (side : Activity) (e : Entity n m) : K :=
  if side = .upper then d.upperOf e else d.lowerOf e

theorem limitOf_lower (d : Data K n m) (e : Entity n m) : d.limitOf .lower e = d.lowerOf e := rfl

theorem limitOf_upper (d : Data K n m) (e : Entity n m) : d.limitOf .upper e = d.upperOf e := rfl

end Data

/-- The limits on the way move linearly. -/
theorem Data.limitOf_addScaled (a : ℝ) (d d' : Data ℝ n m) (side : Activity) (e : Entity n m) :
    (Data.addScaled a d d').limitOf side e = d'.limitOf side e + a * d.limitOf side e := by
  unfold limitOf
  cases e with
  | bound i => split <;> exact Tuple.addScaled_apply _ _ _ i.isLt
  | constraint i => split <;> exact Tuple.addScaled_apply _ _ _ i.isLt

theorem Data.limitOf_sub (d d' : Data ℝ n m) (side : Activity) (e : Entity n m) :
    (d.sub d').limitOf side e = d.limitOf side e - d'.limitOf side e := by
  unfold limitOf
  cases e with
  | bound i => split <;> exact Tuple.sub_apply _ _ i.isLt
  | constraint i => split <;> exact Tuple.sub_apply _ _ i.isLt

theorem Dual.get_addScaled (a : ℝ) (y z : Dual ℝ n m) (e : Entity n m) :
    (Dual.addScaled a y z).get e = z.get e + a * y.get e := by
  cases e with
  | bound i => exact Tuple.addScaled_apply _ _ _ i.isLt
  | constraint i => exact Tuple.addScaled_apply _ _ _ i.isLt

theorem Dual.get_set (y : Dual ℝ n m) (e e' : Entity n m) (a : ℝ) :
    (y.set e a).get e' = if e' = e then a else y.get e' := by
  cases e with
  | bound i =>
    cases e' with
    | bound j =>
      show (y.bound.set i a) j = _
      rw [Tuple.set_apply _ _ _ j.isLt]
      simp only [Entity.bound.injEq, Fin.ext_iff]
      rfl
    | constraint j => rfl
  | constraint i =>
    cases e' with
    | bound j => rfl
    | constraint j =>
      show (y.row.set i a) j = _
      rw [Tuple.set_apply _ _ _ j.isLt]
      simp only [Entity.constraint.injEq, Fin.ext_iff]
      rfl

/-- Multipliers are those of all entities. -/
theorem Dual.ext_get {y z : Dual ℝ n m} (h : ∀ e, y.get e = z.get e) : y = z := by
  obtain ⟨bound, row⟩ := y
  obtain ⟨bound', row'⟩ := z
  rw [Dual.mk.injEq]
  exact ⟨Tuple.ext fun i hi => h (.bound ⟨i, hi⟩), Tuple.ext fun i hi => h (.constraint ⟨i, hi⟩)⟩

/-- The limits of the auxiliary problem hold at the value around which they are laid, and those of
an active entity go through it. -/
theorem auxiliaryLimits_spec {p : Parameters ℝ} {type : LimitType} {lower upper : ℝ}
    (activity : Activity) (value : ℝ) (hrelaxation : 0 ≤ p.relaxation)
    (htype : type = EntitySet.typeOfLimits lower upper p.epsBound p.infinity) :
    let l := auxiliaryLimits p type activity value lower upper
    (type = .equality → l.1 = value ∧ l.2 = value) ∧
      (type = .bounded → (activity = .lower → l.1 = value) ∧ (activity = .upper → l.2 = value)) ∧
        (-p.infinity < lower → l.1 ≤ value) ∧ (upper < p.infinity → value ≤ l.2) := by
  intro l
  cases type with
  | equality => exact ⟨fun _ => ⟨rfl, rfl⟩, nofun, fun _ => le_refl value, fun _ => le_refl value⟩
  | unknown => exact absurd htype.symm (EntitySet.typeOfLimits_ne_unknown _ _)
  | unbounded =>
    obtain ⟨hlower, hupper⟩ : lower ≤ -p.infinity ∧ p.infinity ≤ upper := by
      by_contra hnot
      unfold EntitySet.typeOfLimits at htype
      rw [if_neg hnot] at htype
      split at htype <;> cases htype
    exact ⟨nofun, nofun, fun h => absurd h (not_lt.2 hlower), fun h => absurd h (not_lt.2 hupper)⟩
  | bounded =>
    -- the limits of an auxiliary problem are moved out of the way of the value
    have hbelow : -p.infinity < lower →
        (if -p.infinity < lower then value - p.relaxation else -p.infinity) ≤ value := by
      intro h
      rw [if_pos h]
      exact sub_le_self value hrelaxation
    have habove : upper < p.infinity →
        value ≤ if upper < p.infinity then value + p.relaxation else p.infinity := by
      intro h
      rw [if_pos h]
      exact le_add_of_nonneg_right hrelaxation
    refine ⟨nofun, fun _ => ?_, ?_⟩
    · cases activity with
      | lower => exact ⟨fun _ => rfl, nofun⟩
      | upper => exact ⟨nofun, fun _ => rfl⟩
      | inactive => exact ⟨nofun, nofun⟩
      | undefined => exact ⟨nofun, nofun⟩
    · cases activity with
      | lower => exact ⟨fun _ => le_refl value, habove⟩
      | upper => exact ⟨hbelow, fun _ => le_refl value⟩
      | inactive => exact ⟨hbelow, habove⟩
      | undefined => exact ⟨hbelow, habove⟩

/-- A multiplier is cut down to the sign that an activity admits. -/
theorem admissible_spec {type : LimitType} (activity : Activity) (multiplier : ℝ)
    (guess : Option ℝ) (htype : type ≠ .equality) :
    (activity.isActive = false → admissible type activity multiplier guess = 0) ∧
      (activity = .lower → 0 ≤ admissible type activity multiplier guess) ∧
        (activity = .upper → admissible type activity multiplier guess ≤ 0) := by
  unfold admissible
  rw [if_neg htype]
  cases activity with
  | lower => exact ⟨nofun, fun _ => le_max_right _ _, nofun⟩
  | upper => exact ⟨nofun, nofun, fun _ => min_le_right _ _⟩
  | inactive => exact ⟨fun _ => rfl, nofun, nofun⟩
  | undefined => exact ⟨fun _ => rfl, nofun, nofun⟩

/-- What a guess takes into the working set has a limit. -/
theorem type_of_guessedActivity [Scalar K] {p : Parameters K} {type : LimitType} {lower upper : K}
    {value multiplier : Option K}
    (h : (guessedActivity p type lower upper value multiplier).isActive = true) :
    type = .bounded ∨ type = .equality := by
  cases type with
  | bounded => exact .inl rfl
  | equality => exact .inr rfl
  | unbounded => cases h
  | unknown => cases h

theorem Core.type_of_startingSide [Scalar K] {s : Core K n m} {guess : Guess K n m} {i : Fin n}
    (h : (s.startingSide guess i).isActive = true) :
    s.bounds.limitType i = .bounded ∨ s.bounds.limitType i = .equality := by
  unfold startingSide at h
  dsimp only at h
  split at h
  · next hsemidefinite => exact .inl hsemidefinite.2.2
  · exact type_of_guessedActivity h

namespace Constrained

section Queries

variable (s : Constrained K n m)

/-- Whether an entity is in the working set. -/
def isActive (e : Entity n m) : Bool := (s.activity e).isActive

/-- Whether an entity had a finite limit at a side when it was classified. -/
def hasSide (side : Activity) : Entity n m → Bool
  | .bound i => s.bounds.hasSide i side
  | .constraint i => s.constraints.hasSide i side

end Queries

-- ---------------------------------------------------------------------------
-- Rows and values
-- ---------------------------------------------------------------------------

variable {s s' : Constrained ℝ n m} {guess : Guess ℝ n m}

/-- The row of an entity: that of the matrix for a constraint, and a unit vector for a bound. -/
def row (s : Constrained ℝ n m) : Entity n m → ℕ → ℝ
  | .bound i, j => if j = i then 1 else 0
  | .constraint i, j => s.matrix i j

/-- The value of an entity at a point. -/
noncomputable def valueOf (s : Constrained ℝ n m) (x : ℕ → ℝ) (e : Entity n m) : ℝ :=
  ∑ j ∈ range n, s.row e j * x j

theorem valueOf_bound (s : Constrained ℝ n m) (x : ℕ → ℝ) (i : Fin n) :
    s.valueOf x (.bound i) = x i := by
  have hother : ∀ j ∈ range n, j ≠ (i : ℕ) → s.row (.bound i) j * x j = 0 := by
    intro j _ hne
    rw [row, if_neg hne, zero_mul]
  have hnot : (i : ℕ) ∉ range n → s.row (.bound i) i * x i = 0 :=
    fun hnot => absurd (mem_range.2 i.isLt) hnot
  rw [valueOf, sum_eq_single _ hother hnot, row, if_pos rfl, one_mul]

theorem valueOf_add_mul (s : Constrained ℝ n m) (x z : ℕ → ℝ) (a : ℝ) (e : Entity n m) :
    s.valueOf (fun j => x j + a * z j) e = s.valueOf x e + a * s.valueOf z e := by
  unfold valueOf
  rw [mul_sum, ← sum_add_distrib]
  exact Finset.sum_congr rfl fun j _ => by ring

theorem valueOf_congr {x z : ℕ → ℝ} (h : ∀ j, j < n → x j = z j) (e : Entity n m) :
    s.valueOf x e = s.valueOf z e :=
  Finset.sum_congr rfl fun j hj => by rw [h j (mem_range.1 hj)]

theorem SameData.row_eq (h : s.SameData s') : s'.row = s.row := by
  funext e j
  cases e with
  | bound i => rfl
  | constraint i => exact congrArg (fun A : Grid ℝ m n => A i j) h.matrix

theorem SameData.valueOf_eq (h : s.SameData s') (x : ℕ → ℝ) (e : Entity n m) :
    s'.valueOf x e = s.valueOf x e := by
  rw [valueOf, valueOf, h.row_eq]

/-- The combination of all rows is that of the unit vectors and that of the matrix. -/
theorem sum_mul_row (s : Constrained ℝ n m) (c : Entity n m → ℝ) {j : ℕ} (hj : j < n) :
    ∑ e, c e * s.row e j =
      c (.bound ⟨j, hj⟩) + ∑ i : Fin m, c (.constraint i) * s.matrix i j := by
  rw [Entity.sum_eq]
  congr 1
  rw [sum_eq_single (⟨j, hj⟩ : Fin n)]
  · show c (.bound ⟨j, hj⟩) * (if j = j then 1 else 0) = _
    rw [if_pos rfl, mul_one]
  · intro i _ hne
    show c (.bound i) * (if j = (i : ℕ) then 1 else 0) = 0
    rw [if_neg fun h => hne (Fin.ext h.symm), mul_zero]
  · intro hnot
    exact absurd (mem_univ _) hnot

/-- If a row is a combination of rows, its value is that combination of their values. -/
theorem sum_mul_valueOf {c : Entity n m → ℝ} {r : ℕ → ℝ}
    (h : ∀ j, j < n → r j = ∑ e, c e * s.row e j) (x : ℕ → ℝ) :
    ∑ j ∈ range n, r j * x j = ∑ e, c e * s.valueOf x e := by
  have hentry : ∀ j ∈ range n, r j * x j = ∑ e, c e * (s.row e j * x j) := by
    intro j hj
    rw [h j (mem_range.1 hj), sum_mul]
    exact Finset.sum_congr rfl fun e _ => mul_assoc _ _ _
  rw [Finset.sum_congr rfl hentry, sum_comm]
  exact Finset.sum_congr rfl fun e _ => (mul_sum _ _ _).symm

-- ---------------------------------------------------------------------------
-- Optimality
-- ---------------------------------------------------------------------------

/-- All entities have been classified, and point and multipliers solve the current problem for the
working set. -/
structure Optimal (s : Constrained ℝ n m) : Prop where
  defined : ∀ e, s.activity e ≠ .undefined
  limited : ∀ e side, s.hasSide side e = true → s.limitType e ≠ .unbounded
  stationary : ∀ j, j < n → ∑ k ∈ range n, s.hessian j k * s.x k + s.current.gradient j =
    ∑ e, s.y.get e * s.row e j
  ax_eq : ∀ i : Fin m, s.ax i = s.valueOf s.x (.constraint i)
  on_limit : ∀ e, s.isActive e = true → s.valueOf s.x e = s.current.limitOf (s.activity e) e
  lower_le : ∀ e, s.hasSide .lower e = true → s.current.lowerOf e ≤ s.valueOf s.x e
  le_upper : ∀ e, s.hasSide .upper e = true → s.valueOf s.x e ≤ s.current.upperOf e
  inactive : ∀ e, s.isActive e = false → s.y.get e = 0
  nonneg : ∀ e, s.activity e = .lower → s.limitType e ≠ .equality → 0 ≤ s.y.get e
  nonpos : ∀ e, s.activity e = .upper → s.limitType e ≠ .equality → s.y.get e ≤ 0

/-- Types and finite sides of all entities are those of the loaded limits. -/
def Typed (s : Constrained ℝ n m) : Prop :=
  ∀ e, s.limitType e = EntitySet.typeOfLimits (s.target.lowerOf e) (s.target.upperOf e)
      s.parameters.epsBound s.parameters.infinity ∧
    (s.hasSide .lower e = true ↔ -s.parameters.infinity < s.target.lowerOf e) ∧
    (s.hasSide .upper e = true ↔ s.target.upperOf e < s.parameters.infinity)

/-- An entity with a finite side is not unbounded. -/
theorem Typed.limited (h : s.Typed) (e : Entity n m) (side : Activity)
    (hside : s.hasSide side e = true) : s.limitType e ≠ .unbounded := by
  obtain ⟨htype, hlower, hupper⟩ := h e
  rw [htype]
  intro heq
  have hnone : s.target.lowerOf e ≤ -s.parameters.infinity ∧
      s.parameters.infinity ≤ s.target.upperOf e := by
    by_contra hnot
    unfold EntitySet.typeOfLimits at heq
    rw [if_neg hnot] at heq
    split at heq <;> cases heq
  cases side with
  | lower => exact absurd (hlower.1 hside) (not_lt.2 hnone.1)
  | upper => exact absurd (hupper.1 hside) (not_lt.2 hnone.2)
  | inactive => cases e <;> simp [hasSide, EntitySet.hasSide] at hside
  | undefined => cases e <;> simp [hasSide, EntitySet.hasSide] at hside

/-- What optimality looks at is the same, apart from the order of the factorizations. -/
theorem Optimal.congr (h : s.Optimal) (hb : s'.bounds = s.bounds)
    (hc : s'.constraints = s.constraints) (hH : s'.hessian = s.hessian)
    (hA : s'.matrix = s.matrix) (hcurrent : s'.current = s.current) (hx : s'.x = s.x)
    (hy : s'.y = s.y) (hax : s'.ax = s.ax) : s'.Optimal := by
  -- what the conditions are about depends on these parts of the state only
  have hrow : s'.row = s.row := by
    funext e j
    cases e with
    | bound i => rfl
    | constraint i => exact congrArg (fun A : Grid ℝ m n => A i j) hA
  have hvalue : ∀ x e, s'.valueOf x e = s.valueOf x e := fun x e => by
    rw [valueOf, valueOf, hrow]
  have hactivity : s'.activity = s.activity := by
    funext e
    cases e with
    | bound i => exact congrArg (fun b => EntitySet.activity b i) hb
    | constraint i => exact congrArg (fun c => EntitySet.activity c i) hc
  have htype : s'.limitType = s.limitType := by
    funext e
    cases e with
    | bound i => exact congrArg (fun b => EntitySet.limitType b i) hb
    | constraint i => exact congrArg (fun c => EntitySet.limitType c i) hc
  have hside : s'.hasSide = s.hasSide := by
    funext side e
    cases e with
    | bound i => exact congrArg (fun b => EntitySet.hasSide b i side) hb
    | constraint i => exact congrArg (fun c => EntitySet.hasSide c i side) hc
  have hactive : s'.isActive = s.isActive := by
    funext e
    rw [isActive, isActive, hactivity]
  refine ⟨?_, ?_, ?_, ?_, ?_, ?_, ?_, ?_, ?_, ?_⟩
  · rw [hactivity]
    exact h.defined
  · rw [hside, htype]
    exact h.limited
  · rw [hH, hx, hcurrent, hy, hrow]
    exact h.stationary
  · rw [hx, hax]
    simp only [hvalue]
    exact h.ax_eq
  · rw [hx, hcurrent, hactive, hactivity]
    simp only [hvalue]
    exact h.on_limit
  · rw [hx, hcurrent, hside]
    simp only [hvalue]
    exact h.lower_le
  · rw [hx, hcurrent, hside]
    simp only [hvalue]
    exact h.le_upper
  · rw [hy, hactive]
    exact h.inactive
  · rw [hy, hactivity, htype]
    exact h.nonneg
  · rw [hy, hactivity, htype]
    exact h.nonpos

-- ---------------------------------------------------------------------------
-- The auxiliary problem
-- ---------------------------------------------------------------------------

/-- A state around which an auxiliary problem can be made up: the working set consists of entities
with limits, and the multipliers have the signs that it asks for. -/
structure Poised (s : Constrained ℝ n m) : Prop where
  defined : ∀ e, s.activity e ≠ .undefined
  typed : s.Typed
  ax_eq : ∀ i : Fin m, s.ax i = s.valueOf s.x (.constraint i)
  type_of_active : ∀ e, s.isActive e = true → s.limitType e = .bounded ∨ s.limitType e = .equality
  inactive : ∀ e, s.isActive e = false → s.y.get e = 0
  nonneg : ∀ e, s.activity e = .lower → s.limitType e ≠ .equality → 0 ≤ s.y.get e
  nonpos : ∀ e, s.activity e = .upper → s.limitType e ≠ .equality → s.y.get e ≤ 0

/-- The state with the auxiliary problem. -/
noncomputable def withAuxiliary (s : Constrained ℝ n m) : Constrained ℝ n m :=
  { s with toCore := s.toCore.auxiliaryData }.auxiliaryRowData

/-- The gradient of the auxiliary problem makes point and multipliers stationary. -/
theorem withAuxiliary_gradient (hsymm : s.SymmetricHessian) {j : ℕ}
    (hj : j < n) : ∑ k ∈ range n, s.hessian j k * s.x k + s.withAuxiliary.current.gradient j =
      ∑ e, s.y.get e * s.row e j := by
  have hcurvature : s.hessian.combine 1 s.x 0 s.current.gradient j =
      ∑ k ∈ range n, s.hessian j k * s.x k := by
    rw [Grid.combine_apply _ _ _ _ _ hj, accumulate_eq_sum, zero_mul, zero_add]
    refine Finset.sum_congr rfl fun k _ => ?_
    rw [one_mul, hsymm k j, mul_comm]
  have hgradient : s.withAuxiliary.current.gradient j =
      s.y.bound j - ∑ k ∈ range n, s.hessian j k * s.x k +
        ∑ i ∈ range m, s.y.row i * s.matrix i j := by
    show s.matrix.combine 1 s.y.row 1 (Tuple.addScaled 1 s.y.bound
      ((s.hessian.combine 1 s.x 0 s.current.gradient).scale (-1))) j = _
    rw [Grid.combine_apply _ _ _ _ _ hj, accumulate_eq_sum, Tuple.addScaled_apply _ _ _ hj,
      Tuple.scale_apply _ _ hj, hcurvature]
    simp only [one_mul]
    ring
  rw [hgradient, s.sum_mul_row s.y.get hj, Finset.sum_range fun i => s.y.row i * s.matrix i j]
  show _ = s.y.bound j + ∑ i : Fin m, s.y.row i * s.matrix i j
  ring

/-- The limits of the auxiliary problem are laid around the values of the entities. -/
theorem withAuxiliary_limits (hax : ∀ i : Fin m, s.ax i = s.valueOf s.x (.constraint i))
    (e : Entity n m) :
    (s.withAuxiliary.current.lowerOf e, s.withAuxiliary.current.upperOf e) =
      auxiliaryLimits s.parameters (s.limitType e) (s.activity e) (s.valueOf s.x e)
        (s.target.lowerOf e) (s.target.upperOf e) := by
  cases e with
  | bound i =>
    rw [valueOf_bound]
    exact Prod.ext (Tuple.ofFn_apply i.isLt) (Tuple.ofFn_apply i.isLt)
  | constraint i =>
    rw [← hax i]
    exact Prod.ext (Tuple.ofFn_apply i.isLt) (Tuple.ofFn_apply i.isLt)

/-- The auxiliary problem is solved by construction. -/
theorem Poised.optimal (h : s.Poised) (hsymm : s.SymmetricHessian)
    (hrelaxation : 0 ≤ s.parameters.relaxation) : s.withAuxiliary.Optimal := by
  have hspec := fun e => auxiliaryLimits_spec (s.activity e) (s.valueOf s.x e) hrelaxation (h.typed e).1
  simp only [← withAuxiliary_limits h.ax_eq] at hspec
  refine ⟨h.defined, h.typed.limited, fun j hj => withAuxiliary_gradient hsymm hj, h.ax_eq,
    fun e he => ?_, fun e he => ?_, fun e he => ?_, h.inactive, h.nonneg, h.nonpos⟩
  · -- an active entity has a limit that is moved to its value
    obtain ⟨hequality, hbounded, -⟩ := hspec e
    show s.valueOf s.x e = s.withAuxiliary.current.limitOf (s.activity e) e
    rcases h.type_of_active e he with htype | htype
    · obtain ⟨hlower, hupper⟩ := hbounded htype
      change (s.activity e).isActive = true at he
      cases hactivity : s.activity e with
      | lower => exact (hlower hactivity).symm
      | upper => exact (hupper hactivity).symm
      | inactive =>
        rw [hactivity] at he
        cases he
      | undefined =>
        rw [hactivity] at he
        cases he
    · obtain ⟨hlower, hupper⟩ := hequality htype
      unfold Data.limitOf
      split
      · exact hupper.symm
      · exact hlower.symm
  · -- an inactive one has limits that are moved out of the way
    exact (hspec e).2.2.1 ((h.typed e).2.1.1 he)
  · exact (hspec e).2.2.2 ((h.typed e).2.2.1 he)

/-- Types and finite sides, and what they are compared with, are the same. -/
theorem Typed.congr (h : s.Typed) (hb : s'.bounds.types = s.bounds.types)
    (hbf : s'.bounds.finite = s.bounds.finite)
    (hc : s'.constraints.types = s.constraints.types)
    (hcf : s'.constraints.finite = s.constraints.finite) (hp : s'.parameters = s.parameters)
    (htarget : s'.target = s.target) : s'.Typed := by
  intro e
  rw [hp, htarget]
  cases e with
  | bound i =>
    have hi := h (.bound i)
    simp only [limitType, hasSide, EntitySet.limitType, EntitySet.hasSide] at hi ⊢
    rwa [hb, hbf]
  | constraint i =>
    have hi := h (.constraint i)
    simp only [limitType, hasSide, EntitySet.limitType, EntitySet.hasSide] at hi ⊢
    rwa [hc, hcf]

/-- All entities have been classified by the loaded limits. -/
theorem Started.typed (h : s.Started guess s') : s'.Typed := by
  have hdata := h.sameData
  intro e
  rw [hdata.parameters, hdata.target]
  cases e with
  | bound i =>
    obtain ⟨-, htype, hsides⟩ := h.bounds.classifiedBy i
    refine ⟨htype, ?_, ?_⟩
    · show s'.bounds.hasSide i .lower = true ↔ _
      rw [EntitySet.hasSide_lower, hsides]
      exact decide_eq_true_iff
    · show s'.bounds.hasSide i .upper = true ↔ _
      rw [EntitySet.hasSide_upper, hsides]
      exact decide_eq_true_iff
  | constraint i =>
    obtain ⟨-, htype, hsides⟩ := h.rows i
    refine ⟨htype, ?_, ?_⟩
    · show s'.constraints.hasSide i .lower = true ↔ _
      rw [EntitySet.hasSide_lower, hsides]
      exact decide_eq_true_iff
    · show s'.constraints.hasSide i .upper = true ↔ _
      rw [EntitySet.hasSide_upper, hsides]
      exact decide_eq_true_iff

/-- The point is the guessed one, and the multipliers are the guessed ones as far as the working set admits
them. -/
theorem SetUp.guessed (h : s.SetUp guess s') : s'.x = guess.x.getD (s.x.scale 0) ∧
    ∀ e, s'.y.get e = admissible (s'.limitType e) (s'.activity e) ((guess.y.getD (s.y.scale 0)).get e)
      (guess.y.map fun y => y.get e) := by
  obtain ⟨s1, s2, s3, hstarted, hrows, hfactorized, -, rfl⟩ := h.stages
  have hframe := hstarted.bounds.frame
  have hbound : ∀ i : Fin n, s1.y.bound i = admissible (s1.bounds.limitType i) (s1.bounds.activity i)
      ((guess.y.getD (s.y.scale 0)).bound i) (guess.y.map fun y => y.bound i) := by
    intro i
    rw [hframe]
    exact Tuple.ofFn_apply i.isLt
  have hrow : s1.y.row = (guess.y.getD (s.y.scale 0)).row := by rw [hframe]
  obtain ⟨constraints, nullSpace, active, rfl⟩ := hrows.frame
  have hx : s1.x = guess.x.getD (s.x.scale 0) := by rw [hframe]
  have hmultiplier : ∀ i : Fin m, (Constrained.withAdmissibleRows
      { s1 with constraints, nullSpace, active } guess).y.row i =
        admissible (constraints.limitType i) (constraints.activity i)
          ((guess.y.getD (s.y.scale 0)).row i) (guess.y.map fun y => y.row i) := by
    intro i
    rw [← hrow]
    exact Tuple.ofFn_apply i.isLt
  cases hfactorized <;> refine ⟨hx, fun e => ?_⟩ <;> cases e with
  | bound i => exact hbound i
  | constraint i => exact hmultiplier i

/-- An entity is active on the side that the guess asked for, if its type has one. -/
theorem Started.sided (h : s.Started guess s') {s2 : Constrained ℝ n m}
    (hrows : s'.RowsActivated guess s2 []) (e : Entity n m) : s2.activity e ≠ .undefined ∧
      (s2.isActive e = true → s2.limitType e = .bounded ∨ s2.limitType e = .equality) := by
  have hbounds := h.bounds
  have hactivity := hrows.activity
  have htypes := hrows.types
  obtain ⟨constraints, nullSpace, active, rfl⟩ := hrows.frame
  cases e with
  | bound i =>
    show s'.bounds.activity i ≠ .undefined ∧ ((s'.bounds.activity i).isActive = true → _)
    rw [hbounds.activity_eq]
    exact ⟨Core.startingSide_ne_undefined _ _ i, Core.type_of_startingSide⟩
  | constraint i =>
    show constraints.activity i ≠ .undefined ∧ ((constraints.activity i).isActive = true →
      constraints.limitType i = .bounded ∨ constraints.limitType i = .equality)
    rcases hactivity i with hinactive | hside
    · rw [hinactive]
      exact ⟨nofun, nofun⟩
    · rw [hside, EntitySet.limitType, show constraints.types = s'.constraints.types from htypes]
      exact ⟨Core.guessedActivity_ne_undefined _ _ _ _ _ _, type_of_guessedActivity⟩

/-- Multipliers that have been cut down have the signs that the working set asks for. -/
theorem signs_of_admissible (hequality : ∀ e, s.limitType e = .equality → s.isActive e = true)
    (hget : ∀ e, ∃ a g, s.y.get e = admissible (s.limitType e) (s.activity e) a g) :
    (∀ e, s.isActive e = false → s.y.get e = 0) ∧
      (∀ e, s.activity e = .lower → s.limitType e ≠ .equality → 0 ≤ s.y.get e) ∧
      ∀ e, s.activity e = .upper → s.limitType e ≠ .equality → s.y.get e ≤ 0 := by
  refine ⟨fun e he => ?_, fun e hside htype => ?_, fun e hside htype => ?_⟩
  · obtain ⟨a, g, h⟩ := hget e
    rw [h]
    refine (admissible_spec _ a g fun htype => ?_).1 he
    rw [hequality e htype] at he
    cases he
  · obtain ⟨a, g, h⟩ := hget e
    rw [h]
    exact (admissible_spec _ a g htype).2.1 hside
  · obtain ⟨a, g, h⟩ := hget e
    rw [h]
    exact (admissible_spec _ a g htype).2.2 hside

/-- An auxiliary problem is made up once the entities have been classified and the multipliers have
been cut down. -/
theorem SetUp.poised (h : s.SetUp guess s') : ∃ t : Constrained ℝ n m, t.Poised ∧
    s.SameData t ∧ s' = { t.withAuxiliary with status := .auxiliarySolved } := by
  obtain ⟨s1, s2, t, hstarted, hrows, hfactorized, hstep, rfl⟩ := h.stages
  -- an equality is active, so the multipliers that were guessed have the right signs
  have hequality : ∀ e, t.limitType e = .equality → t.isActive e = true := by
    intro e he
    cases e with
    | bound i => exact hstep.classified.equality i he
    | constraint i => exact hstep.equality i he
  obtain ⟨hinactive, hnonneg, hnonpos⟩ := signs_of_admissible hequality
    fun e => ⟨_, _, h.guessed.2 e⟩
  have hsided := hstarted.sided hrows
  have htypes := hrows.types
  have hfinite := hrows.finite
  refine ⟨t, ?_, hstarted.sameData.trans ?_, rfl⟩
  all_goals
    obtain ⟨constraints, nullSpace, active, rfl⟩ := hrows.frame
    obtain ⟨factor, rfl⟩ : ∃ factor, t = { ({ s1 with constraints, nullSpace, active } :
        Constrained ℝ n m).withAdmissibleRows guess with factor } := by
      cases hfactorized <;> exact ⟨_, rfl⟩
  · refine ⟨fun e => (hsided e).1, hstarted.typed.congr rfl rfl htypes hfinite rfl rfl,
      fun i => ?_, fun e => (hsided e).2, hinactive, hnonneg, hnonpos⟩
    show s1.ax i = _
    rw [hstarted.ax_eq, Grid.apply_apply _ _ _ _ _ i.isLt, dot_eq_sum, one_mul, zero_mul, add_zero,
      ← hstarted.sameData.matrix]
    rfl
  · exact ⟨rfl, rfl, rfl, rfl, rfl⟩

/-- An auxiliary problem starts with its solution, and the loaded limits can be reached from it. -/
theorem SetUp.optimal (h : s.SetUp guess s') (hsymm : s.SymmetricHessian)
    (hrelaxation : 0 ≤ s.parameters.relaxation) : s'.Optimal ∧ s'.Typed := by
  obtain ⟨t, hpoised, hdata, rfl⟩ := h.poised
  have hsymm' : t.SymmetricHessian := by
    intro i j
    rw [hdata.hessian]
    exact hsymm i j
  have hoptimal := hpoised.optimal hsymm' (by rw [hdata.parameters]; exact hrelaxation)
  exact ⟨hoptimal.congr rfl rfl rfl rfl rfl rfl rfl rfl,
    hpoised.typed.congr rfl rfl rfl rfl rfl rfl⟩

/-- The loaded limits of an auxiliary problem do not cross. -/
theorem SetUp.ordered (h : s.SetUp guess s') (e : Entity n m) :
    s.target.lowerOf e ≤ s.target.upperOf e := by
  obtain ⟨s1, s2, s3, hstarted, -⟩ := h.stages
  cases e with
  | bound i => exact not_lt.1 (hstarted.bounds.classifiedBy i).1
  | constraint i => exact not_lt.1 (hstarted.rows i).1

end Constrained

end ActiveSet
