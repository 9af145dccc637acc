import ActiveSet.Proofs.Solver.Constrained.Stepping

/-!
# Where a step is heading

The direction of a step leads to a point and to multipliers that solve the loaded problem for the working
set: the entities in it are on their loaded limits, and the gradient of the loaded objective is the
combination of their rows. Nothing has been asked of the other limits, or of the signs of the multipliers.
If these are right as well, the step goes the whole way. If not, it ends on the way, and its event is one
of the things that are wrong (`stepLength_objects`).

* `Aims`: where the direction of a step leads.
* `Objection`: an event that says what is wrong there.
-/

namespace ActiveSet.Constrained

open Finset

variable {n m : ℕ} {s s' : Constrained ℝ n m} {z : ℕ → ℝ} {v : Entity n m → ℝ}
  {event : StepEvent n m}

/-- A point and multipliers solve the loaded problem for the working set, but for the limits of the
entities outside and for the signs of the multipliers. -/
structure Aims (s : Constrained ℝ n m) (z : ℕ → ℝ) (v : Entity n m → ℝ) : Prop where
  on_limit : ∀ a, s.isActive a = true → s.valueOf z a = s.target.limitOf (s.activity a) a
  balanced : ∀ j, j < n → ∑ k ∈ range n, s.hessian j k * z k + s.target.gradient j =
    ∑ a, v a * s.row a j
  inactive : ∀ a, s.isActive a = false → v a = 0

/-- A value is on the wrong side of a loaded limit. -/
def Beyond (s : Constrained ℝ n m) (side : Activity) (e : Entity n m) (a : ℝ) : Prop :=
  if side = .upper then s.target.upperOf e < a else a < s.target.lowerOf e

/-- A multiplier has the sign of the other side. -/
def Repels (side : Activity) (a : ℝ) : Prop := if side = .upper then 0 < a else a < 0

/-- What is wrong with a point and multipliers: a limit does not hold, or a multiplier has the wrong
sign. -/
inductive Objection (s : Constrained ℝ n m) (z : ℕ → ℝ) (v : Entity n m → ℝ) : StepEvent n m → Prop
  | add {e : Entity n m} {side : Activity} (hside : side = .lower ∨ side = .upper)
    (hinactive : s.activity e = .inactive) (hfinite : s.hasSide side e = true)
    (hbeyond : s.Beyond side e (s.valueOf z e)) : Objection s z v (.add e side)
  | remove {e : Entity n m} (hactive : s.activity e = .lower ∨ s.activity e = .upper)
    (htype : s.limitType e ≠ .equality) (hrepels : Repels (s.activity e) (v e)) :
    Objection s z v (.remove e)

theorem Aims.congr (h : s.Aims z v) (hdata : s.SameData s') (hactivity : s'.activity = s.activity) :
    s'.Aims z v := by
  have hactive : s'.isActive = s.isActive := by
    funext a
    rw [isActive, isActive, hactivity]
  refine ⟨fun a ha => ?_, fun j hj => ?_, fun a ha => ?_⟩
  · rw [hactive] at ha
    rw [hdata.valueOf_eq, hdata.target, hactivity]
    exact h.on_limit a ha
  · rw [hdata.hessian, hdata.target, hdata.row_eq]
    exact h.balanced j hj
  · rw [hactive] at ha
    exact h.inactive a ha

theorem Objection.congr (h : s.Objection z v event) (hdata : s.SameData s')
    (hactivity : s'.activity = s.activity) (htype : s'.limitType = s.limitType)
    (hside : s'.hasSide = s.hasSide) : s'.Objection z v event := by
  cases h with
  | add hside' hinactive hfinite hbeyond =>
    refine .add hside' (hactivity ▸ hinactive) (hside ▸ hfinite) ?_
    unfold Beyond at hbeyond ⊢
    rwa [hdata.valueOf_eq, hdata.target]
  | remove hactive htype' hrepels =>
    exact .remove (hactivity ▸ hactive) (htype ▸ htype') (hactivity ▸ hrepels)

-- ---------------------------------------------------------------------------
-- Directions
-- ---------------------------------------------------------------------------

/-- The whole way leads to the loaded limits. -/
theorem limitOf_add_shift (s : Constrained ℝ n m) (side : Activity) (e : Entity n m) :
    s.current.limitOf side e + s.shift.limitOf side e = s.target.limitOf side e := by
  rw [show s.shift.limitOf side e = _ from Data.limitOf_sub s.target s.current side e,
    add_sub_cancel]

theorem valueOf_add (s : Constrained ℝ n m) (x y : ℕ → ℝ) (e : Entity n m) :
    s.valueOf (fun j => x j + y j) e = s.valueOf x e + s.valueOf y e := by
  have hway := s.valueOf_add_mul x y 1 e
  simp only [one_mul] at hway
  exact hway

/-- The whole way along a direction leads to its aim. -/
theorem Follows.aims (hf : s.Follows) (h : s.Optimal) :
    s.Aims (fun j => s.x j + s.dx j) fun a => s.y.get a + s.dy.get a := by
  refine ⟨fun a ha => ?_, fun j hj => ?_, fun a ha => ?_⟩
  · rw [valueOf_add, h.on_limit a ha, hf.on_limit a ha, limitOf_add_shift]
  · have hgradient : s.target.gradient j = s.current.gradient j + s.shift.gradient j := by
      rw [show s.shift.gradient j = _ from Tuple.sub_apply _ _ hj, add_sub_cancel]
    simp only [mul_add, add_mul, sum_add_distrib]
    rw [hgradient, ← h.stationary j hj, ← hf.balanced j hj]
    ring
  · rw [h.inactive a ha, hf.inactive a ha, add_zero]

/-- Nothing is wrong with an aim that can be passed on the whole way. -/
theorem Passable.not_objection (h : s.Passable 1) :
    ¬s.Objection (fun j => s.x j + s.dx j) (fun a => s.y.get a + s.dy.get a) event := by
  intro hobjection
  cases hobjection with
  | @add e side hside hinactive hfinite hbeyond =>
    -- an inactive entity beyond its limit would have been passed on the way
    rw [valueOf_add] at hbeyond
    rcases hside with rfl | rfl
    · have hle := h.lower_le e hinactive hfinite
      rw [one_mul, one_mul] at hle
      exact absurd hle (not_le.2 (hbeyond.trans_eq (s.limitOf_add_shift .lower e).symm))
    · have hle := h.le_upper e hinactive hfinite
      rw [one_mul, one_mul] at hle
      exact absurd hle (not_le.2 ((s.limitOf_add_shift .upper e).trans_lt hbeyond))
  | @remove e hactive htype hrepels =>
    -- so would a multiplier that changes its sign
    rcases hactive with hside | hside
    · have hsign := h.lower e hside htype
      rw [hside] at hrepels
      rw [one_mul] at hsign
      exact absurd hsign (not_le.2 hrepels)
    · have hsign := h.upper e hside htype
      rw [hside] at hrepels
      rw [one_mul] at hsign
      exact absurd hsign (not_le.2 hrepels)

/-- What ends a step on the way is wrong with its aim. -/
theorem TakesPlace.objection {tau : ℝ} (h : s.TakesPlace tau event) (hevent : event ≠ .full)
    (hfits : s.Fits event) :
    s.Objection (fun j => s.x j + s.dx j) (fun a => s.y.get a + s.dy.get a) event := by
  cases h with
  | full htau => exact absurd rfl hevent
  | @lower e hreached hpasses =>
    obtain ⟨hinactive, hfinite⟩ : s.activity e = .inactive ∧ s.hasSide .lower e = true := by
      cases e <;> exact ⟨EntitySet.CanEnter.inactive hfits, EntitySet.CanEnter.hasSide hfits⟩
    refine .add (.inl rfl) hinactive hfinite ?_
    rw [valueOf_add]
    exact hpasses.trans_eq (s.limitOf_add_shift .lower e)
  | @upper e hreached hpasses =>
    obtain ⟨hinactive, hfinite⟩ : s.activity e = .inactive ∧ s.hasSide .upper e = true := by
      cases e <;> exact ⟨EntitySet.CanEnter.inactive hfits, EntitySet.CanEnter.hasSide hfits⟩
    refine .add (.inr rfl) hinactive hfinite ?_
    rw [valueOf_add]
    exact (s.limitOf_add_shift .upper e).symm.trans_lt hpasses
  | @remove e hzero hpasses =>
    have htype : s.limitType e ≠ .equality := by
      cases e <;> exact EntitySet.CanLeave.type_ne hfits
    rcases hpasses with ⟨hside, hsign⟩ | ⟨hside, hsign⟩
    · refine .remove (.inl hside) htype ?_
      rw [hside]
      exact hsign
    · refine .remove (.inr hside) htype ?_
      rw [hside]
      exact hsign

/-- A step goes the whole way if nothing is wrong with its aim, and ends with one of the things that are
wrong otherwise. -/
theorem stepLength_objects (h : s.Optimal) (hf : s.Follows) (heps : s.parameters.epsZero = 0) :
    ∃ z v, s.Aims z v ∧ (s.stepLength.2 = .full ∧ (∀ event, ¬s.Objection z v event) ∨
      s.stepLength.2 ≠ .full ∧ s.Objection z v s.stepLength.2) := by
  obtain ⟨-, -, hpassable, htakes⟩ := stepLength_spec h hf heps
  refine ⟨_, _, hf.aims h, ?_⟩
  obtain hfull | ⟨hevent, hfits⟩ := s.stepLength_cases
  · rw [hfull] at hpassable
    exact .inl ⟨congrArg Prod.snd hfull, fun event => hpassable.not_objection⟩
  · exact .inr ⟨hevent, htakes.objection hevent hfits⟩

end ActiveSet.Constrained
