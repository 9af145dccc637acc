import ActiveSet.Proofs.Solver.Box.LinearStart
import ActiveSet.Proofs.Solver.Constrained.LinearSteps
import ActiveSet.Proofs.Solver.Guessing

/-!
# The verdict of unboundedness

A solver says that the objective has no lower bound when its factor meets a pivot that is not positive
while an entity leaves the working set. With exact arithmetic and a semidefinite matrix, this is where a
flat direction of the remaining working set comes up. If the entity was to leave because its multiplier
had lost its sign, the loaded objective falls along the flat direction that leads away from the limit of
the entity; and then it has no lower bound, if no other finite limit is in the way
(`unboundedness_explained`).

Whether there is one is not looked at, so the verdict can be wrong (`unboundedness_unsound`). If the entity
was to leave for another one, the objective has not been looked at either.
-/

namespace ActiveSet

variable {n m : ℕ}

/-- An entity has left its limit on a side, and the loaded objective falls along a flat direction that leads
away from this limit. So it has no lower bound, unless another finite limit is in the way. -/
structure Constrained.Loosened (s : Constrained ℝ n m) (e : Entity n m) (side : Activity)
    (s' : Constrained ℝ n m) : Prop where
  left : s'.isActive e = false
  falls : ∃ d, s'.Flat d ∧ Inwards side (s.valueOf d e) ∧ s.slope d < 0 ∧
    (s.Unobstructed e side d → (∃ x, s.Within x) → s.Boundless s.Within)

/-- The same for a variable of a problem with bounds only. -/
structure Box.Loosened (s : Box ℝ n) (i : Fin n) (side : Activity) (s' : Box ℝ n) : Prop where
  left : s'.bounds.isActive i = false
  falls : ∃ d, Core.Flat s' d ∧ Inwards side (d i) ∧ Core.slope s d < 0 ∧
    (Core.Unobstructed s (.bound i) side d → (∃ x, Core.Within s x) → Core.Boundless s (Core.Within s))

/-- What the verdict of unboundedness says. A flat direction is left that changes the value of no entity
that is still in the working set. If the limits of auxiliary problems are on the right sides, the homotopy
has come to an event at which an entity was to leave, and the loaded objective falls along such a direction
that leads away from the limit of this entity; or, with constraints, to one at which an entity was to enter,
and nothing is said of the objective. -/
theorem unboundedness_explained (n m : ℕ) :
    (∀ s : Constrained ℝ n m, (Constrained.interface ℝ n m).Reachable Constrained.exactCalls s →
      s.Convex → ∀ c : Call ℝ n m (Constrained.Loading ℝ), Constrained.exactCalls c s →
        ∀ e, c.unboundedness = some e → ∀ s' : Constrained ℝ n m,
          (Constrained.interface ℝ n m).call c s = (.error (.failed e), s') →
            s'.unbounded = true ∧ (∃ d, s'.Flat d) ∧
              ((Constrained.interface ℝ n m).Reachable (Constrained.courseCalls False) s →
                Constrained.courseCalls False c s → ∃ start event s1,
                  (Constrained.interface ℝ n m).StartsBy s c start ∧
                    (Constrained.interface ℝ n m).method.Condemned start event s1 s' ∧
                      ((∃ a, event = .remove a ∧ s.Loosened a (s1.activity a) s') ∨
                        ∃ a side, event = .add a side))) ∧
      ∀ s : Box ℝ n, (Box.interface ℝ n).Reachable Box.exactCalls s → s.Convex →
        ∀ c : Call ℝ n 0 (Core.Loading ℝ), Box.exactCalls c s → ∀ e, c.unboundedness = some e →
          ∀ s' : Box ℝ n, (Box.interface ℝ n).call c s = (.error (.failed e), s') →
            s'.unbounded = true ∧ (∃ d, Core.Flat s' d) ∧
              ((Box.interface ℝ n).Reachable (Box.courseCalls False) s → Box.courseCalls False c s →
                ∃ start i s1, (Box.interface ℝ n).StartsBy s c start ∧
                  (Box.interface ℝ n).method.Condemned start (.remove (.bound i)) s1 s' ∧
                    s.Loosened i (s1.bounds.activity i) s') := by
  constructor
  · intro s hs hconvex c hc e he s' hcall
    -- at the missing pivot the objective is flat in some direction
    obtain ⟨hverdict, hsymm, hdata, hflat⟩ := Constrained.flat_of_call hs hconvex hc he hcall
    refine ⟨hverdict, hflat, fun hcourse hc' => ?_⟩
    obtain ⟨start, event, s1, hstarts, hcondemned⟩ :=
      (Constrained.interface ℝ n m).condemned_of_call he (fun h => by
        rcases Constrained.checkLimits_error h with h | h <;> cases h) hcall
    refine ⟨start, event, s1, hstarts, hcondemned, ?_⟩
    cases event with
    | full => exact (hcondemned.event_ne rfl).elim
    | add a side => exact .inr ⟨a, side, rfl⟩
    -- a released entity gives the direction its sense: away from its own limit
    | remove a =>
      obtain ⟨hleft, d, hd, hfalls, hinwards⟩ :=
        Constrained.falls_of_condemned hcourse hconvex hc' hstarts hcondemned
      refine .inl ⟨a, rfl, hleft, d, hd, hinwards, hfalls, fun hfree hx => ?_⟩
      have hvanishes := hd.vanishes
      rw [hdata.hessian] at hvanishes
      exact Core.boundless_of_falls hsymm hvanishes hfalls
        (fun _ _ ht hx => hfree.within hinwards hx ht) hx
  · intro s hs hconvex c hc e he s' hcall
    obtain ⟨hverdict, hsymm, hdata, hflat⟩ := Box.flat_of_call hs hconvex hc he hcall
    refine ⟨hverdict, hflat, fun hcourse hc' => ?_⟩
    -- with bounds only, every event at a missing pivot is a release
    obtain ⟨start, event, s1, hstarts, hcondemned⟩ := (Box.interface ℝ n).condemned_of_call he
      (fun h => by cases Core.checkBounds_error h) hcall
    obtain ⟨-, -, i, error, s2, rfl, -⟩ := Box.halfRemoved_of_condemned hs hc hstarts hcondemned
    obtain ⟨hleft, d, hd, hfalls, hinwards⟩ :=
      Box.falls_of_condemned hcourse hconvex hc' hstarts hcondemned
    refine ⟨start, i, s1, hstarts, hcondemned, hleft, d, hd, hinwards, hfalls, fun hfree hx => ?_⟩
    have hvanishes := hd.vanishes
    rw [hdata.hessian] at hvanishes
    refine Core.boundless_of_falls hsymm hvanishes hfalls (fun _ _ ht hx => hfree.within ?_ hx ht) hx
    rintro j hj
    cases hj
    exact hinwards

/-! ## Instances -/

namespace Box

/-- The negative of one variable, over an interval that starts at zero. -/
noncomputable def loadRamp (u : ℝ) : List (Call ℝ 1 0 (Core.Loading ℝ)) :=
  [.load (.parameters Constrained.exactParameters), .load (.hessianType .semidefinite),
    .load (.gradient #[-1]), .load (.lower #[0]), .load (.upper #[u])]

/-- A solver with this problem loaded. -/
noncomputable def ramp (u : ℝ) : Box ℝ 1 :=
  (loadRamp u).foldl (fun s c => ((Box.interface ℝ 1).call c s).2) (Box.fresh 1)

theorem ramp_eq (u : ℝ) : ramp u = { Box.fresh 1 with
    parameters := Constrained.exactParameters
    hessianType := .semidefinite
    target := { (Box.fresh 1 : Box ℝ 1).target with
      gradient := Tuple.ofFn 1 fun i => Core.clamp Constrained.exactParameters.infinity (#[-1].getD i 0)
      lower := Tuple.ofFn 1 fun i => Core.clamp Constrained.exactParameters.infinity (#[0].getD i 0)
      upper := Tuple.ofFn 1 fun i =>
        Core.clamp Constrained.exactParameters.infinity (#[u].getD i 0) } } := rfl

theorem reachable_ramp (admits : Call ℝ 1 0 (Core.Loading ℝ) → Box ℝ 1 → Prop)
    (h : ∀ d s, admits (.load d) s) (u : ℝ) : (Box.interface ℝ 1).Reachable admits (ramp u) :=
  .call _ (.call _ (.call _ (.call _ (.call _ .fresh (h _ _)) (h _ _)) (h _ _)) (h _ _)) (h _ _)

section Ramp

variable {u : ℝ}

theorem gradient_ramp (i : Fin 1) : (ramp u).target.gradient i = -1 := by
  obtain rfl := Subsingleton.elim i 0
  rw [ramp_eq]
  refine (Tuple.ofFn_apply Nat.zero_lt_one).trans (Core.clamp_of ?_ ?_)
  · rw [Constrained.infinity_exactParameters]
    norm_num
  · rw [Constrained.infinity_exactParameters]
    norm_num

theorem lower_ramp (i : Fin 1) : (ramp u).target.lower i = 0 := by
  obtain rfl := Subsingleton.elim i 0
  rw [ramp_eq]
  refine (Tuple.ofFn_apply Nat.zero_lt_one).trans (Core.clamp_of ?_ ?_)
  · rw [Constrained.infinity_exactParameters]
    norm_num
  · rw [Constrained.infinity_exactParameters]
    norm_num

theorem upper_ramp (hu : 0 ≤ u) (hle : u ≤ 10 ^ 20) (i : Fin 1) : (ramp u).target.upper i = u := by
  obtain rfl := Subsingleton.elim i 0
  rw [ramp_eq]
  refine (Tuple.ofFn_apply Nat.zero_lt_one).trans (Core.clamp_of ?_ ?_)
  · rw [Constrained.infinity_exactParameters]
    show -10 ^ 20 ≤ u
    linarith
  · rw [Constrained.infinity_exactParameters]
    exact hle

theorem infinity_ramp : (ramp u).parameters.infinity = 10 ^ 20 := by
  rw [ramp_eq]
  exact Constrained.infinity_exactParameters

theorem hessian_ramp (i j : ℕ) : (ramp u).hessian i j = 0 := by
  rw [ramp_eq]
  rcases Nat.lt_or_ge i 1 with hi | hi
  · rcases Nat.lt_or_ge j 1 with hj | hj
    · exact Grid.fill_apply hi hj
    · exact Grid.apply_of_column_le _ hj
  · exact Grid.apply_of_row_le _ hi

theorem linear_ramp (hu : 1 ≤ u) (hle : u ≤ 10 ^ 20) : (ramp u).Linear where
  semidefinite := rfl
  hessian_eq := hessian_ramp
  bounded i := by
    rw [loadedType, lower_ramp, upper_ramp (by linarith) hle, infinity_ramp]
    rw [show (ramp u).parameters.epsBound = 1 / 10 ^ 10 from Constrained.epsBound_exactParameters]
    unfold EntitySet.typeOfLimits
    rw [if_neg (by norm_num), if_neg (by norm_num; linarith)]
  finite i := by
    rw [lower_ramp, infinity_ramp]
    norm_num
  ordered i := by
    rw [lower_ramp, upper_ramp (by linarith) hle]
    linarith
  epsZero_eq := rfl
  epsDefinite_nonneg := le_rfl
  falls := ⟨0, by rw [gradient_ramp]; norm_num⟩

theorem convex_ramp : (ramp u).Convex where
  semidefinite v := by
    simp [form, hessian_ramp]
  epsZero_eq := rfl
  epsDefinite_eq := rfl

theorem exact_ramp : (ramp u).Exact :=
  ⟨rfl, le_rfl, Constrained.exact_square.relaxation_nonneg⟩

/-- A solve says that the objective has no lower bound, wherever the interval ends. -/
theorem call_ramp (hu : 1 ≤ u) (hle : u ≤ 10 ^ 20) : ∃ s', (Box.interface ℝ 1).call
    (.solve Observer.silent () 1 none none) (ramp u) =
      (.error (.failed .initFailedUnboundedness), s') := by
  have horder : (ramp u).BoundsInOrder := by
    rw [ramp_eq]
    exact ⟨EntitySet.sound_empty _, rfl⟩
  obtain ⟨k, r, -, hfalse⟩ | ⟨f, r, hcall, rfl⟩ := outcome_of_ensures
    ((linear_ramp hu hle).solve_ensures horder Observer.silent () 0)
  · exact hfalse.elim
  · exact ⟨r.1, hcall⟩

theorem objective_ramp (x : Tuple ℝ 1) :
    objective (ramp u).hessian (ramp u).target.gradient x = -x 0 := by
  have hgradient : (ramp u).target.gradient 0 = -1 := gradient_ramp 0
  simp [objective, sum_eq_sum, dot_eq_sum, hessian_ramp, hgradient]

theorem optimalCalls_ramp (hu : 1 ≤ u) (hle : u ≤ 10 ^ 20) {τ : Type} (obs : Observer ℝ 1 0 τ)
    (view : τ) (budget : ℕ) : optimalCalls (.solve obs view budget none none) (ramp u) :=
  ⟨(linear_ramp hu hle).declared, exact_ramp, fun i hi => by
    rw [(linear_ramp hu hle).bounded i] at hi
    cases hi⟩

/-- A direction in which the objective falls points away from the lower limit. -/
theorem pos_of_slope {d : Tuple ℝ 1} (h : Core.slope (ramp u) d < 0) : 0 < d 0 := by
  have hgradient : (ramp u).target.gradient 0 = -1 := gradient_ramp 0
  simpa [Core.slope, hgradient] using h

/-- If the interval has no end, nothing is in the way of such a direction. -/
theorem unobstructed_ramp {d : Tuple ℝ 1} (h : 0 < d 0) (e : Entity 1 0) (side : Activity) :
    Core.Unobstructed (ramp (10 ^ 20)) e side d := by
  refine ⟨fun i hi => ?_, fun i _ _ => ?_⟩
  · obtain rfl := Subsingleton.elim i 0
    exact absurd hi (not_lt.2 h.le)
  · rw [upper_ramp (by norm_num) le_rfl, infinity_ramp]

theorem within_ramp (hu : 0 ≤ u) (hle : u ≤ 10 ^ 20) : Core.Within (ramp u) (Tuple.fill 1 0) := by
  refine ⟨fun i _ => ?_, fun i _ => ?_⟩
  · rw [lower_ramp, Tuple.fill_apply i.isLt]
  · rw [upper_ramp hu hle, Tuple.fill_apply i.isLt]
    exact hu

end Ramp

end Box

/-! ## A linear objective with a row -/

namespace Constrained

/-- A linear objective of one variable, and a row that is the variable. Both have lower limits, which may be
infinite. -/
structure Incline (s : Constrained ℝ 1 1) (g l r : ℝ) : Prop where
  parameters : s.parameters = exactParameters
  type_eq : s.hessianType = .semidefinite
  hessian_eq : ∀ i j : ℕ, s.hessian i j = 0
  row_eq : ∀ e, s.row e 0 = 1
  gradient_eq : s.target.gradient 0 = g
  lower_eq : ∀ e, s.target.lowerOf e = if e = .bound 0 then l else r
  upper_eq : ∀ e, s.target.upperOf e = 10 ^ 20
  ordered : ∀ e, s.target.lowerOf e ≤ s.target.upperOf e

/-- A solver with such a problem loaded. -/
noncomputable def incline (g l r : ℝ) : Constrained ℝ 1 1 :=
  [Call.load (.core (.parameters exactParameters)), .load (.core (.hessianType .semidefinite)),
    .load (.core (.gradient #[g])), .load (.core (.lower #[l])), .load (.matrix #[1]),
    .load (.rowLower #[r])].foldl (fun s c => ((Constrained.interface ℝ 1 1).call c s).2) (fresh 1 1)

theorem reachable_incline (admits : Call ℝ 1 1 (Loading ℝ) → Constrained ℝ 1 1 → Prop)
    (h : ∀ d s, admits (.load d) s) (g l r : ℝ) :
    (Constrained.interface ℝ 1 1).Reachable admits (incline g l r) :=
  .call _ (.call _ (.call _ (.call _ (.call _ (.call _ .fresh (h _ _)) (h _ _)) (h _ _)) (h _ _))
    (h _ _)) (h _ _)

theorem inOrder_incline (g l r : ℝ) : (incline g l r).InOrder := (inOrder_fresh 1 1).congr rfl rfl

theorem incline_incline {g l r : ℝ} (hg : |g| ≤ 100) (hl : |l| ≤ 10 ^ 20) (hr : |r| ≤ 100) :
    (incline g l r).Incline g l r := by
  have hlower : ∀ e, (incline g l r).target.lowerOf e = if e = .bound 0 then l else r := by
    intro e
    obtain rfl | rfl := entity_of_one e
    · rw [if_pos rfl]
      exact (Tuple.ofFn_apply Nat.zero_lt_one).trans (clamp_of_abs_le hl)
    · rw [if_neg fun h => by cases h]
      exact (Tuple.ofFn_apply Nat.zero_lt_one).trans (clamp_exactParameters hr)
  have hupper : ∀ e, (incline g l r).target.upperOf e = 10 ^ 20 := by
    intro e
    obtain rfl | rfl := entity_of_one e
    · exact (Tuple.fill_apply Nat.zero_lt_one).trans infinity_exactParameters
    · exact (Tuple.fill_apply Nat.zero_lt_one).trans infinity_exactParameters
  refine ⟨rfl, rfl, fun i j => ?_, fun e => ?_, ?_, hlower, hupper, fun e => ?_⟩
  · rcases Nat.lt_or_ge i 1 with hi | hi
    · rcases Nat.lt_or_ge j 1 with hj | hj
      · exact Grid.fill_apply hi hj
      · exact Grid.apply_of_column_le _ hj
    · exact Grid.apply_of_row_le _ hi
  · obtain rfl | rfl := entity_of_one e
    · rfl
    · exact Grid.ofFn_apply Nat.zero_lt_one Nat.zero_lt_one
  · exact (Tuple.ofFn_apply Nat.zero_lt_one).trans (clamp_exactParameters hg)
  · rw [hlower, hupper]
    split
    · exact (abs_le.1 hl).2
    · exact (abs_le.1 hr).2.trans (by norm_num)

namespace Incline

variable {s s' : Constrained ℝ 1 1} {g l r : ℝ} {a e : Entity 1 1}

theorem congr (h : s.Incline g l r) (hdata : s.SameData s') : s'.Incline g l r := by
  refine ⟨hdata.parameters.trans h.parameters, hdata.hessianType.trans h.type_eq, ?_, ?_, ?_, ?_, ?_, ?_⟩
  · rw [hdata.hessian]
    exact h.hessian_eq
  · rw [hdata.row_eq]
    exact h.row_eq
  · rw [hdata.target]
    exact h.gradient_eq
  · rw [hdata.target]
    exact h.lower_eq
  · rw [hdata.target]
    exact h.upper_eq
  · rw [hdata.target]
    exact h.ordered

theorem infinity_eq (h : s.Incline g l r) : s.parameters.infinity = 10 ^ 20 := by
  rw [h.parameters, infinity_exactParameters]

theorem linear (h : s.Incline g l r) : s.Linear := by
  refine ⟨h.type_eq, h.hessian_eq, ?_, ?_, ?_⟩
  all_goals rw [h.parameters]; rfl

theorem valueOf_eq (h : s.Incline g l r) (z : ℕ → ℝ) (e : Entity 1 1) : s.valueOf z e = z 0 := by
  rw [valueOf, Finset.sum_range_one, h.row_eq, one_mul]

theorem loadedType_of_infinite (h : s.Incline g l r) (he : s.target.lowerOf e = -10 ^ 20) :
    s.loadedType e = .unbounded := by
  rw [loadedType, he, h.upper_eq, h.infinity_eq]
  exact if_pos ⟨le_rfl, le_rfl⟩

theorem loadedType_of_nonneg (h : s.Incline g l r) (he : 0 ≤ s.target.lowerOf e)
    (hsmall : s.target.lowerOf e ≤ 1) : s.loadedType e = .bounded := by
  refine loadedType_of_gap h.parameters he ?_
  rw [h.upper_eq]
  linarith

theorem exact (h : s.Incline g l r) : s.Exact := by
  refine ⟨h.linear.epsZero_eq, h.linear.epsDependent_eq, h.linear.epsDefinite_eq.ge, ?_⟩
  rw [h.parameters, relaxation_exactParameters]
  norm_num

theorem loadedType_eq (h : s.Incline g 0 r) (hr : 0 ≤ r) (hr1 : r ≤ 1) (e : Entity 1 1) :
    s.loadedType e = .bounded := by
  refine h.loadedType_of_nonneg ?_ ?_
  · rw [h.lower_eq]
    split <;> simp [hr]
  · rw [h.lower_eq]
    split <;> simp [hr1]

/-- The homotopy starts with one entity in the working set, if that is the starting set of the guess. -/
theorem prepare_ok (h : s.Incline g l r) (hs : s.InOrder) {guess : Guess ℝ 1 1}
    (hstarting : ∀ e, s.startingSet guess 1 e ↔ e = a) (hside : s.wantedSide guess a = .lower)
    (htype : ∀ e, s.loadedType e ≠ .equality) :
    ∃ start, prepare guess s.reset = .ok () start ∧ start.Underway True ∧ s.SameData start ∧
      ∀ e, start.activity e = if e = a then .lower else .inactive := by
  have hlinear := h.linear
  have hexact := h.exact
  -- the one variable is fixed by `a`, so no direction is left that could be flat
  have hdef : s.DefiniteApart guess := by
    rintro v ⟨j, hj, hne⟩ hzero
    have hv := hzero a ((hstarting a).2 rfl)
    rw [h.valueOf_eq] at hv
    obtain rfl : j = 0 := Nat.lt_one_iff.1 hj
    exact absurd hv hne
  obtain ⟨start, hprepare, hsetup, hs', -, hstarts⟩ := prepare_of_definite hs hlinear.declared.symmetric
    hdef hlinear.epsDependent_eq hlinear.epsDefinite_eq h.ordered
    fun ⟨i, hequality, _⟩ => htype _ hequality
  refine ⟨start, hprepare, hsetup.underway hlinear.declared.reset
      ⟨hexact.epsZero_eq, hexact.epsDependent_eq, hexact.epsDefinite_nonneg, hexact.relaxation_nonneg⟩
      (fun _ e he => absurd he (htype e)) hs', s.sameData_reset.trans hsetup.sameData, fun e => ?_⟩
  split
  · next he => rw [he, hstarts.activity_eq a ((hstarting a).2 rfl), hside]
  · next he => exact hstarts.inactive e fun hmem => he ((hstarting e).1 hmem)

/-- The variable is to stay on the limit of this entity, with a multiplier that is the slope. -/
theorem aims (h : s.Incline g l r)
    (hactivity : ∀ e, s.activity e = if e = a then .lower else .inactive) :
    s.Aims (fun _ => s.target.lowerOf a) fun e => if e = a then g else 0 := by
  refine ⟨fun e he => ?_, fun j hj => ?_, fun e he => if_neg ?_⟩
  · rw [isActive, hactivity] at he
    obtain rfl : e = a := by
      by_contra hne
      rw [if_neg hne] at he
      cases he
    rw [h.valueOf_eq, hactivity, if_pos rfl]
    rfl
  · obtain rfl : j = 0 := Nat.lt_one_iff.1 hj
    simp [h.hessian_eq, h.gradient_eq, h.row_eq]
  · rintro rfl
    rw [isActive, hactivity, if_pos rfl] at he
    cases he

theorem hasSide_iff (h : s.Incline g l r) (htyped : s.Typed) (e : Entity 1 1) :
    (s.hasSide .lower e = true ↔ -10 ^ 20 < s.target.lowerOf e) ∧ s.hasSide .upper e = false := by
  obtain ⟨-, hlower, hupper⟩ := htyped e
  rw [h.infinity_eq] at hlower hupper
  refine ⟨hlower, Bool.eq_false_iff.2 fun hhas => ?_⟩
  have hlt := hupper.1 hhas
  rw [h.upper_eq] at hlt
  exact absurd hlt (lt_irrefl _)

/-- The row alone is in the working set, and the objective falls. So the row is to leave. -/
theorem heldUp_remove (h : s.Incline (-1) (-10 ^ 20) 0) (hs : s.Underway True)
    (hactivity : ∀ e, s.activity e = if e = .constraint 0 then .lower else .inactive) :
    s.HeldUp (.remove (.constraint 0)) := by
  refine ⟨h.linear, hs, ⟨_, _, h.aims hactivity, ?_, fun event' hobjection => ?_⟩, nofun⟩
  · have hlower := hactivity (.constraint 0)
    rw [if_pos rfl] at hlower
    refine .remove (.inl hlower) ?_ ?_
    · rw [(hs.typed trivial _).1]
      exact fun htype => by
        cases (h.loadedType_of_nonneg (e := .constraint 0) (by simp [h.lower_eq]) (by
          simp [h.lower_eq])).symm.trans htype
    · rw [hlower, if_pos rfl]
      exact neg_one_lt_zero
  · cases hobjection with
    | @add e side hside hinactive hfinite hbeyond =>
      obtain ⟨hiff, hnot⟩ := h.hasSide_iff (hs.typed trivial) e
      rcases hside with rfl | rfl
      · -- only the row has a finite limit
        obtain rfl | rfl := entity_of_one e
        · have hlt := hiff.1 hfinite
          rw [h.lower_eq, if_pos rfl] at hlt
          exact absurd hlt (lt_irrefl _)
        · rw [hactivity, if_pos rfl] at hinactive
          cases hinactive
      · rw [hnot] at hfinite
        cases hfinite
    | @remove e hactive =>
      rw [hactivity] at hactive
      by_cases he : e = .constraint 0
      · rw [he]
      · rw [if_neg he] at hactive
        rcases hactive with hactive | hactive <;> cases hactive

/-- The variable is on its limit, the row has to be above it, and the objective does not fall. So the row is to
enter for the variable. -/
theorem heldUp_add (h : s.Incline g 0 1) (hg : 0 ≤ g) (hs : s.Underway True)
    (hactivity : ∀ e, s.activity e = if e = .bound 0 then .lower else .inactive) :
    s.HeldUp (.add (.constraint 0) .lower) := by
  have hlower : s.activity (.bound 0) = .lower := by rw [hactivity, if_pos rfl]
  have hinactive : s.activity (.constraint 0) = .inactive := by
    rw [hactivity, if_neg fun h => by cases h]
  refine ⟨h.linear, hs, ⟨_, _, h.aims hactivity, ?_, fun event' hobjection => ?_⟩, ?_⟩
  · -- at the aim the row is below its limit
    refine .add (.inl rfl) hinactive ((h.hasSide_iff (hs.typed trivial) _).1.2 ?_) ?_
    · rw [h.lower_eq, if_neg fun h => by cases h]
      norm_num
    · show s.valueOf _ _ < s.target.lowerOf (.constraint 0)
      rw [h.valueOf_eq, h.lower_eq, h.lower_eq, if_pos rfl, if_neg fun h => by cases h]
      exact zero_lt_one
  · -- nothing else objects to the aim
    cases hobjection with
    | @add e side hside hinactive' hfinite hbeyond =>
      obtain ⟨-, hnot⟩ := h.hasSide_iff (hs.typed trivial) e
      rcases hside with rfl | rfl
      · obtain rfl | rfl := entity_of_one e
        · rw [hlower] at hinactive'
          cases hinactive'
        · rfl
      · rw [hnot] at hfinite
        cases hfinite
    | @remove e hactive htype hrepels =>
      obtain rfl | rfl := entity_of_one e
      · rw [hlower, if_pos rfl] at hrepels
        exact absurd (show g < 0 from hrepels) (not_lt.2 hg)
      · rw [hinactive] at hactive
        rcases hactive with hactive | hactive <;> cases hactive
  · -- the row is the bound's row, and no multiplier of the bound could make room for it
    rintro e side he
    cases he
    refine ⟨dependsOn_of_row_eq h.row_eq (congrArg Activity.isActive hlower), ?_⟩
    rintro ⟨c, hout, hrow, hsign⟩
    have hcoefficient := hrow 0 Nat.zero_lt_one
    have hnone := hout (.constraint 0) (congrArg Activity.isActive hinactive)
    simp only [h.row_eq, Entity.sum_eq, Fin.sum_univ_one, hnone, mul_one, add_zero] at hcoefficient
    have hle := (hsign (.bound 0) (fun htype => ?_)).1 hlower
    · rw [show sign (Activity.lower = .upper) = 1 from if_neg (by decide), one_mul, ← hcoefficient] at hle
      exact absurd hle (by norm_num)
    · rw [(hs.typed trivial _).1] at htype
      cases (h.loadedType_eq zero_le_one le_rfl _).symm.trans htype

theorem within (h : s.Incline g l r) {c : ℝ} (hl : l ≤ c) (hr : r ≤ c) (hc : c ≤ 10 ^ 20) :
    s.Within (Tuple.fill 1 c) := by
  have hvalue : ∀ e : Entity 1 1, s.target.lowerOf e ≤ c ∧ c ≤ s.target.upperOf e := by
    intro e
    rw [h.lower_eq, h.upper_eq]
    split
    · exact ⟨hl, hc⟩
    · exact ⟨hr, hc⟩
  have hrow : ∀ i : Fin 1, ∑ j ∈ Finset.range 1, s.matrix i j * (Tuple.fill 1 c : Tuple ℝ 1) j = c :=
    fun i => (h.valueOf_eq _ (.constraint i)).trans (Tuple.fill_apply Nat.zero_lt_one)
  refine ⟨⟨fun i _ => ?_, fun i _ => ?_⟩, fun i _ => ?_, fun i _ => ?_⟩
  · rw [Tuple.fill_apply i.isLt]
    exact (hvalue (.bound i)).1
  · rw [Tuple.fill_apply i.isLt]
    exact (hvalue (.bound i)).2
  · rw [hrow]
    exact (hvalue (.constraint i)).1
  · rw [hrow]
    exact (hvalue (.constraint i)).2

theorem objective_eq (h : s.Incline g l r) (x : Tuple ℝ 1) :
    objective s.hessian s.target.gradient x = g * x 0 := by
  have hgradient := h.gradient_eq
  simp [objective, sum_eq_sum, dot_eq_sum, h.hessian_eq, hgradient, mul_comm]

/-- An objective that is zero has a lower bound. -/
theorem not_boundless (h : s.Incline 0 l r) : ¬s.Boundless s.Within := by
  intro hboundless
  obtain ⟨x, -, hlt⟩ := hboundless 0
  rw [h.objective_eq, zero_mul] at hlt
  exact lt_irrefl _ hlt

/-- Nothing is in the way upwards. -/
theorem unobstructed (h : s.Incline g l r) {d : Tuple ℝ 1} (hd : 0 < d 0) (e : Entity 1 1)
    (side : Activity) : s.Unobstructed e side d := by
  have hupper : ∀ e, s.parameters.infinity ≤ s.target.upperOf e := fun e => by
    rw [h.upper_eq, h.infinity_eq]
  refine ⟨⟨fun i hi => ?_, fun i _ _ => hupper (.bound i)⟩, fun i hi => ?_,
    fun i _ _ => hupper (.constraint i)⟩
  · obtain rfl := Subsingleton.elim i 0
    exact absurd hi hd.le.not_gt
  · rw [h.valueOf_eq] at hi
    exact absurd hi hd.le.not_gt

/-- If the variable has no limit of its own, the guess of zero puts the row into the working set. -/
theorem starts_at_row (h : s.Incline g (-10 ^ 20) 0) (hs : s.InOrder) :
    ∃ start, prepare zeroGuess s.reset = .ok () start ∧ start.Underway True ∧ s.SameData start ∧
      ∀ e, start.activity e = if e = .constraint 0 then .lower else .inactive := by
  have hbound : s.loadedType (.bound 0) = .unbounded :=
    h.loadedType_of_infinite (by rw [h.lower_eq, if_pos rfl])
  have hlower : s.target.lowerOf (.constraint 0) = 0 := by
    rw [h.lower_eq, if_neg fun h => by cases h]
  have hrow : s.loadedType (.constraint 0) = .bounded :=
    h.loadedType_of_nonneg hlower.ge (hlower.trans_le zero_le_one)
  have hside : s.wantedSide zeroGuess (.constraint 0) = .lower :=
    guessedSide_zeroGuess h.parameters hrow hlower
  have hnot : ¬s.Wanted zeroGuess (.bound 0) := by
    have hinactive : s.guessedSide zeroGuess (.bound 0) = .inactive := by
      rw [guessedSide, hbound]
      rfl
    have hnot : ¬s.loadedType (.bound 0) = .bounded := by
      rw [hbound]
      decide
    rw [Wanted, wantedSide, if_neg fun h => hnot h.2.2, hinactive]
    exact Bool.false_ne_true
  refine h.prepare_ok hs (fun e => ?_) hside fun e htype => ?_
  · obtain rfl | rfl := entity_of_one e
    · exact iff_of_false (fun hmem => hnot ((startingSet_bound 0).1 hmem)) fun h => by cases h
    · refine iff_of_true ((startingSet_constraint 0).2 ⟨Nat.zero_lt_one, ?_, ?_⟩) rfl
      · rw [Wanted, hside]
        rfl
      -- nothing has entered before the row, which is not zero
      · rintro ⟨c, hout, hcombination⟩
        have hzero : ∀ a, c a = 0 := fun a => hout a fun hmem => by
          obtain rfl | rfl := entity_of_one a
          · exact hnot ((startingSet_bound 0).1 hmem)
          · exact absurd ((startingSet_constraint 0).1 hmem).1 (lt_irrefl _)
        have hone := hcombination 0 Nat.zero_lt_one
        simp [h.row_eq, hzero] at hone
  · obtain rfl | rfl := entity_of_one e
    · cases hbound.symm.trans htype
    · cases hrow.symm.trans htype

/-- If the variable has a limit at zero, the guess puts it there. The row depends on it. -/
theorem starts_at_bound (h : s.Incline g 0 r) (hr : 0 ≤ r) (hr1 : r ≤ 1) (hs : s.InOrder) :
    ∃ start, prepare zeroGuess s.reset = .ok () start ∧ start.Underway True ∧ s.SameData start ∧
      ∀ e, start.activity e = if e = .bound 0 then .lower else .inactive := by
  have hlower : s.target.lowerOf (.bound 0) = 0 := by rw [h.lower_eq, if_pos rfl]
  have htype := h.loadedType_eq hr hr1
  have hside := wantedSide_zeroGuess h.parameters (htype _) hlower
  have hwanted : s.Wanted zeroGuess (.bound 0) := by
    rw [Wanted, hside]
    rfl
  refine h.prepare_ok hs (fun e => ?_) hside fun e hequality => ?_
  · obtain rfl | rfl := entity_of_one e
    · exact iff_of_true ((startingSet_bound 0).2 hwanted) rfl
    · refine iff_of_false (fun hmem => ?_) fun h => by cases h
      exact ((startingSet_constraint 0).1 hmem).2.2
        (dependsOn_of_row_eq h.row_eq ((startingSet_bound 0).2 hwanted))
  · cases (htype e).symm.trans hequality

theorem equalLimits (h : s.Incline g 0 1) : s.EqualLimits := fun e htype => by
  cases (h.loadedType_eq zero_le_one le_rfl e).symm.trans htype

/-- The solve with this guess ends with the verdict, which comes as the row is to leave. -/
theorem call_of_row (h : s.Incline (-1) (-10 ^ 20) 0) (hs : s.InOrder) : ∃ s',
    (Constrained.interface ℝ 1 1).call (.solve Observer.silent () 1 (some #[0]) none) s =
        (.error (.failed .initFailedUnboundedness), s') ∧
      ∀ start event s1 s2, (Constrained.interface ℝ 1 1).StartsBy s
        (.solve Observer.silent () 1 (some #[0]) none) start →
          (Constrained.interface ℝ 1 1).method.Condemned start event s1 s2 →
            event = .remove (.constraint 0) := by
  obtain ⟨start, hprepare, hstart, hdata, hactivity⟩ := h.starts_at_row hs
  have hincline : (method.clearVerdict start).Incline _ _ _ :=
    h.congr (hdata.trans ⟨rfl, rfl, rfl, rfl, rfl⟩)
  exact (hincline.heldUp_remove (hstart.withVerdict start.status false false) hactivity).call
    (.prepared ofArrays_zeroGuess hprepare) (by exact one_pos)

/-- It does so too as the row is to enter for the variable. -/
theorem call_of_bound (h : s.Incline g 0 1) (hg : 0 ≤ g) (hs : s.InOrder) : ∃ s',
    (Constrained.interface ℝ 1 1).call (.solve Observer.silent () 1 (some #[0]) none) s =
        (.error (.failed .initFailedUnboundedness), s') ∧
      ∀ start event s1 s2, (Constrained.interface ℝ 1 1).StartsBy s
        (.solve Observer.silent () 1 (some #[0]) none) start →
          (Constrained.interface ℝ 1 1).method.Condemned start event s1 s2 →
            event = .add (.constraint 0) .lower := by
  obtain ⟨start, hprepare, hstart, hdata, hactivity⟩ := h.starts_at_bound zero_le_one le_rfl hs
  have hincline : (method.clearVerdict start).Incline _ _ _ :=
    h.congr (hdata.trans ⟨rfl, rfl, rfl, rfl, rfl⟩)
  exact (hincline.heldUp_add hg (hstart.withVerdict start.status false false) hactivity).call
    (.prepared ofArrays_zeroGuess hprepare) (by exact one_pos)

end Incline

end Constrained

/-- The negative of a variable between zero and one is reported to have no lower bound. So is an objective
that is zero, if a row is to enter in the place of the variable. -/
theorem unboundedness_unsound :
    ((Box.interface ℝ 1).Reachable Box.optimalCalls (Box.ramp 1) ∧
      (Box.ramp 1).hessianType = .semidefinite ∧ (Box.ramp 1).Convex ∧
        Box.optimalCalls (.solve Observer.silent () 1 none none) (Box.ramp 1) ∧
          (∃ s', (Box.interface ℝ 1).call (.solve Observer.silent () 1 none none) (Box.ramp 1) =
            (.error (.failed .initFailedUnboundedness), s')) ∧
            (∃ x, Core.Within (Box.ramp 1) x) ∧
              ¬Core.Boundless (Box.ramp 1) (Core.Within (Box.ramp 1))) ∧
      (Constrained.interface ℝ 1 1).Reachable Constrained.optimalCalls (Constrained.incline 0 0 1) ∧
        (Constrained.incline 0 0 1).hessianType = .semidefinite ∧ (Constrained.incline 0 0 1).Convex ∧
          Constrained.optimalCalls (.solve Observer.silent () 1 (some #[0]) none)
            (Constrained.incline 0 0 1) ∧
            (∃ s', (Constrained.interface ℝ 1 1).call (.solve Observer.silent () 1 (some #[0]) none)
              (Constrained.incline 0 0 1) = (.error (.failed .initFailedUnboundedness), s')) ∧
              (∃ x, (Constrained.incline 0 0 1).Within x) ∧
                ¬(Constrained.incline 0 0 1).Boundless (Constrained.incline 0 0 1).Within := by
  have hle : (1 : ℝ) ≤ 10 ^ 20 := by norm_num
  refine ⟨⟨Box.reachable_ramp _ (fun _ _ => trivial) 1, rfl, Box.convex_ramp,
    Box.optimalCalls_ramp le_rfl hle _ _ _, Box.call_ramp le_rfl hle,
    ⟨_, Box.within_ramp zero_le_one hle⟩, fun h => ?_⟩, ?_⟩
  · -- the variable is at most one
    obtain ⟨x, hx, hlt⟩ := h (-1)
    have hupper := hx.le_upper 0 (by rw [Box.upper_ramp zero_le_one hle, Box.infinity_ramp]; norm_num)
    rw [Box.upper_ramp zero_le_one hle] at hupper
    rw [Box.objective_ramp] at hlt
    have hx0 : x 0 ≤ 1 := hupper
    linarith
  · have hincline : (Constrained.incline 0 0 1).Incline 0 0 1 :=
      Constrained.incline_incline (by norm_num) (by norm_num) (by norm_num)
    obtain ⟨s', hcall, -⟩ := hincline.call_of_bound le_rfl (Constrained.inOrder_incline _ _ _)
    exact ⟨Constrained.reachable_incline _ (fun _ _ => trivial) _ _ _, hincline.type_eq,
      hincline.linear.convex, ⟨hincline.linear.declared, hincline.exact, hincline.equalLimits⟩,
      ⟨s', hcall⟩, ⟨_, hincline.within zero_le_one le_rfl hle⟩, hincline.not_boundless⟩

/-- Both solvers say that an objective has no lower bound. The negative of a variable that is only known to
be positive has none, nor has that of a variable with a row that is only known to be positive: the row leaves
the working set. But the objective can also be zero, if the row, by which the variable is at least one, was to
enter for the limit of the variable at zero. -/
theorem unboundedness_explained_ramp :
    (∃ s', (Box.interface ℝ 1).call (.solve Observer.silent () 1 none none) (Box.ramp (10 ^ 20)) =
        (.error (.failed .initFailedUnboundedness), s') ∧ s'.unbounded = true ∧
          Core.Boundless (Box.ramp (10 ^ 20)) (Core.Within (Box.ramp (10 ^ 20)))) ∧
      (∃ s', (Constrained.interface ℝ 1 1).call (.solve Observer.silent () 1 (some #[0]) none)
          (Constrained.incline (-1) (-10 ^ 20) 0) = (.error (.failed .initFailedUnboundedness), s') ∧
        s'.unbounded = true ∧ s'.isActive (.constraint 0) = false ∧
          (Constrained.incline (-1) (-10 ^ 20) 0).Boundless
            (Constrained.incline (-1) (-10 ^ 20) 0).Within) ∧
      ∃ s', (Constrained.interface ℝ 1 1).call (.solve Observer.silent () 1 (some #[0]) none)
          (Constrained.incline 0 0 1) = (.error (.failed .initFailedUnboundedness), s') ∧
        s'.unbounded = true ∧ (∃ d, s'.Flat d) ∧
          (∃ start s1, (Constrained.interface ℝ 1 1).StartsBy (Constrained.incline 0 0 1)
              (.solve Observer.silent () 1 (some #[0]) none) start ∧
            (Constrained.interface ℝ 1 1).method.Condemned start (.add (.constraint 0) .lower) s1 s') ∧
          (∃ x, (Constrained.incline 0 0 1).Within x) ∧
            ¬(Constrained.incline 0 0 1).Boundless (Constrained.incline 0 0 1).Within := by
  refine ⟨?_, ?_, ?_⟩
  · -- the bound is released, and nothing is in the way of the objective
    have hu : (1 : ℝ) ≤ 10 ^ 20 := by norm_num
    have hcourse : Box.courseCalls False _ _ :=
      Box.courseCalls_of_optimalCalls (Box.optimalCalls_ramp hu le_rfl Observer.silent () 1)
    obtain ⟨s', hs'⟩ := Box.call_ramp hu le_rfl
    obtain ⟨hverdict, -, hloosened⟩ := (unboundedness_explained 1 0).2 (Box.ramp (10 ^ 20))
      (Box.reachable_ramp _ (fun _ _ => trivial) _) Box.convex_ramp _
      (Box.exactCalls_of_courseCalls hcourse) _ rfl s' hs'
    obtain ⟨-, i, s1, -, -, -, d, -, -, hslope, hboundless⟩ :=
      hloosened (Box.reachable_ramp _ (fun _ _ => trivial) _) hcourse
    exact ⟨s', hs', hverdict, hboundless (Box.unobstructed_ramp (Box.pos_of_slope hslope) _ _)
      ⟨_, Box.within_ramp (by norm_num) le_rfl⟩⟩
  · -- so is the row
    have hincline : (Constrained.incline (-1) (-10 ^ 20) 0).Incline (-1) (-10 ^ 20) 0 :=
      Constrained.incline_incline (by norm_num) (by norm_num) (by norm_num)
    have hreach := fun admits h =>
      Constrained.reachable_incline admits h (-1) (-10 ^ 20) 0
    obtain ⟨s', hcall, honly⟩ := hincline.call_of_row (Constrained.inOrder_incline _ _ _)
    obtain ⟨hverdict, -, hexplained⟩ := (unboundedness_explained 1 1).1 _
      (hreach _ fun _ _ => trivial) hincline.linear.convex
      (.solve Observer.silent () 1 (some #[0]) none) ⟨hincline.linear.declared, hincline.exact.tolerant⟩
      _ rfl s' hcall
    obtain ⟨start, event, s1, hstarts, hcondemned, hevent⟩ := hexplained (hreach _ fun _ _ => trivial)
      ⟨hincline.linear.declared, hincline.exact, False.elim⟩
    obtain rfl := honly _ _ _ _ hstarts hcondemned
    obtain ⟨a, ha, hleft, d, -, -, hslope, hboundless⟩ | ⟨a, side, hadd⟩ := hevent
    · cases ha
      refine ⟨s', hcall, hverdict, hleft, hboundless (hincline.unobstructed ?_ _ _)
        ⟨_, hincline.within (by norm_num) le_rfl (by norm_num)⟩⟩
      have hfalls : (Constrained.incline (-1) (-10 ^ 20) 0).target.gradient 0 * d 0 < 0 := by
        simpa [Core.slope] using hslope
      rw [hincline.gradient_eq] at hfalls
      linarith
    · cases hadd
  · -- the row takes the place of the bound, and the verdict is wrong
    have hincline : (Constrained.incline 0 0 1).Incline 0 0 1 :=
      Constrained.incline_incline (by norm_num) (by norm_num) (by norm_num)
    have hreach := fun admits h => Constrained.reachable_incline admits h 0 0 1
    obtain ⟨s', hcall, honly⟩ := hincline.call_of_bound le_rfl
      (Constrained.inOrder_incline _ _ _)
    obtain ⟨hverdict, hflat, hexplained⟩ := (unboundedness_explained 1 1).1 _
      (hreach _ fun _ _ => trivial) hincline.linear.convex
      (.solve Observer.silent () 1 (some #[0]) none) ⟨hincline.linear.declared, hincline.exact.tolerant⟩
      _ rfl s' hcall
    obtain ⟨start, event, s1, hstarts, hcondemned, -⟩ := hexplained (hreach _ fun _ _ => trivial)
      ⟨hincline.linear.declared, hincline.exact, False.elim⟩
    obtain rfl := honly _ _ _ _ hstarts hcondemned
    exact ⟨s', hcall, hverdict, hflat, ⟨start, s1, hstarts, hcondemned⟩,
      ⟨_, hincline.within zero_le_one le_rfl (by norm_num)⟩, hincline.not_boundless⟩

end ActiveSet
