import ActiveSet.Proofs.Solver.Constrained.Optimum
import ActiveSet.Proofs.Solver.Constrained.SingleLimit

/-!
# The verdict of infeasibility is sound

A solver gives up when an entity that has reached its limit depends on the working set and none can
leave for it. This happens somewhere on the way to the loaded problem, and it is found by looking at
the signs of a few coefficients. Over the real numbers, and with tolerances of zero, these are the
coefficients of a combination of the loaded limits that no point can satisfy
(`infeasibility_sound`).
-/

namespace ActiveSet

variable {n m : ℕ} {s : Constrained ℝ n m}

/-- A point is within the loaded limits of all variables and of all rows. -/
def Constrained.Admits (s : Constrained ℝ n m) (x : Fin n → ℝ) : Prop :=
  (∀ j : Fin n, s.target.lower j ≤ x j ∧ x j ≤ s.target.upper j) ∧
    ∀ i : Fin m, s.target.rowLower i ≤ ∑ j : Fin n, s.matrix i j * x j ∧
      ∑ j : Fin n, s.matrix i j * x j ≤ s.target.rowUpper i

theorem Constrained.Admits.feasible {x : Fin n → ℝ} (h : s.Admits x) :
    s.Feasible fun j => if hj : j < n then x ⟨j, hj⟩ else 0 := by
  obtain ⟨hbounds, hrows⟩ := h
  intro e
  cases e with
  | bound i =>
    rw [Constrained.valueOf_bound, dif_pos i.isLt]
    exact hbounds i
  | constraint i =>
    have hvalue : s.valueOf (fun j => if hj : j < n then x ⟨j, hj⟩ else 0) (.constraint i) =
        ∑ j : Fin n, s.matrix i j * x j := by
      rw [Constrained.valueOf, Finset.sum_range]
      refine Finset.sum_congr rfl fun j _ => ?_
      rw [dif_pos j.isLt]
      rfl
    rw [hvalue]
    exact hrows i

theorem Constrained.checkLimits_ne (s : Constrained ℝ n m) :
    s.checkLimits ≠ .error .hotstartStoppedInfeasibility := by
  intro h
  rcases checkLimits_error h with h | h <;> cases h

/-- When a solve says that no point is feasible, none is within the limits that were loaded for it,
and the solver remembers the verdict. -/
theorem infeasibility_sound (n m : ℕ) (s : Constrained ℝ n m)
    (hs : (Constrained.interface ℝ n m).Reachable Constrained.optimalCalls s)
    (c : Call ℝ n m (Constrained.Loading ℝ)) (hc : Constrained.optimalCalls c s) (e : QpError)
    (he : c.infeasibility = some e) (s' : Constrained ℝ n m)
    (hcall : (Constrained.interface ℝ n m).call c s = (.error (.failed e), s')) :
    s'.infeasible = true ∧ ¬∃ x, s.Admits x := by
  have hsettled := Constrained.settled_optimal hs
  -- what is loaded stays the same during a call
  have hI := Constrained.respects_optimal (p := s.SameData) fun _ _ h h' => h.trans h'
  obtain ⟨⟨hnone, hdata⟩, hverdict⟩ := hI.blocked_of_call hsettled
    ⟨hc, ⟨rfl, rfl, rfl, rfl, rfl⟩⟩ he s.checkLimits_ne hcall
  refine ⟨hverdict, ?_⟩
  rintro ⟨x, hx⟩
  exact hnone trivial _ ((hdata.feasible_iff _).2 hx.feasible)

-- ---------------------------------------------------------------------------
-- A step that cannot be made
-- ---------------------------------------------------------------------------

namespace Constrained

variable {s' : Constrained ℝ n m} {e : Entity n m} {side : Activity} {z : ℕ → ℝ}
  {v : Entity n m → ℝ} {w : PreparedRow ℝ}

/-- When the coefficients of such an entity have been computed, nothing is found that could leave. -/
theorem Walled.firstLeaving_eq_none (h : s.Walled e side) (hs : s.Moving)
    (heps : s.parameters.epsDependent = 0) (hw : s.Prepared w e) (hind : w.independent = false)
    (he : s.CanEnter side e) (hdependent : s.Dependent e w s') : s'.firstLeaving e side = none := by
  obtain ⟨c, hinactive, hrow, hsign⟩ := h
  obtain ⟨hentering, htype, hside⟩ := canEnter_spec hs.inStep he
  obtain ⟨hrow', hinactive'⟩ := hdependent.row_eq hs.inStep.toListed hs.factored.split hw heps
    (congrArg Activity.isActive hentering) hind
  obtain ⟨hkept, hactivity, -⟩ := hdependent.kept
  -- there are no other coefficients
  have hsame : ∀ a, s'.dependency.get a = c a := fun a => sub_eq_zero.1 <|
    combination_unique hs.inStep.toListed hs.factored.split (c := fun a => s'.dependency.get a - c a)
      (fun a ha => by rw [hinactive a ha, hinactive' a ha, sub_self])
      (fun j hj => by
        simp only [sub_mul, Finset.sum_sub_distrib]
        rw [← hrow j hj, ← hrow' j hj, sub_self]) a
  refine firstLeaving_eq_none_iff.2 fun flip hflip => leaving_eq_none_iff.2 fun a => ?_
  obtain rfl : flip = decide (side = .upper) := by
    unfold directions at hflip
    rw [hkept.type_eq, if_neg htype] at hflip
    rcases hside with rfl | rfl <;> simpa using hflip
  by_contra hsome
  obtain ⟨t, ht⟩ := Option.ne_none_iff_exists'.1 hsome
  obtain ⟨htype', -, hactive⟩ := (leavingAmount_eq_some_iff (by rw [hkept.parameters, heps])).1 ht
  rw [hkept.type_eq] at htype'
  rw [hsame, hactivity] at hactive
  obtain ⟨hlower, hupper⟩ := hsign a htype'
  rcases hactive with ⟨hside, hpos⟩ | ⟨hside, hneg⟩
  · exact absurd hpos (not_lt.2 (hlower hside))
  · exact absurd hneg (not_lt.2 (hupper hside))

/-- So it does not enter. -/
theorem Walled.not_changed (h : s.Walled e side) (hs : s.Moving)
    (heps : s.parameters.epsDependent = 0) (he : s.CanEnter side e) : ¬s.Changed (.add e side) s' := by
  -- reordering the free variables changes nothing about the wall
  have hreordered {s1 : Constrained ℝ n m} (hreordered : s.Reordered s1) :
      s1.Moving ∧ s1.Walled e side ∧ s1.parameters.epsDependent = 0 ∧ s1.CanEnter side e := by
    obtain ⟨hkept, hactivity, -⟩ := hreordered.kept
    refine ⟨hreordered.moving hs, h.congr hkept.toSameData hactivity hkept.type_eq, ?_,
      hreordered.canEnter he⟩
    rw [hkept.parameters, heps]
  intro hchanged
  cases hchanged with
  | added hreorder hw hind =>
    -- the row is not independent, so it cannot be added
    obtain ⟨hs1, h1, heps1, -⟩ := hreordered hreorder
    rw [hw.independent_of_dependsOn hs1.inStep.toListed hs1.factored.split heps1.ge h1.dependsOn] at hind
    cases hind
  | exchanged hreorder hw hind hexchanged =>
    -- and nothing stands back for it, so it cannot be exchanged
    obtain ⟨hs1, h1, heps1, he1⟩ := hreordered hreorder
    cases hexchanged with
    | intro hswapped =>
      obtain ⟨s2, -, hdependent, hleaving, -⟩ := hswapped.chain
      rw [h1.firstLeaving_eq_none hs1 heps1 hw hind he1 hdependent] at hleaving
      cases hleaving

/-- If that is the only thing wrong with the aim of a step, the step fails for infeasibility. -/
theorem step_of_walled (hs : s.Underway True) (hconvex : s.StrictlyConvex) (haims : s.Aims z v)
    (hobjection : s.Objection z v (.add e side))
    (honly : ∀ event, s.Objection z v event → event = .add e side) (h : s.Walled e side) (index : ℕ) :
    ((method : Method ℝ n m (Constrained ℝ n m)).step index).Ensures s (fun _ _ => False)
      fun f _ => f = .failed .hotstartStoppedInfeasibility := by
  have hP : (method : Method ℝ n m (Constrained ℝ n m)).Respects
      (optimalPhases True fun _ => True) := respects_course_method fun _ _ _ _ => trivial
  have hends := hP.step_of_unbroken index ⟨hs, trivial⟩ (unbroken hs.toMoving hconvex)
  refine ((method.step_spec index s).and hends).mono (fun it s' ⟨hstepped, _⟩ => ?_)
    fun _ _ hfailed => hfailed.2.1
  -- a step that succeeds has come to this event, and the working set has followed
  cases hstepped with
  | full hdirection hevent =>
    obtain ⟨hadd, -⟩ := hs.comes_to hconvex.semidefinite haims hobjection honly hdirection
    exact nomatch hadd.symm.trans hevent
  | @changed s1 s2 hdirection hevent hchange =>
    obtain ⟨hadd, hs2, hfits, hsame⟩ :=
      hs.comes_to hconvex.semidefinite haims hobjection honly hdirection
    change changeWorkingSet s1.stepLength.2 (s1.perform s1.stepLength.1 s1.stepLength.2) = _ at hchange
    rw [hadd] at hs2 hfits hsame hchange
    obtain ⟨hchanged, -⟩ := (changeWorkingSet_ensures hs2.inStep
      (show StepEvent.add e side ≠ .full from nofun) hfits).of_ok hchange
    exact (h.congr hsame.toSameData hsame.activity fun a => congrFun hsame.limitType a).not_changed
      hs2.toMoving hs2.epsDependent_eq hfits hchanged

-- ---------------------------------------------------------------------------
-- An instance
-- ---------------------------------------------------------------------------

/-- The tied variable is pulled upwards, and the row is to be above a limit. -/
noncomputable def barred (g r : ℝ) : Constrained ℝ 1 1 :=
  [Call.load (.core (.gradient #[-g])), .load (.rowLower #[r]),
    .load (.rowUpper #[exactParameters.infinity])].foldl
      (fun s c => ((Constrained.interface ℝ 1 1).call c s).2) tied

theorem barred_eq (g r : ℝ) : barred g r = { tied with target := { tied.target with
    gradient := Tuple.ofFn 1 fun i => Core.clamp exactParameters.infinity (#[-g].getD i 0)
    rowLower := Tuple.ofFn 1 fun i => Core.clamp exactParameters.infinity (#[r].getD i 0)
    rowUpper := Tuple.ofFn 1 fun i =>
      Core.clamp exactParameters.infinity (#[exactParameters.infinity].getD i 0) } } :=
  rfl

theorem reachable_barred : (Constrained.interface ℝ 1 1).Reachable optimalCalls (barred 3 2) :=
  .call _ (.call _ (.call _ (reachable_tied fun _ _ => trivial) trivial) trivial) trivial

theorem parameters_barred : (barred 3 2).parameters = exactParameters := by
  rw [barred_eq]
  exact parameters_tied

theorem hessian_barred : (barred 3 2).hessian = square.hessian := by
  rw [barred_eq, tied_eq]

theorem gradient_barred : (barred 3 2).target.gradient 0 = -3 := by
  rw [barred_eq]
  exact (Tuple.ofFn_apply Nat.zero_lt_one).trans (clamp_exactParameters (by norm_num [abs_le]))

theorem row_barred (e : Entity 1 1) : (barred 3 2).row e 0 = 1 := by
  rw [barred_eq]
  exact row_tied e

theorem limits_barred_bound :
    (barred 3 2).target.lowerOf (.bound 0) = 0 ∧ (barred 3 2).target.upperOf (.bound 0) = 1 := by
  rw [barred_eq]
  exact limits_tied_bound

theorem limits_barred_constraint :
    (barred 3 2).target.lowerOf (.constraint 0) = 2 ∧
      (barred 3 2).target.upperOf (.constraint 0) = 10 ^ 20 := by
  rw [barred_eq]
  exact ⟨(Tuple.ofFn_apply Nat.zero_lt_one).trans (clamp_exactParameters (by norm_num [abs_le])),
    (Tuple.ofFn_apply Nat.zero_lt_one).trans clamp_infinity⟩

/-- The limits of both entities have a gap. -/
theorem gap_barred (e : Entity 1 1) : 0 ≤ (barred 3 2).target.lowerOf e ∧
    1 / 2 ≤ (barred 3 2).target.upperOf e - (barred 3 2).target.lowerOf e := by
  obtain rfl | rfl := entity_of_one e
  · rw [limits_barred_bound.1, limits_barred_bound.2]
    norm_num
  · rw [limits_barred_constraint.1, limits_barred_constraint.2]
    norm_num

theorem loadedType_barred (e : Entity 1 1) : (barred 3 2).loadedType e = .bounded :=
  loadedType_of_gap parameters_barred (gap_barred e).1 (gap_barred e).2

theorem declared_barred : (barred 3 2).Declared := by
  rw [barred_eq, tied_eq]
  exact ⟨declared_square.symmetric, declared_square.identity⟩

theorem strictlyConvex_barred : (barred 3 2).StrictlyConvex := by
  rw [barred_eq, tied_eq]
  exact ⟨strictlyConvex_square.definite, rfl, rfl, rfl⟩

theorem exact_barred : (barred 3 2).Exact := by
  rw [barred_eq, tied_eq]
  exact ⟨rfl, rfl, le_rfl, exact_square.relaxation_nonneg⟩

theorem equalLimits_barred : (barred 3 2).EqualLimits := fun e htype => by
  cases (loadedType_barred e).symm.trans htype

/-- The solution without the row, at which the variable is on its upper limit. -/
noncomputable def barredGuess (r : ℝ) : Guess ℝ 1 1 := ⟨some (point 1), some (multipliers 1 #[r, 0])⟩

theorem wantedSide_barred : (barred 3 2).wantedSide (barredGuess (-2)) (.bound 0) = .upper := by
  have hvalue : (barred 3 2).valueOf (point 1) (.bound 0) = 1 := valueOf_bound _ _ _
  have heps : (barred 3 2).parameters.epsBound = 1 / 10 ^ 10 := by
    rw [parameters_barred, epsBound_exactParameters]
  have hinfinity : (barred 3 2).parameters.infinity = 10 ^ 20 := by
    rw [parameters_barred, infinity_exactParameters]
  have hside : (barred 3 2).guessedSide (barredGuess (-2)) (.bound 0) = .upper := by
    rw [guessedSide, loadedType_barred, limits_barred_bound.1, limits_barred_bound.2]
    refine guessedActivity_upper (fun hnear => ?_) ?_ ?_
    · have hnear : |(barred 3 2).valueOf (point 1) (.bound 0) - 0| ≤ _ := hnear.2
      rw [hvalue, heps] at hnear
      norm_num at hnear
    · rw [hinfinity]
      norm_num
    · show |1 - (barred 3 2).valueOf (point 1) (.bound 0)| ≤ _
      rw [hvalue, heps]
      norm_num
  rw [wantedSide, hside]
  exact if_neg fun h => by cases h.2.1

/-- The homotopy starts with the variable on its upper limit and the row outside the working set. -/
theorem prepare_barred : ∃ start, prepare (barredGuess (-2)) (barred 3 2).reset = .ok () start ∧
    start.Underway True ∧ (barred 3 2).SameData start ∧ start.activity (.bound 0) = .upper ∧
      start.activity (.constraint 0) = .inactive := by
  have hwanted : (barred 3 2).Wanted (barredGuess (-2)) (.bound 0) :=
    congrArg Activity.isActive wantedSide_barred
  -- the bound is guessed to be active, and the row depends on it
  have hin : (barred 3 2).startingSet (barredGuess (-2)) 1 (.bound 0) := (startingSet_bound 0).2 hwanted
  have hdepends :
      (barred 3 2).DependsOn ((barred 3 2).startingSet (barredGuess (-2)) 0) (.constraint 0) :=
    dependsOn_of_row_eq row_barred ((startingSet_bound 0).2 hwanted)
  have hout : ¬(barred 3 2).startingSet (barredGuess (-2)) 1 (.constraint 0) := fun hmem =>
    ((startingSet_constraint 0).1 hmem).2.2 hdepends
  have hunobstructed : ¬(barred 3 2).Obstructed (barredGuess (-2)) := by
    rintro ⟨i, htype, -⟩
    rw [loadedType_barred] at htype
    cases htype
  obtain ⟨start, hprepare, hsetup, hs, -, hstarts⟩ := prepare_of_strictlyConvex (s := barred 3 2)
    ((inOrder_fresh 1 1).congr rfl rfl) declared_barred strictlyConvex_barred
    (fun e => by linarith [(gap_barred e).2]) hunobstructed
  have hexact := exact_barred
  exact ⟨start, hprepare, hsetup.underway declared_barred.reset
    ⟨hexact.epsZero_eq, hexact.epsDependent_eq, hexact.epsDefinite_nonneg, hexact.relaxation_nonneg⟩
    (fun _ => equalLimits_barred) hs, (barred 3 2).sameData_reset.trans hsetup.sameData,
    (hstarts.activity_eq _ hin).trans wantedSide_barred, hstarts.inactive _ hout⟩

section Barred

variable {s : Constrained ℝ 1 1} (hdata : (barred 3 2).SameData s)
  (hbound : s.activity (.bound 0) = .upper) (hrow : s.activity (.constraint 0) = .inactive)
include hdata hbound

/-- The row is that of the variable, which cannot be given up for it. -/
theorem walled_of_barred : s.Walled (.constraint 0) .lower := by
  have hrow1 : ∀ e, s.row e 0 = 1 := fun e => by rw [hdata.row_eq, row_barred]
  refine ⟨fun e => if e = .bound 0 then 1 else 0, fun a ha => if_neg ?_, fun j hj => ?_,
    fun a _ => ⟨fun hlower => ?_, fun _ => ?_⟩⟩
  · rintro rfl
    rw [isActive, hbound] at ha
    cases ha
  · obtain rfl : j = 0 := by omega
    simp [hrow1]
  · obtain rfl | rfl := entity_of_one a
    · rw [hbound] at hlower
      cases hlower
    · refine (mul_eq_zero_of_right _ ?_).le
      exact if_neg fun h => by cases h
  · rw [show sign (Activity.lower = .upper) = 1 from if_neg (by decide), one_mul]
    show (0 : ℝ) ≤ if a = .bound 0 then 1 else 0
    split <;> norm_num

include hrow

/-- The variable is to stay where it is, with a multiplier that holds it there. -/
theorem aims_of_barred : s.Aims (fun _ => 1) fun e => if e = .bound 0 then -2 else 0 := by
  have hrow1 : ∀ e, s.row e 0 = 1 := fun e => by rw [hdata.row_eq, row_barred]
  refine ⟨fun a ha => ?_, fun j hj => ?_, fun a ha => if_neg ?_⟩
  · obtain rfl | rfl := entity_of_one a
    · rw [valueOf_bound, hbound, hdata.target]
      exact limits_barred_bound.2.symm
    · rw [isActive, hrow] at ha
      cases ha
  · obtain rfl : j = 0 := by omega
    rw [Finset.sum_range_one, hdata.hessian, hessian_barred, hessian_square, hdata.target,
      gradient_barred]
    simp only [Entity.sum_eq, Fin.sum_univ_one, hrow1, and_self, if_true]
    rw [if_neg fun h => by cases h]
    norm_num
  · rintro rfl
    rw [isActive, hbound] at ha
    cases ha

/-- What is wrong with that is the lower limit of the row. -/
theorem objection_of_barred (hs : s.Underway True) (event : StepEvent 1 1) :
    s.Objection (fun _ => 1) (fun e => if e = .bound 0 then -2 else 0) event ↔
      event = .add (.constraint 0) .lower := by
  have htyped := hs.typed trivial
  have hvalue : s.valueOf (fun _ => 1) (.constraint 0) = 1 := by
    rw [valueOf, Finset.sum_range_one, hdata.row_eq, row_barred, mul_one]
  have hinfinity : s.parameters.infinity = 10 ^ 20 := by
    rw [hdata.parameters, parameters_barred, infinity_exactParameters]
  constructor
  · -- the row has no upper limit, and the bound's multiplier keeps the sign of its side
    intro hobjection
    cases hobjection with
    | @add a side hside hinactive hfinite =>
      obtain rfl | rfl := entity_of_one a
      · rw [hbound] at hinactive
        cases hinactive
      · rcases hside with rfl | rfl
        · rfl
        · have hfinite := (htyped _).2.2.1 hfinite
          rw [hdata.target, limits_barred_constraint.2, hinfinity] at hfinite
          exact absurd hfinite (lt_irrefl _)
    | @remove a hactive htype hrepels =>
      obtain rfl | rfl := entity_of_one a
      · rw [hbound, if_pos rfl] at hrepels
        unfold Repels at hrepels
        rw [if_pos rfl] at hrepels
        norm_num at hrepels
      · rw [hrow] at hactive
        rcases hactive with h | h <;> cases h
  · -- at the aim the row lies below its lower limit
    rintro rfl
    refine .add (.inl rfl) hrow ((htyped _).2.1.2 ?_) ?_
    · rw [hdata.target, limits_barred_constraint.1, hinfinity]
      norm_num
    · show s.valueOf _ _ < s.target.lowerOf (.constraint 0)
      rw [hvalue, hdata.target, limits_barred_constraint.1]
      norm_num

end Barred

end Constrained

/-- The variable is at its upper limit of one, the row is that of the variable and would have to be two, and
there is nothing that could leave for it. -/
theorem infeasibility_sound_barred : ∃ s',
    (Constrained.interface ℝ 1 1).call (.solve Observer.silent () 1 (some #[1]) (some #[-2, 0]))
        (Constrained.barred 3 2) = (.error (.failed .initFailedInfeasibility), s') ∧
      s'.infeasible = true ∧ ¬∃ x, (Constrained.barred 3 2).Admits x := by
  -- the guess puts the bound on its upper limit and keeps the row out
  obtain ⟨start, hprepare, hs, hdata, hbound, hrow⟩ := Constrained.prepare_barred
  have hs0 := hs.withVerdict start.status false false
  have hdata0 : (Constrained.barred 3 2).SameData (Constrained.method.clearVerdict start) :=
    hdata.trans ⟨rfl, rfl, rfl, rfl, rfl⟩
  -- the row objects to the aim, and nothing else does
  have hiff := Constrained.objection_of_barred hdata0 hbound hrow hs0
  have hstep := Constrained.step_of_walled hs0 (Constrained.strictlyConvex_barred.congr hdata0)
    (Constrained.aims_of_barred hdata0 hbound hrow) ((hiff _).2 rfl) (fun event => (hiff event).1)
    (Constrained.walled_of_barred hdata0 hbound) 0
  have hstarts : (Constrained.interface ℝ 1 1).StartsBy (Constrained.barred 3 2)
      (.solve Observer.silent () 1 (some #[1]) (some #[-2, 0])) start :=
    .prepared (Constrained.ofArrays_point 1 rfl) hprepare
  -- the one step fails, and so does the call
  obtain ⟨f, s', hrun, rfl⟩ := hstep.exists_error
  have hcall := hstarts.call_of_failing (by exact one_pos) hrun
  exact ⟨s', hcall, infeasibility_sound 1 1 (Constrained.barred 3 2) Constrained.reachable_barred
    (.solve Observer.silent () 1 (some #[1]) (some #[-2, 0]))
    ⟨Constrained.declared_barred, Constrained.exact_barred, Constrained.equalLimits_barred⟩
    .initFailedInfeasibility rfl s' hcall⟩

end ActiveSet
