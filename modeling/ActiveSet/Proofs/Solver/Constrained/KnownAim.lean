import ActiveSet.Proofs.Solver.Constrained.Singular
import ActiveSet.Proofs.Solver.Observation

/-!
# Steps whose aim is known

If the matrix of the objective is semidefinite, a working set has one aim: two of them would differ by a flat
direction, and there is none (`Aims.unique`). So whoever knows an aim of the working set knows how a step
ends. If one thing only is wrong with the aim, the step comes to this event (`Underway.comes_to`); what the
working set makes of the event is then the only question. For a strictly convex problem with a feasible point
it follows the event (`step_goes`).
-/

namespace ActiveSet.Constrained

open Finset

variable {n m : ℕ} {s s' : Constrained ℝ n m} {z : ℕ → ℝ} {v : Entity n m → ℝ}
  {event : StepEvent n m} {e : Entity n m} {side : Activity}

-- ---------------------------------------------------------------------------
-- Aims are unique
-- ---------------------------------------------------------------------------

/-- The form of the difference of two points at which the gradient is balanced. -/
theorem form_sub_of_balanced {z z' : ℕ → ℝ} {v v' : Entity n m → ℝ}
    (h : ∀ j, j < n → ∑ k ∈ range n, s.hessian j k * z k + s.target.gradient j =
      ∑ a, v a * s.row a j)
    (h' : ∀ j, j < n → ∑ k ∈ range n, s.hessian j k * z' k + s.target.gradient j =
      ∑ a, v' a * s.row a j) :
    form n s.hessian (fun j => z' j - z j) =
      ∑ a, (v' a - v a) * (s.valueOf z' a - s.valueOf z a) := by
  have hway : ∀ a, s.valueOf (fun j => z' j - z j) a = s.valueOf z' a - s.valueOf z a := by
    intro a
    simp only [valueOf, mul_sub, sum_sub_distrib]
  have hbalanced : ∀ j, j < n → ∑ k ∈ range n, s.hessian j k * (z' k - z k) =
      ∑ a, (v' a - v a) * s.row a j := by
    intro j hj
    simp only [mul_sub, sub_mul, sum_sub_distrib]
    rw [← h j hj, ← h' j hj]
    ring
  rw [form, Finset.sum_congr rfl fun j _ => mul_comm (z' j - z j) _,
    sum_mul_valueOf hbalanced fun j => z' j - z j]
  exact Finset.sum_congr rfl fun a _ => by rw [hway]

theorem StrictlyConvex.semidefinite (h : s.StrictlyConvex) : Semidefinite n s.hessian := by
  intro w
  by_cases hw : ∃ i, i < n ∧ w i ≠ 0
  · exact (h.definite w hw).le
  · push Not at hw
    have hzero : form n s.hessian w = 0 :=
      sum_eq_zero fun i hi => by rw [hw i (mem_range.1 hi), zero_mul]
    exact hzero.ge

/-- If the matrix of the objective is semidefinite, a working set has one aim. -/
theorem Aims.unique {z' : ℕ → ℝ} {v' : Entity n m → ℝ} (h : s.Aims z v) (h' : s.Aims z' v')
    (hs : s.Ready) (hdef : Semidefinite n s.hessian) : (∀ j, j < n → z' j = z j) ∧ v' = v := by
  -- the difference of two points is a flat direction
  let d : Tuple ℝ n := Tuple.ofFn n fun j => z' j - z j
  have hentry : ∀ j, j < n → d j = z' j - z j := fun j hj => Tuple.ofFn_apply hj
  have hvalue : ∀ a, s.isActive a = true → s.valueOf d a = 0 := by
    intro a ha
    rw [valueOf_congr hentry, show s.valueOf (fun j => z' j - z j) a = s.valueOf z' a - s.valueOf z a by
      simp only [valueOf, mul_sub, sum_sub_distrib], h.on_limit a ha, h'.on_limit a ha, sub_self]
  have hform : form n s.hessian (fun j => z' j - z j) = 0 := by
    rw [form_sub_of_balanced h.balanced h'.balanced]
    -- what is active has one value, and what is not has no multiplier
    refine sum_eq_zero fun a _ => ?_
    by_cases ha : s.isActive a = true
    · rw [h.on_limit a ha, h'.on_limit a ha, sub_self, mul_zero]
    · rw [Bool.not_eq_true] at ha
      rw [h.inactive a ha, h'.inactive a ha, sub_self, zero_mul]
  have hz : ∀ j, j < n → z' j = z j := by
    by_contra hne
    push Not at hne
    obtain ⟨j, hj, hne⟩ := hne
    refine hs.not_flat (d := d) ⟨⟨⟨j, hj, ?_⟩, fun i hi => ?_, fun i hi => ?_⟩, fun i hi => ?_⟩
    · rw [hentry j hj]
      exact sub_ne_zero.2 hne
    · rw [← hdef.vanishes (fun i j _ _ => hs.symmetric i j) hform.le hi]
      exact Finset.sum_congr rfl fun k hk => by rw [hentry k (mem_range.1 hk)]
    · rw [← s.valueOf_bound d i]
      exact hvalue (.bound i) hi
    · exact hvalue (.constraint i) hi
  -- at one point the multipliers are those of independent rows
  refine ⟨hz, funext fun a => sub_eq_zero.1 ?_⟩
  refine combination_unique hs.inStep.toListed hs.factored.split (c := fun a => v' a - v a)
    (fun a ha => by rw [h.inactive a ha, h'.inactive a ha, sub_self]) (fun j hj => ?_) a
  have hsum : ∑ k ∈ range n, s.hessian j k * z' k = ∑ k ∈ range n, s.hessian j k * z k :=
    Finset.sum_congr rfl fun k hk => by rw [hz k (mem_range.1 hk)]
  simp only [sub_mul, sum_sub_distrib]
  rw [← h.balanced j hj, ← h'.balanced j hj, hsum, sub_self]

/-- What is wrong with an aim does not depend on how it is written down. -/
theorem Objection.of_eq {z' : ℕ → ℝ} {v' : Entity n m → ℝ} (h : s.Objection z v event)
    (hz : ∀ j, j < n → z' j = z j) (hv : v' = v) : s.Objection z' v' event := by
  rw [hv]
  cases h with
  | add hside hinactive hfinite hbeyond =>
    rw [← valueOf_congr hz] at hbeyond
    exact .add hside hinactive hfinite hbeyond
  | remove hactive htype hrepels => exact .remove hactive htype hrepels

/-- At the loaded problem the solver is at its aim. -/
theorem Optimal.aims (h : s.Optimal) (hcurrent : s.current = s.target) : s.Aims s.x s.y.get := by
  have hon := h.on_limit
  have hbalanced := h.stationary
  rw [hcurrent] at hon hbalanced
  exact ⟨hon, hbalanced, h.inactive⟩

-- ---------------------------------------------------------------------------
-- Steps
-- ---------------------------------------------------------------------------

/-- What has been loaded is the same, and so is the working set with the types of its limits. -/
structure SameStanding (s s' : Constrained ℝ n m) : Prop extends s.SameData s' where
  activity : s'.activity = s.activity
  limitType : s'.limitType = s.limitType

theorem SameStanding.trans {s'' : Constrained ℝ n m} (h : s.SameStanding s')
    (h' : s'.SameStanding s'') : s.SameStanding s'' :=
  ⟨h.toSameData.trans h'.toSameData, h'.activity.trans h.activity, h'.limitType.trans h.limitType⟩

/-- A step whose direction is known goes the whole way if nothing is wrong with its aim, and ends with one of
the things that are wrong otherwise. -/
theorem Underway.directed_aims (hs : s.Underway True) {s1 : Constrained ℝ n m}
    (hdirection : determineDirection { s with status := .performingHomotopy } = .ok () s1) :
    s1.Underway True ∧ s1.Follows ∧ s.SameStanding s1 ∧
      ∃ z v, s.Aims z v ∧ (s1.stepLength.2 = .full ∧ (∀ event, ¬s.Objection z v event) ∨
        s1.stepLength.2 ≠ .full ∧ s.Objection z v s1.stepLength.2) := by
  have hs0 := hs.withVerdict .performingHomotopy s.infeasible s.unbounded
  have hdirected := (determineDirection_ensures hs0.inStep).of_ok hdirection
  have hs1 := hdirected.same.underway hs0
  have hf := hdirected.follows hs0.inStep hs0.factored hs0.symmetric
  obtain ⟨z, v, haims, hobjects⟩ := stepLength_objects hs1.optimal hf hs1.epsZero_eq
  obtain ⟨dx, dy, tilt, dax, rfl⟩ := hdirected.same
  have hobjection : ∀ event, Objection { s with
      status := .performingHomotopy, dx, dy, tilt, dax } z v event ↔ s.Objection z v event :=
    fun event => ⟨fun h => h.congr ⟨rfl, rfl, rfl, rfl, rfl⟩ rfl rfl rfl,
      fun h => h.congr ⟨rfl, rfl, rfl, rfl, rfl⟩ rfl rfl rfl⟩
  simp only [hobjection] at hobjects
  exact ⟨hs1, hf, ⟨⟨rfl, rfl, rfl, rfl, rfl⟩, rfl, rfl⟩, z, v,
    haims.congr ⟨rfl, rfl, rfl, rfl, rfl⟩ rfl, hobjects⟩

/-- If one thing is wrong with the aim of a step, the step comes to this event, and the working set has yet
to follow. -/
theorem Underway.comes_to (hs : s.Underway True) (hdef : Semidefinite n s.hessian) (haims : s.Aims z v)
    (hobjection : s.Objection z v event) (honly : ∀ event', s.Objection z v event' → event' = event)
    {s1 : Constrained ℝ n m}
    (hdirection : determineDirection { s with status := .performingHomotopy } = .ok () s1) :
    s1.stepLength.2 = event ∧ (s1.perform s1.stepLength.1 s1.stepLength.2).Underway True ∧
      (s1.perform s1.stepLength.1 s1.stepLength.2).Fits event ∧
        s.SameStanding (s1.perform s1.stepLength.1 s1.stepLength.2) := by
  obtain ⟨hs1, hf, hsame, z1, v1, haims1, hobjects⟩ := hs.directed_aims hdirection
  obtain ⟨hz, hv⟩ := haims.unique haims1 hs.toReady hdef
  -- the aim is unique, and what objects to it is known
  have hevent : s1.stepLength.2 = event := by
    obtain ⟨-, hclear⟩ | ⟨-, hevent⟩ := hobjects
    · exact (hclear _ (hobjection.of_eq hz hv)).elim
    · exact honly _ (hevent.of_eq (fun j hj => (hz j hj).symm) hv.symm)
  have hfits := s1.fits_perform
  rw [hevent] at hfits ⊢
  obtain ⟨hs2, -⟩ := hs1.perform hf
  rw [hevent] at hs2
  refine ⟨rfl, hs2, hfits, hsame.trans ?_⟩
  obtain ⟨x, y, current, ax, hperform⟩ := perform_frame s1.stepLength.1 event s1
  rw [hperform]
  exact ⟨⟨rfl, rfl, rfl, rfl, rfl⟩, rfl, rfl⟩

/-- How a step ends that has a given aim: at the loaded problem, if nothing is wrong with the aim, and
otherwise with a working set that has followed one of the things that are wrong. -/
inductive Goes (s : Constrained ℝ n m) (z : ℕ → ℝ) (v : Entity n m → ℝ) (it : Iteration ℝ n m)
    (s' : Constrained ℝ n m) : Prop
  | arrives (hclear : ∀ event, ¬s.Objection z v event) (hevent : it.event = .full)
    (hstatus : s'.status = .solved) (hcurrent : s'.current = s'.target) : Goes s z v it s'
  | turns (hobjection : s.Objection z v it.event) (hevent : it.event ≠ .full)
    (hstatus : s'.status = .homotopySolved) : Goes s z v it s'

/-- A step of a strictly convex problem with a feasible point leads to a solution on the way to the same
problem, with a working set that has followed its event. -/
theorem step_goes (hs : s.Underway True) (hstart : s.status.isStart = true)
    (hconvex : s.StrictlyConvex) (hfeasible : ∃ x, s.Feasible x) (index : ℕ) :
    ((method : Method ℝ n m (Constrained ℝ n m)).step index).Ensures s
      (fun it s' => s'.Underway True ∧ s.SameData s' ∧ it.event.Alters s.standing s'.standing ∧
        ∃ z v, s.Aims z v ∧ s.Goes z v it s') fun _ _ => False := by
  have hP : (method : Method ℝ n m (Constrained ℝ n m)).Respects (optimalPhases True s.SameData) :=
    respects_course_method fun _ _ h h' => h.trans h'
  have hmoving : (optimalPhases True s.SameData).moving s := ⟨hs, ⟨rfl, rfl, rfl, rfl, rfl⟩⟩
  -- a step keeps the optimum, cannot break off, and says what it does to the working set
  have hkeeps := hP.step_ensures index hmoving hstart
  have hunbroken := hP.step_of_unbroken index hmoving (unbroken hs.toMoving hconvex)
  have htells := recordable.step_tells (respects_method (n := n) (m := m) (K := ℝ) (by simp)) index
    (s := s) hs.inStep
  refine (((hkeeps.and hunbroken).and htells).and (method.step_spec index s)).mono ?_ ?_
  · rintro it s' ⟨⟨⟨hkept, -⟩, htells⟩, hstepped⟩
    have halters := htells.alters
    rw [standing_eq, standing_eq] at halters
    have harrived := fun hevent : it.event = .full => (if_pos hevent).mp hkept
    have hturned := fun hevent : it.event ≠ .full => (if_neg hevent).mp hkept
    cases hstepped with
    -- a full step means that no entity is in the way of the aim
    | full hdirection hevent =>
      obtain ⟨-, -, -, z, v, haims, hobjects⟩ := hs.directed_aims hdirection
      obtain ⟨⟨⟨hs', hcurrent⟩, hdata⟩, hstatus⟩ := harrived hevent
      obtain ⟨-, hclear⟩ | ⟨hnot, -⟩ := hobjects
      · exact ⟨hs', hdata, halters, z, v, haims,
          .arrives hclear hevent hstatus hcurrent⟩
      · exact absurd hevent hnot
    -- an event means that one is
    | changed hdirection hevent =>
      obtain ⟨-, -, -, z, v, haims, hobjects⟩ := hs.directed_aims hdirection
      obtain ⟨⟨hs', hdata⟩, hstatus⟩ := hturned hevent
      obtain ⟨hfull, -⟩ | ⟨-, hobjection⟩ := hobjects
      · exact absurd hfull hevent
      · exact ⟨hs', hdata, halters, z, v, haims, .turns hobjection hevent hstatus⟩
  · -- a step of a strictly convex problem ends early only if no point is feasible
    rintro f s' ⟨⟨⟨⟨e, rfl, hhalted⟩, herror, -⟩, -⟩, -⟩
    cases herror
    obtain ⟨x, hx⟩ := hfeasible
    obtain ⟨⟨hnone, hdata⟩, -⟩ := hhalted.blocked
    exact hnone trivial x ((hdata.feasible_iff x).2 hx)

end ActiveSet.Constrained
