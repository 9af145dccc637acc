import ActiveSet.Proofs.Solver.BoundsOnly.Companions
import ActiveSet.Proofs.Solver.Optimality

/-!
# Solutions and factors of problems with bounds only

The factor of a solver for bounds is patched column by column, and its point and multipliers are moved
along directions that come from it. Over the real numbers and with tolerances of zero nothing is lost by
that: in every state from which a homotopy can start, the factor is the one that a factorization from
scratch would compute, and point and multipliers solve the current problem (`box_solutions_exact`).

The factor is an invariant of the solver itself. That the solution is exact is known of the solver with
constraints already; a solver for bounds takes part in it, as every state of the one has a companion
among the states of the other (`Box.Companion`).

* `Box.FactorValid`: the factor is the only one with a positive diagonal, for the free variables.
* `Box.Solves`: the optimality conditions of a problem with bounds.
-/

namespace ActiveSet

variable {n : ℕ}

namespace Box

variable {s s' : Box ℝ n}

-- ---------------------------------------------------------------------------
-- Factors and solutions
-- ---------------------------------------------------------------------------

/-- The matrix of the objective over the free variables, in the order of their list. -/
def freeBlock (s : Box ℝ n) : Matrix (Fin s.free.length) (Fin s.free.length) ℝ :=
  Matrix.of fun p r => s.hessian s.free[p] s.free[r]

/-- `R`, of the dimension of the free variables. -/
def triangularFactor (s : Box ℝ n) : Matrix (Fin s.free.length) (Fin s.free.length) ℝ :=
  Matrix.of fun i j => s.factor.entries i j

/-- A matrix is upper triangular, and its diagonal is positive. -/
structure Triangular {d : ℕ} (R : Matrix (Fin d) (Fin d) ℝ) : Prop where
  upper : ∀ i j, j < i → R i j = 0
  diag_pos : ∀ i, 0 < R i i

/-- The factor belongs to the free variables in their present order, and it is the one that would be
computed for them from scratch. -/
structure FactorValid (s : Box ℝ n) : Prop where
  nodup : s.free.Nodup
  mem_free : ∀ i, i ∈ s.free ↔ s.bounds.isActive i = false
  dim_eq : s.factor.dim = s.free.length
  triangular : Triangular s.triangularFactor
  product : s.triangularFactor.transpose * s.triangularFactor = s.freeBlock
  unique : ∀ R, Triangular R → R.transpose * R = s.freeBlock → R = s.triangularFactor
  rebuilt : ∀ (tolerance : ℝ) (f : Cholesky ℝ n), 0 ≤ tolerance →
    s.factor.factorize? s.free.length s.freeHessian tolerance = some (.ok f) →
      f.dim = s.factor.dim ∧
        ∀ i j, i < s.free.length → j < s.free.length → f.entries i j = s.factor.entries i j
  rebuilds : ∃ f, s.factor.factorize? s.free.length s.freeHessian 0 = some (.ok f)

/-- Point and multipliers satisfy the optimality conditions of a problem: the gradient of the objective
is the vector of multipliers, fixed variables are on their limits, all finite limits hold, and every
multiplier has the sign of its side. That of an equality may have either sign. -/
structure Solves (s : Box ℝ n) (d : Data ℝ n 0) : Prop where
  stationary : ∀ j : Fin n, ∑ k : Fin n, s.hessian j k * s.x k + d.gradient j = s.y.bound j
  at_lower : ∀ i : Fin n, s.bounds.activity i = .lower → s.x i = d.lower i
  at_upper : ∀ i : Fin n, s.bounds.activity i = .upper → s.x i = d.upper i
  lower_le : ∀ i : Fin n, s.bounds.hasSide i .lower = true → d.lower i ≤ s.x i
  le_upper : ∀ i : Fin n, s.bounds.hasSide i .upper = true → s.x i ≤ d.upper i
  inactive : ∀ i : Fin n, s.bounds.isActive i = false → s.y.bound i = 0
  nonneg : ∀ i : Fin n, s.bounds.activity i = .lower → s.bounds.limitType i ≠ .equality →
    0 ≤ s.y.bound i
  nonpos : ∀ i : Fin n, s.bounds.activity i = .upper → s.bounds.limitType i ≠ .equality →
    s.y.bound i ≤ 0

-- ---------------------------------------------------------------------------
-- The factor
-- ---------------------------------------------------------------------------

theorem freeHessian_eq (s : Box ℝ n) (p r : Fin s.free.length) :
    s.freeHessian p r = s.freeBlock p r := by
  unfold freeHessian
  rw [gather_of_lt p.isLt, gather_of_lt r.isLt]
  rfl

theorem Ready.factorValid (h : s.Ready) : s.FactorValid := by
  obtain ⟨hs, ⟨htriangular, hpos⟩, hsymm⟩ := h
  have hdim := hs.dim_eq
  have hupper := htriangular.upper
  have hproduct := htriangular.product
  rw [hdim] at hupper hproduct
  refine ⟨hs.listed.nodup, hs.listed.mem_iff, hdim, ⟨fun i j hji => hupper i j hji i.isLt,
    fun i => hpos i (i.isLt.trans_eq hdim.symm)⟩, ?_, fun R hR hprod => ?_, fun tolerance f htol hf => ?_, ?_⟩
  · ext i j
    rw [Matrix.mul_apply, ← freeHessian_eq, ← hproduct i j i.isLt j.isLt, Finset.sum_range]
    rfl
  · -- the matrix as an array of the dimension of the factor
    let E (i j : ℕ) : ℝ := if h : i < s.free.length ∧ j < s.free.length then R ⟨i, h.1⟩ ⟨j, h.2⟩ else 0
    have hE : ∀ i j : Fin s.free.length, E i j = R i j := fun i j => dif_pos ⟨i.isLt, j.isLt⟩
    ext i j
    rw [← hE]
    refine htriangular.eq_entries_of_positive hpos (fun a b hba ha => ?_) (fun a ha => ?_)
      (fun a b ha hb => ?_) (i.isLt.trans_eq hdim.symm) (j.isLt.trans_eq hdim.symm)
    · rw [hdim] at ha
      exact (hE ⟨a, ha⟩ ⟨b, Nat.lt_trans hba ha⟩).trans (hR.upper _ _ hba)
    · rw [hdim] at ha
      exact (hR.diag_pos ⟨a, ha⟩).trans_eq (hE ⟨a, ha⟩ ⟨a, ha⟩).symm
    · rw [hdim] at ha hb ⊢
      have hab := congrFun (congrFun hprod ⟨a, ha⟩) ⟨b, hb⟩
      rw [← freeHessian_eq, Matrix.mul_apply] at hab
      rw [Finset.sum_range, ← hab]
      exact Finset.sum_congr rfl fun k _ => congrArg₂ (· * ·) (hE k ⟨a, ha⟩) (hE k ⟨b, hb⟩)
  · obtain ⟨hfdim, hfactors⟩ := Cholesky.factors_factorize htol
      (fun i j hi hj => freeHessian_comm hsymm hi hj) hf
    refine ⟨hfdim.trans hdim.symm, fun i j hi hj => ?_⟩
    exact htriangular.entries_eq_of_positive hpos hfactors (Cholesky.positive_factorize htol hf)
      (hfdim.trans hdim.symm) (hdim ▸ hi) (hdim ▸ hj)
  · rw [← hdim]
    exact htriangular.factorize_ok

-- ---------------------------------------------------------------------------
-- Solutions
-- ---------------------------------------------------------------------------

variable {t : Constrained ℝ n 0}

/-- What a companion solves is solved. -/
theorem Companion.solves (h : Companion True s t) {d : Data ℝ n 0} (hd : t.Solves d) : s.Solves d := by
  have hst := h.matched.agrees
  obtain ⟨c⟩ := t
  cases hst
  refine ⟨fun j => ?_, fun i => hd.at_lower (.bound i), fun i => hd.at_upper (.bound i),
    fun i => hd.lower_le (.bound i), fun i => hd.le_upper (.bound i),
    fun i => hd.inactive (.bound i), fun i => hd.nonneg (.bound i), fun i => hd.nonpos (.bound i)⟩
  have hstationary := hd.stationary j
  rwa [Fin.sum_univ_zero, add_zero] at hstationary

/-- Between all calls the current problem is solved while a homotopy can start. -/
theorem Companion.solves_current (h : Companion True s t) (hstart : s.status.isStart = true) :
    s.Solves s.current := by
  have hst := h.matched.agrees
  obtain ⟨-, hstatus | ⟨-, -, hoptimal⟩⟩ := Constrained.settled_course h.reachable
  · rw [← hst.status, hstatus] at hstart
    cases hstart
  · have hsolves := h.solves hoptimal.solves
    rwa [hst.current] at hsolves

/-- A solve that succeeds ends at a solution of the loaded problem. -/
theorem Companion.solves_target (h : Companion True s t) {c : Call ℝ n 0 (Core.Loading ℝ)}
    (hsolve : c.isSolve = true) (hc : Box.courseCalls True c s) {k : ℕ}
    (hcall : (Box.interface ℝ n).call c s = (.ok k, s')) :
    s'.current = s.target ∧ s'.Solves s.target ∧
      ∀ i : Fin n, (-s.parameters.infinity < s.target.lower i → s.target.lower i ≤ s'.x i) ∧
        (s.target.upper i < s.parameters.infinity → s'.x i ≤ s.target.upper i) := by
  have hst := h.matched.agrees
  obtain ⟨t', hout, h'⟩ := h.exists_call hc hcall
  have hsolve' : (c.mapLoad loadCompanion).isSolve = true := by
    cases c <;> exact hsolve
  -- what is loaded stays the same during a call
  have hI : (Constrained.interface ℝ n 0).Respects (Constrained.optimalPhases True t.SameData)
      fun c t' => Constrained.courseCalls True c t' ∧ t.SameData t' :=
    Constrained.respects_course fun _ _ h h' => h.trans h'
  obtain ⟨⟨⟨hunderway, hcurrent⟩, hdata⟩, -⟩ := hI.arrived_of_call
    (Constrained.settled_course h.reachable) ⟨h.courseCalls hc, ⟨rfl, rfl, rfl, rfl, rfl⟩⟩ hsolve' hout
  have htarget : t'.target = s.target := hdata.target.trans hst.target
  have hparameters : t'.parameters.infinity = s.parameters.infinity := by
    rw [hdata.parameters, hst.parameters]
    rfl
  have hsolves := hunderway.optimal.solves
  rw [hcurrent, htarget] at hsolves
  refine ⟨?_, h'.solves hsolves, fun i => ?_⟩
  · rw [← h'.matched.agrees.current, hcurrent, htarget]
  · obtain ⟨-, hlower, hupper⟩ := hunderway.typed trivial (.bound i)
    rw [hparameters, htarget] at hlower hupper
    have hx : t'.x = s'.x := by
      have hst' := h'.matched.agrees
      generalize t'.toCore = c' at hst'
      cases hst'
      rfl
    have hle := hsolves.lower_le (.bound i)
    have hge := hsolves.le_upper (.bound i)
    unfold Constrained.value at hle hge
    rw [hx] at hle hge
    exact ⟨fun hfinite => hle (hlower.2 hfinite), fun hfinite => hge (hupper.2 hfinite)⟩

end Box

/-- In every state of a solver for bounds from which a homotopy can start, the factor is the one that
would be computed from scratch, and point and multipliers solve the current problem. After a solve that
succeeds this is the loaded problem, of which all limits hold that are finite. -/
theorem box_solutions_exact (n : ℕ) (s : Box ℝ n)
    (hs : (Box.interface ℝ n).Reachable Box.optimalCalls s) :
    (s.status.isStart = true → Box.FactorValid s ∧ Box.Solves s s.current) ∧
      ∀ c, c.isSolve = true → Box.optimalCalls c s → ∀ k s',
        (Box.interface ℝ n).call c s = (.ok k, s') →
          s'.status = .solved ∧ Box.SameData s s' ∧ s'.current = s.target ∧
            Box.FactorValid s' ∧ Box.Solves s' s.target ∧
            ∀ i : Fin n, (-s.parameters.infinity < s.target.lower i → s.target.lower i ≤ s'.x i) ∧
              (s.target.upper i < s.parameters.infinity → s'.x i ≤ s.target.upper i) := by
  have hcourse : (Box.interface ℝ n).Reachable (Box.courseCalls True) s :=
    hs.mono fun _ _ => Box.courseCalls_of_optimalCalls
  have hfactored := Box.settled_factored (hcourse.mono fun _ _ => Box.exactCalls_of_courseCalls)
  -- the multipliers and the limits are read off the companion without rows
  obtain ⟨t, ht⟩ := Box.exists_companion hcourse
  refine ⟨fun hstart => ?_, fun c hsolve hc k s' hcall => ?_⟩
  · obtain ⟨-, hstatus | ⟨-, hready⟩⟩ := hfactored
    · rw [hstatus] at hstart
      cases hstart
    · exact ⟨hready.factorValid, ht.solves_current hstart⟩
  · have hc' : Box.courseCalls True c s := Box.courseCalls_of_optimalCalls hc
    have hI := Box.respects_factored (p := Box.SameData s) fun _ _ h h' => h.trans h'
    obtain ⟨⟨hmoving, hdata⟩, hstatus⟩ := hI.arrived_of_call hfactored
      ⟨Box.exactCalls_of_courseCalls hc', ⟨rfl, rfl, rfl, rfl⟩⟩ hsolve hcall
    obtain ⟨hcurrent, hsolves, hlimits⟩ := ht.solves_target hsolve hc' hcall
    exact ⟨hstatus, hdata, hcurrent, hmoving.toReady.factorValid, hsolves, hlimits⟩

-- ---------------------------------------------------------------------------
-- An instance
-- ---------------------------------------------------------------------------

section Instance

variable {s : Box ℝ 2} {t : Constrained ℝ 2 0} {e : Entity 2 0} {side : Activity} {τ : Type}
  {obs : Observer ℝ 2 0 τ} {view : τ} {budget : ℕ}

theorem Together.exact (h : Together s t) (ht : t.Coupled) : Box.Exact s := by
  have hexact := ht.exact
  refine ⟨?_, ?_, ?_⟩
  · rw [h.parameters_eq]
    exact hexact.epsZero_eq
  · rw [h.parameters_eq]
    exact hexact.epsDefinite_nonneg
  · rw [h.parameters_eq]
    exact hexact.relaxation_nonneg

theorem Together.equalLimits (h : Together s t) (ht : t.EqualLimits) : Box.EqualLimits s := by
  intro i htype
  rw [Box.loadedType, ← h.matched.agrees.target, h.parameters_eq] at htype
  rw [← h.matched.agrees.target]
  exact ht (.bound i) htype

theorem Together.typed (h : Together s t) (ht : t.Typed) : Box.Typed s := by
  intro i
  rw [Box.loadedType, ← h.matched.agrees.target, ← h.matched.agrees.bounds, h.parameters_eq]
  exact ht (.bound i)

/-- A solve from scratch is admitted, -/
theorem Together.admits_solve (h : Together s t) (ht : t.Coupled) (hsingle : t.SingleLimit e side) :
    Box.optimalCalls (.solve obs view budget none none) s :=
  ⟨h.declared ht.declared, h.exact ht, h.equalLimits hsingle.equalLimits⟩

/-- and so is one that does not start from scratch. -/
theorem Together.admits_resume (h : Together s t) (ht : t.Coupled) (hlone : t.Lone e side) :
    Box.optimalCalls (.resume obs view budget) s :=
  ⟨h.exact ht, fun _ => ⟨h.equalLimits hlone.single.equalLimits, h.typed (hlone.typed trivial)⟩⟩

/-- The first variable is held at its upper limit with a multiplier that is not zero, and the factor has lost
a row and a column. Then it is free again, and the factor has them back. -/
theorem box_solutions_exact_capped : ∃ s1 s2,
    (Box.interface ℝ 2).call (.solve Observer.silent () 2 none none) (Box.capped 3 1) = (.ok 2, s1) ∧
      s1.bounds.activity 0 = .upper ∧ s1.y.bound 0 = -3 / 2 ∧ s1.status.isStart = true ∧
      Box.FactorValid s1 ∧ Box.Solves s1 s1.current ∧ Box.Solves s1 (Box.capped 3 1).target ∧
      (Box.interface ℝ 2).call (.resume Observer.silent () 2) (s1.setPull 0) = (.ok 2, s2) ∧
      s2.bounds.activity 0 = .inactive ∧ Box.FactorValid s2 ∧ Box.Solves s2 (s1.setPull 0).target := by
  obtain ⟨s1, s2, t1, t2, h⟩ := exists_cappedSession
  have hcapped := Constrained.capping_one
  have hreach : (Box.interface ℝ 2).Reachable Box.optimalCalls (Box.capped 3 1) :=
    Box.reachable_capped (fun _ _ => trivial) 3 1
  have hsolve : Box.optimalCalls (.solve Observer.silent () 2 none none) (Box.capped 3 1) :=
    (together_capped 3 1).admits_solve hcapped.toCoupled hcapped.single
  have hreach1 := hreach.of_call hsolve h.solve
  have hstart : s1.status.isStart = true := by
    rw [← h.together.matched.agrees.status]
    exact h.session.ends.start
  -- after the solve the bound is active, and its multiplier is known from the session
  obtain ⟨hvalid, hcurrent⟩ := (box_solutions_exact 2 s1 hreach1).1 hstart
  obtain ⟨-, -, -, -, hsolves, -⟩ := (box_solutions_exact 2 _ hreach).2 _ rfl hsolve 2 s1 h.solve
  -- without the linear term, a resumed homotopy releases the bound
  have hresume : Box.optimalCalls (.resume Observer.silent () 2) (s1.setPull 0) :=
    (h.together.setPull 0).admits_resume h.session.capping_reloaded.toCoupled h.session.lone_reloaded
  obtain ⟨-, -, -, hvalid', hsolves', -⟩ := (box_solutions_exact 2 (s1.setPull 0)
    (hreach1.call (.load _) trivial)).2 _ rfl hresume 2 s2 h.resume
  have hy := (hcapped.minima.ends_held h.session.ends h.session.held).2
  refine ⟨s1, s2, h.solve, h.activity, ?_, hstart, hvalid, hcurrent, hsolves, h.resume, h.activity',
    hvalid', hsolves'⟩
  rw [← show t1.y = s1.y from congrArg Display.y h.together.matched.display_eq]
  refine hy.trans ?_
  norm_num

end Instance

end ActiveSet
