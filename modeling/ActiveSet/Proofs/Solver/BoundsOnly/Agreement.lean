import ActiveSet.Proofs.Solver.BoundsOnly.Calls
import ActiveSet.Proofs.Solver.Constrained.SingleLimit

/-!
# Both solvers agree on problems with bounds only

A problem without constraints can be given to either solver. In exact arithmetic, and while no system
counts as singular, it makes no difference to which: whatever is called, both return the same result or
the same error after the same number of steps, show the same records to an observer, and show the same
of themselves between two calls (`solvers_agree`).

That the factorizations are different does not matter, nor does the order of the free variables in them.
What both have in common is which systems they solve.
-/

namespace ActiveSet

variable {n : ℕ}

/-- What a solver shows of itself between two calls. -/
structure Display (n : ℕ) where
  /-- The point. -/
  x : Tuple ℝ n
  /-- The multipliers. -/
  y : Dual ℝ n 0
  /-- The value of the objective. -/
  objective : ℝ
  /-- The largest violation of an optimality condition. -/
  violation : ℝ
  /-- Whether the solution is accurate enough. -/
  accuracy : Except QpError Unit
  /-- How far the solver has come. -/
  status : Status
  /-- The verdict that there is no feasible point. -/
  infeasible : Bool
  /-- The verdict that the objective has no lower bound. -/
  unbounded : Bool
  /-- The limit types and activities of the bounds, and the order of their partition. -/
  bounds : EntitySet .bound n

/-- What a solver for bounds shows. -/
noncomputable def Box.display (s : Box ℝ n) : Display n where
  x := s.x
  y := s.y
  objective := s.objective
  violation := s.violation
  accuracy := s.checkOptimality
  status := s.status
  infeasible := s.infeasible
  unbounded := s.unbounded
  bounds := s.bounds

/-- What a solver for bounds and constraints shows that has no constraints. -/
noncomputable def Constrained.display (t : Constrained ℝ n 0) : Display n where
  x := t.x
  y := t.y
  objective := t.objective
  violation := t.violation
  accuracy := t.checkOptimality
  status := t.status
  infeasible := t.infeasible
  unbounded := t.unbounded
  bounds := t.bounds

/-- Two solvers have been given the same calls since they were made, where homotopies were admitted only
with parameters that fit, and with a matrix of the objective that is symmetric and what it is declared
to be. -/
inductive Together : Box ℝ n → Constrained ℝ n 0 → Prop
  | fresh : Together (Box.fresh n) (Constrained.fresh n 0)
  | call {s : Box ℝ n} {t : Constrained ℝ n 0} (c : Call ℝ n 0 (Core.Loading ℝ))
    (h : Together s t) (hc : Box.admits Parameters.Fit c s) :
    Together ((Box.interface ℝ n).call c s).2
      ((Constrained.interface ℝ n 0).call (c.mapLoad .core) t).2

theorem core_mapDependent_id (d : Core.Loading ℝ) :
    Constrained.Loading.core d = .core (d.mapDependent id) := by
  cases d <;> rfl

/-- Solvers that have been given the same calls are in states that agree. -/
theorem Together.matched {s : Box ℝ n} {t : Constrained ℝ n 0} (h : Together s t) :
    Matched id s t := by
  induction h with
  | fresh =>
    exact ⟨.intro _ _ _ _ _, ⟨(Box.respects_for fun _ h => h.definite).fresh, .inl rfl⟩,
      ⟨Constrained.respects_for.fresh, .inl rfl⟩⟩
  | call c _ hc ih => exact (ih.call core_mapDependent_id c hc).2.2

/-- Solvers in states that agree show the same. -/
theorem Matched.display_eq {s : Box ℝ n} {t : Constrained ℝ n 0} (h : Matched id s t) :
    t.display = s.display := by
  have hmatrix : t.matrix = Box.noRows n :=
    Grid.ext fun i _ hi => absurd hi (Nat.not_lt_zero i)
  have hagree := h.agrees
  unfold Constrained.display Constrained.checkOptimality Constrained.violation
  rw [hmatrix]
  generalize t.toCore = c at hagree
  cases hagree
  rfl

/-- Two solvers that have been given the same calls show the same, and whatever they are called for
next, they return the same and show the same records to an observer. -/
theorem solvers_agree (s : Box ℝ n) (t : Constrained ℝ n 0) (h : Together s t) :
    t.display = s.display ∧ ∀ c, Box.admits Parameters.Fit c s →
      ((Constrained.interface ℝ n 0).call (c.mapLoad .core) t).1 =
          ((Box.interface ℝ n).call c s).1 ∧
        (Constrained.interface ℝ n 0).records (c.mapLoad .core) t =
          (Box.interface ℝ n).records c s :=
  ⟨h.matched.display_eq, fun c hc =>
    have hcall := h.matched.call core_mapDependent_id c hc
    ⟨hcall.1, hcall.2.1⟩⟩

/-! ## An instance -/

section Instance

variable {s : Box ℝ 2} {t t' : Constrained ℝ 2 0}

/-- A call of the one solver is a call of the other one. -/
theorem Together.exists_call {r : Except Fault ℕ} {s : Box ℝ n} {t t' : Constrained ℝ n 0}
    (h : Together s t) {c : Call ℝ n 0 (Core.Loading ℝ)} (hc : Box.admits Parameters.Fit c s)
    (hcall : (Constrained.interface ℝ n 0).call (c.mapLoad .core) t = (r, t')) :
    ∃ s', (Box.interface ℝ n).call c s = (r, s') ∧ Together s' t' := by
  obtain ⟨hresult, -⟩ := h.matched.call core_mapDependent_id c hc
  have htogether := h.call c hc
  rw [hcall] at hresult htogether
  exact ⟨_, Prod.ext hresult.symm rfl, htogether⟩

theorem Together.parameters_eq {s : Box ℝ n} {t : Constrained ℝ n 0} (h : Together s t) :
    s.parameters = t.parameters := h.matched.agrees.parameters.symm

/-- What is known about the objective of the one solver is known about that of the other one. -/
theorem Together.declared {s : Box ℝ n} {t : Constrained ℝ n 0} (h : Together s t) (ht : t.Declared) :
    Box.Declared s := by
  have hhessian := h.matched.agrees.hessian
  refine ⟨fun i j => ?_, fun htype i j hi hj => ?_⟩
  · rw [← hhessian]
    exact ht.symmetric i j
  · rw [← hhessian]
    exact ht.identity (h.matched.agrees.hessianType.trans htype) i j hi hj

theorem Together.fit (h : Together s t) (ht : t.Coupled) : s.parameters.Fit := by
  rw [h.parameters_eq, ht.parameters]
  exact ⟨rfl, le_rfl, le_rfl, zero_lt_one⟩

/-- An upper limit of the first variable is loaded. -/
noncomputable def Box.setCap (s : Box ℝ 2) (u : ℝ) : Box ℝ 2 :=
  ((Box.interface ℝ 2).call (.load (.upper #[u, Constrained.exactParameters.infinity])) s).2

/-- A linear term is loaded. -/
noncomputable def Box.setPull (s : Box ℝ 2) (g : ℝ) : Box ℝ 2 :=
  ((Box.interface ℝ 2).call (.load (.gradient #[-g, 0])) s).2

theorem Together.setCap (h : Together s t) (u : ℝ) : Together (s.setCap u) (t.setCap u) :=
  h.call (.load _) trivial

theorem Together.setPull (h : Together s t) (g : ℝ) : Together (s.setPull g) (t.setPull g) :=
  h.call (.load _) trivial

/-- A solver with the objective, a linear term and an upper limit of the first variable. -/
noncomputable def Box.capped (g u : ℝ) : Box ℝ 2 :=
  ([Core.Loading.parameters Constrained.exactParameters, .hessian Constrained.coupling,
    .gradient #[-g, 0]].foldl (fun s d => ((Box.interface ℝ 2).call (.load d) s).2)
      (Box.fresh 2)).setCap u

theorem Box.reachable_capped {admits : Call ℝ 2 0 (Core.Loading ℝ) → Box ℝ 2 → Prop}
    (h : ∀ d s, admits (.load d) s) (g u : ℝ) : (Box.interface ℝ 2).Reachable admits (Box.capped g u) :=
  .call _ (.call _ (.call _ (.call _ .fresh (h _ _)) (h _ _)) (h _ _)) (h _ _)

theorem together_capped (g u : ℝ) : Together (Box.capped g u) (Constrained.capped g u) :=
  .setCap (.call (.load _) (.call (.load _) (.call (.load _) .fresh trivial) trivial) trivial) u

/-- The solver for bounds takes the first variable into its working set, and out of it again. -/
structure Box.CappedSession (s1 s2 : Box ℝ 2) (t1 t2 : Constrained ℝ 2 0) : Prop where
  session : t1.CappedSession t2
  solve : (Box.interface ℝ 2).call (.solve Observer.silent () 2 none none) (Box.capped 3 1) =
    (.ok 2, s1)
  together : Together s1 t1
  resume : (Box.interface ℝ 2).call (.resume Observer.silent () 2) (s1.setPull 0) = (.ok 2, s2)
  together' : Together s2 t2

theorem admits_capped : Box.admits Parameters.Fit (.solve Observer.silent () 2 none none)
    (Box.capped 3 1) :=
  ⟨(together_capped 3 1).declared Constrained.capping_one.declared,
    (together_capped 3 1).fit Constrained.capping_one.toCoupled⟩

theorem exists_cappedSession : ∃ s1 s2 t1 t2, Box.CappedSession s1 s2 t1 t2 := by
  obtain ⟨t1, t2, h⟩ := Constrained.exists_cappedSession
  obtain ⟨s1, hsolve, htogether⟩ := (together_capped 3 1).exists_call admits_capped h.solve
  obtain ⟨s2, hresume, htogether'⟩ := (htogether.setPull 0).exists_call
    (c := .resume Observer.silent () 2) ((htogether.setPull 0).fit h.capping_reloaded.toCoupled) h.resume
  exact ⟨s1, s2, t1, t2, h, hsolve, htogether, hresume, htogether'⟩

namespace Box.CappedSession

variable {s1 s2 : Box ℝ 2} {t1 t2 : Constrained ℝ 2 0} (h : CappedSession s1 s2 t1 t2)
include h

theorem admits_reloaded :
    Box.admits Parameters.Fit (.resume Observer.silent () 2) (s1.setPull 0) :=
  (h.together.setPull 0).fit h.session.capping_reloaded.toCoupled

theorem activity : s1.bounds.activity 0 = .upper := by
  rw [← h.together.matched.agrees.bounds]
  exact h.session.held

theorem activity' : s2.bounds.activity 0 = .inactive := by
  rw [← h.together'.matched.agrees.bounds]
  exact h.session.free

end Box.CappedSession

/-- The first variable enters the working set of both solvers and leaves it again. They show the same records
on the way, and the same of themselves before and after. -/
theorem solvers_agree_capped : ∃ s1 s2 t1 t2,
    Together (Box.capped 3 1) (Constrained.capped 3 1) ∧
      Box.admits Parameters.Fit (.solve Observer.silent () 2 none none) (Box.capped 3 1) ∧
      (Box.interface ℝ 2).call (.solve Observer.silent () 2 none none) (Box.capped 3 1) = (.ok 2, s1) ∧
      (Constrained.interface ℝ 2 0).call (.solve Observer.silent () 2 none none)
        (Constrained.capped 3 1) = (.ok 2, t1) ∧
      ((Box.interface ℝ 2).records (.solve Observer.silent () 2 none none) (Box.capped 3 1)).map
        (·.event) = [.add (.bound 0) .upper, .full] ∧
      s1.bounds.activity 0 = .upper ∧ t1.display = s1.display ∧
      Box.admits Parameters.Fit (.resume Observer.silent () 2) (s1.setPull 0) ∧
      (Box.interface ℝ 2).call (.resume Observer.silent () 2) (s1.setPull 0) = (.ok 2, s2) ∧
      (Constrained.interface ℝ 2 0).call (.resume Observer.silent () 2) (t1.setPull 0) = (.ok 2, t2) ∧
      ((Box.interface ℝ 2).records (.resume Observer.silent () 2) (s1.setPull 0)).map (·.event) =
        [.remove (.bound 0), .full] ∧
      s2.bounds.activity 0 = .inactive ∧ t2.display = s2.display := by
  obtain ⟨s1, s2, t1, t2, h⟩ := exists_cappedSession
  -- without the linear term, the second call releases the bound that the first one has added
  have htogether1 := h.together.setPull 0
  obtain ⟨-, hnext⟩ := solvers_agree _ _ (together_capped 3 1)
  obtain ⟨-, hrecords⟩ := hnext _ admits_capped
  obtain ⟨hdisplay1, -⟩ := solvers_agree _ _ h.together
  obtain ⟨-, hnext'⟩ := solvers_agree _ _ htogether1
  obtain ⟨-, hrecords'⟩ := hnext' _ h.admits_reloaded
  obtain ⟨hdisplay2, -⟩ := solvers_agree _ _ h.together'
  refine ⟨s1, s2, t1, t2, together_capped 3 1, admits_capped, h.solve, h.session.solve, ?_,
    h.activity, hdisplay1, h.admits_reloaded, h.resume, h.session.resume, ?_, h.activity', hdisplay2⟩
  · -- the records of both solvers are the same, so one may look at those with constraints
    rw [← hrecords]
    exact h.session.enters
  · rw [← hrecords']
    exact h.session.leaves

end Instance

end ActiveSet
