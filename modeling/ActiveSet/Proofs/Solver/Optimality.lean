import ActiveSet.Proofs.Solver.Constrained.SingleLimit

/-!
# Solutions are exact

Over the real numbers, and with tolerances of zero, a solver with constraints holds an exact solution
of its current problem in every state from which a homotopy can start, whatever guesses, budgets and
observers there were before. A solve that succeeds ends at an exact solution of the loaded problem
(`solutions_exact`).

* `Constrained.Solves`: the optimality conditions of a problem, for the working set.
-/

namespace ActiveSet

variable {n m : ℕ} {s s' : Constrained ℝ n m}

namespace Constrained

/-- The value of an entity: a variable, or the product of a row with the point. -/
noncomputable def value (s : Constrained ℝ n m) : Entity n m → ℝ
  | .bound i => s.x i
  | .constraint i => ∑ j : Fin n, s.matrix i j * s.x j

/-- Point and multipliers satisfy the optimality conditions of a problem: the gradient of the
objective is the combination of the limits by the multipliers, the entities of the working set are
on their limits, all finite limits hold, and every multiplier has the sign of its side. That of an
equality may have either sign. -/
structure Solves (s : Constrained ℝ n m) (d : Data ℝ n m) : Prop where
  stationary : ∀ j : Fin n, ∑ k : Fin n, s.hessian j k * s.x k + d.gradient j =
    s.y.bound j + ∑ i : Fin m, s.matrix i j * s.y.row i
  at_lower : ∀ e, s.activity e = .lower → s.value e = d.lowerOf e
  at_upper : ∀ e, s.activity e = .upper → s.value e = d.upperOf e
  lower_le : ∀ e, s.hasSide .lower e = true → d.lowerOf e ≤ s.value e
  le_upper : ∀ e, s.hasSide .upper e = true → s.value e ≤ d.upperOf e
  inactive : ∀ e, s.isActive e = false → s.y.get e = 0
  nonneg : ∀ e, s.activity e = .lower → s.limitType e ≠ .equality → 0 ≤ s.y.get e
  nonpos : ∀ e, s.activity e = .upper → s.limitType e ≠ .equality → s.y.get e ≤ 0

theorem value_eq (s : Constrained ℝ n m) (e : Entity n m) : s.value e = s.valueOf s.x e := by
  cases e with
  | bound i => exact (s.valueOf_bound s.x i).symm
  | constraint i => exact (Finset.sum_range fun j => s.matrix i j * s.x j).symm

theorem Optimal.solves (h : s.Optimal) : s.Solves s.current := by
  have hvalue := s.value_eq
  refine ⟨fun j => ?_, fun e hside => ?_, fun e hside => ?_, fun e hside => ?_, fun e hside => ?_,
    h.inactive, h.nonneg, h.nonpos⟩
  · have hentry := h.stationary j j.isLt
    rw [s.sum_mul_row _ j.isLt, Finset.sum_range] at hentry
    simp only [mul_comm (s.matrix _ _)]
    exact hentry
  · have honLimit := h.on_limit e (by rw [isActive, hside]; rfl)
    rw [hside] at honLimit
    rw [hvalue]
    exact honLimit
  · have honLimit := h.on_limit e (by rw [isActive, hside]; rfl)
    rw [hside] at honLimit
    rw [hvalue]
    exact honLimit
  · rw [hvalue]
    exact h.lower_le e hside
  · rw [hvalue]
    exact h.le_upper e hside

end Constrained

/-- In every state from which a homotopy can start, point and multipliers solve the current problem.
After a solve that succeeds this is the loaded problem, of which all limits hold that are finite. -/
theorem solutions_exact (n m : ℕ) (s : Constrained ℝ n m)
    (hs : (Constrained.interface ℝ n m).Reachable Constrained.optimalCalls s) :
    (s.status.isStart = true → s.Solves s.current) ∧
      ∀ c, c.isSolve = true → Constrained.optimalCalls c s → ∀ k s',
        (Constrained.interface ℝ n m).call c s = (.ok k, s') →
          s'.status = .solved ∧ s.SameData s' ∧ s'.current = s.target ∧ s'.Solves s.target ∧
            ∀ e, (-s.parameters.infinity < s.target.lowerOf e → s.target.lowerOf e ≤ s'.value e) ∧
              (s.target.upperOf e < s.parameters.infinity → s'.value e ≤ s.target.upperOf e) := by
  have hsettled := Constrained.settled_optimal hs
  refine ⟨fun hstart => ?_, fun c hsolve hc k s' hcall => ?_⟩
  · obtain ⟨-, hstatus | ⟨-, -, hoptimal⟩⟩ := hsettled
    · rw [hstatus] at hstart
      cases hstart
    · exact hoptimal.solves
  · -- what is loaded stays the same during a call
    have hI := Constrained.respects_optimal (p := s.SameData) fun _ _ h h' => h.trans h'
    obtain ⟨⟨⟨hunderway, hcurrent⟩, hdata⟩, hstatus⟩ :=
      hI.arrived_of_call hsettled ⟨hc, ⟨rfl, rfl, rfl, rfl, rfl⟩⟩ hsolve hcall
    have hsolves := hunderway.optimal.solves
    rw [hcurrent, hdata.target] at hsolves
    refine ⟨hstatus, hdata, hcurrent.trans hdata.target, hsolves, fun e => ?_⟩
    obtain ⟨-, hlower, hupper⟩ := hunderway.typed trivial e
    rw [hdata.parameters, hdata.target] at hlower hupper
    exact ⟨fun h => hsolves.lower_le e (hlower.2 h), fun h => hsolves.le_upper e (hupper.2 h)⟩

/-- The row of the sum enters the working set on the way to the first solution, where it has a multiplier
that is not zero, and leaves it on the way to the second one. -/
theorem solutions_exact_shared : ∃ s1 s2,
    (Constrained.interface ℝ 2 1).call (.solve Observer.silent () 2 none none)
        (Constrained.shared 1) = (.ok 2, s1) ∧
      s1.activity (.constraint 0) = .lower ∧ s1.y.get (.constraint 0) = 3 / 2 ∧
      s1.Solves s1.current ∧ s1.Solves (Constrained.shared 1).target ∧
      (Constrained.interface ℝ 2 1).call (.resume Observer.silent () 2) (s1.setShare (-1)) =
        (.ok 2, s2) ∧
      s2.activity (.constraint 0) = .inactive ∧ s2.Solves (s1.setShare (-1)).target := by
  obtain ⟨s1, s2, h⟩ := Constrained.exists_sharedSession
  have hshared := Constrained.sharing_one
  have hload : ∀ d s, Constrained.optimalCalls (n := 2) (m := 1) (.load d) s := fun _ _ => trivial
  have hreach := Constrained.reachable_shared hload 1
  have hsolve : Constrained.optimalCalls (.solve Observer.silent () 2 none none)
      (Constrained.shared 1) := hshared.admits_solve hshared.single
  have hreach1 := hreach.of_call hsolve h.solve
  have hcurrent := (solutions_exact 2 1 s1 hreach1).1 h.ends.start
  obtain ⟨-, -, -, hsolves, -⟩ :=
    (solutions_exact 2 1 _ hreach).2 _ rfl hsolve 2 s1 h.solve
  obtain ⟨-, -, -, hsolves', -⟩ :=
    (solutions_exact 2 1 _ (Constrained.reachable_setShare hload hreach1 (-1))).2 _ rfl
      (h.sharing_reloaded.admits_resume h.lone_reloaded) 2 s2 h.resume
  -- what the row costs while it is held
  have hy := (hshared.minima.ends_held h.ends h.held).2
  rw [mul_one] at hy
  exact ⟨s1, s2, h.solve, h.held, hy, hcurrent, hsolves, h.resume, h.free, hsolves'⟩

end ActiveSet
