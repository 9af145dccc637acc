import ActiveSet.Proofs.Solver.Resumption
import ActiveSet.Proofs.Solver.Standstill
import ActiveSet.Proofs.Solver.WarmStart

/-!
# Solving again what is solved

A solver that has come to the loaded problem and is told to go on has no way left to go. Its direction is
zero, whatever the working set and however many entities are about to enter or leave it, and the factors
that were good enough for the last step are good enough for this one. So the call makes one step that
changes nothing but the vectors of the direction (`resume_idempotent`).
-/

namespace ActiveSet

variable {n m : ℕ}

/-- At the loaded problem there is no way left. -/
theorem Core.shift_eq_zero {s : Core ℝ n m} (h : s.current = s.target) :
    (∀ j, s.shift.gradient j = 0) ∧ ∀ side e, s.shift.limitOf side e = 0 := by
  refine ⟨fun j => ?_, fun side e => ?_⟩
  · by_cases hj : j < n
    · rw [show s.shift.gradient j = s.target.gradient j - s.current.gradient j from
        Tuple.sub_apply _ _ hj, h, sub_self]
    · exact Tuple.apply_of_le _ (not_lt.1 hj)
  · rw [show s.shift.limitOf side e = _ from Data.limitOf_sub _ _ side e, h, sub_self]

namespace Constrained

/-- The loaded problem is solved, and the systems of another direction can be solved as well. -/
structure Settled (s : Constrained ℝ n m) : Prop extends s.InStep where
  solvable : s.Solvable
  status : s.status = .solved
  current : s.current = s.target
  rowValues : s.withRowValues.ax = s.ax

/-- The step to the loaded problem leaves the factors with which it has found its direction. -/
theorem settled_of_arrives {s0 s : Constrained ℝ n m} (hs0 : s0.InStep) (h : method.Arrives s0 s) :
    s.Settled := by
  cases h with
  | @intro s1 hdirection hlength =>
    have hs0' : InStep { s0 with status := .performingHomotopy } := hs0.congr rfl rfl rfl rfl rfl rfl
    have hdirected := (determineDirection_ensures hs0').of_ok hdirection
    have hsolvable : s1.Solvable := by
      have hsolvable := hdirected.solvable hs0'
      obtain ⟨dx, dy, tilt, dax, rfl⟩ := hdirected.same
      exact ⟨hsolvable.nullSpace, hsolvable.factor⟩
    refine ⟨(hdirected.same.inStep hs0').congr rfl rfl rfl rfl rfl rfl,
      ⟨hsolvable.nullSpace, hsolvable.factor⟩, rfl, rfl, ?_⟩
    refine Tuple.ext fun i hi => ?_
    rw [withRowValues_ax _ ⟨i, hi⟩]
    exact (withRowValues_ax { s1 with toCore := s1.toCore.perform 1 .full } ⟨i, hi⟩).symm

/-- Where the loaded problem is solved, a step leads nowhere. -/
theorem Settled.arrives {s : Constrained ℝ n m} (h : s.Settled) (heps : 0 ≤ s.parameters.epsZero) :
    ∃ s', method.Arrives s s' ∧ s.SameButDirection s' := by
  obtain ⟨hgradient, hlimit⟩ := Core.shift_eq_zero h.current
  have hframe : ∀ current status ax, current = s.current → status = s.status → ax = s.ax →
      { s with current, status, ax } = s := by
    rintro _ _ _ rfl rfl rfl
    rfl
  obtain ⟨s', harrives, hsame⟩ := arrives_of_atRest h.toInStep h.solvable
    ⟨⟨hgradient, fun i _ => hlimit _ (.bound i)⟩, fun i _ => hlimit _ (.constraint i)⟩ heps
    fun e => by
      cases e with
      | bound i => exact ⟨fun _ _ => .inl (hlimit .lower (.bound i)).le,
          fun _ _ => .inl (hlimit .upper (.bound i)).ge⟩
      | constraint i => exact ⟨fun _ _ => .inl (hlimit .lower (.constraint i)).le,
          fun _ _ => .inl (hlimit .upper (.constraint i)).ge⟩
  rw [hframe _ _ _ h.current.symm h.status.symm h.rowValues] at hsame
  exact ⟨s', harrives, hsame⟩

end Constrained

namespace Box

/-- The loaded problem is solved, and the systems of another direction can be solved as well. -/
structure Settled (s : Box ℝ n) : Prop extends s.InStep where
  solvable : s.factor.Solvable s.parameters.epsZero
  status : s.status = .solved
  current : s.current = s.target

/-- The step to the loaded problem leaves the factor with which it has found its direction. -/
theorem settled_of_arrives {s0 s : Box ℝ n} (hs0 : s0.InStep) (h : method.Arrives s0 s) :
    s.Settled := by
  cases h with
  | @intro s1 hdirection hlength =>
    have hs0' : InStep { s0 with status := .performingHomotopy } := hs0.congr rfl rfl rfl
    obtain ⟨hdirected, dx, dy, tilt, rfl⟩ := (determineDirection_ensures hs0').of_ok hdirection
    exact ⟨hs0.congr rfl rfl rfl, hdirected.solvable hs0', rfl, rfl⟩

/-- Where the loaded problem is solved, a step leads nowhere. -/
theorem Settled.arrives {s : Box ℝ n} (h : s.Settled) (heps : 0 ≤ s.parameters.epsZero) :
    ∃ dx dy tilt, method.Arrives s { s with dx, dy, tilt } := by
  obtain ⟨hgradient, hlimit⟩ := Core.shift_eq_zero h.current
  obtain ⟨dx, dy, tilt, harrives⟩ := arrives_of_atRest h.toInStep h.solvable
    ⟨hgradient, fun i _ => hlimit _ (.bound i)⟩ heps fun i =>
      ⟨fun _ _ => .inl (hlimit .lower (.bound i)).le, fun _ _ => .inl (hlimit .upper (.bound i)).ge⟩
  have hframe : ∀ current status, current = s.current → status = s.status →
      { s with current, status, dx, dy, tilt } = { s with dx, dy, tilt } := by
    rintro _ _ rfl rfl
    rfl
  rw [hframe _ _ h.current.symm h.status.symm] at harrives
  exact ⟨dx, dy, tilt, harrives⟩

end Box

-- ---------------------------------------------------------------------------
-- Calls
-- ---------------------------------------------------------------------------

/-- After a call that has solved the loaded problem, a call that resumes makes one step, whatever its
observer and its budget. It writes nothing but the vectors of the direction: point, multipliers, data,
working set and factorizations stay as they are, and so do the orders in which they are listed. -/
theorem resume_idempotent (n m : ℕ) :
    (∀ {s s1 : Constrained ℝ n m} (c : Call ℝ n m (Constrained.Loading ℝ)) (k : ℕ),
      (Constrained.interface ℝ n m).Reachable anyCall s → c.isSolve = true →
        (Constrained.interface ℝ n m).call c s = (.ok k, s1) → 0 ≤ s1.parameters.epsZero →
          ∃ s2, Constrained.method.InOneStep .previous s1 s2 ∧ s1.SameButDirection s2) ∧
      ∀ {s s1 : Box ℝ n} (c : Call ℝ n 0 (Core.Loading ℝ)) (k : ℕ),
        (Box.interface ℝ n).Reachable anyCall s → c.isSolve = true →
          (Box.interface ℝ n).call c s = (.ok k, s1) → 0 ≤ s1.parameters.epsZero →
            ∃ dx dy tilt, Box.method.InOneStep .previous s1 { s1 with dx, dy, tilt } := by
  have hone : ((1 : ℝ) == 1) = true := by simp
  constructor
  · intro s s1 c k hreach hsolve hcall heps
    have hI := Constrained.respects (n := n) (m := m) hone
    -- the last step has ended in a problem that is solved, so nothing is left to be done
    obtain ⟨s0, hs0, harrives, hlimits, hinfeasible, hunbounded⟩ :=
      hI.arrives_of_call Constrained.restartable (hI.settled hreach) trivial hsolve hcall
    have hsettled := Constrained.settled_of_arrives hs0 harrives
    obtain ⟨hlimits, hclear⟩ := harrives.verdictless Constrained.restartable hlimits hinfeasible
      hunbounded
    obtain ⟨s2, hagain, hsame⟩ := hsettled.arrives heps
    exact ⟨s2, hagain.resume (congrArg Status.isStart hsettled.status) hlimits hclear, hsame⟩
  · intro s s1 c k hreach hsolve hcall heps
    have hI := Box.respects (n := n) hone
    obtain ⟨s0, hs0, harrives, hlimits, hinfeasible, hunbounded⟩ :=
      hI.arrives_of_call Box.restartable (hI.settled hreach) trivial hsolve hcall
    have hsettled := Box.settled_of_arrives hs0 harrives
    obtain ⟨hlimits, hclear⟩ := harrives.verdictless Box.restartable hlimits hinfeasible hunbounded
    obtain ⟨dx, dy, tilt, hagain⟩ := hsettled.arrives heps
    exact ⟨dx, dy, tilt, hagain.resume (congrArg Status.isStart hsettled.status) hlimits hclear⟩

/-- A solution with the row of the sum in the working set is found again in one step, and so is one of the
solver for bounds with the first variable in the working set. -/
theorem resume_idempotent_shared :
    (∃ s1 s2, (Constrained.interface ℝ 2 1).call (.solve Observer.silent () 2 none none)
          (Constrained.shared 1) = (.ok 2, s1) ∧
        s1.activity (.constraint 0) = .lower ∧ Constrained.method.InOneStep .previous s1 s2 ∧
        s1.SameButDirection s2) ∧
      ∃ b1, (Box.interface ℝ 2).call (.solve Observer.silent () 2 none none) (Box.capped 3 1) =
          (.ok 2, b1) ∧
        b1.bounds.activity 0 = .upper ∧
        ∃ dx dy tilt, Box.method.InOneStep .previous b1 { b1 with dx, dy, tilt } := by
  constructor
  · -- a row that is held, with the multiplier that holds it
    obtain ⟨s1, _, h⟩ := Constrained.exists_sharedSession
    have hreach : (Constrained.interface ℝ 2 1).Reachable anyCall (Constrained.shared 1) :=
      Constrained.reachable_shared (fun _ _ => trivial) 1
    obtain ⟨s2, hone, hsame⟩ :=
      (resume_idempotent 2 1).1 _ 2 hreach rfl h.solve h.sharing.exact.epsZero_eq.ge
    exact ⟨s1, s2, h.solve, h.held, hone, hsame⟩
  · -- a bound at its upper limit
    obtain ⟨b1, _, _, _, h⟩ := exists_cappedSession
    have hreach : (Box.interface ℝ 2).Reachable anyCall (Box.capped 3 1) :=
      Box.reachable_capped (fun _ _ => trivial) 3 1
    exact ⟨b1, h.solve, h.activity, (resume_idempotent 2 0).2 _ 2 hreach rfl h.solve
      (h.together.exact h.session.capping.toCoupled).epsZero_eq.ge⟩

end ActiveSet
