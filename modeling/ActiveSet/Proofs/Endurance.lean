import ActiveSet.Proofs.Session
import ActiveSet.Proofs.Solver.Bounds

/-!
# Solvers that do not break down

A homotopy can end in many ways before the loaded problem. Most of them are numerical: a system has
no solution, a pivot is too small, or a working set is lost in the middle of an exchange. Where none
of this can happen in a step (`Method.Unbroken`), it cannot happen in a call, and what is left are
the ends that a caller has asked for and the verdict that no point is feasible
(`Interface.Respects.endures`).

* `Method.Between`: the states between the steps of a homotopy.
* `Method.Unbroken`: a state from which a step can be made without a breakdown.
* `Method.follow_stops`: a homotopy is stopped, or the step that ends it starts between two steps.
* `Interface.Endures`: no call from a state breaks down.
-/

namespace ActiveSet

variable {K : Type} [Scalar K] {n m : Nat} {σ δ τ : Type}

namespace Method

/-- The states between the steps of a homotopy from a state. -/
inductive Between (M : Method K n m σ) (s : σ) : σ → Prop
  | start : Between M s (M.clearVerdict s)
  | step {index : Nat} {it : Iteration K n m} {s1 s2 : σ} (h : Between M s s1)
    (hstep : M.step index s1 = .ok it s2) (hevent : it.event ≠ .full) : Between M s s2

/-- A step from a state does not break down: a direction is found, and the working set follows the
event at its end, unless no point is feasible. In that case the working set is kept. -/
def Unbroken (M : Method K n m σ) (s : σ) : Prop :=
  M.determineDirection.Ensures (M.withStatus .performingHomotopy s)
    (fun _ s1 => (M.stepLength s1).2 ≠ .full →
      (M.changeWorkingSet (M.stepLength s1).2).Ensures
        (M.perform (M.stepLength s1).1 (M.stepLength s1).2 s1) (fun _ _ => True)
        fun f s2 => (∃ e : QpError, f = .failed e ∧ e.IsInfeasibility) ∧
          M.status s2 = .performingHomotopy)
    fun _ _ => False

variable {M : Method K n m σ} {P : Phases n m σ}

namespace Respects

/-- Between the steps another one can be made. -/
theorem moving_of_between (hM : M.Respects P) {s s' : σ} (hs : P.moving s)
    (hstart : (M.status s).isStart) (h : M.Between s s') :
    P.moving s' ∧ (M.status s').isStart := by
  induction h with
  | start =>
    refine ⟨hM.moving_ignores.clearVerdict hs, ?_⟩
    rw [hM.status_clearVerdict]
    exact hstart
  | step h hstep hevent ih =>
    have hnext := (hM.step_ensures _ ih.1 ih.2).of_ok hstep
    rw [if_neg hevent] at hnext
    refine ⟨hnext.1, ?_⟩
    rw [hnext.2]
    rfl

/-- A step that does not break down ends the homotopy only because no point is feasible. -/
theorem step_of_unbroken (hM : M.Respects P) (index : Nat) {s : σ} (hs : P.moving s)
    (h : M.Unbroken s) :
    (M.step index).Ensures s (fun _ _ => True) fun f s' =>
      f = .failed .hotstartStoppedInfeasibility ∧ M.status s' = .homotopySolved := by
  refine (M.step_spec index s).mono (fun _ _ _ => trivial) fun f s' hfailed => ?_
  have hbroken := hM.not_broken hs hfailed
  cases hfailed with
  | undirected hdirection => exact (h.of_error hdirection).elim
  | unchanged hdirection hevent hchange hreported =>
    -- a change that fails can only say that the problem is infeasible
    obtain ⟨⟨e, heq, hinf⟩, hstatus⟩ := (h.of_ok hdirection hevent).of_error hchange
    cases heq
    cases hreported with
    | infeasible =>
      refine ⟨rfl, ?_⟩
      rw [Method.status] at hstatus
      rw [Method.status, block, hM.core_withCore, hstatus]
      rfl
    | unbounded => obtain h | h := hinf <;> cases h
    | other hnot => exact absurd hinf hnot
  | directionBroken => exact absurd rfl hbroken
  | lengthBroken => exact absurd rfl hbroken
  | changeBroken => exact absurd rfl hbroken

end Respects

/-- A homotopy that does not arrive has been stopped between two steps, or a step has ended it. -/
theorem follow_stops (M : Method K n m σ) (obs : Observer K n m τ) (budget : Nat) {s : σ} :
    ∀ (index : Nat) {s1 : σ} {t : τ}, M.Between s s1 →
      (M.follow obs budget index).Ensures (s1, t) (fun _ _ => True) fun f r =>
        (f = .failed .maxNwsrReached ∨ f = .failed .userAbortRequested) ∧ M.Between s r.1 ∨
          ∃ s2 i, M.Between s s2 ∧ M.step i s2 = .error f r.1 := by
  -- by induction on the budget: until the run ends, its states are reached from `s` by steps
  induction budget with
  | zero =>
    intro index s1 t h
    rw [follow, Update.ensures_fail]
    exact .inl ⟨.inl rfl, h⟩
  | succ budget ih =>
    intro index s1 t h
    rw [follow, Update.ensures_bind, Update.ensures_first]
    unfold Update.Ensures
    cases hstep : M.step index s1 with
    | error f s2 => exact .inr ⟨s1, index, h, hstep⟩
    | ok it s2 =>
      dsimp only
      change Update.Ensures _ (s2, t) _ _
      rw [Update.ensures_bind, Update.ensures_get]
      dsimp only
      rw [Update.ensures_bind, Update.ensures_set]
      by_cases hevent : it.event = .full
      · rw [if_pos hevent]
        trivial
      · have hnext : M.Between s s2 := .step h hstep hevent
        rw [if_neg hevent]
        split
        · rw [Update.ensures_fail]
          exact .inl ⟨.inr rfl, hnext⟩
        · exact ih (index + 1) hnext

/-- Where no step breaks down, a homotopy ends early only because a caller asked for it, or because
no point is feasible, and another one can start where it ends. -/
theorem Respects.homotopy_of_unbroken (hM : M.Respects P) (obs : Observer K n m τ) (budget : Nat)
    {s : σ} {t : τ} (hs : P.moving s) (hstart : (M.status s).isStart)
    (h : ∀ s', M.Between s s' → M.Unbroken s') :
    (M.homotopy obs budget).Ensures (s, t) (fun _ r => (M.status r.1).isStart) fun f r =>
      (∃ e ∈ [QpError.maxNwsrReached, .userAbortRequested, .hotstartStoppedInfeasibility],
        f = .failed e) ∧ (M.status r.1).isStart := by
  have harrives := hM.homotopy_ensures obs budget (t := t) hs hstart
  -- the run stops between two steps, or in the middle of one
  have hstops : (M.homotopy obs budget).Ensures (s, t) (fun _ _ => True) fun f r =>
      (f = .failed .maxNwsrReached ∨ f = .failed .userAbortRequested) ∧ M.Between s r.1 ∨
        ∃ s2 i, M.Between s s2 ∧ M.step i s2 = .error f r.1 := by
    unfold homotopy
    rw [Update.ensures_bind, Update.ensures_first, Update.ensures_modify]
    exact M.follow_stops obs budget 0 .start
  refine (harrives.and hstops).mono ?_ ?_
  · rintro k r ⟨⟨-, hstatus⟩, -⟩
    rw [hstatus]
    rfl
  · rintro f r ⟨-, ⟨hf, hbetween⟩ | ⟨s2, i, hbetween, hstep⟩⟩
    · refine ⟨?_, (hM.moving_of_between hs hstart hbetween).2⟩
      rcases hf with rfl | rfl
      · exact ⟨_, by simp, rfl⟩
      · exact ⟨_, by simp, rfl⟩
    · -- in the middle of a step it stops only for lack of a feasible point
      have hmoving := (hM.moving_of_between hs hstart hbetween).1
      obtain ⟨rfl, hstatus⟩ := (hM.step_of_unbroken i hmoving (h s2 hbetween)).of_error hstep
      refine ⟨⟨_, by simp, rfl⟩, ?_⟩
      rw [hstatus]
      rfl

end Method

/-! ## Calls -/

/-- The errors of a solve from scratch that does not break down. -/
def solveErrors : List QpError :=
  [.invalidArguments, .setupBoundFailed, .setupConstraintFailed, .setupWorkingSetFailed,
    .maxNwsrReached, .userAbortRequested, .initFailedInfeasibility]

/-- The errors of a solve from the previous solution that does not break down. -/
def resumeErrors : List QpError :=
  [.setupBoundFailed, .setupConstraintFailed, .maxNwsrReached, .userAbortRequested,
    .hotstartStoppedInfeasibility]

/-- No solve from a state breaks down. One from scratch ends early with one of a few errors; so does
one from the previous solution, which keeps a solution to go on from in any case; and no step of
either fails for numerical reasons. -/
structure Interface.Endures (I : Interface K n m σ δ) (s : σ) : Prop where
  solve : ∀ {τ : Type} (obs : Observer K n m τ) (view : τ) (budget : Nat)
    (xGuess yGuess : Option (Array K)) (f : Fault),
    (I.call (.solve obs view budget xGuess yGuess) s).1 = .error f →
      ∃ e ∈ solveErrors, f = .failed e
  resume : ∀ {τ : Type} (obs : Observer K n m τ) (view : τ) (budget : Nat) (f : Fault),
    (I.method.status s).isStart → (I.call (.resume obs view budget) s).1 = .error f →
      ∃ e ∈ resumeErrors, f = .failed e
  kept : ∀ {τ : Type} (obs : Observer K n m τ) (view : τ) (budget : Nat),
    (I.method.status s).isStart → (I.method.status (I.call (.resume obs view budget) s).2).isStart
  unbroken : ∀ s', I.Starts s s' → ∀ s'', I.method.Between s' s'' → I.method.Unbroken s''

/-- What the parts of a call have to do for no call to break down. -/
structure Interface.Sturdy (I : Interface K n m σ δ) (P : Phases n m σ) (s : σ) : Prop where
  prepare : ∀ guess, (I.method.prepare guess).Ensures (I.method.reset s) (fun _ _ => True)
    fun f _ => ∃ e ∈ setupRefusals, f = .failed e
  limits : ∀ e, I.method.checkLimits s = .error e →
    e = .setupBoundFailed ∨ e = .setupConstraintFailed
  steps : ∀ s', P.moving s' → I.method.Unbroken s'

namespace Interface.Respects

variable {I : Interface K n m σ δ} {P : Phases n m σ} {admits : Call K n m δ → σ → Prop}

theorem solve_of_sturdy (hI : I.Respects P admits) (obs : Observer K n m τ) (view : τ)
    (budget : Nat) (xGuess yGuess : Option (Array K)) {s : σ} (hs : I.method.Settled P s)
    (hc : admits (.solve obs view budget xGuess yGuess) s) (h : I.Sturdy P s) :
    (I.method.solve obs budget xGuess yGuess).Ensures (s, view) (fun _ _ => True)
      fun f _ => ∃ e ∈ solveErrors, f = .failed e := by
  have hM := hI.method
  refine Method.ensures_solve (fun _ => ⟨.invalidArguments, by simp [solveErrors], rfl⟩)
    fun guess hguess => ((hI.prepare obs view budget xGuess yGuess s guess hc hs.1 hguess).and
      (h.prepare guess)).mono ?_ ?_
  · rintro ⟨⟩ s1 ⟨⟨hmoving, hstatus⟩, -⟩
    have hstart : (I.method.status s1).isStart := by
      rw [hstatus]
      rfl
    -- a set-up that ends well leads to a homotopy that does not break
    refine (hM.homotopy_of_unbroken obs budget hmoving hstart fun s' hbetween =>
      h.steps s' (hM.moving_of_between hmoving hstart hbetween).1).mono
      (fun _ _ _ => trivial) ?_
    rintro f r ⟨⟨e, he, rfl⟩, -⟩
    simp only [List.mem_cons, List.not_mem_nil, or_false] at he
    obtain rfl | rfl | rfl := he
    · exact ⟨.maxNwsrReached, by simp [solveErrors], rfl⟩
    · exact ⟨.userAbortRequested, by simp [solveErrors], rfl⟩
    · exact ⟨.initFailedInfeasibility, by simp [solveErrors], rfl⟩
  · rintro f s1 ⟨-, e, he, rfl⟩
    simp only [setupRefusals, List.mem_cons, List.not_mem_nil, or_false] at he
    obtain rfl | rfl | rfl := he
    · exact ⟨.setupBoundFailed, by simp [solveErrors], rfl⟩
    · exact ⟨.setupConstraintFailed, by simp [solveErrors], rfl⟩
    · exact ⟨.setupWorkingSetFailed, by simp [solveErrors], rfl⟩

theorem resume_of_sturdy (hI : I.Respects P admits) (obs : Observer K n m τ) (view : τ)
    (budget : Nat) {s : σ} (hs : I.method.Settled P s) (hc : admits (.resume obs view budget) s)
    (h : I.Sturdy P s) (hstart : (I.method.status s).isStart) :
    (I.method.resume obs budget).Ensures (s, view) (fun _ r => (I.method.status r.1).isStart)
      fun f r => (∃ e ∈ resumeErrors, f = .failed e) ∧ (I.method.status r.1).isStart := by
  have hM := hI.method
  refine Method.ensures_resume (fun hnot => absurd hstart hnot) (fun _ e hlimits => ?_)
    fun _ hlimits => ?_
  · refine ⟨⟨e, ?_, rfl⟩, hstart⟩
    obtain rfl | rfl := h.limits e hlimits
    · simp [resumeErrors]
    · simp [resumeErrors]
  · have hmoving := hI.resume obs view budget s hc hstart (hs.ready hstart) hlimits
    refine (hM.homotopy_of_unbroken obs budget hmoving hstart fun s' hbetween =>
      h.steps s' (hM.moving_of_between hmoving hstart hbetween).1).mono (fun _ _ h => h) ?_
    rintro f r ⟨⟨e, he, rfl⟩, hstart'⟩
    refine ⟨⟨e, ?_, rfl⟩, hstart'⟩
    simp only [List.mem_cons, List.not_mem_nil, or_false] at he
    obtain rfl | rfl | rfl := he <;> simp [resumeErrors]

/-- Where the parts of a call do not break down, no call does. -/
theorem endures (hI : I.Respects P admits) {s : σ} (hs : I.method.Settled P s)
    (hsolve : ∀ {τ : Type} (obs : Observer K n m τ) view budget xGuess yGuess,
      admits (.solve obs view budget xGuess yGuess) s)
    (hresume : ∀ {τ : Type} (obs : Observer K n m τ) view budget,
      admits (.resume obs view budget) s) (h : I.Sturdy P s) : I.Endures s := by
  have hM := hI.method
  refine ⟨fun obs view budget xGuess yGuess f hcall => ?_,
    fun obs view budget f hstart hcall => ?_, fun obs view budget hstart => ?_,
    fun s' hstarts s'' hbetween => ?_⟩
  · have hrun := hI.solve_of_sturdy obs view budget xGuess yGuess hs
      (hsolve obs view budget xGuess yGuess) h
    obtain ⟨_, hf⟩ := hrun.of_outcome_error (Prod.ext hcall rfl)
    exact hf
  · have hrun := hI.resume_of_sturdy obs view budget hs (hresume obs view budget) h hstart
    obtain ⟨_, hf, -⟩ := hrun.of_outcome_error (Prod.ext hcall rfl)
    exact hf
  · have hrun := hI.resume_of_sturdy obs view budget hs (hresume obs view budget) h hstart
    obtain ⟨k, r, hcall, hkept⟩ | ⟨f, r, hcall, -, hkept⟩ := outcome_of_ensures hrun
    · rw [Interface.call, hcall]
      exact hkept
    · rw [Interface.call, hcall]
      exact hkept
  · obtain ⟨hmoving, hstart⟩ := hI.moving_of_starts hs
      (fun xGuess yGuess => hsolve Observer.silent () 0 xGuess yGuess)
      (hresume Observer.silent () 0) hstarts
    exact h.steps s'' (hM.moving_of_between hmoving hstart hbetween).1

end Interface.Respects

end ActiveSet
