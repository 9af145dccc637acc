import ActiveSet.Proofs.Exact.Real
import ActiveSet.Proofs.Lifecycle

/-!
# Arriving at the loaded problem

A call that succeeds ends with a step that no event has cut short. The other way round, a call whose very
first step is such a step has nothing else to do: it succeeds after that one step, whatever its observer
and its budget.

* `Method.Arrives`: the step that leads to the loaded problem.
* `Method.follow_arrives`, `Interface.Respects.arrives_of_call`: the last step of a call that succeeds.
* `Method.InOneStep`, `Arrives.solve`, `Arrives.resume`: a call that needs one step only.
-/

namespace ActiveSet

open Update

variable {n m : ℕ} {σ δ τ : Type}

namespace Method

variable {M : Method ℝ n m σ} {start s s' : σ}

/-- A step leads to the loaded problem, since there is nothing on its way. -/
inductive Arrives (M : Method ℝ n m σ) (s : σ) : σ → Prop
  | intro {s1 : σ}
    (hdirection : M.determineDirection (M.withStatus .performingHomotopy s) = .ok () s1)
    (hlength : M.stepLength s1 = (1, .full)) :
    Arrives M s (M.withStatus .solved (M.perform 1 .full s1))

/-- A call makes one step, to the loaded problem. The number of steps is the result, and the observer is
shown the record of this step and no other one. -/
def InOneStep (M : Method ℝ n m σ) (start : Start ℝ) (s s' : σ) : Prop :=
  ∃ it : Iteration ℝ n m, it.event = .full ∧ it.tau = 1 ∧
    ∀ {τ : Type} (obs : Observer ℝ n m τ) (t : τ) (budget : ℕ), 1 ≤ budget →
      M.run start obs budget (s, t) = .ok 1 (s', (obs.observe it t).1)

-- ---------------------------------------------------------------------------
-- The last step
-- ---------------------------------------------------------------------------

theorem step_arrives (M : Method ℝ n m σ) (index : ℕ) (s : σ) :
    (M.step index).Ensures s (fun it s' => it.event = .full → M.Arrives s s') fun _ _ => True := by
  refine (M.step_spec index s).mono (fun it s' h hfull => ?_) fun _ _ _ => trivial
  cases h with
  | @full s1 hdirection hevent htau =>
    have hlength : M.stepLength s1 = (1, .full) := Prod.ext (by simpa using htau) hevent
    rw [hlength]
    exact .intro hdirection hlength
  | changed _ hevent => exact absurd hfull hevent

/-- A homotopy that comes to the loaded problem does so by its last step. -/
theorem follow_arrives (obs : Observer ℝ n m τ) (budget : ℕ) :
    ∀ {index k : ℕ} {s : σ} {t : τ} {r : σ × τ}, M.Between start s →
      M.follow obs budget index (s, t) = .ok k r → ∃ s0, M.Between start s0 ∧ M.Arrives s0 r.1 := by
  -- by induction on the budget: a run that ends well ends with a full step
  induction budget with
  | zero =>
    intro index k s t r _ h
    cases h
  | succ budget ih =>
    intro index k s t r hbetween h
    rw [follow_succ] at h
    cases hstep : M.step index s with
    | error f s1 =>
      rw [hstep] at h
      cases h
    | ok it s1 =>
      rw [hstep] at h
      dsimp only at h
      split at h
      · next hfull =>
        cases h
        exact ⟨s, hbetween, (step_arrives M index s).of_ok hstep hfull⟩
      · next hevent =>
        split at h
        · cases h
        · exact ih (.step hbetween hstep hevent) h

/-- The steps of a homotopy leave the loaded problem and the verdicts alone. -/
theorem Restartable.sameTask_of_between (hM : M.Restartable) (h : M.Between start s) :
    (M.core (M.clearVerdict start)).SameTask (M.core s) := by
  induction h with
  | start => exact .refl _
  | step _ hstep _ ih => exact ih.trans ((hM.step_ensures _ _).of_ok hstep).2.1

-- ---------------------------------------------------------------------------
-- The only step
-- ---------------------------------------------------------------------------

namespace Arrives

theorem step (h : M.Arrives s s') (index : ℕ) :
    M.step index s = .ok (M.record index 1 .full s') s' := by
  cases h with
  | @intro s1 hdirection hlength =>
    have hrecover (before : Status) : Update.recover M.determineDirection
        (fun _ => M.directionFailed before) (M.withStatus .performingHomotopy s) = .ok () s1 := by
      unfold Update.recover
      rw [hdirection]
    unfold Method.step
    rw [bind_of_ok get_eq, bind_of_ok (modify_eq _), bind_of_ok (hrecover _), bind_of_ok get_eq,
      hlength]
    dsimp only
    rw [bind_of_ok (modify_eq _), if_pos rfl, if_pos (beq_self_eq_true _), bind_of_ok (modify_eq _),
      bind_of_ok get_eq]
    rfl

/-- The step to the loaded problem leaves the limits and the verdicts on it as they are. -/
theorem verdictless (h : M.Arrives s s') (hM : M.Restartable) (hlimits : M.checkLimits s = .ok ())
    (hinfeasible : (M.core s).infeasible = false) (hunbounded : (M.core s).unbounded = false) :
    M.checkLimits s' = .ok () ∧ M.clearVerdict s' = s' := by
  obtain ⟨-, htask, -⟩ := (hM.step_ensures 0 s).of_ok (h.step 0)
  exact ⟨(hM.checkLimits_congr _ _ htask.target).trans hlimits,
    hM.clearVerdict_eq (htask.infeasible.trans hinfeasible) (htask.unbounded.trans hunbounded)⟩

/-- A homotopy with such a step to begin with makes no other one. -/
theorem follow (h : M.Arrives s s') (obs : Observer ℝ n m τ) (budget index : ℕ) (t : τ) :
    M.follow obs (budget + 1) index (s, t) =
      .ok (index + 1) (s', (obs.observe (M.record index 1 .full s') t).1) := by
  rw [follow_succ, h.step index]
  exact if_pos rfl

theorem resume (h : M.Arrives s s') (hstart : (M.status s).isStart = true)
    (hlimits : M.checkLimits s = .ok ()) (hclear : M.clearVerdict s = s) :
    M.InOneStep .previous s s' := by
  refine ⟨M.record 0 1 .full s', rfl, rfl, fun obs t budget hbudget => ?_⟩
  obtain ⟨budget, rfl⟩ := Nat.exists_eq_add_of_le' hbudget
  refine (resume_eq obs (budget + 1) s t).trans ?_
  rw [if_pos hstart, hlimits, hclear]
  exact h.follow obs budget 0 t

theorem solve {xGuess yGuess : Option (Array ℝ)} {guess : Guess ℝ n m}
    (hguess : Guess.ofArrays n m xGuess yGuess = .ok guess)
    (hprepare : M.prepare guess (M.reset s) = .ok () start)
    (h : M.Arrives (M.clearVerdict start) s') : M.InOneStep (.scratch xGuess yGuess) s s' := by
  refine ⟨M.record 0 1 .full s', rfl, rfl, fun obs t budget hbudget => ?_⟩
  obtain ⟨budget, rfl⟩ := Nat.exists_eq_add_of_le' hbudget
  refine (solve_guessed hguess obs (budget + 1) s t).trans ?_
  rw [hprepare]
  dsimp only
  rw [h.follow obs budget 0 t]
  rfl

end Arrives

end Method

-- ---------------------------------------------------------------------------
-- Calls
-- ---------------------------------------------------------------------------

namespace Interface

variable {I : Interface ℝ n m σ δ} {P : Phases n m σ} {admits : Call ℝ n m δ → σ → Prop}

/-- A call that succeeds in solving has had a homotopy. -/
theorem startsBy_of_call {c : Call ℝ n m δ} {s s' : σ} {k : ℕ} (hsolve : c.isSolve = true)
    (hcall : I.call c s = (.ok k, s')) : ∃ start, I.StartsBy s c start := by
  cases c with
  | load d => cases hsolve
  | reset => cases hsolve
  | solve obs view budget xGuess yGuess =>
    simp only [Interface.call] at hcall
    cases hguess : Guess.ofArrays n m xGuess yGuess with
    | error e =>
      rw [Method.solve_refused hguess] at hcall
      cases hcall
    | ok guess =>
      rw [Method.solve_guessed hguess] at hcall
      cases hprepare : I.method.prepare guess (I.method.reset s) with
      | ok _ start => exact ⟨start, .prepared hguess hprepare⟩
      | error f s1 =>
        rw [hprepare] at hcall
        cases f <;> cases hcall
  | resume obs view budget =>
    simp only [Interface.call, Method.resume_eq] at hcall
    by_cases hstart : (I.method.status s).isStart = true
    · rw [if_pos hstart] at hcall
      cases hlimits : I.method.checkLimits s with
      | ok _ => exact ⟨s, .resumed hstart hlimits⟩
      | error e =>
        rw [hlimits] at hcall
        cases hcall
    · rw [if_neg hstart] at hcall
      cases hcall

/-- A call that makes one step succeeds. -/
theorem call_of_inOneStep {xGuess yGuess : Option (Array ℝ)} {s s' : σ}
    (h : I.method.InOneStep (.scratch xGuess yGuess) s s') :
    I.call (.solve Observer.silent () 1 xGuess yGuess) s = (.ok 1, s') := by
  obtain ⟨it, -, -, hrun⟩ := h
  exact congrArg outcome (hrun Observer.silent () 1 le_rfl)

/-- The homotopy of a call that succeeds comes to the loaded problem. -/
theorem StartsBy.arrives {c : Call ℝ n m δ} {s s' start : σ} {k : ℕ} (h : I.StartsBy s c start)
    (hcall : I.call c s = (.ok k, s')) :
    ∃ s0, I.method.Between start s0 ∧ I.method.Arrives s0 s' := by
  -- the state that a homotopy arrives in does not depend on who observes it
  have hrun {τ : Type} (obs : Observer ℝ n m τ) (t : τ) (budget : ℕ)
      (hout : outcome (I.method.homotopy obs budget (start, t)) = (.ok k, s')) :
      ∃ s0, I.method.Between start s0 ∧ I.method.Arrives s0 s' := by
    cases hfollow : I.method.homotopy obs budget (start, t) with
    | error f r =>
      rw [hfollow] at hout
      cases hout
    | ok k' r =>
      rw [hfollow] at hout
      cases hout
      exact Method.follow_arrives obs budget .start hfollow
  rw [call_of_startsBy h] at hcall
  obtain ⟨hresult, hstate⟩ := Prod.mk.inj hcall
  have hok : (c.homotopy I.method start).1 = .ok k := by
    cases hhomotopy : (c.homotopy I.method start).1 with
    | error f =>
      rw [hhomotopy] at hresult
      cases hresult
    | ok k' =>
      rw [hhomotopy] at hresult
      exact hresult
  cases h with
  | resumed => exact hrun _ _ _ (Prod.ext hok hstate)
  | prepared => exact hrun _ _ _ (Prod.ext hok hstate)

/-- A call that succeeds ends with a step to the loaded problem. It starts from a state in which a step can
be made, whose loaded limits admit a point and in which there is no verdict on the problem. -/
theorem Respects.arrives_of_call (hI : I.Respects P admits) (hM : I.method.Restartable)
    {c : Call ℝ n m δ} {s s' : σ} {k : ℕ} (hs : I.method.Settled P s) (hc : admits c s)
    (hsolve : c.isSolve = true) (hcall : I.call c s = (.ok k, s')) :
    ∃ s0, P.moving s0 ∧ I.method.Arrives s0 s' ∧ I.method.checkLimits s0 = .ok () ∧
      (I.method.core s0).infeasible = false ∧ (I.method.core s0).unbounded = false := by
  obtain ⟨start, hstarts⟩ := startsBy_of_call hsolve hcall
  obtain ⟨s0, hbetween, harrives⟩ := hstarts.arrives hcall
  obtain ⟨hmoving, hstart⟩ := hI.moving_of_startsBy hs hc hstarts
  have hlimits : I.method.checkLimits start = .ok () := by
    cases hstarts with
    | resumed _ hlimits => exact hlimits
    | prepared _ hprepare => exact ((hM.prepare _ _).of_ok hprepare).2
  obtain ⟨-, hlimits, hinfeasible, hunbounded⟩ := hM.clearVerdict_start hstart hlimits
  have htask := hM.sameTask_of_between hbetween
  refine ⟨s0, (hI.method.moving_of_between hmoving hstart hbetween).1, harrives, ?_,
    htask.infeasible.trans hinfeasible, htask.unbounded.trans hunbounded⟩
  rw [hM.checkLimits_congr _ _ htask.target]
  exact hlimits

end Interface

end ActiveSet
