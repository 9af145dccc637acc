import ActiveSet.Proofs.Update
import ActiveSet.Solver.Homotopy

/-!
# What a step can do

A step determines a direction, follows it, and changes the working set as the event at its end asks for.
Each of these parts can fail, and what is left then depends on the part. All that is ever shown of a step
is shown for each of its ends.

A solve looks at what it has been given before its first step, and it can be refused for that.

* `Method.Stepped`: the ends of a step that succeeds.
* `Method.StepFailed`: the ends of a step that fails.
* `Method.Reported`: what becomes of the error of a change of the working set.
* `Method.step_spec`: there are no other ends.
* `Method.ensures_solve`, `Method.ensures_resume`: a solve by its parts.
-/

namespace ActiveSet

/-- The errors by which a change of the working set says that no point is feasible. -/
def QpError.IsInfeasibility (e : QpError) : Prop :=
  e = .addBoundFailedInfeasibility ∨ e = .addConstraintFailedInfeasibility

namespace Method

variable {K : Type} {n m : Nat} {σ : Type}

/-- A state with the verdict that no point is feasible. If the working set is still there, a homotopy can
start from it. -/
def block (M : Method K n m σ) (s : σ) : σ :=
  M.withCore s { M.core s with
    status := if (M.core s).status = .performingHomotopy then .homotopySolved else (M.core s).status
    infeasible := true }

/-- A state with the verdict that the objective has no lower bound, from which no homotopy can start. -/
def condemn (M : Method K n m σ) (s : σ) : σ :=
  M.withCore s { M.core s with status := .notInitialised, unbounded := true }

/-- The error that is reported for one of a change of the working set, and the state that is left. -/
inductive Reported (M : Method K n m σ) (s : σ) : QpError → QpError → σ → Prop
  | infeasible {e : QpError} (he : e.IsInfeasibility) :
    Reported M s e .hotstartStoppedInfeasibility (M.block s)
  | unbounded : Reported M s .hotstartStoppedUnboundedness .hotstartStoppedUnboundedness (M.condemn s)
  | other {e : QpError} (hinf : ¬e.IsInfeasibility) (hne : e ≠ .hotstartStoppedUnboundedness) :
    Reported M s e e (M.withStatus .notInitialised s)

variable [Scalar K]

/-- How a step fails. The last three ends are broken requirements. -/
inductive StepFailed (M : Method K n m σ) (s : σ) : Fault → σ → Prop
  | undirected {e : QpError} {s1 : σ}
    (hdirection : M.determineDirection (M.withStatus .performingHomotopy s) = .error (.failed e) s1) :
    StepFailed M s (.failed .stepDirectionDeterminationFailed)
      (M.withStatus (if M.status s = .solved then .homotopySolved else M.status s) s1)
  | unchanged {e e' : QpError} {s1 s2 s3 : σ}
    (hdirection : M.determineDirection (M.withStatus .performingHomotopy s) = .ok () s1)
    (hevent : (M.stepLength s1).2 ≠ .full)
    (hchange : M.changeWorkingSet (M.stepLength s1).2
      (M.perform (M.stepLength s1).1 (M.stepLength s1).2 s1) = .error (.failed e) s2)
    (hreported : M.Reported s2 e e' s3) : StepFailed M s (.failed e') s3
  | directionBroken {s1 : σ}
    (hdirection : M.determineDirection (M.withStatus .performingHomotopy s) = .error .broken s1) :
    StepFailed M s .broken s1
  | lengthBroken {s1 : σ}
    (hdirection : M.determineDirection (M.withStatus .performingHomotopy s) = .ok () s1)
    (hevent : (M.stepLength s1).2 = .full) (htau : ((M.stepLength s1).1 == 1) ≠ true) :
    StepFailed M s .broken (M.perform (M.stepLength s1).1 (M.stepLength s1).2 s1)
  | changeBroken {s1 s2 : σ}
    (hdirection : M.determineDirection (M.withStatus .performingHomotopy s) = .ok () s1)
    (hevent : (M.stepLength s1).2 ≠ .full)
    (hchange : M.changeWorkingSet (M.stepLength s1).2
      (M.perform (M.stepLength s1).1 (M.stepLength s1).2 s1) = .error .broken s2) :
    StepFailed M s .broken s2

/-- How a step succeeds: at the loaded problem, or with a working set that has followed an event. -/
inductive Stepped (M : Method K n m σ) (index : Nat) (s : σ) : Iteration K n m → σ → Prop
  | full {s1 : σ}
    (hdirection : M.determineDirection (M.withStatus .performingHomotopy s) = .ok () s1)
    (hevent : (M.stepLength s1).2 = .full) (htau : ((M.stepLength s1).1 == 1) = true) :
    Stepped M index s
      (M.record index (M.stepLength s1).1 (M.stepLength s1).2
        (M.withStatus .solved (M.perform (M.stepLength s1).1 (M.stepLength s1).2 s1)))
      (M.withStatus .solved (M.perform (M.stepLength s1).1 (M.stepLength s1).2 s1))
  | changed {s1 s2 : σ}
    (hdirection : M.determineDirection (M.withStatus .performingHomotopy s) = .ok () s1)
    (hevent : (M.stepLength s1).2 ≠ .full)
    (hchange : M.changeWorkingSet (M.stepLength s1).2
      (M.perform (M.stepLength s1).1 (M.stepLength s1).2 s1) = .ok () s2) :
    Stepped M index s
      (M.record index (M.stepLength s1).1 (M.stepLength s1).2 (M.withStatus .homotopySolved s2))
      (M.withStatus .homotopySolved s2)

variable {M : Method K n m σ}

omit [Scalar K] in
theorem changeFailed_spec (M : Method K n m σ) (e : QpError) (s : σ) {Q : Unit → σ → Prop} :
    (M.changeFailed e).Ensures s Q fun f s' => ∃ e', f = .failed e' ∧ M.Reported s e e' s' := by
  unfold changeFailed
  by_cases hinf : e.IsInfeasibility
  · rw [if_pos (show _ ∨ _ from hinf), Update.ensures_bind, Update.ensures_modify, Update.ensures_fail]
    exact ⟨_, rfl, .infeasible hinf⟩
  · rw [if_neg (show ¬(_ ∨ _) from hinf), Update.ensures_ite]
    constructor
    · rintro rfl
      rw [Update.ensures_bind, Update.ensures_modify, Update.ensures_fail]
      exact ⟨_, rfl, .unbounded⟩
    · intro hne
      rw [Update.ensures_bind, Update.ensures_modify, Update.ensures_fail]
      exact ⟨_, rfl, .other hinf hne⟩

/-- A step ends in one of these ways. -/
theorem step_spec (M : Method K n m σ) (index : Nat) (s : σ) :
    (M.step index).Ensures s (M.Stepped index s) (M.StepFailed s) := by
  unfold step
  rw [Update.ensures_bind, Update.ensures_get, Update.ensures_bind, Update.ensures_modify,
    Update.ensures_bind, Update.ensures_recover]
  -- each branch of a step ends in one of the ways that are listed
  refine (Update.ensures_run _ _).mono ?_ ?_
  · rintro ⟨⟩ s1 hdirection
    rw [Update.ensures_bind, Update.ensures_get]
    dsimp only
    rw [Update.ensures_bind, Update.ensures_modify, Update.ensures_ite]
    constructor
    · intro hevent
      rw [Update.ensures_ite]
      constructor
      · intro htau
        rw [Update.ensures_bind, Update.ensures_modify, Update.ensures_bind, Update.ensures_get,
          Update.ensures_pure]
        exact .full hdirection hevent htau
      · intro htau
        rw [Update.ensures_bind, Update.ensures_throw]
        exact .lengthBroken hdirection hevent htau
    · intro hevent
      rw [Update.ensures_bind, Update.ensures_recover]
      refine (Update.ensures_run _ _).mono ?_ ?_
      · rintro ⟨⟩ s2 hchange
        rw [Update.ensures_bind, Update.ensures_modify, Update.ensures_bind, Update.ensures_get,
          Update.ensures_pure]
        exact .changed hdirection hevent hchange
      · rintro (_ | e) s2 hchange
        · exact .changeBroken hdirection hevent hchange
        · refine (M.changeFailed_spec e s2 (Q := fun _ _ => False)).mono (fun _ _ h => h.elim) ?_
          rintro _ s3 ⟨e', rfl, hreported⟩
          exact .unchanged hdirection hevent hchange hreported
  · rintro (_ | e) s1 hdirection
    · exact .directionBroken hdirection
    · dsimp only [directionFailed]
      rw [Update.ensures_bind, Update.ensures_modify, Update.ensures_fail]
      exact .undirected hdirection

end Method

/-! ## Solves -/

section Solves

variable {K : Type} [Scalar K] {n m : Nat} {σ τ : Type}

/-- Arrays of the wrong size are refused with one error. -/
theorem Guess.ofArrays_error {x y : Option (Array K)} {e : QpError}
    (h : Guess.ofArrays n m x y = .error e) : e = .invalidArguments := by
  unfold ofArrays at h
  split at h <;> cases h <;> rfl

namespace Method

variable {M : Method K n m σ} {obs : Observer K n m τ} {budget : Nat} {s : σ} {view : τ}
  {Q : Nat → σ × τ → Prop} {E : Fault → σ × τ → Prop}

/-- A guess that is refused leaves everything as it is. -/
theorem solve_refused {xGuess yGuess : Option (Array K)} {e : QpError}
    (hguess : Guess.ofArrays n m xGuess yGuess = .error e) (obs : Observer K n m τ) (budget : Nat)
    (s : σ) (view : τ) : M.solve obs budget xGuess yGuess (s, view) = .error (.failed e) (s, view) := by
  unfold solve
  rw [hguess]
  rfl

/-- A solve from scratch refuses its guess, or it sets up an auxiliary problem in the state that a reset
leaves and follows the homotopy from there. -/
theorem ensures_solve {xGuess yGuess : Option (Array K)}
    (hrefused : Guess.ofArrays n m xGuess yGuess = .error .invalidArguments →
      E (.failed .invalidArguments) (s, view))
    (hguessed : ∀ guess, Guess.ofArrays n m xGuess yGuess = .ok guess →
      (M.prepare guess).Ensures (M.reset s)
        (fun _ s' => (M.homotopy obs budget).Ensures (s', view) Q fun f => E (f.mapError initError))
        fun f s' => match f with
          | .broken => E .broken (s', view)
          | .failed e => E (.failed (setupError e)) (M.withStatus .notInitialised s', view)) :
    (M.solve obs budget xGuess yGuess).Ensures (s, view) Q E := by
  unfold solve
  rw [Update.ensures_bind]
  cases hguess : Guess.ofArrays n m xGuess yGuess with
  | error e =>
    obtain rfl := Guess.ofArrays_error hguess
    rw [Update.ofExcept_error, Update.ensures_fail]
    exact hrefused hguess
  | ok guess =>
    rw [Update.ofExcept_ok, Update.ensures_pure, Update.ensures_bind, Update.ensures_first,
      Update.ensures_bind, Update.ensures_modify, Update.ensures_recover]
    -- what the set-up ensures goes over into the homotopy
    refine (hguessed guess hguess).mono (fun _ s' h => ?_) fun f s' h => ?_
    · rw [Update.ensures_mapError]
      exact h
    · cases f with
      | broken => exact h
      | failed e =>
        dsimp only
        rw [Update.ensures_bind, Update.ensures_modify, Update.ensures_fail]
        exact h

/-- A solve from the previous solution follows the homotopy, if there is such a solution and the loaded
limits pass their check. -/
theorem ensures_resume
    (hnone : ¬(M.status s).isStart = true → E (.failed .hotstartFailedAsQpNotInitialised) (s, view))
    (hrefused : (M.status s).isStart = true → ∀ e, M.checkLimits s = .error e →
      E (.failed e) (s, view))
    (hstarts : (M.status s).isStart = true → M.checkLimits s = .ok () →
      (M.homotopy obs budget).Ensures (s, view) Q E) :
    (M.resume obs budget).Ensures (s, view) Q E := by
  unfold resume
  rw [Update.ensures_bind, Update.ensures_get]
  dsimp only
  split
  · next hstart =>
    rw [Update.ensures_bind]
    cases hlimits : M.checkLimits s with
    | error e => exact hrefused hstart e hlimits
    | ok u => exact hstarts hstart hlimits
  · next hnot => exact hnone hnot

end Method

end Solves

end ActiveSet
