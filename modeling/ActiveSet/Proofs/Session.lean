import ActiveSet.Proofs.Step

/-!
# Sessions

What the users of a solver do with it is a sequence of calls: they load data, solve from scratch,
solve again from where the last solve ended, or reset. `Interface.Reachable` is the set of states
that such sequences lead to, for any arguments and any observers, restricted if need be to the
calls that a condition admits.

A statement about all reachable states is an invariant. What has to be shown for one is the same
for every solver and every invariant: how it fares in the parts of a step. `Phases` names the
predicates for the states between these parts, `Method.Respects` lists what the parts have to do
with them, and the theorems carry this through a step, through a homotopy, and through a session.

* `Call`, `Interface.call`, `Interface.Reachable`: calls and sessions.
* `Phases`, `Method.Respects`, `Interface.Respects`: predicates for the parts of a solve.
* `Method.Respects.step_ensures`, `follow_ensures`: what a step and a homotopy keep.
* `Interface.Respects.settled`: what holds in every reachable state.
* `Interface.Respects.solve_ensures`, `resume_ensures`: how a solve ends.
-/

namespace ActiveSet

/-! ## Calls -/

/-- A call of a solver that loads data described by `δ`. The observer of a solve is any function
with a state of its own, and the arrays of a guess may have any size. -/
inductive Call (K : Type) (n m : Nat) (δ : Type) : Type 1 where
  /-- Loads a part of the problem, or parameters. -/
  | load (d : δ)
  /-- Solves from scratch. -/
  | solve {τ : Type} (obs : Observer K n m τ) (view : τ) (budget : Nat)
      (xGuess yGuess : Option (Array K))
  /-- Solves from the solution of the previous problem. -/
  | resume {τ : Type} (obs : Observer K n m τ) (view : τ) (budget : Nat)
  /-- Gives up working set, factorizations and solution. -/
  | reset

/-- A solver as its users see it. -/
structure Interface (K : Type) (n m : Nat) (σ δ : Type) where
  /-- How problems are solved. -/
  method : Method K n m σ
  /-- The state before the first call. -/
  fresh : σ
  /-- How data is loaded. -/
  load : δ → σ → Except QpError σ

variable {K : Type} [Scalar K] {n m : Nat} {σ δ τ : Type}

/-- What a caller sees of a run with an observer: the result and the state of the solver. -/
def outcome {α : Type} : EStateM.Result Fault (σ × τ) α → Except Fault α × σ
  | .ok a s => (.ok a, s.1)
  | .error f s => (.error f, s.1)

theorem outcome_of_ensures {α : Type} {u : Update (σ × τ) α} {s : σ × τ} {Q : α → σ × τ → Prop}
    {E : Fault → σ × τ → Prop} (h : u.Ensures s Q E) :
    (∃ a r, outcome (u s) = (.ok a, r.1) ∧ Q a r) ∨
      ∃ f r, outcome (u s) = (.error f, r.1) ∧ E f r := by
  unfold Update.Ensures at h
  cases hrun : u s with
  | ok a r =>
    rw [hrun] at h
    exact .inl ⟨a, r, rfl, h⟩
  | error f r =>
    rw [hrun] at h
    exact .inr ⟨f, r, rfl, h⟩

namespace Update.Ensures

variable {α : Type} {u : Update (σ × τ) α} {s : σ × τ} {s' : σ} {Q : α → σ × τ → Prop}
  {E : Fault → σ × τ → Prop}

/-- What a run ensures of its success holds of what the caller sees, with some state of the observer. -/
theorem of_outcome_ok {a : α} (h : u.Ensures s Q E) (hrun : outcome (u s) = (.ok a, s')) :
    ∃ t, Q a (s', t) := by
  obtain ⟨a', r, hr, hq⟩ | ⟨f, r, hr, -⟩ := outcome_of_ensures h
  · rw [hr] at hrun
    cases hrun
    exact ⟨r.2, hq⟩
  · rw [hr] at hrun
    cases hrun

/-- What a run ensures of its failure holds of what the caller sees, with some state of the observer. -/
theorem of_outcome_error {f : Fault} (h : u.Ensures s Q E)
    (hrun : outcome (u s) = (.error f, s')) : ∃ t, E f (s', t) := by
  obtain ⟨a', r, hr, -⟩ | ⟨f', r, hr, he⟩ := outcome_of_ensures h
  · rw [hr] at hrun
    cases hrun
  · rw [hr] at hrun
    cases hrun
    exact ⟨r.2, he⟩

end Update.Ensures

/-- The result of a call, and the state after it. A solve results in a number of steps, and the
other calls in zero. Data that is refused changes nothing. -/
def Interface.call (I : Interface K n m σ δ) : Call K n m δ → σ → Except Fault Nat × σ
  | .load d, s =>
    match I.load d s with
    | .ok s' => (.ok 0, s')
    | .error e => (.error (.failed e), s)
  | .solve obs view budget xGuess yGuess, s =>
    outcome (I.method.solve obs budget xGuess yGuess (s, view))
  | .resume obs view budget, s => outcome (I.method.resume obs budget (s, view))
  | .reset, s => (.ok 0, I.method.reset s)

/-- The states to which the calls lead that a condition admits in the state they are made in. -/
inductive Interface.Reachable (I : Interface K n m σ δ) (admits : Call K n m δ → σ → Prop) :
    σ → Prop
  | fresh : Reachable I admits I.fresh
  | call {s : σ} (c : Call K n m δ) :
    Reachable I admits s → admits c s → Reachable I admits (I.call c s).2

/-- What fewer calls lead to, more calls lead to. -/
theorem Interface.Reachable.mono {I : Interface K n m σ δ} {admits admits' : Call K n m δ → σ → Prop}
    (h : ∀ c s, admits c s → admits' c s) {s : σ} (hs : I.Reachable admits s) :
    I.Reachable admits' s := by
  induction hs with
  | fresh => exact .fresh
  | call c _ hc ih => exact .call c ih (h c _ hc)

/-- What an admitted call leads to is reachable. -/
theorem Interface.Reachable.of_call {I : Interface K n m σ δ} {admits : Call K n m δ → σ → Prop}
    {c : Call K n m δ} {s s' : σ} {r : Except Fault Nat} (hs : I.Reachable admits s)
    (hc : admits c s) (hcall : I.call c s = (r, s')) : I.Reachable admits s' := by
  have h := Reachable.call c hs hc
  rwa [hcall] at h

/-- The states in which the homotopy of a call can start: the state of the call itself, if the call
resumes, or the solution of an auxiliary problem. -/
inductive Interface.Starts (I : Interface K n m σ δ) (s : σ) : σ → Prop
  | resumed (hstart : (I.method.status s).isStart) (hlimits : I.method.checkLimits s = .ok ()) :
    Starts I s s
  | prepared {xGuess yGuess : Option (Array K)} {guess : Guess K n m} {s' : σ}
    (hguess : Guess.ofArrays n m xGuess yGuess = .ok guess)
    (hprepare : I.method.prepare guess (I.method.reset s) = .ok () s') : Starts I s s'

/-- Whether a call solves a problem. -/
def Call.isSolve : Call K n m δ → Bool
  | .solve .. | .resume .. => true
  | .load _ | .reset => false

/-- The error by which a call says that no point is feasible. -/
def Call.infeasibility : Call K n m δ → Option QpError
  | .solve .. => some .initFailedInfeasibility
  | .resume .. => some .hotstartStoppedInfeasibility
  | .load _ | .reset => none

/-- The condition that admits every call. -/
def anyCall : Call K n m δ → σ → Prop := fun _ _ => True

theorem Interface.reachable_foldl (I : Interface K n m σ δ) (calls : List (Call K n m δ)) :
    ∀ {s : σ}, I.Reachable anyCall s →
      I.Reachable anyCall (calls.foldl (fun s c => (I.call c s).2) s) := by
  induction calls with
  | nil => exact fun hs => hs
  | cons c rest ih => exact fun hs => ih (.call c hs trivial)

/-! ## Phases of a solve -/

/-- Predicates for the states in the course of a session. -/
structure Phases (n m : Nat) (σ : Type) where
  /-- Holds between all calls. -/
  rest : σ → Prop
  /-- Holds between the calls while a homotopy could start. -/
  ready : σ → Prop
  /-- Holds between the steps of a homotopy. -/
  moving : σ → Prop
  /-- Holds in a step once its direction is known. -/
  directed : σ → Prop
  /-- Holds at the end of a step, before the working set has followed the event. -/
  stepped : StepEvent n m → σ → Prop
  /-- Holds at the loaded problem. -/
  arrived : σ → Prop
  /-- Holds where the working set cannot follow an event because no point is feasible. -/
  blocked : σ → Prop
  /-- The errors, other than infeasibility, with which a change of the working set can fail. -/
  refusal : QpError → Prop

namespace Method

section Predicates

omit [Scalar K]

/-- A predicate looks neither at the status nor at the verdicts. -/
def IgnoresStatus (M : Method K n m σ) (p : σ → Prop) : Prop :=
  ∀ s status infeasible unbounded, p s →
    p (M.withCore s { M.core s with status, infeasible, unbounded })

theorem IgnoresStatus.withStatus {M : Method K n m σ} {p : σ → Prop} (h : M.IgnoresStatus p)
    {s : σ} (status : Status) (hs : p s) : p (M.withStatus status s) :=
  h s status (M.core s).infeasible (M.core s).unbounded hs

theorem IgnoresStatus.clearVerdict {M : Method K n m σ} {p : σ → Prop} (h : M.IgnoresStatus p)
    {s : σ} (hs : p s) : p (M.clearVerdict s) :=
  h s (M.core s).status false false hs

end Predicates

/-- What the parts of a step do with the predicates of its phases. -/
structure Respects (M : Method K n m σ) (P : Phases n m σ) : Prop where
  core_withCore : ∀ s c, M.core (M.withCore s c) = c
  rest_ignores : M.IgnoresStatus P.rest
  ready_ignores : M.IgnoresStatus P.ready
  moving_ignores : M.IgnoresStatus P.moving
  arrived_ignores : M.IgnoresStatus P.arrived
  blocked_ignores : M.IgnoresStatus P.blocked
  rest_of_ready : ∀ s, P.ready s → P.rest s
  ready_of_moving : ∀ s, P.moving s → P.ready s
  moving_of_arrived : ∀ s, P.arrived s → P.moving s
  direction : ∀ s, P.moving s → M.determineDirection.Ensures s
    (fun _ s' => P.directed s' ∧ M.status s' = M.status s)
    (fun f s' => (∃ e, f = .failed e) ∧ P.moving s')
  full : ∀ s, P.directed s → (M.stepLength s).2 = .full →
    ((M.stepLength s).1 == 1) = true ∧ P.arrived (M.perform (M.stepLength s).1 .full s)
  stop : ∀ s, P.directed s → (M.stepLength s).2 ≠ .full →
    P.stepped (M.stepLength s).2 (M.perform (M.stepLength s).1 (M.stepLength s).2 s)
  status_perform : ∀ tau event s, M.status (M.perform tau event s) = M.status s
  change : ∀ event s, event ≠ .full → P.stepped event s → M.status s = .performingHomotopy →
    (M.changeWorkingSet event).Ensures s (fun _ s' => P.moving s') fun f s' =>
      ∃ e, f = .failed e ∧ P.rest s' ∧
        (e.IsInfeasibility ∧ P.blocked s' ∧ (M.status s' = .notInitialised ∨
            M.status s' = .performingHomotopy ∧ P.ready s') ∨
          ¬e.IsInfeasibility ∧ e ≠ .hotstartStoppedInfeasibility ∧ P.refusal e)

/-- A state between two calls. -/
def Settled (M : Method K n m σ) (P : Phases n m σ) (s : σ) : Prop :=
  P.rest s ∧ (M.status s = .notInitialised ∨ (M.status s).isStart ∧ P.ready s)

omit [Scalar K] in
/-- A homotopy can only start between two calls where the solver is ready for it. -/
theorem Settled.ready {M : Method K n m σ} {P : Phases n m σ} {s : σ} (h : M.Settled P s)
    (hstart : (M.status s).isStart) : P.ready s := by
  obtain ⟨-, hstatus | ⟨-, hready⟩⟩ := h
  · rw [hstatus] at hstart
    cases hstart
  · exact hready

/-- How a homotopy can end before the loaded problem: because it was stopped or found no direction,
because no point is feasible, or because the working set could not be changed. -/
inductive Halted (M : Method K n m σ) (P : Phases n m σ) : QpError → σ → Prop
  | stopped {e : QpError} {s : σ}
      (he : e ∈ [.maxNwsrReached, .userAbortRequested, .stepDirectionDeterminationFailed])
      (hstart : (M.status s).isStart) (hready : P.ready s) : Halted M P e s
  | infeasible {s : σ} (hs : M.Settled P s) (hblocked : P.blocked s)
      (hverdict : (M.core s).infeasible = true) : Halted M P .hotstartStoppedInfeasibility s
  | refused {e : QpError} {s : σ} (he : P.refusal e) (hne : e ≠ .hotstartStoppedInfeasibility)
      (hs : P.rest s) (hstatus : M.status s = .notInitialised) : Halted M P e s

/-! ## One step -/

variable {M : Method K n m σ} {P : Phases n m σ}

omit [Scalar K] in
/-- A homotopy that halts with a verdict on the problem was blocked. -/
theorem Halted.blocked {s : σ} (h : M.Halted P .hotstartStoppedInfeasibility s) :
    P.blocked s ∧ (M.core s).infeasible = true := by
  cases h with
  | stopped he => simp at he
  | infeasible hs hblocked hinfeasible => exact ⟨hblocked, hinfeasible⟩
  | refused he hne => exact absurd rfl hne

/-- Without a budget a homotopy does nothing but forget the last verdict. -/
theorem homotopy_zero (obs : Observer K n m τ) (s : σ) (t : τ) :
    M.homotopy obs 0 (s, t) = .error (.failed .maxNwsrReached) (M.clearVerdict s, t) := rfl

/-- A homotopy ends with its first step, if that leads to the loaded problem or fails. -/
theorem homotopy_of_step (obs : Observer K n m τ) (budget : Nat) {s : σ} {t : τ} {Q : σ → Prop}
    {E : Fault → Prop} (hstep : (M.step 0).Ensures (M.clearVerdict s)
      (fun it s' => it.event = .full ∧ Q s') fun f _ => E f) :
    (M.homotopy obs (budget + 1)).Ensures (s, t) (fun k r => k = 1 ∧ Q r.1) fun f _ => E f := by
  unfold homotopy
  rw [Update.ensures_bind, Update.ensures_first, Update.ensures_modify, follow,
    Update.ensures_bind, Update.ensures_first]
  refine hstep.mono ?_ fun f _ h => h
  rintro it s' ⟨hevent, hs'⟩
  rw [Update.ensures_bind, Update.ensures_get]
  dsimp only
  rw [Update.ensures_bind, Update.ensures_set, if_pos hevent, Update.ensures_pure]
  exact ⟨rfl, hs'⟩

namespace Respects

theorem status_withStatus (hM : M.Respects P) (status : Status) (s : σ) :
    M.status (M.withStatus status s) = status := by
  simp only [Method.status, withStatus, hM.core_withCore]

theorem status_clearVerdict (hM : M.Respects P) (s : σ) :
    M.status (M.clearVerdict s) = M.status s := by
  simp only [Method.status, clearVerdict, hM.core_withCore]

/-- A step that finds no direction leaves the state it started from, as a start for another
homotopy. -/
theorem halted_of_undirected (hM : M.Respects P) {before : Status} (hbefore : before.isStart) {s : σ}
    (hs : P.moving s) : M.Halted P .stepDirectionDeterminationFailed
      (M.withStatus (if before = .solved then .homotopySolved else before) s) := by
  refine .stopped (by simp) ?_ (hM.ready_ignores.withStatus _ (hM.ready_of_moving s hs))
  rw [hM.status_withStatus]
  split
  · rfl
  · exact hbefore

/-- What becomes of a failed change of the working set. -/
theorem halted_of_reported (hM : M.Respects P) {e e' : QpError} {s s' : σ}
    (h : M.Reported s e e' s') (hrest : P.rest s)
    (he : e.IsInfeasibility ∧ P.blocked s ∧
        (M.status s = .notInitialised ∨ M.status s = .performingHomotopy ∧ P.ready s) ∨
      ¬e.IsInfeasibility ∧ e ≠ .hotstartStoppedInfeasibility ∧ P.refusal e) :
    M.Halted P e' s' := by
  -- infeasibility leaves the solver blocked, and unboundedness makes it start over
  cases h with
  | infeasible hinf =>
    obtain ⟨-, hblocked, hstatus⟩ | ⟨hnot, -⟩ := he
    · refine .infeasible ⟨hM.rest_ignores s _ _ _ hrest, ?_⟩ (hM.blocked_ignores s _ _ _ hblocked) ?_
      · simp only [Method.status, block, hM.core_withCore] at hstatus ⊢
        obtain hstatus | ⟨hstatus, hready⟩ := hstatus
        · rw [hstatus]
          exact .inl rfl
        · rw [hstatus]
          exact .inr ⟨rfl, hM.ready_ignores s _ _ _ hready⟩
      · simp only [block, hM.core_withCore]
    · exact absurd hinf hnot
  | unbounded =>
    obtain ⟨hinf, -⟩ | ⟨-, hne, hrefusal⟩ := he
    · obtain h | h := hinf <;> cases h
    · refine .refused hrefusal hne (hM.rest_ignores s _ _ _ hrest) ?_
      simp only [Method.status, condemn, hM.core_withCore]
  | other hinf =>
    obtain ⟨hinf', -⟩ | ⟨-, hne, hrefusal⟩ := he
    · exact absurd hinf' hinf
    · exact .refused hrefusal hne (hM.rest_ignores.withStatus _ hrest) (hM.status_withStatus _ _)

/-- What the working set does at the end of a step. -/
theorem change_ensures (hM : M.Respects P) {s s1 : σ} (hs : P.moving s)
    (hdirection : M.determineDirection (M.withStatus .performingHomotopy s) = .ok () s1)
    (hevent : (M.stepLength s1).2 ≠ .full) :
    (M.changeWorkingSet (M.stepLength s1).2).Ensures
      (M.perform (M.stepLength s1).1 (M.stepLength s1).2 s1) (fun _ s2 => P.moving s2) fun f s2 =>
        ∃ e, f = .failed e ∧ P.rest s2 ∧
          (e.IsInfeasibility ∧ P.blocked s2 ∧ (M.status s2 = .notInitialised ∨
              M.status s2 = .performingHomotopy ∧ P.ready s2) ∨
            ¬e.IsInfeasibility ∧ e ≠ .hotstartStoppedInfeasibility ∧ P.refusal e) := by
  have hmoving := hM.moving_ignores.withStatus .performingHomotopy hs
  obtain ⟨hdirected, hstatus⟩ := (hM.direction _ hmoving).of_ok hdirection
  refine hM.change _ _ hevent (hM.stop s1 hdirected hevent) ?_
  rw [hM.status_perform, hstatus, hM.status_withStatus]

/-- A step breaks no requirement. -/
theorem not_broken (hM : M.Respects P) {s s' : σ} {f : Fault} (hs : P.moving s)
    (h : M.StepFailed s f s') : f ≠ .broken := by
  have hdirected := hM.direction _ (hM.moving_ignores.withStatus .performingHomotopy hs)
  cases h with
  | undirected => exact nofun
  | unchanged => exact nofun
  | directionBroken hdirection =>
    obtain ⟨⟨e, heq⟩, -⟩ := hdirected.of_error hdirection
    cases heq
  | lengthBroken hdirection hevent htau =>
    exact absurd (hM.full _ (hdirected.of_ok hdirection).1 hevent).1 htau
  | changeBroken hdirection hevent hchange =>
    obtain ⟨e, heq, -⟩ := (hM.change_ensures hs hdirection hevent).of_error hchange
    cases heq

/-- A step arrives at the loaded problem, or goes on with a changed working set, or ends the
homotopy. -/
theorem step_ensures (hM : M.Respects P) (index : Nat) {s : σ} (hs : P.moving s)
    (hstart : (M.status s).isStart) :
    (M.step index).Ensures s
      (fun it s' => if it.event = .full then P.arrived s' ∧ M.status s' = .solved
        else P.moving s' ∧ M.status s' = .homotopySolved)
      fun f s' => ∃ e, f = .failed e ∧ M.Halted P e s' := by
  have hdirected := hM.direction _ (hM.moving_ignores.withStatus .performingHomotopy hs)
  refine (M.step_spec index s).mono (fun it s' h => ?_) fun f s' h => ?_
  · cases h with
    | full hdirection hevent =>
      obtain ⟨-, harrived⟩ := hM.full _ (hdirected.of_ok hdirection).1 hevent
      rw [if_pos (show (M.record _ _ _ _).event = .full from hevent), hevent]
      exact ⟨hM.arrived_ignores.withStatus _ harrived, hM.status_withStatus _ _⟩
    | changed hdirection hevent hchange =>
      rw [if_neg (show (M.record _ _ _ _).event ≠ .full from hevent)]
      exact ⟨hM.moving_ignores.withStatus _ ((hM.change_ensures hs hdirection hevent).of_ok hchange),
        hM.status_withStatus _ _⟩
  · -- parts of a step that break cannot come up in this phase
    have hbroken := hM.not_broken hs h
    cases h with
    | undirected hdirection =>
      exact ⟨_, rfl, hM.halted_of_undirected hstart (hdirected.of_error hdirection).2⟩
    | unchanged hdirection hevent hchange hreported =>
      obtain ⟨e, heq, hrest, he⟩ := (hM.change_ensures hs hdirection hevent).of_error hchange
      cases heq
      exact ⟨_, rfl, hM.halted_of_reported hreported hrest he⟩
    | directionBroken => exact absurd rfl hbroken
    | lengthBroken => exact absurd rfl hbroken
    | changeBroken => exact absurd rfl hbroken

/-! ## All steps -/

/-- A homotopy arrives at the loaded problem or halts, and no requirement is broken on the way. -/
theorem follow_ensures (hM : M.Respects P) (obs : Observer K n m τ) (budget : Nat) :
    ∀ (index : Nat) {s : σ} {t : τ}, P.moving s → (M.status s).isStart →
      (M.follow obs budget index).Ensures (s, t)
        (fun _ r => P.arrived r.1 ∧ M.status r.1 = .solved)
        fun f r => ∃ e, f = .failed e ∧ M.Halted P e r.1 := by
  -- by induction on the budget: a step that is not the last one keeps the phase
  induction budget with
  | zero =>
    intro index s t hs hstart
    rw [follow, Update.ensures_fail]
    exact ⟨_, rfl, .stopped (by simp) hstart (hM.ready_of_moving s hs)⟩
  | succ budget ih =>
    intro index s t hs hstart
    rw [follow, Update.ensures_bind, Update.ensures_first]
    refine (hM.step_ensures index hs hstart).mono ?_ fun f s' h => h
    intro it s' hit
    rw [Update.ensures_bind, Update.ensures_get]
    dsimp only
    rw [Update.ensures_bind, Update.ensures_set]
    by_cases hevent : it.event = .full
    · rw [if_pos hevent] at hit ⊢
      exact hit
    · rw [if_neg hevent] at hit ⊢
      obtain ⟨hmoving, hstatus⟩ := hit
      have hstart' : (M.status s').isStart := by
        rw [hstatus]
        rfl
      split
      · rw [Update.ensures_fail]
        exact ⟨_, rfl, .stopped (by simp) hstart' (hM.ready_of_moving s' hmoving)⟩
      · exact ih (index + 1) hmoving hstart'

theorem homotopy_ensures (hM : M.Respects P) (obs : Observer K n m τ) (budget : Nat) {s : σ}
    {t : τ} (hs : P.moving s) (hstart : (M.status s).isStart) :
    (M.homotopy obs budget).Ensures (s, t)
      (fun _ r => P.arrived r.1 ∧ M.status r.1 = .solved)
      fun f r => ∃ e, f = .failed e ∧ M.Halted P e r.1 := by
  unfold homotopy
  rw [Update.ensures_bind, Update.ensures_first, Update.ensures_modify]
  refine hM.follow_ensures obs budget 0 (hM.moving_ignores.clearVerdict hs) ?_
  rw [hM.status_clearVerdict]
  exact hstart

theorem settled_of_halted (hM : M.Respects P) {e : QpError} {s : σ} (h : M.Halted P e s) :
    M.Settled P s := by
  cases h with
  | stopped he hstart hready => exact ⟨hM.rest_of_ready s hready, .inr ⟨hstart, hready⟩⟩
  | infeasible hs => exact hs
  | refused he hne hs hstatus => exact ⟨hs, .inl hstatus⟩

theorem settled_of_arrived (hM : M.Respects P) {s : σ} (h : P.arrived s)
    (hstatus : M.status s = .solved) : M.Settled P s := by
  have hready := hM.ready_of_moving s (hM.moving_of_arrived s h)
  refine ⟨hM.rest_of_ready s hready, .inr ⟨?_, hready⟩⟩
  rw [hstatus]
  rfl

end Respects

end Method

/-! ## Sessions -/

/-- What the calls of a session do with the predicates of its phases. -/
structure Interface.Respects (I : Interface K n m σ δ) (P : Phases n m σ)
    (admits : Call K n m δ → σ → Prop) : Prop where
  method : I.method.Respects P
  fresh : P.rest I.fresh
  status_fresh : I.method.status I.fresh = .notInitialised
  rest_load : ∀ d s s', I.load d s = .ok s' → P.rest s → P.rest s'
  ready_load : ∀ d s s', I.load d s = .ok s' → I.method.status s' = .notInitialised ∨
    I.method.status s' = I.method.status s ∧ (P.ready s → P.ready s')
  reset : ∀ s, P.rest s → P.rest (I.method.reset s)
  status_reset : ∀ s, I.method.status (I.method.reset s) = .notInitialised
  prepare : ∀ {τ : Type} (obs : Observer K n m τ) view budget xGuess yGuess s guess,
    admits (.solve obs view budget xGuess yGuess) s → P.rest s →
    Guess.ofArrays n m xGuess yGuess = .ok guess →
    (I.method.prepare guess).Ensures (I.method.reset s)
      (fun _ s' => P.moving s' ∧ I.method.status s' = .auxiliarySolved)
      fun f s' => (∃ e, f = .failed e) ∧ P.rest s'
  resume : ∀ {τ : Type} (obs : Observer K n m τ) view budget s,
    admits (.resume obs view budget) s → (I.method.status s).isStart → P.ready s →
    I.method.checkLimits s = .ok () → P.moving s

namespace Interface.Respects

variable {I : Interface K n m σ δ} {P : Phases n m σ} {admits : Call K n m δ → σ → Prop}

/-- How a solve from scratch ends: its guess is refused, its auxiliary problem cannot be set up, or
its homotopy arrives or halts. -/
theorem solve_ensures (hI : I.Respects P admits) (obs : Observer K n m τ) (view : τ) (budget : Nat)
    (xGuess yGuess : Option (Array K)) {s : σ} (hs : I.method.Settled P s)
    (hc : admits (.solve obs view budget xGuess yGuess) s) :
    (I.method.solve obs budget xGuess yGuess).Ensures (s, view)
      (fun _ r => P.arrived r.1 ∧ I.method.status r.1 = .solved)
      fun f r => I.method.Settled P r.1 ∧ ∃ e, f = .failed e ∧
        (e = .invalidArguments ∨ (∃ e', e = Method.setupError e') ∨
          ∃ e', e = Method.initError e' ∧ I.method.Halted P e' r.1) := by
  have hM := hI.method
  refine Method.ensures_solve (fun _ => ⟨hs, _, rfl, .inl rfl⟩) fun guess hguess =>
    -- the set-up either gives a start or a refusal
    (hI.prepare obs view budget xGuess yGuess s guess hc hs.1 hguess).mono ?_ ?_
  · rintro ⟨⟩ s1 ⟨hmoving, hstatus⟩
    have hstart : (I.method.status s1).isStart := by
      rw [hstatus]
      rfl
    -- from a start the homotopy keeps its own specification
    refine (hM.homotopy_ensures obs budget hmoving hstart).mono (fun _ _ h => h) ?_
    rintro f r ⟨e, rfl, hhalted⟩
    exact ⟨hM.settled_of_halted hhalted, _, rfl, .inr (.inr ⟨e, rfl, hhalted⟩)⟩
  · rintro f s1 ⟨⟨e, rfl⟩, hrest⟩
    exact ⟨⟨hM.rest_ignores.withStatus _ hrest, .inl (hM.status_withStatus _ _)⟩, _, rfl,
      .inr (.inl ⟨e, rfl⟩)⟩

/-- How a solve from the previous solution ends: there is no such solution, the loaded limits cross,
or the homotopy arrives or halts. -/
theorem resume_ensures (hI : I.Respects P admits) (obs : Observer K n m τ) (view : τ)
    (budget : Nat) {s : σ} (hs : I.method.Settled P s) (hc : admits (.resume obs view budget) s) :
    (I.method.resume obs budget).Ensures (s, view)
      (fun _ r => P.arrived r.1 ∧ I.method.status r.1 = .solved)
      fun f r => I.method.Settled P r.1 ∧ ∃ e, f = .failed e ∧
        (e = .hotstartFailedAsQpNotInitialised ∨ I.method.checkLimits s = .error e ∨
          I.method.Halted P e r.1) := by
  have hM := hI.method
  refine Method.ensures_resume (fun _ => ⟨hs, _, rfl, .inl rfl⟩)
    (fun _ e hlimits => ⟨hs, e, rfl, .inr (.inl hlimits)⟩) fun hstart hlimits => ?_
  have hmoving := hI.resume obs view budget s hc hstart (hs.ready hstart) hlimits
  refine (hM.homotopy_ensures obs budget hmoving hstart).mono (fun _ _ h => h) ?_
  rintro f r ⟨e, rfl, hhalted⟩
  exact ⟨hM.settled_of_halted hhalted, e, rfl, .inr (.inr hhalted)⟩

/-- Where a homotopy starts, a step can be made. -/
theorem moving_of_starts (hI : I.Respects P admits) {s s' : σ} (hs : I.method.Settled P s)
    (hsolve : ∀ xGuess yGuess, admits (.solve Observer.silent () 0 xGuess yGuess) s)
    (hresume : admits (.resume Observer.silent () 0) s) (h : I.Starts s s') :
    P.moving s' ∧ (I.method.status s').isStart := by
  cases h with
  | resumed hstart hlimits =>
    exact ⟨hI.resume Observer.silent () 0 s hresume hstart (hs.ready hstart) hlimits, hstart⟩
  | @prepared xGuess yGuess guess s' hguess hprepare =>
    obtain ⟨hmoving, hstatus⟩ := (hI.prepare Observer.silent () 0 xGuess yGuess s guess
      (hsolve xGuess yGuess) hs.1 hguess).of_ok hprepare
    refine ⟨hmoving, ?_⟩
    rw [hstatus]
    rfl

/-- The homotopies of a session halt for one of three reasons. -/
theorem halted_of_starts (hI : I.Respects P anyCall) {s s' : σ} (hs : I.method.Settled P s)
    (h : I.Starts s s') (obs : Observer K n m τ) (view : τ) (budget : Nat) {e : QpError}
    {r : σ × τ} (hrun : I.method.homotopy obs budget (s', view) = .error (.failed e) r) :
    I.method.Halted P e r.1 := by
  obtain ⟨hmoving, hstart⟩ := hI.moving_of_starts hs (fun _ _ => trivial) trivial h
  obtain ⟨e', heq, hhalted⟩ := (hI.method.homotopy_ensures obs budget hmoving hstart).of_error hrun
  cases heq
  exact hhalted

/-- Every call keeps the predicates for the states between calls. -/
theorem settled_call (hI : I.Respects P admits) (c : Call K n m δ) {s : σ}
    (hs : I.method.Settled P s) (hc : admits c s) : I.method.Settled P (I.call c s).2 := by
  have hM := hI.method
  cases c with
  | load d =>
    simp only [Interface.call]
    split
    · next s' hload =>
      refine ⟨hI.rest_load d s s' hload hs.1, ?_⟩
      -- afterwards the problem has to be set up again, or a homotopy can still start
      obtain hstatus | ⟨hstatus, hready⟩ := hI.ready_load d s s' hload
      · exact .inl hstatus
      · rw [hstatus]
        exact hs.2.imp_right fun h => ⟨h.1, hready h.2⟩
    · exact hs
  | solve obs view budget xGuess yGuess =>
    have h := hI.solve_ensures obs view budget xGuess yGuess hs hc
    simp only [Interface.call]
    cases hrun : I.method.solve obs budget xGuess yGuess (s, view) with
    | ok k r =>
      obtain ⟨harrived, hstatus⟩ := h.of_ok hrun
      exact hM.settled_of_arrived harrived hstatus
    | error f r => exact (h.of_error hrun).1
  | resume obs view budget =>
    have h := hI.resume_ensures obs view budget hs hc
    simp only [Interface.call]
    cases hrun : I.method.resume obs budget (s, view) with
    | ok k r =>
      obtain ⟨harrived, hstatus⟩ := h.of_ok hrun
      exact hM.settled_of_arrived harrived hstatus
    | error f r => exact (h.of_error hrun).1
  | reset => exact ⟨hI.reset s hs.1, .inl (hI.status_reset s)⟩

/-- The predicates hold in every state to which admitted calls lead. -/
theorem settled (hI : I.Respects P admits) {s : σ} (hs : I.Reachable admits s) :
    I.method.Settled P s := by
  induction hs with
  | fresh => exact ⟨hI.fresh, .inl hI.status_fresh⟩
  | call c _ hc ih => exact hI.settled_call c ih hc

/-- A solve that succeeds arrives at the loaded problem. -/
theorem arrived_of_call (hI : I.Respects P admits) {c : Call K n m δ} {s s' : σ} {k : Nat}
    (hs : I.method.Settled P s) (hc : admits c s) (hsolve : c.isSolve = true)
    (hcall : I.call c s = (.ok k, s')) : P.arrived s' ∧ I.method.status s' = .solved := by
  cases c with
  | load d => cases hsolve
  | reset => cases hsolve
  | solve obs view budget xGuess yGuess =>
    obtain ⟨_, h⟩ := (hI.solve_ensures obs view budget xGuess yGuess hs hc).of_outcome_ok hcall
    exact h
  | resume obs view budget =>
    obtain ⟨_, h⟩ := (hI.resume_ensures obs view budget hs hc).of_outcome_ok hcall
    exact h

/-- A solve that fails for want of a feasible point was blocked. -/
theorem blocked_of_call (hI : I.Respects P admits) {c : Call K n m δ} {s s' : σ} {e : QpError}
    (hs : I.method.Settled P s) (hc : admits c s) (he : c.infeasibility = some e)
    (hlimits : I.method.checkLimits s ≠ .error .hotstartStoppedInfeasibility)
    (hcall : I.call c s = (.error (.failed e), s')) :
    P.blocked s' ∧ (I.method.core s').infeasible = true := by
  have hM := hI.method
  cases c with
  | load d => cases he
  | reset => cases he
  | solve obs view budget xGuess yGuess =>
    cases he
    obtain ⟨_, -, e, heq, hcause⟩ :=
      (hI.solve_ensures obs view budget xGuess yGuess hs hc).of_outcome_error hcall
    cases heq
    obtain hnot | ⟨e', hsetup⟩ | ⟨e', hinit, hhalted⟩ := hcause
    · cases hnot
    · cases e' <;> cases hsetup
    · -- only one error of a homotopy is reported as this one
      have heq : e' = .hotstartStoppedInfeasibility := by
        cases e' <;> first | rfl | cases hinit
      rw [heq] at hhalted
      exact hhalted.blocked
  | resume obs view budget =>
    cases he
    obtain ⟨_, -, e, heq, hcause⟩ :=
      (hI.resume_ensures obs view budget hs hc).of_outcome_error hcall
    cases heq
    obtain hnot | hcrossing | hhalted := hcause
    · cases hnot
    · exact absurd hcrossing hlimits
    · exact hhalted.blocked

/-- No call breaks a requirement. -/
theorem call_ne_broken (hI : I.Respects P admits) (c : Call K n m δ) {s : σ}
    (hs : I.method.Settled P s) (hc : admits c s) : (I.call c s).1 ≠ .error .broken := by
  intro hcall
  cases c with
  | load d =>
    simp only [Interface.call] at hcall
    split at hcall <;> cases hcall
  | solve obs view budget xGuess yGuess =>
    obtain ⟨_, -, e, heq, -⟩ :=
      (hI.solve_ensures obs view budget xGuess yGuess hs hc).of_outcome_error (Prod.ext hcall rfl)
    cases heq
  | resume obs view budget =>
    obtain ⟨_, -, e, heq, -⟩ :=
      (hI.resume_ensures obs view budget hs hc).of_outcome_error (Prod.ext hcall rfl)
    cases heq
  | reset => cases hcall

end Interface.Respects

end ActiveSet
