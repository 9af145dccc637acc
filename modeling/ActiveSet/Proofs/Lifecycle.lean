import ActiveSet.Proofs.Interruption
import ActiveSet.Proofs.Verdict

/-!
# The life of a solver

Status and verdicts are written in many places, and callers learn from them what they may do next. This
module says what they can be after each call, whatever calls came before.

A homotopy writes them in the course of a step, and what is left of that at its end depends on nothing
but on how it ends (`Method.Ended`): one step shows this for all endings, and an induction over the steps
carries it to the homotopy. Nothing is asked of a method beyond what it keeps anyway, but that a change
of its working set which is refused for want of a feasible point says whether the working set has
been kept or has lost an entity (`Method.Accountable`).

* `Method.report`: status and verdicts, as a caller reads them.
* `Method.Ended`: the table of endings.
* `Interface.Concluded`, `Interface.Lifecycle`: what a caller can conclude after a call, and between the
  calls.
* `Interface.Respects.lifecycle`: it can, in every state of a session.
-/

namespace ActiveSet

variable {K : Type} [Scalar K] {n m : Nat} {σ δ τ : Type}

/-- What a solver reports about itself. -/
structure Report where
  /-- How far it has come. -/
  status : Status
  /-- Whether it has found that no point is feasible. -/
  infeasible : Bool
  /-- Whether it has found that the objective has no lower bound. -/
  unbounded : Bool
deriving DecidableEq, Repr

/-- The errors of a homotopy that do not come from a change of the working set. -/
def homotopyErrors : List QpError :=
  [.maxNwsrReached, .userAbortRequested, .stepDirectionDeterminationFailed,
    .hotstartStoppedInfeasibility, .hotstartFailedAsQpNotInitialised]

/-- The budget of steps of a call. -/
def Call.budget : Call K n m δ → Nat
  | .solve _ _ budget _ _ | .resume _ _ budget => budget
  | .load _ | .reset => 0

/-- The error that a call reports for an error of its homotopy. -/
def Call.report : Call K n m δ → QpError → QpError
  | .solve .., e => Method.initError e
  | .resume .., e | .load _, e | .reset, e => e

/-- The homotopy of a call, from the state in which it starts. -/
def Call.homotopy (M : Method K n m σ) (start : σ) : Call K n m δ → Except Fault Nat × σ
  | .solve obs view budget _ _ => outcome (M.homotopy obs budget (start, view))
  | .resume obs view budget => outcome (M.homotopy obs budget (start, view))
  | .load _ | .reset => (.ok 0, start)

/-- The errors that a call does not report for any other error of its homotopy. -/
def tellingErrors : List QpError :=
  [.hotstartStoppedInfeasibility, .hotstartStoppedUnboundedness, .maxNwsrReached,
    .userAbortRequested, .hessianNotSpd]

namespace Call

variable {c : Call K n m δ} {e e' : QpError}

omit [Scalar K] in
/-- From some errors of a call its caller can tell how the homotopy has ended. -/
theorem report_inj (he' : e' ∈ tellingErrors) : c.report e = c.report e' ↔ e = e' := by
  refine ⟨fun h => ?_, fun h => h ▸ rfl⟩
  cases c with
  | solve =>
    simp only [tellingErrors, List.mem_cons, List.not_mem_nil, or_false] at he'
    obtain rfl | rfl | rfl | rfl | rfl := he' <;> cases e <;> first | rfl | cases h
  | resume => exact h
  | load => exact h
  | reset => exact h

omit [Scalar K] in
theorem report_of_interruption (he : e.IsInterruption) : c.report e = e := by
  obtain rfl | rfl := he <;> cases c <;> rfl

omit [Scalar K] in
theorem infeasibility_eq (hc : c.isSolve = true) :
    c.infeasibility = some (c.report .hotstartStoppedInfeasibility) := by
  cases c with
  | solve => rfl
  | resume => rfl
  | load => cases hc
  | reset => cases hc

omit [Scalar K] in
theorem unboundedness_eq (hc : c.isSolve = true) :
    c.unboundedness = some (c.report .hotstartStoppedUnboundedness) := by
  cases c with
  | solve => rfl
  | resume => rfl
  | load => cases hc
  | reset => cases hc

end Call

namespace Method

/-- Status and verdicts of a state. -/
def report (M : Method K n m σ) (s : σ) : Report :=
  ⟨M.status s, (M.core s).infeasible, (M.core s).unbounded⟩

/-- One entity has left the working set, and no other one has changed its place. -/
def Lost (activity : σ → Entity n m → Activity) (s s' : σ) : Prop :=
  ∃ e, (activity s e).isActive = true ∧
    ∀ a, activity s' a = if a = e then .inactive else activity s a

/-- How a homotopy from a state can end before the loaded problem, with what error, and what the solver
reports then. -/
inductive Ended (M : Method K n m σ) (activity : σ → Entity n m → Activity) (start : σ) :
    QpError → σ → Prop
  | interrupted {e : QpError} {s : σ} (he : e.IsInterruption)
    (hreport : M.report s = ⟨.homotopySolved, false, false⟩) : Ended M activity start e s
  | undirected {s : σ} {status : Status} (hstatus : status = .auxiliarySolved ∨ status = .homotopySolved)
    (hreport : M.report s = ⟨status, false, false⟩) :
    Ended M activity start .stepDirectionDeterminationFailed s
  | infeasible {event : StepEvent n m} {s1 s : σ} (hcomes : M.ComesTo start event s1)
    (hkept : activity s = activity s1) (hreport : M.report s = ⟨.homotopySolved, true, false⟩) :
    Ended M activity start .hotstartStoppedInfeasibility s
  | depleted {event : StepEvent n m} {s1 s : σ} (hcomes : M.ComesTo start event s1)
    (hlost : Lost activity s1 s) (hreport : M.report s = ⟨.notInitialised, true, false⟩) :
    Ended M activity start .hotstartStoppedInfeasibility s
  | unbounded {s : σ} (hreport : M.report s = ⟨.notInitialised, false, true⟩) :
    Ended M activity start .hotstartStoppedUnboundedness s
  | refused {e : QpError} {s : σ} (he : e ∉ homotopyErrors) (hne : e ≠ .hotstartStoppedUnboundedness)
    (hreport : M.report s = ⟨.notInitialised, false, false⟩) : Ended M activity start e s

/-- Where a part of a step fails, the verdicts are as they were, and a change of the working set that is
refused for want of a feasible point says by the status whether the working set is. -/
structure Accountable (M : Method K n m σ) (P : Phases n m σ)
    (activity : σ → Entity n m → Activity) : Prop where
  restartable : M.Restartable
  activity_ignores : ∀ s status infeasible unbounded,
    activity (M.withCore s { M.core s with status, infeasible, unbounded }) = activity s
  direction : ∀ s, P.moving s → M.determineDirection.Ensures s (fun _ _ => True)
    fun _ s' => (M.core s).SameTask (M.core s')
  change : ∀ event s, event ≠ .full → P.stepped event s → M.status s = .performingHomotopy →
    (M.changeWorkingSet event).Ensures s (fun _ _ => True) fun f s' => ∃ e, f = .failed e ∧
      (M.core s).SameTask (M.core s') ∧
        (e.IsInfeasibility ∧ (M.status s' = .performingHomotopy ∧ activity s' = activity s ∨
            M.status s' = .notInitialised ∧ Lost activity s s') ∨
          ¬e.IsInfeasibility ∧ e ∉ homotopyErrors)

variable {M : Method K n m σ} {P : Phases n m σ} {activity : σ → Entity n m → Activity} {start : σ}

namespace Ended

variable {e : QpError} {s : σ}

/-- A homotopy that has not come to the loaded problem does not say so. -/
theorem status_ne_solved (h : M.Ended activity start e s) : M.status s ≠ .solved := by
  cases h with
  | interrupted he hreport => exact (congrArg Report.status hreport).trans_ne nofun
  | undirected hstatus hreport =>
    refine (congrArg Report.status hreport).trans_ne ?_
    obtain rfl | rfl := hstatus <;> exact nofun
  | infeasible hcomes hkept hreport => exact (congrArg Report.status hreport).trans_ne nofun
  | depleted hcomes hlost hreport => exact (congrArg Report.status hreport).trans_ne nofun
  | unbounded hreport => exact (congrArg Report.status hreport).trans_ne nofun
  | refused he hne hreport => exact (congrArg Report.status hreport).trans_ne nofun

/-- The verdicts are those that the error tells. -/
theorem verdicts (h : M.Ended activity start e s) :
    ((M.core s).infeasible = true ↔ e = .hotstartStoppedInfeasibility) ∧
      ((M.core s).unbounded = true ↔ e = .hotstartStoppedUnboundedness) := by
  have hverdicts : ∀ {status infeasible unbounded}, M.report s = ⟨status, infeasible, unbounded⟩ →
      (M.core s).infeasible = infeasible ∧ (M.core s).unbounded = unbounded :=
    fun hreport => ⟨congrArg Report.infeasible hreport, congrArg Report.unbounded hreport⟩
  cases h with
  | interrupted he hreport =>
    rw [(hverdicts hreport).1, (hverdicts hreport).2]
    obtain rfl | rfl := he <;> simp
  | undirected hstatus hreport => simp [hverdicts hreport]
  | infeasible hcomes hkept hreport => simp [hverdicts hreport]
  | depleted hcomes hlost hreport => simp [hverdicts hreport]
  | unbounded hreport => simp [hverdicts hreport]
  | refused he hne hreport =>
    have hinfeasible : e ≠ .hotstartStoppedInfeasibility :=
      (ne_of_mem_of_not_mem (by decide) he).symm
    simp [hverdicts hreport, hinfeasible, hne]

theorem status_of_interruption (h : M.Ended activity start e s) (he : e.IsInterruption) :
    M.status s = .homotopySolved := by
  cases h with
  | interrupted _ hreport => exact congrArg Report.status hreport
  | undirected => obtain he | he := he <;> cases he
  | infeasible => obtain he | he := he <;> cases he
  | depleted => obtain he | he := he <;> cases he
  | unbounded => obtain he | he := he <;> cases he
  | refused hnot =>
    obtain rfl | rfl := he
    · exact absurd (by decide) hnot
    · exact absurd (by decide) hnot

/-- A verdict of unboundedness and an indefinite matrix leave no factorization. -/
theorem status_of_given_up (h : M.Ended activity start e s)
    (he : e = .hotstartStoppedUnboundedness ∨ e = .hessianNotSpd) : M.status s = .notInitialised := by
  cases h with
  | interrupted hint => obtain rfl | rfl := hint <;> obtain he | he := he <;> cases he
  | undirected => obtain he | he := he <;> cases he
  | infeasible => obtain he | he := he <;> cases he
  | depleted => obtain he | he := he <;> cases he
  | unbounded hreport => exact congrArg Report.status hreport
  | refused _ _ hreport => exact congrArg Report.status hreport

/-- A verdict of infeasibility comes from an event that the working set could not follow. -/
theorem blocked (h : M.Ended activity start .hotstartStoppedInfeasibility s) :
    ∃ event s1, M.ComesTo start event s1 ∧
      (M.status s = .homotopySolved ∧ activity s = activity s1 ∨
        M.status s = .notInitialised ∧ Lost activity s1 s) := by
  cases h with
  | interrupted hint => obtain hint | hint := hint <;> cases hint
  | infeasible hcomes hkept hreport =>
    exact ⟨_, _, hcomes, .inl ⟨congrArg Report.status hreport, hkept⟩⟩
  | depleted hcomes hlost hreport =>
    exact ⟨_, _, hcomes, .inr ⟨congrArg Report.status hreport, hlost⟩⟩
  | refused hnot => exact absurd (by decide) hnot

/-- Where no direction was found, another homotopy can start. -/
theorem isStart_of_undirected (h : M.Ended activity start .stepDirectionDeterminationFailed s) :
    (M.status s).isStart = true := by
  cases h with
  | interrupted hint => obtain hint | hint := hint <;> cases hint
  | undirected hstatus hreport =>
    rw [show M.status s = _ from congrArg Report.status hreport]
    obtain rfl | rfl := hstatus <;> rfl
  | refused hnot => exact absurd (by decide) hnot

/-- No homotopy complains that it could not start. -/
theorem ne_notInitialised (h : M.Ended activity start e s) :
    e ≠ .hotstartFailedAsQpNotInitialised := by
  cases h with
  | interrupted hint => obtain rfl | rfl := hint <;> exact nofun
  | undirected => exact nofun
  | infeasible => exact nofun
  | depleted => exact nofun
  | unbounded => exact nofun
  | refused hnot => exact (ne_of_mem_of_not_mem (by decide) hnot).symm

end Ended

namespace Restartable

omit [Scalar K] in
/-- A task that is kept keeps the verdicts. -/
theorem report_of_sameTask {s s' : σ} {status status' : Status} {infeasible unbounded : Bool}
    (hs : M.report s = ⟨status, infeasible, unbounded⟩) (htask : (M.core s).SameTask (M.core s'))
    (hstatus : M.status s' = status') : M.report s' = ⟨status', infeasible, unbounded⟩ := by
  unfold report at hs ⊢
  cases hs
  rw [hstatus, htask.infeasible, htask.unbounded]

omit [Scalar K] in
theorem report_withStatus (hM : M.Restartable) {s : σ} {status : Status} {infeasible unbounded : Bool}
    (hs : M.report s = ⟨status, infeasible, unbounded⟩) (status' : Status) :
    M.report (M.withStatus status' s) = ⟨status', infeasible, unbounded⟩ :=
  report_of_sameTask hs (hM.sameTask_withStatus status' s) (hM.status_withStatus status' s)

omit [Scalar K] in
theorem report_clearVerdict (hM : M.Restartable) (s : σ) :
    M.report (M.clearVerdict s) = ⟨M.status s, false, false⟩ := by
  unfold report Method.status
  rw [hM.core_clearVerdict]

end Restartable

namespace Accountable

/-! ## One step -/

/-- A step that finds no direction takes back the status it started from, or a lesser one. -/
theorem ended_of_undirected (hM : M.Accountable P activity) {before : Status}
    (hbefore : before.isStart) {s : σ} {status : Status} (hs : M.report s = ⟨status, false, false⟩) :
    M.Ended activity start .stepDirectionDeterminationFailed
      (M.withStatus (if before = .solved then .homotopySolved else before) s) := by
  refine .undirected ?_ (hM.restartable.report_withStatus hs _)
  cases before with
  | auxiliarySolved => exact .inl rfl
  | homotopySolved => exact .inr rfl
  | solved => exact .inr rfl
  | notInitialised => cases hbefore
  | preparingAuxiliary => cases hbefore
  | performingHomotopy => cases hbefore

/-- What is reported about a failed change of the working set. -/
theorem ended_of_reported (hM : M.Accountable P activity) {event : StepEvent n m} {e e' : QpError}
    {s s' s'' : σ} (h : M.Reported s' e e' s'') (hcomes : M.ComesTo start event s) {status : Status}
    (hs' : M.report s' = ⟨status, false, false⟩)
    (he : e.IsInfeasibility ∧ (status = .performingHomotopy ∧ activity s' = activity s ∨
        status = .notInitialised ∧ Lost activity s s') ∨ ¬e.IsInfeasibility ∧ e ∉ homotopyErrors) :
    M.Ended activity start e' s'' := by
  have hcore := hM.restartable.core_withCore
  have hstatus : (M.core s').status = status := congrArg Report.status hs'
  have hinfeasible : (M.core s').infeasible = false := congrArg Report.infeasible hs'
  have hunbounded : (M.core s').unbounded = false := congrArg Report.unbounded hs'
  cases h with
  | infeasible hinf =>
    -- only errors of infeasibility are reported as infeasibility
    obtain ⟨-, hplace⟩ | ⟨hnot, -⟩ := he
    swap
    · exact absurd hinf hnot
    have hignores : activity (M.block s') = activity s' := hM.activity_ignores s' _ true _
    -- the working set is as it was when the event came, or it has lost one entity
    obtain ⟨rfl, hkept⟩ | ⟨rfl, hlost⟩ := hplace
    · refine .infeasible hcomes (hignores.trans hkept) ?_
      simp only [report, Method.status, block, hcore, hstatus, hunbounded, if_pos]
    · refine .depleted hcomes ?_ ?_
      · obtain ⟨a, ha, hother⟩ := hlost
        exact ⟨a, ha, fun b => (congrFun hignores b).trans (hother b)⟩
      · simp only [report, Method.status, block, hcore, hstatus, hunbounded]
        rfl
  | unbounded =>
    refine .unbounded ?_
    simp only [report, Method.status, condemn, hcore, hinfeasible]
  | other hinf hne =>
    obtain ⟨hinf', -⟩ | ⟨-, hother⟩ := he
    · exact absurd hinf' hinf
    · exact .refused hother hne (hM.restartable.report_withStatus hs' _)

/-- What is reported after a step: that the loaded problem or one on the way to it is solved, or how the
homotopy has ended. -/
theorem step_ends (hM : M.Accountable P activity) (hP : M.Respects P) (index : Nat) {s : σ}
    {status : Status} (hbetween : M.Between start s) (hmoving : P.moving s)
    (hs : M.report s = ⟨status, false, false⟩) (hstart : status.isStart) :
    (M.step index).Ensures s
      (fun it s' => M.report s' =
        ⟨if it.event = .full then .solved else .homotopySolved, false, false⟩)
      fun f s' => ∃ e, f = .failed e ∧ M.Ended activity start e s' := by
  have hR := hM.restartable
  have hstatus : M.status s = status := congrArg Report.status hs
  have hmoving' := hP.moving_ignores.withStatus .performingHomotopy hmoving
  have hs' := hR.report_withStatus hs .performingHomotopy
  have htask := hR.direction (M.core s) _ (hR.sameTask_withStatus .performingHomotopy s)
  -- the step has followed its direction, and the verdicts are still those of its start
  have hperformed {s1 : σ}
      (hdirection : M.determineDirection (M.withStatus .performingHomotopy s) = .ok () s1) :
      (M.core s).SameTask (M.core (M.perform (M.stepLength s1).1 (M.stepLength s1).2 s1)) ∧
        M.status (M.perform (M.stepLength s1).1 (M.stepLength s1).2 s1) = .performingHomotopy := by
    refine ⟨(htask.of_ok hdirection).trans (hR.perform _ _ _), ?_⟩
    rw [hP.status_perform, ((hP.direction _ hmoving').of_ok hdirection).2, hP.status_withStatus]
  refine (M.step_spec index s).mono (fun it s' hstep => ?_) fun f s' hfailed => ?_
  · cases hstep with
    | full hdirection hevent =>
      obtain ⟨htask2, hstatus2⟩ := hperformed hdirection
      rw [if_pos (show (M.record _ _ _ _).event = .full from hevent)]
      exact hR.report_withStatus (Restartable.report_of_sameTask hs htask2 hstatus2) .solved
    | changed hdirection hevent hchange =>
      have htask3 := (hR.change (M.core s) _ _ (hperformed hdirection).1).of_ok hchange
      rw [if_neg (show (M.record _ _ _ _).event ≠ .full from hevent)]
      exact Restartable.report_of_sameTask hs (htask3.trans (hR.sameTask_withStatus _ _))
        (hR.status_withStatus _ _)
  · have hbroken := hP.not_broken hmoving hfailed
    cases hfailed with
    | undirected hdirection =>
      have htask1 := (hM.direction _ hmoving').of_error hdirection
      have hbefore : (M.status s).isStart := by
        rw [hstatus]
        exact hstart
      exact ⟨_, rfl, hM.ended_of_undirected hbefore (Restartable.report_of_sameTask hs' htask1 rfl)⟩
    | unchanged hdirection hevent hchange hreported =>
      obtain ⟨htask2, hstatus2⟩ := hperformed hdirection
      obtain ⟨hdirected, -⟩ := (hP.direction _ hmoving').of_ok hdirection
      obtain ⟨e, heq, htask3, he⟩ :=
        (hM.change _ _ hevent (hP.stop _ hdirected hevent) hstatus2).of_error hchange
      cases heq
      have hs2 := Restartable.report_of_sameTask hs htask2 hstatus2
      exact ⟨_, rfl, hM.ended_of_reported hreported (.intro hbetween hdirection hevent)
        (Restartable.report_of_sameTask hs2 htask3 rfl) he⟩
    | directionBroken => exact absurd rfl hbroken
    | lengthBroken => exact absurd rfl hbroken
    | changeBroken => exact absurd rfl hbroken

/-! ## All steps -/

/-- What is reported after a homotopy, of which the first step has been made or can still be made. -/
theorem follow_ends (hM : M.Accountable P activity) (hP : M.Respects P) (obs : Observer K n m τ)
    (budget : Nat) :
    ∀ (index : Nat) {s : σ} {t : τ} {status : Status}, M.Between start s → P.moving s →
      M.report s = ⟨status, false, false⟩ → status.isStart →
      (budget = 0 → status = .homotopySolved) →
      (M.follow obs budget index).Ensures (s, t)
        (fun _ r => M.report r.1 = ⟨.solved, false, false⟩)
        fun f r => ∃ e, f = .failed e ∧ M.Ended activity start e r.1 := by
  -- by induction on the budget, which runs out only after a step, with the problem of that step solved
  induction budget with
  | zero =>
    intro index s t status hbetween hmoving hs hstart hbudget
    rw [hbudget rfl] at hs
    rw [follow, Update.ensures_fail]
    exact ⟨_, rfl, .interrupted (.inl rfl) hs⟩
  | succ budget ih =>
    intro index s t status hbetween hmoving hs hstart _
    rw [follow, Update.ensures_bind, Update.ensures_first]
    have hstart' : (M.status s).isStart := by
      rw [show M.status s = status from congrArg Report.status hs]
      exact hstart
    refine ((Update.ensures_run _ _).and ((hP.step_ensures index hmoving hstart').and
      (hM.step_ends hP index hbetween hmoving hs hstart))).mono ?_ fun f s' h => h.2.2
    rintro it s' ⟨hstep, hnext, hs'⟩
    rw [Update.ensures_bind, Update.ensures_get]
    dsimp only
    rw [Update.ensures_bind, Update.ensures_set]
    by_cases hevent : it.event = .full
    · rw [if_pos hevent] at hs' ⊢
      exact hs'
    · rw [if_neg hevent] at hnext hs' ⊢
      split
      · rw [Update.ensures_fail]
        exact ⟨_, rfl, .interrupted (.inr rfl) hs'⟩
      · exact ih (index + 1) (.step hbetween hstep hevent) hnext.1 hs' rfl fun _ => rfl

theorem homotopy_ends (hM : M.Accountable P activity) (hP : M.Respects P) (obs : Observer K n m τ)
    {budget : Nat} (hbudget : 0 < budget) {t : τ} (hmoving : P.moving start)
    (hstart : (M.status start).isStart) :
    (M.homotopy obs budget).Ensures (start, t)
      (fun _ r => M.report r.1 = ⟨.solved, false, false⟩)
      fun f r => ∃ e, f = .failed e ∧ M.Ended activity start e r.1 := by
  unfold homotopy
  rw [Update.ensures_bind, Update.ensures_first, Update.ensures_modify]
  exact hM.follow_ends hP obs budget 0 .start (hP.moving_ignores.clearVerdict hmoving)
    (hM.restartable.report_clearVerdict start) hstart fun hzero => absurd hzero hbudget.ne'

end Accountable

end Method

/-! ## Calls -/

namespace Interface

variable {I : Interface K n m σ δ} {P : Phases n m σ} {activity : σ → Entity n m → Activity}
  {isMatrix : δ → Bool} {s : σ}

/-- What a caller can conclude from a call whose homotopy has started in a state and has made a step:
from its result on what the solver reports, and the other way round. -/
structure Concluded (I : Interface K n m σ δ) (activity : σ → Entity n m → Activity)
    (c : Call K n m δ) (start : σ) (result : Except Fault Nat) (s' : σ) : Prop where
  solved : I.method.status s' = .solved ↔ ∃ k, result = .ok k
  interrupted : ∀ e : QpError, e.IsInterruption → result = .error (.failed e) →
    I.method.status s' = .homotopySolved
  infeasible : (I.method.core s').infeasible = true ↔
    ∃ e, c.infeasibility = some e ∧ result = .error (.failed e)
  unbounded : (I.method.core s').unbounded = true ↔
    ∃ e, c.unboundedness = some e ∧ result = .error (.failed e)
  given_up : ∀ e, c.unboundedness = some e ∨ e = .hessianNotSpd → result = .error (.failed e) →
    I.method.status s' = .notInitialised
  blocked : ∀ e, c.infeasibility = some e → result = .error (.failed e) →
    ∃ event s1, I.method.ComesTo start event s1 ∧
      (I.method.status s' = .homotopySolved ∧ activity s' = activity s1 ∨
        I.method.status s' = .notInitialised ∧ Method.Lost activity s1 s')
  undirected : (c.homotopy I.method start).1 = .error (.failed .stepDirectionDeterminationFailed) →
    I.method.status s' ≠ .solved ∧ (I.method.status s').isStart = true

/-- The status between two calls, and what each of the calls does with it. A call that solves is judged
if it has entered its homotopy and has been given a budget. -/
structure Lifecycle (I : Interface K n m σ δ) (activity : σ → Entity n m → Activity)
    (isMatrix : δ → Bool) (s : σ) : Prop where
  status : I.method.status s ∈ [.notInitialised, .auxiliarySolved, .homotopySolved, .solved]
  resume : ∀ {τ : Type} (obs : Observer K n m τ) view budget,
    (I.call (.resume obs view budget) s).1 = .error (.failed .hotstartFailedAsQpNotInitialised) ↔
      I.method.status s = .notInitialised
  reset : I.method.status (I.call .reset s).2 = .notInitialised
  replaced : ∀ d, isMatrix d = true → (I.call (.load d) s).1 = .ok 0 →
    I.method.status (I.call (.load d) s).2 = .notInitialised
  loaded : ∀ d, isMatrix d = false ∨ (I.call (.load d) s).1 ≠ .ok 0 →
    I.method.status (I.call (.load d) s).2 = I.method.status s
  concluded : ∀ c start, I.StartsBy s c start → 0 < c.budget →
    I.Concluded activity c start (I.call c s).1 (I.call c s).2

/-- A call that enters its homotopy ends as that does, with the error that the call reports for it. -/
theorem call_of_startsBy {c : Call K n m δ} {start : σ} (h : I.StartsBy s c start) :
    I.call c s = ((c.homotopy I.method start).1.mapError (Fault.mapError c.report),
      (c.homotopy I.method start).2) := by
  cases h with
  | @resumed τ obs view budget hstart hlimits =>
    -- a resumed call runs the homotopy on the state it is given
    have hrun : I.method.resume obs budget (s, view) = I.method.homotopy obs budget (s, view) := by
      rw [Method.resume_eq, if_pos hstart, hlimits]
      rfl
    simp only [Interface.call, Call.homotopy, hrun]
    cases I.method.homotopy obs budget (s, view) with
    | ok k r => rfl
    | error f r => cases f <;> rfl
  | @prepared τ obs view budget xGuess yGuess guess s' hguess hprepare =>
    -- a solve runs it on the state that the set-up leaves
    have hrun : I.method.solve obs budget xGuess yGuess (s, view) =
        mapFault Method.initError (I.method.homotopy obs budget (start, view)) := by
      rw [Method.solve_guessed hguess, hprepare]
      rfl
    simp only [Interface.call, Call.homotopy, hrun]
    cases I.method.homotopy obs budget (start, view) with
    | ok k r => rfl
    | error f r => cases f <;> rfl

/-- How the homotopy of a call ends, from a state in which a step can be made. -/
theorem homotopy_of_startsBy (hA : I.method.Accountable P activity) (hM : I.method.Respects P)
    {c : Call K n m δ} {start : σ} (h : I.StartsBy s c start) (hbudget : 0 < c.budget)
    (hmoving : P.moving start) (hstart : (I.method.status start).isStart) :
    (∃ k s', c.homotopy I.method start = (.ok k, s') ∧
        I.method.report s' = ⟨.solved, false, false⟩) ∨
      ∃ e s', c.homotopy I.method start = (.error (.failed e), s') ∧
        I.method.Ended activity start e s' := by
  have hends {τ : Type} (obs : Observer K n m τ) (view : τ) {budget : Nat} (hbudget : 0 < budget) :
      (∃ k s', outcome (I.method.homotopy obs budget (start, view)) = (.ok k, s') ∧
          I.method.report s' = ⟨.solved, false, false⟩) ∨
        ∃ e s', outcome (I.method.homotopy obs budget (start, view)) = (.error (.failed e), s') ∧
          I.method.Ended activity start e s' := by
    obtain ⟨k, r, hrun, hreport⟩ | ⟨f, r, hrun, e, rfl, hended⟩ :=
      outcome_of_ensures (hA.homotopy_ends hM obs hbudget hmoving hstart)
    · exact .inl ⟨k, r.1, hrun, hreport⟩
    · exact .inr ⟨e, r.1, hrun, hended⟩
  cases h with
  | resumed => exact hends _ _ hbudget
  | prepared => exact hends _ _ hbudget

theorem StartsBy.isSolve {c : Call K n m δ} {start : σ} (h : I.StartsBy s c start) :
    c.isSolve = true := by
  cases h <;> rfl

/-- What holds of the end of a homotopy, a caller can conclude from its call. -/
theorem concluded_of_startsBy (hA : I.method.Accountable P activity) (hM : I.method.Respects P)
    {c : Call K n m δ} {start : σ} (h : I.StartsBy s c start) (hbudget : 0 < c.budget)
    (hmoving : P.moving start) (hstart : (I.method.status start).isStart) :
    I.Concluded activity c start (I.call c s).1 (I.call c s).2 := by
  have hsolve := h.isSolve
  rw [call_of_startsBy h]
  obtain ⟨k, s', hrun, hreport⟩ | ⟨e, s', hrun, hended⟩ :=
    homotopy_of_startsBy hA hM h hbudget hmoving hstart
  · -- the homotopy has arrived, and no verdict is set
    have hinfeasible : (I.method.core s').infeasible = false := congrArg Report.infeasible hreport
    have hunbounded : (I.method.core s').unbounded = false := congrArg Report.unbounded hreport
    rw [hrun]
    refine ⟨iff_of_true (congrArg Report.status hreport) ⟨k, rfl⟩, fun _ _ => nofun, ?_, ?_,
      fun _ _ => nofun, fun _ _ => nofun, fun hresult => ?_⟩
    · rw [hinfeasible]
      exact iff_of_false nofun (fun ⟨_, _, hnot⟩ => by cases hnot)
    · rw [hunbounded]
      exact iff_of_false nofun (fun ⟨_, _, hnot⟩ => by cases hnot)
    · rw [hrun] at hresult
      cases hresult
  · rw [hrun]
    -- a result tells each of the telling errors apart from all others
    have htold : ∀ e', (.error (Fault.failed (c.report e)) : Except Fault Nat) =
        .error (.failed e') ↔ c.report e = e' := fun e' => by simp
    have hverdict : ∀ e', e' ∈ tellingErrors →
        ((∃ e'', some (c.report e') = some e'' ∧
          (.error (Fault.failed (c.report e)) : Except Fault Nat) = .error (.failed e'')) ↔
            e = e') := by
      intro e' he'
      simp only [Option.some.injEq, htold, exists_eq_left', Call.report_inj he']
    refine ⟨iff_of_false hended.status_ne_solved (fun ⟨_, hnot⟩ => by cases hnot),
      fun e' he' hresult => ?_, ?_, ?_, fun e' he' hresult => ?_, fun e' he' hresult => ?_,
      fun hresult => ?_⟩
    · have heq := (htold e').1 hresult
      rw [← Call.report_of_interruption (c := c) he', Call.report_inj (by
        obtain rfl | rfl := he' <;> decide)] at heq
      exact hended.status_of_interruption (heq ▸ he')
    · rw [hended.verdicts.1, Call.infeasibility_eq hsolve]
      exact (hverdict _ (by decide)).symm
    · rw [hended.verdicts.2, Call.unboundedness_eq hsolve]
      exact (hverdict _ (by decide)).symm
    · have heq := (htold e').1 hresult
      refine hended.status_of_given_up ?_
      rw [Call.unboundedness_eq hsolve] at he'
      obtain he' | rfl := he'
      · cases he'
        exact .inl ((Call.report_inj (by decide)).1 heq)
      · rw [show QpError.hessianNotSpd = c.report .hessianNotSpd by cases c <;> rfl] at heq
        exact .inr ((Call.report_inj (by decide)).1 heq)
    · have heq := (htold e').1 hresult
      rw [Call.infeasibility_eq hsolve] at he'
      cases he'
      rw [(Call.report_inj (by decide)).1 heq] at hended
      exact hended.blocked
    · rw [hrun] at hresult
      cases hresult
      exact ⟨hended.status_ne_solved, hended.isStart_of_undirected⟩

/-- A solve from the previous solution complains about a missing one only if there is none. -/
theorem resume_refused_iff (hA : I.method.Accountable P activity) (hI : I.Respects P anyCall)
    (hlimits : I.method.checkLimits s ≠ .error .hotstartFailedAsQpNotInitialised)
    (hs : I.method.Settled P s) (obs : Observer K n m τ) (view : τ) (budget : Nat) :
    (I.call (.resume obs view budget) s).1 = .error (.failed .hotstartFailedAsQpNotInitialised) ↔
      I.method.status s = .notInitialised := by
  constructor
  · intro hcall
    -- once a homotopy has started, it ends with other errors
    have hends : (I.method.resume obs budget).Ensures (s, view) (fun _ _ => True) fun f _ =>
        f = .failed .hotstartFailedAsQpNotInitialised → I.method.status s = .notInitialised := by
      refine Method.ensures_resume (fun hnot _ => hs.2.resolve_right fun h => hnot h.1)
        (fun _ e he hf => absurd (Fault.failed.inj hf ▸ he) hlimits) fun hstart hcheck => ?_
      cases budget with
      | zero => exact fun hf => nomatch hf
      | succ budget =>
        have hmoving := hI.resume obs view budget s trivial hstart (hs.ready hstart) hcheck
        refine (hA.homotopy_ends hI.method obs budget.succ_pos hmoving hstart).mono
          (fun _ _ _ => trivial) ?_
        rintro f r ⟨e, rfl, hended⟩ hf
        exact absurd (Fault.failed.inj hf) hended.ne_notInitialised
    obtain ⟨_, h⟩ := hends.of_outcome_error (Prod.ext hcall rfl)
    exact h rfl
  · intro hstatus
    have hnot : ¬(I.method.status s).isStart = true := by
      rw [hstatus]
      decide
    rw [Interface.call, Method.resume_eq, if_neg hnot]
    rfl

/-- The life of a solver, in every state between two calls: from what its methods do in a step, and from
what loading data does with the status. -/
theorem Respects.lifecycle (hI : I.Respects P anyCall) (hA : I.method.Accountable P activity)
    (hmatrix : ∀ d s s', I.load d s = .ok s' → isMatrix d = true →
      I.method.status s' = .notInitialised)
    (hvector : ∀ d s s', I.load d s = .ok s' → isMatrix d = false →
      I.method.status s' = I.method.status s)
    (hlimits : I.method.checkLimits s ≠ .error .hotstartFailedAsQpNotInitialised)
    (hs : I.method.Settled P s) : I.Lifecycle activity isMatrix s where
  status := by
    obtain ⟨-, hstatus | ⟨hstart, -⟩⟩ := hs
    · simp [hstatus]
    · generalize I.method.status s = status at hstart
      revert hstart
      cases status <;> decide
  resume obs view budget := resume_refused_iff hA hI hlimits hs obs view budget
  reset := hI.status_reset s
  replaced d hd hcall := by
    simp only [Interface.call] at hcall ⊢
    cases hload : I.load d s with
    | error e =>
      rw [hload] at hcall
      cases hcall
    | ok s' => exact hmatrix d s s' hload hd
  loaded d hd := by
    simp only [Interface.call] at hd ⊢
    cases hload : I.load d s with
    | error e => rfl
    | ok s' =>
      rw [hload] at hd
      exact hvector d s s' hload (hd.resolve_right fun hnot => hnot rfl)
  concluded c start hstarts hbudget := by
    obtain ⟨hmoving, hstart⟩ := hI.moving_of_startsBy hs trivial hstarts
    exact concluded_of_startsBy hA hI.method hstarts hbudget hmoving hstart

end Interface

end ActiveSet
