import ActiveSet.Proofs.Endurance
import ActiveSet.Proofs.Lockstep

/-!
# The verdict of unboundedness

A call that says that the objective has no lower bound has not seen this of the objective: its homotopy
has come to an event (`Method.ComesTo`), and a change of the working set has ended with the verdict
(`Interface.condemned_of_call`). Any other failure in a call is reported by another error.

* `Call.unboundedness`: the error of the verdict.
* `Interface.StartsBy`: where the homotopy of a call starts.
* `Method.ComesTo`: the end of a step, before the working set has followed the event.
* `Interface.Companions.exists_condemned`: two solvers in lockstep come to the same event.
-/

namespace ActiveSet

variable {K : Type} [Scalar K] {n m : Nat} {σ δ τ : Type}

/-- The error by which a call says that the objective has no lower bound. -/
def Call.unboundedness : Call K n m δ → Option QpError
  | .solve .. => some .initFailedUnboundedness
  | .resume .. => some .hotstartStoppedUnboundedness
  | .load _ | .reset => none

/-- The homotopy of a call starts in a state: in that of the call itself, if the call resumes, or at the
solution of the auxiliary problem. -/
inductive Interface.StartsBy (I : Interface K n m σ δ) (s : σ) : Call K n m δ → σ → Prop
  | resumed {τ : Type} {obs : Observer K n m τ} {view : τ} {budget : Nat}
    (hstart : (I.method.status s).isStart) (hlimits : I.method.checkLimits s = .ok ()) :
    StartsBy I s (.resume obs view budget) s
  | prepared {τ : Type} {obs : Observer K n m τ} {view : τ} {budget : Nat}
    {xGuess yGuess : Option (Array K)} {guess : Guess K n m} {s' : σ}
    (hguess : Guess.ofArrays n m xGuess yGuess = .ok guess)
    (hprepare : I.method.prepare guess (I.method.reset s) = .ok () s') :
    StartsBy I s (.solve obs view budget xGuess yGuess) s'

namespace Method

variable {M : Method K n m σ} {P : Phases n m σ}

/-- A homotopy from a state comes to an event: a step has followed its direction up to there, and the
working set has not followed the event yet. -/
inductive ComesTo (M : Method K n m σ) (s : σ) : StepEvent n m → σ → Prop
  | intro {s1 s2 : σ} (hbetween : M.Between s s1)
    (hdirection : M.determineDirection (M.withStatus .performingHomotopy s1) = .ok () s2)
    (hevent : (M.stepLength s2).2 ≠ .full) :
    ComesTo M s (M.stepLength s2).2 (M.perform (M.stepLength s2).1 (M.stepLength s2).2 s2)

/-- If no step can be made from the start, nothing lies beyond it. -/
theorem Between.eq_start {s s' : σ} (h : M.Between s s')
    (hstuck : ∀ index it s1, M.step index (M.clearVerdict s) ≠ .ok it s1) : s' = M.clearVerdict s := by
  induction h with
  | start => rfl
  | step _ hstep _ ih =>
    rw [ih] at hstep
    exact absurd hstep (hstuck _ _ _)

/-- A homotopy from a state ends with the verdict. -/
inductive Condemned (M : Method K n m σ) (start : σ) : StepEvent n m → σ → σ → Prop
  | intro {event : StepEvent n m} {s1 s2 : σ} (hcomes : M.ComesTo start event s1)
    (hchange : M.changeWorkingSet event s1 = .error (.failed .hotstartStoppedUnboundedness) s2) :
    Condemned M start event s1 (M.condemn s2)

theorem Condemned.event_ne {start s1 s' : σ} {event : StepEvent n m} (h : M.Condemned start event s1 s') :
    event ≠ .full := by
  cases h with
  | intro hcomes =>
    cases hcomes with
    | intro _ _ hevent => exact hevent

/-- A step ends with the verdict at an event. -/
theorem step_unbounded (M : Method K n m σ) (index : Nat) {start s : σ} (h : M.Between start s) :
    (M.step index).Ensures s (fun _ _ => True) fun f s' =>
      f = .failed .hotstartStoppedUnboundedness → ∃ event s1, M.Condemned start event s1 s' := by
  refine (M.step_spec index s).mono (fun _ _ _ => trivial) fun f s' hfailed hf => ?_
  cases hfailed with
  | unchanged hdirection hevent hchange hreported =>
    cases hreported with
    | unbounded => exact ⟨_, _, .intro (.intro h hdirection hevent) hchange⟩
    | infeasible => cases hf
    | other hinf hne =>
      cases hf
      exact absurd rfl hne
  | undirected => cases hf
  | directionBroken => cases hf
  | lengthBroken => cases hf
  | changeBroken => cases hf

/-- A homotopy ends with the verdict at an event. -/
theorem homotopy_unbounded (M : Method K n m σ) (obs : Observer K n m τ) (budget : Nat) (start : σ)
    (t : τ) :
    (M.homotopy obs budget).Ensures (start, t) (fun _ _ => True) fun f r =>
      f = .failed .hotstartStoppedUnboundedness →
        ∃ event s1, M.Condemned start event s1 r.1 := by
  unfold homotopy
  rw [Update.ensures_bind, Update.ensures_first, Update.ensures_modify]
  refine (M.follow_stops obs budget 0 .start).mono (fun _ _ _ => trivial) ?_
  rintro f r (⟨rfl | rfl, -⟩ | ⟨s2, i, hbetween, hstep⟩) hf
  · cases hf
  · cases hf
  · exact (M.step_unbounded i hbetween).of_error hstep hf

/-- What holds of the end of a step holds where a homotopy comes to an event. -/
theorem Respects.stepped_of_comesTo (hM : M.Respects P) {start s : σ} {event : StepEvent n m}
    (hs : P.moving start) (hstart : (M.status start).isStart) (h : M.ComesTo start event s) :
    P.stepped event s ∧ event ≠ .full := by
  cases h with
  | intro hbetween hdirection hevent =>
    have hmoving := (hM.moving_of_between hs hstart hbetween).1
    obtain ⟨hdirected, -⟩ := (hM.direction _
      (hM.moving_ignores.withStatus .performingHomotopy hmoving)).of_ok hdirection
    exact ⟨hM.stop _ hdirected hevent, hevent⟩

end Method

namespace Interface

variable {I : Interface K n m σ δ} {P : Phases n m σ} {admits : Call K n m δ → σ → Prop}

/-- The homotopy of a call has one start. -/
theorem StartsBy.unique {s start start' : σ} {c : Call K n m δ} (h : I.StartsBy s c start)
    (h' : I.StartsBy s c start') : start = start' := by
  cases h with
  | resumed => cases h' with | resumed => rfl
  | prepared hguess hprepare =>
    cases h' with
    | prepared hguess' hprepare' =>
      rw [hguess] at hguess'
      cases hguess'
      rw [hprepare] at hprepare'
      cases hprepare'
      rfl

/-- Where the homotopy of an admitted call starts, a step can be made. -/
theorem Respects.moving_of_startsBy (hI : I.Respects P admits) {s start : σ} {c : Call K n m δ}
    (hs : I.method.Settled P s) (hc : admits c s) (h : I.StartsBy s c start) :
    P.moving start ∧ (I.method.status start).isStart := by
  cases h with
  | resumed hstart hlimits =>
    exact ⟨hI.resume _ _ _ s hc hstart (hs.ready hstart) hlimits, hstart⟩
  | prepared hguess hprepare =>
    obtain ⟨hmoving, hstatus⟩ := (hI.prepare _ _ _ _ _ s _ hc hs.1 hguess).of_ok hprepare
    refine ⟨hmoving, ?_⟩
    rw [hstatus]
    rfl

/-- A solve from scratch with the verdict has come to an event. -/
theorem solve_unbounded (I : Interface K n m σ δ) (obs : Observer K n m τ) (view : τ) (budget : Nat)
    (xGuess yGuess : Option (Array K)) (s : σ) :
    (I.method.solve obs budget xGuess yGuess).Ensures (s, view) (fun _ _ => True) fun f r =>
      f = .failed .initFailedUnboundedness → ∃ start event s1,
        I.StartsBy s (.solve obs view budget xGuess yGuess) start ∧
          I.method.Condemned start event s1 r.1 := by
  refine Method.ensures_solve (fun _ => nofun) fun guess hguess =>
    (Update.ensures_run _ _).mono ?_ ?_
  · rintro ⟨⟩ start hprepare
    refine (I.method.homotopy_unbounded obs budget start view).mono (fun _ _ _ => trivial) ?_
    rintro (_ | e) r hverdict hf
    · cases hf
    · -- only one error of a homotopy is reported as this one
      have he : e = .hotstartStoppedUnboundedness := by
        cases e <;> first | rfl | cases hf
      obtain ⟨event, s1, hcondemned⟩ := hverdict (he ▸ rfl)
      exact ⟨start, event, s1, .prepared hguess hprepare, hcondemned⟩
  · rintro (_ | e) s1 -
    · exact nofun
    · cases e <;> exact nofun

/-- A solve from the previous solution with the verdict has come to an event. -/
theorem resume_unbounded (I : Interface K n m σ δ) (obs : Observer K n m τ) (view : τ) (budget : Nat)
    {s : σ} (hlimits : I.method.checkLimits s ≠ .error .hotstartStoppedUnboundedness) :
    (I.method.resume obs budget).Ensures (s, view) (fun _ _ => True) fun f r =>
      f = .failed .hotstartStoppedUnboundedness → ∃ start event s1,
        I.StartsBy s (.resume obs view budget) start ∧
          I.method.Condemned start event s1 r.1 := by
  refine Method.ensures_resume (fun _ => nofun) (fun _ e hcheck hf => ?_) fun hstart hcheck => ?_
  · cases hf
    exact absurd hcheck hlimits
  · refine (I.method.homotopy_unbounded obs budget s view).mono (fun _ _ _ => trivial) ?_
    intro f r hverdict hf
    obtain ⟨event, s1, hcondemned⟩ := hverdict hf
    exact ⟨s, event, s1, .resumed hstart hcheck, hcondemned⟩

/-- A call that says that the objective has no lower bound has come to an event that the working set
could not follow. -/
theorem condemned_of_call (I : Interface K n m σ δ) {c : Call K n m δ} {s s' : σ} {e : QpError}
    (he : c.unboundedness = some e)
    (hlimits : I.method.checkLimits s ≠ .error .hotstartStoppedUnboundedness)
    (hcall : I.call c s = (.error (.failed e), s')) :
    ∃ start event s1, I.StartsBy s c start ∧ I.method.Condemned start event s1 s' := by
  cases c with
  | load d => cases he
  | reset => cases he
  | solve obs view budget xGuess yGuess =>
    cases he
    obtain ⟨_, h⟩ := (I.solve_unbounded obs view budget xGuess yGuess s).of_outcome_error hcall
    exact h rfl
  | resume obs view budget =>
    cases he
    obtain ⟨_, h⟩ := (I.resume_unbounded obs view budget hlimits).of_outcome_error hcall
    exact h rfl

end Interface

-- ---------------------------------------------------------------------------
-- Two solvers
-- ---------------------------------------------------------------------------

section Lockstep

variable {ρ δ' : Type}

namespace Method.Companions

variable {M : Method K n m σ} {M' : Method K n m ρ} {P : Phases n m σ} {P' : Phases n m ρ}
  {R D : σ → ρ → Prop} {s s' : σ} {t : ρ} {event : StepEvent n m}

theorem exists_between (h : M.Companions M' P P' R D) (hM : M.Respects P) (hM' : M'.Respects P')
    (hs : P.moving s) (ht : P'.moving t) (hstart : (M.status s).isStart) (hst : R s t)
    (hb : M.Between s s') : ∃ t', M'.Between t t' ∧ R s' t' := by
  have hstart' : (M'.status t).isStart := by
    rw [(h.seen s t hst).status]
    exact hstart
  induction hb with
  | start => exact ⟨_, .start, h.clearVerdict hst⟩
  | @step index it s1 s2 hb hstep hevent ih =>
    obtain ⟨t1, hb', hst1⟩ := ih
    have hs1 := (hM.moving_of_between hs hstart hb).1
    have ht1 := (hM'.moving_of_between ht hstart' hb').1
    obtain ⟨it', s2', t2, hstep', hother, hst2⟩ | ⟨f, s2', t2, hstep', -⟩ :=
      (h.step_alike hM hM' index hs1 ht1 hst1).cases
    · rw [hstep] at hstep'
      cases hstep'
      exact ⟨t2, .step hb' hother hevent, hst2⟩
    · rw [hstep] at hstep'
      cases hstep'

theorem exists_comesTo (h : M.Companions M' P P' R D) (hM : M.Respects P) (hM' : M'.Respects P')
    (hs : P.moving s) (ht : P'.moving t) (hstart : (M.status s).isStart) (hst : R s t)
    (hcomes : M.ComesTo s event s') : ∃ t', M'.ComesTo t event t' ∧ R s' t' := by
  have hstart' : (M'.status t).isStart := by
    rw [(h.seen s t hst).status]
    exact hstart
  cases hcomes with
  | @intro s1 s2 hb hdirection hevent =>
    obtain ⟨t1, hb', hst1⟩ := h.exists_between hM hM' hs ht hstart hst hb
    have hs1 := hM.moving_ignores.withStatus .performingHomotopy (hM.moving_of_between hs hstart hb).1
    have ht1 := hM'.moving_ignores.withStatus .performingHomotopy
      (hM'.moving_of_between ht hstart' hb').1
    -- the directions of both are found, and they block at the same event
    obtain ⟨⟨⟩, s2', t2, hrun, hrun', hst2⟩ | ⟨f, s2', t2, hrun, -⟩ :=
      (h.direction _ _ hs1 ht1 (h.withStatus hst1 .performingHomotopy)).cases
    · rw [hdirection] at hrun
      cases hrun
      have hlength := h.stepLength s2 t2 hst2
      have hcomes' := ComesTo.intro hb' hrun' (hlength ▸ hevent)
      rw [hlength] at hcomes'
      exact ⟨_, hcomes', h.perform _ _ _ _ hst2⟩
    · rw [hdirection] at hrun
      cases hrun

end Method.Companions

namespace Interface.Companions

variable {I : Interface K n m σ δ} {J : Interface K n m ρ δ'} {P : Phases n m σ} {P' : Phases n m ρ}
  {admits : Call K n m δ → σ → Prop} {admits' : Call K n m δ' → ρ → Prop} {R D : σ → ρ → Prop}
  {f : δ → δ'} {s start s1 s' : σ} {t : ρ} {c : Call K n m δ} {event : StepEvent n m}

/-- The homotopies of two solvers in lockstep start in related states. -/
theorem exists_startsBy (h : I.Companions J P P' R D f) (hst : R s t) (hstarts : I.StartsBy s c start) :
    ∃ start', J.StartsBy t (c.mapLoad f) start' ∧ R start start' := by
  cases hstarts with
  | resumed hstart hlimits =>
    refine ⟨t, .resumed ?_ ((h.checkLimits s t hst).trans hlimits), hst⟩
    rw [(h.method.seen s t hst).status]
    exact hstart
  | @prepared τ obs view budget xGuess yGuess guess s' hguess hprepare =>
    obtain ⟨⟨⟩, s1, t1, hrun, hrun', hst1⟩ | ⟨f, s1, t1, hrun, -⟩ := (h.prepare s t hst guess).cases
    · rw [hprepare] at hrun
      cases hrun
      exact ⟨t1, .prepared hguess hrun', hst1⟩
    · rw [hprepare] at hrun
      cases hrun

/-- If one of two solvers in lockstep ends with the verdict, so does the other one, at the same event. -/
theorem exists_condemned (h : I.Companions J P P' R D f) (hI : I.Respects P admits)
    (hJ : J.Respects P' admits') (hs : I.method.Settled P s) (ht : J.method.Settled P' t)
    (hc : admits c s) (hc' : admits' (c.mapLoad f) t) (hst : R s t) (hstarts : I.StartsBy s c start)
    (hcondemned : I.method.Condemned start event s1 s') :
    ∃ start' t1 t', J.StartsBy t (c.mapLoad f) start' ∧ J.method.Condemned start' event t1 t' ∧
      R s1 t1 ∧ R s' t' := by
  obtain ⟨start', hstarts', hst'⟩ := h.exists_startsBy hst hstarts
  obtain ⟨hmoving, hstart⟩ := hI.moving_of_startsBy hs hc hstarts
  obtain ⟨hmoving', hstart'⟩ := hJ.moving_of_startsBy ht hc' hstarts'
  cases hcondemned with
  | @intro s2 hcomes hchange =>
    obtain ⟨t1, hcomes', hst1⟩ :=
      h.method.exists_comesTo hI.method hJ.method hmoving hmoving' hstart hst' hcomes
    obtain ⟨hstepped, hevent⟩ := hI.method.stepped_of_comesTo hmoving hstart hcomes
    have hstepped' := (hJ.method.stepped_of_comesTo hmoving' hstart' hcomes').1
    -- the change fails on both sides, as it does on one
    obtain ⟨_, s2', t2, hrun, -⟩ | ⟨f, s2', t2, hrun, hrun', hst2⟩ :=
      (h.method.change event s1 t1 hevent hstepped hstepped' hst1).cases
    · rw [hchange] at hrun
      cases hrun
    · rw [hchange] at hrun
      cases hrun
      exact ⟨start', t1, _, hstarts', .intro hcomes' hrun', hst1,
        h.method.verdict hst2 rfl (h.method.seen _ _ hst2).infeasible rfl⟩

end Interface.Companions

end Lockstep

end ActiveSet
