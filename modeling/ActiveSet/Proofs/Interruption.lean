import ActiveSet.Proofs.Preservation
import ActiveSet.Proofs.Step

/-!
# Interrupted solves

A solve ends before the loaded problem when its budget of steps is used up or when the observer asks
to stop. What it has reached by then is all in the state: a later call that resumes takes the very
steps that the first one would have taken next (`Method.Resumable`).

Nothing is assumed of the state a solve starts from, nor of the arithmetic. What a method has to
satisfy for this (`Method.Restartable`) is that its parts neither touch the loaded problem nor report
an interruption of their own.

* `Iteration.later`, `Observer.later`, `Observer.patient`: records of later steps, and an observer
  that never asks to stop.
* `Start`, `Method.run`: solves from scratch and from the previous solution, as one kind of call.
* `Method.follow_stable`, `follow_later`, `follow_view`, `Restartable.follow_add`, `follow_stopped`: how
  the steps of a homotopy depend on the budget, on the observer, and on the number of the first step.
* `Method.Restartable.resumable`: methods whose parts are as they should be can be interrupted.
-/

namespace ActiveSet

variable {K : Type} {n m : Nat} {σ τ τ' : Type}

/-! ## Records of later steps -/

/-- The record of a step that is `d` steps later. -/
def Iteration.later (d : Nat) (it : Iteration K n m) : Iteration K n m :=
  { it with index := d + it.index }

/-- An observer to whom every step seems to be `d` steps later. -/
def Observer.later (d : Nat) (obs : Observer K n m τ) : Observer K n m τ :=
  ⟨fun it t => obs.observe (it.later d) t⟩

/-- An observer that never asks to stop. -/
def Observer.patient (obs : Observer K n m τ) : Observer K n m τ :=
  ⟨fun it t => ((obs.observe it t).1, .proceed)⟩

/-- The errors by which a caller learns that it has ended a solve itself. -/
def QpError.IsInterruption (e : QpError) : Prop := e = .maxNwsrReached ∨ e = .userAbortRequested

/-- The loaded problem and the verdicts on it are the same. -/
structure Core.SameTask (c c' : Core K n m) : Prop where
  target : c'.target = c.target
  infeasible : c'.infeasible = c.infeasible
  unbounded : c'.unbounded = c.unbounded

theorem Core.SameTask.refl (c : Core K n m) : c.SameTask c := ⟨rfl, rfl, rfl⟩

theorem Core.SameTask.trans {c c' c'' : Core K n m} (h : c.SameTask c') (h' : c'.SameTask c'') :
    c.SameTask c'' :=
  ⟨h'.target.trans h.target, h'.infeasible.trans h.infeasible, h'.unbounded.trans h.unbounded⟩

namespace Method

variable {M : Method K n m σ}

/-- The steps of a method leave the loaded problem and the verdicts alone, and they do not claim to
have been interrupted. -/
structure Restartable (M : Method K n m σ) : Prop where
  core_withCore : ∀ s c, M.core (M.withCore s c) = c
  withCore_core : ∀ s, M.withCore s (M.core s) = s
  checkLimits_congr : ∀ s s', (M.core s').target = (M.core s).target →
    M.checkLimits s' = M.checkLimits s
  checkLimits_error : ∀ s e, M.checkLimits s = .error e → ¬e.IsInterruption
  prepare : ∀ guess s, (M.prepare guess).Ensures s
    (fun _ s' => M.status s' = .auxiliarySolved ∧ M.checkLimits s' = .ok ()) fun _ _ => True
  direction : ∀ c : Core K n m, M.determineDirection.Preserves (fun s => c.SameTask (M.core s))
    fun _ => True
  perform : ∀ tau event s, (M.core s).SameTask (M.core (M.perform tau event s))
  change : ∀ (c : Core K n m) event,
    (M.changeWorkingSet event).Preserves (fun s => c.SameTask (M.core s))
      fun e => ¬e.IsInterruption

namespace Restartable

theorem sameTask_withStatus (hM : M.Restartable) (status : Status) (s : σ) :
    (M.core s).SameTask (M.core (M.withStatus status s)) := by
  unfold withStatus
  rw [hM.core_withCore]
  exact ⟨rfl, rfl, rfl⟩

theorem status_withStatus (hM : M.Restartable) (status : Status) (s : σ) :
    M.status (M.withStatus status s) = status := by
  simp only [Method.status, withStatus, hM.core_withCore]

theorem core_clearVerdict (hM : M.Restartable) (s : σ) :
    M.core (M.clearVerdict s) = { M.core s with infeasible := false, unbounded := false } :=
  hM.core_withCore s _

/-- A state without a verdict has none to forget. -/
theorem clearVerdict_eq (hM : M.Restartable) {s : σ} (hinfeasible : (M.core s).infeasible = false)
    (hunbounded : (M.core s).unbounded = false) : M.clearVerdict s = s := by
  have hs := hM.withCore_core s
  unfold clearVerdict
  generalize M.core s = c at *
  cases c
  cases hinfeasible
  cases hunbounded
  exact hs

/-- A failed change of the working set is no interruption. -/
theorem not_isInterruption_of_reported {e e' : QpError} {s s' : σ} (h : M.Reported s e e' s')
    (he : ¬e.IsInterruption) : ¬e'.IsInterruption := by
  cases h with
  | infeasible => rintro (h | h) <;> cases h
  | unbounded => exact he
  | other => exact he

end Restartable

end Method

variable [Scalar K]

/-! ## Results -/

/-- The value of a result is changed by a function. -/
def mapValue {α β : Type} (g : α → β) :
    EStateM.Result Fault σ α → EStateM.Result Fault σ β
  | .ok a s => .ok (g a) s
  | .error e s => .error e s

/-- The error of a result is changed by a function. -/
def mapFault {α : Type} (g : QpError → QpError) :
    EStateM.Result Fault σ α → EStateM.Result Fault σ α
  | .ok a s => .ok a s
  | .error f s => .error (f.mapError g) s

/-- The observer's part of a result is changed by a function. -/
def mapView {α : Type} (g : τ → τ') :
    EStateM.Result Fault (σ × τ) α → EStateM.Result Fault (σ × τ') α
  | .ok a s => .ok a (s.1, g s.2)
  | .error f s => .error f (s.1, g s.2)

/-- How a call can start: from scratch, with a guess, or from the solution of the previous
problem. -/
inductive Start (K : Type) where
  | scratch (xGuess yGuess : Option (Array K))
  | previous

/-- The error that a call reports for an error of its homotopy. -/
def Start.report : Start K → QpError → QpError
  | .scratch .., e => Method.initError e
  | .previous, e => e

namespace Method

variable {M : Method K n m σ}

/-- A call that solves the loaded problem. -/
def run (M : Method K n m σ) (start : Start K) (obs : Observer K n m τ) (budget : Nat) :
    Update (σ × τ) Nat :=
  match start with
  | .scratch xGuess yGuess => M.solve obs budget xGuess yGuess
  | .previous => M.resume obs budget

/-! ## One step -/

/-- One step and its record: what the observer is told does not depend on anything else. -/
theorem follow_succ (obs : Observer K n m τ) (budget index : Nat) (s : σ) (t : τ) :
    M.follow obs (budget + 1) index (s, t) =
      match M.step index s with
      | .error f s' => .error f (s', t)
      | .ok it s' =>
        if it.event = .full then .ok (index + 1) (s', (obs.observe it t).1)
        else if (obs.observe it t).2 = .stop then
          .error (.failed .userAbortRequested) (s', (obs.observe it t).1)
        else M.follow obs budget (index + 1) (s', (obs.observe it t).1) := by
  change EStateM.bind _ _ _ = _
  unfold EStateM.bind
  cases hstep : M.step index s with
  | error f s' =>
    simp only [Update.first, hstep]
  | ok it s' =>
    simp only [Update.first, hstep]
    by_cases hfull : it.event = .full
    · rw [if_pos hfull]
      change (if it.event = .full then _ else _ : Update (σ × τ) Nat) _ = _
      rw [if_pos hfull]
      rfl
    · rw [if_neg hfull]
      change (if it.event = .full then _ else _ : Update (σ × τ) Nat) _ = _
      rw [if_neg hfull]
      dsimp only
      split
      · rfl
      · rfl

/-- The number of a step is nothing but a part of its record. -/
theorem step_later (d index : Nat) (s : σ) :
    M.step (d + index) s = mapValue (Iteration.later d) (M.step index s) := by
  have hmap : M.step (d + index) = Iteration.later d <$> M.step index := by
    unfold step
    simp only [map_bind, apply_ite (Iteration.later d <$> ·), map_pure]
    rfl
  rw [hmap]
  change EStateM.map _ _ _ = _
  unfold EStateM.map mapValue
  cases M.step index s <;> rfl

/-- What a step that can be followed by another one leaves as it was, and what it may fail with. -/
theorem Restartable.step_ensures (hM : M.Restartable) (index : Nat) (s : σ) :
    (M.step index).Ensures s
      (fun it s' => it.index = index ∧ (M.core s).SameTask (M.core s') ∧
        (it.event ≠ .full → M.status s' = .homotopySolved))
      fun f _ => ∀ e, f = .failed e → ¬e.IsInterruption := by
  have hdirected := hM.direction (M.core s) _ (hM.sameTask_withStatus .performingHomotopy s)
  have hperformed {s1 : σ}
      (h : M.determineDirection (M.withStatus .performingHomotopy s) = .ok () s1) :
      (M.core s).SameTask (M.core (M.perform (M.stepLength s1).1 (M.stepLength s1).2 s1)) :=
    (hdirected.of_ok h).trans (hM.perform _ _ s1)
  -- a step that is made changes the state by the direction, the movement and the change only
  refine (M.step_spec index s).mono (fun it s' h => ?_) fun f s' h => ?_
  · cases h with
    | full hdirection hevent =>
      exact ⟨rfl, (hperformed hdirection).trans (hM.sameTask_withStatus _ _),
        fun hnot => absurd hevent hnot⟩
    | changed hdirection hevent hchange =>
      have hs2 := (hM.change (M.core s) _ _ (hperformed hdirection)).of_ok hchange
      exact ⟨rfl, hs2.trans (hM.sameTask_withStatus _ _), fun _ => hM.status_withStatus _ _⟩
  · -- a step that fails reports no interruption
    rintro e rfl
    cases h with
    | undirected => rintro (h | h) <;> cases h
    | unchanged hdirection hevent hchange hreported =>
      obtain ⟨-, he⟩ := (hM.change (M.core s) _ _ (hperformed hdirection)).of_error hchange
      exact not_isInterruption_of_reported hreported (he _ rfl)

/-- After a step that neither came to the loaded problem nor was the last one for the observer, the
homotopy goes on. -/
theorem follow_of_step {obs : Observer K n m τ} {index : Nat} {s s1 : σ} {t : τ}
    {it : Iteration K n m} (hrun : M.step index s = .ok it s1) (hevent : it.event ≠ .full)
    (hanswer : (obs.observe it t).2 ≠ .stop) (budget : Nat) :
    M.follow obs (budget + 1) index (s, t) =
      M.follow obs budget (index + 1) (s1, (obs.observe it t).1) := by
  rw [follow_succ, hrun]
  dsimp only
  rw [if_neg hevent, if_neg hanswer]

/-- A homotopy that has been interrupted has made its first step, and that did not come to the loaded
problem. The observer has stopped it there, or it has been interrupted later. -/
theorem Restartable.step_of_interrupted (hM : M.Restartable) {obs : Observer K n m τ}
    {budget index : Nat} {s : σ} {t : τ} {e : QpError} {r : σ × τ} (he : e.IsInterruption)
    (h : M.follow obs (budget + 1) index (s, t) = .error (.failed e) r) :
    ∃ it s1, M.step index s = .ok it s1 ∧ it.event ≠ .full ∧
      ((obs.observe it t).2 = .stop ∧ e = .userAbortRequested ∧ r = (s1, (obs.observe it t).1) ∨
        (obs.observe it t).2 ≠ .stop ∧
          M.follow obs budget (index + 1) (s1, (obs.observe it t).1) = .error (.failed e) r) := by
  rw [follow_succ] at h
  cases hrun : M.step index s with
  | error f s1 =>
    rw [hrun] at h
    cases h
    exact absurd he ((hM.step_ensures index s).of_error hrun _ rfl)
  | ok it s1 =>
    rw [hrun] at h
    dsimp only at h
    split at h
    · cases h
    next hevent =>
    refine ⟨it, s1, rfl, hevent, ?_⟩
    split at h
    next hanswer =>
      cases h
      exact .inl ⟨hanswer, rfl, rfl⟩
    next hanswer => exact .inr ⟨hanswer, h⟩

/-! ## All steps -/

/-- A homotopy that ends otherwise does not depend on what is left of its budget. -/
theorem follow_stable (obs : Observer K n m τ) (budget budget' : Nat) :
    ∀ {index : Nat} {s : σ} {t : τ},
      (∀ r, M.follow obs budget index (s, t) ≠ .error (.failed .maxNwsrReached) r) →
        M.follow obs (budget + budget') index (s, t) = M.follow obs budget index (s, t) := by
  -- by induction on the smaller budget, which never runs out
  induction budget with
  | zero => exact fun h => absurd rfl (h _)
  | succ budget ih =>
    intro index s t h
    rw [follow_succ] at h ⊢
    rw [Nat.add_right_comm, follow_succ]
    cases hrun : M.step index s with
    | error f s1 => rfl
    | ok it s1 =>
      rw [hrun] at h
      dsimp only at h ⊢
      split
      · rfl
      next hevent =>
      split
      · rfl
      next hanswer =>
        rw [if_neg hevent, if_neg hanswer] at h
        exact ih h

/-- The number of the first step shows in the records and in the number of steps, and nowhere
else. -/
theorem follow_later (obs : Observer K n m τ) (d budget : Nat) :
    ∀ (index : Nat) (s : σ) (t : τ), M.follow obs budget (d + index) (s, t) =
      mapValue (d + ·) (M.follow (obs.later d) budget index (s, t)) := by
  -- both runs take the same steps, and the observer sees later indices in one of them
  induction budget with
  | zero => exact fun _ _ _ => rfl
  | succ budget ih =>
    intro index s t
    rw [follow_succ, follow_succ, step_later]
    cases hrun : M.step index s with
    | error f s1 => rfl
    | ok it s1 =>
      show (if it.event = .full then _ else _) = _
      by_cases hevent : it.event = .full
      · simp only [if_pos hevent]
        rfl
      · simp only [if_neg hevent]
        by_cases hanswer : (obs.observe (it.later d) t).2 = .stop
        · rw [if_pos hanswer, if_pos (show ((obs.later d).observe it t).2 = .stop from hanswer)]
          rfl
        · rw [if_neg hanswer, if_neg (show ¬((obs.later d).observe it t).2 = .stop from hanswer)]
          exact ih (index + 1) s1 _

/-- The steps up to an interruption have not touched the loaded problem, and another homotopy can
start where they ended. -/
theorem Restartable.follow_keeps (hM : M.Restartable) (obs : Observer K n m τ) (budget : Nat) :
    ∀ {index : Nat} {s s' : σ} {t t' : τ},
      M.follow obs budget index (s, t) = .error (.failed .maxNwsrReached) (s', t') →
        (M.core s).SameTask (M.core s') ∧
          (M.status s' = M.status s ∨ M.status s' = .homotopySolved) := by
  induction budget with
  | zero =>
    intro index s s' t t' h
    cases h
    exact ⟨.refl _, .inl rfl⟩
  | succ budget ih =>
    intro index s s' t t' h
    obtain ⟨it, s1, hrun, hevent, ⟨-, hne, -⟩ | ⟨-, hrest⟩⟩ := hM.step_of_interrupted (.inl rfl) h
    · cases hne
    · obtain ⟨-, htask, hstatus⟩ := (hM.step_ensures index s).of_ok hrun
      obtain ⟨htask', hstatus'⟩ := ih hrest
      refine ⟨htask.trans htask', .inr ?_⟩
      rw [hstatus hevent] at hstatus'
      exact hstatus'.elim id id

/-- A homotopy whose budget is used up goes on with another budget as it would have with the sum of
both. -/
theorem Restartable.follow_add (hM : M.Restartable) (obs : Observer K n m τ) (budget budget' : Nat) :
    ∀ {index : Nat} {s s' : σ} {t t' : τ},
      M.follow obs budget index (s, t) = .error (.failed .maxNwsrReached) (s', t') →
        M.follow obs (budget + budget') index (s, t) =
          M.follow obs budget' (budget + index) (s', t') := by
  induction budget with
  | zero =>
    intro index s s' t t' h
    cases h
    rw [Nat.zero_add, Nat.zero_add]
  | succ budget ih =>
    intro index s s' t t' h
    obtain ⟨it, s1, hrun, hevent, ⟨-, hne, -⟩ | ⟨hanswer, hrest⟩⟩ :=
      hM.step_of_interrupted (.inl rfl) h
    · cases hne
    · rw [Nat.add_right_comm, follow_of_step hrun hevent hanswer, ih hrest]
      congr 1
      omega

/-- Two observers that answer alike, and see alike through a function, see the same homotopy. -/
theorem follow_view (obs : Observer K n m τ) (obs' : Observer K n m τ') (g : τ' → τ)
    (hview : ∀ it t, obs.observe it (g t) = (g (obs'.observe it t).1, (obs'.observe it t).2))
    (budget : Nat) : ∀ (index : Nat) (s : σ) (t : τ'), M.follow obs budget index (s, g t) =
      mapView g (M.follow obs' budget index (s, t)) := by
  -- both observers give the same answers, so both runs stop at the same place
  induction budget with
  | zero => exact fun _ _ _ => rfl
  | succ budget ih =>
    intro index s t
    rw [follow_succ, follow_succ]
    cases M.step index s with
    | error f s1 => rfl
    | ok it s1 =>
      dsimp only
      rw [hview]
      by_cases hevent : it.event = .full
      · rw [if_pos hevent, if_pos hevent]
        rfl
      · rw [if_neg hevent, if_neg hevent]
        by_cases hanswer : (obs'.observe it t).2 = .stop
        · rw [if_pos hanswer, if_pos hanswer]
          rfl
        · rw [if_neg hanswer, if_neg hanswer]
          exact ih (index + 1) s1 _

/-- A homotopy that the observer has stopped stands where one with a budget of as many steps ends,
whose observer does not ask to stop. -/
theorem Restartable.follow_stopped (hM : M.Restartable) (obs : Observer K n m τ) (budget : Nat) :
    ∀ {index : Nat} {s s' : σ} {t t' : τ},
      M.follow obs budget index (s, t) = .error (.failed .userAbortRequested) (s', t') →
        ∃ j < budget, (∃ r, M.follow obs j index (s, t) = .error (.failed .maxNwsrReached) r) ∧
          M.follow obs (j + 1) index (s, t) = .error (.failed .userAbortRequested) (s', t') ∧
          M.follow obs.patient (j + 1) index (s, t) =
            .error (.failed .maxNwsrReached) (s', t') := by
  induction budget with
  | zero => exact fun h => nomatch h
  | succ budget ih =>
    intro index s s' t t' h
    obtain ⟨it, s1, hrun, hevent, hend⟩ := hM.step_of_interrupted (.inr rfl) h
    have hpatient : ∀ j, M.follow obs.patient (j + 1) index (s, t) =
        M.follow obs.patient j (index + 1) (s1, (obs.observe it t).1) :=
      follow_of_step hrun hevent nofun
    obtain ⟨hanswer, -, heq⟩ | ⟨hanswer, hrest⟩ := hend
    · -- it has been stopped after this very step
      cases heq
      refine ⟨0, Nat.succ_pos budget, ⟨_, rfl⟩, ?_, hpatient 0⟩
      rw [follow_succ, hrun]
      dsimp only
      rw [if_neg hevent, if_pos hanswer]
    · obtain ⟨j, hj, ⟨r, hbefore⟩, hstopped, hreached⟩ := ih hrest
      have hnext := follow_of_step hrun hevent hanswer
      exact ⟨j + 1, Nat.succ_lt_succ hj, ⟨r, (hnext j).trans hbefore⟩,
        (hnext (j + 1)).trans hstopped, (hpatient (j + 1)).trans hreached⟩

/-- The records up to an interruption are numbered one after the other. -/
theorem Restartable.follow_recorded (hM : M.Restartable) (budget : Nat) :
    ∀ {index : Nat} {s s' : σ} {seen seen' : List (Iteration K n m)},
      M.follow (.recorder none) budget index (s, seen) =
          .error (.failed .maxNwsrReached) (s', seen') →
        ∃ its, seen' = seen ++ its ∧ its.map Iteration.index = List.range' index budget := by
  induction budget with
  | zero =>
    intro index s s' seen seen' h
    cases h
    exact ⟨[], (List.append_nil _).symm, rfl⟩
  | succ budget ih =>
    intro index s s' seen seen' h
    obtain ⟨it, s1, hrun, -, ⟨-, hne, -⟩ | ⟨-, hrest⟩⟩ := hM.step_of_interrupted (.inl rfl) h
    · cases hne
    · obtain ⟨its, rfl, hits⟩ := ih hrest
      refine ⟨it :: its, List.append_assoc _ _ _, ?_⟩
      rw [List.map_cons, hits, ((hM.step_ensures index s).of_ok hrun).1, List.range'_succ]

/-! ## Calls -/

/-- A solve from scratch prepares an auxiliary problem and follows the homotopy from there. -/
theorem solve_guessed {xGuess yGuess : Option (Array K)} {guess : Guess K n m}
    (hguess : Guess.ofArrays n m xGuess yGuess = .ok guess) (obs : Observer K n m τ)
    (budget : Nat) (s : σ) (t : τ) : M.solve obs budget xGuess yGuess (s, t) =
      match M.prepare guess (M.reset s) with
      | .ok _ s1 => mapFault initError (M.follow obs budget 0 (M.clearVerdict s1, t))
      | .error .broken s1 => .error .broken (s1, t)
      | .error (.failed e) s1 =>
        .error (.failed (setupError e)) (M.withStatus .notInitialised s1, t) := by
  unfold solve
  rw [hguess]
  cases hprepare : M.prepare guess (M.reset s) with
  | ok _ s1 =>
    simp only [bind, EStateM.bind, Update.first, Update.recover, Update.modify_eq,
      Update.ofExcept, pure, EStateM.pure, hprepare]
    rfl
  | error f s1 =>
    cases f <;> simp only [bind, EStateM.bind, Update.first, Update.recover, Update.modify_eq,
      Update.ofExcept, pure, EStateM.pure, hprepare]
    rfl

/-- A solve that resumes follows the homotopy from where it stands, if it can. -/
theorem resume_eq (obs : Observer K n m τ) (budget : Nat) (s : σ) (t : τ) :
    M.resume obs budget (s, t) =
      if (M.status s).isStart = true then
        match M.checkLimits s with
        | .ok _ => M.follow obs budget 0 (M.clearVerdict s, t)
        | .error e => .error (.failed e) (s, t)
      else .error (.failed .hotstartFailedAsQpNotInitialised) (s, t) := by
  change (if (M.status s).isStart = true then _ else _ : Update (σ × τ) Nat) _ = _
  split
  · cases M.checkLimits s <;> rfl
  · rfl

omit [Scalar K] in
/-- A homotopy first forgets the verdict on the last problem, and nothing else. -/
theorem Restartable.clearVerdict_start (hM : M.Restartable) {s : σ}
    (hstatus : (M.status s).isStart = true) (hlimits : M.checkLimits s = .ok ()) :
    (M.status (M.clearVerdict s)).isStart = true ∧ M.checkLimits (M.clearVerdict s) = .ok () ∧
      (M.core (M.clearVerdict s)).infeasible = false ∧
      (M.core (M.clearVerdict s)).unbounded = false := by
  have hcore := hM.core_clearVerdict s
  rw [hM.checkLimits_congr s _ (by rw [hcore]), Method.status, hcore]
  exact ⟨hstatus, hlimits, rfl, rfl⟩

/-- A call fails before its first step, with an error of its own and whatever its observer and its
budget, or it is a homotopy from a state without verdict. -/
theorem Restartable.run_cases (hM : M.Restartable) (start : Start K) (s : σ) :
    (∃ f s', (∀ e, f = .failed e → ¬e.IsInterruption) ∧
        ∀ {τ : Type} (obs : Observer K n m τ) budget t,
          M.run start obs budget (s, t) = .error f (s', t)) ∨
      ∃ s', (M.status s').isStart = true ∧ M.checkLimits s' = .ok () ∧
        (M.core s').infeasible = false ∧ (M.core s').unbounded = false ∧
        ∀ {τ : Type} (obs : Observer K n m τ) budget t, M.run start obs budget (s, t) =
          mapFault start.report (M.follow obs budget 0 (s', t)) := by
  cases start with
  | scratch xGuess yGuess =>
    -- from scratch, guesses of a wrong size and a failed set-up refuse the call
    cases hguess : Guess.ofArrays n m xGuess yGuess with
    | error e =>
      refine .inl ⟨.failed e, s, fun e' heq => ?_, fun obs budget t =>
        solve_refused hguess obs budget s t⟩
      cases heq
      obtain rfl := Guess.ofArrays_error hguess
      rintro (h | h) <;> cases h
    | ok guess =>
      have hrun : ∀ {τ : Type} (obs : Observer K n m τ) budget t,
          M.run (.scratch xGuess yGuess) obs budget (s, t) = _ :=
        fun obs budget t => solve_guessed hguess obs budget s t
      cases hprepare : M.prepare guess (M.reset s) with
      | ok _ s1 =>
        obtain ⟨hstatus, hlimits⟩ := (hM.prepare guess (M.reset s)).of_ok hprepare
        obtain ⟨hstart, hlimits, hclear⟩ :=
          hM.clearVerdict_start (s := s1) (by rw [hstatus]; rfl) hlimits
        refine .inr ⟨M.clearVerdict s1, hstart, hlimits, hclear.1, hclear.2, fun obs budget t => ?_⟩
        rw [hrun, hprepare]
        rfl
      | error f s1 =>
        cases f with
        | broken =>
          exact .inl ⟨.broken, s1, fun _ => nofun, fun obs budget t => by rw [hrun, hprepare]⟩
        | failed e =>
          refine .inl ⟨.failed (setupError e), M.withStatus .notInitialised s1, fun e' heq => ?_,
            fun obs budget t => by rw [hrun, hprepare]⟩
          cases heq
          cases e <;> rintro (h | h) <;> cases h
  | previous =>
    have hrun : ∀ {τ : Type} (obs : Observer K n m τ) budget t,
        M.run .previous obs budget (s, t) = _ := fun obs budget t => resume_eq obs budget s t
    -- from the previous point, a solver that cannot start and limits that cross refuse it
    by_cases hstatus : (M.status s).isStart = true
    · cases hlimits : M.checkLimits s with
      | error e =>
        refine .inl ⟨.failed e, s, fun e' heq => ?_, fun obs budget t => ?_⟩
        · cases heq
          exact hM.checkLimits_error s e hlimits
        · rw [hrun, if_pos hstatus, hlimits]
      | ok u =>
        obtain ⟨hstart, hlimits', hclear⟩ := hM.clearVerdict_start hstatus hlimits
        refine .inr ⟨M.clearVerdict s, hstart, hlimits', hclear.1, hclear.2,
          fun obs budget t => ?_⟩
        rw [hrun, if_pos hstatus, hlimits]
        change M.follow obs budget 0 (M.clearVerdict s, t) = mapFault id _
        cases M.follow obs budget 0 (M.clearVerdict s, t) with
        | ok k r => rfl
        | error f r => cases f <;> rfl
    · refine .inl ⟨.failed .hotstartFailedAsQpNotInitialised, s, fun e' heq => ?_,
        fun obs budget t => by rw [hrun, if_neg hstatus]⟩
      cases heq
      rintro (h | h) <;> cases h

omit [Scalar K] in
/-- An interruption is reported as what it is, and nothing else is reported as one. -/
theorem mapFault_eq_interruption (start : Start K) {e : QpError} (he : e.IsInterruption)
    {α : Type} {r : EStateM.Result Fault σ α} {s : σ} :
    mapFault start.report r = .error (.failed e) s ↔ r = .error (.failed e) s := by
  have hreport : ∀ e', start.report e' = e ↔ e' = e := by
    intro e'
    cases start with
    | previous => exact Iff.rfl
    | scratch xGuess yGuess =>
      rcases he with rfl | rfl <;> cases e' <;> simp [Start.report, initError]
  cases r with
  | ok a s' => simp [mapFault]
  | error f s' =>
    cases f with
    | broken => simp [mapFault, Fault.mapError]
    | failed e' => simp [mapFault, Fault.mapError, hreport]

/-- A homotopy that starts where another one was interrupted. -/
theorem Restartable.run_previous (hM : M.Restartable) {s : σ} (hstart : (M.status s).isStart = true)
    (hlimits : M.checkLimits s = .ok ()) (hinfeasible : (M.core s).infeasible = false)
    (hunbounded : (M.core s).unbounded = false) (obs : Observer K n m τ) (budget : Nat) (t : τ) :
    M.run .previous obs budget (s, t) = M.follow obs budget 0 (s, t) := by
  refine (resume_eq obs budget s t).trans ?_
  rw [if_pos hstart, hlimits, hM.clearVerdict_eq hinfeasible hunbounded]

/-- What a call has done when its budget was used up, and what a call that resumes does then. -/
theorem Restartable.run_of_maxNwsrReached (hM : M.Restartable) {start : Start K}
    {obs : Observer K n m τ} {budget : Nat} {s s1 : σ} {t t1 : τ}
    (h : M.run start obs budget (s, t) = .error (.failed .maxNwsrReached) (s1, t1)) :
    ∃ s', (∀ {τ : Type} (obs : Observer K n m τ) budget t, M.run start obs budget (s, t) =
        mapFault start.report (M.follow obs budget 0 (s', t))) ∧
      M.follow obs budget 0 (s', t) = .error (.failed .maxNwsrReached) (s1, t1) ∧
      ∀ {τ : Type} (obs : Observer K n m τ) budget t,
        M.run .previous obs budget (s1, t) = M.follow obs budget 0 (s1, t) := by
  obtain ⟨f, s', hf, hrun⟩ | ⟨s', hstart, hlimits, hinfeasible, hunbounded, hrun⟩ :=
    hM.run_cases start s
  · rw [hrun] at h
    cases h
    exact absurd (.inl rfl) (hf _ rfl)
  · rw [hrun, mapFault_eq_interruption start (.inl rfl)] at h
    -- what an interrupted run leaves behind is enough to resume it
    obtain ⟨htask, hstatus⟩ := hM.follow_keeps obs budget h
    have hstart1 : (M.status s1).isStart = true := by
      rcases hstatus with hstatus | hstatus
      · rw [hstatus]
        exact hstart
      · rw [hstatus]
        rfl
    refine ⟨s', hrun, h, hM.run_previous hstart1 ?_ ?_ ?_⟩
    · rw [hM.checkLimits_congr s' s1 htask.target]
      exact hlimits
    · rw [htask.infeasible]
      exact hinfeasible
    · rw [htask.unbounded]
      exact hunbounded

/-- The states and results of calls that are interrupted and resumed. -/
structure Resumable (M : Method K n m σ) : Prop where
  /-- Where the budget of a call is used up, a call that resumes with another budget does what the
  first one would have done with the sum of both. -/
  resumed : ∀ (start : Start K) {τ : Type} (obs : Observer K n m τ) budget budget' s s1 t t1,
    M.run start obs budget (s, t) = .error (.failed .maxNwsrReached) (s1, t1) →
      M.run start obs (budget + budget') (s, t) = mapFault start.report
        (mapValue (budget + ·) (M.run .previous (obs.later budget) budget' (s1, t1)))
  /-- The records of the steps are those of the two calls. In either of them they are numbered from
  zero. -/
  recorded : ∀ (start : Start K) budget budget' s s1 its,
    M.run start (.recorder none) budget (s, []) = .error (.failed .maxNwsrReached) (s1, its) →
      its.map Iteration.index = List.range budget ∧
        M.run start (.recorder none) (budget + budget') (s, []) = mapView
          (its ++ ·.map (Iteration.later budget)) (mapFault start.report
            (mapValue (budget + ·) (M.run .previous (.recorder none) budget' (s1, []))))
  /-- A call that ends otherwise does not depend on what is left of its budget. -/
  stable : ∀ (start : Start K) {τ : Type} (obs : Observer K n m τ) budget budget' s t,
    (∀ r, M.run start obs budget (s, t) ≠ .error (.failed .maxNwsrReached) r) →
      M.run start obs (budget + budget') (s, t) = M.run start obs budget (s, t)
  /-- A call that the observer has stopped after step `j`, which the budget `j` still rules out,
  leaves the state that the budget `j + 1` leaves if the observer does not ask to stop. -/
  stopped : ∀ (start : Start K) {τ : Type} (obs : Observer K n m τ) budget s s1 t t1,
    M.run start obs budget (s, t) = .error (.failed .userAbortRequested) (s1, t1) →
      ∃ j < budget, (∃ r, M.run start obs j (s, t) = .error (.failed .maxNwsrReached) r) ∧
        M.run start obs (j + 1) (s, t) = .error (.failed .userAbortRequested) (s1, t1) ∧
        M.run start obs.patient (j + 1) (s, t) = .error (.failed .maxNwsrReached) (s1, t1)

theorem mapFault_mapView {α : Type} (g : QpError → QpError) (v : τ → τ')
    (r : EStateM.Result Fault (σ × τ) α) : mapFault g (mapView v r) = mapView v (mapFault g r) := by
  cases r <;> rfl

theorem mapValue_mapView {α β : Type} (g : α → β) (v : τ → τ')
    (r : EStateM.Result Fault (σ × τ) α) : mapValue g (mapView v r) = mapView v (mapValue g r) := by
  cases r <;> rfl

/-- A solver can be interrupted and resumed if no part of a step touches the loaded problem. -/
theorem Restartable.resumable (hM : M.Restartable) : M.Resumable where
  resumed start τ obs budget budget' s s1 t t1 h := by
    -- the second call spends its budget where the first has stopped
    obtain ⟨s', hrun, hfollow, hresume⟩ := hM.run_of_maxNwsrReached h
    rw [hrun, hM.follow_add obs budget budget' hfollow, follow_later, hresume]
  recorded start budget budget' s s1 its h := by
    obtain ⟨s', hrun, hfollow, hresume⟩ := hM.run_of_maxNwsrReached h
    obtain ⟨its', heq, hits⟩ := hM.follow_recorded budget hfollow
    rw [List.nil_append] at heq
    subst heq
    refine ⟨by rw [hits, List.range_eq_range'], ?_⟩
    -- its records are those of the first call continued, with the indices counted on
    have hview := follow_view (M := M) ((Observer.recorder none).later budget) (.recorder none)
      (its ++ ·.map (Iteration.later budget)) (fun it seen => by
        simp [Observer.later, Observer.recorder]) budget' 0 s1 []
    rw [List.map_nil, List.append_nil] at hview
    rw [hrun, hM.follow_add _ budget budget' hfollow, follow_later, hview, hresume,
      mapValue_mapView, mapFault_mapView]
  stable start τ obs budget budget' s t h := by
    obtain ⟨f, s', -, hrun⟩ | ⟨s', -, -, -, -, hrun⟩ := hM.run_cases start s
    · rw [hrun, hrun]
    · rw [hrun, hrun, follow_stable obs budget budget']
      intro r hr
      refine h r ?_
      rw [hrun, hr]
      exact (mapFault_eq_interruption start (.inl rfl)).2 rfl
  stopped start τ obs budget s s1 t t1 h := by
    obtain ⟨f, s', hf, hrun⟩ | ⟨s', -, -, -, -, hrun⟩ := hM.run_cases start s
    · rw [hrun] at h
      cases h
      exact absurd (.inr rfl) (hf _ rfl)
    · rw [hrun, mapFault_eq_interruption start (.inr rfl)] at h
      obtain ⟨j, hj, ⟨r, hbefore⟩, hstopped, hreached⟩ := hM.follow_stopped obs budget h
      refine ⟨j, hj, ⟨r, ?_⟩, ?_, ?_⟩
      · rw [hrun, mapFault_eq_interruption start (.inl rfl)]
        exact hbefore
      · rw [hrun, mapFault_eq_interruption start (.inr rfl)]
        exact hstopped
      · rw [hrun, mapFault_eq_interruption start (.inl rfl)]
        exact hreached

end Method

end ActiveSet
