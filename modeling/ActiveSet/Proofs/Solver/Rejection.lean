import ActiveSet.Proofs.Records
import ActiveSet.Proofs.Solver.Resumption
import ActiveSet.Proofs.Solver.Writing

/-!
# Calls that are rejected

A call can be rejected before it has begun: data that does not fit, a guess of the wrong size, a solve
that is to be resumed where nothing has been solved or where the loaded limits cross. The solver is then
exactly what it was (`rejected_calls_atomic`), for both solvers, in every state and with any arithmetic.

A homotopy whose direction cannot be determined is less clear-cut, since the direction is computed in
place, by several systems of which any can fail. `Method.Frames` says that nothing else is written on the
way. What is left is the state after the last step that has been made, but for the status and the
direction itself.

* `Core.Undirected`, `Constrained.Undirected`: states that differ in nothing but status and direction.
* `Method.Frames.step_failed`: how a step fails.
* `Interface.Rejects`: what the rejected calls of a solver leave.
-/

namespace ActiveSet

open Update

variable {K : Type} {n m : Nat} {σ δ τ : Type}

/-- Two states differ in nothing but the status and the direction. Point and multipliers, the current
problem, the working set and the factorization are the same, and so is all that was loaded. -/
def Core.Undirected (s s' : Core K n m) : Prop :=
  ∃ status dx dy tilt, s' = { s with status, dx, dy, tilt }

/-- Two states differ in nothing but the status, the direction, and what the direction does to the values
of the constraints. Both working sets and both factorizations are the same. -/
def Constrained.Undirected (s s' : Constrained K n m) : Prop :=
  ∃ status dx dy tilt dax, s' = { s with status, dx, dy, tilt, dax }

variable [Scalar K]

-- ---------------------------------------------------------------------------
-- Steps without a direction
-- ---------------------------------------------------------------------------

namespace Method

/-- The errors with which a homotopy starts or fails are told apart, and a direction is computed within a
frame: the rest of the state is not written. -/
structure Frames (M : Method K n m σ) (frame : σ → σ → Prop) : Prop where
  restartable : M.Restartable
  checkLimits : ∀ s e, M.checkLimits s = .error e → e ∈ [.setupBoundFailed, .setupConstraintFailed]
  refl : ∀ s, frame s s
  withStatus : ∀ s s' status, frame s s' → frame s (M.withStatus status s')
  direction : ∀ s, M.determineDirection.Preserves (frame s) fun _ => True
  change : ∀ event, (M.changeWorkingSet event).Preserves (fun _ => True) QpError.OfChange

variable {M : Method K n m σ} {frame : σ → σ → Prop} {s s' : σ}

omit [Scalar K] in
/-- The errors that are reported for a change of the working set. -/
theorem Reported.ofChange {e e' : QpError} (h : M.Reported s e e' s') (he : e.OfChange) :
    e' = .hotstartStoppedInfeasibility ∨ e'.OfChange := by
  cases h with
  | infeasible => exact .inl rfl
  | unbounded => exact .inr he
  | other => exact .inr he

/-- How a step fails: by a broken requirement, without a direction and with everything else as it was, or
because the working set does not follow. -/
theorem Frames.step_failed (hM : M.Frames frame) {index : Nat} {f : Fault}
    (hstep : M.step index s = .error f s') :
    f = .broken ∨ f = .failed .stepDirectionDeterminationFailed ∧ frame s s' ∨
      ∃ e : QpError, f = .failed e ∧ (e = .hotstartStoppedInfeasibility ∨ e.OfChange) := by
  have hfailed := (M.step_spec index s).of_error hstep
  cases hfailed with
  | @undirected e s1 hdirection =>
    -- only the status has been written before the direction, and only the status afterwards
    have hstart := hM.withStatus s s .performingHomotopy (hM.refl s)
    have hleft := (hM.direction s).of_leaves hstart (.inr ⟨_, hdirection⟩)
    exact .inr (.inl ⟨rfl, hM.withStatus _ _ _ hleft⟩)
  | unchanged hdirection hevent hchange hreported =>
    have he := ((hM.change _ _ trivial).of_error hchange).2 _ rfl
    exact .inr (.inr ⟨_, rfl, hreported.ofChange he⟩)
  | directionBroken => exact .inl rfl
  | lengthBroken => exact .inl rfl
  | changeBroken => exact .inl rfl

omit [Scalar K] in
theorem setupError_ne_invalidArguments (e : QpError) : setupError e ≠ .invalidArguments := by
  cases e <;> decide

end Method

-- ---------------------------------------------------------------------------
-- Calls
-- ---------------------------------------------------------------------------

/-- The errors of data that does not fit. -/
def QpError.OfLoading (e : QpError) : Prop :=
  e ∈ [QpError.invalidArguments, .setupBoundFailed, .setupConstraintFailed, .qpAlreadyInitialised]

instance : DecidablePred QpError.OfLoading := fun _ => inferInstanceAs (Decidable (_ ∈ _))

/-- No error of a homotopy is reported as one of data that does not fit. -/
theorem QpError.not_ofLoading_initError (e : QpError) : ¬(Method.initError e).OfLoading := by
  cases e <;> decide

/-- The errors of a solve that is not resumed: there is nothing to start from, or the loaded limits
cross. -/
def QpError.OfResuming (e : QpError) : Prop :=
  e ∈ [QpError.hotstartFailedAsQpNotInitialised, .setupBoundFailed, .setupConstraintFailed]

instance : DecidablePred QpError.OfResuming := fun _ => inferInstanceAs (Decidable (_ ∈ _))

/-- A homotopy does not fail with these errors. -/
theorem QpError.OfResuming.ne {e : QpError} (h : e.OfResuming) :
    ¬e.IsInterruption ∧ e ≠ .hotstartStoppedInfeasibility ∧ ¬e.OfChange ∧
      e ≠ .stepDirectionDeterminationFailed := by
  unfold IsInterruption
  cases e <;> first | exact absurd h (by decide) | decide

namespace Interface

variable {I : Interface K n m σ δ} {frame : σ → σ → Prop} {write : δ → Update σ Unit} {s : σ}

/-- What rejected calls leave of a state, where data is written in place.

`load`: loading data ends as writing it does. `refused`: data that is refused leaves the state as it was.
`solve`: so does a guess of the wrong size. `resume`: so does a solve that is not resumed. `undirected`: a
resumed solve that finds no direction leaves the state after the last of the steps it has made, which are
those its observer has been shown, but for what lies in the frame. -/
structure Rejects (I : Interface K n m σ δ) (write : δ → Update σ Unit) (frame : σ → σ → Prop)
    (s : σ) : Prop where
  load : ∀ d, I.call (.load d) s = (((write d).result s).map fun _ => 0, (write d).left s)
  refused : ∀ d f s', write d s = .error f s' → s' = s ∧ ∃ e : QpError, f = .failed e ∧ e.OfLoading
  solve : ∀ {τ : Type} (obs : Observer K n m τ) (view : τ) (budget : Nat)
    (xGuess yGuess : Option (Array K)) (s' : σ),
    I.call (.solve obs view budget xGuess yGuess) s = (.error (.failed .invalidArguments), s') → s' = s
  resume : ∀ {τ : Type} (obs : Observer K n m τ) (view : τ) (budget : Nat) (e : QpError) (s' : σ),
    e.OfResuming → I.call (.resume obs view budget) s = (.error (.failed e), s') → s' = s
  undirected : ∀ {τ : Type} (obs : Observer K n m τ) (view : τ) (budget : Nat) (s' : σ),
    I.call (.resume obs view budget) s =
        (.error (.failed .stepDirectionDeterminationFailed), s') →
      ∃ its s1, its = ((Call.resume (δ := δ) obs view budget).log I.method s).map (·.1) ∧
        I.method.Made 0 (I.method.clearVerdict s) its s1 ∧ frame s1 s'

/-- A call whose homotopy has begun fails with the error that it reports for the one of the homotopy. -/
theorem failed_of_startsBy {c : Call K n m δ} {start s' : σ} {e : QpError} (h : I.StartsBy s c start)
    (hcall : I.call c s = (.error (.failed e), s')) :
    ∃ e', c.homotopy I.method start = (.error (.failed e'), s') ∧ c.report e' = e := by
  rw [call_of_startsBy h] at hcall
  generalize c.homotopy I.method start = r at hcall
  obtain ⟨f | k, s1⟩ := r
  · cases f with
    | broken => cases hcall
    | failed e' =>
      cases hcall
      exact ⟨e', rfl, rfl⟩
  · cases hcall

/-- A solve from scratch is refused because of its guess, or it cannot be set up, or it goes through its
homotopy. -/
theorem solve_cases (I : Interface K n m σ δ) (s : σ) (obs : Observer K n m τ) (view : τ)
    (budget : Nat) (xGuess yGuess : Option (Array K)) :
    (∃ e, Guess.ofArrays n m xGuess yGuess = .error e ∧
        I.call (.solve obs view budget xGuess yGuess) s = (.error (.failed e), s)) ∨
      (∃ guess f s1 s2, I.method.prepare guess (I.method.reset s) = .error f s1 ∧
        I.call (.solve obs view budget xGuess yGuess) s = (.error (f.mapError Method.setupError), s2) ∧
        (s2 = s1 ∨ s2 = I.method.withStatus .notInitialised s1)) ∨
      ∃ start, I.StartsBy s (.solve obs view budget xGuess yGuess) start := by
  cases hguess : Guess.ofArrays n m xGuess yGuess with
  | error e =>
    refine .inl ⟨e, rfl, ?_⟩
    rw [Interface.call, Method.solve_refused hguess]
    rfl
  | ok guess =>
    cases hprepare : I.method.prepare guess (I.method.reset s) with
    | ok _ s1 => exact .inr (.inr ⟨s1, .prepared hguess hprepare⟩)
    | error f s1 =>
      rw [Interface.call, Method.solve_guessed hguess, hprepare]
      cases f with
      | broken => exact .inr (.inl ⟨guess, _, s1, _, hprepare, rfl, .inl rfl⟩)
      | failed e => exact .inr (.inl ⟨guess, _, s1, _, hprepare, rfl, .inr rfl⟩)

/-- A solve is not begun with a guess of the wrong size. -/
theorem solve_rejected (obs : Observer K n m τ) (view : τ) (budget : Nat)
    (xGuess yGuess : Option (Array K)) {s' : σ}
    (h : I.call (.solve obs view budget xGuess yGuess) s =
      (.error (.failed .invalidArguments), s')) : s' = s := by
  obtain ⟨e, -, hcall⟩ | ⟨guess, f, s1, s2, -, hcall, -⟩ | ⟨start, hstart⟩ :=
    I.solve_cases s obs view budget xGuess yGuess
  · rw [hcall] at h
    exact (congrArg Prod.snd h).symm
  · rw [hcall] at h
    cases f with
    | broken => cases congrArg Prod.fst h
    | failed e =>
      have heq : Method.setupError e = .invalidArguments :=
        Fault.failed.inj (Except.error.inj (congrArg Prod.fst h))
      exact absurd heq (Method.setupError_ne_invalidArguments e)
  · obtain ⟨e', -, he'⟩ := failed_of_startsBy hstart h
    have hne := QpError.not_ofLoading_initError e'
    rw [show Method.initError e' = .invalidArguments from he'] at hne
    exact absurd (by decide) hne

/-- A solve that is resumed goes through its homotopy, or it is not begun: there is nothing to start from,
or the loaded limits are refused. -/
theorem resume_cases (I : Interface K n m σ δ) (s : σ) (obs : Observer K n m τ) (view : τ)
    (budget : Nat) : I.StartsBy s (.resume obs view budget) s ∨
      ∃ e : QpError, (e = .hotstartFailedAsQpNotInitialised ∨ I.method.checkLimits s = .error e) ∧
        I.call (.resume obs view budget) s = (.error (.failed e), s) := by
  by_cases hstart : (I.method.status s).isStart = true
  · cases hlimits : I.method.checkLimits s with
    | ok _ => exact .inl (.resumed hstart hlimits)
    | error e =>
      refine .inr ⟨e, .inr rfl, ?_⟩
      rw [Interface.call, Method.resume_eq, if_pos hstart, hlimits]
      rfl
  · refine .inr ⟨_, .inl rfl, ?_⟩
    rw [Interface.call, Method.resume_eq, if_neg hstart]
    rfl

omit [Scalar K] in
/-- The errors of a resumed solve that is not begun. -/
theorem ofResuming (hM : I.method.Frames frame) {e : QpError}
    (h : e = .hotstartFailedAsQpNotInitialised ∨ I.method.checkLimits s = .error e) :
    e.OfResuming := by
  obtain rfl | hlimits := h
  · decide
  · exact List.mem_cons_of_mem _ (hM.checkLimits s e hlimits)

/-- How a resumed solve fails that has begun. -/
theorem resume_failed (hM : I.method.Frames frame) (obs : Observer K n m τ) (view : τ) (budget : Nat)
    {e : QpError} {s' : σ} (hstart : I.StartsBy s (.resume obs view budget) s)
    (h : I.call (.resume obs view budget) s = (.error (.failed e), s')) :
    (e.IsInterruption ∨ e = .hotstartStoppedInfeasibility ∨ e.OfChange) ∨
      e = .stepDirectionDeterminationFailed ∧
        ∃ its s1, its = ((Call.resume (δ := δ) obs view budget).log I.method s).map (·.1) ∧
          I.method.Made 0 (I.method.clearVerdict s) its s1 ∧ frame s1 s' := by
  have htraced := traced_of_startsBy hstart
  obtain ⟨e', hrun, rfl⟩ := failed_of_startsBy hstart h
  -- the run ends by an interruption or by a step that fails
  rw [hrun] at htraced
  obtain ⟨s1, hmade, ⟨-, hint⟩ | ⟨-, f, hf, -, hstep⟩⟩ := htraced.made hM.restartable
  · obtain ⟨e', heq, he'⟩ := hint _ rfl
    cases heq
    exact .inl (.inl he')
  · cases hf
    obtain heq | ⟨heq, hframe⟩ | ⟨e', heq, he'⟩ := hM.step_failed hstep
    · cases heq
    · cases heq
      exact .inr ⟨rfl, _, s1, rfl, hmade, hframe⟩
    · cases heq
      exact .inl (.inr he')

/-- A resumed solve that has begun does not fail as one that is not begun. -/
theorem not_ofResuming (hM : I.method.Frames frame) (obs : Observer K n m τ) (view : τ) (budget : Nat)
    {e : QpError} {s' : σ} (hstart : I.StartsBy s (.resume obs view budget) s)
    (h : I.call (.resume obs view budget) s = (.error (.failed e), s')) : ¬e.OfResuming := by
  intro he
  obtain ⟨hint, hinfeasible, hchange, hdirection⟩ := he.ne
  obtain (h | h | h) | ⟨h, -⟩ := resume_failed hM obs view budget hstart h
  · exact hint h
  · exact hinfeasible h
  · exact hchange h
  · exact hdirection h

/-- What rejected calls leave, in every state. -/
theorem rejects (hM : I.method.Frames frame)
    (hwrite : ∀ d, write d = Update.atomically fun s => (I.load d s).map (Prod.mk ()))
    (hload : ∀ d, (write d).Preserves (fun _ => True) QpError.OfLoading) (s : σ) :
    I.Rejects write frame s where
  load d := by
    rw [hwrite, Interface.call]
    cases hd : I.load d s with
    | ok s' =>
      have hrun := Update.atomically_map_of_ok hd
      rw [Update.result_of_ok hrun, Update.left_of_ok hrun]
      rfl
    | error e =>
      have hrun := Update.atomically_map_of_error hd
      rw [Update.result_of_error hrun, Update.left_of_error hrun]
      rfl
  refused d f s' h := by
    have herror := ((hload d s trivial).of_error h).2
    rw [hwrite] at h
    obtain ⟨rfl, e, rfl, -⟩ := Update.of_atomically_error h
    exact ⟨rfl, e, rfl, herror e rfl⟩
  solve obs view budget xGuess yGuess s' h := solve_rejected obs view budget xGuess yGuess h
  resume obs view budget e s' he h := by
    -- a homotopy that has started ends with other errors
    obtain hstart | ⟨e', -, hcall⟩ := I.resume_cases s obs view budget
    · exact absurd he (not_ofResuming hM obs view budget hstart h)
    · rw [hcall] at h
      exact (congrArg Prod.snd h).symm
  undirected obs view budget s' h := by
    obtain hstart | ⟨e', he', hcall⟩ := I.resume_cases s obs view budget
    · -- a homotopy that has started and finds no direction has not moved yet
      obtain hother | ⟨-, hleft⟩ := resume_failed hM obs view budget hstart h
      · refine absurd hother ?_
        unfold QpError.IsInterruption
        decide
      · exact hleft
    · rw [hcall] at h
      have heq : e' = .stepDirectionDeterminationFailed :=
        Fault.failed.inj (Except.error.inj (congrArg Prod.fst h))
      exact absurd heq (ofResuming hM he').ne.2.2.2

end Interface

-- ---------------------------------------------------------------------------
-- Both solvers
-- ---------------------------------------------------------------------------

/-- A vector is refused with one error. -/
theorem writeVector_preserves {k : Nat} (infinity : τ → K) (vector : τ → Tuple K k)
    (withVector : τ → Tuple K k → τ) (a : Array K) :
    (writeVector infinity vector withVector a).Preserves (fun _ => True) QpError.OfLoading := by
  unfold writeVector
  refine preserves_get_bind fun t _ => .focus (P := fun _ => True) (fun x _ => ?_)
    (fun _ _ => trivial) fun _ _ _ _ => trivial
  refine (loadInto_ensures (infinity t) a x).mono (fun _ _ _ => trivial) ?_
  rintro f x' ⟨-, rfl, -⟩
  refine ⟨trivial, fun e he => ?_⟩
  cases he
  decide

namespace Core

omit [Scalar K] in
theorem giveUp_preserves {E : QpError → Prop} :
    (giveUp : Update (Core K n m) Unit).Preserves (fun _ => True) E :=
  preserves_get_bind fun _ _ => .ite (fun _ => preserves_modify fun _ _ => trivial)
    fun _ => preserves_pure _

theorem writeBounds_preserves (lower upper : Option (Array K)) :
    (writeBounds lower upper : Update (Core K n m) Unit).Preserves (fun _ => True)
      QpError.OfLoading := by
  unfold writeBounds
  refine .ite (fun _ => preserves_fail (by decide)) fun _ => ?_
  cases lower with
  | none =>
    cases upper with
    | none => exact preserves_pure _
    | some u => exact writeVector_preserves _ _ _ u
  | some l =>
    cases upper with
    | none => exact writeVector_preserves _ _ _ l
    | some u =>
      exact .ite (fun _ => preserves_fail (by decide)) fun _ =>
        .bind (writeVector_preserves _ _ _ l) fun _ => writeVector_preserves _ _ _ u

theorem Loading.write_preserves (d : Loading K) :
    (d.write : Update (Core K n m) Unit).Preserves (fun _ => True) QpError.OfLoading := by
  cases d with
  | parameters p => exact preserves_modify fun _ _ => trivial
  | hessianType t =>
    exact preserves_get_bind fun s _ => .ite (fun _ => preserves_fail (by decide))
      fun _ => preserves_modify fun _ _ => trivial
  | hessian a =>
    rw [write]
    cases Grid.ofArray? n n a with
    | none => exact preserves_fail (by decide)
    | some H => exact .bind (preserves_modify fun _ _ => trivial) fun _ => giveUp_preserves
  | gradient a => exact writeVector_preserves _ _ _ a
  | lower a => exact writeBounds_preserves _ _
  | upper a => exact writeBounds_preserves _ _
  | bounds l u => exact writeBounds_preserves _ _

end Core

theorem Constrained.Loading.write_preserves (d : Constrained.Loading K) :
    (d.write : Update (Constrained K n m) Unit).Preserves (fun _ => True) QpError.OfLoading := by
  cases d with
  | core d => exact .focus d.write_preserves (fun _ _ => trivial) fun _ _ _ _ => trivial
  | matrix a =>
    rw [write]
    cases Grid.ofArray? m n a with
    | none => exact preserves_fail (by decide)
    | some A =>
      exact .bind (preserves_modify fun _ _ => trivial) fun _ =>
        Preserves.focus (P := fun _ => True) Core.giveUp_preserves (fun _ _ => trivial)
          fun _ _ _ _ => trivial
  | rowLower a => exact writeVector_preserves _ _ _ a
  | rowUpper a => exact writeVector_preserves _ _ _ a
  | rowBounds l u =>
    exact .ite (fun _ => preserves_fail (by decide)) fun _ =>
      .ite (fun _ => preserves_fail (by decide)) fun _ =>
        .bind (writeVector_preserves _ _ _ l) fun _ => writeVector_preserves _ _ _ u

omit [Scalar K] in
theorem Core.undirected_ignoresDirection (s : Core K n m) : Core.IgnoresDirection s.Undirected := by
  rintro _ dx' dy' tilt' ⟨status, dx, dy, tilt, rfl⟩
  exact ⟨status, dx', dy', tilt', rfl⟩

omit [Scalar K] in
theorem Constrained.undirected_ignoresDirection (s : Constrained K n m) :
    Constrained.IgnoresDirection s.Undirected := by
  rintro _ dx' dy' tilt' dax' ⟨status, dx, dy, tilt, dax, rfl⟩
  exact ⟨status, dx', dy', tilt', dax', rfl⟩

omit [Scalar K] in
/-- A change of the working set fails with few errors, whatever it changes. -/
theorem Core.ofTask_true : Core.OfTask fun _ : Core K n m => True := fun _ _ _ _ _ _ _ => trivial

theorem Box.frames : (Box.method : Method K n 0 (Box K n)).Frames Core.Undirected where
  restartable := Box.restartable
  checkLimits s e h := by
    rw [Core.checkBounds_error h]
    decide
  refl s := ⟨s.status, s.dx, s.dy, s.tilt, rfl⟩
  withStatus := by
    rintro s _ status ⟨_, dx, dy, tilt, rfl⟩
    exact ⟨status, dx, dy, tilt, rfl⟩
  direction s := Box.determineDirection_preserves s.undirected_ignoresDirection
  change event := Box.changeWorkingSet_preserves Core.ofTask_true event

theorem Constrained.frames :
    (Constrained.method : Method K n m (Constrained K n m)).Frames Constrained.Undirected where
  restartable := Constrained.restartable
  checkLimits s e h := by
    obtain rfl | rfl := Constrained.checkLimits_error h
    · decide
    · decide
  refl s := ⟨s.status, s.dx, s.dy, s.tilt, s.dax, rfl⟩
  withStatus := by
    rintro s _ status ⟨_, dx, dy, tilt, dax, rfl⟩
    exact ⟨status, dx, dy, tilt, dax, rfl⟩
  direction s := Constrained.determineDirection_preserves s.undirected_ignoresDirection
  change event := Constrained.changeWorkingSet_preserves Core.ofTask_true event

/-- Calls that are rejected leave both solvers as they were, in every state and with any arithmetic, and a
resumed solve that finds no direction leaves the state after its last step, but for the status and the
direction. -/
theorem rejected_calls_atomic (K : Type) [Scalar K] (n m : Nat) :
    (∀ s, (Box.interface K n).Rejects Core.Loading.write Core.Undirected s) ∧
      ∀ s, (Constrained.interface K n m).Rejects Constrained.Loading.write Constrained.Undirected s :=
  ⟨Interface.rejects Box.frames Core.Loading.write_eq Core.Loading.write_preserves,
    Interface.rejects Constrained.frames Constrained.Loading.write_eq
      Constrained.Loading.write_preserves⟩

end ActiveSet
