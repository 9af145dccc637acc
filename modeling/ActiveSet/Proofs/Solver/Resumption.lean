import ActiveSet.Proofs.Interruption
import ActiveSet.Proofs.Solver.Consistency

/-!
# Solvers can be interrupted and resumed

No part of a step writes to the loaded problem or to the verdicts on it, and none fails with an error
that stands for an interruption. A set-up that succeeds has seen that the loaded limits do not cross,
which is what a resumed solve checks again. So an interrupted solve that is resumed goes on as if
nothing had happened, for both solvers, in every state and with any arithmetic
(`interruption_neutral`).
-/

namespace ActiveSet

open Update

variable {K : Type} [Scalar K] {n m : Nat} {c : Core K n m}

omit [Scalar K] in
theorem Core.SameTask.congr {s s' : Core K n m} (h : c.SameTask s) (ht : s'.target = s.target)
    (hi : s'.infeasible = s.infeasible) (hu : s'.unbounded = s.unbounded) : c.SameTask s' :=
  h.trans ⟨ht, hi, hu⟩

omit [Scalar K] in
/-- A predicate speaks of nothing but the loaded problem, the current one, and the verdicts. -/
def Core.OfTask (P : Core K n m → Prop) : Prop :=
  ∀ ⦃s s'⦄, P s → s'.target = s.target → s'.current = s.current → s'.infeasible = s.infeasible →
    s'.unbounded = s.unbounded → P s'

omit [Scalar K] in
theorem Core.SameTask.ofTask (c : Core K n m) : Core.OfTask c.SameTask :=
  fun _ _ h ht _ hi hu => h.congr ht hi hu

omit [Scalar K] in
/-- A predicate does not look at the direction. -/
def Core.IgnoresDirection (P : Core K n m → Prop) : Prop :=
  ∀ s dx dy tilt, P s → P { s with dx, dy, tilt }

omit [Scalar K] in
/-- A predicate does not look at the direction, nor at what it does to the values of the constraints. -/
def Constrained.IgnoresDirection (P : Constrained K n m → Prop) : Prop :=
  ∀ s dx dy tilt dax, P s → P { s with dx, dy, tilt, dax }

variable {P : Core K n m → Prop}

omit [Scalar K] in
theorem Core.OfTask.ignoresDirection (hP : Core.OfTask P) : Core.IgnoresDirection P :=
  fun _ _ _ _ hs => hP hs rfl rfl rfl rfl

omit [Scalar K] in
theorem Core.OfTask.ignoresDirection_toCore (hP : Core.OfTask P) :
    Constrained.IgnoresDirection fun s : Constrained K n m => P s.toCore :=
  fun _ _ _ _ _ hs => hP hs rfl rfl rfl rfl

/-- The errors with which a working set fails to follow an event. -/
def QpError.OfChange (e : QpError) : Prop :=
  e ∈ [QpError.addBoundFailed, .addConstraintFailed, .addBoundFailedInfeasibility,
    .addConstraintFailedInfeasibility, .removeBoundFailed, .removeConstraintFailed,
    .ensureLiFailedTq, .stepLengthDeterminationFailed, .hotstartStoppedUnboundedness,
    .hessianNotSpd]

instance : DecidablePred QpError.OfChange := fun _ => inferInstanceAs (Decidable (_ ∈ _))

theorem QpError.OfChange.not_isInterruption {e : QpError} (h : e.OfChange) : ¬e.IsInterruption := by
  rintro (rfl | rfl)
  · exact absurd h (by decide)
  · exact absurd h (by decide)

/-- The errors of a set-up that is past the limits: an entity does not find its place in the working set,
or the matrix of the objective cannot be factorized. -/
def QpError.OfPlacement (e : QpError) : Prop := e = .setupWorkingSetFailed ∨ e = .initFailedCholesky

-- ---------------------------------------------------------------------------
-- Both solvers
-- ---------------------------------------------------------------------------

namespace Core

theorem sameTask_perform (tau : K) (event : StepEvent n m) (s : Core K n m) :
    s.SameTask (s.perform tau event) := by
  unfold perform
  cases event with
  | full => exact ⟨rfl, rfl, rfl⟩
  | add e side => cases e <;> exact ⟨rfl, rfl, rfl⟩
  | remove e => exact ⟨rfl, rfl, rfl⟩

omit [Scalar K] in
theorem extensionError_ofChange (s : Core K n m) {removal : QpError} (hremoval : removal.OfChange)
    (e : QpError) : (s.extensionError removal e).OfChange := by
  unfold extensionError
  split
  · split
    · decide
    · decide
  · exact hremoval

/-- Bounds that have been classified do not cross. -/
theorem classifyBounds_sameTask (s : Core K n m) :
    classifyBounds.Ensures s (fun _ s' => s.SameTask s' ∧ s.checkBounds = .ok ())
      fun _ _ => True := by
  unfold classifyBounds
  -- the bounds not in `rest` have limits in the right order
  refine (ensures_forM (I := fun rest s' => s.SameTask s' ∧
    ∀ i : Fin n, i ∉ rest → ¬s.target.upper i < s.target.lower i) ?_ ?_).mono ?_ fun _ _ h => h
  · rintro i rest s1 ⟨hs1, hdone⟩
    rw [ensures_bind, ensures_get]
    dsimp only
    cases hclass : s1.bounds.classify i (s1.target.lower i) (s1.target.upper i)
        s1.parameters.epsBound s1.parameters.infinity with
    | error e => exact trivial
    | ok r =>
      rw [ofExcept_ok, ensures_bind, ensures_pure, ensures_set]
      refine ⟨hs1.congr rfl rfl rfl, fun j hj => ?_⟩
      by_cases hji : j = i
      · have hordered := (EntitySet.classify_spec hclass).2.1
        rw [hs1.target] at hordered
        rw [hji]
        exact hordered
      · exact hdone j (by simp [hji, hj])
  · exact ⟨.refl s, fun i hi => absurd (List.mem_finRange i) hi⟩
  · intro _ s' h
    refine ⟨h.1, ?_⟩
    rw [checkBounds, not_crosses_iff.2 fun i => h.2 i List.not_mem_nil]
    rfl

theorem activateBounds_preserves (hP : OfTask P) (guess : Guess K n m) :
    (activateBounds guess).Preserves P QpError.OfPlacement := by
  unfold activateBounds
  refine .forM (fun i => preserves_get_bind fun s hs => .ite (fun _ => ?_) fun _ => ?_) _
  · exact .bind (.mapError (F := fun _ => True) (preserves_ofExcept fun _ _ => trivial)
      fun _ _ => .inl rfl) fun bounds => preserves_set (hP hs rfl rfl rfl rfl)
  · exact preserves_pure _

theorem prepareBounds_sameTask (guess : Guess K n m) (s : Core K n m) :
    (prepareBounds guess).Ensures s (fun _ s' => s.SameTask s' ∧ s.checkBounds = .ok ())
      fun _ _ => True := by
  unfold prepareBounds
  refine ensures_bind_of s.classifyBounds_sameTask (fun _ _ h => h) ?_
  rintro ⟨⟩ s1 ⟨hs1, hcheck⟩
  rw [ensures_bind, ensures_modify]
  refine ensures_bind_of (activateBounds_preserves (.ofTask s) guess _ (hs1.congr rfl rfl rfl))
    (fun _ _ _ => trivial) ?_
  rintro ⟨⟩ s2 hs2
  rw [ensures_modify]
  exact ⟨hs2.congr rfl rfl rfl, hcheck⟩

end Core

-- ---------------------------------------------------------------------------
-- Bounds only
-- ---------------------------------------------------------------------------

namespace Box

variable {P : Box K n → Prop}

theorem factorize_preserves (hP : Core.OfTask P) :
    (factorize : Update (Box K n) Unit).Preserves P QpError.OfPlacement := by
  unfold factorize
  refine preserves_get_bind fun s hs => .ite (fun _ => ?_) fun _ => ?_
  · exact .bind (preserves_require _) fun factor => preserves_set (hP hs rfl rfl rfl rfl)
  · refine .bind (preserves_require _) fun r => ?_
    cases r with
    | ok factor => exact preserves_set (hP hs rfl rfl rfl rfl)
    | error f =>
      exact .bind (preserves_set (hP hs rfl rfl rfl rfl)) fun _ => preserves_fail (.inr rfl)

theorem determineDirection_preserves (hP : Core.IgnoresDirection P) :
    (determineDirection : Update (Box K n) Unit).Preserves P fun _ => True := by
  unfold determineDirection
  refine .bind (preserves_modify fun s hs => hP s _ _ _ hs) fun _ =>
    preserves_get_bind fun s _ => ?_
  refine .bind (preserves_ofAttempt fun _ => trivial) fun z =>
    .bind (preserves_ofAttempt fun _ => trivial) fun z => ?_
  exact .bind (preserves_modify fun s hs => hP s _ _ _ hs) fun _ =>
    preserves_modify fun s hs => hP s _ _ _ hs

theorem changeWorkingSet_preserves (hP : Core.OfTask P) (event : StepEvent n 0) :
    (changeWorkingSet event : Update (Box K n) Unit).Preserves P QpError.OfChange := by
  cases event with
  | full => exact preserves_fail (by decide)
  | add e side =>
    cases e with
    | constraint i => exact i.elim0
    | bound i =>
      refine preserves_get_bind fun s hs => ?_
      cases s.free.idxOf? i with
      | none => exact preserves_fail (by decide)
      | some p =>
        refine .bind (.mapError (F := fun _ => True) (preserves_ofExcept fun _ _ => trivial)
          fun _ _ => by decide) fun bounds => .bind (preserves_require _) fun factor => ?_
        exact preserves_set (hP hs rfl rfl rfl rfl)
  -- a release is refused where the factor does not grow
  | remove e =>
    cases e with
    | constraint i => exact i.elim0
    | bound i =>
      refine preserves_get_bind fun s hs => ?_
      refine .bind (.mapError (F := fun _ => True) (preserves_ofExcept fun _ _ => trivial)
          fun _ _ => by decide) fun bounds =>
        .bind (preserves_set (hP hs rfl rfl rfl rfl)) fun _ => .bind (preserves_require _) fun r => ?_
      cases r with
      | ok r => exact preserves_set (hP hs rfl rfl rfl rfl)
      | error f =>
        exact preserves_fail (s.extensionError_ofChange (by decide) f.error)

/-- The set-up of an auxiliary problem. -/
theorem prepare_sameTask (guess : Guess K n 0) (s : Box K n) :
    (prepare guess).Ensures s
      (fun _ s' => s.SameTask s' ∧ s'.status = .auxiliarySolved ∧ s.checkBounds = .ok ())
      fun _ _ => True := by
  unfold prepare
  rw [ensures_bind, ensures_modify]
  refine ensures_bind_of (Core.prepareBounds_sameTask guess _) (fun _ _ _ => trivial) ?_
  rintro ⟨⟩ s1 ⟨hs1, hcheck⟩
  refine ensures_bind_of (factorize_preserves (Core.SameTask.ofTask s1) s1 (.refl s1))
    (fun _ _ _ => trivial) ?_
  rintro ⟨⟩ s2 hs2
  rw [ensures_modify]
  have htask : s.SameTask s2 := Core.SameTask.trans ⟨hs1.target, hs1.infeasible, hs1.unbounded⟩ hs2
  exact ⟨htask.congr rfl rfl rfl, rfl, hcheck⟩

theorem restartable : (method : Method K n 0 (Box K n)).Restartable where
  core_withCore _ _ := rfl
  withCore_core _ := rfl
  checkLimits_congr s s' h := by
    change s'.checkBounds = s.checkBounds
    unfold Core.checkBounds
    rw [show s'.target = s.target from h]
  checkLimits_error s e h := by
    rw [Core.checkBounds_error h]
    rintro (h | h) <;> cases h
  prepare guess s := by
    refine (prepare_sameTask guess s).mono ?_ fun _ _ h => h
    rintro ⟨⟩ s' ⟨htask, hstatus, hcheck⟩
    refine ⟨hstatus, ?_⟩
    change s'.checkBounds = _
    rw [← hcheck]
    unfold Core.checkBounds
    rw [htask.target]
  direction c := determineDirection_preserves (Core.SameTask.ofTask c).ignoresDirection
  perform tau event s := Core.sameTask_perform tau event s
  change c event := (changeWorkingSet_preserves (.ofTask c) event).mono fun _ h =>
    h.not_isInterruption

end Box

-- ---------------------------------------------------------------------------
-- Bounds and constraints
-- ---------------------------------------------------------------------------

namespace Constrained

/-- Only what a task consists of counts. -/
def HasTask (c : Core K n m) (s : Constrained K n m) : Prop := c.SameTask s.toCore

omit [Scalar K] in
theorem HasTask.congr {s s' : Constrained K n m} (h : HasTask c s) (ht : s'.target = s.target)
    (hi : s'.infeasible = s.infeasible) (hu : s'.unbounded = s.unbounded) : HasTask c s' :=
  Core.SameTask.congr h ht hi hu

/-! ### The auxiliary problem -/

/-- Rows that have been classified do not cross. -/
theorem classifyConstraints_hasTask (s : Constrained K n m) :
    classifyConstraints.Ensures s (fun _ s' => HasTask s.toCore s' ∧
      Core.crosses m s.target.rowLower s.target.rowUpper = false) fun _ _ => True := by
  unfold classifyConstraints
  refine (ensures_forM (I := fun rest s' => HasTask s.toCore s' ∧
    ∀ i : Fin m, i ∉ rest → ¬s.target.rowUpper i < s.target.rowLower i) ?_ ?_).mono ?_
    fun _ _ h => h
  · -- the invariant of the loop is that the limits looked at so far are in order
    rintro i rest s1 ⟨hs1, hdone⟩
    rw [ensures_bind, ensures_get]
    dsimp only
    cases hclass : s1.constraints.classify i (s1.target.rowLower i) (s1.target.rowUpper i)
        s1.parameters.epsBound s1.parameters.infinity with
    | error e => exact trivial
    | ok r =>
      rw [ofExcept_ok, ensures_bind, ensures_pure, ensures_set]
      refine ⟨hs1.congr rfl rfl rfl, fun j hj => ?_⟩
      by_cases hji : j = i
      · have hordered := (EntitySet.classify_spec hclass).2.1
        rw [show s1.target = s.target from hs1.target] at hordered
        rw [hji]
        exact hordered
      · exact hdone j (by simp [hji, hj])
  · exact ⟨.refl s.toCore, fun i hi => absurd (List.mem_finRange i) hi⟩
  · exact fun _ s' h => ⟨h.1, Core.not_crosses_iff.2 fun i => h.2 i List.not_mem_nil⟩

theorem prepareConstraint_preserves {E : QpError → Prop} (i : Fin m) :
    (prepareConstraint i).Preserves (fun s => P s.toCore) E := by
  unfold prepareConstraint
  exact preserves_get_bind fun s _ => .bind (preserves_require _) fun w => preserves_pure _

theorem appendConstraint_preserves (hP : Core.OfTask P) {E : QpError → Prop}
    (hE : E .addConstraintFailed) (i : Fin m) (side : Activity) (w : PreparedRow K) (withFactor : Bool) :
    (appendConstraint i side w withFactor).Preserves (fun s => P s.toCore) E := by
  unfold appendConstraint
  refine preserves_get_bind fun s hs => ?_
  refine .bind (.mapError (F := fun _ => True) (preserves_ofExcept fun _ _ => trivial)
    fun _ _ => hE) fun constraints => .bind (preserves_require _) fun r => ?_
  exact .bind (preserves_require _) fun factor => .bind (preserves_require _) fun nullSpace =>
    preserves_set (hP hs rfl rfl rfl rfl)

theorem activateConstraints_preserves (hP : Core.OfTask P) (guess : Guess K n m) :
    (activateConstraints guess).Preserves (fun s => P s.toCore) QpError.OfPlacement := by
  unfold activateConstraints
  refine .forM (fun i => preserves_get_bind fun s hs => .ite (fun _ => ?_) fun _ => ?_) _
  · refine .bind (prepareConstraint_preserves i) fun w => .ite (fun _ => ?_) fun _ => ?_
    · exact .mapError (appendConstraint_preserves hP (E := fun _ => True) trivial i _ w false)
        fun _ _ => .inl rfl
    · exact .ite (fun _ => preserves_fail (.inl rfl)) fun _ => preserves_pure _
  · exact preserves_pure _

theorem factorize_preserves (hP : Core.OfTask P) :
    (factorize : Update (Constrained K n m) Unit).Preserves (fun s => P s.toCore)
      QpError.OfPlacement := by
  unfold factorize
  refine preserves_get_bind fun s hs => .ite (fun _ => ?_) fun _ => ?_
  · exact .bind (preserves_require _) fun factor => preserves_set (hP hs rfl rfl rfl rfl)
  · refine .bind (preserves_require _) fun r => ?_
    cases r with
    | ok factor => exact preserves_set (hP hs rfl rfl rfl rfl)
    | error f =>
      exact .bind (preserves_set (hP hs rfl rfl rfl rfl)) fun _ => preserves_fail (.inr rfl)

/-- The set-up of an auxiliary problem after the bounds. -/
theorem prepare_sameTask (guess : Guess K n m) (s : Constrained K n m) :
    (prepare guess).Ensures s
      (fun _ s' => HasTask s.toCore s' ∧ s'.status = .auxiliarySolved ∧ s.checkLimits = .ok ())
      fun _ _ => True := by
  unfold prepare
  rw [ensures_bind, ensures_modify]
  refine ensures_bind_of (classifyConstraints_hasTask _) (fun _ _ h => h) ?_
  rintro ⟨⟩ s1 ⟨hs1, hrows⟩
  rw [ensures_bind, onCore, ensures_focus]
  refine (Core.prepareBounds_sameTask guess s1.toCore).mono ?_ fun _ _ _ => trivial
  rintro ⟨⟩ core ⟨hcore, hbounds⟩
  have htask1 : HasTask s.toCore s1 := ⟨hs1.target, hs1.infeasible, hs1.unbounded⟩
  have htask : HasTask s.toCore (withCore s1 core) := Core.SameTask.trans htask1 hcore
  have hlimits : s.checkLimits = .ok () := by
    unfold checkLimits
    have hsame : s.toCore.checkBounds = s1.toCore.checkBounds := by
      unfold Core.checkBounds
      rw [show s1.toCore.target = s.toCore.target from htask1.target]
    rw [hsame, hbounds]
    change (if Core.crosses m s.target.rowLower s.target.rowUpper = true then _ else _ :
      Except QpError Unit) = _
    rw [show Core.crosses m s.target.rowLower s.target.rowUpper = false from hrows]
    rfl
  -- nothing in the rest writes to the loaded problem
  rw [ensures_bind, ensures_modify, ensures_bind, ensures_get]
  refine ensures_bind_of (preserves_require (P := HasTask s.toCore) (E := fun _ => True) _ _
    (htask.congr rfl rfl rfl)) (fun _ _ _ => trivial) ?_
  intro nullSpace _ _
  rw [ensures_bind, ensures_set]
  refine ensures_bind_of (activateConstraints_preserves (.ofTask s.toCore) guess _
    (htask.congr rfl rfl rfl))
    (fun _ _ _ => trivial) ?_
  intro _ s3 hs3
  rw [ensures_bind, ensures_modify]
  refine ensures_bind_of (factorize_preserves (.ofTask s.toCore) _ (Core.SameTask.congr hs3 rfl rfl rfl))
    (fun _ _ _ => trivial) ?_
  intro _ s4 hs4
  rw [ensures_bind, ensures_modify, ensures_modify]
  exact ⟨hs4.congr rfl rfl rfl, rfl, hlimits⟩

/-! ### Steps -/

section Direction

variable {Q : Constrained K n m → Prop}

theorem rangeStep_preserves (hQ : IgnoresDirection Q) :
    (rangeStep : Update (Constrained K n m) Unit).Preserves Q fun _ => True := by
  unfold rangeStep
  exact preserves_get_bind fun s hs => .bind (preserves_ofAttempt fun _ => trivial) fun w =>
    preserves_set (hQ s _ _ _ _ hs)

theorem nullStep_preserves (hQ : IgnoresDirection Q) :
    (nullStep : Update (Constrained K n m) Unit).Preserves Q fun _ => True := by
  unfold nullStep
  refine .bind (preserves_modify fun s hs => hQ s _ _ _ _ hs) fun _ =>
    preserves_get_bind fun s hs => .bind (preserves_ofAttempt fun _ => trivial) fun w => ?_
  exact .bind (preserves_ofAttempt fun _ => trivial) fun w => preserves_set (hQ s _ _ _ _ hs)

theorem multiplierStep_preserves (hQ : IgnoresDirection Q) :
    (multiplierStep : Update (Constrained K n m) Unit).Preserves Q fun _ => True := by
  unfold multiplierStep
  exact .bind (preserves_modify fun s hs => hQ s _ _ _ _ hs) fun _ =>
    preserves_get_bind fun s hs => .bind (preserves_ofAttempt fun _ => trivial) fun w =>
      preserves_set (hQ s _ _ _ _ hs)

theorem determineDirection_preserves (hQ : IgnoresDirection Q) :
    (determineDirection : Update (Constrained K n m) Unit).Preserves Q fun _ => True := by
  have hrest : (do
      multiplierStep
      modify fun s => { s with dax := s.matrix.apply 1 s.dx 0 s.dax } :
      Update (Constrained K n m) Unit).Preserves Q fun _ => True :=
    .bind (multiplierStep_preserves hQ) fun _ => preserves_modify fun s hs => hQ s _ _ _ _ hs
  unfold determineDirection
  refine .bind (preserves_modify fun s hs => hQ s _ _ _ _ hs) fun _ =>
    preserves_get_bind fun s hs => .ite (fun _ => preserves_broken_bind) fun _ => ?_
  have hnullRest := Preserves.ite (c := 0 < s.nNull)
    (fun _ => (nullStep_preserves hQ).bind fun _ => hrest) fun _ => hrest
  exact .ite (fun _ => (rangeStep_preserves hQ).bind fun _ => hnullRest) fun _ => hnullRest

end Direction

variable {E : QpError → Prop}

theorem prepareEntity_preserves (hP : Core.OfTask P) (hE : E .addBoundFailed) (e : Entity n m) :
    (prepareEntity e : Update (Constrained K n m) _).Preserves (fun s => P s.toCore) E := by
  cases e with
  | constraint i => exact prepareConstraint_preserves i
  | bound i =>
    refine preserves_get_bind fun s hs => ?_
    cases s.free.idxOf? i with
    | none => exact preserves_fail hE
    | some p =>
      refine .bind (preserves_require _) fun nullSpace =>
        .bind (preserves_set (hP hs rfl rfl rfl rfl)) fun _ => ?_
      exact .bind (preserves_require _) fun w => preserves_pure _

theorem appendEntity_preserves (hP : Core.OfTask P) (hbound : E .addBoundFailed)
    (hrow : E .addConstraintFailed) (e : Entity n m) (side : Activity) (w : PreparedRow K) :
    (appendEntity e side w).Preserves (fun s => P s.toCore) E := by
  cases e with
  | constraint i => exact appendConstraint_preserves hP hrow i side w true
  | bound i =>
    refine preserves_get_bind fun s hs => .bind (.mapError (F := fun _ => True)
      (preserves_ofExcept fun _ _ => trivial) fun _ _ => hbound) fun bounds => ?_
    refine .bind (preserves_require _) fun r => .bind (preserves_require _) fun factor => ?_
    exact .bind (preserves_require _) fun nullSpace => preserves_set (hP hs rfl rfl rfl rfl)

theorem extendFactor_preserves (hP : Core.OfTask P) {removal : QpError}
    (hremoval : removal.OfChange) :
    (extendFactor removal : Update (Constrained K n m) Unit).Preserves (fun s => P s.toCore)
      QpError.OfChange := by
  unfold extendFactor
  refine preserves_get_bind fun s hs => ?_
  refine .ite (fun _ => preserves_broken_bind) fun _ =>
    .bind (preserves_require _) fun z => .bind (preserves_require _) fun r => ?_
  cases r with
  | ok r => exact preserves_set (hP hs rfl rfl rfl rfl)
  | error f =>
    exact .bind (preserves_set (hP hs rfl rfl rfl rfl)) fun _ =>
      preserves_fail (s.extensionError_ofChange hremoval f.error)

theorem removeEntity_preserves (hP : Core.OfTask P) (e : Entity n m) :
    (removeEntity e : Update (Constrained K n m) Unit).Preserves (fun s => P s.toCore)
      QpError.OfChange := by
  cases e with
  | bound i =>
    refine preserves_get_bind fun s hs => .bind (.mapError (F := fun _ => True)
      (preserves_ofExcept fun _ _ => trivial) fun _ _ => by decide)
      fun bounds => .bind (preserves_require _) fun r => ?_
    exact .bind (preserves_set (hP hs rfl rfl rfl rfl)) fun _ =>
      extendFactor_preserves hP (by decide)
  | constraint i =>
    refine preserves_get_bind fun s hs => ?_
    cases s.active.idxOf? i with
    | none => exact preserves_fail (by decide)
    | some p =>
      refine .bind (.mapError (F := fun _ => True) (preserves_ofExcept fun _ _ => trivial)
        fun _ _ => by decide) fun constraints =>
        .bind (preserves_require _) fun nullSpace => ?_
      exact .bind (preserves_set (hP hs rfl rfl rfl rfl)) fun _ =>
        extendFactor_preserves hP (by decide)

theorem withDependency_preserves (hP : Core.OfTask P) (e : Entity n m) (w : PreparedRow K) :
    (withDependency e w).Preserves (fun s => P s.toCore) QpError.OfChange := by
  refine preserves_get_bind fun s hs => ?_
  refine .ite (fun _ => preserves_broken_bind) fun _ => .bind (.mapError (F := fun _ => True)
    (preserves_ofAttempt fun _ => trivial) fun _ _ => by decide) fun xi => ?_
  exact preserves_set (hP hs rfl rfl rfl rfl)

theorem changeWorkingSet_preserves (hP : Core.OfTask P) (event : StepEvent n m) :
    (changeWorkingSet event : Update (Constrained K n m) Unit).Preserves (fun s => P s.toCore)
      QpError.OfChange := by
  have hblocked : ∀ e : Entity n m, e.kind.addFailedInfeasibility.OfChange := by
    intro e
    cases e with
    | bound i => exact (by decide : QpError.OfChange .addBoundFailedInfeasibility)
    | constraint i => exact (by decide : QpError.OfChange .addConstraintFailedInfeasibility)
  have hprepare := fun e : Entity n m =>
    prepareEntity_preserves hP (E := QpError.OfChange) (by decide) e
  have happend := fun e : Entity n m =>
    appendEntity_preserves hP (E := QpError.OfChange) (by decide) (by decide) e
  cases event with
  | full => exact preserves_fail (by decide)
  | remove e => exact removeEntity_preserves hP e
  | add e side =>
    -- an exchange can be blocked before it begins, or after the leaver is gone
    refine .bind (hprepare e) fun w => .ite (fun _ => happend e side w) fun _ => ?_
    refine .bind (withDependency_preserves hP e w) fun _ => preserves_get_bind fun s hs => ?_
    cases (s.directions e side).findSome? fun flip => (s.leaving flip).map (flip, ·) with
    | none => exact preserves_fail (hblocked e)
    | some r =>
      refine .bind (removeEntity_preserves hP _) fun _ => .bind (hprepare e) fun w =>
        .ite (fun _ => ?_) fun _ => ?_
      · exact .bind (happend e side w) fun _ => preserves_modify fun s hs => hP hs rfl rfl rfl rfl
      · exact .bind (preserves_modify fun s hs => hP hs rfl rfl rfl rfl) fun _ =>
          preserves_fail (hblocked e)

theorem checkLimits_congr {s s' : Constrained K n m} (h : s'.target = s.target) :
    s'.checkLimits = s.checkLimits := by
  unfold checkLimits Core.checkBounds
  rw [h]

theorem restartable : (method : Method K n m (Constrained K n m)).Restartable where
  core_withCore _ _ := rfl
  withCore_core _ := rfl
  checkLimits_congr _ _ h := checkLimits_congr h
  checkLimits_error s e h := by
    rcases checkLimits_error h with rfl | rfl
    · rintro (h | h) <;> cases h
    · rintro (h | h) <;> cases h
  prepare guess s := by
    refine (prepare_sameTask guess s).mono ?_ fun _ _ h => h
    rintro _ s' ⟨htask, hstatus, hlimits⟩
    exact ⟨hstatus, (checkLimits_congr htask.target).trans hlimits⟩
  direction c := determineDirection_preserves (Core.SameTask.ofTask c).ignoresDirection_toCore
  perform tau event s := Core.sameTask_perform tau event s.toCore
  change c event := (changeWorkingSet_preserves (.ofTask c) event).mono fun _ h =>
    h.not_isInterruption

end Constrained

/-- Interrupting a solve and resuming it changes nothing, for solvers with bounds only and for
solvers with constraints. The state a solve starts from, the guesses, the observer and the
arithmetic are arbitrary. -/
theorem interruption_neutral (K : Type) [Scalar K] (n m : Nat) :
    (Box.method : Method K n 0 (Box K n)).Resumable ∧
      (Constrained.method : Method K n m (Constrained K n m)).Resumable :=
  ⟨Box.restartable.resumable, Constrained.restartable.resumable⟩

/-- The problem of the session with integers, before it is solved. -/
def integerTask : Constrained Int 2 1 :=
  integerSession.dropLast.foldl (fun s c => ((Constrained.interface Int 2 1).call c s).2)
    (Constrained.interface Int 2 1).fresh

/-- The solve of an integer task from a vertex, with the records of its steps. -/
def integerRun (budget : Nat) :=
  Constrained.method.run (.scratch (some #[0, 0]) none) (.recorder none) budget (integerTask, [])

/-- From the vertex at zero the solution is five steps away. A solve that is interrupted after two of
them is finished by one that resumes, and the records are those of a solve with the budget of
both. -/
theorem interruption_neutral_integers :
    ∃ s1 its s2, integerRun 2 = .error (.failed .maxNwsrReached) (s1, its) ∧
      its.map Iteration.index = [0, 1] ∧ integerRun (2 + 3) = .ok 5 s2 ∧
      integerRun (2 + 3) = mapView (its ++ ·.map (Iteration.later 2)) (mapFault Method.initError
        (mapValue (2 + ·) (Constrained.method.run .previous (.recorder none) 3 (s1, [])))) := by
  have hstopped : (match integerRun 2 with
      | .error (.failed .maxNwsrReached) _ => true
      | _ => false) = true := by decide +kernel
  have hsolved : (match integerRun (2 + 3) with
      | .ok 5 _ => true
      | _ => false) = true := by decide +kernel
  -- how the two runs end is checked, and what they leave behind is taken from the runs themselves
  cases hrun : integerRun 2 with
  | ok k r =>
    rw [hrun] at hstopped
    cases hstopped
  | error f r =>
    rw [hrun] at hstopped
    have hf : f = .failed .maxNwsrReached := by
      split at hstopped
      · next heq =>
        cases heq
        rfl
      · cases hstopped
    subst hf
    cases hrun' : integerRun (2 + 3) with
    | error f' r' =>
      rw [hrun'] at hsolved
      cases hsolved
    | ok k s2 =>
      rw [hrun'] at hsolved
      have hk : k = 5 := by
        split at hsolved
        · next heq =>
          cases heq
          rfl
        · cases hsolved
      subst hk
      obtain ⟨s1, its⟩ := r
      obtain ⟨hnumbers, hresumed⟩ :=
        (interruption_neutral Int 2 1).2.recorded _ 2 3 integerTask s1 its hrun
      exact ⟨s1, its, s2, rfl, hnumbers, rfl, hrun'.symm.trans hresumed⟩

end ActiveSet
