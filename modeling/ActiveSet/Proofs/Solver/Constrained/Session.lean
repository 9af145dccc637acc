import ActiveSet.Proofs.Solver.Constrained.Auxiliary
import ActiveSet.Proofs.Solver.Constrained.Direction
import ActiveSet.Proofs.Solver.Constrained.Exchange
import ActiveSet.Proofs.Solver.Loading

/-!
# The working set of a solver with constraints

The parts of a solve, put together: a step ends in an event that fits the entity it names, and the
working set follows it by one of the changes that `Changed` lists or stops in one of the ways that
`ChangeFailed` lists. All of them leave the sets of entities in order, and those after which a
homotopy can start leave all records of the working set in step (`respects`).

Statements about the numbers build on the same relations, so a change of the working set is taken
apart once, here.
-/

namespace ActiveSet.Constrained

variable {K : Type} [Scalar K] {n m : Nat} {s s' : Constrained K n m}

/-! ## Events -/

omit [Scalar K] in
/-- An event names an entity that can follow it. -/
def Fits (s : Constrained K n m) : StepEvent n m → Prop
  | .full => True
  | .add e side => s.CanEnter side e
  | .remove e => s.CanLeave e

omit [Scalar K] in
theorem Fits.congr {event : StepEvent n m} (h : s.Fits event) (hb : s'.bounds = s.bounds)
    (hc : s'.constraints = s.constraints) : s'.Fits event := by
  cases event with
  | full => trivial
  | add e side => exact CanEnter.congr h hb hc
  | remove e =>
    cases e with
    | bound i =>
      unfold Fits CanLeave
      rw [hb]
      exact h
    | constraint i =>
      unfold Fits CanLeave
      rw [hc]
      exact h

theorem mem_rowBlockers {b : Blocker K n m} :
    b ∈ s.rowBlockers ↔
      ∃ i : Fin m, b ∈ (s.rowCourse i).blockers s.parameters.epsZero (.constraint i) := by
  simp [rowBlockers]

/-- What ends a step is a change that the working set admits. -/
theorem blocker_event {b : Blocker K n m} (hb : b ∈ s.boundBlockers ++ s.rowBlockers) :
    b.event ≠ .full ∧ s.Fits b.event := by
  obtain hb | hb := List.mem_append.1 hb
  · obtain ⟨i, ⟨hevent, hleave⟩ | ⟨side, hevent, henter⟩⟩ := Core.boundBlocker_event hb
    · rw [hevent]
      exact ⟨nofun, hleave⟩
    · rw [hevent]
      exact ⟨nofun, henter⟩
  · obtain ⟨i, hi⟩ := mem_rowBlockers.1 hb
    obtain ⟨hevent, hleave⟩ | ⟨side, hevent, henter⟩ :=
      Course.blocker_event (s := s.constraints) (i := i) rfl rfl rfl hi
    · rw [hevent]
      exact ⟨nofun, hleave⟩
    · rw [hevent]
      exact ⟨nofun, henter⟩

/-- A step goes the whole way, or it ends in an event that the working set can follow. -/
theorem stepLength_cases (s : Constrained K n m) :
    s.stepLength = (1, .full) ∨ s.stepLength.2 ≠ .full ∧ s.Fits s.stepLength.2 := by
  unfold stepLength
  dsimp only
  obtain h | h := firstBlocker_cases (s.boundBlockers ++ s.rowBlockers)
  · rw [h]
    exact .inl rfl
  · exact .inr (blocker_event h)

/-- Following a direction writes point, multipliers, row values and current problem. -/
theorem perform_frame (tau : K) (event : StepEvent n m) (s : Constrained K n m) :
    ∃ x y current ax, s.perform tau event = { s with x, y, current, ax } := by
  obtain ⟨x, y, current, h⟩ := Core.perform_frame tau event s.toCore
  unfold perform
  rw [h]
  exact ⟨x, y, current, _, rfl⟩

theorem status_perform (tau : K) (event : StepEvent n m) (s : Constrained K n m) :
    (s.perform tau event).status = s.status := by
  obtain ⟨x, y, current, ax, h⟩ := perform_frame tau event s
  rw [h]

theorem stepLength_eq_one (h : s.stepLength.2 = .full) : s.stepLength.1 = 1 := by
  obtain hfull | hstop := s.stepLength_cases
  · rw [hfull]
  · exact absurd h hstop.1

/-- The working set can still follow the event at the end of a step. -/
theorem fits_perform (s : Constrained K n m) :
    (s.perform s.stepLength.1 s.stepLength.2).Fits s.stepLength.2 := by
  obtain ⟨x, y, current, ax, hperform⟩ := perform_frame s.stepLength.1 s.stepLength.2 s
  rw [hperform]
  obtain h | h := s.stepLength_cases
  · rw [h]
    trivial
  · exact h.2.congr rfl rfl

/-! ## Changes of the working set -/

/-- The working set has followed an event. -/
inductive Changed (s : Constrained K n m) : StepEvent n m → Constrained K n m → Prop
  | added {e : Entity n m} {side : Activity} {w : PreparedRow K} {s1 s' : Constrained K n m}
    (hreordered : s.Reordered s1) (hw : s1.Prepared w e) (hind : w.independent = true)
    (hentered : s1.Entered side w s' e) : Changed s (.add e side) s'
  | exchanged {e : Entity n m} {side : Activity} {w : PreparedRow K} {s1 s' : Constrained K n m}
    (hreordered : s.Reordered s1) (hw : s1.Prepared w e) (hind : w.independent = false)
    (hexchanged : s1.Exchanged e side w s') : Changed s (.add e side) s'
  | removed {e : Entity n m} {s' : Constrained K n m} (hleft : s.Left e s') :
    Changed s (.remove e) s'

/-- What has been loaded is the same. -/
structure SameData (s s' : Constrained K n m) : Prop where
  parameters : s'.parameters = s.parameters
  hessian : s'.hessian = s.hessian
  matrix : s'.matrix = s.matrix
  target : s'.target = s.target
  hessianType : s'.hessianType = s.hessianType

omit [Scalar K] in
theorem SameData.trans {s'' : Constrained K n m} (h : s.SameData s') (h' : s'.SameData s'') :
    s.SameData s'' :=
  ⟨h'.parameters.trans h.parameters, h'.hessian.trans h.hessian, h'.matrix.trans h.matrix,
    h'.target.trans h.target, h'.hessianType.trans h.hessianType⟩

omit [Scalar K] in
theorem SameData.symm (h : s.SameData s') : s'.SameData s :=
  ⟨h.parameters.symm, h.hessian.symm, h.matrix.symm, h.target.symm, h.hessianType.symm⟩

theorem sameData_reset (s : Constrained K n m) : s.SameData s.reset := ⟨rfl, rfl, rfl, rfl, rfl⟩

theorem Reordered.sameData (h : s.Reordered s') : s.SameData s' := by
  cases h <;> exact ⟨rfl, rfl, rfl, rfl, rfl⟩

theorem Entered.sameData {e : Entity n m} {side : Activity} {w : PreparedRow K}
    (h : s.Entered side w s' e) : s.SameData s' := by
  cases e with
  | bound i =>
    cases (show s.BoundEntered i side w s' from h)
    exact ⟨rfl, rfl, rfl, rfl, rfl⟩
  | constraint i =>
    cases (show s.ConstraintEntered i side w true s' from h)
    exact ⟨rfl, rfl, rfl, rfl, rfl⟩

theorem Left.sameData {e : Entity n m} (h : s.Left e s') : s.SameData s' := by
  obtain ⟨s1, hreleased, -, hextended⟩ := h
  cases hextended
  cases hreleased <;> exact ⟨rfl, rfl, rfl, rfl, rfl⟩

theorem Dependent.sameData {e : Entity n m} {w : PreparedRow K} (h : s.Dependent e w s') :
    s.SameData s' := by
  cases h
  exact ⟨rfl, rfl, rfl, rfl, rfl⟩

omit [Scalar K] in
theorem SameButDirection.sameData (h : s.SameButDirection s') : s.SameData s' := by
  obtain ⟨dx, dy, tilt, dax, rfl⟩ := h
  exact ⟨rfl, rfl, rfl, rfl, rfl⟩

theorem Swapped.sameData {e leaver : Entity n m} {side : Activity} {w w' : PreparedRow K}
    {flip : Bool} {t : K} (h : s.Swapped e side w flip t leaver w' s') : s.SameData s' := by
  obtain ⟨s1, s2, hdependent, -, hleft, -, hreordered⟩ := h.chain
  exact (hdependent.sameData.trans hleft.sameData).trans hreordered.sameData

theorem Changed.sameData {event : StepEvent n m} (h : s.Changed event s') : s.SameData s' := by
  cases h with
  | added hreordered hw hind hentered => exact hreordered.sameData.trans hentered.sameData
  | exchanged hreordered hw hind hexchanged =>
    cases hexchanged with
    | intro hswapped hind' hentered =>
      have hdata := (hreordered.sameData.trans hswapped.sameData).trans hentered.sameData
      exact ⟨hdata.parameters, hdata.hessian, hdata.matrix, hdata.target, hdata.hessianType⟩
  | removed hleft => exact hleft.sameData

theorem Started.sameData {guess : Guess K n m} (h : s.Started guess s') : s.SameData s' := by
  have hframe := h.bounds.frame
  refine ⟨?_, ?_, ?_, ?_, ?_⟩
  · rw [hframe]
  · rw [hframe]
  · obtain ⟨core, constraints, nullSpace, ax, rfl⟩ := h.frame
    rfl
  · rw [hframe]
  · rw [hframe]

/-- The set-up of an auxiliary problem keeps what has been loaded. -/
theorem SetUp.sameData {guess : Guess K n m} (h : s.SetUp guess s') : s.SameData s' := by
  obtain ⟨s1, s2, s3, hstarted, hrows, hfactorized, hstep, rfl⟩ := h.stages
  refine hstarted.sameData.trans ?_
  obtain ⟨constraints, nullSpace, active, rfl⟩ := hrows.frame
  cases hfactorized <;> exact ⟨rfl, rfl, rfl, rfl, rfl⟩

/-- The errors of a working set that cannot follow an event for numerical reasons. -/
def refusals : List QpError := .ensureLiFailedTq :: removalErrors

/-- The working set is refused to follow an event: a system with the null space factorization has a
pivot that is too small, or the factor of the objective's matrix cannot be extended. -/
inductive Refused (s : Constrained K n m) :
    StepEvent n m → QpError → Constrained K n m → Prop
  | undetermined {e : Entity n m} {side : Activity} {w : PreparedRow K} {s1 : Constrained K n m}
    (hreordered : s.Reordered s1) (h : s1.Undetermined w) :
    Refused s (.add e side) .ensureLiFailedTq s1
  | exchange {e leaver : Entity n m} {side : Activity} {w : PreparedRow K} {error : QpError}
    {s1 s2 s' : Constrained K n m} (hreordered : s.Reordered s1) (hw : s1.Prepared w e)
    (hind : w.independent = false) (hdependent : s1.Dependent e w s2)
    (hstranded : s2.Stranded leaver error s') : Refused s (.add e side) error s'
  | removal {e : Entity n m} {error : QpError} {s' : Constrained K n m}
    (hstranded : s.Stranded e error s') : Refused s (.remove e) error s'

/-- The working set cannot follow an event. -/
inductive ChangeFailed (s : Constrained K n m) :
    StepEvent n m → QpError → Constrained K n m → Prop
  | refused {event : StepEvent n m} {error : QpError} {s' : Constrained K n m}
    (herror : error ∈ refusals) (horder : s'.InOrder) (hcause : s.Refused event error s') :
    ChangeFailed s event error s'
  | stuck {e : Entity n m} {side : Activity} {w : PreparedRow K} {s1 s' : Constrained K n m}
    (hreordered : s.Reordered s1) (hw : s1.Prepared w e) (hind : w.independent = false)
    (hstuck : s1.Stuck e side w s') :
    ChangeFailed s (.add e side) e.kind.addFailedInfeasibility s'
  | dependent {e : Entity n m} {side : Activity} {w w' : PreparedRow K} {flip : Bool} {t : K}
    {leaver : Entity n m} {s1 s2 : Constrained K n m} (hreordered : s.Reordered s1)
    (hw : s1.Prepared w e) (hind : w.independent = false)
    (hswapped : s1.Swapped e side w flip t leaver w' s2) (hind' : w'.independent = false) :
    ChangeFailed s (.add e side) e.kind.addFailedInfeasibility { s2 with status := .notInitialised }

/-- The working set follows an event that fits it, or fails to. -/
theorem changeWorkingSet_ensures (hs : s.InStep) {event : StepEvent n m} (hevent : event ≠ .full)
    (hfits : s.Fits event) :
    (changeWorkingSet event).Ensures s (fun _ s' => s.Changed event s' ∧ s'.InStep)
      fun f s' => ∃ error, f = .failed error ∧ s.ChangeFailed event error s' := by
  cases event with
  | full => exact absurd rfl hevent
  | add e side =>
    refine (addEntity_ensures hs hfits).mono ?_ ?_
    · rintro ⟨⟩ s' ⟨hs', w, s1, hreordered, hw, ⟨hind, hentered⟩ | ⟨hind, hexchanged⟩⟩
      · exact ⟨.added hreordered hw hind hentered, hs'⟩
      · exact ⟨.exchanged hreordered hw hind hexchanged, hs'⟩
    · rintro f s' ⟨error, w, s1, rfl, hreordered, hw, hind, hfailed⟩
      refine ⟨error, rfl, ?_⟩
      cases hfailed with
      | unsolved h =>
        exact .refused (List.mem_cons_self ..) (hreordered.inStep hs).toInOrder
          (.undetermined hreordered h)
      | stuck h => exact .stuck hreordered hw hind h
      | removal hdependent hstranded herror horder =>
        exact .refused (List.mem_cons_of_mem _ herror) horder
          (.exchange hreordered hw hind hdependent hstranded)
      | dependent hswapped hind' => exact .dependent hreordered hw hind hswapped hind'
  | remove e =>
    refine (removeEntity_ensures hs hfits).mono ?_ ?_
    · rintro ⟨⟩ s' ⟨hleft, hs'⟩
      exact ⟨.removed hleft, hs'⟩
    · rintro f s' ⟨error, rfl, hstranded, herror, horder⟩
      exact ⟨error, rfl, .refused (List.mem_cons_of_mem _ herror) horder (.removal hstranded)⟩

omit [Scalar K] in
theorem isInfeasibility_addFailed (e : Entity n m) :
    e.kind.addFailedInfeasibility.IsInfeasibility := by
  cases e
  · exact .inl rfl
  · exact .inr rfl

/-- A refusal for numerical reasons is no verdict on the problem. -/
theorem not_isInfeasibility_of_mem_refusals {e : QpError} (h : e ∈ refusals) :
    ¬e.IsInfeasibility ∧ e ≠ .hotstartStoppedInfeasibility := by
  constructor
  · rintro (rfl | rfl) <;> simp [refusals, removalErrors] at h
  · rintro rfl
    simp [refusals, removalErrors] at h

theorem Swapped.inStep {e leaver : Entity n m} {side : Activity} {w w' : PreparedRow K}
    {flip : Bool} {t : K} (h : s.Swapped e side w flip t leaver w' s') : s'.InStep := by
  obtain ⟨s1, s2, -, -, -, hs2, hreordered⟩ := h.chain
  exact hreordered.inStep hs2

theorem Reordered.status_eq (h : s.Reordered s') : s'.status = s.status := by
  cases h <;> rfl

theorem Stuck.inStep {e : Entity n m} {side : Activity} {w : PreparedRow K}
    (h : s.Stuck e side w s') (hs : s.InStep) : s'.InStep := h.dependent.inStep hs

theorem Stuck.status_eq {e : Entity n m} {side : Activity} {w : PreparedRow K}
    (h : s.Stuck e side w s') : s'.status = s.status := by
  cases h.dependent
  rfl

/-! ## Sessions -/

/-- The working set in the course of a session. -/
def workingSetPhases (K : Type) [Scalar K] (n m : Nat) : Phases n m (Constrained K n m) where
  rest := InOrder
  ready := InStep
  moving := InStep
  directed := InStep
  stepped event s := s.InStep ∧ s.Fits event
  arrived := InStep
  blocked _ := True
  refusal e := e ∈ refusals

theorem respects_method (hone : ((1 : K) == 1) = true) :
    (Constrained.method : Method K n m (Constrained K n m)).Respects (workingSetPhases K n m) where
  core_withCore _ _ := rfl
  rest_ignores _ _ _ _ h := h.congr rfl rfl
  ready_ignores _ _ _ _ h := h.congr rfl rfl rfl rfl rfl rfl
  moving_ignores _ _ _ _ h := h.congr rfl rfl rfl rfl rfl rfl
  arrived_ignores _ _ _ _ h := h.congr rfl rfl rfl rfl rfl rfl
  blocked_ignores _ _ _ _ h := h
  rest_of_ready _ h := h.toInOrder
  ready_of_moving _ h := h
  moving_of_arrived _ h := h
  direction s hs := by
    refine (determineDirection_ensures hs).mono ?_ ?_
    · rintro ⟨⟩ s' hdirected
      refine ⟨hdirected.same.inStep hs, ?_⟩
      obtain ⟨dx, dy, tilt, dax, rfl⟩ := hdirected.same
      rfl
    · rintro f s' ⟨hf, hsame, -⟩
      exact ⟨hf, hsame.inStep hs⟩
  full s hs hfull := by
    refine ⟨?_, hs.congr rfl rfl rfl rfl rfl rfl⟩
    rw [show (method.stepLength s).1 = 1 from stepLength_eq_one hfull]
    exact hone
  stop s hs hstop := by
    refine ⟨?_, s.fits_perform⟩
    obtain ⟨x, y, current, ax, hperform⟩ := perform_frame s.stepLength.1 s.stepLength.2 s
    change (s.perform s.stepLength.1 s.stepLength.2).InStep
    rw [hperform]
    exact hs.congr rfl rfl rfl rfl rfl rfl
  status_perform := status_perform
  change event s hevent hs hstatus := by
    refine (changeWorkingSet_ensures hs.1 hevent hs.2).mono (fun _ _ h => h.2) ?_
    rintro f s' ⟨error, rfl, hfailed⟩
    refine ⟨error, rfl, ?_⟩
    -- with nothing to exchange the solver stays where it is, after a failed exchange it starts over
    cases hfailed with
    | refused herror horder =>
      obtain ⟨hinf, hne⟩ := not_isInfeasibility_of_mem_refusals herror
      exact ⟨horder, .inr ⟨hinf, hne, herror⟩⟩
    | stuck hreordered hw hind hstuck =>
      have hs' := hstuck.inStep (hreordered.inStep hs.1)
      refine ⟨hs'.toInOrder, .inl ⟨isInfeasibility_addFailed _, trivial, .inr ⟨?_, hs'⟩⟩⟩
      exact (hstuck.status_eq.trans hreordered.status_eq).trans hstatus
    | dependent hreordered hw hind hswapped hind' =>
      exact ⟨hswapped.inStep.toInOrder.congr rfl rfl,
        .inl ⟨isInfeasibility_addFailed _, trivial, .inl rfl⟩⟩

theorem inOrder_fresh (n m : Nat) : (fresh n m : Constrained K n m).InOrder :=
  ⟨⟨EntitySet.sound_empty _, rfl⟩, EntitySet.sound_empty _, rfl⟩

theorem InOrder.reset (hs : s.InOrder) : s.reset.InOrder :=
  ⟨⟨EntitySet.sound_reset _, hs.capacity⟩, EntitySet.sound_reset _, hs.constraints_capacity⟩

/-- A solve from scratch starts without a working set. -/
theorem prepare_reset_ensures {guess : Guess K n m} (hs : s.InOrder) :
    (prepare guess).Ensures s.reset
      (fun _ s' => s.reset.SetUp guess s' ∧ s'.InStep ∧ s'.status = .auxiliarySolved)
      fun f s' => (∃ e, f = .failed e ∧ s.reset.SetUpFailed guess e) ∧ s'.InOrder :=
  prepare_ensures hs.reset (blank_reset s)

/-- Loaded data leaves the tables in order. -/
theorem Loading.inOrder {d : Loading K} (h : d.apply s = .ok s') (hs : s.InOrder) : s'.InOrder := by
  obtain ⟨_, _, _, _, _, rfl⟩ | ⟨_, _, rfl⟩ := Loading.apply_cases h
  · exact hs.congr rfl rfl
  · exact hs.congr rfl rfl

theorem respects (hone : ((1 : K) == 1) = true) :
    (Constrained.interface K n m).Respects (workingSetPhases K n m) anyCall where
  method := respects_method hone
  fresh := inOrder_fresh n m
  status_fresh := rfl
  rest_load _ _ _ := Loading.inOrder
  ready_load d s s' h := by
    obtain ⟨_, _, _, _, _, rfl⟩ | ⟨_, _, rfl⟩ := Loading.apply_cases h
    · exact .inl rfl
    · exact .inr ⟨rfl, fun hs => hs.congr rfl rfl rfl rfl rfl rfl⟩
  reset s hs := hs.reset
  status_reset _ := rfl
  prepare obs view budget xGuess yGuess s guess _ hs _ :=
    (prepare_reset_ensures hs).mono (fun _ _ h => h.2) fun _ _ h => ⟨h.1.imp fun _ h => h.1, h.2⟩
  resume obs view budget s _ _ hs _ := hs

end ActiveSet.Constrained
