import ActiveSet.Proofs.Solver.Constrained.WorkingSet
import ActiveSet.Solver.Constrained.Auxiliary
import Mathlib.Logic.Relation

/-!
# The auxiliary problem with constraints

The set-up of an auxiliary problem prepares the bounds, starts a null space factorization for the
free variables, lets constraints enter one after the other, and factorizes the objective's matrix
on the null space that is left. `SetUp` describes the state afterwards by these stages, and
`prepare_ensures` says that the records of the working set agree then, and that a failure at any
stage leaves the sets of entities in order.

* `start`, `finish`: the set-up up to the first constraint, and from there on.
* `Started`: the state before the first constraint enters.
* `Enrolls`, `RowsActivated`: the entry of the constraints.
* `Factorized`: the factorization of the objective's matrix.
-/

namespace ActiveSet.Constrained

variable {K : Type} [Scalar K] {n m : Nat} {s s' : Constrained K n m} {guess : Guess K n m}

/-! ## Classification -/

theorem classifyConstraints_ensures (hs : s.constraints.Sound)
    (hinactive : ∀ i : Fin m, s.constraints.isActive i = false) :
    classifyConstraints.Ensures s
      (fun _ s' => ∃ c : EntitySet .constraint m, s' = { s with constraints := c } ∧
        c.partition.capacity = s.constraints.partition.capacity ∧
        c.ClassifiedExcept s.target.rowLower s.target.rowUpper s.parameters.epsBound
          s.parameters.infinity [])
      fun f s' => f = .failed .setupConstraintFailed ∧ ∃ c : EntitySet .constraint m,
        s' = { s with constraints := c } ∧
        c.partition.capacity = s.constraints.partition.capacity ∧ c.Sound := by
  unfold classifyConstraints
  -- the constraints in `rest` have not been looked at yet
  refine Update.ensures_forM
    (I := fun rest s' => ∃ c : EntitySet .constraint m, s' = { s with constraints := c } ∧
      c.partition.capacity = s.constraints.partition.capacity ∧
      c.ClassifiedExcept s.target.rowLower s.target.rowUpper s.parameters.epsBound
        s.parameters.infinity rest) ?_ ?_
  · rintro i rest _ ⟨c, rfl, hcap, hc⟩
    rw [Update.ensures_bind, Update.ensures_get]
    dsimp only
    cases hclass : c.classify i (s.target.rowLower i) (s.target.rowUpper i) s.parameters.epsBound
        s.parameters.infinity with
    | error e =>
      rw [Update.ofExcept_error, Update.ensures_bind, Update.ensures_fail]
      exact ⟨congrArg Fault.failed (EntitySet.classify_error hclass), c, rfl, hcap, hc.sound⟩
    | ok r =>
      obtain ⟨t, c'⟩ := r
      rw [Update.ofExcept_ok, Update.ensures_bind, Update.ensures_pure, Update.ensures_set]
      refine ⟨c', rfl, ?_, hc.classify hclass⟩
      rw [← hcap, (EntitySet.classify_spec hclass).2.2.2.1]
  · exact ⟨s.constraints, rfl, rfl, EntitySet.classifiedExcept_all hs hinactive⟩

theorem classifyConstraints_ok (hunknown : ∀ i : Fin m, s.constraints.limitType i = .unknown)
    (hordered : ∀ i : Fin m, ¬s.target.rowUpper i < s.target.rowLower i) :
    classifyConstraints.Ensures s (fun _ _ => True) fun _ _ => False := by
  unfold classifyConstraints
  refine Update.ensures_forM_of (I := fun (rest : List (Fin m)) s' => rest.Nodup ∧
    ∃ c : EntitySet .constraint m, s' = { s with constraints := c } ∧
      ∀ i ∈ rest, c.limitType i = .unknown) ?_ (fun _ _ => trivial) ?_
  · rintro i rest _ ⟨hnodup, c, rfl, hc⟩
    obtain ⟨hnotin, hnodup⟩ := List.nodup_cons.1 hnodup
    obtain ⟨t, c', hclass⟩ := EntitySet.classify_of s.parameters.epsBound
      s.parameters.infinity (hc i List.mem_cons_self) (hordered i)
    rw [Update.ensures_bind, Update.ensures_get]
    dsimp only
    rw [hclass, Update.ofExcept_ok, Update.ensures_bind, Update.ensures_pure, Update.ensures_set]
    refine ⟨hnodup, c', rfl, fun j hj => ?_⟩
    have hne : j ≠ i := fun heq => hnotin (heq ▸ hj)
    rw [(EntitySet.classify_spec hclass).2.2.2.2.1, if_neg hne]
    exact hc j (List.mem_cons_of_mem i hj)
  · exact ⟨List.nodup_finRange m, s.constraints, rfl, fun i _ => hunknown i⟩

/-! ## Entry of the constraints -/

/-- A constraint has entered before the objective's matrix has been factorized. -/
inductive Enrolls (s : Constrained K n m) : Constrained K n m → Prop
  | intro {i : Fin m} {side : Activity} {w : PreparedRow K} {s' : Constrained K n m}
    (hs : s.Listed) (hw : s.Prepared w (.constraint i)) (hind : w.independent = true)
    (h : s.ConstraintEntered i side w false s') : Enrolls s s'

/-- The constraints in the course of their activation: those of a list are still to come. -/
structure RowsActivated (guess : Guess K n m) (s s' : Constrained K n m) (rest : List (Fin m)) :
    Prop where
  nodup : rest.Nodup
  listed : s'.Listed
  entered : Relation.ReflTransGen Enrolls s s'
  frame : ∃ constraints nullSpace active, s' = { s with constraints, nullSpace, active }
  types : s'.constraints.types = s.constraints.types
  finite : s'.constraints.finite = s.constraints.finite
  to_come : ∀ i ∈ rest, s'.constraints.activity i = .inactive
  activity : ∀ i : Fin m, s'.constraints.activity i = .inactive ∨
    s'.constraints.activity i = s.startingSide guess i
  equality : ∀ i : Fin m, i ∉ rest → s'.constraints.limitType i = .equality →
    s'.constraints.isActive i = true

/-- An equality starts at its lower limit. -/
theorem startingSide_equality {i : Fin m} (h : s.constraints.limitType i = .equality) :
    s.startingSide guess i = .lower := by
  simp [startingSide, h, guessedActivity]

theorem RowsActivated.startingSide_eq {rest : List (Fin m)} (h : s.RowsActivated guess s' rest)
    (i : Fin m) : s'.startingSide guess i = s.startingSide guess i := by
  obtain ⟨constraints, nullSpace, active, rfl⟩ := h.frame
  have htype : constraints.limitType i = s.constraints.limitType i := by
    simp only [EntitySet.limitType, show constraints.types = s.constraints.types from h.types]
  unfold startingSide
  rw [htype]

/-- A constraint that stays outside has been looked at. -/
theorem RowsActivated.skip {i : Fin m} {rest : List (Fin m)}
    (h : s.RowsActivated guess s' (i :: rest))
    (hi : s'.constraints.limitType i ≠ .equality) : s.RowsActivated guess s' rest where
  nodup := (List.nodup_cons.1 h.nodup).2
  listed := h.listed
  entered := h.entered
  frame := h.frame
  types := h.types
  finite := h.finite
  to_come j hj := h.to_come j (List.mem_cons_of_mem i hj)
  activity := h.activity
  equality j hj htype := by
    refine h.equality j ?_ htype
    rintro hmem
    obtain rfl | hmem := List.mem_cons.1 hmem
    · exact hi htype
    · exact hj hmem

/-- A constraint that has entered has been looked at. -/
theorem RowsActivated.enter {i : Fin m} {rest : List (Fin m)} {w : PreparedRow K}
    {s'' : Constrained K n m} (h : s.RowsActivated guess s' (i :: rest))
    (hw : s'.Prepared w (.constraint i)) (hind : w.independent = true)
    (hentered : s'.ConstraintEntered i (s.startingSide guess i) w false s'')
    (hlisted : s''.Listed) : s.RowsActivated guess s'' rest := by
  have hstart := h.startingSide_eq i
  have henroll : s'.Enrolls s'' := .intro h.listed hw hind hentered
  cases hentered with
  | @intro constraints gs row factor nullSpace hactivate hrow hfactor hnull =>
    rw [if_neg Bool.false_ne_true] at hfactor
    cases hfactor
    obtain ⟨-, -, side', hfor, hmoved⟩ :=
      EntitySet.activate_spec h.listed.constraints_sound hactivate
    -- an equality starts at its lower limit, so every constraint gets the side it asks for
    have hside : side' = s.startingSide guess i := by
      refine EntitySet.sideFor_eq hfor fun htype => ?_
      rw [← hstart]
      exact startingSide_equality htype
    subst hside
    obtain ⟨hnotin, hnodup⟩ := List.nodup_cons.1 h.nodup
    refine ⟨hnodup, hlisted, h.entered.tail henroll, ?_, hmoved.types.trans h.types,
      hmoved.finite.trans h.finite, fun j hj => ?_, fun j => ?_, fun j hj htype => ?_⟩
    · obtain ⟨_, _, _, rfl⟩ := h.frame
      exact ⟨_, _, _, rfl⟩
    · have hne : j ≠ i := fun heq => hnotin (heq ▸ hj)
      rw [hmoved.activity, if_neg hne]
      exact h.to_come j (List.mem_cons_of_mem i hj)
    · rw [hmoved.activity]
      split
      · next hji => exact .inr (hji ▸ rfl)
      · exact h.activity j
    · rw [hmoved.isActive]
      split
      · next hji =>
        subst hji
        rw [hmoved.limitType] at htype
        rw [← hstart, startingSide_equality htype]
        rfl
      · next hji =>
        rw [hmoved.limitType] at htype
        refine h.equality j ?_ htype
        simp [hji, hj]

theorem activateConstraints_ensures (hs : s.Listed)
    (hinactive : ∀ i : Fin m, s.constraints.activity i = .inactive) :
    (activateConstraints guess).Ensures s (fun _ s' => s.RowsActivated guess s' [])
      fun f s' => f = .failed .setupWorkingSetFailed ∧ s'.InOrder := by
  unfold activateConstraints
  refine Update.ensures_forM (I := fun rest s' => s.RowsActivated guess s' rest) ?_ ?_
  · intro i rest s1 hs1
    have hstart := hs1.startingSide_eq i
    rw [Update.ensures_bind, Update.ensures_get]
    dsimp only
    rw [hstart, Update.ensures_ite]
    constructor
    · -- a constraint that starts in the working set
      intro hside
      refine Update.ensures_bind_of (prepareConstraint_ensures hs1.listed i)
        (fun _ _ h => h.elim) ?_
      rintro w _ ⟨rfl, hw⟩
      rw [Update.ensures_ite]
      constructor
      · -- its row is independent, so it enters
        intro hind
        rw [Update.ensures_mapError]
        refine (appendConstraint_ensures hs1.listed false hw hind nofun).mono ?_ ?_
        · rintro ⟨⟩ s2 ⟨hentered, hlisted, -⟩
          exact hs1.enter hw hind hentered hlisted
        · rintro f s2 ⟨rfl, rfl, -⟩
          exact ⟨rfl, hs1.listed.toInOrder⟩
      · -- its row is dependent, which is fatal for an equality only
        intro _
        rw [Update.ensures_ite]
        constructor
        · intro _
          rw [Update.ensures_fail]
          exact ⟨rfl, hs1.listed.toInOrder⟩
        · intro htype
          exact hs1.skip htype
    · -- a constraint that stays outside, so no equality
      intro hside
      refine hs1.skip fun htype => hside ?_
      rw [← hstart, startingSide_equality htype]
      rfl
  · refine ⟨List.nodup_finRange m, hs, .refl, ⟨_, _, _, rfl⟩, rfl, rfl, fun i _ => hinactive i,
      fun i => .inl (hinactive i), fun i hi => absurd (List.mem_finRange i) hi⟩

/-! ## Factorization of the objective's matrix -/

/-- The objective's matrix, restricted to the null space. -/
def reducedHessian (s : Constrained K n m) (i j : Nat) : K :=
  sum s.free.length fun p => s.nullSpace.q p i * s.hessianTimesNullSpace p j

/-- The objective's matrix has been factorized on the null space. -/
inductive Factorized (s : Constrained K n m) : Constrained K n m → Prop
  | identity {factor : Cholesky K n} (hidentity : s.identityHessian = true)
    (hfactor : s.factor.identity? s.nNull = some factor) : Factorized s { s with factor }
  | computed {factor : Cholesky K n} (hidentity : s.identityHessian = false)
    (hfactor : s.factor.factorize? s.nNull s.reducedHessian s.parameters.epsDefinite =
      some (.ok factor)) : Factorized s { s with factor }

/-- A pivot of the objective's matrix on the null space is too small. -/
def Unfactorized (s : Constrained K n m) : Prop :=
  ∃ f, s.factor.factorize? s.nNull s.reducedHessian s.parameters.epsDefinite = some (.error f)

theorem factorize_ensures (hs : s.Listed) :
    factorize.Ensures s
      (fun _ s' => s.Factorized s' ∧ s'.factor.dim = s'.nNull ∧ ∃ factor, s' = { s with factor })
      fun f s' => (f = .failed .initFailedCholesky ∧ s.Unfactorized) ∧
        ∃ factor, s' = { s with factor } := by
  have hnull : s.nNull ≤ n := by
    have := hs.nNull_add
    have := hs.length_free_le
    omega
  unfold factorize
  rw [Update.ensures_bind, Update.ensures_get, Update.ensures_ite]
  constructor
  · intro hidentity
    obtain ⟨factor, hfactor, hdim⟩ := Cholesky.identity?_of (f := s.factor) hnull
    rw [hfactor, Update.require_some, Update.ensures_bind, Update.ensures_pure, Update.ensures_set]
    exact ⟨.identity hidentity hfactor, hdim, factor, rfl⟩
  · intro hidentity
    dsimp only
    rw [Update.ensures_bind]
    change Update.Ensures (Update.require
      (s.factor.factorize? s.nNull s.reducedHessian s.parameters.epsDefinite)) s _ _
    obtain ⟨factor, hfactor, hdim⟩ | ⟨e, herror⟩ :=
      Cholesky.factorize?_of (f := s.factor) s.reducedHessian s.parameters.epsDefinite hnull
    · rw [hfactor, Update.require_some, Update.ensures_pure, Update.ensures_set]
      exact ⟨.computed (by simpa using hidentity) hfactor, hdim, factor, rfl⟩
    · rw [herror, Update.require_some, Update.ensures_pure, Update.ensures_bind,
        Update.ensures_set, Update.ensures_fail]
      exact ⟨⟨rfl, e, herror⟩, e.left, rfl⟩

/-! ## The whole set-up -/

/-- All entities have been classified, the bounds have been prepared, and the null space is that of
no constraint at all. -/
structure Started (guess : Guess K n m) (s s' : Constrained K n m) : Prop where
  bounds : Core.BoundsPrepared guess { s.toCore with status := .preparingAuxiliary } s'.toCore
  rows : s'.constraints.ClassifiedBy s.target.rowLower s.target.rowUpper s.parameters.epsBound
    s.parameters.infinity
  rows_inactive : ∀ i : Fin m, s'.constraints.activity i = .inactive
  ax_eq : s'.ax = s.matrix.apply 1 s'.x 0 s.ax
  nullSpace_eq : s.nullSpace.reset? s'.free.length = some s'.nullSpace
  listed : s'.Listed
  frame : ∃ core constraints nullSpace ax,
    s' = { s with toCore := core, constraints, nullSpace, ax }

/-- The state after the multipliers of the constraints have been cut down to what the working set
admits. -/
def withAdmissibleRows (s : Constrained K n m) (guess : Guess K n m) : Constrained K n m :=
  { s with y := ⟨s.y.bound, s.admissibleRowMultipliers guess⟩ }

/-- The auxiliary problem has been set up. -/
structure SetUp (guess : Guess K n m) (s s' : Constrained K n m) : Prop where
  stages : ∃ s1 s2 s3, s.Started guess s1 ∧ s1.RowsActivated guess s2 [] ∧
    (s2.withAdmissibleRows guess).Factorized s3 ∧ s3.InStep ∧
    s' = { { s3 with toCore := s3.toCore.auxiliaryData }.auxiliaryRowData with
      status := .auxiliarySolved }

/-- How a set-up fails: limits or a guess are refused, or the objective's matrix has no factor. -/
inductive SetUpFailed (guess : Guess K n m) (s : Constrained K n m) : QpError → Prop
  | refused {e : QpError} (he : e ∈ setupRefusals) : SetUpFailed guess s e
  | unfactorized {s1 s2 : Constrained K n m} (hstarted : s.Started guess s1)
    (hrows : s1.RowsActivated guess s2 []) (h : (s2.withAdmissibleRows guess).Unfactorized) :
    SetUpFailed guess s .initFailedCholesky

/-- The state with classified constraints, prepared bounds and the null space of all free variables is
the one in which the first constraint can enter. -/
theorem started_of (hs : s.InOrder) (hactive : s.active = []) {core : Core K n m}
    {c : EntitySet .constraint m} {nullSpace : NullSpace K n m}
    (hcore : Core.BoundsPrepared guess { s.toCore with status := .preparingAuxiliary } core)
    (hc : c.ClassifiedExcept s.target.rowLower s.target.rowUpper s.parameters.epsBound
      s.parameters.infinity [])
    (hcap : c.partition.capacity = s.constraints.partition.capacity)
    (hnull : s.nullSpace.reset? core.free.length = some nullSpace) :
    s.Started guess { s with
      toCore := core, constraints := c, nullSpace, ax := s.matrix.apply 1 core.x 0 s.ax } := by
  have hfree := hcore.freeInStep
  have hinactive : ∀ i : Fin m, c.activity i = .inactive :=
    fun i => (hc.done i List.not_mem_nil).1
  -- no constraint is active yet, so the null space has all free variables as its directions
  obtain ⟨f, hf, hnFree, hnActive⟩ := NullSpace.reset?_of (f := s.nullSpace) hfree.length_free_le
  rw [hnull] at hf
  cases hf
  refine ⟨hcore, hc.classifiedBy, hinactive, rfl, hnull, ?_, _, _, _, _, rfl⟩
  refine ⟨⟨⟨hcore.sound, hcore.capacity.trans hs.capacity⟩, hc.sound,
    hcap.trans hs.constraints_capacity⟩, hfree, ⟨?_, fun i => ?_⟩, fun i => ?_, hnFree, ?_⟩
  · rw [hactive]
    exact List.nodup_nil
  · rw [hactive, EntitySet.isActive, hinactive]
    simp [Activity.isActive]
  · rw [(hc.classifiedBy i).2.1]
    exact EntitySet.typeOfLimits_ne_unknown _ _
  · rw [hnActive, hactive]
    rfl

/-- The first part of the set-up, after which the first constraint can enter. -/
def start (guess : Guess K n m) : Update (Constrained K n m) Unit := do
  modify fun s => { s with status := .preparingAuxiliary }
  classifyConstraints
  onCore (Core.prepareBounds guess)
  modify withRowValues
  let s ← get
  let nullSpace ← Update.require (s.nullSpace.reset? s.free.length)
  set { s with nullSpace }

/-- The second part of the set-up, which starts with the entry of the constraints. -/
def finish (guess : Guess K n m) : Update (Constrained K n m) Unit := do
  activateConstraints guess
  modify fun s => { s with y := ⟨s.y.bound, s.admissibleRowMultipliers guess⟩ }
  factorize
  modify fun s => { s with toCore := s.toCore.auxiliaryData }.auxiliaryRowData
  modify fun s => { s with status := .auxiliarySolved }

/-- The set-up consists of these two parts. -/
theorem prepare_ensures_iff {Q : Unit → Constrained K n m → Prop}
    {E : Fault → Constrained K n m → Prop} : (prepare guess).Ensures s Q E ↔
      (start guess).Ensures s (fun _ s1 => (finish guess).Ensures s1 Q E) E := by
  simp only [prepare, start, finish, Update.ensures_bind]

omit [Scalar K] in
/-- No entity is in the working set, and none has been classified. -/
structure Blank (s : Constrained K n m) : Prop where
  bound_inactive : ∀ i : Fin n, s.bounds.isActive i = false
  bound_unknown : ∀ i : Fin n, s.bounds.limitType i = .unknown
  row_inactive : ∀ i : Fin m, s.constraints.isActive i = false
  row_unknown : ∀ i : Fin m, s.constraints.limitType i = .unknown
  active_eq : s.active = []

theorem blank_reset (s : Constrained K n m) : s.reset.Blank where
  bound_inactive i := congrArg Activity.isActive (EntitySet.activity_reset s.bounds i)
  bound_unknown i := EntitySet.limitType_reset s.bounds i
  row_inactive i := congrArg Activity.isActive (EntitySet.activity_reset s.constraints i)
  row_unknown i := EntitySet.limitType_reset s.constraints i
  active_eq := rfl

/-- The first part of the set-up leads to where the first constraint can enter, or limits or the guess
are refused. -/
theorem start_ensures (hs : s.InOrder) (hblank : s.Blank) : (start guess).Ensures s (fun _ s1 => s.Started guess s1)
      fun f s' => (∃ e ∈ setupRefusals, f = .failed e) ∧ s'.InOrder := by
  unfold start
  rw [Update.ensures_bind, Update.ensures_modify]
  refine Update.ensures_bind_of (classifyConstraints_ensures hs.constraints_sound hblank.row_inactive)
    ?_ ?_
  · rintro f _ ⟨hf, c, rfl, hcap, hc⟩
    exact ⟨⟨_, by simp [setupRefusals], hf⟩, hs.toBoundsInOrder.congr rfl, hc,
      hcap.trans hs.constraints_capacity⟩
  rintro ⟨⟩ _ ⟨c, rfl, hcap, hc⟩
  rw [Update.ensures_bind, onCore, Update.ensures_focus]
  refine (Core.prepareBounds_ensures (s := { s.toCore with status := .preparingAuxiliary }) guess
    hs.sound hblank.bound_inactive).mono ?_ ?_
  · -- the bounds are placed, and the factors start with all columns of the free variables
    rintro ⟨⟩ core hcore
    obtain ⟨nullSpace, hnullSpace, -, -⟩ :=
      NullSpace.reset?_of (f := s.nullSpace) hcore.freeInStep.length_free_le
    rw [Update.ensures_bind, Update.ensures_modify, Update.ensures_bind, Update.ensures_get]
    change Update.Ensures (Update.require (s.nullSpace.reset? core.free.length) >>= _) _ _ _
    rw [hnullSpace, Update.require_some, Update.ensures_bind, Update.ensures_pure,
      Update.ensures_set]
    exact started_of hs hblank.active_eq hcore hc hcap hnullSpace
  · rintro f core ⟨he, hsound, hcore⟩
    exact ⟨he, ⟨hsound, hcore.trans hs.capacity⟩, hc.sound, hcap.trans hs.constraints_capacity⟩

/-- The first part of the set-up succeeds if no limits cross and the guess asks only for sides at which
the bounds have limits. -/
theorem start_ok (hs : s.InOrder) (hblank : s.Blank)
    (hbounds : ∀ i : Fin n, ¬s.target.upper i < s.target.lower i)
    (hrows : ∀ i : Fin m, ¬s.target.rowUpper i < s.target.rowLower i)
    (hside : ∀ b : EntitySet .bound n, b.ClassifiedBy s.target.lower s.target.upper
      s.parameters.epsBound s.parameters.infinity →
        Core.Placeable { s.toCore with bounds := b } guess) :
    (start guess).Ensures s (fun _ _ => True) fun _ _ => False := by
  unfold start
  rw [Update.ensures_bind, Update.ensures_modify]
  refine Update.ensures_bind_of ((classifyConstraints_ensures
    (s := { s with status := .preparingAuxiliary }) hs.constraints_sound hblank.row_inactive).and
    (classifyConstraints_ok hblank.row_unknown hrows)) (fun _ _ h => h.2) ?_
  rintro ⟨⟩ _ ⟨⟨c, rfl, -, -⟩, -⟩
  rw [Update.ensures_bind, onCore, Update.ensures_focus]
  refine ((Core.prepareBounds_ensures (s := { s.toCore with status := .preparingAuxiliary }) guess
    hs.sound hblank.bound_inactive).and (Core.prepareBounds_ok (hs.toBoundsInOrder.congr rfl)
    hblank.bound_inactive hblank.bound_unknown hbounds hside)).mono ?_ fun _ _ h => h.2
  rintro ⟨⟩ core ⟨hcore, -⟩
  obtain ⟨nullSpace, hnullSpace, -, -⟩ :=
    NullSpace.reset?_of (f := s.nullSpace) hcore.freeInStep.length_free_le
  rw [Update.ensures_bind, Update.ensures_modify, Update.ensures_bind, Update.ensures_get]
  change Update.Ensures (Update.require (s.nullSpace.reset? core.free.length) >>= _) _ _ _
  rw [hnullSpace, Update.require_some, Update.ensures_bind, Update.ensures_pure, Update.ensures_set]
  trivial

/-- The second part of the set-up succeeds, or the guess is refused, or the objective's matrix has no
factor. -/
theorem finish_ensures {s1 : Constrained K n m} (hstarted : s.Started guess s1) :
    (finish guess).Ensures s1
      (fun _ s' => s.SetUp guess s' ∧ s'.InStep ∧ s'.status = .auxiliarySolved)
      fun f s' => (∃ e, f = .failed e ∧ s.SetUpFailed guess e) ∧ s'.InOrder := by
  unfold finish
  refine Update.ensures_bind_of (activateConstraints_ensures hstarted.listed
    hstarted.rows_inactive) ?_ ?_
  · rintro f s' ⟨hf, horder⟩
    exact ⟨⟨_, hf, .refused (by simp [setupRefusals])⟩, horder⟩
  rintro ⟨⟩ s2 hs2
  rw [Update.ensures_bind, Update.ensures_modify]
  have hlisted : (s2.withAdmissibleRows guess).Listed := hs2.listed.congr rfl rfl rfl rfl rfl
  refine Update.ensures_bind_of (factorize_ensures hlisted) ?_ ?_
  · -- the rows are in, and only the reduced Hessian can still be refused
    rintro f _ ⟨⟨hf, hunfactorized⟩, factor, rfl⟩
    exact ⟨⟨_, hf, .unfactorized hstarted hs2 hunfactorized⟩, hlisted.toInOrder.congr rfl rfl⟩
  rintro ⟨⟩ s3 ⟨hfactorized, hdim, factor, rfl⟩
  rw [Update.ensures_bind, Update.ensures_modify, Update.ensures_modify]
  have hstep : InStep { s2.withAdmissibleRows guess with factor } :=
    ⟨hlisted.congr rfl rfl rfl rfl rfl, fun i => hs2.equality i List.not_mem_nil, hdim⟩
  exact ⟨⟨_, s2, _, hstarted, hs2, hfactorized, hstep, rfl⟩,
    hstep.congr rfl rfl rfl rfl rfl rfl, rfl⟩

/-- The set-up of an auxiliary problem breaks no requirement. Where it succeeds, the records of the
working set agree, and where it fails, the sets of entities are still in order. -/
theorem prepare_ensures (hs : s.InOrder) (hblank : s.Blank) :
    (prepare guess).Ensures s
      (fun _ s' => s.SetUp guess s' ∧ s'.InStep ∧ s'.status = .auxiliarySolved)
      fun f s' => (∃ e, f = .failed e ∧ s.SetUpFailed guess e) ∧ s'.InOrder := by
  rw [prepare_ensures_iff]
  refine (start_ensures hs hblank).mono (fun _ s1 hs1 => finish_ensures hs1) ?_
  rintro f s' ⟨⟨e, he, rfl⟩, horder⟩
  exact ⟨⟨e, rfl, .refused he⟩, horder⟩

end ActiveSet.Constrained
