import ActiveSet.Proofs.Invariant
import ActiveSet.Proofs.Solver.Constrained.OptimalSession

/-!
# The sides of the working set

An entity of the working set stands at a side at which it had a finite limit when it was classified, and
an equality stands at its lower limit. The guess, the steps and the exchanges only ever ask for such
sides, so this holds in every state from which a homotopy can start (`sided_of_reachable`), whatever has
been loaded since the classification.

* `EntitySet.Sided`, `Constrained.Sided`: where the entities of a working set stand.
* `EntitySet.sideFor_guessedActivity`, `Core.sideFor_startingSide`: the sides that a guess asks for.
-/

namespace ActiveSet

-- ---------------------------------------------------------------------------
-- Sets of entities
-- ---------------------------------------------------------------------------

namespace EntitySet

variable {kind : EntityKind} {k : ℕ} {s s' : EntitySet kind k}

/-- Every entity of the working set stands at a side where it could become active. -/
def Sided (s : EntitySet kind k) : Prop :=
  ∀ i : Fin k, s.isActive i = true → s.sideFor i (s.activity i) = some (s.activity i)

/-- The side at which an entity becomes active is one to ask for. -/
theorem sideFor_sideFor {i : ℕ} {side side' : Activity} (h : s.sideFor i side = some side') :
    s.sideFor i side' = some side' := by
  unfold sideFor at h ⊢
  cases htype : s.limitType i with
  | equality =>
    rw [htype] at h
    exact h
  | bounded =>
    rw [htype] at h
    dsimp only at h ⊢
    split at h
    · next hside =>
      cases h
      exact if_pos hside
    · cases h
  | unbounded =>
    rw [htype] at h
    cases h
  | unknown =>
    rw [htype] at h
    cases h

/-- The same entities, some of which may have moved to sides where they could become active. -/
structure Rearranged (s s' : EntitySet kind k) : Prop where
  types : s'.types = s.types
  finite : s'.finite = s.finite
  sided : s.Sided → s'.Sided

theorem Rearranged.refl (s : EntitySet kind k) : s.Rearranged s := ⟨rfl, rfl, fun h => h⟩

theorem Rearranged.trans {s'' : EntitySet kind k} (h : s.Rearranged s') (h' : s'.Rearranged s'') :
    s.Rearranged s'' :=
  ⟨h'.types.trans h.types, h'.finite.trans h.finite, fun hs => h'.sided (h.sided hs)⟩

theorem Moved.rearranged {i : Fin k} {a : Activity} (hmoved : s.Moved i a s')
    (ha : a.isActive = true → s.sideFor i a = some a) : s.Rearranged s' := by
  refine ⟨hmoved.types, hmoved.finite, fun h j hj => ?_⟩
  rw [hmoved.isActive] at hj
  rw [sideFor_congr hmoved.types hmoved.finite, hmoved.activity]
  split
  · next hji =>
    subst hji
    rw [if_pos rfl] at hj
    exact ha hj
  · next hji =>
    rw [if_neg hji] at hj
    exact h j hj

theorem rearranged_activate {i : Fin k} {side : Activity} (hs : s.Sound)
    (hactivate : s.activate i side = .ok s') : s.Rearranged s' := by
  obtain ⟨-, -, side', hfor, hmoved⟩ := activate_spec hs hactivate
  exact hmoved.rearranged fun _ => sideFor_sideFor hfor

theorem rearranged_deactivate {i : Fin k} (hs : s.Sound)
    (hdeactivate : s.deactivate i = .ok s') : s.Rearranged s' :=
  (deactivate_spec hs hdeactivate).2.rearranged nofun

/-- An equality of the working set stands at its lower limit. -/
theorem Sided.eq_lower (h : s.Sided) {i : Fin k} (hi : s.isActive i = true)
    (htype : s.limitType i = .equality) : s.activity i = .lower := by
  have hfor := h i hi
  unfold sideFor at hfor
  rw [htype] at hfor
  exact (Option.some.inj hfor).symm

/-- Any other entity of the working set has a limit where it stands. -/
theorem Sided.hasSide (h : s.Sided) {i : Fin k} (hi : s.isActive i = true)
    (htype : s.limitType i ≠ .equality) : s.hasSide i (s.activity i) = true := by
  have hfor := h i hi
  unfold sideFor at hfor
  split at hfor
  · next heq => exact absurd heq htype
  · split at hfor
    · next hside => exact hside
    · cases hfor
  · cases hfor
  · cases hfor

/-- What has no limit is not in the working set. -/
theorem Sided.type_ne (h : s.Sided) {i : Fin k} (hi : s.isActive i = true) :
    s.limitType i ≠ .unbounded := by
  intro htype
  have hfor := h i hi
  unfold sideFor at hfor
  rw [htype] at hfor
  cases hfor

/-- A guess asks only for sides at which there is a limit. -/
theorem sideFor_guessedActivity {K : Type} [Scalar K] {p : Parameters K} {lower upper : K}
    {i : Fin k} (hsides : s.sides i = ⟨-p.infinity < lower, upper < p.infinity⟩)
    {value multiplier : Option K}
    (h : (guessedActivity p (s.limitType i) lower upper value multiplier).isActive = true) :
    s.sideFor i (guessedActivity p (s.limitType i) lower upper value multiplier) =
      some (guessedActivity p (s.limitType i) lower upper value multiplier) := by
  have hlower : s.hasSide i .lower = decide (-p.infinity < lower) := by
    rw [hasSide_lower, hsides]
  have hupper : s.hasSide i .upper = decide (upper < p.infinity) := by
    rw [hasSide_upper, hsides]
  unfold sideFor
  cases htype : s.limitType i with
  | equality => rfl
  | unbounded =>
    rw [htype] at h
    cases h
  | unknown =>
    rw [htype] at h
    cases h
  | bounded =>
    rw [htype] at h
    dsimp only
    refine if_pos ?_
    -- a value or a multiplier proposes a side only after a look at whether its limit is finite
    generalize hside : guessedActivity p .bounded lower upper value multiplier = side at h ⊢
    unfold guessedActivity at hside
    dsimp only at hside
    rw [Option.getD_eq_iff] at hside
    obtain hside | ⟨-, hside⟩ := hside
    · rw [Option.or_eq_some_iff] at hside
      obtain hside | ⟨-, hside⟩ := hside
      · obtain ⟨v, -, hv⟩ := Option.bind_eq_some_iff.1 hside
        split at hv
        · next hlimit =>
          cases hv
          exact hlower.trans hlimit.1
        · split at hv
          · next hlimit =>
            cases hv
            exact hupper.trans hlimit.1
          · cases hv
      · obtain ⟨w, -, hw⟩ := Option.bind_eq_some_iff.1 hside
        split at hw
        · next hlimit =>
          cases hw
          exact hlower.trans hlimit.1
        · split at hw
          · next hlimit =>
            cases hw
            exact hupper.trans hlimit.1
          · cases hw
    · rw [← hside] at h
      cases h

end EntitySet

variable {n m : ℕ}

/-- A bound starts only at a side at which it has a limit, also if it starts there since the objective
is not known to be definite. -/
theorem Core.sideFor_startingSide {c : Core ℝ n m} {guess : Guess ℝ n m}
    (hclass : c.bounds.ClassifiedBy c.target.lower c.target.upper c.parameters.epsBound
      c.parameters.infinity) {i : Fin n} (h : (c.startingSide guess i).isActive = true) :
    c.bounds.sideFor i (c.startingSide guess i) = some (c.startingSide guess i) := by
  obtain ⟨-, htype, hsides⟩ := hclass i
  unfold startingSide at h ⊢
  dsimp only at h ⊢
  split
  · next hsemidefinite =>
    obtain ⟨-, -, hbounded⟩ := hsemidefinite
    unfold EntitySet.sideFor
    rw [hbounded]
    dsimp only
    refine if_pos ?_
    split
    · next hlower =>
      rw [EntitySet.hasSide_lower, hsides]
      exact decide_eq_true hlower
    · next hlower =>
      -- without a lower limit a bounded variable has an upper one
      rw [EntitySet.hasSide_upper, hsides]
      refine decide_eq_true (not_le.1 fun hupper => ?_)
      rw [htype, EntitySet.typeOfLimits, if_pos ⟨not_lt.1 hlower, hupper⟩] at hbounded
      cases hbounded
  · next hsemidefinite =>
    rw [if_neg hsemidefinite] at h
    exact EntitySet.sideFor_guessedActivity hsides h

-- ---------------------------------------------------------------------------
-- Bounds and constraints
-- ---------------------------------------------------------------------------

namespace Constrained

section Changes

variable {K : Type} [Scalar K] {s s' : Constrained K n m} {e : Entity n m} {side : Activity}

omit [Scalar K] in
/-- Every entity of the working set stands at a side where it could become active. -/
structure Sided (s : Constrained K n m) : Prop where
  bounds : s.bounds.Sided
  constraints : s.constraints.Sided

omit [Scalar K] in
theorem Sided.congr (h : s.Sided) (hb : s'.bounds = s.bounds)
    (hc : s'.constraints = s.constraints) : s'.Sided :=
  ⟨hb ▸ h.bounds, hc ▸ h.constraints⟩

omit [Scalar K] in
/-- An equality of the working set stands at its lower limit. -/
theorem Sided.eq_lower (h : s.Sided) (he : s.isActive e = true)
    (htype : s.limitType e = .equality) : s.activity e = .lower := by
  cases e with
  | bound i => exact h.bounds.eq_lower he htype
  | constraint i => exact h.constraints.eq_lower he htype

omit [Scalar K] in
/-- Any other entity of the working set has a limit where it stands. -/
theorem Sided.hasSide (h : s.Sided) (hside : s.activity e = side) (hactive : side.isActive = true)
    (htype : s.limitType e ≠ .equality) : s.hasSide side e = true := by
  subst hside
  cases e with
  | bound i => exact h.bounds.hasSide hactive htype
  | constraint i => exact h.constraints.hasSide hactive htype

omit [Scalar K] in
/-- What has no limit is not in the working set. -/
theorem Sided.isActive_of_unbounded (h : s.Sided) (htype : s.limitType e = .unbounded) :
    s.isActive e = false := by
  by_contra hactive
  rw [Bool.not_eq_false] at hactive
  cases e with
  | bound i => exact h.bounds.type_ne hactive htype
  | constraint i => exact h.constraints.type_ne hactive htype

omit [Scalar K] in
theorem InStep.isActive_of_equality (hs : s.InStep) (htype : s.limitType e = .equality) :
    s.isActive e = true := by
  cases e with
  | bound i => exact hs.classified.equality i htype
  | constraint i => exact hs.equality i htype

omit [Scalar K] in
/-- The same entities, some of which may have moved to sides where they could become active. -/
structure Rearranged (s s' : Constrained K n m) : Prop where
  bounds : s.bounds.Rearranged s'.bounds
  constraints : s.constraints.Rearranged s'.constraints

omit [Scalar K] in
theorem Rearranged.of_eq (hb : s'.bounds = s.bounds) (hc : s'.constraints = s.constraints) :
    s.Rearranged s' :=
  ⟨hb ▸ .refl _, hc ▸ .refl _⟩

omit [Scalar K] in
theorem Rearranged.trans {s'' : Constrained K n m} (h : s.Rearranged s') (h' : s'.Rearranged s'') :
    s.Rearranged s'' :=
  ⟨h.bounds.trans h'.bounds, h.constraints.trans h'.constraints⟩

omit [Scalar K] in
theorem Rearranged.sided (h : s.Rearranged s') (hs : s.Sided) : s'.Sided :=
  ⟨h.bounds.sided hs.bounds, h.constraints.sided hs.constraints⟩

omit [Scalar K] in
theorem Rearranged.limitType_eq (h : s.Rearranged s') (e : Entity n m) :
    s'.limitType e = s.limitType e := by
  cases e with
  | bound i => simp only [limitType, EntitySet.limitType, h.bounds.types]
  | constraint i => simp only [limitType, EntitySet.limitType, h.constraints.types]

omit [Scalar K] in
theorem Rearranged.hasSide_eq (h : s.Rearranged s') (side : Activity) (e : Entity n m) :
    s'.hasSide side e = s.hasSide side e := by
  cases e with
  | bound i => simp only [Constrained.hasSide, EntitySet.hasSide, h.bounds.finite]
  | constraint i => simp only [Constrained.hasSide, EntitySet.hasSide, h.constraints.finite]

theorem Reordered.rearranged (h : s.Reordered s') : s.Rearranged s' := by
  cases h <;> exact .of_eq rfl rfl

theorem Dependent.rearranged {w : PreparedRow K} (h : s.Dependent e w s') : s.Rearranged s' := by
  cases h
  exact .of_eq rfl rfl

theorem Entered.rearranged {w : PreparedRow K} (h : s.Entered side w s' e) (hs : s.InOrder) :
    s.Rearranged s' := by
  cases e with
  | bound i =>
    cases (show s.BoundEntered i side w s' from h) with
    | intro hactivate hrow hfactor hnull =>
      exact ⟨EntitySet.rearranged_activate hs.sound hactivate, .refl _⟩
  | constraint i =>
    cases (show s.ConstraintEntered i side w true s' from h) with
    | intro hactivate hrow hfactor hnull =>
      exact ⟨.refl _, EntitySet.rearranged_activate hs.constraints_sound hactivate⟩

theorem Released.rearranged (h : s.Released e s') (hs : s.InOrder) : s.Rearranged s' := by
  cases h with
  | bound hdeactivate hnull =>
    exact ⟨EntitySet.rearranged_deactivate hs.sound hdeactivate, .refl _⟩
  | constraint hp hdeactivate hnull =>
    exact ⟨.refl _, EntitySet.rearranged_deactivate hs.constraints_sound hdeactivate⟩

theorem Left.rearranged (h : s.Left e s') (hs : s.InOrder) : s.Rearranged s' := by
  obtain ⟨s1, hreleased, -, hextended⟩ := h
  refine (hreleased.rearranged hs).trans ?_
  cases hextended
  exact .of_eq rfl rfl

theorem Stranded.rearranged {error : QpError} (h : s.Stranded e error s') (hs : s.InOrder) :
    s.Rearranged s' := by
  obtain ⟨s1, removal, hreleased, -, -, hunfollowed⟩ := h
  refine (hreleased.rearranged hs).trans ?_
  cases hunfollowed
  exact .of_eq rfl rfl

theorem Swapped.rearranged {leaver : Entity n m} {w w' : PreparedRow K} {flip : Bool} {t : K}
    (h : s.Swapped e side w flip t leaver w' s') (hs : s.InStep) : s.Rearranged s' := by
  obtain ⟨s1, s2, hdependent, -, hleft, -, hreordered⟩ := h.chain
  exact (hdependent.rearranged.trans (hleft.rearranged (hdependent.inStep hs).toInOrder)).trans
    hreordered.rearranged

theorem Changed.rearranged {event : StepEvent n m} (h : s.Changed event s') (hs : s.InStep) :
    s.Rearranged s' := by
  cases h with
  | added hreordered hw hind hentered =>
    exact hreordered.rearranged.trans (hentered.rearranged (hreordered.inStep hs).toInOrder)
  | exchanged hreordered hw hind hexchanged =>
    cases hexchanged with
    | intro hswapped hind' hentered =>
      refine (hreordered.rearranged.trans (hswapped.rearranged (hreordered.inStep hs))).trans ?_
      exact (hentered.rearranged hswapped.inStep.toInOrder).trans (.of_eq rfl rfl)
  | removed hleft => exact hleft.rearranged hs.toInOrder

theorem ChangeFailed.rearranged {event : StepEvent n m} {error : QpError}
    (h : s.ChangeFailed event error s') (hs : s.InStep) : s.Rearranged s' := by
  cases h with
  | refused herror horder hcause =>
    cases hcause with
    | undetermined hreordered h => exact hreordered.rearranged
    | exchange hreordered hw hind hdependent hstranded =>
      have hs2 := hdependent.inStep (hreordered.inStep hs)
      exact (hreordered.rearranged.trans hdependent.rearranged).trans
        (hstranded.rearranged hs2.toInOrder)
    | removal hstranded => exact hstranded.rearranged hs.toInOrder
  | stuck hreordered hw hind hstuck =>
    exact hreordered.rearranged.trans hstuck.dependent.rearranged
  | dependent hreordered hw hind hswapped hind' =>
    exact (hreordered.rearranged.trans (hswapped.rearranged (hreordered.inStep hs))).trans
      (.of_eq rfl rfl)

/-- A constraint starts only at a side at which it has a limit. -/
theorem sideFor_startingSide {guess : Guess K n m}
    (hclass : s.constraints.ClassifiedBy s.target.rowLower s.target.rowUpper s.parameters.epsBound
      s.parameters.infinity) {i : Fin m} (h : (s.startingSide guess i).isActive = true) :
    s.constraints.sideFor i (s.startingSide guess i) = some (s.startingSide guess i) :=
  EntitySet.sideFor_guessedActivity (hclass i).2.2 h

end Changes

-- ---------------------------------------------------------------------------
-- Sessions
-- ---------------------------------------------------------------------------

variable {s s' : Constrained ℝ n m} {guess : Guess ℝ n m}

theorem RowsActivated.sided (h : s.RowsActivated guess s' [])
    (hclass : s.constraints.ClassifiedBy s.target.rowLower s.target.rowUpper s.parameters.epsBound
      s.parameters.infinity) : s'.constraints.Sided := by
  intro i hi
  rw [EntitySet.sideFor_congr h.types h.finite]
  have hactivity : s'.constraints.activity i = s.startingSide guess i := by
    refine (h.activity i).resolve_left fun hnot => ?_
    rw [EntitySet.isActive, hnot] at hi
    cases hi
  rw [EntitySet.isActive, hactivity] at hi
  rw [hactivity]
  exact sideFor_startingSide hclass hi

/-- The working set of an auxiliary problem stands at its limits. -/
theorem SetUp.sided (h : s.SetUp guess s') : s'.Sided := by
  obtain ⟨s1, s2, s3, hstarted, hrows, hfactorized, -, rfl⟩ := h.stages
  have hdata := hstarted.sameData
  have hbounds : s1.bounds.Sided := by
    intro i hi
    rw [EntitySet.isActive, hstarted.bounds.activity_eq] at hi
    rw [hstarted.bounds.activity_eq]
    refine Core.sideFor_startingSide ?_ hi
    rw [hdata.target, hdata.parameters]
    exact hstarted.bounds.classifiedBy
  have hconstraints : s2.constraints.Sided := by
    refine hrows.sided ?_
    rw [hdata.target, hdata.parameters]
    exact hstarted.rows
  obtain ⟨constraints, nullSpace, active, rfl⟩ := hrows.frame
  cases hfactorized <;> exact ⟨hbounds, hconstraints⟩

/-- What holds of all states with the same entities, all parts of a step keep. -/
theorem keeps_of_rearranged {q : Constrained ℝ n m → Prop}
    (hq : ∀ s s', s.Rearranged s' → q s → q s') :
    (Constrained.method : Method ℝ n m (Constrained ℝ n m)).Keeps (workingSetPhases ℝ n m) q where
  ignores s _ _ _ h := hq s _ (.of_eq rfl rfl) h
  direction s hs h := by
    refine (determineDirection_ensures hs).mono ?_ ?_
    · rintro ⟨⟩ s' hdirected
      obtain ⟨dx, dy, tilt, dax, rfl⟩ := hdirected.same
      exact hq s _ (.of_eq rfl rfl) h
    · rintro f s' ⟨-, ⟨dx, dy, tilt, dax, rfl⟩, -⟩
      exact hq s _ (.of_eq rfl rfl) h
  perform tau event s h := by
    obtain ⟨x, y, current, ax, hperform⟩ := perform_frame tau event s
    change q (s.perform tau event)
    rw [hperform]
    exact hq s _ (.of_eq rfl rfl) h
  change event s hevent hs h := by
    refine (changeWorkingSet_ensures hs.1 hevent hs.2).mono ?_ ?_
    · rintro ⟨⟩ s' ⟨hchanged, -⟩
      exact hq s s' (hchanged.rearranged hs.1) h
    · rintro f s' ⟨error, rfl, hfailed⟩
      exact hq s s' (hfailed.rearranged hs.1) h

/-- Data leaves the entities alone. -/
theorem Loading.rearranged {d : Loading ℝ} (h : d.apply s = .ok s') : s.Rearranged s' := by
  obtain ⟨_, _, _, _, _, rfl⟩ | ⟨_, _, rfl⟩ := Loading.apply_cases h <;> exact .of_eq rfl rfl

theorem keeps_sided :
    (Constrained.interface ℝ n m).Keeps (workingSetPhases ℝ n m) Sided anyCall where
  method := keeps_of_rearranged fun _ _ h => h.sided
  load _ _ _ h := (Loading.rearranged h).sided
  prepare _ _ _ _ _ _ _ _ hs :=
    (prepare_reset_ensures hs).mono (fun _ _ h => h.1.sided) fun _ _ _ => trivial

/-- The calls that do not start from scratch. -/
def warmCalls : Call ℝ n m (Loading ℝ) → Constrained ℝ n m → Prop
  | .solve .., _ => False
  | .resume .., _ | .load _, _ | .reset, _ => True

theorem keeps_rearranged (s : Constrained ℝ n m) :
    (Constrained.interface ℝ n m).Keeps (workingSetPhases ℝ n m) s.Rearranged warmCalls where
  method := keeps_of_rearranged fun _ _ h hs => hs.trans h
  load _ _ _ h hs := hs.trans (Loading.rearranged h)
  prepare _ _ _ _ _ _ _ h := h.elim

/-- While a homotopy could start, the working set stands at sides that had a finite limit when the
entities were classified, and every equality is in it, at its lower limit. -/
theorem sided_of_reachable (hs : (Constrained.interface ℝ n m).Reachable anyCall s)
    (hstart : s.status.isStart = true) : s.InStep ∧ s.Sided := by
  have hone : ((1 : ℝ) == 1) = true := by simp
  exact (((respects hone).keeping keeps_sided).settled hs).ready hstart

/-- A homotopy that does not start from scratch keeps the types and the finite sides. -/
theorem rearranged_of_resume (hs : (Constrained.interface ℝ n m).Reachable anyCall s) {τ : Type}
    {obs : Observer ℝ n m τ} {view : τ} {budget k : ℕ}
    (hcall : (Constrained.interface ℝ n m).call (.resume obs view budget) s = (.ok k, s')) :
    s.Rearranged s' := by
  have hone : ((1 : ℝ) == 1) = true := by simp
  obtain ⟨hrest, hstatus⟩ := (respects hone).settled hs
  have hwarm : (Constrained.interface ℝ n m).Respects (workingSetPhases ℝ n m) warmCalls :=
    (respects hone).restrict fun _ _ _ => trivial
  have hsettled : method.Settled ((workingSetPhases ℝ n m).keeping s.Rearranged) s :=
    ⟨hrest, hstatus.imp_right fun h => ⟨h.1, h.2, .of_eq rfl rfl⟩⟩
  have hadmits : warmCalls (.resume obs view budget) s := trivial
  exact ((hwarm.keeping (keeps_rearranged s)).arrived_of_call hsettled hadmits rfl hcall).1.2

end Constrained

end ActiveSet
