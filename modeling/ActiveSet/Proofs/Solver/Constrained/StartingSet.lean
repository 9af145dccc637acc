import ActiveSet.Proofs.Solver.Constrained.Sides
import ActiveSet.Proofs.Solver.Constrained.Singular

/-!
# The working set of a guess

A solve from scratch starts with the working set that its guess asks for, as far as this is possible. The
bounds come first and are never refused. The constraints follow in their order, and one that depends on
what is in the working set by then stays outside (`startingSet`).

In exact arithmetic, without a tolerance for dependence, this describes the set-up completely
(`prepare_startsWith`). So a set-up is obstructed exactly where an equality depends on the entities that
were looked at before it (`Obstructed`). These may be inequalities that the guess asks for: they are not
given up again for the equality.
-/

namespace ActiveSet

namespace Constrained

variable {n m : ℕ} {s s' s1 s2 : Constrained ℝ n m} {guess : Guess ℝ n m} {k : ℕ}

-- ---------------------------------------------------------------------------
-- What a guess asks for
-- ---------------------------------------------------------------------------

/-- The type that its loaded limits give an entity. -/
noncomputable def loadedType (s : Constrained ℝ n m) (e : Entity n m) : LimitType :=
  EntitySet.typeOfLimits (s.target.lowerOf e) (s.target.upperOf e) s.parameters.epsBound
    s.parameters.infinity

/-- The side at which a guess asks an entity to start, by its value and its multiplier. -/
noncomputable def guessedSide (s : Constrained ℝ n m) (guess : Guess ℝ n m) (e : Entity n m) :
    Activity :=
  guessedActivity s.parameters (s.loadedType e) (s.target.lowerOf e) (s.target.upperOf e)
    (guess.x.map fun x : Tuple ℝ n => s.valueOf x e) (guess.y.map fun y => y.get e)

/-- The side at which an entity is to start. A variable with a finite limit is to start there, whatever
the guess is, if the objective is declared to be semidefinite. -/
noncomputable def wantedSide (s : Constrained ℝ n m) (guess : Guess ℝ n m) : Entity n m → Activity
  | .bound i =>
    if s.hessianType = .semidefinite ∧ s.guessedSide guess (.bound i) = .inactive ∧
        s.loadedType (.bound i) = .bounded then
      if -s.parameters.infinity < s.target.lower i then .lower else .upper
    else s.guessedSide guess (.bound i)
  | .constraint i => s.guessedSide guess (.constraint i)

/-- An entity is to start in the working set. -/
def Wanted (s : Constrained ℝ n m) (guess : Guess ℝ n m) (e : Entity n m) : Prop :=
  (s.wantedSide guess e).isActive = true

/-- The working set after the first constraints have been looked at. At first it holds the bounds that
are to start in it. Then one constraint after the other enters that is to start in it, unless it depends
on what is there already. -/
def startingSet (s : Constrained ℝ n m) (guess : Guess ℝ n m) : ℕ → Entity n m → Prop
  | 0, e => e.kind = .bound ∧ s.Wanted guess e
  | k + 1, e => s.startingSet guess k e ∨
    (∃ i : Fin m, (i : ℕ) = k ∧ e = .constraint i) ∧ s.Wanted guess e ∧
      ¬s.DependsOn (s.startingSet guess k) e

/-- An equality depends on what is in the working set when it is looked at. -/
def Obstructed (s : Constrained ℝ n m) (guess : Guess ℝ n m) : Prop :=
  ∃ i : Fin m, s.loadedType (.constraint i) = .equality ∧
    s.DependsOn (s.startingSet guess i) (.constraint i)

theorem wanted_of_equality {e : Entity n m} (h : s.loadedType e = .equality) : s.Wanted guess e := by
  have hside : s.guessedSide guess e = .lower := by
    rw [guessedSide, h]
    rfl
  cases e with
  | bound i =>
    have hnot : ¬(s.hessianType = .semidefinite ∧ s.guessedSide guess (.bound i) = .inactive ∧
        s.loadedType (.bound i) = .bounded) := by
      rw [h]
      exact fun hbounded => nomatch hbounded.2.2
    rw [Wanted, wantedSide, if_neg hnot, hside]
    rfl
  | constraint i =>
    rw [Wanted, wantedSide, hside]
    rfl

theorem startingSet_bound (i : Fin n) :
    s.startingSet guess k (.bound i) ↔ s.Wanted guess (.bound i) := by
  induction k with
  | zero => exact and_iff_right rfl
  | succ k ih =>
    rw [startingSet, ih, or_iff_left]
    rintro ⟨⟨j, -, hij⟩, -⟩
    cases hij

/-- The constraint that is looked at next. -/
theorem startingSet_succ {i : Fin m} (hi : (i : ℕ) = k) (e : Entity n m) :
    s.startingSet guess (k + 1) e ↔ s.startingSet guess k e ∨ e = .constraint i ∧
      s.Wanted guess e ∧ ¬s.DependsOn (s.startingSet guess k) e := by
  rw [startingSet]
  refine or_congr_right (and_congr_left fun _ => ?_)
  constructor
  · rintro ⟨j, hj, rfl⟩
    rw [Fin.ext (hj.trans hi.symm)]
  · exact fun he => ⟨i, hi, he⟩

/-- A constraint is in the working set if it was to start there and did not depend on what had entered
before it. -/
theorem startingSet_constraint (i : Fin m) : s.startingSet guess k (.constraint i) ↔
    (i : ℕ) < k ∧ s.Wanted guess (.constraint i) ∧
      ¬s.DependsOn (s.startingSet guess i) (.constraint i) := by
  induction k with
  | zero => simp [startingSet, Entity.kind]
  | succ k ih =>
    rw [startingSet, ih]
    constructor
    · rintro (⟨hlt, h⟩ | ⟨⟨j, hj, hij⟩, h⟩)
      · exact ⟨by omega, h⟩
      · cases hij
        rw [← hj] at h
        exact ⟨by omega, h⟩
    · rintro ⟨hlt, h⟩
      obtain hlt | heq := Nat.lt_succ_iff_lt_or_eq.1 hlt
      · exact .inl ⟨hlt, h⟩
      · rw [← heq]
        exact .inr ⟨⟨i, rfl, rfl⟩, h⟩

theorem wanted_of_startingSet {e : Entity n m} (h : s.startingSet guess k e) :
    s.Wanted guess e := by
  cases e with
  | bound i => exact (startingSet_bound i).1 h
  | constraint i => exact ((startingSet_constraint i).1 h).2.1

/-- What is to start in the working set and does not enter depends on what has entered before it. -/
theorem exists_dependsOn {e : Entity n m} (hwanted : s.Wanted guess e)
    (hout : ¬s.startingSet guess m e) :
    ∃ i : Fin m, e = .constraint i ∧ s.DependsOn (s.startingSet guess i) e := by
  cases e with
  | bound i => exact absurd ((startingSet_bound i).2 hwanted) hout
  | constraint i =>
    refine ⟨i, rfl, ?_⟩
    by_contra hnot
    exact hout ((startingSet_constraint i).2 ⟨i.isLt, hwanted, hnot⟩)

-- ---------------------------------------------------------------------------
-- The set-up
-- ---------------------------------------------------------------------------

/-- All bounds start at the sides that are asked for. -/
theorem Started.activity_bound (h : s.Started guess s1) (i : Fin n) :
    s1.bounds.activity i = s.wantedSide guess (.bound i) := by
  have hparameters : s1.parameters = s.parameters := h.sameData.parameters
  have htarget : s1.target = s.target := h.sameData.target
  have hhessian : s1.hessianType = s.hessianType := by rw [h.bounds.frame]
  have htype : s1.bounds.limitType i = s.loadedType (.bound i) := (h.bounds.classifiedBy i).2.1
  rw [h.bounds.activity_eq, Core.startingSide, htype, hparameters, htarget, hhessian]
  have hside : guessedActivity s.parameters (s.loadedType (.bound i)) (s.target.lower i)
      (s.target.upper i) (guess.x.map fun x => x i) (guess.y.map fun y => y.bound i) =
        s.guessedSide guess (.bound i) := by
    rw [guessedSide]
    simp only [valueOf_bound]
    rfl
  rw [hside]
  rfl

/-- The sides that are asked for once the constraints are classified are those of the loaded limits. -/
theorem Started.startingSide_eq (h : s.Started guess s1) (i : Fin m) :
    s1.startingSide guess i = s.wantedSide guess (.constraint i) := by
  have hparameters : s1.parameters = s.parameters := h.sameData.parameters
  have htarget : s1.target = s.target := h.sameData.target
  have htype : s1.constraints.limitType i = s.loadedType (.constraint i) := (h.rows i).2.1
  have hvalue : (guess.x.map fun _ => s1.ax i) =
      guess.x.map fun x : Tuple ℝ n => s.valueOf x (.constraint i) := by
    -- the value of the row is kept along with the point
    cases hx : guess.x with
    | none => rfl
    | some x =>
      have hpoint : s1.x = x := by
        rw [h.bounds.frame]
        show guess.x.getD _ = x
        rw [hx]
        rfl
      rw [Option.map_some, Option.map_some, h.ax_eq, hpoint,
        Grid.apply_apply _ _ _ _ _ i.isLt, dot_eq_sum, one_mul, zero_mul, add_zero]
      rfl
  rw [startingSide, htype, hparameters, htarget, hvalue]
  rfl

/-- The first constraints have been looked at: those that entered are in the starting set, and no
equality among them stayed outside. -/
structure Scanned (s : Constrained ℝ n m) (guess : Guess ℝ n m) (s1 : Constrained ℝ n m) (k : ℕ)
    (s2 : Constrained ℝ n m) : Prop where
  rows : s1.RowsActivated guess s2 ((List.finRange m).drop k)
  isActive_iff : ∀ e, s2.isActive e = true ↔ s.startingSet guess k e
  equality : ∀ i : Fin m, (i : ℕ) < k → s.loadedType (.constraint i) = .equality →
    ¬s.DependsOn (s.startingSet guess i) (.constraint i)

theorem Started.scanned (h : s.Started guess s1) : s.Scanned guess s1 0 s1 where
  rows := by
    refine ⟨List.nodup_finRange m, h.listed, .refl, ⟨_, _, _, rfl⟩, rfl, rfl,
      fun i _ => h.rows_inactive i, fun i => .inl (h.rows_inactive i), fun i hi => ?_⟩
    exact absurd (List.mem_finRange i) hi
  isActive_iff e := by
    cases e with
    | bound i =>
      rw [startingSet_bound, isActive, activity, h.activity_bound]
      rfl
    | constraint i =>
      rw [startingSet_constraint, isActive, activity, h.rows_inactive]
      exact ⟨fun h => (by cases h), fun hi => absurd hi.1 (Nat.not_lt_zero _)⟩
  equality i hi := absurd hi (Nat.not_lt_zero _)

theorem drop_finRange (i : Fin m) :
    (List.finRange m).drop i = i :: (List.finRange m).drop (i + 1) := by
  rw [List.drop_eq_getElem_cons (by rw [List.length_finRange]; exact i.isLt), List.getElem_finRange]
  rfl

theorem Scanned.sameData (h : s.Scanned guess s1 k s2) (hstarted : s.Started guess s1) :
    s.SameData s2 := by
  refine hstarted.sameData.trans ?_
  obtain ⟨constraints, nullSpace, active, rfl⟩ := h.rows.frame
  exact ⟨rfl, rfl, rfl, rfl, rfl⟩

theorem Scanned.limitType_eq (h : s.Scanned guess s1 k s2) (hstarted : s.Started guess s1)
    (i : Fin m) : s2.constraints.limitType i = s.loadedType (.constraint i) := by
  rw [← show s1.constraints.limitType i = s.loadedType (.constraint i) from (hstarted.rows i).2.1]
  simp only [EntitySet.limitType, h.rows.types]

/-- A constraint is found to be independent unless it depends on what has entered by then. -/
theorem Scanned.independent_eq_false_iff {i : Fin m} {w : PreparedRow ℝ}
    (h : s.Scanned guess s1 k s2) (hstarted : s.Started guess s1)
    (heps : s.parameters.epsDependent = 0) (hw : s2.Prepared w (.constraint i))
    (hi : s2.isActive (.constraint i) = false) :
    w.independent = false ↔ s.DependsOn (s.startingSet guess k) (.constraint i) := by
  have hentered : (fun a => s2.isActive a = true) = s.startingSet guess k :=
    funext fun e => propext (h.isActive_iff e)
  have heps1 : s1.parameters.epsDependent = 0 := by rw [hstarted.sameData.parameters, heps]
  obtain ⟨hparameters, hf⟩ := split_of_enrolls h.rows.entered heps1.ge hstarted.split
  rw [hw.independent_eq_false_iff h.rows.listed hf (by rw [hparameters, heps1]) hi, hentered,
    (h.sameData hstarted).dependsOn_iff]

/-- A constraint that is not to start in the working set, or an inequality that depends on it, has been
looked at. -/
theorem Scanned.skip {i : Fin m} (h : s.Scanned guess s1 i s2) (hstarted : s.Started guess s1)
    (htype : s.loadedType (.constraint i) ≠ .equality)
    (hout : s.Wanted guess (.constraint i) → s.DependsOn (s.startingSet guess i) (.constraint i)) :
    s.Scanned guess s1 (i + 1) s2 where
  rows := by
    have hrows := h.rows
    rw [drop_finRange] at hrows
    refine hrows.skip ?_
    rw [h.limitType_eq hstarted]
    exact htype
  isActive_iff e := by
    rw [startingSet_succ rfl, h.isActive_iff, or_iff_left]
    rintro ⟨rfl, hwanted, hnot⟩
    exact hnot (hout hwanted)
  equality j hj hequal := by
    obtain hlt | heq := Nat.lt_succ_iff_lt_or_eq.1 hj
    · exact h.equality j hlt hequal
    · rw [Fin.ext heq] at hequal
      exact absurd hequal htype

/-- A constraint that enters joins the working set. -/
theorem ConstraintEntered.isActive_iff {i : Fin m} {side : Activity} {w : PreparedRow ℝ}
    {withFactor : Bool} (h : s.ConstraintEntered i side w withFactor s')
    (hs : s.constraints.Sound) (e : Entity n m) :
    s'.isActive e = true ↔ s.isActive e = true ∨ e = .constraint i := by
  cases h with
  | @intro constraints gs row factor nullSpace hactivate hrow hfactor hnull =>
    obtain ⟨-, hside, side', hfor, hmoved⟩ := EntitySet.activate_spec hs hactivate
    cases e with
    | bound j => exact (or_iff_left nofun).symm
    | constraint j =>
      rw [Entity.constraint.injEq]
      show constraints.isActive j = true ↔ s.constraints.isActive j = true ∨ j = i
      rw [hmoved.isActive]
      split
      · next hji => simp [hji, EntitySet.sideFor_isActive hside hfor]
      · next hji => simp [hji]

/-- A constraint that has entered has been looked at. -/
theorem Scanned.enter {i : Fin m} {w : PreparedRow ℝ} {s3 : Constrained ℝ n m}
    (h : s.Scanned guess s1 i s2) (hw : s2.Prepared w (.constraint i))
    (hind : w.independent = true)
    (hentered : s2.ConstraintEntered i (s1.startingSide guess i) w false s3) (hlisted : s3.Listed)
    (hwanted : s.Wanted guess (.constraint i))
    (hnot : ¬s.DependsOn (s.startingSet guess i) (.constraint i)) :
    s.Scanned guess s1 (i + 1) s3 where
  rows := by
    have hrows := h.rows
    rw [drop_finRange] at hrows
    exact hrows.enter hw hind hentered hlisted
  isActive_iff e := by
    rw [startingSet_succ rfl, hentered.isActive_iff h.rows.listed.constraints_sound, h.isActive_iff]
    -- the row comes in exactly if it is wanted and does not depend on what is in already
    refine or_congr_right (iff_self_and.2 ?_)
    rintro rfl
    exact ⟨hwanted, hnot⟩
  equality j hj hequal := by
    obtain hlt | heq := Nat.lt_succ_iff_lt_or_eq.1 hj
    · exact h.equality j hlt hequal
    · rw [Fin.ext heq]
      exact hnot

/-- There is room for a constraint that is to start in the working set and is found independent. -/
theorem Scanned.exists_activate {i : Fin m} {w : PreparedRow ℝ} (h : s.Scanned guess s1 i s2)
    (hstarted : s.Started guess s1) (hwanted : s.Wanted guess (.constraint i))
    (hw : s2.Prepared w (.constraint i)) (hind : w.independent = true)
    (hi : s2.constraints.isActive i = false) :
    ∃ constraints, s2.constraints.activate i (s1.startingSide guess i) = .ok constraints := by
  have hside : (s1.startingSide guess i).isActive = true := by
    rw [hstarted.startingSide_eq]
    exact hwanted
  have hclass : s1.constraints.ClassifiedBy s1.target.rowLower s1.target.rowUpper
      s1.parameters.epsBound s1.parameters.infinity := by
    rw [hstarted.sameData.target, hstarted.sameData.parameters]
    exact hstarted.rows
  have hfor := sideFor_startingSide hclass hside
  rw [← EntitySet.sideFor_congr h.rows.types h.rows.finite] at hfor
  exact EntitySet.activate_of h.rows.listed.constraints_sound hside hfor hi
    (h.rows.listed.activeCount_lt (hw.room hind))

/-- A constraint that is to start in the working set enters it, unless it depends on what has entered
before. An equality that does is an obstruction. -/
theorem Scanned.activate {i : Fin m} (hscanned : s.Scanned guess s1 i s2)
    (hstarted : s.Started guess s1) (heps : s.parameters.epsDependent = 0)
    (hwanted : s.Wanted guess (.constraint i)) :
    Update.Ensures (do
      let w ← prepareConstraint i
      if w.independent then
        Update.mapError (fun _ => .setupWorkingSetFailed)
          (appendConstraint i (s1.startingSide guess i) w false)
      else if s2.constraints.limitType i = .equality then Update.fail .setupWorkingSetFailed) s2
      (fun _ s3 => s.Scanned guess s1 (i + 1) s3)
      fun f _ => f = .failed .setupWorkingSetFailed ∧ s.Obstructed guess := by
  have hi : s2.constraints.isActive i = false := by
    have hcome := hscanned.rows.to_come i (by rw [drop_finRange]; exact List.mem_cons_self)
    rw [EntitySet.isActive, hcome]
    rfl
  refine Update.ensures_bind_of (prepareConstraint_ensures hscanned.rows.listed i)
    (fun _ _ h => h.elim) ?_
  rintro w _ ⟨rfl, hw⟩
  have hiff := hscanned.independent_eq_false_iff hstarted heps hw hi
  rw [Update.ensures_ite]
  constructor
  · -- the row is independent, and there is a place for it
    intro hind
    obtain ⟨constraints, hactivate⟩ := hscanned.exists_activate hstarted hwanted hw hind hi
    rw [Update.ensures_mapError]
    refine (appendConstraint_ensures hscanned.rows.listed false hw hind fun h => by cases h).mono
      ?_ ?_
    · rintro ⟨⟩ s3 ⟨hentered, hlisted, -⟩
      refine hscanned.enter hw hind hentered hlisted hwanted fun hdepends => ?_
      rw [hiff.2 hdepends] at hind
      cases hind
    · rintro f s3 ⟨-, -, e, he⟩
      rw [hactivate] at he
      cases he
  · -- the row depends on what is in the working set already
    intro hind
    have hdepends := hiff.1 (by simpa using hind)
    rw [Update.ensures_ite, hscanned.limitType_eq hstarted]
    constructor
    · intro htype
      rw [Update.ensures_fail]
      exact ⟨rfl, i, htype, hdepends⟩
    · exact fun htype => hscanned.skip hstarted htype fun _ => hdepends

/-- The constraints enter as the starting set says, or an equality depends on what has entered before
it. -/
theorem activateConstraints_scans (hstarted : s.Started guess s1)
    (heps : s.parameters.epsDependent = 0) :
    (activateConstraints guess).Ensures s1 (fun _ s2 => s.Scanned guess s1 m s2)
      fun f _ => f = .failed .setupWorkingSetFailed ∧ s.Obstructed guess := by
  unfold activateConstraints
  refine Update.ensures_forM_of (I := fun rest s2 => ∃ k ≤ m, rest = (List.finRange m).drop k ∧
    s.Scanned guess s1 k s2) ?_ ?_ ⟨0, Nat.zero_le m, rfl, hstarted.scanned⟩
  · -- what is left to scan is what follows the first `k` constraints
    rintro i rest s2 ⟨k, hk, hrest, hscanned⟩
    have hlt : k < m := by
      by_contra hge
      rw [List.drop_eq_nil_of_le (by rw [List.length_finRange]; omega)] at hrest
      cases hrest
    obtain ⟨j, rfl⟩ : ∃ j : Fin m, k = j := ⟨⟨k, hlt⟩, rfl⟩
    rw [drop_finRange] at hrest
    obtain ⟨rfl, rfl⟩ := List.cons.inj hrest
    have hdone : ∀ {s3 : Constrained ℝ n m}, s.Scanned guess s1 (i + 1) s3 →
        ∃ k ≤ m, (List.finRange m).drop (i + 1) = (List.finRange m).drop k ∧
          s.Scanned guess s1 k s3 := fun h => ⟨i + 1, i.isLt, rfl, h⟩
    have hiff : s.Wanted guess (.constraint i) ↔ (s1.startingSide guess i).isActive = true := by
      rw [Wanted, ← hstarted.startingSide_eq]
    rw [Update.ensures_bind, Update.ensures_get]
    dsimp only
    rw [hscanned.rows.startingSide_eq, Update.ensures_ite]
    constructor
    · intro hside
      exact (hscanned.activate hstarted heps (hiff.2 hside)).mono (fun _ _ h => hdone h)
        fun _ _ h => h
    · intro hside
      have hnot := fun hwanted => hside (hiff.1 hwanted)
      exact hdone (hscanned.skip hstarted (fun htype => hnot (wanted_of_equality htype))
        fun hwanted => absurd hwanted hnot)
  · -- with nothing left to scan, all constraints have been scanned
    rintro s2 ⟨k, hk, hrest, hscanned⟩
    have hge : m ≤ k := by
      have hlength := congrArg List.length hrest
      rw [List.length_drop, List.length_finRange, List.length_nil] at hlength
      omega
    rwa [le_antisymm hk hge] at hscanned

/-- What is not to start in the working set is to start outside. -/
theorem wantedSide_of_not_wanted {e : Entity n m} (h : ¬s.Wanted guess e) :
    s.wantedSide guess e = .inactive := by
  have hguessed : s.guessedSide guess e ≠ .undefined := by
    unfold guessedSide
    apply Core.guessedActivity_ne_undefined
  -- a semidefinite problem starts every bound at a limit, or else the guess decides
  have hdefined : s.wantedSide guess e ≠ .undefined := by
    cases e with
    | bound i =>
      rw [wantedSide]
      split
      · split <;> simp
      · exact hguessed
    | constraint i => exact hguessed
  unfold Wanted at h
  generalize s.wantedSide guess e = side at h hdefined
  cases side with
  | inactive => rfl
  | undefined => exact absurd rfl hdefined
  | lower => exact absurd rfl h
  | upper => exact absurd rfl h

/-- The working set is the one that a guess asks for, as far as the constraints allow it, and all
equalities are in it. -/
structure StartsWith (s : Constrained ℝ n m) (guess : Guess ℝ n m) (s' : Constrained ℝ n m) :
    Prop where
  unobstructed : ¬s.Obstructed guess
  activity_eq : ∀ e, s.startingSet guess m e → s'.activity e = s.wantedSide guess e
  inactive : ∀ e, ¬s.startingSet guess m e → s'.activity e = .inactive

theorem Scanned.startsWith (h : s.Scanned guess s1 m s2) (hstarted : s.Started guess s1) :
    s.StartsWith guess s2 := by
  -- bounds come first, and constraints do not change them any more
  have hbounds : ∀ i : Fin n, s2.bounds.activity i = s.wantedSide guess (.bound i) := by
    intro i
    rw [← hstarted.activity_bound]
    obtain ⟨constraints, nullSpace, active, rfl⟩ := h.rows.frame
    rfl
  refine ⟨?_, fun e he => ?_, fun e he => ?_⟩
  · rintro ⟨i, htype, hdepends⟩
    exact h.equality i i.isLt htype hdepends
  · cases e with
    | bound i => exact hbounds i
    | constraint i =>
      rw [← hstarted.startingSide_eq]
      refine (h.rows.activity i).resolve_left fun hout => ?_
      have hactive := (h.isActive_iff _).2 he
      rw [isActive, activity, hout] at hactive
      cases hactive
  · cases e with
    | bound i =>
      rw [startingSet_bound] at he
      exact (hbounds i).trans (wantedSide_of_not_wanted he)
    | constraint i =>
      obtain hout | hside := h.rows.activity i
      · exact hout
      · rw [← h.isActive_iff, isActive, activity, hside, hstarted.startingSide_eq] at he
        exact hside.trans ((hstarted.startingSide_eq i).trans (wantedSide_of_not_wanted he))

theorem StartsWith.congr (h : s.StartsWith guess s1) (hb : s2.bounds = s1.bounds)
    (hc : s2.constraints = s1.constraints) : s.StartsWith guess s2 := by
  have hactivity := activity_congr hb hc
  refine ⟨h.unobstructed, fun e he => ?_, fun e he => ?_⟩
  · rw [hactivity]
    exact h.activity_eq e he
  · rw [hactivity]
    exact h.inactive e he

/-- The matrix of the objective is definite on the vectors that no entity of the starting set feels. -/
def DefiniteApart (s : Constrained ℝ n m) (guess : Guess ℝ n m) : Prop :=
  ∀ v : Tuple ℝ n, (∃ j, j < n ∧ v j ≠ 0) → (∀ e, s.startingSet guess m e → s.valueOf v e = 0) →
    0 < form n s.hessian v

/-- Then it has a factor in the starting set. -/
theorem Scanned.factorized (h : s.Scanned guess s1 m s2) (hstarted : s.Started guess s1)
    (hsymm : s.SymmetricHessian) (hdef : s.DefiniteApart guess)
    (hdependent : s.parameters.epsDependent = 0) (hdefinite : s.parameters.epsDefinite = 0) :
    ¬(s2.withAdmissibleRows guess).Unfactorized := by
  have hdata : s.SameData s2 := h.sameData hstarted
  obtain ⟨-, hsplit⟩ := split_of_enrolls h.rows.entered
    (by rw [hstarted.sameData.parameters]; exact hdependent.ge) hstarted.split
  have hreduced : Definite s2.nNull s2.reduced := by
    intro u hu
    rw [← form_nullVector h.rows.listed, hdata.hessian]
    refine hdef _ (nullVector_ne_zero h.rows.listed hsplit hu) fun e he => ?_
    rw [← hdata.valueOf_eq]
    exact valueOf_nullVector h.rows.listed hsplit u ((h.isActive_iff e).2 he)
  refine factorized_of_definite (h.rows.listed.congr rfl rfl rfl rfl rfl)
    (hsymm.congr hdata.hessian) hreduced ?_
  show s2.parameters.epsDefinite = 0
  rw [hdata.parameters, hdefinite]

/-- The second part of the set-up starts with the working set of the guess. It fails where an equality
obstructs the set-up, or where the objective's matrix has no factor: it is not definite there. -/
theorem finish_startsWith (hstarted : s.Started guess s1) (heps : s.parameters.epsDependent = 0) :
    (finish guess).Ensures s1 (fun _ s' => s.StartsWith guess s')
      fun f _ => f = .failed .setupWorkingSetFailed ∧ s.Obstructed guess ∨
        f = .failed .initFailedCholesky ∧ ¬s.Obstructed guess ∧
          (s.SymmetricHessian → s.parameters.epsDefinite = 0 → ¬s.DefiniteApart guess) := by
  unfold finish
  refine Update.ensures_bind_of (activateConstraints_scans hstarted heps) (fun _ _ h => .inl h) ?_
  rintro ⟨⟩ s2 hscanned
  have hstarts := hscanned.startsWith hstarted
  rw [Update.ensures_bind, Update.ensures_modify]
  have hlisted : (s2.withAdmissibleRows guess).Listed :=
    hscanned.rows.listed.congr rfl rfl rfl rfl rfl
  refine Update.ensures_bind_of (factorize_ensures hlisted) ?_ ?_
  · rintro f _ ⟨⟨hf, hunfactorized⟩, -⟩
    exact .inr ⟨hf, hstarts.unobstructed, fun hsymm hdefinite hdef =>
      hscanned.factorized hstarted hsymm hdef heps hdefinite hunfactorized⟩
  rintro ⟨⟩ s3 ⟨-, -, factor, rfl⟩
  rw [Update.ensures_bind, Update.ensures_modify, Update.ensures_modify]
  exact hstarts.congr rfl rfl

theorem SameData.loadedType_eq (h : s.SameData s') : s'.loadedType = s.loadedType := by
  funext e
  rw [loadedType, h.target, h.parameters]
  rfl

theorem SameData.wantedSide_eq (h : s.SameData s') : s'.wantedSide guess = s.wantedSide guess := by
  have hside : s'.guessedSide guess = s.guessedSide guess := by
    funext e
    rw [guessedSide, guessedSide, h.loadedType_eq, h.target, h.parameters]
    simp only [h.valueOf_eq]
  funext e
  cases e with
  | bound i => simp only [wantedSide, hside, h.hessianType, h.loadedType_eq, h.target, h.parameters]
  | constraint i => simp only [wantedSide, hside]

theorem SameData.startingSet_eq (h : s.SameData s') :
    s'.startingSet guess k = s.startingSet guess k := by
  have hwanted : s'.Wanted guess = s.Wanted guess := by
    funext e
    rw [Wanted, Wanted, h.wantedSide_eq]
  induction k with
  | zero =>
    funext e
    rw [startingSet, startingSet, hwanted]
  | succ k ih =>
    funext e
    rw [startingSet, startingSet, hwanted, ih, propext h.dependsOn_iff]

/-- If no loaded limits cross, a set-up from scratch gets to the point where the first constraint can
enter. -/
theorem prepare_of_started (hs : s.InOrder)
    (hordered : ∀ e, s.target.lowerOf e ≤ s.target.upperOf e)
    {Q : Unit → Constrained ℝ n m → Prop} {E : Fault → Constrained ℝ n m → Prop}
    (h : ∀ s1, s.reset.Started guess s1 → (finish guess).Ensures s1 Q E) :
    (prepare guess).Ensures s.reset Q E := by
  rw [prepare_ensures_iff]
  exact ((start_ensures hs.reset (blank_reset s)).and (start_ok hs.reset (blank_reset s)
    (fun i => not_lt.2 (hordered (.bound i))) (fun i => not_lt.2 (hordered (.constraint i)))
    fun b hb i => Core.sideFor_startingSide hb)).mono (fun _ s1 hs1 => h s1 hs1.1)
      fun _ _ hf => hf.2.elim

theorem SameData.definiteApart_iff (h : s.SameData s') :
    s'.DefiniteApart guess ↔ s.DefiniteApart guess := by
  unfold DefiniteApart
  simp only [h.startingSet_eq, h.valueOf_eq, h.hessian]

/-- A set-up from scratch starts with the working set of its guess. It fails where an equality obstructs
it, or where the objective's matrix has no factor: it is not definite there. -/
theorem prepare_startsWith (hs : s.InOrder) (heps : s.parameters.epsDependent = 0)
    (hordered : ∀ e, s.target.lowerOf e ≤ s.target.upperOf e) :
    (prepare guess).Ensures s.reset (fun _ s' => s.StartsWith guess s')
      fun f _ => f = .failed .setupWorkingSetFailed ∧ s.Obstructed guess ∨
        f = .failed .initFailedCholesky ∧ ¬s.Obstructed guess ∧
          (s.SymmetricHessian → s.parameters.epsDefinite = 0 → ¬s.DefiniteApart guess) := by
  have hreset := s.sameData_reset
  have hobstructed : s.reset.Obstructed guess ↔ s.Obstructed guess := by
    unfold Obstructed
    simp only [hreset.startingSet_eq, hreset.dependsOn_iff, hreset.loadedType_eq]
  refine prepare_of_started hs hordered fun s1 hstarted => ?_
  refine (finish_startsWith hstarted heps).mono ?_ ?_
  · rintro ⟨⟩ s' ⟨hunobstructed, hactivity, hinactive⟩
    rw [hobstructed] at hunobstructed
    rw [hreset.startingSet_eq] at hactivity hinactive
    rw [hreset.wantedSide_eq] at hactivity
    exact ⟨hunobstructed, hactivity, hinactive⟩
  · rintro f s' h
    rwa [hobstructed, hreset.definiteApart_iff] at h

/-- If nothing obstructs it, and the matrix of the objective is definite where it has to be, it succeeds. -/
theorem prepare_of_definite (hs : s.InOrder) (hsymm : s.SymmetricHessian) (hdef : s.DefiniteApart guess)
    (hdependent : s.parameters.epsDependent = 0) (hdefinite : s.parameters.epsDefinite = 0)
    (hordered : ∀ e, s.target.lowerOf e ≤ s.target.upperOf e) (hunobstructed : ¬s.Obstructed guess) :
    ∃ s', prepare guess s.reset = .ok () s' ∧ s.reset.SetUp guess s' ∧ s'.InStep ∧
      s'.status = .auxiliarySolved ∧ s.StartsWith guess s' := by
  obtain ⟨⟨⟩, s', hprepare, ⟨hsetup, hs', hstatus⟩, hstarts⟩ := (((prepare_reset_ensures hs).and
    (prepare_startsWith hs hdependent hordered)).mono (fun _ _ h => h) (by
      rintro f s' ⟨-, ⟨-, hobstructed⟩ | ⟨-, -, hnot⟩⟩
      · exact hunobstructed hobstructed
      · exact hnot hsymm hdefinite hdef)).exists_ok
  exact ⟨s', hprepare, hsetup, hs', hstatus, hstarts⟩

/-- This is so for a strictly convex problem. -/
theorem prepare_of_strictlyConvex (hs : s.InOrder) (hdeclared : s.Declared)
    (hconvex : s.StrictlyConvex) (hordered : ∀ e, s.target.lowerOf e ≤ s.target.upperOf e)
    (hunobstructed : ¬s.Obstructed guess) :
    ∃ s', prepare guess s.reset = .ok () s' ∧ s.reset.SetUp guess s' ∧ s'.InStep ∧
      s'.status = .auxiliarySolved ∧ s.StartsWith guess s' :=
  prepare_of_definite hs hdeclared.symmetric (fun v hv _ => hconvex.definite v hv)
    hconvex.epsDependent_eq hconvex.epsDefinite_eq hordered hunobstructed

/-- A solve from scratch says that no working set can be set up exactly if an equality obstructs it. -/
theorem solve_obstructed {τ : Type} (hs : s.InOrder) (heps : s.parameters.epsDependent = 0)
    (hordered : ∀ e, s.target.lowerOf e ≤ s.target.upperOf e) {xGuess yGuess : Option (Array ℝ)}
    (hguess : Guess.ofArrays n m xGuess yGuess = .ok guess) (obs : Observer ℝ n m τ) (view : τ)
    (budget : ℕ) :
    ((method : Method ℝ n m (Constrained ℝ n m)).solve obs budget xGuess yGuess).Ensures (s, view)
      (fun _ _ => ¬s.Obstructed guess)
      fun f _ => f = .failed .setupWorkingSetFailed ↔ s.Obstructed guess := by
  unfold Method.solve
  rw [hguess, Update.ensures_bind, Update.ofExcept_ok, Update.ensures_pure, Update.ensures_bind,
    Update.ensures_first, Update.ensures_bind, Update.ensures_modify, Update.ensures_recover]
  refine (prepare_startsWith hs heps hordered).mono ?_ ?_
  · rintro ⟨⟩ s1 hstarts
    rw [Update.ensures_mapError]
    refine (Update.ensures_run _ _).mono (fun _ _ _ => hstarts.unobstructed) ?_
    rintro f r -
    -- no failure of a homotopy is reported as one of the set-up
    refine ⟨fun hf => ?_, fun h => absurd h hstarts.unobstructed⟩
    cases f with
    | broken => cases hf
    | failed e => cases e <;> cases hf
  · rintro f s1 (⟨rfl, hobstructed⟩ | ⟨rfl, hnot, -⟩)
    · dsimp only
      rw [Update.ensures_bind, Update.ensures_modify, Update.ensures_fail]
      exact ⟨fun _ => hobstructed, fun _ => rfl⟩
    · dsimp only
      rw [Update.ensures_bind, Update.ensures_modify, Update.ensures_fail]
      exact ⟨nofun, fun h => absurd h hnot⟩

end Constrained

end ActiveSet
