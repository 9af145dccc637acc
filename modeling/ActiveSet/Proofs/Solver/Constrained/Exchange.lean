import ActiveSet.Proofs.Solver.Constrained.WorkingSet
import ActiveSet.Solver.Constrained.Exchange

/-!
# Exchanges in a working set

An entity that depends on the working set takes the place of another one, the first whose multiplier
reaches zero along the coefficients of the dependency. `Exchanged` says which operations such an
exchange consists of, and `exchange_ensures` in which ways it can end otherwise: the coefficients
cannot be computed, no entity can leave (`Stuck`), the entity that should leave cannot, or the new
one is found dependent again.

* `amountToZero_eq_some_iff`, `leavingAmount_of_leaving`, `leaving_eq_none_iff`: which entity leaves.
* `addEntity_ensures`: how an entity enters.
-/

namespace ActiveSet.Constrained

variable {K : Type} [Scalar K] {n m : Nat} {s s' : Constrained K n m}

/-! ## The entity that leaves -/

/-- The multiplier of an active inequality reaches zero along a coefficient of the sign of its
side. -/
theorem amountToZero_eq_some_iff {eps : K} {type : LimitType} {activity : Activity}
    {multiplier coefficient t : K} :
    amountToZero eps type activity multiplier coefficient = some t ↔
      type ≠ .equality ∧ t = max (multiplier / coefficient) 0 ∧
        (activity = .lower ∧ eps < coefficient ∨ activity = .upper ∧ coefficient < -eps) := by
  unfold amountToZero
  cases type <;> cases activity <;> simp [eq_comm, and_comm]

/-- The amount after which an entity would leave. -/
def leavingAmount (s : Constrained K n m) (flip : Bool) (e : Entity n m) : Option K :=
  amountToZero (s.parameters.epsDependent * max (norm (n + m) s.dependency.entry) 1)
    (s.limitType e) (s.activity e) (s.y.get e)
    (if flip then -s.dependency.get e else s.dependency.get e)

/-- The entity that leaves among those looked at so far, after one more has been looked at. -/
def earlier (s : Constrained K n m) (flip : Bool) (best : Option (K × Entity n m))
    (e : Entity n m) : Option (K × Entity n m) :=
  match s.leavingAmount flip e, best with
  | none, best => best
  | some t, none => some (t, e)
  | some t, some (t', e') => if t < t' then some (t, e) else some (t', e')

theorem leaving_eq (s : Constrained K n m) (flip : Bool) :
    s.leaving flip = (Entity.all n m).foldl (s.earlier flip) none := by
  unfold leaving
  dsimp only
  congr 1
  funext best e
  unfold earlier leavingAmount
  split
  · next heq => rw [heq]
  · next t heq =>
    rw [heq]
    cases best <;> rfl

/-- What is found among some entities is one of them, or what was found before. -/
theorem earlier_cases {flip : Bool} {best : Option (K × Entity n m)} {e e' : Entity n m} {t : K}
    (h : s.earlier flip best e = some (t, e')) :
    best = some (t, e') ∨ e' = e ∧ s.leavingAmount flip e = some t := by
  unfold earlier at h
  split at h
  · exact .inl h
  · next ht =>
    cases h
    exact .inr ⟨rfl, ht⟩
  · next ht =>
    split at h
    · cases h
      exact .inr ⟨rfl, ht⟩
    · exact .inl h

theorem earlier_eq_none_iff {flip : Bool} {best : Option (K × Entity n m)} {e : Entity n m} :
    s.earlier flip best e = none ↔ best = none ∧ s.leavingAmount flip e = none := by
  unfold earlier
  split
  · next ht => simp [ht]
  · next ht => simp [ht]
  · split <;> simp

/-- The entity that leaves is one that can, after its amount. -/
theorem leavingAmount_of_leaving {flip : Bool} {t : K} {e : Entity n m}
    (h : s.leaving flip = some (t, e)) : s.leavingAmount flip e = some t := by
  rw [leaving_eq] at h
  suffices hfold : ∀ (l : List (Entity n m)) (best : Option (K × Entity n m)),
      l.foldl (s.earlier flip) best = some (t, e) →
        best = some (t, e) ∨ s.leavingAmount flip e = some t from
    (hfold _ none h).resolve_left (nomatch ·)
  intro l
  induction l with
  | nil => exact fun best h => .inl h
  | cons a rest ih =>
    intro best h
    obtain hnext | ht := ih _ h
    · obtain hbest | ⟨rfl, ht⟩ := earlier_cases hnext
      · exact .inl hbest
      · exact .inr ht
    · exact .inr ht

/-- No entity leaves exactly if none can. -/
theorem leaving_eq_none_iff {flip : Bool} :
    s.leaving flip = none ↔ ∀ e, s.leavingAmount flip e = none := by
  rw [leaving_eq]
  suffices hfold : ∀ (l : List (Entity n m)) (best : Option (K × Entity n m)),
      l.foldl (s.earlier flip) best = none ↔
        best = none ∧ ∀ e ∈ l, s.leavingAmount flip e = none by
    rw [hfold]
    simp [Entity.mem_all]
  intro l
  induction l with
  | nil => simp
  | cons a rest ih =>
    intro best
    rw [List.foldl_cons, ih, earlier_eq_none_iff, List.forall_mem_cons, and_assoc]

/-- The entity that leaves is an inequality of the working set. -/
theorem canLeave_of_leaving {flip : Bool} {t : K} {e : Entity n m}
    (h : s.leaving flip = some (t, e)) : s.CanLeave e := by
  obtain ⟨htype, -, hact⟩ := amountToZero_eq_some_iff.1 (leavingAmount_of_leaving h)
  have hactive : (s.activity e).isActive = true := by
    obtain ⟨hact, -⟩ | ⟨hact, -⟩ := hact
    · rw [hact]
      rfl
    · rw [hact]
      rfl
  cases e with
  | bound i => exact ⟨hactive, htype⟩
  | constraint i => exact ⟨hactive, htype⟩

/-! ## Dependencies -/

/-- The coefficients of a dependent entity have been computed. -/
inductive Dependent (s : Constrained K n m) (e : Entity n m) (w : PreparedRow K) :
    Constrained K n m → Prop
  | intro {xi : Tuple K s.active.length}
    (hxi : s.nullSpace.solveTT? s.parameters.epsZero
      (Tuple.ofFn s.active.length fun c => w.row (s.nNull + c)) (Tuple.fill _ 0) = some (.ok xi)) :
    Dependent s e w { s with
      dependency :=
        ⟨Tuple.ofFn n fun j =>
            if s.bounds.isActive j then
              deduct (s.ownRow e j) s.active.length fun c =>
                xi c * gather s.active (fun r => s.matrix r j) c
            else (s.dependency.scale 0).bound j,
          spread s.active (fun c _ => xi c) (s.dependency.scale 0).row⟩ }

theorem Dependent.inStep {e : Entity n m} {w : PreparedRow K} (h : s.Dependent e w s')
    (hs : s.InStep) : s'.InStep := by
  cases h with
  | intro hxi => exact hs.congr rfl rfl rfl rfl rfl rfl

/-- The coefficients of a dependent entity cannot be computed. -/
def Undetermined (s : Constrained K n m) (w : PreparedRow K) : Prop :=
  ∃ f, s.nullSpace.solveTT? s.parameters.epsZero
    (Tuple.ofFn s.active.length fun c => w.row (s.nNull + c)) (Tuple.fill _ 0) = some (.error f)

theorem withDependency_ensures (hs : s.Listed) {e : Entity n m} {w : PreparedRow K}
    (hw : s.Prepared w e) :
    (withDependency e w).Ensures s (fun _ s' => s.Dependent e w s')
      fun f s' => f = .failed .ensureLiFailedTq ∧ s' = s ∧ s.Undetermined w := by
  have hnot : ¬(s.nNull + s.active.length ≠ s.free.length ∨ w.length ≠ s.free.length) := by
    rintro (h | h)
    · exact h hs.nNull_add
    · exact h (hw.length_eq hs)
  unfold withDependency
  rw [Update.ensures_bind, Update.ensures_get, if_neg hnot]
  dsimp only
  rw [Update.ensures_bind, Update.ensures_mapError]
  -- the factors have as many rows as there are active constraints, so only a pivot can be in the way
  cases hsolve : s.nullSpace.solveTT? s.parameters.epsZero
      (Tuple.ofFn s.active.length fun c => w.row (s.nNull + c)) (Tuple.fill _ 0) with
  | none =>
    rw [NullSpace.solveTT?_of _ _ _ hs.nActive_eq.symm] at hsolve
    cases hsolve
  | some r =>
    cases r with
    | error e =>
      rw [Update.ofAttempt_error, Update.ensures_fail]
      exact ⟨rfl, rfl, e, hsolve⟩
    | ok xi =>
      rw [Update.ofAttempt_ok, Update.ensures_pure, Update.ensures_set]
      exact .intro hsolve

/-! ## Exchanges -/

/-- The first way to move the multipliers in which one reaches zero. -/
def firstLeaving (s : Constrained K n m) (e : Entity n m) (side : Activity) :
    Option (Bool × K × Entity n m) :=
  (s.directions e side).findSome? fun flip => (s.leaving flip).map (flip, ·)

theorem firstLeaving_eq_some {e leaver : Entity n m} {side : Activity} {flip : Bool} {t : K}
    (h : s.firstLeaving e side = some (flip, t, leaver)) :
    flip ∈ s.directions e side ∧ s.leaving flip = some (t, leaver) := by
  obtain ⟨f, hf, hmap⟩ := List.exists_of_findSome?_eq_some h
  obtain ⟨r, hr, heq⟩ := Option.map_eq_some_iff.1 hmap
  cases heq
  exact ⟨hf, hr⟩

theorem firstLeaving_eq_none_iff {e : Entity n m} {side : Activity} :
    s.firstLeaving e side = none ↔ ∀ flip ∈ s.directions e side, s.leaving flip = none := by
  simp [firstLeaving, List.findSome?_eq_none_iff]

/-- The dependent entity cannot enter, since none can leave for it. -/
structure Stuck (s : Constrained K n m) (e : Entity n m) (side : Activity) (w : PreparedRow K)
    (s' : Constrained K n m) : Prop where
  dependent : s.Dependent e w s'
  none_leaves : s'.firstLeaving e side = none

/-- An entity has left for a dependent one, which has been prepared again. -/
structure Swapped (s : Constrained K n m) (e : Entity n m) (side : Activity) (w : PreparedRow K)
    (flip : Bool) (t : K) (leaver : Entity n m) (w' : PreparedRow K) (s' : Constrained K n m) :
    Prop where
  chain : ∃ s1 s2, s.Dependent e w s1 ∧ s1.firstLeaving e side = some (flip, t, leaver) ∧
    s1.Left leaver s2 ∧ s2.InStep ∧ s2.Reordered s'
  prepared : s'.Prepared w' e

/-- A dependent entity has taken the place of another one. -/
inductive Exchanged (s : Constrained K n m) (e : Entity n m) (side : Activity)
    (w : PreparedRow K) : Constrained K n m → Prop
  | intro {flip : Bool} {t : K} {leaver : Entity n m} {w' : PreparedRow K}
    {s1 s2 : Constrained K n m} (hswapped : s.Swapped e side w flip t leaver w' s1)
    (hind : w'.independent = true) (hentered : s1.Entered side w' s2 e) :
    Exchanged s e side w
      { s2 with y := s2.exchangedMultipliers e leaver (if flip then -t else t) }

/-- How an exchange fails. -/
inductive ExchangeFailed (s : Constrained K n m) (e : Entity n m) (side : Activity)
    (w : PreparedRow K) : QpError → Constrained K n m → Prop
  | unsolved (h : s.Undetermined w) : ExchangeFailed s e side w .ensureLiFailedTq s
  | stuck {s' : Constrained K n m} (h : s.Stuck e side w s') :
    ExchangeFailed s e side w e.kind.addFailedInfeasibility s'
  | removal {error : QpError} {leaver : Entity n m} {s1 s' : Constrained K n m}
    (hdependent : s.Dependent e w s1) (hstranded : s1.Stranded leaver error s')
    (herror : error ∈ removalErrors) (horder : s'.InOrder) : ExchangeFailed s e side w error s'
  | dependent {flip : Bool} {t : K} {leaver : Entity n m} {w' : PreparedRow K}
    {s1 : Constrained K n m} (hswapped : s.Swapped e side w flip t leaver w' s1)
    (hind : w'.independent = false) :
    ExchangeFailed s e side w e.kind.addFailedInfeasibility { s1 with status := .notInitialised }

/-- An exchange succeeds or fails in one of four ways. -/
theorem exchange_ensures (hs : s.InStep) {e : Entity n m} {side : Activity} {w : PreparedRow K}
    (hw : s.Prepared w e) (he : s.CanEnter side e) :
    (exchange e side w).Ensures s (fun _ s' => s.Exchanged e side w s' ∧ s'.InStep)
      fun f s' => ∃ error, f = .failed error ∧ s.ExchangeFailed e side w error s' := by
  unfold exchange
  refine Update.ensures_bind_of (withDependency_ensures hs.toListed hw) ?_ ?_
  · rintro f s' ⟨rfl, rfl, hunsolved⟩
    exact ⟨_, rfl, .unsolved hunsolved⟩
  rintro ⟨⟩ s1 hdependent
  have hs1 := hdependent.inStep hs
  rw [Update.ensures_bind, Update.ensures_get]
  rw [show (s1.directions e side).findSome? (fun flip => (s1.leaving flip).map (flip, ·)) =
    s1.firstLeaving e side from rfl]
  -- where nothing can leave, the new entity cannot enter
  cases hleaving : s1.firstLeaving e side with
  | none =>
    rw [Update.ensures_fail]
    exact ⟨_, rfl, .stuck ⟨hdependent, hleaving⟩⟩
  | some r =>
    obtain ⟨flip, t, leaver⟩ := r
    dsimp only
    have hleave := canLeave_of_leaving (firstLeaving_eq_some hleaving).2
    refine Update.ensures_bind_of (removeEntity_ensures hs1 hleave) ?_ ?_
    · rintro f s' ⟨error, rfl, hstranded, herror, horder⟩
      exact ⟨error, rfl, .removal hdependent hstranded herror horder⟩
    rintro ⟨⟩ s2 ⟨hleft, hs2⟩
    -- the new entity is still outside, and its row is looked at once more
    have he2 : s2.CanEnter side e := by
      refine hleft.canEnter hs1.toInOrder ?_
      cases hdependent with
      | intro hxi => exact he.congr rfl rfl
    refine Update.ensures_bind_of (prepareEntity_ensures hs2.toListed he2) (fun _ _ h => h.elim) ?_
    rintro w' s3 ⟨hreordered, hw'⟩
    have hs3 := hreordered.inStep hs2
    have hswapped : s.Swapped e side w flip t leaver w' s3 :=
      ⟨⟨s1, s2, hdependent, hleaving, hleft, hs2, hreordered⟩, hw'⟩
    -- it is independent unless rounding says otherwise
    rw [Update.ensures_ite]
    constructor
    · intro hind
      refine Update.ensures_bind_of (appendEntity_ensures hs3 hw' hind (hreordered.canEnter he2))
        (fun _ _ h => h.elim) ?_
      rintro ⟨⟩ s4 ⟨hentered, hs4⟩
      rw [Update.ensures_modify]
      exact ⟨.intro hswapped hind hentered, hs4.congr rfl rfl rfl rfl rfl rfl⟩
    · intro hind
      rw [Update.ensures_bind, Update.ensures_modify, Update.ensures_fail]
      exact ⟨_, rfl, .dependent hswapped (by simpa using hind)⟩

/-- An entity outside the working set enters it, by itself or in the place of another one, or an
exchange has failed. -/
theorem addEntity_ensures (hs : s.InStep) {e : Entity n m} {side : Activity}
    (he : s.CanEnter side e) :
    (addEntity e side).Ensures s
      (fun _ s' => s'.InStep ∧ ∃ w s1, s.Reordered s1 ∧ s1.Prepared w e ∧
        (w.independent = true ∧ s1.Entered side w s' e ∨
          w.independent = false ∧ s1.Exchanged e side w s'))
      fun f s' => ∃ error w s1, f = .failed error ∧ s.Reordered s1 ∧ s1.Prepared w e ∧
        w.independent = false ∧ s1.ExchangeFailed e side w error s' := by
  unfold addEntity
  refine Update.ensures_bind_of (prepareEntity_ensures hs.toListed he) (fun _ _ h => h.elim) ?_
  rintro w s1 ⟨hreordered, hw⟩
  have hs1 := hreordered.inStep hs
  have he1 := hreordered.canEnter he
  rw [Update.ensures_ite]
  constructor
  · -- an independent entity just enters
    intro hind
    refine (appendEntity_ensures hs1 hw hind he1).mono ?_ fun _ _ h => h.elim
    rintro ⟨⟩ s' ⟨hentered, hs'⟩
    exact ⟨hs', w, s1, hreordered, hw, .inl ⟨hind, hentered⟩⟩
  · -- a dependent one has to take the place of another
    intro hind
    have hind' : w.independent = false := by simpa using hind
    refine (exchange_ensures hs1 hw he1).mono ?_ ?_
    · rintro ⟨⟩ s' ⟨hexchanged, hs'⟩
      exact ⟨hs', w, s1, hreordered, hw, .inr ⟨hind', hexchanged⟩⟩
    · rintro f s' ⟨error, rfl, hfailed⟩
      exact ⟨error, w, s1, rfl, hreordered, hw, hind', hfailed⟩

end ActiveSet.Constrained
