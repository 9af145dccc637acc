import ActiveSet.Proofs.Factor.Dimensions
import ActiveSet.Proofs.Solver.Bounds
import ActiveSet.Proofs.Solver.Positions
import ActiveSet.Solver.Constrained.WorkingSet

/-!
# Changes of a working set with constraints

Five records describe the working set: two partitions, the lists of free variables and of active
constraints, and the dimensions of the two factorizations. `InOrder` is what holds of them always,
and `InStep` what holds while there is a factorization. Between the two, `Listed` leaves the factor
of the objective's matrix out, which a change of the working set brings up to date last.

Each operation has one lemma. It says that no requirement is broken, that the records agree again,
and, by a relation between the states before and after, which operations of the factorizations led
there. The numbers play no part in any of this.

* `Reordered`, `Prepared`: the preparation of an entity.
* `ConstraintEntered`, `BoundEntered`, `Entered`: an entity has entered the working set.
* `Released`, `Extended`, `Left`, `Stranded`: an entity has left it, or cannot.
-/

namespace ActiveSet.Constrained

variable {K : Type} {n m : Nat}

/-! ## Records of the working set -/

/-- The two records of which entities are active agree, for bounds and for constraints. -/
structure InOrder (s : Constrained K n m) : Prop extends s.toCore.BoundsInOrder where
  constraints_sound : s.constraints.Sound
  constraints_capacity : s.constraints.partition.capacity = min n m

/-- The lists of free variables and of active constraints agree with the sets of entities, and the
null space factorization has the dimensions of the lists. -/
structure Listed (s : Constrained K n m) : Prop extends s.InOrder, s.toCore.FreeInStep where
  active_listed : s.constraints.Listed s.active true
  known : ∀ i : Fin m, s.constraints.limitType i ≠ .unknown
  nFree_eq : s.nullSpace.nFree = s.free.length
  nActive_eq : s.nullSpace.nActive = s.active.length

/-- All records of the working set agree. -/
structure InStep (s : Constrained K n m) : Prop extends s.Listed where
  equality : ∀ i : Fin m, s.constraints.limitType i = .equality → s.constraints.isActive i = true
  dim_eq : s.factor.dim = s.nNull

variable {s s' : Constrained K n m}

theorem InOrder.congr (h : s.InOrder) (hb : s'.bounds = s.bounds)
    (hc : s'.constraints = s.constraints) : s'.InOrder :=
  ⟨h.toBoundsInOrder.congr hb, hc ▸ h.constraints_sound, hc ▸ h.constraints_capacity⟩

theorem Listed.congr (h : s.Listed) (hb : s'.bounds = s.bounds)
    (hc : s'.constraints = s.constraints) (hf : s'.free = s.free) (ha : s'.active = s.active)
    (hn : s'.nullSpace = s.nullSpace) : s'.Listed := by
  refine ⟨h.toInOrder.congr hb hc, h.toFreeInStep.congr hb hf, ?_, hc ▸ h.known, ?_, ?_⟩
  · rw [hc, ha]
    exact h.active_listed
  · rw [hn, hf]
    exact h.nFree_eq
  · rw [hn, ha]
    exact h.nActive_eq

theorem InStep.congr (h : s.InStep) (hb : s'.bounds = s.bounds)
    (hc : s'.constraints = s.constraints) (hf : s'.free = s.free) (ha : s'.active = s.active)
    (hn : s'.nullSpace = s.nullSpace) (hdim : s'.factor.dim = s.factor.dim) : s'.InStep := by
  refine ⟨h.toListed.congr hb hc hf ha hn, hc ▸ h.equality, ?_⟩
  rw [nNull, hdim, hn]
  exact h.dim_eq

theorem InStep.classified_constraints (h : s.InStep) : s.constraints.Classified :=
  ⟨h.known, h.equality⟩

theorem Listed.nNull_add (h : s.Listed) : s.nNull + s.active.length = s.free.length := by
  have hle := s.nullSpace.nActive_le
  rw [nNull, NullSpace.nNull]
  have := h.nFree_eq
  have := h.nActive_eq
  omega

/-- There is room in the partition for a constraint while there is room in the factorization. -/
theorem Listed.activeCount_lt (h : s.Listed) (hroom : s.active.length < min n m) :
    s.constraints.partition.activeCount < s.constraints.partition.capacity := by
  rw [h.constraints_capacity]
  have hcount : s.constraints.partition.activeCount = s.active.length :=
    h.constraints_sound.activeCount_eq h.active_listed
  omega

/-- Whether an entity is outside the working set and has a limit at a side. -/
def CanEnter (s : Constrained K n m) (side : Activity) : Entity n m → Prop
  | .bound i => s.bounds.CanEnter i side
  | .constraint i => s.constraints.CanEnter i side

/-- Whether an entity is in the working set and no equality. -/
def CanLeave (s : Constrained K n m) : Entity n m → Prop
  | .bound i => s.bounds.CanLeave i
  | .constraint i => s.constraints.CanLeave i

theorem CanEnter.congr {side : Activity} {e : Entity n m} (h : s.CanEnter side e)
    (hb : s'.bounds = s.bounds) (hc : s'.constraints = s.constraints) : s'.CanEnter side e := by
  cases e with
  | bound i =>
    unfold CanEnter
    rw [hb]
    exact h
  | constraint i =>
    unfold CanEnter
    rw [hc]
    exact h

variable [Scalar K]

/-! ## Preparing an entity -/

/-- The row of a constraint as it is prepared. -/
def constraintRow (s : Constrained K n m) (i : Fin m) : PreparedRow K :=
  let a : Tuple K s.free.length := Tuple.ofFn _ (gather s.free (s.matrix i))
  let w : Tuple K s.free.length :=
    Tuple.ofFn _ fun j => sum s.free.length fun p => a p * s.nullSpace.q p j
  { length := s.free.length
    row := w
    independent := 0 < s.nNull ∧
      s.parameters.epsDependent * max (norm s.free.length a) 1 < norm s.nNull w ∧
      s.active.length < s.nullSpace.capacity }

/-- The row of the last free variable as it is prepared. -/
def lastFreeRow (s : Constrained K n m) : PreparedRow K :=
  let w : Tuple K s.nullSpace.nFree :=
    Tuple.ofFn _ fun j => s.nullSpace.q (s.free.length - 1) j
  { length := s.nullSpace.nFree
    row := w
    independent := 0 < s.nNull ∧ s.parameters.epsDependent < norm s.nNull w }

/-- A row has been prepared for an entity: a bound is that of the last free variable. -/
def Prepared (s : Constrained K n m) (w : PreparedRow K) : Entity n m → Prop
  | .bound i => s.free.getLast? = some i ∧ w = s.lastFreeRow
  | .constraint i => w = s.constraintRow i

/-- A free variable may have changed places with the last one. -/
inductive Reordered (s : Constrained K n m) : Constrained K n m → Prop
  | refl : Reordered s s
  | swap {p : Nat} {nullSpace : NullSpace K n m} (hp : p < s.free.length)
    (hswap : s.nullSpace.swapRows? p (s.free.length - 1) = some nullSpace) :
    Reordered s { s with nullSpace, free := moveLast s.free p }

theorem Reordered.listed (h : s.Reordered s') (hs : s.Listed) : s'.Listed ∧ s'.nNull = s.nNull := by
  cases h with
  | refl => exact ⟨hs, rfl⟩
  | @swap p nullSpace hp hswap =>
    have hle := hs.length_free_le
    obtain ⟨f, hf, hfree, hactive⟩ := NullSpace.swapRows?_of (f := s.nullSpace) (a := p)
      (b := s.free.length - 1) (by omega) (by omega)
    rw [hswap] at hf
    cases hf
    refine ⟨⟨hs.toInOrder.congr rfl rfl, ⟨hs.listed.perm (perm_moveLast hp), hs.classified⟩,
      hs.active_listed, hs.known, ?_, hactive.trans hs.nActive_eq⟩, ?_⟩
    · rw [hfree, length_moveLast hp]
      exact hs.nFree_eq
    · simp only [nNull, NullSpace.nNull, hfree, hactive]

theorem Reordered.inStep (h : s.Reordered s') (hs : s.InStep) : s'.InStep := by
  obtain ⟨hlisted, hnull⟩ := h.listed hs.toListed
  cases h with
  | refl => exact hs
  | swap hp hswap => exact ⟨hlisted, hs.equality, hs.dim_eq.trans hnull.symm⟩

theorem Reordered.canEnter (h : s.Reordered s') {side : Activity} {e : Entity n m}
    (he : s.CanEnter side e) : s'.CanEnter side e := by
  cases h with
  | refl => exact he
  | swap hp hswap => exact he.congr rfl rfl

theorem Prepared.length_eq {w : PreparedRow K} {e : Entity n m} (h : s.Prepared w e)
    (hs : s.Listed) : w.length = s.free.length := by
  cases e with
  | bound i =>
    rw [h.2]
    exact hs.nFree_eq
  | constraint i =>
    rw [show w = s.constraintRow i from h]
    rfl

/-- An entity that can enter the working set as it is leaves the null space a direction. -/
theorem Prepared.nNull_pos {w : PreparedRow K} {e : Entity n m} (h : s.Prepared w e)
    (hw : w.independent = true) : 0 < s.nNull := by
  cases e with
  | bound i =>
    rw [h.2] at hw
    exact (of_decide_eq_true hw).1
  | constraint i =>
    rw [show w = s.constraintRow i from h] at hw
    exact (of_decide_eq_true hw).1

/-- There is room for a constraint that can enter the working set as it is. -/
theorem Prepared.room {w : PreparedRow K} {i : Fin m} (h : s.Prepared w (.constraint i))
    (hw : w.independent = true) : s.active.length < min n m := by
  rw [show w = s.constraintRow i from h] at hw
  exact (of_decide_eq_true hw).2.2

theorem prepareConstraint_ensures (hs : s.Listed) (i : Fin m) :
    (prepareConstraint i).Ensures s (fun w s' => s' = s ∧ w = s.constraintRow i)
      fun _ _ => False := by
  unfold prepareConstraint
  rw [Update.ensures_bind, Update.ensures_get]
  dsimp only
  rw [NullSpace.rowTimesQ?_of _ hs.nFree_eq.symm, Update.require_some, Update.ensures_bind,
    Update.ensures_pure, Update.ensures_pure]
  exact ⟨rfl, rfl⟩

theorem prepareBound_ensures (hs : s.Listed) {i : Fin n} (hi : s.bounds.isActive i = false) :
    (prepareBound i).Ensures s
      (fun w s' => s.Reordered s' ∧ s'.free.getLast? = some i ∧ w = s'.lastFreeRow)
      fun _ _ => False := by
  have hmem : i ∈ s.free := (hs.listed.mem_iff i).2 hi
  have hle := hs.length_free_le
  unfold prepareBound
  rw [Update.ensures_bind, Update.ensures_get]
  -- an inactive bound is found among the free variables, and its row is swapped to the end
  cases hfind : s.free.idxOf? i with
  | none => exact absurd hmem (List.idxOf?_eq_none_iff.1 hfind)
  | some p =>
    obtain ⟨hp, hpi, -⟩ := List.idxOf?_eq_some_iff.1 hfind
    obtain ⟨f, hf, hfree, hactive⟩ := NullSpace.swapRows?_of (f := s.nullSpace) (a := p)
      (b := s.free.length - 1) (by omega) (by omega)
    dsimp only
    rw [hf, Update.require_some, Update.ensures_bind, Update.ensures_pure, Update.ensures_bind,
      Update.ensures_set, if_pos (hs.nFree_eq.symm.trans hfree.symm),
      NullSpace.row?_of_lt f (by omega), Update.require_some, Update.ensures_bind,
      Update.ensures_pure, Update.ensures_pure]
    refine ⟨.swap hp hf, ?_, ?_⟩
    · rw [getLast?_moveLast hp, hpi]
    · simp only [lastFreeRow, length_moveLast hp]
      rfl

/-- The preparation of an entity outside the working set. -/
theorem prepareEntity_ensures (hs : s.Listed) {e : Entity n m} {side : Activity}
    (he : s.CanEnter side e) :
    (prepareEntity e).Ensures s (fun w s' => s.Reordered s' ∧ s'.Prepared w e)
      fun _ _ => False := by
  cases e with
  | bound i =>
    refine (prepareBound_ensures hs he.isActive_eq).mono ?_ fun _ _ h => h
    rintro w s' ⟨hreordered, hlast, hw⟩
    exact ⟨hreordered, hlast, hw⟩
  | constraint i =>
    refine (prepareConstraint_ensures hs i).mono ?_ fun _ _ h => h
    rintro w s' ⟨rfl, hw⟩
    exact ⟨.refl, hw⟩

/-! ## Entering -/

/-- The factor of the objective's matrix after the null space has been rotated and has lost its last
direction. -/
def narrowedFactor? (s : Constrained K n m) (gs : List (Rotation K)) : Option (Cholesky K n) := do
  (← s.factor.turnBases? 0 gs).dropLast?

theorem narrowedFactor?_of {gs : List (Rotation K)} (hdim : s.factor.dim = s.nNull)
    (hpos : 0 < s.nNull) (hgs : gs.length = s.nNull - 1) :
    ∃ factor, s.narrowedFactor? gs = some factor ∧ factor.dim = s.nNull - 1 := by
  obtain ⟨turned, hturned, hturnedDim⟩ :=
    Cholesky.turnBases?_of gs (f := s.factor) 0 (by omega)
  obtain ⟨factor, hfactor, hfactorDim⟩ := turned.dropLast?_of (by omega)
  refine ⟨factor, ?_, by omega⟩
  unfold narrowedFactor?
  rw [hturned]
  exact hfactor

/-- A prepared constraint has entered the working set, with the factor of the objective's matrix or
before it has been computed. -/
inductive ConstraintEntered (s : Constrained K n m) (i : Fin m) (side : Activity)
    (w : PreparedRow K) (withFactor : Bool) : Constrained K n m → Prop
  | intro {constraints : EntitySet .constraint m} {gs : List (Rotation K)}
    {row : Tuple K w.length} {factor : Cholesky K n} {nullSpace : NullSpace K n m}
    (hactivate : s.constraints.activate i side = .ok constraints)
    (hrow : s.nullSpace.concentrate? w.row = some (gs, row))
    (hfactor : (if withFactor then s.narrowedFactor? gs else some s.factor) = some factor)
    (hnull : (s.nullSpace.turnZ gs).appendRow? row = some nullSpace) :
    ConstraintEntered s i side w withFactor
      { s with constraints, factor, nullSpace, active := s.active ++ [i] }

/-- A constraint that has been prepared and found independent enters, unless its set refuses it. -/
theorem appendConstraint_ensures (hs : s.Listed) {i : Fin m} {side : Activity} {w : PreparedRow K}
    (withFactor : Bool) (hw : s.Prepared w (.constraint i)) (hind : w.independent = true)
    (hdim : withFactor = true → s.factor.dim = s.nNull) :
    (appendConstraint i side w withFactor).Ensures s
      (fun _ s' => s.ConstraintEntered i side w withFactor s' ∧ s'.Listed ∧
        (withFactor = true → s'.factor.dim = s'.nNull))
      fun f s' => f = .failed .addConstraintFailed ∧ s' = s ∧
        ∃ e, s.constraints.activate i side = .error e := by
  have hpos := hw.nNull_pos hind
  have hroom := hw.room hind
  have hlength := hw.length_eq hs
  have hnull := hs.nNull_add
  have hnNull : s.nullSpace.nNull = s.nNull := rfl
  unfold appendConstraint
  rw [Update.ensures_bind, Update.ensures_get]
  dsimp only
  cases hactivate : s.constraints.activate i side with
  | error e =>
    rw [Update.ofExcept_error, Update.ensures_bind, Update.ensures_mapError, Update.ensures_fail]
    exact ⟨rfl, rfl, e, rfl⟩
  | ok constraints =>
    -- no operation on the factors is refused, since all dimensions fit
    obtain ⟨hinactive, hside, side', hfor, hmoved⟩ :=
      EntitySet.activate_spec hs.constraints_sound hactivate
    obtain ⟨gs, row, hrow, hgs⟩ :=
      NullSpace.concentrate?_of (f := s.nullSpace) w.row hpos (by omega)
    have hfactor : ∃ factor, (if withFactor then s.narrowedFactor? gs else some s.factor) =
        some factor ∧ (withFactor = true → factor.dim = s.nNull - 1) := by
      cases withFactor with
      | false => exact ⟨s.factor, rfl, fun h => nomatch h⟩
      | true =>
        obtain ⟨factor, hfactor, hfactorDim⟩ := narrowedFactor?_of (hdim rfl) hpos hgs
        exact ⟨factor, hfactor, fun _ => hfactorDim⟩
    obtain ⟨factor, hfactor, hfactorDim⟩ := hfactor
    obtain ⟨nullSpace, hnullSpace, hfree, hactive⟩ :=
      NullSpace.appendRow?_of (f := s.nullSpace.turnZ gs) row (hlength.trans hs.nFree_eq.symm)
        (by rw [NullSpace.nActive_turnZ, hs.nActive_eq]; exact hroom)
        (by rw [NullSpace.nActive_turnZ, NullSpace.nFree_turnZ, hs.nActive_eq, hs.nFree_eq]; omega)
    rw [Update.ofExcept_ok, Update.ensures_bind, Update.ensures_mapError, Update.ensures_pure,
      hrow, Update.require_some, Update.ensures_bind, Update.ensures_pure]
    dsimp only
    change Update.Ensures (Update.require (if withFactor then s.narrowedFactor? gs else _) >>= _)
      s _ _
    rw [hfactor, Update.require_some, Update.ensures_bind, Update.ensures_pure, hnullSpace,
      Update.require_some, Update.ensures_bind, Update.ensures_pure, Update.ensures_set]
    -- the lists grow by one entity, and the null space shrinks by one direction
    have hperm : (s.active ++ [i]).Perm (i :: s.active) := List.perm_append_singleton i s.active
    have hlisted : Listed { s with constraints, factor, nullSpace, active := s.active ++ [i] } := by
      refine ⟨⟨hs.toBoundsInOrder.congr rfl, hmoved.sound,
        hmoved.capacity.trans hs.constraints_capacity⟩, hs.toFreeInStep.congr rfl rfl,
        hs.active_listed.insert hperm (by simp [hinactive])
          (EntitySet.sideFor_isActive hside hfor) hmoved, fun j => ?_, ?_, ?_⟩
      · rw [hmoved.limitType]
        exact hs.known j
      · exact hfree.trans hs.nFree_eq
      · rw [hactive, NullSpace.nActive_turnZ, hs.nActive_eq, List.length_append,
          List.length_singleton]
    have hnull' := hlisted.nNull_add
    rw [List.length_append, List.length_singleton] at hnull'
    refine ⟨.intro hactivate hrow hfactor hnullSpace, hlisted, fun h => ?_⟩
    have hfactorDim := hfactorDim h
    dsimp only at hnull' ⊢
    omega

/-- A prepared bound has entered the working set. -/
inductive BoundEntered (s : Constrained K n m) (i : Fin n) (side : Activity)
    (w : PreparedRow K) : Constrained K n m → Prop
  | intro {bounds : EntitySet .bound n} {gs : List (Rotation K)} {row : Tuple K w.length}
    {factor : Cholesky K n} {nullSpace : NullSpace K n m}
    (hactivate : s.bounds.activate i side = .ok bounds)
    (hrow : s.nullSpace.concentrate? w.row = some (gs, row))
    (hfactor : s.narrowedFactor? gs = some factor)
    (hnull : (s.nullSpace.turnZ gs).removeLastRow? = some nullSpace) :
    BoundEntered s i side w { s with bounds, factor, nullSpace, free := s.free.dropLast }

/-- A prepared entity has entered the working set. -/
def Entered (s : Constrained K n m) (side : Activity) (w : PreparedRow K) (s' : Constrained K n m) :
    Entity n m → Prop
  | .bound i => s.BoundEntered i side w s'
  | .constraint i => s.ConstraintEntered i side w true s'

/-- A bound that has been prepared and found independent enters. -/
theorem appendBound_ensures (hs : s.InStep) {i : Fin n} {side : Activity} {w : PreparedRow K}
    (hw : s.Prepared w (.bound i)) (hind : w.independent = true)
    (hi : s.bounds.CanEnter i side) :
    (appendBound i side w).Ensures s (fun _ s' => s.BoundEntered i side w s' ∧ s'.InStep)
      fun _ _ => False := by
  have hpos := hw.nNull_pos hind
  have hlength := hw.length_eq hs.toListed
  have hnull := hs.nNull_add
  have hnNull : s.nullSpace.nNull = s.nNull := rfl
  have hroom : s.bounds.partition.activeCount < s.bounds.partition.capacity := by
    rw [hs.capacity]
    exact hs.sound.activeCount_lt hi.isActive_eq
  -- no operation on the factors is refused, since all dimensions fit
  obtain ⟨bounds, hactivate, hmoved, hclass⟩ := hi.activate hs.sound hs.classified hroom
  obtain ⟨gs, row, hrow, hgs⟩ :=
    NullSpace.concentrate?_of (f := s.nullSpace) w.row hpos (by omega)
  obtain ⟨factor, hfactor, hfactorDim⟩ := narrowedFactor?_of hs.dim_eq hpos hgs
  obtain ⟨nullSpace, hnullSpace, hfree, hactive⟩ :=
    NullSpace.removeLastRow?_of (f := s.nullSpace.turnZ gs)
      (by rw [NullSpace.nActive_turnZ, NullSpace.nFree_turnZ, hs.nActive_eq, hs.nFree_eq]; omega)
  unfold appendBound
  rw [Update.ensures_bind, Update.ensures_get]
  dsimp only
  rw [hactivate, Update.ofExcept_ok, Update.ensures_bind, Update.ensures_mapError,
    Update.ensures_pure, hrow, Update.require_some, Update.ensures_bind, Update.ensures_pure]
  dsimp only
  change Update.Ensures (Update.require (s.narrowedFactor? gs) >>= _) s _ _
  rw [hfactor, Update.require_some, Update.ensures_bind, Update.ensures_pure, hnullSpace,
    Update.require_some, Update.ensures_bind, Update.ensures_pure, Update.ensures_set]
  -- the variable is the last of the free ones, where the preparation has put it
  have hperm : s.free.Perm (i :: s.free.dropLast) := by
    obtain ⟨init, hinit⟩ := List.getLast?_eq_some_iff.1 hw.1
    rw [hinit, List.dropLast_concat]
    exact List.perm_append_singleton i init
  have hlisted : Listed { s with bounds, factor, nullSpace, free := s.free.dropLast } := by
    refine ⟨⟨⟨hmoved.sound, hmoved.capacity.trans hs.capacity⟩, hs.constraints_sound,
      hs.constraints_capacity⟩, ⟨hs.listed.remove hperm (by simp [hi.isActive_side]) hmoved, hclass⟩,
      hs.active_listed, hs.known, ?_, ?_⟩
    · rw [hfree, NullSpace.nFree_turnZ, hs.nFree_eq, List.length_dropLast]
    · exact hactive.trans hs.nActive_eq
  have hnull' := hlisted.nNull_add
  rw [List.length_dropLast] at hnull'
  refine ⟨.intro hactivate hrow hfactor hnullSpace, hlisted, hs.equality, ?_⟩
  dsimp only at hnull' ⊢
  omega

/-- An entity that has been prepared and found independent enters. -/
theorem appendEntity_ensures (hs : s.InStep) {e : Entity n m} {side : Activity} {w : PreparedRow K}
    (hw : s.Prepared w e) (hind : w.independent = true) (he : s.CanEnter side e) :
    (appendEntity e side w).Ensures s (fun _ s' => s.Entered side w s' e ∧ s'.InStep)
      fun _ _ => False := by
  cases e with
  | bound i => exact appendBound_ensures hs hw hind he
  | constraint i =>
    have hroom := hs.activeCount_lt (hw.room hind)
    obtain ⟨constraints, hactivate, hmoved, hclass⟩ :=
      EntitySet.CanEnter.activate he hs.constraints_sound hs.classified_constraints hroom
    refine (appendConstraint_ensures hs.toListed true hw hind fun _ => hs.dim_eq).mono ?_ ?_
    · rintro ⟨⟩ s' ⟨hentered, hlisted, hdim⟩
      refine ⟨hentered, hlisted, ?_, hdim rfl⟩
      cases hentered with
      | intro hactivate' hrow hfactor hnull =>
        rw [hactivate] at hactivate'
        cases hactivate'
        exact hclass.equality
    · -- the set has room for the entity, so the failure cannot be that of the set
      rintro f s' ⟨-, -, e, herror⟩
      rw [hactivate] at herror
      cases herror

/-! ## Leaving -/

/-- The last direction of the null space, over the free variables. -/
def lastDirection (s : Constrained K n m) : Tuple K s.nullSpace.nFree :=
  Tuple.ofFn _ fun p => s.nullSpace.q p (s.nNull - 1)

/-- The product of the objective's matrix with the last direction of the null space. -/
def hessianTimesLast (s : Constrained K n m) : Tuple K s.free.length :=
  Tuple.ofFn _ fun p =>
    sum s.free.length fun q =>
      gather s.free (fun u => gather s.free (s.hessian u) q) p * s.lastDirection q

/-- The column by which the matrix of the factor grows, above the diagonal. -/
def lastProducts (s : Constrained K n m) : Tuple K (s.nNull - 1) :=
  Tuple.ofFn _ fun j => sum s.free.length fun p => s.nullSpace.q p j * s.hessianTimesLast p

/-- The diagonal entry of the column by which the matrix of the factor grows. -/
def lastCurvature (s : Constrained K n m) : K :=
  dot s.free.length s.lastDirection s.hessianTimesLast

/-- The factor of the objective's matrix has been extended by the last direction of the null
space. -/
inductive Extended (s : Constrained K n m) : Constrained K n m → Prop
  | intro {column : Tuple K (s.nNull - 1)} {factor : Cholesky K n} {tilt : Tuple K n}
    (happend : s.factor.append? s.lastProducts s.lastCurvature s.parameters.epsDefinite
      s.parameters.epsZero = some (.ok (column, factor))) :
    Extended s { s with factor, tilt }

/-- The factor of the objective's matrix cannot be extended by the last direction of the null
space. -/
def Unextended (s : Constrained K n m) : Prop :=
  ∃ f, s.factor.append? s.lastProducts s.lastCurvature s.parameters.epsDefinite
    s.parameters.epsZero = some (.error f)

/-- The factor of the objective's matrix has not followed the null space, which has gained a
direction. -/
inductive Unfollowed (s : Constrained K n m) (removal : QpError) :
    QpError → Constrained K n m → Prop
  | intro {f : Failure (Tuple K (s.nNull - 1))} {tilt : Tuple K n}
    (hfailed : s.factor.append? s.lastProducts s.lastCurvature s.parameters.epsDefinite
      s.parameters.epsZero = some (.error f)) :
    Unfollowed s removal (s.extensionError removal f.error) { s with tilt }

theorem Unfollowed.unextended {removal e : QpError} (h : s.Unfollowed removal e s') :
    s.Unextended := by
  cases h with
  | intro hfailed => exact ⟨_, hfailed⟩

theorem extendFactor_ensures (hs : s.Listed) (hdim : s.factor.dim + 1 = s.nNull)
    (removal : QpError) :
    (extendFactor removal).Ensures s
      (fun _ s' => s.Extended s' ∧ s'.Listed ∧ s'.factor.dim = s'.nNull)
      fun f s' => ∃ e, f = .failed e ∧ s.Unfollowed removal e s' := by
  have hnull := hs.nNull_add
  have hle := hs.length_free_le
  have hcolumn : s.nullSpace.column? (s.nNull - 1) = some s.lastDirection :=
    NullSpace.column?_of_lt _ (by omega)
  have hnot : ¬(s.nNull = 0 ∨ s.free.length ≠ s.nullSpace.nFree) := by
    rintro (h | h)
    · omega
    · exact h hs.nFree_eq.symm
  unfold extendFactor
  rw [Update.ensures_bind, Update.ensures_get, if_neg hnot]
  dsimp only
  rw [hcolumn, Update.require_some, Update.ensures_bind, Update.ensures_pure, Update.ensures_bind]
  change Update.Ensures (Update.require (s.factor.append? s.lastProducts s.lastCurvature
    s.parameters.epsDefinite s.parameters.epsZero)) s _ _
  -- the new column can always be solved for, and whether it has a pivot decides
  obtain ⟨column, factor, hfactor, hfactorDim⟩ | ⟨e, herror⟩ :=
    Cholesky.append?_of (f := s.factor) s.lastProducts s.lastCurvature s.parameters.epsDefinite
      s.parameters.epsZero (by omega) (by omega)
  · rw [hfactor, Update.require_some, Update.ensures_pure, Update.ensures_set]
    exact ⟨.intro hfactor, hs.congr rfl rfl rfl rfl rfl, hfactorDim.trans hdim⟩
  · rw [herror, Update.require_some, Update.ensures_pure, Update.ensures_bind, Update.ensures_set,
      Update.ensures_fail]
    exact ⟨_, rfl, .intro herror⟩

/-- An entity has left the working set, and the factor of the objective's matrix does not know of it
yet. -/
inductive Released (s : Constrained K n m) : Entity n m → Constrained K n m → Prop
  | bound {i : Fin n} {bounds : EntitySet .bound n} {nullSpace : NullSpace K n m}
    {column : Tuple K s.active.length}
    (hdeactivate : s.bounds.deactivate i = .ok bounds)
    (hnull : s.nullSpace.appendFreeRow?
      (Tuple.ofFn s.active.length (gather s.active fun r => s.matrix r i)) =
        some (nullSpace, column)) :
    Released s (.bound i) { s with bounds, nullSpace, free := s.free ++ [i] }
  | constraint {i : Fin m} {p : Nat} {constraints : EntitySet .constraint m}
    {nullSpace : NullSpace K n m} (hp : s.active[p]? = some i)
    (hdeactivate : s.constraints.deactivate i = .ok constraints)
    (hnull : s.nullSpace.removeRow? p = some nullSpace) :
    Released s (.constraint i) { s with constraints, nullSpace, active := s.active.eraseIdx p }

/-- What is released has been active. What could enter still can, since it is another entity. -/
theorem Released.canEnter {leaver e : Entity n m} {side : Activity} (h : s.Released leaver s')
    (hs : s.InOrder) (he : s.CanEnter side e) : s'.CanEnter side e := by
  cases h with
  | @bound i bounds nullSpace column hdeactivate hnull =>
    obtain ⟨hactive, hmoved⟩ := EntitySet.deactivate_spec hs.sound hdeactivate
    cases e with
    | bound j =>
      -- what leaves was active and what enters is not, so they are not the same
      refine EntitySet.CanEnter.moved he hmoved ?_
      rintro rfl
      rw [EntitySet.CanEnter.isActive_eq he] at hactive
      cases hactive
    | constraint j => exact he
  | @constraint i p constraints nullSpace hp hdeactivate hnull =>
    obtain ⟨hactive, hmoved⟩ := EntitySet.deactivate_spec hs.constraints_sound hdeactivate
    cases e with
    | bound j => exact he
    | constraint j =>
      refine EntitySet.CanEnter.moved he hmoved ?_
      rintro rfl
      rw [EntitySet.CanEnter.isActive_eq he] at hactive
      cases hactive

/-- An entity has left the working set. -/
def Left (s : Constrained K n m) (e : Entity n m) (s' : Constrained K n m) : Prop :=
  ∃ s1, s.Released e s1 ∧ s1.Listed ∧ s1.Extended s'

theorem Left.canEnter {leaver e : Entity n m} {side : Activity} (h : s.Left leaver s')
    (hs : s.InOrder) (he : s.CanEnter side e) : s'.CanEnter side e := by
  obtain ⟨s1, hreleased, -, hextended⟩ := h
  cases hextended with
  | intro happend => exact (hreleased.canEnter hs he).congr rfl rfl

/-- The errors with which an entity may be refused to leave. -/
def removalErrors : List QpError :=
  [.removeBoundFailed, .removeConstraintFailed, .hessianNotSpd, .hotstartStoppedUnboundedness]

/-- An entity has been released, but then the factor of the objective's matrix could not follow. -/
def Stranded (s : Constrained K n m) (e : Entity n m) (error : QpError) (s' : Constrained K n m) :
    Prop :=
  ∃ s1 removal, s.Released e s1 ∧ s1.Listed ∧ s1.factor.dim + 1 = s1.nNull ∧
    s1.Unfollowed removal error s'

/-- The factor is extended after an entity that is no equality has been released. -/
theorem extendFactor_of_released {e : Entity n m} {s1 : Constrained K n m}
    (hreleased : s.Released e s1) (hlisted : s1.Listed) (hdim : s1.factor.dim + 1 = s1.nNull)
    (hequality : ∀ i : Fin m, s1.constraints.limitType i = .equality →
      s1.constraints.isActive i = true) {removal : QpError} (hremoval : removal ∈ removalErrors) :
    (extendFactor removal).Ensures s1 (fun _ s' => s.Left e s' ∧ s'.InStep)
      fun f s' => ∃ error, f = .failed error ∧ s.Stranded e error s' ∧ error ∈ removalErrors ∧
        s'.InOrder := by
  refine (extendFactor_ensures hlisted hdim removal).mono ?_ ?_
  · rintro ⟨⟩ s' ⟨hextended, hlisted', hdim'⟩
    refine ⟨⟨s1, hreleased, hlisted, hextended⟩, hlisted', ?_, hdim'⟩
    cases hextended with
    | intro happend => exact hequality
  · rintro f s' ⟨e', rfl, hunfollowed⟩
    refine ⟨e', rfl, ⟨s1, removal, hreleased, hlisted, hdim, hunfollowed⟩, ?_⟩
    cases hunfollowed with
    | @intro f tilt hfailed =>
      refine ⟨?_, hlisted.toInOrder.congr rfl rfl⟩
      -- the error is that of the removal or one of the extension
      have hmem := s1.extensionError_mem removal f.error
      rw [List.mem_cons] at hmem
      obtain h | h := hmem
      · rw [h]
        exact hremoval
      · exact List.mem_cons_of_mem _ (List.mem_cons_of_mem _ h)

theorem removeConstraint_ensures (hs : s.InStep) {i : Fin m} (hi : s.constraints.CanLeave i) :
    (removeConstraint i).Ensures s (fun _ s' => s.Left (.constraint i) s' ∧ s'.InStep)
      fun f s' => ∃ error, f = .failed error ∧ s.Stranded (.constraint i) error s' ∧
        error ∈ removalErrors ∧ s'.InOrder := by
  have hmem : i ∈ s.active := (hs.active_listed.mem_iff i).2 hi.active
  have hnull := hs.nNull_add
  obtain ⟨constraints, hdeactivate, hmoved, hclass⟩ :=
    hi.deactivate hs.constraints_sound hs.classified_constraints
  unfold removeConstraint
  rw [Update.ensures_bind, Update.ensures_get]
  cases hfind : s.active.idxOf? i with
  | none => exact absurd hmem (List.idxOf?_eq_none_iff.1 hfind)
  | some p =>
    -- the constraint is found in its list, and its row taken out of the factors
    obtain ⟨hp, hpi, -⟩ := List.idxOf?_eq_some_iff.1 hfind
    obtain ⟨nullSpace, hnullSpace, hfree, hactive⟩ :=
      NullSpace.removeRow?_of (f := s.nullSpace) (p := p) (by rw [hs.nActive_eq]; exact hp)
    dsimp only
    rw [hdeactivate, Update.ofExcept_ok, Update.ensures_bind, Update.ensures_mapError,
      Update.ensures_pure, hnullSpace, Update.require_some, Update.ensures_bind,
      Update.ensures_pure, Update.ensures_bind, Update.ensures_set]
    -- the list shrinks by one entity, and the null space grows by one direction
    have hperm : s.active.Perm (i :: s.active.eraseIdx p) := by
      rw [← hpi]
      exact (List.getElem_cons_eraseIdx_perm hp).symm
    have hlength := hperm.length_eq
    rw [List.length_cons] at hlength
    have hlisted : Listed { s with constraints, nullSpace, active := s.active.eraseIdx p } := by
      refine ⟨⟨hs.toBoundsInOrder.congr rfl, hmoved.sound,
        hmoved.capacity.trans hs.constraints_capacity⟩, hs.toFreeInStep.congr rfl rfl,
        hs.active_listed.remove hperm rfl hmoved, hclass.known, hfree.trans hs.nFree_eq, ?_⟩
      rw [hactive, hs.nActive_eq, hlength, Nat.add_sub_cancel]
    have hnull' := hlisted.nNull_add
    have hdim := hs.dim_eq
    dsimp only at hnull'
    refine extendFactor_of_released (.constraint ?_ hdeactivate hnullSpace) hlisted ?_
      hclass.equality (by simp [removalErrors])
    · rw [List.getElem?_eq_getElem hp, hpi]
    · dsimp only
      omega

/-- The removal of a bound comes down to the extension of the factor. -/
theorem removeBound_of_released (hs : s.InStep) {i : Fin n} (hi : s.bounds.CanLeave i)
    {Q : Unit → Constrained K n m → Prop} {E : Fault → Constrained K n m → Prop}
    (h : ∀ s1, s.Released (.bound i) s1 → s1.Listed → s1.factor.dim + 1 = s1.nNull →
      s1.constraints = s.constraints → (extendFactor .removeBoundFailed).Ensures s1 Q E) :
    (removeBound i).Ensures s Q E := by
  have hnull := hs.nNull_add
  have hlt := hs.length_free_lt hi.active
  -- the bound is taken out of the working set, and its variable appended to the free ones
  obtain ⟨bounds, hdeactivate, hmoved, hclass⟩ := hi.deactivate hs.sound hs.classified
  obtain ⟨nullSpace, column, hnullSpace, hfree, hactive⟩ :=
    NullSpace.appendFreeRow?_of (f := s.nullSpace)
      (Tuple.ofFn s.active.length (gather s.active fun r => s.matrix r i)) hs.nActive_eq.symm
      (by rw [hs.nFree_eq]; exact hlt)
  unfold removeBound
  rw [Update.ensures_bind, Update.ensures_get]
  dsimp only
  rw [hdeactivate, Update.ofExcept_ok, Update.ensures_bind, Update.ensures_mapError,
    Update.ensures_pure, hnullSpace, Update.require_some, Update.ensures_bind,
    Update.ensures_pure, Update.ensures_bind, Update.ensures_set]
  have hperm : (s.free ++ [i]).Perm (i :: s.free) := List.perm_append_singleton i s.free
  have hlisted : Listed { s with bounds, nullSpace, free := s.free ++ [i] } := by
    refine ⟨⟨⟨hmoved.sound, hmoved.capacity.trans hs.capacity⟩, hs.constraints_sound,
      hs.constraints_capacity⟩, ⟨hs.listed.insert hperm (by simp [hi.active]) rfl hmoved, hclass⟩,
      hs.active_listed, hs.known, ?_, hactive.trans hs.nActive_eq⟩
    rw [hfree, hs.nFree_eq, List.length_append, List.length_singleton]
  -- the factor is one column short, which is added next
  have hnull' := hlisted.nNull_add
  rw [List.length_append, List.length_singleton] at hnull'
  have hdim := hs.dim_eq
  dsimp only at hnull'
  refine h _ (.bound hdeactivate hnullSpace) hlisted ?_ rfl
  dsimp only
  omega

theorem removeBound_ensures (hs : s.InStep) {i : Fin n} (hi : s.bounds.CanLeave i) :
    (removeBound i).Ensures s (fun _ s' => s.Left (.bound i) s' ∧ s'.InStep)
      fun f s' => ∃ error, f = .failed error ∧ s.Stranded (.bound i) error s' ∧
        error ∈ removalErrors ∧ s'.InOrder :=
  removeBound_of_released hs hi fun _ hreleased hlisted hdim hconstraints =>
    extendFactor_of_released hreleased hlisted hdim (hconstraints ▸ hs.equality)
      (by simp [removalErrors])

/-- An entity of the working set that is no equality leaves, unless the factor of the objective's
matrix cannot be extended. -/
theorem removeEntity_ensures (hs : s.InStep) {e : Entity n m} (he : s.CanLeave e) :
    (removeEntity e).Ensures s (fun _ s' => s.Left e s' ∧ s'.InStep)
      fun f s' => ∃ error, f = .failed error ∧ s.Stranded e error s' ∧ error ∈ removalErrors ∧
        s'.InOrder := by
  cases e with
  | bound i => exact removeBound_ensures hs he
  | constraint i => exact removeConstraint_ensures hs he

end ActiveSet.Constrained
