import ActiveSet.Proofs.Solver.Blocking
import ActiveSet.Proofs.Update
import ActiveSet.Solver.Auxiliary

/-!
# Bounds in the auxiliary problem

The set-up of an auxiliary problem classifies all bounds by the loaded limits and then moves those
into the working set that the guess suggests. `Core.prepareBounds_ensures` says all there is to know
about the state afterwards: `Core.BoundsPrepared` fixes every field that the set-up writes and says
that the others are as before. A failure leaves sound sets as well.

* `Core.BoundsInOrder`: the records of the bounds agree, in every state.
* `Core.FreeInStep`: the list of free variables agrees with them, while there is a factorization.
* `Core.Placeable`, `Core.prepareBounds_ok`: when a set-up of the bounds is not refused.
-/

namespace ActiveSet

/-- The errors by which limits or guesses are refused in the set-up of an auxiliary problem. -/
def setupRefusals : List QpError :=
  [.setupBoundFailed, .setupConstraintFailed, .setupWorkingSetFailed]

namespace Core

variable {K : Type} [Scalar K] {n m : Nat}

/-- The two records of which bounds are active agree, and there is room for all of them. -/
structure BoundsInOrder (s : Core K n m) : Prop where
  sound : s.bounds.Sound
  capacity : s.bounds.partition.capacity = n

/-- The free variables of the factorization are those outside the working set. -/
structure FreeInStep (s : Core K n m) : Prop where
  listed : s.bounds.Listed s.free false
  classified : s.bounds.Classified

omit [Scalar K] in
theorem BoundsInOrder.congr {s s' : Core K n m} (h : s.BoundsInOrder) (hb : s'.bounds = s.bounds) :
    s'.BoundsInOrder :=
  ⟨hb ▸ h.sound, hb ▸ h.capacity⟩

omit [Scalar K] in
theorem FreeInStep.congr {s s' : Core K n m} (h : s.FreeInStep) (hb : s'.bounds = s.bounds)
    (hf : s'.free = s.free) : s'.FreeInStep := by
  refine ⟨?_, hb ▸ h.classified⟩
  rw [hb, hf]
  exact h.listed

omit [Scalar K] in
theorem FreeInStep.length_free_le {s : Core K n m} (h : s.FreeInStep) : s.free.length ≤ n := by
  have hlength := h.listed.nodup.length_le_card
  rwa [Fintype.card_fin] at hlength

omit [Scalar K] in
/-- While a bound is active, not all variables are free. -/
theorem FreeInStep.length_free_lt {s : Core K n m} (h : s.FreeInStep) {i : Fin n}
    (hi : s.bounds.isActive i = true) : s.free.length < n := by
  have hnotin : i ∉ s.free := by
    rw [h.listed.mem_iff, hi]
    simp
  have hnodup : (i :: s.free).Nodup := List.nodup_cons.2 ⟨hnotin, h.listed.nodup⟩
  have hlength := hnodup.length_le_card
  rw [Fintype.card_fin] at hlength
  exact hlength

omit [Scalar K] in
/-- A failed extension of the factor is reported as one of three errors. -/
theorem extensionError_mem (s : Core K n m) (removal e : QpError) :
    s.extensionError removal e ∈ [removal, .hessianNotSpd, .hotstartStoppedUnboundedness] := by
  unfold extensionError
  split
  · split <;> simp
  · simp

/-- Following a direction writes the point, the multipliers and the current problem. -/
theorem perform_frame (tau : K) (event : StepEvent n m) (s : Core K n m) :
    ∃ x y current, s.perform tau event = { s with x, y, current } := by
  unfold perform
  dsimp only
  split
  · exact ⟨_, _, _, rfl⟩
  · exact ⟨_, _, _, rfl⟩
  · exact ⟨_, _, _, rfl⟩
  · exact ⟨_, _, _, rfl⟩

theorem status_perform (tau : K) (event : StepEvent n m) (s : Core K n m) :
    (s.perform tau event).status = s.status := by
  obtain ⟨x, y, current, h⟩ := perform_frame tau event s
  rw [h]

/-- The state after the bounds have been prepared for a guess. -/
structure BoundsPrepared (guess : Guess K n m) (s s' : Core K n m) : Prop where
  sound : s'.bounds.Sound
  capacity : s'.bounds.partition.capacity = s.bounds.partition.capacity
  classifiedBy : s'.bounds.ClassifiedBy s.target.lower s.target.upper s.parameters.epsBound
    s.parameters.infinity
  activity_eq : ∀ i : Fin n, s'.bounds.activity i = s'.startingSide guess i
  frame : s' = { s with
    bounds := s'.bounds
    x := guess.x.getD (s.x.scale 0)
    y := ⟨Tuple.ofFn n fun i => admissible (s'.bounds.limitType i) (s'.bounds.activity i)
        ((guess.y.getD (s.y.scale 0)).bound i) (guess.y.map fun y => y.bound i),
      (guess.y.getD (s.y.scale 0)).row⟩
    free := s'.bounds.inactive
    identityHessian := s.hasIdentityHessian }

/-! ## Classification -/

theorem classifyBounds_ensures {s : Core K n m} (hs : s.bounds.Sound)
    (hinactive : ∀ i : Fin n, s.bounds.isActive i = false) :
    classifyBounds.Ensures s
      (fun _ s' => ∃ b : EntitySet .bound n, s' = { s with bounds := b } ∧
        b.partition.capacity = s.bounds.partition.capacity ∧
        b.ClassifiedExcept s.target.lower s.target.upper s.parameters.epsBound
          s.parameters.infinity [])
      fun f s' => f = .failed .setupBoundFailed ∧ ∃ b : EntitySet .bound n,
        s' = { s with bounds := b } ∧
        b.partition.capacity = s.bounds.partition.capacity ∧ b.Sound := by
  unfold classifyBounds
  -- the bounds in `rest` have not been looked at yet
  refine Update.ensures_forM
    (I := fun rest s' => ∃ b : EntitySet .bound n, s' = { s with bounds := b } ∧
      b.partition.capacity = s.bounds.partition.capacity ∧
      b.ClassifiedExcept s.target.lower s.target.upper s.parameters.epsBound
        s.parameters.infinity rest) ?_ ?_
  · rintro i rest _ ⟨b, rfl, hcap, hb⟩
    rw [Update.ensures_bind, Update.ensures_get]
    dsimp only
    cases hclass : b.classify i (s.target.lower i) (s.target.upper i) s.parameters.epsBound
        s.parameters.infinity with
    | error e =>
      rw [Update.ofExcept_error, Update.ensures_bind, Update.ensures_fail]
      exact ⟨congrArg Fault.failed (EntitySet.classify_error hclass), b, rfl, hcap, hb.sound⟩
    | ok r =>
      obtain ⟨t, b'⟩ := r
      rw [Update.ofExcept_ok, Update.ensures_bind, Update.ensures_pure, Update.ensures_set]
      refine ⟨b', rfl, ?_, hb.classify hclass⟩
      rw [← hcap, (EntitySet.classify_spec hclass).2.2.2.1]
  · exact ⟨s.bounds, rfl, rfl, EntitySet.classifiedExcept_all hs hinactive⟩

/-! ## Activation -/

/-- An equality starts at its lower limit. -/
theorem startingSide_equality {s : Core K n m} {guess : Guess K n m} {i : Fin n}
    (h : s.bounds.limitType i = .equality) : s.startingSide guess i = .lower := by
  simp [startingSide, h, guessedActivity]

/-- What a guess says about an entity is a side of it or that it is inactive. -/
theorem guessedActivity_ne_undefined (p : Parameters K) (type : LimitType) (lower upper : K)
    (value multiplier : Option K) :
    guessedActivity p type lower upper value multiplier ≠ .undefined := by
  unfold guessedActivity
  cases type with
  | equality => simp
  | unbounded => simp
  | unknown => simp
  | bounded =>
    dsimp only
    intro h
    -- the point decides if it is given, then the multiplier, and else the bound starts inactive
    rw [Option.getD_eq_iff] at h
    obtain h | ⟨-, h⟩ := h
    · rw [Option.or_eq_some_iff] at h
      obtain h | ⟨-, h⟩ := h
      · obtain ⟨v, -, hv⟩ := Option.bind_eq_some_iff.1 h
        split at hv
        · cases hv
        · split at hv <;> cases hv
      · obtain ⟨w, -, hw⟩ := Option.bind_eq_some_iff.1 h
        split at hw
        · cases hw
        · split at hw <;> cases hw
    · cases h

theorem startingSide_ne_undefined (s : Core K n m) (guess : Guess K n m) (i : Fin n) :
    s.startingSide guess i ≠ .undefined := by
  unfold startingSide
  dsimp only
  split
  · split <;> simp
  · apply guessedActivity_ne_undefined

/-- A bound that does not start in the working set starts outside. -/
theorem startingSide_inactive {s : Core K n m} {guess : Guess K n m} {i : Fin n}
    (h : (s.startingSide guess i).isActive = false) : s.startingSide guess i = .inactive := by
  have hne := s.startingSide_ne_undefined guess i
  cases hside : s.startingSide guess i with
  | inactive => rfl
  | lower =>
    rw [hside] at h
    cases h
  | upper =>
    rw [hside] at h
    cases h
  | undefined => exact absurd hside hne

/-- The starting sides depend on the types of the bounds, not on their activities. -/
theorem startingSide_congr {s : Core K n m} {b : EntitySet .bound n} (h : b.types = s.bounds.types)
    (guess : Guess K n m) (i : Fin n) :
    { s with bounds := b }.startingSide guess i = s.startingSide guess i := by
  have htype : b.limitType i = s.bounds.limitType i := by
    simp only [EntitySet.limitType, h]
  unfold startingSide
  rw [htype]

/-- The bounds in the course of their activation: those of a list are still to come. -/
structure ActivatedExcept (s : Core K n m) (guess : Guess K n m) (b : EntitySet .bound n)
    (rest : List (Fin n)) : Prop where
  nodup : rest.Nodup
  sound : b.Sound
  types : b.types = s.bounds.types
  finite : b.finite = s.bounds.finite
  capacity : b.partition.capacity = s.bounds.partition.capacity
  activity_eq : ∀ i : Fin n,
    b.activity i = if i ∈ rest then .inactive else s.startingSide guess i

/-- One more bound has been activated. -/
theorem ActivatedExcept.activated {s : Core K n m} {guess : Guess K n m} {b b' : EntitySet .bound n}
    {i : Fin n} {rest : List (Fin n)} (h : s.ActivatedExcept guess b (i :: rest))
    (hactivate : b.activate i (s.startingSide guess i) = .ok b') :
    s.ActivatedExcept guess b' rest := by
  obtain ⟨hnotin, hnodup⟩ := List.nodup_cons.1 h.nodup
  obtain ⟨-, -, side', hfor, hmoved⟩ := EntitySet.activate_spec h.sound hactivate
  refine ⟨hnodup, hmoved.sound, hmoved.types.trans h.types, hmoved.finite.trans h.finite,
    hmoved.capacity.trans h.capacity, fun j => ?_⟩
  rw [hmoved.activity, h.activity_eq]
  by_cases hji : j = i
  · subst hji
    rw [if_pos rfl, if_neg hnotin]
    rw [EntitySet.sideFor_congr h.types h.finite] at hfor
    exact EntitySet.sideFor_eq hfor startingSide_equality
  · simp [hji]

/-- One more bound stays outside the working set. -/
theorem ActivatedExcept.skipped {s : Core K n m} {guess : Guess K n m} {b : EntitySet .bound n}
    {i : Fin n} {rest : List (Fin n)} (h : s.ActivatedExcept guess b (i :: rest))
    (hside : (s.startingSide guess i).isActive = false) : s.ActivatedExcept guess b rest := by
  obtain ⟨hnotin, hnodup⟩ := List.nodup_cons.1 h.nodup
  refine ⟨hnodup, h.sound, h.types, h.finite, h.capacity, fun j => ?_⟩
  rw [h.activity_eq]
  by_cases hji : j = i
  · subst hji
    rw [if_pos (List.mem_cons_self ..), if_neg hnotin]
    exact (startingSide_inactive hside).symm
  · simp [hji]

theorem activateBounds_ensures {s : Core K n m} (guess : Guess K n m) (hs : s.bounds.Sound)
    (hinactive : ∀ i : Fin n, s.bounds.activity i = .inactive) :
    (activateBounds guess).Ensures s
      (fun _ s' => ∃ b : EntitySet .bound n, s' = { s with bounds := b } ∧
        s.ActivatedExcept guess b [])
      fun f s' => f = .failed .setupWorkingSetFailed ∧ ∃ b : EntitySet .bound n,
        s' = { s with bounds := b } ∧
        b.partition.capacity = s.bounds.partition.capacity ∧ b.Sound := by
  unfold activateBounds
  -- the bounds in `rest` are still inactive
  refine Update.ensures_forM
    (I := fun rest s' => ∃ b : EntitySet .bound n, s' = { s with bounds := b } ∧
      s.ActivatedExcept guess b rest) ?_ ?_
  · rintro i rest _ ⟨b, rfl, hb⟩
    rw [Update.ensures_bind, Update.ensures_get]
    dsimp only
    rw [startingSide_congr hb.types]
    by_cases hside : (s.startingSide guess i).isActive = true
    · rw [if_pos hside, Update.ensures_bind, Update.ensures_mapError]
      cases hact : b.activate i (s.startingSide guess i) with
      | error e =>
        rw [Update.ofExcept_error, Update.ensures_fail]
        exact ⟨rfl, b, rfl, hb.capacity, hb.sound⟩
      | ok b' =>
        rw [Update.ofExcept_ok, Update.ensures_pure, Update.ensures_set]
        exact ⟨b', rfl, hb.activated hact⟩
    · rw [if_neg hside, Update.ensures_pure]
      exact ⟨b, rfl, hb.skipped (by simpa using hside)⟩
  · exact ⟨s.bounds, rfl, List.nodup_finRange n, hs, rfl, rfl, rfl, fun i => by simp [hinactive i]⟩

/-! ## Both together -/

/-- A failed preparation of the bounds leaves them in order. -/
theorem prepareBounds_ensures {s : Core K n m} (guess : Guess K n m) (hs : s.bounds.Sound)
    (hinactive : ∀ i : Fin n, s.bounds.isActive i = false) :
    (prepareBounds guess).Ensures s (fun _ s' => BoundsPrepared guess s s')
      fun f s' => (∃ e ∈ setupRefusals, f = .failed e) ∧ s'.bounds.Sound ∧
        s'.bounds.partition.capacity = s.bounds.partition.capacity := by
  unfold prepareBounds
  refine Update.ensures_bind_of (classifyBounds_ensures hs hinactive) ?_ ?_
  · rintro f _ ⟨hf, b, rfl, hcap, hb⟩
    exact ⟨⟨_, by simp [setupRefusals], hf⟩, hb, hcap⟩
  rintro ⟨⟩ _ ⟨b, rfl, hcap, hb⟩
  rw [Update.ensures_bind, Update.ensures_modify]
  have hactivity : ∀ i : Fin n, b.activity i = .inactive :=
    fun i => (hb.done i List.not_mem_nil).1
  refine Update.ensures_bind_of (activateBounds_ensures guess hb.sound hactivity) ?_ ?_
  · rintro f _ ⟨hf, b', rfl, hcap', hb'⟩
    exact ⟨⟨_, by simp [setupRefusals], hf⟩, hb', hcap'.trans hcap⟩
  rintro ⟨⟩ _ ⟨b', rfl, hb'⟩
  rw [Update.ensures_modify]
  -- the limits and their types are those found before any bound was activated
  have hclass : b'.ClassifiedBy s.target.lower s.target.upper s.parameters.epsBound
      s.parameters.infinity := by
    intro i
    have h := hb.classifiedBy i
    simp only [EntitySet.limitType, EntitySet.sides] at h ⊢
    rw [hb'.types, hb'.finite]
    exact h
  refine ⟨hb'.sound, hb'.capacity.trans hcap, hclass, fun i => ?_, rfl⟩
  rw [hb'.activity_eq, if_neg List.not_mem_nil]
  exact (startingSide_congr hb'.types guess i).symm

/-- Prepared bounds have been classified, and the list of free variables agrees with them. -/
theorem BoundsPrepared.freeInStep {guess : Guess K n m} {s s' : Core K n m}
    (h : BoundsPrepared guess s s') : s'.FreeInStep := by
  have hfree : s'.free = s'.bounds.inactive := by rw [h.frame]
  refine ⟨⟨?_, fun i => ?_⟩, fun i => ?_, fun i htype => ?_⟩
  · rw [hfree]
    exact h.sound.partition.nodup_inactive
  · rw [hfree]
    exact h.sound.mem_inactive i
  · rw [(h.classifiedBy i).2.1]
    exact EntitySet.typeOfLimits_ne_unknown _ _
  · rw [EntitySet.isActive, h.activity_eq]
    rw [startingSide_equality htype]
    rfl

/-! ## Bounds that are not refused -/

theorem classifyBounds_ok {s : Core K n m} (hunknown : ∀ i : Fin n, s.bounds.limitType i = .unknown)
    (hordered : ∀ i : Fin n, ¬s.target.upper i < s.target.lower i) :
    classifyBounds.Ensures s (fun _ _ => True) fun _ _ => False := by
  unfold classifyBounds
  -- what is still to come has not been looked at
  refine Update.ensures_forM_of (I := fun (rest : List (Fin n)) s' => rest.Nodup ∧
    ∃ b : EntitySet .bound n, s' = { s with bounds := b } ∧
      ∀ i ∈ rest, b.limitType i = .unknown) ?_ (fun _ _ => trivial) ?_
  · rintro i rest _ ⟨hnodup, b, rfl, hb⟩
    obtain ⟨hnotin, hnodup⟩ := List.nodup_cons.1 hnodup
    obtain ⟨t, b', hclass⟩ := EntitySet.classify_of s.parameters.epsBound
      s.parameters.infinity (hb i List.mem_cons_self) (hordered i)
    rw [Update.ensures_bind, Update.ensures_get]
    dsimp only
    rw [hclass, Update.ofExcept_ok, Update.ensures_bind, Update.ensures_pure, Update.ensures_set]
    refine ⟨hnodup, b', rfl, fun j hj => ?_⟩
    have hne : j ≠ i := fun heq => hnotin (heq ▸ hj)
    rw [(EntitySet.classify_spec hclass).2.2.2.2.1, if_neg hne]
    exact hb j (List.mem_cons_of_mem i hj)
  · exact ⟨List.nodup_finRange n, s.bounds, rfl, fun i _ => hunknown i⟩

/-- A guess asks only for sides at which the bounds have limits. -/
def Placeable (s : Core K n m) (guess : Guess K n m) : Prop :=
  ∀ i : Fin n, (s.startingSide guess i).isActive = true →
    s.bounds.sideFor i (s.startingSide guess i) = some (s.startingSide guess i)

theorem activateBounds_ok {s : Core K n m} {guess : Guess K n m} (hsound : s.bounds.Sound)
    (hcapacity : s.bounds.partition.capacity = n)
    (hinactive : ∀ i : Fin n, s.bounds.activity i = .inactive) (hside : s.Placeable guess) :
    (activateBounds guess).Ensures s (fun _ _ => True) fun _ _ => False := by
  unfold activateBounds
  -- the bounds in `rest` are still inactive, so there is room for each of them
  refine Update.ensures_forM_of (I := fun (rest : List (Fin n)) s' => ∃ b : EntitySet .bound n,
    s' = { s with bounds := b } ∧ s.ActivatedExcept guess b rest) ?_ (fun _ _ => trivial) ?_
  · rintro i rest _ ⟨b, rfl, hb⟩
    rw [Update.ensures_bind, Update.ensures_get]
    dsimp only
    rw [startingSide_congr hb.types]
    by_cases hactive : (s.startingSide guess i).isActive = true
    · have hout : b.isActive i = false := by
        rw [EntitySet.isActive, hb.activity_eq, if_pos List.mem_cons_self]
        rfl
      have hroom : b.partition.activeCount < b.partition.capacity := by
        rw [hb.capacity, hcapacity]
        exact hb.sound.activeCount_lt hout
      obtain ⟨b', hactivate⟩ := EntitySet.activate_of hb.sound hactive
        ((EntitySet.sideFor_congr hb.types hb.finite i _).trans (hside i hactive)) hout hroom
      rw [if_pos hactive, hactivate, Update.ofExcept_ok, Update.ensures_bind,
        Update.ensures_mapError, Update.ensures_pure, Update.ensures_set]
      exact ⟨b', rfl, hb.activated hactivate⟩
    · rw [if_neg hactive, Update.ensures_pure]
      exact ⟨b, rfl, hb.skipped (by simpa using hactive)⟩
  · exact ⟨s.bounds, rfl, List.nodup_finRange n, hsound, rfl, rfl, rfl, fun i => by simp [hinactive i]⟩

/-- The bounds can be prepared if their limits do not cross and the guess asks only for sides at which
they have limits. -/
theorem prepareBounds_ok {s : Core K n m} {guess : Guess K n m} (hs : s.BoundsInOrder)
    (hinactive : ∀ i : Fin n, s.bounds.isActive i = false)
    (hunknown : ∀ i : Fin n, s.bounds.limitType i = .unknown)
    (hordered : ∀ i : Fin n, ¬s.target.upper i < s.target.lower i)
    (hside : ∀ b : EntitySet .bound n, b.ClassifiedBy s.target.lower s.target.upper
      s.parameters.epsBound s.parameters.infinity → Placeable { s with bounds := b } guess) :
    (prepareBounds guess).Ensures s (fun _ _ => True) fun _ _ => False := by
  unfold prepareBounds
  have hclassify :=
    (classifyBounds_ensures hs.sound hinactive).and (classifyBounds_ok hunknown hordered)
  refine Update.ensures_bind_of hclassify (fun _ _ h => h.2) ?_
  rintro ⟨⟩ _ ⟨⟨b, rfl, hcapacity, hb⟩, -⟩
  rw [Update.ensures_bind, Update.ensures_modify]
  exact Update.ensures_bind_of (activateBounds_ok hb.sound (hcapacity.trans hs.capacity)
    (fun i => (hb.done i List.not_mem_nil).1) (hside b hb.classifiedBy)) (fun _ _ h => h)
    fun _ _ _ => trivial

end Core

end ActiveSet
