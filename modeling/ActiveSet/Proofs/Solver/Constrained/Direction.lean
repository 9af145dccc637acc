import ActiveSet.Proofs.Solver.Constrained.WorkingSet
import ActiveSet.Solver.Constrained.Direction

/-!
# How a direction is computed

A direction takes up to three systems with the factors, which have their dimensions while all
records of the working set agree. Only the vectors of the direction are written, also where a pivot
is too small to go on.

* `RangeStepped`, `NullStepped`, `MultiplierStepped`: the parts of a direction.
* `Directed`, `determineDirection_ensures`: the direction as a whole.
* `Unsolved`: why a direction may not be found.
-/

namespace ActiveSet.Constrained

variable {K : Type} [Scalar K] {n m : Nat} {s s' : Constrained K n m}

/-! ## Parts of a direction -/

/-- What the fixed variables leave of the change of the active limits. -/
def rangeRhs (s : Constrained K n m) : Tuple K s.active.length :=
  Tuple.ofFn _ <| gather s.active fun i => s.activeLimitChange i - dot n (s.matrix i) s.dx

/-- The change of the gradient that the null space has to balance. -/
def nullRhs (s : Constrained K n m) : Tuple K s.nNull :=
  Tuple.ofFn _ fun k =>
    -(sum s.free.length fun p => s.nullSpace.q p k * gather s.free s.toCore.withTilt.tilt p)

/-- The change of the gradient that the active constraints have to balance. -/
def multiplierRhs (s : Constrained K n m) : Tuple K s.active.length :=
  Tuple.ofFn _ fun c =>
    sum s.free.length fun p =>
      s.nullSpace.q p (s.nNull + c) * gather s.free s.toCore.withTilt.tilt p

/-- The active constraints follow their limits. -/
inductive RangeStepped (s : Constrained K n m) : Constrained K n m → Prop
  | intro {w : Tuple K s.active.length}
    (hw : s.nullSpace.solveT? s.parameters.epsZero s.rangeRhs (Tuple.fill _ 0) = some (.ok w)) :
    RangeStepped s { s with
      dx := spread s.free
        (fun p a => a + sum s.active.length fun c => s.nullSpace.q p (s.nNull + c) * w c) s.dx }

/-- The gradient of the objective stays zero in the null space. -/
inductive NullStepped (s : Constrained K n m) : Constrained K n m → Prop
  | intro {z w : Tuple K s.nNull}
    (hz : s.factor.solveRT? s.parameters.epsZero s.nullRhs = some (.ok z))
    (hw : s.factor.solveR? s.parameters.epsZero z = some (.ok w)) :
    NullStepped s { s with
      tilt := s.toCore.withTilt.tilt
      dx := spread s.free
        (fun p a => a + sum s.nNull fun k => s.nullSpace.q p k * w k) s.dx }

/-- The multipliers balance what is left of the gradient. -/
inductive MultiplierStepped (s : Constrained K n m) : Constrained K n m → Prop
  | intro {w : Tuple K s.active.length}
    (hw : s.nullSpace.solveTT? s.parameters.epsZero s.multiplierRhs (Tuple.fill _ 0) =
      some (.ok w)) :
    MultiplierStepped s { s with
      tilt := s.toCore.withTilt.tilt
      dy := ⟨Tuple.ofFn n fun j =>
          if s.bounds.isActive j then
            deduct (s.toCore.withTilt.tilt j) s.active.length fun c =>
              gather s.active (fun i => s.matrix i j) c * w c
          else s.dy.bound j,
        spread s.active (fun c _ => w c) s.dy.row⟩ }

/-- A system with one of the factors cannot be solved. -/
inductive Unsolved (s : Constrained K n m) : Prop
  | range {b x : Tuple K s.active.length} {f : Failure (Tuple K s.active.length)}
    (h : s.nullSpace.solveT? s.parameters.epsZero b x = some (.error f)) : Unsolved s
  | lower {b : Tuple K s.nNull} {f : Failure (Tuple K s.nNull)}
    (h : s.factor.solveRT? s.parameters.epsZero b = some (.error f)) : Unsolved s
  | upper {b : Tuple K s.nNull} {f : Failure (Tuple K s.nNull)}
    (h : s.factor.solveR? s.parameters.epsZero b = some (.error f)) : Unsolved s
  | multiplier {b x : Tuple K s.active.length} {f : Failure (Tuple K s.active.length)}
    (h : s.nullSpace.solveTT? s.parameters.epsZero b x = some (.error f)) : Unsolved s

theorem rangeStep_ensures (hs : s.Listed) :
    rangeStep.Ensures s (fun _ s' => s.RangeStepped s')
      fun f s' => (∃ e, f = .failed e) ∧ s' = s ∧ s.Unsolved := by
  unfold rangeStep
  rw [Update.ensures_bind, Update.ensures_get]
  dsimp only
  rw [Update.ensures_bind]
  refine Update.ensures_ofAttempt ?_ ?_ ?_
  · rw [NullSpace.solveT?_of _ _ _ hs.nActive_eq.symm]
    rfl
  · intro w hw
    rw [Update.ensures_set]
    exact .intro hw
  · intro f hf
    exact ⟨⟨_, rfl⟩, rfl, .range hf⟩

theorem nullStep_ensures (hs : s.InStep) :
    nullStep.Ensures s (fun _ s' => s.NullStepped s')
      fun f s' => (∃ e, f = .failed e) ∧ s' = { s with tilt := s.toCore.withTilt.tilt } ∧
        s.Unsolved := by
  unfold nullStep
  rw [Update.ensures_bind, Update.ensures_modify, Update.ensures_bind, Update.ensures_get]
  dsimp only
  rw [Update.ensures_bind]
  change Update.Ensures (Update.ofAttempt (s.factor.solveRT? s.parameters.epsZero s.nullRhs)) _ _ _
  -- the factor has as many columns as the null space, so only a pivot can be in the way
  refine Update.ensures_ofAttempt ?_ ?_ ?_
  · rw [Cholesky.solveRT?_of _ _ hs.dim_eq.symm]
    rfl
  · intro z hz
    rw [Update.ensures_bind]
    change Update.Ensures (Update.ofAttempt (s.factor.solveR? s.parameters.epsZero z)) _ _ _
    refine Update.ensures_ofAttempt ?_ ?_ ?_
    · rw [Cholesky.solveR?_of _ _ hs.dim_eq.symm]
      rfl
    · intro w hw
      rw [Update.ensures_set]
      exact .intro hz hw
    · intro f hf
      exact ⟨⟨_, rfl⟩, rfl, .upper hf⟩
  · intro f hf
    exact ⟨⟨_, rfl⟩, rfl, .lower hf⟩

theorem multiplierStep_ensures (hs : s.Listed) :
    multiplierStep.Ensures s (fun _ s' => s.MultiplierStepped s')
      fun f s' => (∃ e, f = .failed e) ∧ s' = { s with tilt := s.toCore.withTilt.tilt } ∧
        s.Unsolved := by
  unfold multiplierStep
  rw [Update.ensures_bind, Update.ensures_modify, Update.ensures_bind, Update.ensures_get]
  dsimp only
  rw [Update.ensures_bind]
  change Update.Ensures (Update.ofAttempt
    (s.nullSpace.solveTT? s.parameters.epsZero s.multiplierRhs (Tuple.fill _ 0))) _ _ _
  refine Update.ensures_ofAttempt ?_ ?_ ?_
  · rw [NullSpace.solveTT?_of _ _ _ hs.nActive_eq.symm]
    rfl
  · intro w hw
    rw [Update.ensures_set]
    exact .intro hw
  · intro f hf
    exact ⟨⟨_, rfl⟩, rfl, .multiplier hf⟩

/-! ## The whole direction -/

/-- Only the vectors of a direction differ. -/
def SameButDirection (s s' : Constrained K n m) : Prop :=
  ∃ dx dy tilt dax, s' = { s with dx, dy, tilt, dax }

section Frame

omit [Scalar K]

theorem SameButDirection.inStep (h : s.SameButDirection s') (hs : s.InStep) : s'.InStep := by
  obtain ⟨dx, dy, tilt, dax, rfl⟩ := h
  exact hs.congr rfl rfl rfl rfl rfl rfl

theorem SameButDirection.trans {s'' : Constrained K n m} (h : s.SameButDirection s')
    (h' : s'.SameButDirection s'') : s.SameButDirection s'' := by
  obtain ⟨dx, dy, tilt, dax, rfl⟩ := h
  obtain ⟨dx', dy', tilt', dax', rfl⟩ := h'
  exact ⟨dx', dy', tilt', dax', rfl⟩

end Frame

/-- The systems of a direction do not depend on it. -/
theorem SameButDirection.unsolved (h : s.SameButDirection s') (h' : s'.Unsolved) : s.Unsolved := by
  obtain ⟨dx, dy, tilt, dax, rfl⟩ := h
  cases h' with
  | range h => exact .range h
  | lower h => exact .lower h
  | upper h => exact .upper h
  | multiplier h => exact .multiplier h

theorem RangeStepped.same (h : s.RangeStepped s') : s.SameButDirection s' := by
  cases h
  exact ⟨_, _, _, _, rfl⟩

theorem NullStepped.same (h : s.NullStepped s') : s.SameButDirection s' := by
  cases h
  exact ⟨_, _, _, _, rfl⟩

theorem MultiplierStepped.same (h : s.MultiplierStepped s') : s.SameButDirection s' := by
  cases h
  exact ⟨_, _, _, _, rfl⟩

/-- A direction has been determined: the fixed variables come first, then the active constraints if
there are any, the null space if there is one, and at last the multipliers. -/
structure Directed (s s' : Constrained K n m) : Prop where
  chain : ∃ s1 s2 s3,
    (0 < s.active.length ∧ { s with toCore := s.toCore.fixedDirection }.RangeStepped s1 ∨
      s.active.length = 0 ∧ s1 = { s with toCore := s.toCore.fixedDirection }) ∧
    (0 < s.nNull ∧ s1.NullStepped s2 ∨ s.nNull = 0 ∧ s2 = s1) ∧
    s2.MultiplierStepped s3 ∧ s' = { s3 with dax := s3.matrix.apply 1 s3.dx 0 s3.dax }

/-- The parts of a direction write nothing else. -/
theorem Directed.stages (h : s.Directed s') : ∃ s1 s2 s3, s.SameButDirection s1 ∧
    s.SameButDirection s2 ∧ (0 < s.nNull ∧ s1.NullStepped s2 ∨ s.nNull = 0 ∧ s2 = s1) ∧
      s2.MultiplierStepped s3 ∧ s' = { s3 with dax := s3.matrix.apply 1 s3.dx 0 s3.dax } := by
  obtain ⟨s1, s2, s3, h1, h2, h3, hs'⟩ := h.chain
  have hfixed : s.SameButDirection { s with toCore := s.toCore.fixedDirection } :=
    ⟨_, _, _, _, rfl⟩
  have hrange : s.SameButDirection s1 := by
    obtain ⟨-, h1⟩ | ⟨-, rfl⟩ := h1
    · exact hfixed.trans h1.same
    · exact hfixed
  have hnull : s.SameButDirection s2 := by
    obtain ⟨-, h2⟩ | ⟨-, rfl⟩ := h2
    · exact hrange.trans h2.same
    · exact hrange
  exact ⟨s1, s2, s3, hrange, hnull, h2, h3, hs'⟩

theorem Directed.same (h : s.Directed s') : s.SameButDirection s' := by
  obtain ⟨s1, s2, s3, -, hnull, -, h3, rfl⟩ := h.stages
  exact (hnull.trans h3.same).trans ⟨_, _, _, _, rfl⟩

/-- The last part of a direction. -/
def balance : Update (Constrained K n m) Unit := do
  multiplierStep
  modify fun s => { s with dax := s.matrix.apply 1 s.dx 0 s.dax }

/-- The parts of a direction after the range step. -/
def balanceWithNull (count : Nat) : Update (Constrained K n m) Unit := do
  if 0 < count then nullStep
  balance

theorem balance_ensures (hs : s.Listed) :
    balance.Ensures s
      (fun _ s' => ∃ s3, s.MultiplierStepped s3 ∧
        s' = { s3 with dax := s3.matrix.apply 1 s3.dx 0 s3.dax })
      fun f s' => (∃ e, f = .failed e) ∧ s.SameButDirection s' ∧ s.Unsolved := by
  unfold balance
  refine Update.ensures_bind_of (multiplierStep_ensures hs) ?_ ?_
  · rintro f s' ⟨hf, rfl, hunsolved⟩
    exact ⟨hf, ⟨_, _, _, _, rfl⟩, hunsolved⟩
  · rintro ⟨⟩ s3 h3
    exact ⟨s3, h3, rfl⟩

theorem balanceWithNull_ensures (hs : s.InStep) :
    (balanceWithNull s.nNull).Ensures s
      (fun _ s' => ∃ s2 s3, (0 < s.nNull ∧ s.NullStepped s2 ∨ s.nNull = 0 ∧ s2 = s) ∧
        s2.MultiplierStepped s3 ∧ s' = { s3 with dax := s3.matrix.apply 1 s3.dx 0 s3.dax })
      fun f s' => (∃ e, f = .failed e) ∧ s.SameButDirection s' ∧ s.Unsolved := by
  unfold balanceWithNull
  dsimp only
  rw [Update.ensures_ite]
  constructor
  · intro hpos
    refine Update.ensures_bind_of (nullStep_ensures hs) ?_ ?_
    · rintro f s' ⟨hf, rfl, hunsolved⟩
      exact ⟨hf, ⟨_, _, _, _, rfl⟩, hunsolved⟩
    · rintro ⟨⟩ s2 h2
      refine (balance_ensures (h2.same.inStep hs).toListed).mono ?_ ?_
      · rintro ⟨⟩ s' ⟨s3, h3, hs'⟩
        exact ⟨s2, s3, .inl ⟨hpos, h2⟩, h3, hs'⟩
      · rintro f s' ⟨hf, hsame, hunsolved⟩
        exact ⟨hf, h2.same.trans hsame, h2.same.unsolved hunsolved⟩
  · intro hpos
    refine (balance_ensures hs.toListed).mono ?_ fun _ _ h => h
    rintro ⟨⟩ s' ⟨s3, h3, hs'⟩
    exact ⟨s, s3, .inr ⟨Nat.eq_zero_of_not_pos hpos, rfl⟩, h3, hs'⟩

/-- Determining a direction breaks no requirement, and writes nothing but the direction. -/
theorem determineDirection_ensures (hs : s.InStep) :
    determineDirection.Ensures s (fun _ s' => s.Directed s')
      fun f s' => (∃ e, f = .failed e) ∧ s.SameButDirection s' ∧ s.Unsolved := by
  have hfixed : s.SameButDirection { s with toCore := s.toCore.fixedDirection } :=
    ⟨_, _, _, _, rfl⟩
  have hs0 := hfixed.inStep hs
  unfold determineDirection
  rw [Update.ensures_bind, Update.ensures_modify, Update.ensures_bind, Update.ensures_get,
    if_neg (not_not_intro hs0.nFree_eq.symm)]
  dsimp only
  rw [Update.ensures_ite]
  constructor
  · -- the active rows determine the part of the direction in their range first
    intro hpos
    refine Update.ensures_bind_of (rangeStep_ensures hs0.toListed) ?_ ?_
    · rintro f s' ⟨hf, rfl, hunsolved⟩
      exact ⟨hf, hfixed, hfixed.unsolved hunsolved⟩
    · rintro ⟨⟩ s1 h1
      have hnull : s1.nNull = s.nNull := by
        cases h1
        rfl
      have hrest := balanceWithNull_ensures (h1.same.inStep hs0)
      rw [hnull] at hrest
      refine hrest.mono ?_ ?_
      · rintro ⟨⟩ s' ⟨s2, s3, h2, h3, hs'⟩
        exact ⟨s1, s2, s3, .inl ⟨hpos, h1⟩, h2, h3, hs'⟩
      · rintro f s' ⟨hf, hsame, hunsolved⟩
        have hsame1 := hfixed.trans h1.same
        exact ⟨hf, hsame1.trans hsame, hsame1.unsolved hunsolved⟩
  · -- without active rows there is no such part
    intro hpos
    refine (balanceWithNull_ensures hs0).mono ?_ ?_
    · rintro ⟨⟩ s' ⟨s2, s3, h2, h3, hs'⟩
      exact ⟨_, s2, s3, .inr ⟨Nat.eq_zero_of_not_pos hpos, rfl⟩, h2, h3, hs'⟩
    · rintro f s' ⟨hf, hsame, hunsolved⟩
      exact ⟨hf, hfixed.trans hsame, hfixed.unsolved hunsolved⟩

end ActiveSet.Constrained
