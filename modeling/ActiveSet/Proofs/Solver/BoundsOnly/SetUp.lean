import ActiveSet.Proofs.Lockstep
import ActiveSet.Proofs.Solver.Constrained.NoRows

/-!
# Two ways to set up a problem with bounds only

A problem with bounds only can be given to a solver for bounds, and to one for bounds and constraints
that has no constraints. Both find the same places for the bounds, and they factorize the same matrix:
the second solver starts with the unit vectors as the basis of its null space. So they make up the same
auxiliary problem, or fail with the same error (`Core.Agrees.prepare_alike`).
-/

namespace ActiveSet

open Finset

section Agreement

variable {K : Type} {n m : Nat}

/-! ## What solvers have in common -/

/-- The parameters with another tolerance for dependence. -/
def Parameters.mapDependent (g : K → K) (p : Parameters K) : Parameters K :=
  { p with epsDependent := g p.epsDependent }

/-- Another core differs from a core at most in the factorization and in the direction. The tolerance
by which a row counts as dependent may be changed by `g`. -/
inductive Core.Agrees (g : K → K) (c : Core K n m) : Core K n m → Prop
  | intro (dx : Tuple K n) (dy : Dual K n m) (tilt : Tuple K n) (factor : Cholesky K n)
    (free : List (Fin n)) :
    Agrees g c { c with parameters := c.parameters.mapDependent g, dx, dy, tilt, factor, free }

/-- The direction is the same too. -/
structure Core.AgreesAlong (g : K → K) (c c' : Core K n m) : Prop where
  agrees : c.Agrees g c'
  dx : c'.dx = c.dx
  dy : c'.dy = c.dy

namespace Core.Agrees

variable {g : K → K} {c c' : Core K n m}

theorem status (h : c.Agrees g c') : c'.status = c.status := by
  cases h
  rfl

theorem infeasible (h : c.Agrees g c') : c'.infeasible = c.infeasible := by
  cases h
  rfl

theorem unbounded (h : c.Agrees g c') : c'.unbounded = c.unbounded := by
  cases h
  rfl

theorem bounds (h : c.Agrees g c') : c'.bounds = c.bounds := by
  cases h
  rfl

theorem target (h : c.Agrees g c') : c'.target = c.target := by
  cases h
  rfl

theorem current (h : c.Agrees g c') : c'.current = c.current := by
  cases h
  rfl

theorem parameters (h : c.Agrees g c') : c'.parameters = c.parameters.mapDependent g := by
  cases h
  rfl

theorem hessian (h : c.Agrees g c') : c'.hessian = c.hessian := by
  cases h
  rfl

theorem identityHessian (h : c.Agrees g c') : c'.identityHessian = c.identityHessian := by
  cases h
  rfl

theorem epsDefinite (h : c.Agrees g c') :
    c'.parameters.epsDefinite = c.parameters.epsDefinite := by
  cases h
  rfl

theorem hessianType (h : c.Agrees g c') : c'.hessianType = c.hessianType := by
  cases h
  rfl

theorem shift [Scalar K] (h : c.Agrees g c') : c'.shift = c.shift := by
  cases h
  rfl

/-- Directions may differ. -/
theorem withDirection (h : c.Agrees g c') (dx dx' : Tuple K n) (dy dy' : Dual K n m)
    (tilt tilt' : Tuple K n) :
    Core.Agrees g { c with dx, dy, tilt } { c' with dx := dx', dy := dy', tilt := tilt' } := by
  cases h
  exact .intro _ _ _ _ _

/-- The bounds may change, if they change alike, and factorizations may differ. -/
theorem withWorkingSet (h : c.Agrees g c') {bounds bounds' : EntitySet .bound n}
    (hbounds : bounds' = bounds) (factor factor' : Cholesky K n) (free free' : List (Fin n))
    (tilt' : Tuple K n) : Core.Agrees g { c with bounds, factor, free }
      { c' with bounds := bounds', factor := factor', free := free', tilt := tilt' } := by
  subst hbounds
  cases h
  exact .intro _ _ _ _ _

/-- Status and verdicts may change, if they change alike. -/
theorem withVerdict (h : c.Agrees g c') {status status' : Status}
    {infeasible infeasible' unbounded unbounded' : Bool} (hstatus : status' = status)
    (hinfeasible : infeasible' = infeasible) (hunbounded : unbounded' = unbounded) :
    Core.Agrees g { c with status, infeasible, unbounded }
      { c' with status := status', infeasible := infeasible', unbounded := unbounded' } := by
  subst hstatus hinfeasible hunbounded
  cases h
  exact .intro _ _ _ _ _

end Core.Agrees

end Agreement

variable {n : ℕ} {g : ℝ → ℝ}

namespace Core

variable {m : ℕ} {c c' : Core ℝ n m} {guess : Guess ℝ n m}

/-! ## The places of the bounds -/

theorem Agrees.reset (h : c.Agrees g c') : c.reset.Agrees g c'.reset := by
  cases h
  exact .intro _ _ _ _ _

theorem Agrees.withStatus (h : c.Agrees g c') (status : Status) :
    Core.Agrees g { c with status } { c' with status } := by
  cases h
  exact .intro _ _ _ _ _

theorem Agrees.auxiliaryData (h : c.Agrees g c') : c.auxiliaryData.Agrees g c'.auxiliaryData := by
  cases h
  exact .intro _ _ _ _ _

theorem classifyBounds_alike (h : c.Agrees g c') :
    classifyBounds.Alike classifyBounds c c' (fun _ => Agrees g) fun _ => Agrees g := by
  unfold classifyBounds
  refine Update.alike_forM (fun i d d' h => ?_) _ h
  refine Update.alike_get_bind ?_
  cases h with
  | intro dx dy tilt factor free =>
    refine Update.alike_bind (Update.alike_ofExcept (fun r _ => ?_) fun _ _ => .intro _ _ _ _ _)
    exact Update.alike_set (.intro _ _ _ _ _)

theorem activateBounds_alike (h : c.Agrees g c') :
    (activateBounds guess).Alike (activateBounds guess) c c' (fun _ => Agrees g)
      fun _ => Agrees g := by
  unfold activateBounds
  refine Update.alike_forM (fun i d d' h => ?_) _ h
  refine Update.alike_get_bind ?_
  cases h with
  | intro dx dy tilt factor free =>
    refine Update.alike_ite Iff.rfl (fun _ => ?_) fun _ => Update.alike_pure _ (.intro _ _ _ _ _)
    refine Update.alike_bind (Update.alike_mapError
      (Update.alike_ofExcept (fun r _ => ?_) fun _ _ => .intro _ _ _ _ _))
    exact Update.alike_set (.intro _ _ _ _ _)

/-- The bounds of cores that agree are prepared in the same way. -/
theorem prepareBounds_alike (h : c.Agrees g c') :
    (prepareBounds guess).Alike (prepareBounds guess) c c'
      (fun _ d d' => d.Agrees g d' ∧ d'.free = d.free) fun _ => Agrees g := by
  unfold prepareBounds
  refine Update.alike_bind_of (classifyBounds_alike h) (fun _ _ _ h => h) fun _ d d' h => ?_
  refine Update.alike_modify_bind
    (Update.alike_bind_of (activateBounds_alike ?_) (fun _ _ _ h => h) fun _ d d' h => ?_)
  · cases h
    exact .intro _ _ _ _ _
  · refine Update.alike_modify ?_
    cases h
    exact ⟨.intro _ _ _ _ _, rfl⟩

end Core

variable {s : Box ℝ n} {t : Constrained ℝ n 0} {guess : Guess ℝ n 0}

/-! ## The factor -/

/-- In the basis of unit vectors the objective's matrix over the free variables is what it is. -/
theorem Constrained.reducedHessian_of_unit (hnull : t.nNull = t.free.length)
    (hunit : ∀ p j, p < t.free.length → j < t.free.length →
      t.nullSpace.q p j = if p = j then 1 else 0) {i j : ℕ} (hi : i < t.free.length)
    (hj : j < t.free.length) : t.reducedHessian i j = t.freeHessian i j := by
  have hproduct : ∀ (a : ℕ → ℝ) k, k < t.free.length →
      ∑ p ∈ range t.free.length, a p * t.nullSpace.q p k = a k := by
    intro a k hk
    rw [sum_eq_single_of_mem k (mem_range.2 hk)]
    · rw [hunit k k hk hk, if_pos rfl, mul_one]
    · intro p hp hne
      rw [hunit p k (mem_range.1 hp) hk, if_neg hne, mul_zero]
  have hcolumn : ∀ p, p < t.free.length →
      t.hessianTimesNullSpace p j = t.freeHessian p j := by
    intro p hp
    rw [hessianTimesNullSpace, Grid.ofFn_apply hp (hnull ▸ hj), sum_eq_sum]
    exact hproduct (t.freeHessian p) j hj
  rw [reducedHessian, sum_eq_sum, ← hcolumn i hi, ← hproduct (fun p => t.hessianTimesNullSpace p j) i hi]
  exact Finset.sum_congr rfl fun p _ => mul_comm _ _

/-- Both solvers factorize the same matrix. -/
theorem factorize?_eq (h : s.Agrees g t.toCore) (hfree : t.free = s.free)
    (hnull : t.nNull = t.free.length) (hunit : ∀ p j, p < t.free.length → j < t.free.length →
      t.nullSpace.q p j = if p = j then 1 else 0) :
    t.factor.factorize? t.nNull t.reducedHessian t.parameters.epsDefinite =
      s.factor.factorize? s.free.length s.freeHessian s.parameters.epsDefinite := by
  have hlength : t.nNull = s.free.length := by rw [hnull, hfree]
  rw [h.epsDefinite, hlength]
  refine Cholesky.factorize?_congr fun i j hi hj => ?_
  rw [← hfree] at hi hj
  rw [Constrained.reducedHessian_of_unit hnull hunit hi hj, Constrained.freeHessian, hfree,
    h.hessian]
  rfl

/-- The objective's matrix has a factor for both solvers, or for none. -/
theorem Core.Agrees.factorize_alike (h : s.Agrees g t.toCore) (hfree : t.free = s.free)
    (hle : s.free.length ≤ n) (hnull : t.nNull = t.free.length)
    (hunit : ∀ p j, p < t.free.length → j < t.free.length →
      t.nullSpace.q p j = if p = j then 1 else 0) :
    Box.factorize.Alike Constrained.factorize s t (fun _ s' t' => s'.Agrees g t'.toCore)
      fun _ s' t' => s'.Agrees g t'.toCore := by
  have hagree : ∀ factor factor' : Cholesky ℝ n,
      Core.Agrees g { s with factor } { t.toCore with factor := factor' } :=
    fun factor factor' => h.withWorkingSet h.bounds factor factor' s.free t.free t.tilt
  have hsame := factorize?_eq h hfree hnull hunit
  have hlength : t.nNull = s.free.length := by rw [hnull, hfree]
  unfold Box.factorize Constrained.factorize
  refine Update.alike_get_bind (Update.alike_ite (by rw [h.identityHessian]) (fun _ => ?_)
    fun _ => ?_)
  · -- the unit matrix has a factor of any dimension that fits
    obtain ⟨factor, hfactor, -⟩ := Cholesky.identity?_of (f := s.factor) hle
    obtain ⟨factor', hfactor', -⟩ := Cholesky.identity?_of (f := t.factor) hle
    rw [hlength, hfactor, hfactor', Update.require_some, Update.require_some]
    exact Update.alike_set (hagree factor factor')
  · change (Update.require (s.factor.factorize? s.free.length s.freeHessian
      s.parameters.epsDefinite) >>= _).Alike (Update.require (t.factor.factorize? t.nNull
        t.reducedHessian t.parameters.epsDefinite) >>= _) _ _ _ _
    rw [hsame]
    -- other matrices have one for both, or for none
    obtain ⟨factor, hfactor, -⟩ | ⟨e, herror⟩ := Cholesky.factorize?_of (f := s.factor)
      s.freeHessian s.parameters.epsDefinite hle
    · rw [hfactor, Update.require_some, Update.require_some]
      exact Update.alike_bind (Update.alike_pure _ (Update.alike_set (hagree factor factor)))
    · rw [herror, Update.require_some, Update.require_some]
      exact Update.alike_bind (Update.alike_pure _ (Update.alike_bind
        (Update.alike_set (Update.alike_fail (hagree e.left e.left)))))

/-! ## The whole set-up -/

namespace Constrained

theorem classifyConstraints_eq :
    (classifyConstraints : Update (Constrained ℝ n 0) Unit) = pure ⟨⟩ := by
  rw [classifyConstraints, List.finRange_zero]
  rfl

theorem activateConstraints_eq :
    (activateConstraints guess : Update (Constrained ℝ n 0) Unit) = pure ⟨⟩ := by
  rw [activateConstraints, List.finRange_zero]
  rfl

/-- There are no multipliers of constraints to cut down. -/
theorem withAdmissibleRows_toCore : (t.withAdmissibleRows guess).toCore = t.toCore := by
  have hy : (⟨t.y.bound, t.admissibleRowMultipliers guess⟩ : Dual ℝ n 0) = t.y :=
    Core.dual_ext fun _ => rfl
  unfold withAdmissibleRows
  dsimp only
  rw [hy]

/-- There are no constraints that the gradient of the auxiliary problem could balance. -/
theorem auxiliaryRowData_toCore : t.auxiliaryRowData.toCore = t.toCore := by
  have hgradient : t.matrix.combine 1 t.y.row 1 t.current.gradient = t.current.gradient :=
    Tuple.ext fun i hi => by
      rw [Grid.combine_apply _ _ _ _ _ hi, accumulate_eq_sum, range_zero, sum_empty, add_zero,
        one_mul]
  have hempty : ∀ x y : Tuple ℝ 0, x = y :=
    fun x y => Tuple.ext fun i hi => absurd hi (Nat.not_lt_zero i)
  unfold auxiliaryRowData
  dsimp only
  rw [hgradient, hempty (Tuple.ofFn 0 _) t.current.rowLower,
    hempty (Tuple.ofFn 0 _) t.current.rowUpper]

end Constrained

/-- Solvers that agree set up the same auxiliary problem, or fail with the same error. -/
theorem Core.Agrees.prepare_alike (h : s.Agrees g t.toCore) :
    (Box.prepare guess).Alike (Constrained.prepare guess) (Core.reset s) t.reset
      (fun _ s' t' => s'.Agrees g t'.toCore) fun _ s' t' => s'.Agrees g t'.toCore := by
  unfold Box.prepare Constrained.prepare
  rw [Constrained.classifyConstraints_eq, Constrained.activateConstraints_eq]
  refine Update.alike_modify_bind ?_
  change (Core.prepareBounds guess >>= _).Alike (Constrained.onCore (Core.prepareBounds guess) >>= _)
    _ _ _ _
  refine Update.alike_bind (Update.Alike.focus (((Core.prepareBounds_alike
    (h.reset.withStatus .preparingAuxiliary)).and_left (Core.prepareBounds_ensures guess
      (EntitySet.sound_reset _) fun i =>
        congrArg Activity.isActive (EntitySet.activity_reset s.bounds i))).mono ?_
          fun _ _ _ h => h.1))
  rintro ⟨⟩ s1 c1 ⟨⟨hagree, hfree⟩, hprepared⟩
  have hle := hprepared.freeInStep.length_free_le
  obtain ⟨nullSpace, hnullSpace, hnFree, hnActive⟩ :=
    NullSpace.reset?_of (f := t.reset.nullSpace) hle
  have hlength : c1.free.length = s1.free.length := by rw [hfree]
  refine Update.Alike.right_modify (Update.Alike.right_get ?_)
  change Update.Alike _ (Update.require (t.reset.nullSpace.reset? c1.free.length) >>= _) _ _ _ _
  rw [hlength, hnullSpace, Update.require_some]
  -- the basis of the null space consists of the unit vectors
  let t1 : Constrained ℝ n 0 := { t.reset with
    toCore := c1, nullSpace, ax := t.matrix.apply 1 c1.x 0 t.reset.ax }
  have hagree1 : s1.Agrees g (t1.withAdmissibleRows guess).toCore := by
    rw [Constrained.withAdmissibleRows_toCore]
    exact hagree
  change Update.Alike _ (Constrained.factorize >>= _) _ (t1.withAdmissibleRows guess) _ _
  refine Update.alike_bind_of (hagree1.factorize_alike hfree hle ?_ fun p j hp hj => ?_)
    (fun _ _ _ h => h) fun _ s2 t2 hagree2 => ?_
  · show nullSpace.nFree - nullSpace.nActive = c1.free.length
    rw [hnFree, hnActive, hlength, Nat.sub_zero]
  · exact NullSpace.reset?_apply hnullSpace (hlength ▸ hp) (hlength ▸ hj)
  · refine Update.Alike.right_modify (Update.alike_modify ?_)
    have hdata := hagree2.auxiliaryData
    rw [show t2.toCore.auxiliaryData = _ from (Constrained.auxiliaryRowData_toCore
      (t := { t2 with toCore := t2.toCore.auxiliaryData })).symm] at hdata
    exact hdata.withStatus .auxiliarySolved

end ActiveSet
