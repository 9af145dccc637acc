import ActiveSet.Proofs.Solver.Constrained.Remains

/-!
# The set-up with constraints after a reset

After a reset, two solvers with the same problem and related remains set up related auxiliary problems, or
fail with the same error (`prepare_alike`). In turn, what remains of the point is covered when the bounds
are prepared, what remains of the row values when the point is known, and what remains of the current
problem in the end.
-/

namespace ActiveSet.Constrained

open Scalar

variable {K : Type} [Scalar K] {n m : Nat} {r : K → K → Prop}

/-- When an auxiliary problem is about to be set up, what earlier solves have left is still there. -/
abbrev AlikeAtStart (r : K → K → Prop) : Constrained K n m → Constrained K n m → Prop :=
  Alike (Core.AlikeAtStart r) r (Residue r) (Residue r)

/-- When the bounds have been prepared, the matrix of the objective has been looked at. -/
abbrev AlikePrepared (r : K → K → Prop) : Constrained K n m → Constrained K n m → Prop :=
  Alike (Core.AlikePrepared r) r (Residue r) (Residue r)

variable {s t : Constrained K n m} {guess : Guess K n m}

theorem AlikePrepared.start (h : s.AlikePrepared r t) : s.AlikeAtStart r t :=
  h.mono Core.AlikePrepared.start id id

theorem AlikeOnCourse.start (h : s.AlikeOnCourse r t) (hr : Congruence r) : s.AlikeAtStart r t :=
  h.mono (fun h => Core.AlikeOnCourse.start h hr) id id

/-! ## Working set -/

theorem classifyConstraints_alike (h : s.AlikeAtStart r t) :
    classifyConstraints.Alike classifyConstraints s t (fun _ => AlikeAtStart r)
      fun _ => AlikeAtStart r := by
  unfold classifyConstraints
  refine Update.alike_forM (fun i s t h => ?_) _ h
  refine Update.alike_get_bind ?_
  have hkept := h
  cases h with
  | intro hcore hnullSpace hax hdax hdependency =>
    cases hcore with
    | intro hg hx hy hfactor hdx hdy htilt hcurrent hid =>
      refine Update.alike_bind (Update.alike_ofExcept (fun result _ => ?_) fun _ _ => hkept)
      exact Update.alike_set (.intro (.intro hg hx hy hfactor hdx hdy htilt hcurrent hid) hnullSpace hax
        hdax hdependency)

theorem prepareBounds_alike (h : s.AlikeAtStart r t) (hr : Congruence r) :
    (onCore (Core.prepareBounds guess)).Alike (onCore (Core.prepareBounds guess)) s t
      (fun _ => AlikePrepared r) fun _ => AlikeAtStart r :=
  Update.alike_focus ((Core.AlikeAtStart.prepareBounds h.core hr).mono
    (fun _ _ _ hcore => h.withCore hcore) fun _ _ _ hcore => h.withCore hcore)

/-- A value decides by comparisons on which limit it lies. -/
theorem guessedActivity_eq (hr : Congruence r) (p : Parameters K) (type : LimitType) (lower upper : K)
    {value value' : Option K} (h : Option.Rel r value value') (multiplier : Option K) :
    guessedActivity p type lower upper value' multiplier =
      guessedActivity p type lower upper value multiplier := by
  cases h with
  | none => rfl
  | some h =>
    unfold guessedActivity
    simp only [Option.bind_some, hr.le_iff (hr.abs (hr.sub h (hr.refl lower))) (hr.refl p.epsBound),
      hr.le_iff (hr.abs (hr.sub (hr.refl upper) h)) (hr.refl p.epsBound)]

theorem AlikePrepared.startingSide_eq (h : s.AlikePrepared r t) (hr : Congruence r) (i : Fin m) :
    t.startingSide guess i = s.startingSide guess i := by
  cases h with
  | intro hcore hnullSpace hax =>
    cases hcore with
    | intro =>
      refine guessedActivity_eq hr _ _ _ _ ?_ _
      cases guess.x with
      | none => exact .none
      | some x => exact .some (hax i)

theorem activateConstraints_alike (h : s.AlikePrepared r t) (hr : Congruence r) :
    (activateConstraints guess).Alike (activateConstraints guess) s t (fun _ => AlikePrepared r)
      fun _ => AlikePrepared r := by
  unfold activateConstraints
  refine Update.alike_forM (fun i s t h => ?_) _ h
  refine Update.alike_get_bind ?_
  have htype : t.constraints.limitType i = s.constraints.limitType i := by
    cases h
    rfl
  dsimp only
  rw [AlikePrepared.startingSide_eq h hr i, htype]
  refine Update.alike_ite Iff.rfl (fun _ => ?_) fun _ => Update.alike_pure _ h
  refine Update.related_bind_of (prepareConstraint_alike h hr) (fun _ _ _ h => h)
    fun w w' s1 t1 h1 => ?_
  obtain ⟨hw, h1⟩ := h1
  refine Update.alike_ite (by rw [hw.independent]) (fun _ => ?_) fun _ => Update.alike_ite Iff.rfl
    (fun _ => Update.alike_fail h1) fun _ => Update.alike_pure _ h1
  exact Update.alike_mapError (appendConstraint_alike h1 hr hw false)

/-! ## Factor and data -/

theorem factorize_alike (h : s.AlikePrepared r t) (hr : Congruence r) :
    factorize.Alike factorize s t (fun _ => AlikePrepared r) fun _ => AlikePrepared r := by
  have hkept := h
  cases h with
  | intro hcore hnullSpace hax hdax hdependency =>
    cases hcore with
    | intro hg hx hy hfactor hdx hdy htilt hcurrent hid =>
      subst hid
      cases hnullSpace with
      | intro hq ht =>
        -- the same products are summed up from entries that are related
        have hproduct : s.hessianTimesNullSpace.Alike r (Grid.ofFn s.free.length s.nNull fun p k =>
            sum s.free.length fun q => gather s.free (fun u => gather s.free (s.hessian u) q) p * _) :=
          Grid.alike_ofFn hr.refl fun p k => hr.sum fun q => hr.mul (hr.refl _) (hq q k)
        unfold factorize
        refine Update.related_get_bind (Update.related_ite Iff.rfl (fun _ => ?_) fun _ => ?_)
        · refine Update.related_bind (Update.related_require (hfactor.identity? hr _)
            (fun f f' hf => ?_) hkept)
          exact Update.alike_set (hkept.withCore (hkept.core.withWorkingSet s.bounds s.free hf))
        · refine Update.related_bind (Update.related_require
            (hfactor.factorize? hr (fun hab hle => hg.eq_of_not_le_definite hab hle) _ fun i j =>
              hr.sum (n := s.free.length) fun p => hr.mul (hq p i) (hproduct p j))
            (fun o o' ho => ?_) hkept)
          cases ho with
          | ok h => exact Update.alike_set (hkept.withCore (hkept.core.withWorkingSet s.bounds s.free h))
          | error e h =>
            exact Update.related_set_bind (Update.alike_fail
              (hkept.withCore (hkept.core.withWorkingSet s.bounds s.free h)))

theorem AlikePrepared.admissibleRows (h : s.AlikePrepared r t) (hr : Congruence r) :
    AlikePrepared r { s with y := ⟨s.y.bound, s.admissibleRowMultipliers guess⟩ }
      { t with y := ⟨t.y.bound, t.admissibleRowMultipliers guess⟩ } := by
  cases h with
  | intro hcore hnullSpace hax hdax hdependency =>
    cases hcore with
    | intro hg hx hy hfactor hdx hdy htilt hcurrent hid =>
      have hrow : (s.admissibleRowMultipliers guess).Alike r _ :=
        Tuple.alike_ofFn hr.refl fun i => Core.alike_admissible hr _ _ (hy.row i) _
      exact .intro (.intro hg hx ⟨hy.bound, hrow⟩ hfactor hdx hdy htilt hcurrent hid) hnullSpace hax hdax
        hdependency

/-- The data of the auxiliary problem cover what remains of the current problem. -/
theorem AlikePrepared.auxiliaryData (h : s.AlikePrepared r t) (hr : Congruence r) :
    AlikeOnCourse r { s with toCore := s.toCore.auxiliaryData }.auxiliaryRowData
      { t with toCore := t.toCore.auxiliaryData }.auxiliaryRowData := by
  have hdata := h.withCore (Core.AlikePrepared.auxiliaryData h.core hr)
  generalize ({ s with toCore := s.toCore.auxiliaryData } : Constrained K n m) = s1 at hdata ⊢
  generalize ({ t with toCore := t.toCore.auxiliaryData } : Constrained K n m) = t1 at hdata ⊢
  cases hdata with
  | intro hcore hnullSpace hax hdax hdependency =>
    cases hcore with
    | intro hg hx hy hfactor hdx hdy htilt hcurrent hid =>
      obtain ⟨hgradient, hlower, hupper⟩ := hcurrent
      have hbalanced := Grid.alike_combine hy.row (fun i => hr.mul (hr.refl 1) (hgradient i)) hr s1.matrix 1
      exact .intro (.intro hg hx hy hfactor hdx hdy htilt ⟨hbalanced, hlower, hupper,
        Tuple.alike_ofFn hr.refl fun i => (Core.alike_auxiliaryLimits hr _ _ _ (hax i) _ _).1,
        Tuple.alike_ofFn hr.refl fun i => (Core.alike_auxiliaryLimits hr _ _ _ (hax i) _ _).2⟩ hid)
        hnullSpace hax hdax hdependency

/-- From starts that are alike, auxiliary problems are set up alike. -/
theorem prepare_alike (h : s.AlikeAtStart r t) (hr : Congruence r) :
    (prepare guess).Alike (prepare guess) s t (fun _ => AlikeOnCourse r) fun _ => AlikeAtStart r := by
  -- where the set-up ends early, the solvers are still alike enough to be set up again
  have hstart : ∀ {s t : Constrained K n m}, s.AlikePrepared r t → s.AlikeAtStart r t :=
    fun h => AlikePrepared.start h
  unfold prepare
  refine Update.related_modify_bind ?_
  refine Update.alike_bind_of (classifyConstraints_alike
    (h.withCore (h.core.withStatus .preparingAuxiliary))) (fun _ _ _ h => h) fun _ s1 t1 h1 => ?_
  refine Update.alike_bind_of (prepareBounds_alike h1 hr) (fun _ _ _ h => h) fun _ s2 t2 h2 => ?_
  refine Update.related_modify_bind (Update.related_get_bind ?_)
  have h3 := Alike.withRowValues h2 hr
  generalize s2.withRowValues = s3 at h3 ⊢
  generalize t2.withRowValues = t3 at h3 ⊢
  have hkept := h3
  cases h3 with
  | intro hcore hnullSpace hax hdax hdependency =>
    have hcore' := hcore
    cases hcore' with
    | intro =>
      refine Update.related_bind (Update.related_require (hnullSpace.reset? hr _)
        (fun nullSpace nullSpace' hnull => ?_) (hstart hkept))
      refine Update.related_set_bind ?_
      refine Update.alike_bind_of (activateConstraints_alike (.intro hcore hnull hax hdax hdependency) hr)
        (fun _ _ _ => hstart) fun _ s5 t5 h5 => ?_
      refine Update.related_modify_bind (Update.alike_bind_of
        (factorize_alike (AlikePrepared.admissibleRows h5 hr) hr) (fun _ _ _ => hstart)
        fun _ s6 t6 h6 => ?_)
      have hdata := AlikePrepared.auxiliaryData h6 hr
      exact Update.related_modify_bind (Update.alike_modify
        (hdata.withCore (hdata.core.withStatus .auxiliarySolved)))

/-! ## Resets -/

/-- What has been loaded is the same. -/
structure SameProblem (s t : Constrained K n m) : Prop where
  core : s.toCore.SameProblem t.toCore
  matrix : t.matrix = s.matrix

/-- The products with zero of what earlier solves have left are related. -/
structure RemainsAlike (r : K → K → Prop) (s t : Constrained K n m) : Prop where
  core : s.toCore.RemainsAlike r t.toCore
  ax : s.ax.Alike (Residue r) t.ax
  dax : s.dax.Alike (Residue r) t.dax
  dependency : s.dependency.Alike (Residue r) t.dependency
  q : s.nullSpace.q.Alike (Residue r) t.nullSpace.q

/-- After a reset, the remains are all that can be different. -/
theorem RemainsAlike.reset (h : s.RemainsAlike r t) (hproblem : s.SameProblem t) (hr : Congruence r)
    (hg : Guarded r s.parameters) (hs : s.InOrder) (ht : t.InOrder) : s.reset.AlikeAtStart r t.reset := by
  have hcore := h.core.reset hproblem.core hr hg (ht.capacity.trans hs.capacity.symm)
  have hcapacity := ht.constraints_capacity.trans hs.constraints_capacity.symm
  have heq : t.reset = { s.reset with
      toCore := t.toCore.reset, nullSpace := t.nullSpace.reset 0 (Nat.zero_le n), ax := t.ax.scale 0,
      dax := t.dax, dependency := t.dependency } := by
    unfold Constrained.reset
    rw [EntitySet.reset_congr hcapacity, hproblem.matrix]
  rw [heq]
  exact .intro hcore (NullSpace.alike_reset hr h.q _ _) (h.ax.cleared hr) h.dax h.dependency

end ActiveSet.Constrained
