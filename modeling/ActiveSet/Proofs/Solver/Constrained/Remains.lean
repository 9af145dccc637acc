import ActiveSet.Proofs.Solver.Constrained.Session
import ActiveSet.Proofs.Solver.Remains

/-!
# What remains of earlier solves with constraints

A solver with constraints keeps more that a solve does not overwrite: the change of the row values along
the direction, and the coefficients of the last dependent entity. Two solvers in which the products of
such remains with zero are related by a congruence, and everything else too, take the same steps.

The coefficients are determined anew when an entity turns out to be dependent. From there on, until the
working set has changed, they are read with all their entries, and have to be related themselves.

* `Constrained.Alike`: solvers that are the same apart from numbers, and whose numbers are related.
* `companions_of_alike`: steps do the same.
-/

namespace ActiveSet.Constrained

open Scalar

variable {K : Type} [Scalar K] {n m : Nat} {r : K → K → Prop}

/-- Another solver differs from a solver in numbers only. The cores are related by `C`, the factorization of
the active constraints and the row values by `r`, the change of these by `d`, and the coefficients of
dependent entities by `e`. -/
inductive Alike (C : Core K n m → Core K n m → Prop) (r d e : K → K → Prop) (s : Constrained K n m) :
    Constrained K n m → Prop
  | intro {c : Core K n m} {nullSpace : NullSpace K n m} {ax dax : Tuple K m} {dependency : Dual K n m}
    (hcore : C s.toCore c) (hnullSpace : s.nullSpace.Alike r nullSpace) (hax : s.ax.Alike r ax)
    (hdax : s.dax.Alike d dax) (hdependency : s.dependency.Alike e dependency) :
    Alike C r d e s { s with toCore := c, nullSpace, ax, dax, dependency }

/-- In the course of a homotopy, directions and coefficients are left from earlier solves or steps. -/
abbrev AlikeOnCourse (r : K → K → Prop) : Constrained K n m → Constrained K n m → Prop :=
  Alike (Core.AlikeOnCourse r) r (Residue r) (Residue r)

/-- While entities are exchanged, coefficients are read. -/
abbrev AlikeInExchange (r : K → K → Prop) : Constrained K n m → Constrained K n m → Prop :=
  Alike (Core.AlikeOnCourse r) r (Residue r) r

/-- While a direction is being determined, the point already moves alike. -/
abbrev AlikeInMotion (r : K → K → Prop) : Constrained K n m → Constrained K n m → Prop :=
  Alike (Core.AlikeInMotion r) r (Residue r) (Residue r)

/-- Once a direction is known, only coefficients of dependent entities are left from earlier steps. -/
abbrev AlikeDirected (r : K → K → Prop) : Constrained K n m → Constrained K n m → Prop :=
  Alike (Core.AlikeDirected r) r r (Residue r)

/-- A row in the coordinates of two factorizations, found independent in both or in none. -/
inductive PreparedRow.Alike (r : K → K → Prop) (w : PreparedRow K) : PreparedRow K → Prop
  | intro {row : Tuple K w.length} (h : w.row.Alike r row) : Alike r w { w with row }

theorem PreparedRow.Alike.independent {w w' : PreparedRow K} (h : w.Alike r w') :
    w'.independent = w.independent := by
  cases h
  rfl

variable {s t : Constrained K n m} {C D : Core K n m → Core K n m → Prop} {d e d' e' f g : K → K → Prop}
  {q : Data K n m → Data K n m → Prop} {b : Bool → Bool → Prop}
  {i : Fin n} {j : Fin m} {a : Entity n m} {side : Activity} {w w' : PreparedRow K}

theorem Alike.mono (h : s.Alike C r d e t) (hC : ∀ {c c'}, C c c' → D c c') (hd : ∀ {a b}, d a b → d' a b)
    (he : ∀ {a b}, e a b → e' a b) : s.Alike D r d' e' t := by
  cases h with
  | intro hcore hnullSpace hax hdax hdependency =>
    exact .intro (hC hcore) hnullSpace hax (hdax.mono hd) (hdependency.mono he)

/-- The shared part may be exchanged. -/
theorem Alike.withCore (h : s.Alike C r d e t) {c c' : Core K n m} (hc : D c c') :
    Alike D r d e { s with toCore := c } { t with toCore := c' } := by
  cases h with
  | intro _ hnullSpace hax hdax hdependency => exact .intro hc hnullSpace hax hdax hdependency

theorem Alike.core (h : s.Alike C r d e t) : C s.toCore t.toCore := by
  cases h
  assumption

theorem AlikeDirected.course (h : s.AlikeDirected r t) (hr : Congruence r) : s.AlikeOnCourse r t :=
  h.mono (fun h => Core.AlikeDirected.course h hr) hr.residue id

theorem AlikeInMotion.course (h : s.AlikeInMotion r t) (hr : Congruence r) : s.AlikeOnCourse r t :=
  h.mono (fun h => Core.AlikeInMotion.course h hr) id id

theorem AlikeInExchange.course (h : s.AlikeInExchange r t) (hr : Congruence r) : s.AlikeOnCourse r t :=
  h.mono id id hr.residue

/-! ## Directions -/

theorem AlikeInMotion.activeLimitChange (h : s.AlikeInMotion r t) (hr : Congruence r) (i : Nat) :
    r (s.activeLimitChange i) (t.activeLimitChange i) := by
  have hshift := Core.Alike.shift h.core hr
  cases h with
  | intro hcore => exact related_ite (hshift.rowUpper i) (hshift.rowLower i)

theorem rangeStep_alike (h : s.AlikeInMotion r t) (hr : Congruence r) :
    rangeStep.Alike rangeStep s t (fun _ => AlikeInMotion r) fun _ => AlikeInMotion r := by
  have hkept := h
  have hchange := h.activeLimitChange hr
  cases h with
  | intro hcore hnullSpace =>
    cases hcore with
    | intro hg _ _ _ hdx =>
      have hrhs : ∀ i, r (s.activeLimitChange i - dot n (s.matrix i) s.dx) _ := fun i =>
        hr.sub (hchange i) (hr.dot (fun _ => hr.refl _) hdx)
      unfold rangeStep
      refine Update.related_get_bind (Update.related_bind (Update.related_ofAttempt
        (hnullSpace.solveT? hr hg.safePivots
          (Tuple.alike_ofFn hr.refl (alike_gather hr.refl s.active hrhs)) _)
        (fun w w' hw => ?_) fun _ => hkept))
      cases hnullSpace with
      | intro hq _ =>
        exact Update.alike_set (hkept.withCore (hkept.core.withFree hr fun p a b hab =>
          hr.add hab (hr.sum fun c => hr.mul (hq _ _) (hw c))))

/-- The change of the gradient is determined anew. -/
theorem AlikeInMotion.withTilt (h : s.AlikeInMotion r t) (hr : Congruence r) :
    Alike (Core.AlikeDirected r) r (Residue r) (Residue r) { s with toCore := s.toCore.withTilt }
      { t with toCore := t.toCore.withTilt } :=
  h.withCore (Core.AlikeInMotion.withTilt h.core hr)

theorem nullStep_alike (h : s.AlikeInMotion r t) (hr : Congruence r) :
    nullStep.Alike nullStep s t (fun _ => AlikeInMotion r) fun _ => AlikeInMotion r := by
  have htilted := h.withTilt hr
  unfold nullStep
  refine Update.related_modify_bind ?_
  change Update.Related _ _ { s with toCore := s.toCore.withTilt } { t with toCore := t.toCore.withTilt } _ _
  generalize ({ s with toCore := s.toCore.withTilt } : Constrained K n m) = s1 at htilted ⊢
  generalize ({ t with toCore := t.toCore.withTilt } : Constrained K n m) = t1 at htilted ⊢
  refine Update.related_get_bind ?_
  have hmotion : s1.AlikeInMotion r t1 := htilted.mono (fun h => Core.AlikeDirected.motion h hr) id id
  cases htilted with
  | intro hcore hnullSpace =>
    cases hcore with
    | intro hg _ _ hfactor _ _ htilt =>
      cases hnullSpace with
      | @intro q _ hq =>
        -- the right-hand side reads the tilt at free variables only
        have hrhs : ∀ k, r (-sum s1.free.length fun p => s1.nullSpace.q p k * gather s1.free s1.tilt p)
            (-sum s1.free.length fun p => q p k * gather s1.free _ p) := fun k =>
          hr.neg (hr.sum fun p => hr.mul (hq _ _) (alike_gather hr.refl _ htilt p))
        refine Update.related_bind (Update.related_ofAttempt
          (hfactor.solveRT? hr hg.safePivots (Tuple.alike_ofFn hr.refl hrhs)) (fun w w' hw => ?_)
          fun _ => hmotion)
        refine Update.related_bind (Update.related_ofAttempt (hfactor.solveR? hr hg.safePivots hw)
          (fun w w' hw => ?_) fun _ => hmotion)
        exact Update.alike_set (hmotion.withCore (hmotion.core.withFree hr fun p a b hab =>
          hr.add hab (hr.sum fun k => hr.mul (hq _ _) (hw k))))

theorem multiplierStep_alike (h : s.AlikeInMotion r t) (hr : Congruence r) :
    multiplierStep.Alike multiplierStep s t
      (fun _ => Alike (Core.AlikeDirected r) r (Residue r) (Residue r)) fun _ => AlikeOnCourse r := by
  have htilted := h.withTilt hr
  unfold multiplierStep
  refine Update.related_modify_bind ?_
  change Update.Related _ _ { s with toCore := s.toCore.withTilt } { t with toCore := t.toCore.withTilt } _ _
  generalize ({ s with toCore := s.toCore.withTilt } : Constrained K n m) = s1 at htilted ⊢
  generalize ({ t with toCore := t.toCore.withTilt } : Constrained K n m) = t1 at htilted ⊢
  refine Update.related_get_bind ?_
  have hkept := htilted
  cases htilted with
  | intro hcore hnullSpace =>
    cases hcore with
    | intro hg _ _ _ _ hdy htilt =>
      have hsolvable := hnullSpace
      cases hnullSpace with
      | intro hq =>
        -- the right-hand side reads the tilt at free variables only
        have hrhs : ∀ c, r (sum s1.free.length fun p =>
            s1.nullSpace.q p (s1.nNull + c) * gather s1.free s1.tilt p) _ := fun c =>
          hr.sum fun p => hr.mul (hq _ _) (alike_gather hr.refl _ htilt p)
        refine Update.related_bind (Update.related_ofAttempt
          (hsolvable.solveTT? hr hg.safePivots (Tuple.alike_ofFn hr.refl hrhs) _) (fun w w' hw => ?_)
          fun _ => hkept.mono (fun h => Core.AlikeDirected.course h hr) id id)
        refine Update.alike_set (hkept.withCore (hkept.core.withFixed hr (fun j => ?_)
          (alike_spread hr.refl _ (fun p _ _ _ => hw p) hdy.row)))
        exact hr.deduct (htilt j) fun c => hr.mul (hr.refl _) (hw c)

/-- With the point also the row values move alike. -/
theorem Alike.withRowChange (h : s.Alike (Core.AlikeDirected r) r (Residue r) e t) (hr : Congruence r) :
    Alike (Core.AlikeDirected r) r r e { s with dax := s.matrix.apply 1 s.dx 0 s.dax }
      { t with dax := t.matrix.apply 1 t.dx 0 t.dax } := by
  cases h with
  | intro hcore hnullSpace hax hdax hdependency =>
    have hdx := hcore.dx_alike
    exact .intro hcore hnullSpace hax (Grid.alike_apply hdx hdax hr _ _) hdependency

theorem multipliers_alike (h : s.AlikeInMotion r t) (hr : Congruence r) :
    (do
        multiplierStep
        modify fun s => { s with dax := s.matrix.apply 1 s.dx 0 s.dax } :
      Update (Constrained K n m) Unit).Alike
    (do
        multiplierStep
        modify fun s => { s with dax := s.matrix.apply 1 s.dx 0 s.dax }) s t
      (fun _ => AlikeDirected r) fun _ => AlikeOnCourse r :=
  Update.alike_bind_of (multiplierStep_alike h hr) (fun _ _ _ h => h)
    fun _ _ _ h => Update.alike_modify (h.withRowChange hr)

/-- A direction covers what remains of the last one. -/
theorem determineDirection_alike (h : s.AlikeOnCourse r t) (hr : Congruence r) :
    determineDirection.Alike determineDirection s t (fun _ => AlikeDirected r)
      fun _ => AlikeOnCourse r := by
  have hfixed : AlikeInMotion r { s with toCore := s.toCore.fixedDirection }
      { t with toCore := t.toCore.fixedDirection } :=
    h.withCore (Core.AlikeOnCourse.fixedDirection h.core hr)
  unfold determineDirection
  refine Update.related_modify_bind ?_
  change Update.Related _ _ { s with toCore := s.toCore.fixedDirection }
    { t with toCore := t.toCore.fixedDirection } _ _
  generalize ({ s with toCore := s.toCore.fixedDirection } : Constrained K n m) = s1 at hfixed ⊢
  generalize ({ t with toCore := t.toCore.fixedDirection } : Constrained K n m) = t1 at hfixed ⊢
  -- a part that is left out is left out on both sides
  obtain ⟨hfree, hactive, hnFree, hnNull⟩ : t1.free = s1.free ∧ t1.active = s1.active ∧
      t1.nullSpace.nFree = s1.nullSpace.nFree ∧ t1.nNull = s1.nNull := by
    cases hfixed with
    | intro hcore hnullSpace =>
      cases hcore
      cases hnullSpace
      exact ⟨rfl, rfl, rfl, rfl⟩
  have hlast : ∀ s2 t2 : Constrained K n m, s2.AlikeInMotion r t2 →
      (do
          if 0 < s1.nNull then nullStep
          multiplierStep
          modify fun s => { s with dax := s.matrix.apply 1 s.dx 0 s.dax } :
        Update (Constrained K n m) Unit).Alike
      (do
          if 0 < t1.nNull then nullStep
          multiplierStep
          modify fun s => { s with dax := s.matrix.apply 1 s.dx 0 s.dax })
        s2 t2 (fun _ => AlikeDirected r) fun _ => AlikeOnCourse r := by
    intro s2 t2 h2
    exact Update.alike_ite (by rw [hnNull])
      (fun _ => Update.alike_bind_of (nullStep_alike h2 hr)
        (fun _ _ _ h => AlikeInMotion.course h hr) fun _ _ _ h3 => multipliers_alike h3 hr)
      fun _ => multipliers_alike h2 hr
  refine Update.related_get_bind (Update.alike_ite (by rw [hfree, hnFree])
    (fun _ => Update.alike_bind (Update.alike_throw (hfixed.course hr)))
    fun _ => Update.alike_ite (by rw [hactive]) (fun _ => ?_) fun _ => hlast s1 t1 hfixed)
  exact Update.alike_bind_of (rangeStep_alike hfixed hr) (fun _ _ _ h => AlikeInMotion.course h hr)
    fun _ s2 t2 h2 => hlast s2 t2 h2

/-! ## Entering the working set -/

theorem PreparedRow.alike_of_iff {k : Nat} {w w' : Tuple K k} (h : w.Alike r w') {p q : Prop}
    [Decidable p] [Decidable q] (hpq : p ↔ q) :
    PreparedRow.Alike r ⟨k, w, decide p⟩ ⟨k, w', decide q⟩ := by
  rw [decide_eq_decide.2 hpq]
  exact .intro h

theorem prepareConstraint_alike (h : s.Alike (Core.Alike r f g q b) r d e t) (hr : Congruence r) :
    (prepareConstraint j).Related (prepareConstraint j) s t
      (fun w w' s' t' => w.Alike r w' ∧ s'.Alike (Core.Alike r f g q b) r d e t')
      fun _ => Alike (Core.Alike r f g q b) r d e := by
  have hkept := h
  cases h with
  | intro hcore hnullSpace =>
    cases hcore with
    | intro hg =>
      unfold prepareConstraint
      refine Update.related_get_bind (Update.related_bind (Update.related_require
        (hnullSpace.rowTimesQ? hr (.refl hr.refl _)) (fun w w' hw => ?_) hkept))
      refine Update.related_pure ⟨PreparedRow.alike_of_iff hw ?_, hkept⟩
      cases hnullSpace
      exact and_congr_right' (and_congr_left' (hr.lt_iff (hr.refl _) (hr.norm hw)))

theorem appendConstraint_alike (h : s.Alike (Core.Alike r f g q b) r d e t) (hr : Congruence r)
    (hw : w.Alike r w') (withFactor : Bool) :
    (appendConstraint j side w withFactor).Alike (appendConstraint j side w' withFactor) s t
      (fun _ => Alike (Core.Alike r f g q b) r d e) fun _ => Alike (Core.Alike r f g q b) r d e := by
  have hkept := h
  cases h with
  | intro hcore hnullSpace hax hdax hdependency =>
    cases hcore with
    | intro hg hx hy hfactor =>
      cases hw with
      | intro hw =>
        unfold appendConstraint
        refine Update.related_get_bind (Update.alike_bind (Update.alike_mapError
          (Update.alike_ofExcept (fun constraints _ => ?_) fun _ _ => hkept)))
        refine Update.related_bind (Update.related_require (hnullSpace.concentrate? hr hw)
          (fun row row' hrow => ?_) hkept)
        -- the factor is updated by the same rotations
        have hfactor' : Option.Rel (Cholesky.Alike r)
            (if withFactor then do (← s.factor.turnBases? 0 row.1).dropLast? else some s.factor)
            (if withFactor then do (← (_ : Cholesky K n).turnBases? 0 row'.1).dropLast? else some _) :=
          related_ite (hfactor.dropTurned hr hrow.1) (.some hfactor)
        refine Update.related_bind (Update.related_require hfactor' (fun factor factor' hfactor => ?_) hkept)
        refine Update.related_bind (Update.related_require
          ((hnullSpace.turnZ hr hrow.1).appendRow? hr.refl hrow.2) (fun nullSpace nullSpace' hnull => ?_)
          hkept)
        exact Update.alike_set (.intro (hkept.core.withWorkingSet s.bounds s.free hfactor) hnull hax hdax
          hdependency)

theorem prepareBound_alike (h : s.Alike (Core.AlikeOnCourse r) r d e t) (hr : Congruence r) :
    (prepareBound i).Related (prepareBound i) s t
      (fun w w' s' t' => w.Alike r w' ∧ s'.Alike (Core.AlikeOnCourse r) r d e t')
      fun _ => Alike (Core.AlikeOnCourse r) r d e := by
  have hkept := h
  cases h with
  | intro hcore hnullSpace hax hdax hdependency =>
    cases hcore with
    | intro hg _ _ hfactor =>
      unfold prepareBound
      refine Update.related_get_bind ?_
      dsimp only
      cases s.free.idxOf? i with
      | none => exact Update.related_fail hkept
      | some p =>
        refine Update.related_bind (Update.related_require (hnullSpace.swapRows? hr.refl _ _)
          (fun nullSpace nullSpace' hswapped => ?_) hkept)
        -- the list of free variables is permuted alike
        have hmoved : ∀ l, Alike (Core.AlikeOnCourse r) r d e { s with nullSpace, free := l } _ := fun l =>
          .intro (hkept.core.withWorkingSet s.bounds l hfactor) hswapped hax hdax hdependency
        refine Update.related_set_bind ?_
        cases hswapped with
        | @intro q t hq =>
          refine Update.related_bind (Update.related_require
            (related_ite (NullSpace.alike_row? hq hr.refl _) .none) (fun w w' hw => ?_) (hmoved _))
          refine Update.related_pure ⟨PreparedRow.alike_of_iff hw ?_, hmoved _⟩
          exact and_congr_right' (hr.lt_iff (hr.refl _) (hr.norm hw))

theorem appendBound_alike (h : s.Alike (Core.AlikeOnCourse r) r d e t) (hr : Congruence r)
    (hw : w.Alike r w') :
    (appendBound i side w).Alike (appendBound i side w') s t
      (fun _ => Alike (Core.AlikeOnCourse r) r d e) fun _ => Alike (Core.AlikeOnCourse r) r d e := by
  have hkept := h
  cases h with
  | intro hcore hnullSpace hax hdax hdependency =>
    cases hcore with
    | intro hg _ _ hfactor =>
      cases hw with
      | intro hw =>
        unfold appendBound
        -- rotations, factor and splitting one after the other, each alike on both sides
        refine Update.related_get_bind (Update.alike_bind (Update.alike_mapError
          (Update.alike_ofExcept (fun bounds _ => ?_) fun _ _ => hkept)))
        refine Update.related_bind (Update.related_require (hnullSpace.concentrate? hr hw)
          (fun row row' hrow => ?_) hkept)
        refine Update.related_bind (Update.related_require (hfactor.dropTurned hr hrow.1)
          (fun factor factor' hfactor => ?_) hkept)
        refine Update.related_bind (Update.related_require ((hnullSpace.turnZ hr hrow.1).removeLastRow? hr)
          (fun nullSpace nullSpace' hnull => ?_) hkept)
        exact Update.alike_set (.intro (hkept.core.withWorkingSet bounds s.free.dropLast hfactor) hnull hax
          hdax hdependency)

theorem prepareEntity_alike (h : s.Alike (Core.AlikeOnCourse r) r d e t) (hr : Congruence r) :
    (prepareEntity a).Related (prepareEntity a) s t
      (fun w w' s' t' => w.Alike r w' ∧ s'.Alike (Core.AlikeOnCourse r) r d e t')
      fun _ => Alike (Core.AlikeOnCourse r) r d e := by
  cases a with
  | bound i => exact prepareBound_alike h hr
  | constraint j => exact prepareConstraint_alike h hr

theorem appendEntity_alike (h : s.Alike (Core.AlikeOnCourse r) r d e t) (hr : Congruence r)
    (hw : w.Alike r w') :
    (appendEntity a side w).Alike (appendEntity a side w') s t
      (fun _ => Alike (Core.AlikeOnCourse r) r d e) fun _ => Alike (Core.AlikeOnCourse r) r d e := by
  cases a with
  | bound i => exact appendBound_alike h hr hw
  | constraint j => exact appendConstraint_alike h hr hw true

/-! ## Leaving the working set -/

/-- The factor is extended alike. The place of the change of the gradient is written to in part. -/
theorem extendFactor_alike (h : s.Alike (Core.AlikeOnCourse r) r d e t) (hr : Congruence r)
    (removal : QpError) :
    (extendFactor removal).Alike (extendFactor removal) s t
      (fun _ => Alike (Core.AlikeOnCourse r) r d e) fun _ => Alike (Core.AlikeOnCourse r) r d e := by
  have hkept := h
  cases h with
  | @intro _ nullSpace _ _ _ hcore hnullSpace hax hdax hdependency =>
    cases hcore with
    | intro hg hx hy hfactor hdx hdy htilt hcurrent hid =>
      cases hnullSpace with
      | intro hq ht =>
        -- the new column is written over the tilt, of which the rest remains
        have hwritten : ∀ (k : Nat) {column column' : Nat → K}, (∀ i, r (column i) (column' i)) →
            (Tuple.ofFn n fun i => if i < k then column i else s.tilt i).Alike (Residue r)
              (Tuple.ofFn n fun i => if i < k then column' i else _) := fun k column column' hcolumn =>
          Tuple.alike_ofFn (fun a => hr.residue (hr.refl a)) fun i =>
            related_ite (hr.residue (hcolumn i)) (htilt i)
        unfold extendFactor
        refine Update.related_get_bind (Update.alike_ite Iff.rfl
          (fun _ => Update.alike_bind (Update.alike_throw hkept)) fun _ => ?_)
        refine Update.related_bind (Update.related_require (NullSpace.alike_column? hq hr.refl _)
          (fun z z' hz => ?_) hkept)
        -- the same products are summed up from entries that are related
        have hproduct : ∀ p, r (sum s.free.length fun q =>
            gather s.free (fun u => gather s.free (s.hessian u) q) p * z q) _ := fun p =>
          hr.sum fun q => hr.mul (hr.refl _) (hz q)
        have hhz := Tuple.alike_ofFn (n := s.free.length) hr.refl hproduct
        have hcolumn := Tuple.alike_ofFn (n := s.nNull - 1) hr.refl fun j =>
          hr.sum (n := s.free.length) fun p => hr.mul (hq p j) (hhz p)
        refine Update.related_bind (Update.related_require
          (hfactor.append? hr hg.safePivots hcolumn (hr.dot hz hhz) _) (fun o o' ho => ?_) hkept)
        cases ho with
        | ok h =>
          exact Update.alike_set (.intro (.intro hg hx hy h.2 hdx hdy (hwritten _ h.1) hcurrent hid)
            (.intro hq ht) hax hdax hdependency)
        | error e h =>
          exact Update.related_set_bind (Update.alike_fail
            (.intro (.intro hg hx hy hfactor hdx hdy (hwritten _ h) hcurrent hid) (.intro hq ht) hax hdax
              hdependency))

theorem removeConstraint_alike (h : s.Alike (Core.AlikeOnCourse r) r d e t) (hr : Congruence r) :
    (removeConstraint j).Alike (removeConstraint j) s t
      (fun _ => Alike (Core.AlikeOnCourse r) r d e) fun _ => Alike (Core.AlikeOnCourse r) r d e := by
  have hkept := h
  cases h with
  | intro hcore hnullSpace hax hdax hdependency =>
    unfold removeConstraint
    refine Update.related_get_bind ?_
    dsimp only
    cases s.active.idxOf? j with
    | none => exact Update.alike_fail hkept
    | some p =>
      refine Update.alike_bind (Update.alike_mapError
        (Update.alike_ofExcept (fun constraints _ => ?_) fun _ _ => hkept))
      refine Update.related_bind (Update.related_require (hnullSpace.removeRow? hr p)
        (fun nullSpace nullSpace' hnull => ?_) hkept)
      refine Update.related_set_bind (extendFactor_alike ?_ hr _)
      exact .intro hcore hnull hax hdax hdependency

theorem removeBound_alike (h : s.Alike (Core.AlikeOnCourse r) r d e t) (hr : Congruence r) :
    (removeBound i).Alike (removeBound i) s t
      (fun _ => Alike (Core.AlikeOnCourse r) r d e) fun _ => Alike (Core.AlikeOnCourse r) r d e := by
  have hkept := h
  cases h with
  | intro hcore hnullSpace hax hdax hdependency =>
    cases hcore with
    | intro hg _ _ hfactor =>
      unfold removeBound
      refine Update.related_get_bind (Update.alike_bind (Update.alike_mapError
        (Update.alike_ofExcept (fun bounds _ => ?_) fun _ _ => hkept)))
      refine Update.related_bind (Update.related_require (hnullSpace.appendFreeRow? hr _)
        (fun row row' hrow => ?_) hkept)
      refine Update.related_set_bind (extendFactor_alike ?_ hr _)
      exact .intro (hkept.core.withWorkingSet bounds (s.free ++ [i]) hfactor) hrow hax hdax hdependency

theorem removeEntity_alike (h : s.Alike (Core.AlikeOnCourse r) r d e t) (hr : Congruence r) :
    (removeEntity a).Alike (removeEntity a) s t
      (fun _ => Alike (Core.AlikeOnCourse r) r d e) fun _ => Alike (Core.AlikeOnCourse r) r d e := by
  cases a with
  | bound i => exact removeBound_alike h hr
  | constraint j => exact removeConstraint_alike h hr

/-! ## Exchanges -/

/-- The coefficients of a dependent entity cover what remains of the last one. -/
theorem withDependency_alike (h : s.AlikeOnCourse r t) (hr : Congruence r) (hw : w.Alike r w') :
    (withDependency a w).Alike (withDependency a w') s t (fun _ => AlikeInExchange r)
      fun _ => AlikeOnCourse r := by
  have hkept := h
  cases h with
  | intro hcore hnullSpace hax hdax hdependency =>
    have hguarded := hcore
    cases hguarded with
    | intro hg =>
      cases hw with
      | intro hw =>
        have hsolvable := hnullSpace
        cases hnullSpace
        unfold withDependency
        refine Update.related_get_bind (Update.alike_ite Iff.rfl
          (fun _ => Update.alike_bind (Update.alike_throw hkept)) fun _ => ?_)
        refine Update.related_bind (Update.related_mapError (Update.related_ofAttempt
          (hsolvable.solveTT? hr hg.safePivots
            (Tuple.alike_ofFn (n := s.active.length) hr.refl fun c => hw (s.nNull + c)) _)
          (fun xi xi' hxi => ?_) fun _ => hkept))
        -- the entry of the bounds starts from multipliers that are cleared first
        have hcleared := hdependency.cleared hr
        refine Update.alike_set (.intro hcore hsolvable hax hdax ⟨Tuple.alike_ofFn hr.refl fun j => ?_,
          alike_spread hr.refl _ (fun p _ _ _ => hxi p) hcleared.row⟩)
        exact related_ite (hr.deduct (hr.refl _) fun c => hr.mul (hxi c) (hr.refl _)) (hcleared.bound j)

/-! ### The entity that leaves -/

/-- Coefficients that count as zero are not divided by. -/
theorem amountToZero_eq (hr : Congruence r) {eps eps' multiplier multiplier' coefficient coefficient' : K}
    (heps : r eps eps') (hmultiplier : r multiplier multiplier') (hcoefficient : r coefficient coefficient')
    (hsafe : coefficient ≠ coefficient' → ¬eps < coefficient ∧ ¬coefficient < -eps) (type : LimitType)
    (activity : Activity) :
    amountToZero eps' type activity multiplier' coefficient' =
      amountToZero eps type activity multiplier coefficient := by
  have hlower : (if eps' < coefficient' then some (max (multiplier' / coefficient') 0) else none) =
      if eps < coefficient then some (max (multiplier / coefficient) 0) else none :=
    Course.part_eq hr (hr.lt_iff heps hcoefficient) hmultiplier fun hlt =>
      by_contra fun hne => (hsafe hne).1 hlt
  have hupper : (if coefficient' < -eps' then some (max (multiplier' / coefficient') 0) else none) =
      if coefficient < -eps then some (max (multiplier / coefficient) 0) else none :=
    Course.part_eq hr (hr.lt_iff hcoefficient (hr.neg heps)) hmultiplier fun hlt =>
      by_contra fun hne => (hsafe hne).2 hlt
  cases type <;> cases activity <;> first | rfl | exact hlower | exact hupper

theorem AlikeInExchange.leavingAmount_eq (h : s.AlikeInExchange r t) (hr : Congruence r) (flip : Bool)
    (a : Entity n m) : t.leavingAmount flip a = s.leavingAmount flip a := by
  cases h with
  | intro hcore hnullSpace hax hdax hdependency =>
    cases hcore with
    | intro hg _ hy =>
      have hstep : r (if flip then -s.dependency.get a else s.dependency.get a) (if flip then -_ else _) :=
        related_ite (hr.neg (hdependency.get a)) (hdependency.get a)
      have heps := hr.mul (hr.refl s.parameters.epsDependent)
        (hr.max (hr.norm (n := n + m) hdependency.entry) (hr.refl 1))
      exact amountToZero_eq hr heps (hy.get a) hstep
        (fun hne => ⟨(hg hstep hne).not_dependent_lt _, (hg hstep hne).not_lt_neg_dependent _⟩)
        (s.limitType a) (s.activity a)

theorem AlikeInExchange.leaving_eq (h : s.AlikeInExchange r t) (hr : Congruence r) (flip : Bool) :
    t.leaving flip = s.leaving flip := by
  have hearlier : t.earlier flip = s.earlier flip := by
    funext best a
    unfold earlier
    rw [h.leavingAmount_eq hr flip a]
  rw [Constrained.leaving_eq, Constrained.leaving_eq, hearlier]

theorem AlikeInExchange.exchanged (h : s.AlikeInExchange r t) (hr : Congruence r) (leaver : Entity n m)
    (amount : K) : AlikeInExchange r { s with y := s.exchangedMultipliers a leaver amount }
      { t with y := t.exchangedMultipliers a leaver amount } := by
  have hkept := h
  cases h with
  | intro hcore hnullSpace hax hdax hdependency =>
    cases hcore with
    | intro hg hx hy hfactor hdx hdy htilt hcurrent hid =>
      have hmoved := ((hdependency.addScaled hy hr (-amount)).set hr.refl leaver (hr.refl 0)).set hr.refl a
        (hr.refl amount)
      exact hkept.withCore (.intro hg hx hmoved hfactor hdx hdy htilt hcurrent hid)

/-- With related coefficients the same entity leaves, and the multipliers move alike. -/
theorem exchange_alike (h : s.AlikeOnCourse r t) (hr : Congruence r) (hw : w.Alike r w') :
    (exchange a side w).Alike (exchange a side w') s t (fun _ => AlikeOnCourse r)
      fun _ => AlikeOnCourse r := by
  -- the coefficients are not read again after the exchange
  have hforget : ∀ {s t : Constrained K n m}, s.AlikeInExchange r t → s.AlikeOnCourse r t :=
    fun h => AlikeInExchange.course h hr
  unfold exchange
  refine Update.alike_bind_of (withDependency_alike h hr hw) (fun _ _ _ h => h) fun _ s1 t1 h1 => ?_
  -- both look at the same ratios, so the same entity leaves
  have hleaving : (t1.directions a side).findSome? (fun flip => (t1.leaving flip).map (flip, ·)) =
      (s1.directions a side).findSome? fun flip => (s1.leaving flip).map (flip, ·) := by
    have hdirections : t1.directions a side = s1.directions a side := by
      cases h1 with
      | intro hcore =>
        cases hcore
        rfl
    rw [hdirections]
    simp only [h1.leaving_eq hr]
  refine Update.alike_get_bind ?_
  rw [hleaving]
  cases (s1.directions a side).findSome? fun flip => (s1.leaving flip).map (flip, ·) with
  | none => exact Update.alike_fail (hforget h1)
  | some result =>
    obtain ⟨flip, amount, leaver⟩ := result
    refine Update.alike_bind_of (removeEntity_alike h1 hr) (fun _ _ _ => hforget) fun _ s2 t2 h2 => ?_
    refine Update.related_bind_of (prepareEntity_alike h2 hr) (fun _ _ _ => hforget)
      fun w w' s3 t3 h3 => ?_
    obtain ⟨hw, h3⟩ := h3
    refine Update.alike_ite (by rw [hw.independent]) (fun _ => ?_) fun _ => ?_
    · exact Update.alike_bind_of (appendEntity_alike h3 hr hw) (fun _ _ _ => hforget)
        fun _ s4 t4 h4 => Update.alike_modify
          (hforget (AlikeInExchange.exchanged h4 hr leaver _))
    · exact Update.related_modify_bind (Update.alike_fail
        (hforget (h3.withCore (h3.core.withStatus .notInitialised))))

theorem changeWorkingSet_alike (h : s.AlikeOnCourse r t) (hr : Congruence r) (event : StepEvent n m) :
    (changeWorkingSet event).Alike (changeWorkingSet event) s t (fun _ => AlikeOnCourse r)
      fun _ => AlikeOnCourse r := by
  cases event with
  | full => exact Update.alike_fail h
  | add a side =>
    refine Update.related_bind_of (prepareEntity_alike h hr) (fun _ _ _ h => h) fun w w' s1 t1 h1 => ?_
    obtain ⟨hw, h1⟩ := h1
    exact Update.alike_ite (by rw [hw.independent]) (fun _ => appendEntity_alike h1 hr hw)
      fun _ => exchange_alike h1 hr hw
  | remove a => exact removeEntity_alike h hr

/-! ## All steps -/

theorem AlikeDirected.rowCourse (h : s.AlikeDirected r t) (hr : Congruence r) (j : Fin m) :
    (s.rowCourse j).Alike r (t.rowCourse j) := by
  have hshift := Core.Alike.shift h.core hr
  cases h with
  | intro hcore hnullSpace hax hdax hdependency =>
    cases hcore with
    | intro hg hx hy hfactor hdx hdy htilt hcurrent hid =>
      exact ⟨rfl, rfl, rfl, hax j, hdax j, hcurrent.rowLower j, hshift.rowLower j, hcurrent.rowUpper j,
        hshift.rowUpper j, hy.row j, hdy.row j⟩

theorem AlikeDirected.stepLength_eq (h : s.AlikeDirected r t) (hr : Congruence r) :
    t.stepLength = s.stepLength := by
  obtain ⟨hparameters, hg⟩ : t.parameters = s.parameters ∧ Guarded r s.parameters := by
    cases h with
    | intro hcore =>
      cases hcore with
      | intro hg => exact ⟨rfl, hg⟩
  have hrows : t.rowBlockers = s.rowBlockers := by
    unfold rowBlockers
    rw [hparameters]
    exact congrArg (fun f => (List.finRange m).flatMap f)
      (funext fun j => (h.rowCourse hr j).blockers_eq hr hg (.constraint j))
  unfold stepLength
  rw [Core.AlikeDirected.boundBlockers_eq h.core hr, hrows]

theorem Alike.withRowValues (h : s.Alike (Core.Alike r f g q b) r d e t) (hr : Congruence r) :
    s.withRowValues.Alike (Core.Alike r f g q b) r d e t.withRowValues := by
  cases h with
  | intro hcore hnullSpace hax hdax hdependency =>
    have hx := hcore.x_alike
    have hax' : ∀ i, Residue r (s.ax i) _ := fun i => hr.residue (hax i)
    exact .intro hcore hnullSpace (Grid.alike_apply hx hax' hr _ _) hdax hdependency

theorem AlikeDirected.perform (h : s.AlikeDirected r t) (hr : Congruence r) (tau : K)
    (event : StepEvent n m) : (s.perform tau event).AlikeDirected r (t.perform tau event) := by
  have hmoved := h.withCore (Core.AlikeDirected.perform h.core hr tau event)
  exact hmoved.withRowValues hr

/-- What remains is not noticed by a solver, if it is related after a multiplication with zero. -/
theorem companions_of_alike (hr : Congruence r) :
    (method : Method K n m (Constrained K n m)).Companions method (workingSetPhases K n m)
      (workingSetPhases K n m) (AlikeOnCourse r) (AlikeDirected r) where
  seen s t h := by
    cases h with
    | intro hcore =>
      cases hcore
      exact ⟨rfl, rfl, rfl, rfl, rfl⟩
  verdict h hstatus hinfeasible hunbounded := by
    subst hstatus hinfeasible hunbounded
    exact h.withCore (h.core.withVerdict _ _ _)
  direction s t _ _ h := determineDirection_alike h hr
  stepLength s t h := h.stepLength_eq hr
  perform tau event s t h := (h.perform hr tau event).course hr
  change event s t _ _ _ h := changeWorkingSet_alike h hr event

end ActiveSet.Constrained
