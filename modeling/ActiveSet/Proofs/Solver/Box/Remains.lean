import ActiveSet.Proofs.Solver.Box
import ActiveSet.Proofs.Solver.Remains

/-!
# What remains of earlier solves of problems with bounds only

Two solvers for bounds may differ in what earlier solves have left in the vectors of the direction. As
long as the products of these with zero are related by a congruence, and so is everything else, they take
the same steps: a direction determines these vectors anew, with the old entries only as summands with the
factor zero.

* `companions_of_alike`: steps do the same.
* `prepare_alike`: so does the set-up after a reset.
-/

namespace ActiveSet.Box

open Scalar ActiveSet.Core

variable {K : Type} [Scalar K] {n : Nat} {r : K → K → Prop} {s t : Box K n}

/-! ## Steps -/

/-- A direction covers what remains of the last one. -/
theorem determineDirection_alike (h : s.AlikeOnCourse r t) (hr : Congruence r) :
    determineDirection.Alike determineDirection s t (fun _ => AlikeDirected r)
      fun _ => AlikeOnCourse r := by
  have hfixed := (h.fixedDirection hr).withTilt hr
  unfold determineDirection
  refine Update.related_modify_bind (Update.related_get_bind ?_)
  dsimp only
  generalize s.fixedDirection.withTilt = s1 at hfixed ⊢
  generalize t.fixedDirection.withTilt = t1 at hfixed ⊢
  have hcourse := hfixed.course hr
  have hmotion := hfixed.motion hr
  cases hfixed with
  | intro hg hx hy hfactor hdx hdy htilt hcurrent hid =>
    -- the right-hand sides are alike, then what the two substitutions make of them
    have hrhs : (Tuple.ofFn s1.free.length fun p => -gather s1.free s1.tilt p).Alike r
        (Tuple.ofFn s1.free.length fun p => -gather s1.free _ p) :=
      Tuple.alike_ofFn hr.refl fun p => hr.neg (alike_gather hr.refl _ htilt p)
    refine Update.related_bind (Update.related_ofAttempt (hfactor.solveRT? hr hg.safePivots hrhs)
      (fun z z' hz => ?_) fun _ => hcourse)
    refine Update.related_bind (Update.related_ofAttempt (hfactor.solveR? hr hg.safePivots hz)
      (fun z z' hz => ?_) fun _ => hcourse)
    have hmoved := (hmotion.withFree hr (f := fun p _ => z p) (g := fun p _ => z' p)
      fun p _ _ _ => hz p).withTilt hr
    exact Update.related_modify_bind
      (Update.alike_modify (hmoved.withFixed hr hmoved.tilt_alike hmoved.dy_alike.row))

theorem addBound_alike (h : s.AlikeOnCourse r t) (hr : Congruence r) (i : Fin n) (side : Activity) :
    (addBound i side).Alike (addBound i side) s t (fun _ => AlikeOnCourse r)
      fun _ => AlikeOnCourse r := by
  have hkept := h
  cases h with
  | intro hg hx hy hfactor hdx hdy htilt hcurrent hid =>
    unfold addBound
    refine Update.related_get_bind ?_
    dsimp only
    cases s.free.idxOf? i with
    | none => exact Update.alike_fail hkept
    | some p =>
      refine Update.alike_bind (Update.alike_mapError (Update.alike_ofExcept (fun bounds _ => ?_)
        fun _ _ => hkept))
      refine Update.related_bind (Update.related_require (hfactor.removeColumn? hr p)
        (fun f f' hf => ?_) hkept)
      exact Update.alike_set (hkept.withWorkingSet bounds _ hf)

theorem removeBound_alike (h : s.AlikeOnCourse r t) (hr : Congruence r) (i : Fin n) :
    (removeBound i).Alike (removeBound i) s t (fun _ => AlikeOnCourse r)
      fun _ => AlikeOnCourse r := by
  have hkept := h
  cases h with
  | intro hg hx hy hfactor hdx hdy htilt hcurrent hid =>
    unfold removeBound
    refine Update.related_get_bind ?_
    dsimp only
    refine Update.alike_bind (Update.alike_mapError (Update.alike_ofExcept (fun bounds _ => ?_)
      fun _ _ => hkept))
    have hleft := hkept.withWorkingSet bounds s.free hfactor
    refine Update.related_set_bind (Update.related_bind (Update.related_require
      (hfactor.append? hr hg.safePivots (.refl hr.refl _) (hr.refl _) _) (fun o o' ho => ?_) hleft))
    cases ho with
    | ok h => exact Update.alike_set (hkept.withWorkingSet bounds _ h.2)
    | error e h => exact Update.alike_fail hleft

theorem changeWorkingSet_alike (h : s.AlikeOnCourse r t) (hr : Congruence r) (event : StepEvent n 0) :
    (changeWorkingSet event).Alike (changeWorkingSet event) s t (fun _ => AlikeOnCourse r)
      fun _ => AlikeOnCourse r := by
  cases event with
  | full => exact Update.alike_fail h
  | add e side =>
    cases e with
    | bound i => exact addBound_alike h hr i side
    | constraint i => exact Update.alike_fail h
  | remove e =>
    cases e with
    | bound i => exact removeBound_alike h hr i
    | constraint i => exact Update.alike_fail h

/-- What remains is not noticed by a solver, if it is related after a multiplication with zero. -/
theorem companions_of_alike (hr : Congruence r) :
    (Box.method : Method K n 0 (Box K n)).Companions Box.method (phases K n) (phases K n)
      (AlikeOnCourse r) (AlikeDirected r) where
  seen s t h := by
    cases h
    exact ⟨rfl, rfl, rfl, rfl, rfl⟩
  verdict h hstatus hinfeasible hunbounded := by
    subst hstatus hinfeasible hunbounded
    exact h.withVerdict _ _ _
  direction s t _ _ h := determineDirection_alike h hr
  stepLength s t h := congrArg (fun l => ((firstBlocker l).tau, (firstBlocker l).event))
    (h.boundBlockers_eq hr)
  perform tau event s t h := (h.perform hr tau event).course hr
  change event s t _ _ _ h := changeWorkingSet_alike h hr event

/-! ## The set-up -/

theorem factorize_alike (h : s.AlikePrepared r t) (hr : Congruence r) :
    factorize.Alike factorize s t (fun _ => AlikePrepared r) fun _ => AlikePrepared r := by
  have hkept := h
  cases h with
  | intro hg hx hy hfactor hdx hdy htilt hcurrent hid =>
    subst hid
    unfold factorize
    refine Update.related_get_bind (Update.related_ite Iff.rfl (fun _ => ?_) fun _ => ?_)
    · refine Update.related_bind (Update.related_require (hfactor.identity? hr _)
        (fun f f' hf => ?_) hkept)
      exact Update.alike_set (hkept.withWorkingSet s.bounds s.free hf)
    · refine Update.related_bind (Update.related_require
        (hfactor.factorize? hr (fun hab hle => hg.eq_of_not_le_definite hab hle) _ fun i j => hr.refl _)
        (fun o o' ho => ?_) hkept)
      cases ho with
      | ok h => exact Update.alike_set (hkept.withWorkingSet s.bounds s.free h)
      | error e h =>
        exact Update.related_set_bind (Update.alike_fail (hkept.withWorkingSet s.bounds s.free h))

/-- Without constraints there are no limits of rows. -/
theorem auxiliaryData_alike (h : s.AlikePrepared r t) (hr : Congruence r) :
    s.auxiliaryData.AlikeOnCourse r t.auxiliaryData :=
  (h.auxiliaryData hr).mono id id (fun ⟨hgradient, hlower, hupper⟩ =>
    ⟨hgradient, hlower, hupper, Tuple.alike_of_empty hr.refl _ _, Tuple.alike_of_empty hr.refl _ _⟩) id

/-- From starts that are alike, auxiliary problems are set up alike. -/
theorem prepare_alike (h : s.AlikeAtStart r t) (hr : Congruence r) (guess : Guess K n 0) :
    (prepare guess).Alike (prepare guess) s t (fun _ => AlikeOnCourse r)
      fun _ => AlikeAtStart r := by
  unfold prepare
  refine Update.related_modify_bind ?_
  refine Update.alike_bind_of (AlikeAtStart.prepareBounds (h.withStatus .preparingAuxiliary) hr) (fun _ _ _ h => h)
    fun _ s1 t1 h1 => ?_
  refine Update.alike_bind_of (factorize_alike h1 hr) (fun _ _ _ h => AlikePrepared.start h)
    fun _ s2 t2 h2 => ?_
  exact Update.alike_modify ((auxiliaryData_alike h2 hr).withStatus .auxiliarySolved)

end ActiveSet.Box
