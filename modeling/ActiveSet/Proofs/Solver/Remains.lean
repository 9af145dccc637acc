import ActiveSet.Proofs.Factor.Alike
import ActiveSet.Proofs.Lockstep
import ActiveSet.Proofs.Solver.Loading

/-!
# What remains of earlier solves

A solve from scratch does not overwrite all that earlier solves have left. Some vectors are cleared by a
multiplication with zero, and others are first used as summands with the factor zero. So the past enters
a solve through these products alone: if they are related by a congruence for two cores, so is what the
parts of a solve make of them.

* `Core.Alike`: cores that are the same apart from numbers, and whose numbers are related.
* `Core.AlikeAtStart`, `Core.AlikeOnCourse`, `Core.AlikeInMotion`, `Core.AlikeDirected`: what is related
  while an auxiliary problem is set up, in the course of a homotopy, and when a direction is known in part
  or as a whole.
-/

namespace ActiveSet

open Scalar

variable {K : Type} [Scalar K] {n m : Nat} {r : K → K → Prop}

/-- A set of entities from scratch depends on how many may be active. -/
theorem EntitySet.reset_congr {kind : EntityKind} {e e' : EntitySet kind n}
    (h : e'.partition.capacity = e.partition.capacity) : e'.reset = e.reset := by
  unfold reset Partition.reset
  simp only [h]

/-! ## Positions -/

omit [Scalar K] in
theorem alike_gather [Zero K] (hr : ∀ a, r a a) (indices : List (Fin n)) {f g : Nat → K}
    (h : ∀ i, r (f i) (g i)) (p : Nat) : r (gather indices f p) (gather indices g p) := by
  unfold gather
  split
  · exact h _
  · exact hr 0

/-- Entries that do not occur in the list are kept. -/
theorem alike_spread (hr : ∀ a, r a a) (indices : List (Fin n)) {f g : Nat → K → K} {x y : Tuple K n}
    (hf : ∀ p a b, r a b → r (f p a) (g p b)) (h : x.Alike r y) :
    (spread indices f x).Alike r (spread indices g y) := by
  refine Tuple.alike_ofFn hr fun i => ?_
  split
  · exact hf _ _ _ (h i)
  · exact h i

/-! ## Step lengths -/

/-- The courses of an entity in two solvers. -/
structure Course.Alike (r : K → K → Prop) (c e : Course K) : Prop where
  type : e.type = c.type
  activity : e.activity = c.activity
  finite : e.finite = c.finite
  value : r c.value e.value
  valueChange : r c.valueChange e.valueChange
  lower : r c.lower e.lower
  lowerChange : r c.lowerChange e.lowerChange
  upper : r c.upper e.upper
  upperChange : r c.upperChange e.upperChange
  multiplier : r c.multiplier e.multiplier
  multiplierChange : r c.multiplierChange e.multiplierChange

namespace Course

variable {p : Parameters K}

/-- What is divided by a change that has passed a comparison, and then cut off at zero, is the same. -/
theorem part_eq (hr : Congruence r) {q : Prop} [Decidable q] {q' : Prop} [Decidable q'] (hq : q ↔ q')
    {a b d e : K} (hab : r a b) (hde : q → d = e) :
    (if q' then some (max (b / e) 0) else none) = if q then some (max (a / d) 0) else none := by
  by_cases h : q
  · rw [if_pos h, if_pos (hq.1 h), hde h, hr.max_zero (hr.div hab e)]
  · rw [if_neg h, if_neg fun h' => h (hq.2 h')]

/-- Related courses are blocked alike. -/
theorem Alike.blockers_eq {c e : Course K} (h : c.Alike r e) (hr : Congruence r) (hg : Guarded r p)
    (entity : Entity n m) : e.blockers p.epsZero entity = c.blockers p.epsZero entity := by
  -- the test compares with a tolerance, and numbers that only are related lie within it
  have hsafe : ∀ {a b}, r a b → a < -p.epsZero → a = b := fun {a b} hab hlt => by
    by_contra hne
    exact (hg hab hne).not_lt_neg hlt
  have hlowerMultiplier : e.lowerMultiplierUsedUp p.epsZero = c.lowerMultiplierUsedUp p.epsZero :=
    part_eq hr (hr.lt_iff h.multiplierChange (hr.refl _)) h.multiplier
      fun hlt => congrArg _ (hsafe h.multiplierChange hlt)
  have hupperMultiplier : e.upperMultiplierUsedUp p.epsZero = c.upperMultiplierUsedUp p.epsZero := by
    refine part_eq hr (hr.lt_iff (hr.refl _) h.multiplierChange) (hr.neg h.multiplier) fun hlt => ?_
    by_contra hne
    exact (hg h.multiplierChange hne).not_lt hlt
  -- the limits move too, so what counts is the difference of the changes
  have hlower : r (c.valueChange - c.lowerChange) (e.valueChange - e.lowerChange) :=
    hr.sub h.valueChange h.lowerChange
  have hupper : r (c.upperChange - c.valueChange) (e.upperChange - e.valueChange) :=
    hr.sub h.upperChange h.valueChange
  have hlowerLimit : e.lowerLimitReached p.epsZero = c.lowerLimitReached p.epsZero := by
    refine part_eq hr ?_ (hr.sub h.value h.lower) fun hlt => congrArg _ (hsafe hlower hlt.1)
    rw [h.finite, hr.lt_iff hlower (hr.refl _)]
  have hupperLimit : e.upperLimitReached p.epsZero = c.upperLimitReached p.epsZero := by
    refine part_eq hr ?_ (hr.sub h.upper h.value) fun hlt => congrArg _ (hsafe hupper hlt.1)
    rw [h.finite, hr.lt_iff hupper (hr.refl _)]
  unfold Course.blockers
  rw [h.activity, h.type, hlowerMultiplier, hupperMultiplier, hlowerLimit, hupperLimit]

end Course

namespace Core

/-- Another core differs from a core in numbers only, and the tolerances of both are safe for them. Point,
multipliers and factor are related by `r`, the direction by `d`, the change of the gradient by `e`, the
current problem by `q`, and whether the matrix of the objective is treated as the identity by `b`. -/
inductive Alike (r d e : K → K → Prop) (q : Data K n m → Data K n m → Prop) (b : Bool → Bool → Prop)
    (c : Core K n m) : Core K n m → Prop
  | intro {x dx tilt : Tuple K n} {y dy : Dual K n m} {current : Data K n m} {factor : Cholesky K n}
    {identityHessian : Bool} (hg : Guarded r c.parameters) (hx : c.x.Alike r x) (hy : c.y.Alike r y)
    (hfactor : c.factor.Alike r factor) (hdx : c.dx.Alike d dx) (hdy : c.dy.Alike d dy)
    (htilt : c.tilt.Alike e tilt) (hcurrent : q c.current current)
    (hid : b c.identityHessian identityHessian) :
    Alike r d e q b c { c with x, dx, tilt, y, dy, current, factor, identityHessian }

/-- When an auxiliary problem is about to be set up, direction and gradient are left from earlier solves,
and limits of the current problem have not been looked at. -/
abbrev AlikeAtStart (r : K → K → Prop) : Core K n m → Core K n m → Prop :=
  Alike r (Residue r) (Residue r) (fun c e => c.gradient.Alike (Residue r) e.gradient) fun _ _ => True

/-- When the bounds have been prepared, the matrix of the objective has been looked at. -/
abbrev AlikePrepared (r : K → K → Prop) : Core K n m → Core K n m → Prop :=
  Alike r (Residue r) (Residue r) (fun c e => c.gradient.Alike (Residue r) e.gradient) Eq

/-- In the course of a homotopy, directions are left from earlier solves or steps. -/
abbrev AlikeOnCourse (r : K → K → Prop) : Core K n m → Core K n m → Prop :=
  Alike r (Residue r) (Residue r) (Data.Alike r) Eq

/-- While a direction is being determined, the change of the gradient is still left from earlier steps. -/
abbrev AlikeInMotion (r : K → K → Prop) : Core K n m → Core K n m → Prop :=
  Alike r r (Residue r) (Data.Alike r) Eq

/-- Once a direction is known, all numbers are related. -/
abbrev AlikeDirected (r : K → K → Prop) : Core K n m → Core K n m → Prop :=
  Alike r r r (Data.Alike r) Eq

variable {d e d' e' : K → K → Prop} {q q' : Data K n m → Data K n m → Prop} {b b' : Bool → Bool → Prop}
  {c c' : Core K n m} {guess : Guess K n m}

theorem Alike.mono (h : c.Alike r d e q b c') (hd : ∀ {a b}, d a b → d' a b) (he : ∀ {a b}, e a b → e' a b)
    (hq : ∀ {a b}, q a b → q' a b)
    (hb : ∀ {a c}, b a c → b' a c) : c.Alike r d' e' q' b' c' := by
  cases h with
  | intro hg hx hy hfactor hdx hdy htilt hcurrent hid =>
    exact .intro hg hx hy hfactor (hdx.mono hd) (hdy.mono hd) (htilt.mono he) (hq hcurrent) (hb hid)

theorem AlikeDirected.course (h : c.AlikeDirected r c') (hr : Congruence r) : c.AlikeOnCourse r c' :=
  h.mono hr.residue hr.residue id id

theorem AlikeInMotion.course (h : c.AlikeInMotion r c') (hr : Congruence r) : c.AlikeOnCourse r c' :=
  h.mono hr.residue id id id

theorem AlikeDirected.motion (h : c.AlikeDirected r c') (hr : Congruence r) : c.AlikeInMotion r c' :=
  h.mono id hr.residue id id

theorem AlikeOnCourse.start (h : c.AlikeOnCourse r c') (hr : Congruence r) : c.AlikeAtStart r c' :=
  h.mono id id (fun hcurrent => hcurrent.gradient.mono hr.residue) fun _ => trivial

theorem AlikePrepared.start (h : c.AlikePrepared r c') : c.AlikeAtStart r c' :=
  h.mono id id id fun _ => trivial

theorem Alike.x_alike (h : c.Alike r d e q b c') : c.x.Alike r c'.x := by
  cases h
  assumption

theorem Alike.dx_alike (h : c.Alike r d e q b c') : c.dx.Alike d c'.dx := by
  cases h
  assumption

theorem Alike.tilt_alike (h : c.Alike r d e q b c') : c.tilt.Alike e c'.tilt := by
  cases h
  assumption

theorem Alike.dy_alike (h : c.Alike r d e q b c') : c.dy.Alike d c'.dy := by
  cases h
  assumption

/-- The working set and its factor may change, if they change alike. -/
theorem Alike.withWorkingSet (h : c.Alike r d e q b c') (bounds : EntitySet .bound n)
    (free : List (Fin n)) {factor factor' : Cholesky K n} (hfactor : factor.Alike r factor') :
    Alike r d e q b { c with bounds, factor, free } { c' with bounds, factor := factor', free } := by
  cases h with
  | intro hg hx hy _ hdx hdy htilt hcurrent hid => exact .intro hg hx hy hfactor hdx hdy htilt hcurrent hid

/-- So may status and verdicts. -/
theorem Alike.withVerdict (h : c.Alike r d e q b c') (status : Status) (infeasible unbounded : Bool) :
    Alike r d e q b { c with status, infeasible, unbounded } { c' with status, infeasible, unbounded } := by
  cases h with
  | intro hg hx hy hfactor hdx hdy htilt hcurrent hid => exact .intro hg hx hy hfactor hdx hdy htilt hcurrent hid

theorem Alike.withStatus (h : c.Alike r d e q b c') (status : Status) :
    Alike r d e q b { c with status } { c' with status } := by
  cases h with
  | intro hg hx hy hfactor hdx hdy htilt hcurrent hid => exact .intro hg hx hy hfactor hdx hdy htilt hcurrent hid

/-! ## Directions -/

theorem Alike.shift (h : c.Alike r d e (Data.Alike r) b c') (hr : Congruence r) :
    c.shift.Alike r c'.shift := by
  cases h with
  | intro _ _ _ _ _ _ _ hcurrent => exact .sub (.refl hr.refl _) hcurrent hr

/-- With the direction of fixed variables, only the change of the gradient remains. -/
theorem AlikeOnCourse.fixedDirection (h : c.AlikeOnCourse r c') (hr : Congruence r) :
    c.fixedDirection.AlikeInMotion r c'.fixedDirection := by
  have hshift := Alike.shift h hr
  cases h with
  | intro hg hx hy hfactor hdx hdy htilt hcurrent hid =>
    refine .intro hg hx hy hfactor (Tuple.alike_ofFn hr.refl fun i => ?_) (hdy.cleared hr) htilt hcurrent
      hid
    exact related_ite (related_ite (hshift.upper i) (hshift.lower i)) (hdx i)

/-- Free variables move alike. -/
theorem AlikeInMotion.withFree (h : c.AlikeInMotion r c') (hr : Congruence r) {f g : Nat → K → K}
    (hf : ∀ p a b, r a b → r (f p a) (g p b)) :
    AlikeInMotion r { c with dx := spread c.free f c.dx } { c' with dx := spread c'.free g c'.dx } := by
  cases h with
  | intro hg hx hy hfactor hdx hdy htilt hcurrent hid =>
    exact .intro hg hx hy hfactor (alike_spread hr.refl _ hf hdx) hdy htilt hcurrent hid

theorem AlikeInMotion.withTilt (h : c.AlikeInMotion r c') (hr : Congruence r) :
    c.withTilt.AlikeDirected r c'.withTilt := by
  have hshift := Alike.shift h hr
  cases h with
  | intro hg hx hy hfactor hdx hdy htilt hcurrent hid =>
    exact .intro hg hx hy hfactor hdx hdy
      (hshift.gradient.addScaled (Grid.alike_combine hdx htilt hr _ _) hr _) hcurrent hid

/-- Multipliers of fixed variables move alike. -/
theorem AlikeDirected.withFixed (h : c.AlikeDirected r c') (hr : Congruence r) {f g : Nat → K}
    (hf : ∀ i, r (f i) (g i)) {a b : Tuple K m} (hab : a.Alike r b) :
    AlikeDirected r
      { c with dy :=
        ⟨Tuple.ofFn n fun i => if c.bounds.isActive i then f i else c.dy.bound i, a⟩ }
      { c' with dy :=
        ⟨Tuple.ofFn n fun i => if c'.bounds.isActive i then g i else c'.dy.bound i, b⟩ } := by
  cases h with
  | intro hg hx hy hfactor hdx hdy htilt hcurrent hid =>
    refine .intro hg hx hy hfactor hdx ⟨Tuple.alike_ofFn hr.refl fun i => ?_, hab⟩ htilt hcurrent hid
    exact related_ite (hf i) (hdy.bound i)

/-! ## Steps -/

theorem AlikeDirected.boundCourse (h : c.AlikeDirected r c') (hr : Congruence r) (i : Fin n) :
    (c.boundCourse i).Alike r (c'.boundCourse i) := by
  have hshift := Alike.shift h hr
  cases h with
  | intro hg hx hy hfactor hdx hdy htilt hcurrent hid =>
    exact ⟨rfl, rfl, rfl, hx i, hdx i, hcurrent.lower i, hshift.lower i, hcurrent.upper i,
      hshift.upper i, hy.bound i, hdy.bound i⟩

theorem AlikeDirected.boundBlockers_eq (h : c.AlikeDirected r c') (hr : Congruence r) :
    c'.boundBlockers = c.boundBlockers := by
  obtain ⟨hparameters, hg⟩ : c'.parameters = c.parameters ∧ Guarded r c.parameters := by
    cases h with
    | intro hg => exact ⟨rfl, hg⟩
  unfold boundBlockers
  rw [hparameters]
  exact congrArg (fun f => (List.finRange n).flatMap f)
    (funext fun i => (h.boundCourse hr i).blockers_eq hr hg (.bound i))

theorem AlikeDirected.perform (h : c.AlikeDirected r c') (hr : Congruence r) (tau : K)
    (event : StepEvent n m) : (c.perform tau event).AlikeDirected r (c'.perform tau event) := by
  have hshift := Alike.shift h hr
  cases h with
  | @intro x dx tilt y dy current factor _ hg hx hy hfactor hdx hdy htilt hcurrent hid =>
    have hx' := hdx.addScaled hx hr tau
    have hy' := hdy.addScaled hy hr tau
    have hcurrent' := hshift.addScaled hcurrent hr tau
    cases event with
    | full => exact .intro hg hx' hy' hfactor hdx hdy htilt (.refl hr.refl _) hid
    | add a side =>
      cases a with
      | bound i =>
        exact .intro hg (hx'.set hr.refl i (related_ite (hcurrent'.upper i) (hcurrent'.lower i))) hy'
          hfactor hdx hdy htilt hcurrent' hid
      | constraint i => exact .intro hg hx' hy' hfactor hdx hdy htilt hcurrent' hid
    | remove a =>
      exact .intro hg hx' (hy'.set hr.refl a (hr.refl 0)) hfactor hdx hdy htilt hcurrent' hid

/-! ## Auxiliary problems -/

theorem AlikeAtStart.classifyBounds (h : c.AlikeAtStart r c') :
    classifyBounds.Alike classifyBounds c c' (fun _ => AlikeAtStart r) fun _ => AlikeAtStart r := by
  unfold Core.classifyBounds
  refine Update.alike_forM (fun i c c' h => ?_) _ h
  refine Update.alike_get_bind ?_
  have hkept := h
  cases h with
  | intro hg hx hy hfactor hdx hdy htilt hcurrent hid =>
    refine Update.alike_bind (Update.alike_ofExcept (fun result _ => ?_) fun _ _ => hkept)
    exact Update.alike_set (hkept.withWorkingSet result.2 c.free hfactor)

theorem AlikeAtStart.activateBounds (h : c.AlikeAtStart r c') :
    (activateBounds guess).Alike (activateBounds guess) c c' (fun _ => AlikeAtStart r)
      fun _ => AlikeAtStart r := by
  unfold Core.activateBounds
  refine Update.alike_forM (fun i c c' h => ?_) _ h
  refine Update.alike_get_bind ?_
  have hkept := h
  cases h with
  | intro hg hx hy hfactor hdx hdy htilt hcurrent hid =>
    refine Update.alike_ite Iff.rfl (fun _ => ?_) fun _ => Update.alike_pure _ hkept
    refine Update.alike_bind (Update.alike_mapError
      (Update.alike_ofExcept (fun bounds _ => ?_) fun _ _ => hkept))
    exact Update.alike_set (hkept.withWorkingSet bounds c.free hfactor)

theorem alike_admissible (hr : Congruence r) (type : LimitType) (activity : Activity)
    {a b : K} (h : r a b) (guess : Option K) :
    r (admissible type activity a guess) (admissible type activity b guess) := by
  unfold admissible
  refine related_ite (hr.refl _) ?_
  cases activity with
  | lower => exact hr.max h (hr.refl 0)
  | upper => exact hr.min h (hr.refl 0)
  | inactive => exact hr.refl 0
  | undefined => exact hr.refl 0

/-- The bounds are prepared in the same way. -/
theorem AlikeAtStart.prepareBounds (h : c.AlikeAtStart r c') (hr : Congruence r) :
    (prepareBounds guess).Alike (prepareBounds guess) c c'
      (fun _ => AlikePrepared r) fun _ => AlikeAtStart r := by
  unfold Core.prepareBounds
  refine Update.alike_bind_of h.classifyBounds (fun _ _ _ h => h) fun _ c c' h => ?_
  refine Update.alike_modify_bind (Update.alike_bind_of (activateBounds ?_) (fun _ _ _ h => h)
    fun _ c c' h => ?_)
  · -- the point and the multipliers are the guess, or the leftovers times zero
    cases h with
    | intro hg hx hy hfactor hdx hdy htilt hcurrent hid =>
      refine .intro hg ?_ ?_ hfactor hdx hdy htilt hcurrent hid
      · cases guess.x with
        | none => exact hx.scale hr 0
        | some x => exact .refl hr.refl x
      · cases guess.y with
        | none => exact hy.scale hr 0
        | some y => exact .refl hr.refl y
  · refine Update.alike_modify ?_
    cases h with
    | intro hg hx hy hfactor hdx hdy htilt hcurrent hid =>
      refine .intro hg hx ⟨Tuple.alike_ofFn hr.refl fun i => ?_, hy.row⟩ hfactor hdx hdy htilt hcurrent rfl
      exact alike_admissible hr _ _ (hy.bound i) _

theorem alike_auxiliaryLimits (hr : Congruence r) (p : Parameters K) (type : LimitType)
    (activity : Activity) {a b : K} (h : r a b) (lower upper : K) :
    r (auxiliaryLimits p type activity a lower upper).1 (auxiliaryLimits p type activity b lower upper).1 ∧
      r (auxiliaryLimits p type activity a lower upper).2
        (auxiliaryLimits p type activity b lower upper).2 := by
  -- a relaxed limit is related as well, and the others are constants
  have hbelow : r (if -p.infinity < lower then a - p.relaxation else -p.infinity)
      (if -p.infinity < lower then b - p.relaxation else -p.infinity) :=
    related_ite (hr.sub h (hr.refl _)) (hr.refl _)
  have habove : r (if upper < p.infinity then a + p.relaxation else p.infinity)
      (if upper < p.infinity then b + p.relaxation else p.infinity) :=
    related_ite (hr.add h (hr.refl _)) (hr.refl _)
  cases type with
  | equality => exact ⟨h, h⟩
  | unbounded => exact ⟨hr.refl _, hr.refl _⟩
  | unknown => exact ⟨hr.refl _, hr.refl _⟩
  | bounded =>
    cases activity with
    | lower => exact ⟨h, habove⟩
    | upper => exact ⟨hbelow, h⟩
    | inactive => exact ⟨hbelow, habove⟩
    | undefined => exact ⟨hbelow, habove⟩

/-- In the data of the auxiliary problem, only limits of rows are left from earlier solves. -/
theorem AlikePrepared.auxiliaryData (h : c.AlikePrepared r c') (hr : Congruence r) :
    Alike r (Residue r) (Residue r) (fun a b => a.gradient.Alike r b.gradient ∧
      a.lower.Alike r b.lower ∧ a.upper.Alike r b.upper) Eq c.auxiliaryData c'.auxiliaryData := by
  cases h with
  | intro hg hx hy hfactor hdx hdy htilt hcurrent hid =>
    refine .intro hg hx hy hfactor hdx hdy htilt ⟨?_, ?_, ?_⟩ hid
    · exact hy.bound.addScaled ((Grid.alike_combine hx hcurrent hr _ _).scale hr _) hr _
    · exact Tuple.alike_ofFn hr.refl fun i => (alike_auxiliaryLimits hr _ _ _ (hx i) _ _).1
    · exact Tuple.alike_ofFn hr.refl fun i => (alike_auxiliaryLimits hr _ _ _ (hx i) _ _).2

/-! ## Resets -/

/-- What has been loaded is the same. -/
structure SameProblem (c c' : Core K n m) : Prop where
  parameters : c'.parameters = c.parameters
  hessianType : c'.hessianType = c.hessianType
  hessian : c'.hessian = c.hessian
  target : c'.target = c.target

/-- The products with zero of what earlier solves have left are related. -/
structure RemainsAlike (r : K → K → Prop) (c c' : Core K n m) : Prop where
  x : c.x.Alike (Residue r) c'.x
  y : c.y.Alike (Residue r) c'.y
  dx : c.dx.Alike (Residue r) c'.dx
  dy : c.dy.Alike (Residue r) c'.dy
  tilt : c.tilt.Alike (Residue r) c'.tilt
  gradient : c.current.gradient.Alike (Residue r) c'.current.gradient
  factor : c.factor.entries.Alike (Residue r) c'.factor.entries

/-- After a reset, the remains are all that can be different. -/
theorem RemainsAlike.reset (h : c.RemainsAlike r c') (hproblem : c.SameProblem c') (hr : Congruence r)
    (hg : Guarded r c.parameters)
    (hcapacity : c'.bounds.partition.capacity = c.bounds.partition.capacity) :
    c.reset.AlikeAtStart r c'.reset := by
  have heq : c'.reset = { c.reset with
      x := c'.x.scale 0, y := c'.y.scale 0, dx := c'.dx, dy := c'.dy, tilt := c'.tilt,
      current := c'.current, factor := c'.factor.reset, identityHessian := c'.identityHessian } := by
    unfold Core.reset
    rw [EntitySet.reset_congr hcapacity, hproblem.parameters, hproblem.hessianType, hproblem.hessian,
      hproblem.target]
  rw [heq]
  exact .intro hg (h.x.cleared hr) (h.y.cleared hr) (.intro (h.factor.cleared hr)) h.dx h.dy h.tilt
    h.gradient trivial

end Core

end ActiveSet
