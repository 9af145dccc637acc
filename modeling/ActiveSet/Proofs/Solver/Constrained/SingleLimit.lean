import ActiveSet.Proofs.Solver.Constrained.KnownAim
import ActiveSet.Proofs.Solver.Guessing

/-!
# Problems with a single limit

If only one limit of a strictly convex problem is finite, a homotopy has little to do. Its working set holds
the entity with that limit or nothing, and to either belongs one point to which a step can be heading. If
something is wrong with the one, nothing is wrong with the other: form and row tell that the multiplier on
the limit and the way from it to the free minimum have the same sign. So a homotopy takes one step or two.

* `SingleLimit`, `Lone`: such a problem, and a homotopy on its way to it.
* `Minima`: the two points, with the calls that lead to them.
* `Coupled`, `Sharing`, `Capping`: an objective of two variables that are coupled, with a lower limit of their
  sum or with an upper limit of the first one, and sessions in which the limit enters the working set and
  leaves it again (`SharedSession`, `CappedSession`).
-/

namespace ActiveSet.Constrained

open Finset

variable {n m : ℕ} {s s' : Constrained ℝ n m} {z : ℕ → ℝ} {v : Entity n m → ℝ}
  {event : StepEvent n m} {e : Entity n m} {side : Activity}

-- ---------------------------------------------------------------------------
-- A single limit
-- ---------------------------------------------------------------------------

/-- A strictly convex problem with a feasible point, of which one limit only is finite: that of an entity
at a side. -/
structure SingleLimit (s : Constrained ℝ n m) (e : Entity n m) (side : Activity) : Prop where
  convex : s.StrictlyConvex
  side_eq : side = .lower ∨ side = .upper
  type_eq : s.loadedType e = .bounded
  lower_iff : ∀ a, -s.parameters.infinity < s.target.lowerOf a ↔ a = e ∧ side = .lower
  upper_iff : ∀ a, s.target.upperOf a < s.parameters.infinity ↔ a = e ∧ side = .upper
  feasible : ∃ x, s.Feasible x

/-- A homotopy is on its way to such a problem. The entity with the limit is on it, or nothing is in the
working set. -/
structure Lone (s : Constrained ℝ n m) (e : Entity n m) (side : Activity) : Prop
    extends s.Underway True where
  single : s.SingleLimit e side
  start : s.status.isStart = true
  others : ∀ a, a ≠ e → s.activity a = .inactive
  placed : s.activity e = .inactive ∨ s.activity e = side

theorem SingleLimit.congr (h : s.SingleLimit e side) (hdata : s.SameData s') :
    s'.SingleLimit e side := by
  refine ⟨h.convex.congr hdata, h.side_eq, ?_, fun a => ?_, fun a => ?_, ?_⟩
  · rw [hdata.loadedType_eq]
    exact h.type_eq
  · rw [hdata.target, hdata.parameters]
    exact h.lower_iff a
  · rw [hdata.target, hdata.parameters]
    exact h.upper_iff a
  · obtain ⟨x, hx⟩ := h.feasible
    exact ⟨x, (hdata.feasible_iff x).2 hx⟩

namespace Lone

/-- Nothing can be wrong but that the limit does not hold, or that it holds the entity back. -/
theorem objection_cases (h : s.Lone e side) (hobjection : s.Objection z v event) :
    event = .add e side ∧ s.activity e = .inactive ∧ s.Beyond side e (s.valueOf z e) ∨
      event = .remove e ∧ s.activity e = side ∧ Repels side (v e) := by
  cases hobjection with
  | @add e' side' hside hinactive hfinite hbeyond =>
    -- the only limit that counts is the one of `e`
    obtain ⟨-, hlower, hupper⟩ := h.typed trivial e'
    obtain ⟨rfl, rfl⟩ : e' = e ∧ side = side' := by
      rcases hside with rfl | rfl
      · exact (h.single.lower_iff e').1 (hlower.1 hfinite)
      · exact (h.single.upper_iff e').1 (hupper.1 hfinite)
    exact .inl ⟨rfl, hinactive, hbeyond⟩
  | @remove e' hactive htype hrepels =>
    -- and only `e` can be active
    have hne : s.activity e' ≠ .inactive := by
      rcases hactive with hside | hside <;> rw [hside] <;> exact nofun
    obtain rfl : e' = e := by
      by_contra hother
      exact hne (h.others e' hother)
    have hside := h.placed.resolve_left hne
    rw [hside] at hrepels
    exact .inr ⟨rfl, hside, hrepels⟩

/-- Where the limit does not hold, it can end a step. -/
theorem objection_of_beyond (h : s.Lone e side) (hfree : s.activity e = .inactive)
    (hbeyond : s.Beyond side e (s.valueOf z e)) : s.Objection z v (.add e side) := by
  obtain ⟨-, hlower, hupper⟩ := h.typed trivial e
  refine .add h.single.side_eq hfree ?_ hbeyond
  rcases h.single.side_eq with hside | hside
  · rw [hside]
    exact hlower.2 ((h.single.lower_iff e).2 ⟨rfl, hside⟩)
  · rw [hside]
    exact hupper.2 ((h.single.upper_iff e).2 ⟨rfl, hside⟩)

/-- Where the limit holds the entity back, it can end a step. -/
theorem objection_of_repels (h : s.Lone e side) (hheld : s.activity e = side)
    (hrepels : Repels side (v e)) : s.Objection z v (.remove e) := by
  refine .remove ?_ ?_ ?_
  · rw [hheld]
    exact h.single.side_eq
  · rw [(h.typed trivial e).1, show EntitySet.typeOfLimits _ _ _ _ = _ from h.single.type_eq]
    exact nofun
  · rw [hheld]
    exact hrepels

/-- What a step does with the working set. -/
theorem altered (h : s.Lone e side) (halters : event.Alters s.standing s'.standing)
    (hevent : event = .full ∨ event = .add e side ∨ event = .remove e) :
    (∀ a, a ≠ e → s'.activity a = .inactive) ∧ s'.activity e =
      if event = .full then s.activity e else if event = .add e side then side else .inactive := by
  have hbefore : s.standing.activity = s.activity := rfl
  have hafter : s'.standing.activity = s'.activity := rfl
  generalize s.standing = w at halters hbefore
  generalize s'.standing = w' at halters hafter
  rw [← hafter]
  cases halters with
  | full =>
    rw [hbefore]
    exact ⟨h.others, rfl⟩
  | @added _ _ e' side' he hside hactivity hcount =>
    obtain ⟨rfl, rfl⟩ : e' = e ∧ side' = side := by simpa using hevent
    rw [hbefore] at hactivity
    refine ⟨fun a ha => ?_, ?_⟩
    · rw [hactivity, if_neg ha]
      exact h.others a ha
    · rw [hactivity, if_pos rfl, if_neg nofun, if_pos rfl]
  | @exchanged _ _ e' leaver side' he hside hleaver hactivity hcount =>
    -- there is no other entity that could leave
    obtain ⟨rfl, rfl⟩ : e' = e ∧ side' = side := by simpa using hevent
    rw [hbefore] at he hleaver
    by_cases hne : leaver = e'
    · rw [hne, he] at hleaver
      cases hleaver
    · rw [h.others leaver hne] at hleaver
      cases hleaver
  | @removed _ _ e' he hactivity hcount =>
    obtain rfl : e' = e := by simpa using hevent
    rw [hbefore] at hactivity
    refine ⟨fun a ha => ?_, ?_⟩
    · rw [hactivity, if_neg ha]
      exact h.others a ha
    · rw [hactivity, if_pos rfl, if_neg nofun, if_neg nofun]

/-- The value moves to the inside where the multiplier is that of the side, and to the outside where it is
that of the other side. -/
theorem product_nonneg {z' : ℕ → ℝ} {v' : Entity n m → ℝ} (h : s.Lone e side) (h' : s'.Lone e side)
    (hdata : s.SameData s') (haims : s.Aims z v) (haims' : s'.Aims z' v') :
    0 ≤ (v' e - v e) * (s.valueOf z' e - s.valueOf z e) := by
  have hbalanced' := haims'.balanced
  rw [hdata.hessian, hdata.target, hdata.row_eq] at hbalanced'
  have hform := h.single.convex.semidefinite fun j => z' j - z j
  rw [form_sub_of_balanced haims.balanced hbalanced', sum_eq_single e] at hform
  · exact hform
  · intro a _ hne
    have hzero : v a = 0 := haims.inactive a (congrArg Activity.isActive (h.others a hne))
    have hzero' : v' a = 0 := haims'.inactive a (congrArg Activity.isActive (h'.others a hne))
    rw [hzero, hzero', sub_self, zero_mul]
  · exact fun hnot => absurd (mem_univ e) hnot

theorem ne_inactive (h : s.Lone e side) : side ≠ .inactive := by
  rcases h.single.side_eq with hside | hside <;> rw [hside] <;> exact nofun

theorem isActive_side (h : s.Lone e side) : side.isActive = true := by
  rcases h.single.side_eq with hside | hside <;> rw [hside] <;> rfl

/-- After an event nothing is wrong any more. -/
theorem clear_of_turned {z' : ℕ → ℝ} {v' : Entity n m → ℝ} {event' : StepEvent n m}
    (h : s.Lone e side) (h' : s'.Lone e side) (hdata : s.SameData s') (haims : s.Aims z v)
    (haims' : s'.Aims z' v') (hobjection : s.Objection z v event)
    (hactivity : s'.activity e = if event = .full then s.activity e
      else if event = .add e side then side else .inactive) : ¬s'.Objection z' v' event' := by
  intro hobjection'
  have hproduct := h.product_nonneg h' hdata haims haims'
  have hne := h.ne_inactive
  rcases h.objection_cases hobjection with ⟨rfl, hfree, hbeyond⟩ | ⟨rfl, hheld, hrepels⟩
  · -- the entity has entered, so its value is that of the limit
    rw [if_neg nofun, if_pos rfl] at hactivity
    rcases h'.objection_cases hobjection' with ⟨-, hinactive, -⟩ | ⟨-, -, hrepels⟩
    · exact hne (hactivity.symm.trans hinactive)
    have hlimit := haims'.on_limit e ((congrArg Activity.isActive hactivity).trans h.isActive_side)
    rw [hdata.valueOf_eq, hdata.target, hactivity] at hlimit
    rw [haims.inactive e (congrArg Activity.isActive hfree), sub_zero, hlimit] at hproduct
    rcases h.single.side_eq with rfl | rfl
    · exact absurd hproduct (not_le.2 (mul_neg_of_neg_of_pos hrepels (sub_pos.2 hbeyond)))
    · exact absurd hproduct (not_le.2 (mul_neg_of_pos_of_neg hrepels (sub_neg.2 hbeyond)))
  · -- the entity has left, so its multiplier is zero
    rw [if_neg nofun, if_neg nofun] at hactivity
    rcases h'.objection_cases hobjection' with ⟨-, -, hbeyond⟩ | ⟨-, hheld', -⟩
    swap
    · exact hne (hheld'.symm.trans hactivity)
    have hlimit := haims.on_limit e ((congrArg Activity.isActive hheld).trans h.isActive_side)
    rw [hheld] at hlimit
    unfold Beyond at hbeyond
    rw [hdata.valueOf_eq, hdata.target] at hbeyond
    rw [haims'.inactive e (congrArg Activity.isActive hactivity), zero_sub, hlimit] at hproduct
    rcases h.single.side_eq with rfl | rfl
    · exact absurd hproduct
        (not_le.2 (mul_neg_of_pos_of_neg (neg_pos.2 hrepels) (sub_neg.2 hbeyond)))
    · exact absurd hproduct
        (not_le.2 (mul_neg_of_neg_of_pos (neg_neg_of_pos hrepels) (sub_pos.2 hbeyond)))

/-- A step leads to such a state again. -/
theorem step_goes (h : s.Lone e side) (index : ℕ) :
    ((method : Method ℝ n m (Constrained ℝ n m)).step index).Ensures s
      (fun it s' => s'.Lone e side ∧ s.SameData s' ∧
        (s'.activity e = if it.event = .full then s.activity e
          else if it.event = .add e side then side else .inactive) ∧
        ∃ z v, s.Aims z v ∧ s.Goes z v it s') fun _ _ => False := by
  refine (Constrained.step_goes h.toUnderway h.start h.single.convex h.single.feasible index).mono ?_
    fun _ _ hfalse => hfalse
  rintro it s' ⟨hs', hdata, halters, z, v, haims, hgoes⟩
  have hevent : it.event = .full ∨ it.event = .add e side ∨ it.event = .remove e := by
    cases hgoes with
    | arrives hclear hevent => exact .inl hevent
    | turns hobjection =>
      exact .inr ((h.objection_cases hobjection).imp (fun hadd => hadd.1) fun hremove => hremove.1)
  obtain ⟨hothers, hactivity⟩ := h.altered halters hevent
  refine ⟨⟨hs', h.single.congr hdata, ?_, hothers, ?_⟩, hdata, hactivity, z, v, haims, hgoes⟩
  · cases hgoes with
    | arrives _ _ hstatus =>
      rw [hstatus]
      rfl
    | turns _ _ hstatus =>
      rw [hstatus]
      rfl
  · rw [hactivity]
    split
    · exact h.placed
    · split
      · exact .inr rfl
      · exact .inl rfl

/-- Only one thing can be wrong at a time. -/
theorem objection_unique {event' : StepEvent n m} (h : s.Lone e side)
    (hobjection : s.Objection z v event) (hobjection' : s.Objection z v event') : event' = event := by
  have hne := h.ne_inactive
  rcases h.objection_cases hobjection with ⟨rfl, hfree, -⟩ | ⟨rfl, hheld, -⟩
  · rcases h.objection_cases hobjection' with ⟨rfl, -, -⟩ | ⟨-, hheld, -⟩
    · rfl
    · exact absurd (hheld.symm.trans hfree) hne
  · rcases h.objection_cases hobjection' with ⟨-, hfree, -⟩ | ⟨rfl, -, -⟩
    · exact absurd (hheld.symm.trans hfree) hne
    · rfl

/-- The end of a homotopy: the loaded problem is solved. -/
structure Ends (s : Constrained ℝ n m) (e : Entity n m) (side : Activity) (s' : Constrained ℝ n m) :
    Prop extends s'.Lone e side where
  sameData : s.SameData s'
  status : s'.status = .solved
  current : s'.current = s'.target

theorem Ends.of_sameData {s1 : Constrained ℝ n m} (h : Ends s1 e side s') (hdata : s.SameData s1) :
    Ends s e side s' :=
  ⟨h.toLone, hdata.trans h.sameData, h.status, h.current⟩

/-- If nothing is wrong with the aim, one step leads there. -/
theorem comes_of_clear (h : s.Lone e side) (haims : s.Aims z v)
    (hclear : ∀ event, ¬s.Objection z v event) (index : ℕ) :
    ∃ s', method.ComesBy index s [.full] s' ∧ Ends s e side s' ∧ s'.activity e = s.activity e := by
  obtain ⟨it, s', hrun, hs', hdata, hactivity, z', v', haims', hgoes⟩ :=
    (h.step_goes index).exists_ok
  obtain ⟨hz, hv⟩ := haims'.unique haims h.toReady h.single.convex.semidefinite
  cases hgoes with
  | arrives _ hevent hstatus hcurrent =>
    rw [if_pos hevent] at hactivity
    exact ⟨s', .arrives hrun hevent, ⟨hs', hdata, hstatus, hcurrent⟩, hactivity⟩
  | turns hobjection => exact absurd (hobjection.of_eq hz hv) (hclear _)

/-- If something is wrong with the aim, the working set follows this event, and the next step leads to the
loaded problem. -/
theorem comes_of_objection (h : s.Lone e side) (haims : s.Aims z v)
    (hobjection : s.Objection z v event) (index : ℕ) :
    ∃ s', method.ComesBy index s [event, .full] s' ∧ Ends s e side s' ∧
      s'.activity e = if event = .add e side then side else .inactive := by
  obtain ⟨it, s1, hrun, hs1, hdata, hactivity, z', v', haims', hgoes⟩ := (h.step_goes index).exists_ok
  obtain ⟨hz, hv⟩ := haims.unique haims' h.toReady h.single.convex.semidefinite
  have hobjection' : s.Objection z' v' event := hobjection.of_eq hz hv
  cases hgoes with
  | arrives hclear => exact absurd hobjection' (hclear _)
  | turns hturn hevent =>
    -- after the one change nothing objects any more, so the next step arrives
    obtain rfl := h.objection_unique hobjection' hturn
    obtain ⟨it', s', hrun', hs', hdata', hactivity', z1, v1, haims1, hgoes'⟩ :=
      (hs1.step_goes (index + 1)).exists_ok
    cases hgoes' with
    | turns hobjection1 =>
      exact absurd hobjection1 (h.clear_of_turned hs1 hdata haims' haims1 hturn hactivity)
    | arrives _ hevent' hstatus hcurrent =>
      rw [if_neg hevent] at hactivity
      rw [if_pos hevent', hactivity] at hactivity'
      exact ⟨s', .passes hrun hevent (.arrives hrun' hevent'),
        ⟨hs', hdata.trans hdata', hstatus, hcurrent⟩, hactivity'⟩

end Lone

-- ---------------------------------------------------------------------------
-- Calls
-- ---------------------------------------------------------------------------

theorem SingleLimit.loadedType_of_ne (h : s.SingleLimit e side) {a : Entity n m} (ha : a ≠ e) :
    s.loadedType a = .unbounded :=
  if_pos ⟨not_lt.1 fun hlower => ha ((h.lower_iff a).1 hlower).1,
    not_lt.1 fun hupper => ha ((h.upper_iff a).1 hupper).1⟩

theorem SingleLimit.loadedType_ne (h : s.SingleLimit e side) (a : Entity n m) :
    s.loadedType a ≠ .equality := by
  by_cases ha : a = e
  · rw [ha, h.type_eq]
    exact nofun
  · rw [h.loadedType_of_ne ha]
    exact nofun

theorem SingleLimit.equalLimits (h : s.SingleLimit e side) : s.EqualLimits :=
  fun a htype => absurd htype (h.loadedType_ne a)

theorem SingleLimit.ordered (h : s.SingleLimit e side) (a : Entity n m) :
    s.target.lowerOf a ≤ s.target.upperOf a := by
  obtain ⟨x, hx⟩ := h.feasible
  exact (hx a).1.trans (hx a).2

theorem Lone.withVerdict (h : s.Lone e side) (infeasible unbounded : Bool) :
    Lone { s with infeasible, unbounded } e side :=
  ⟨h.toUnderway.withVerdict _ _ _, h.single.congr ⟨rfl, rfl, rfl, rfl, rfl⟩, h.start, h.others, h.placed⟩

/-- Without a guess the homotopy starts with nothing in the working set. -/
theorem SingleLimit.starts (h : s.SingleLimit e side) (hs : s.InOrder) (hdeclared : s.Declared)
    (hdefinite : s.hessianType ≠ .semidefinite) (hrelaxation : 0 ≤ s.parameters.relaxation) {τ : Type}
    (obs : Observer ℝ n m τ) (view : τ) (budget : ℕ) :
    ∃ start, (Constrained.interface ℝ n m).StartsBy s (.solve obs view budget none none) start ∧
      Lone (method.clearVerdict start) e side ∧ start.activity e = .inactive ∧ s.SameData start := by
  -- a cold start wants only equalities, of which there are none
  have hnot : ∀ a, ¬s.startingSet ⟨none, none⟩ m a := fun a hmem =>
    not_wanted_cold hdefinite (h.loadedType_ne a) (wanted_of_startingSet hmem)
  have hunobstructed : ¬s.Obstructed ⟨none, none⟩ := fun ⟨i, htype, _⟩ => h.loadedType_ne _ htype
  obtain ⟨start, hprepare, hsetup, hinStep, hstatus, hstarts⟩ :=
    prepare_of_strictlyConvex hs hdeclared h.convex h.ordered hunobstructed
  have hdata := s.sameData_reset.trans hsetup.sameData
  have hexact : s.Exact := ⟨h.convex.epsZero_eq, h.convex.epsDependent_eq,
    h.convex.epsDefinite_eq.ge, hrelaxation⟩
  have hunderway : start.Underway True := hsetup.underway hdeclared.reset
    ⟨hexact.epsZero_eq, hexact.epsDependent_eq, hexact.epsDefinite_nonneg, hexact.relaxation_nonneg⟩
    (fun _ a htype => absurd htype (h.loadedType_ne a)) hinStep
  have hinactive := fun a => hstarts.inactive a (hnot a)
  have hlone : start.Lone e side := ⟨hunderway, h.congr hdata, by rw [hstatus]; rfl,
    fun a _ => hinactive a, .inl (hinactive e)⟩
  exact ⟨start, .prepared rfl hprepare, hlone.withVerdict false false, hinactive e, hdata⟩

/-- Another problem with the same limit has been loaded since the last solve. -/
theorem Lone.reload (h : s.Lone e side) (target : Data ℝ n m)
    (hsingle : SingleLimit { s with target } e side) : Lone { s with target } e side := by
  have hmoving : Moving { s with target } :=
    ⟨h.toReady.congr rfl rfl rfl rfl rfl rfl rfl rfl, h.tolerant.congr rfl⟩
  have htype : ∀ a, s.limitType a = s.loadedType a := fun a => (h.typed trivial a).1
  refine ⟨⟨hmoving, h.optimal.congr rfl rfl rfl rfl rfl rfl rfl rfl, hsingle.ordered,
    fun _ a hequality => ?_, fun _ a => ⟨?_, ?_, ?_⟩, h.epsZero_eq, h.epsDependent_eq⟩, hsingle,
    h.start, h.others, h.placed⟩
  · exact absurd ((htype a).symm.trans hequality) (h.single.loadedType_ne a)
  · refine (htype a).trans (Eq.trans ?_ (show loadedType { s with target } a = _ from rfl))
    by_cases ha : a = e
    · rw [ha, h.single.type_eq, hsingle.type_eq]
    · rw [h.single.loadedType_of_ne ha, hsingle.loadedType_of_ne ha]
  · exact (h.typed trivial a).2.1.trans ((h.single.lower_iff a).trans (hsingle.lower_iff a).symm)
  · exact (h.typed trivial a).2.2.trans ((h.single.upper_iff a).trans (hsingle.upper_iff a).symm)

/-- The aim of a homotopy with nothing in the working set. -/
theorem Lone.aims_of_free (h : s.Lone e side) (hfree : s.activity e = .inactive)
    (hz : ∀ j, j < n → ∑ k ∈ range n, s.hessian j k * z k + s.target.gradient j = 0) :
    s.Aims z fun _ => 0 := by
  have hinactive : ∀ a, s.isActive a = false := by
    intro a
    by_cases ha : a = e
    · rw [ha, isActive, hfree]
      rfl
    · rw [isActive, h.others a ha]
      rfl
  refine ⟨fun a ha => ?_, fun j hj => ?_, fun _ _ => rfl⟩
  · rw [hinactive] at ha
    cases ha
  · rw [hz j hj, sum_eq_zero fun a _ => zero_mul _]

/-- The aim of a homotopy that holds the entity on its limit. -/
theorem Lone.aims_of_held {r : ℝ} (h : s.Lone e side) (hheld : s.activity e = side)
    (hlimit : s.valueOf z e = s.target.limitOf side e)
    (hz : ∀ j, j < n → ∑ k ∈ range n, s.hessian j k * z k + s.target.gradient j = r * s.row e j) :
    s.Aims z fun a => if a = e then r else 0 := by
  refine ⟨fun a ha => ?_, fun j hj => ?_, fun a ha => if_neg ?_⟩
  · have hae : a = e := by
      by_contra hne
      rw [isActive, h.others a hne] at ha
      cases ha
    rw [hae, hheld]
    exact hlimit
  · rw [hz j hj, sum_eq_single e, if_pos rfl]
    · intro a _ hne
      rw [if_neg hne, zero_mul]
    · exact fun hnot => absurd (mem_univ e) hnot
  · rintro rfl
    rw [isActive, hheld, h.isActive_side] at ha
    cases ha

/-- Point and multipliers at the end of a homotopy are those of its last aim. -/
theorem Lone.Ends.eq_of_aims (h : Lone.Ends s e side s') (haims : s'.Aims z v) :
    (∀ j, j < n → s'.x j = z j) ∧ s'.y.get = v :=
  haims.unique (h.optimal.aims h.current) h.toReady h.single.convex.semidefinite

/-- The minimum without the limit, and the minimum on the limit with the multiplier that it has there. -/
structure Minima (s : Constrained ℝ n m) (e : Entity n m) (side : Activity) (z w : ℕ → ℝ) (r : ℝ) :
    Prop extends s.SingleLimit e side where
  free : ∀ j, j < n → ∑ k ∈ range n, s.hessian j k * z k + s.target.gradient j = 0
  held : ∀ j, j < n → ∑ k ∈ range n, s.hessian j k * w k + s.target.gradient j = r * s.row e j
  on_limit : s.valueOf w e = s.target.limitOf side e

namespace Minima

variable {w : ℕ → ℝ} {r : ℝ} {budget : ℕ}

theorem congr (h : s.Minima e side z w r) (hdata : s.SameData s') : s'.Minima e side z w r := by
  refine ⟨h.toSingleLimit.congr hdata, ?_, ?_, ?_⟩
  · rw [hdata.hessian, hdata.target]
    exact h.free
  · rw [hdata.hessian, hdata.target, hdata.row_eq]
    exact h.held
  · rw [hdata.valueOf_eq, hdata.target]
    exact h.on_limit

/-- A homotopy that ends with the entity on its limit has come to the minimum there. -/
theorem ends_held (h : s.Minima e side z w r) (hends : Lone.Ends s e side s')
    (hheld : s'.activity e = side) : (∀ j, j < n → s'.x j = w j) ∧ s'.y.get e = r := by
  have h' := h.congr hends.sameData
  obtain ⟨hx, hy⟩ := hends.eq_of_aims (hends.aims_of_held hheld h'.on_limit h'.held)
  exact ⟨hx, (congrFun hy e).trans (if_pos rfl)⟩

/-- A solve from scratch takes two steps if the minimum without the limit is beyond it: the entity enters,
and the loaded problem is reached. -/
theorem solve_enters (h : s.Minima e side z w r) (hs : s.InOrder) (hdeclared : s.Declared)
    (hdefinite : s.hessianType ≠ .semidefinite) (hrelaxation : 0 ≤ s.parameters.relaxation)
    (hbeyond : s.Beyond side e (s.valueOf z e)) (hbudget : 2 ≤ budget) :
    ∃ s', (Constrained.interface ℝ n m).call (.solve Observer.silent () budget none none) s =
        (.ok 2, s') ∧
      ((Constrained.interface ℝ n m).records (.solve Observer.silent () budget none none) s).map
        (·.event) = [.add e side, .full] ∧ Lone.Ends s e side s' ∧ s'.activity e = side := by
  obtain ⟨start, hstarts, hlone, hfree, hdata⟩ :=
    h.starts hs hdeclared hdefinite hrelaxation Observer.silent () budget
  have hdata' : s.SameData (method.clearVerdict start) := hdata.trans ⟨rfl, rfl, rfl, rfl, rfl⟩
  -- the solution without limits is beyond the one limit, so the limit enters
  have haims := hlone.aims_of_free hfree (h.congr hdata').free
  have hbeyond' : Beyond (method.clearVerdict start) side e
      ((method.clearVerdict start).valueOf z e) := by
    unfold Beyond
    rw [hdata'.valueOf_eq, hdata'.target]
    exact hbeyond
  obtain ⟨s', hcomes, hends, hactivity⟩ :=
    hlone.comes_of_objection haims (hlone.objection_of_beyond hfree hbeyond') 0
  obtain ⟨hcall, hrecords⟩ := hstarts.call_of_comesBy (fun _ _ => rfl) (by exact hbudget) hcomes
  rw [if_pos rfl] at hactivity
  exact ⟨s', hcall, hrecords, hends.of_sameData hdata', hactivity⟩

section Resume

variable (h : s.Minima e side z w r) (hlone : s.Lone e side) (hheld : s.activity e = side)
include h hlone hheld

/-- A solve that does not start from scratch takes one step if the multiplier keeps its sign. -/
theorem resume_stays (hkeeps : ¬Repels side r) (hbudget : 1 ≤ budget) :
    ∃ s', (Constrained.interface ℝ n m).call (.resume Observer.silent () budget) s = (.ok 1, s') ∧
      Lone.Ends s e side s' ∧ s'.activity e = side := by
  have hlone' := hlone.withVerdict false false
  have haims := hlone'.aims_of_held hheld h.on_limit h.held
  obtain ⟨s', hcomes, hends, hactivity⟩ := hlone'.comes_of_clear haims (fun event hobjection => by
    rcases hlone'.objection_cases hobjection with ⟨-, hfree, -⟩ | ⟨-, -, hrepels⟩
    · exact hlone.ne_inactive (hheld.symm.trans hfree)
    · rw [if_pos rfl] at hrepels
      exact hkeeps hrepels) 0
  have hstarts : (Constrained.interface ℝ n m).StartsBy s (.resume Observer.silent () budget) s :=
    .resumed hlone.start (checkLimits_of_ordered h.ordered)
  obtain ⟨hcall, -⟩ := hstarts.call_of_comesBy (fun _ _ => rfl) (by exact hbudget) hcomes
  exact ⟨s', hcall, hends.of_sameData ⟨rfl, rfl, rfl, rfl, rfl⟩, hactivity.trans hheld⟩

/-- It takes two steps if the multiplier loses its sign: the entity leaves, and the loaded problem is
reached. -/
theorem resume_leaves (hloses : Repels side r) (hbudget : 2 ≤ budget) :
    ∃ s', (Constrained.interface ℝ n m).call (.resume Observer.silent () budget) s = (.ok 2, s') ∧
      ((Constrained.interface ℝ n m).records (.resume Observer.silent () budget) s).map (·.event) =
        [.remove e, .full] ∧ Lone.Ends s e side s' ∧ s'.activity e = .inactive := by
  have hlone' := hlone.withVerdict false false
  have haims := hlone'.aims_of_held hheld h.on_limit h.held
  obtain ⟨s', hcomes, hends, hactivity⟩ := hlone'.comes_of_objection haims
    (hlone'.objection_of_repels hheld (by rw [if_pos rfl]; exact hloses)) 0
  have hstarts : (Constrained.interface ℝ n m).StartsBy s (.resume Observer.silent () budget) s :=
    .resumed hlone.start (checkLimits_of_ordered h.ordered)
  obtain ⟨hcall, hrecords⟩ := hstarts.call_of_comesBy (fun _ _ => rfl) (by exact hbudget) hcomes
  rw [if_neg nofun] at hactivity
  exact ⟨s', hcall, hrecords, hends.of_sameData ⟨rfl, rfl, rfl, rfl, rfl⟩, hactivity⟩

end Resume

end Minima

-- ---------------------------------------------------------------------------
-- Instances
-- ---------------------------------------------------------------------------

section Instances

variable {s s' : Constrained ℝ 2 m} {r g u : ℝ}

/-- The objective is half the sum of the squares of two variables and of their sum, plus a linear term. -/
structure Coupled (s : Constrained ℝ 2 m) : Prop where
  parameters : s.parameters = exactParameters
  type_eq : s.hessianType = .definite
  symmetric : s.SymmetricHessian
  hessian : ∀ j k, j < 2 → k < 2 → s.hessian j k = if j = k then 2 else 1

namespace Coupled

theorem sum_mul (h : s.Coupled) (x : ℕ → ℝ) {j : ℕ} (hj : j < 2) :
    ∑ k ∈ range 2, s.hessian j k * x k = x j + (x 0 + x 1) := by
  rw [sum_range_succ, sum_range_one, h.hessian j 0 hj Nat.zero_lt_two,
    h.hessian j 1 hj Nat.one_lt_two]
  obtain rfl | rfl : j = 0 ∨ j = 1 := by omega
  · norm_num
    ring
  · norm_num
    ring

theorem strictlyConvex (h : s.Coupled) : s.StrictlyConvex := by
  refine ⟨fun w hw => ?_, ?_, ?_, ?_⟩
  · have hform : form 2 s.hessian w = w 0 * w 0 + w 1 * w 1 + (w 0 + w 1) * (w 0 + w 1) := by
      rw [form, sum_range_succ, sum_range_one, h.sum_mul w Nat.zero_lt_two,
        h.sum_mul w Nat.one_lt_two]
      ring
    rw [hform]
    obtain ⟨i, hi, hne⟩ := hw
    have hsum := mul_self_nonneg (w 0 + w 1)
    obtain rfl | rfl : i = 0 ∨ i = 1 := by omega
    · linarith [mul_self_pos.2 hne, mul_self_nonneg (w 1)]
    · linarith [mul_self_pos.2 hne, mul_self_nonneg (w 0)]
  · rw [h.parameters]
    rfl
  · rw [h.parameters]
    rfl
  · rw [h.parameters]
    rfl

theorem declared (h : s.Coupled) : s.Declared :=
  ⟨h.symmetric, fun htype => by rw [h.type_eq] at htype; cases htype⟩

theorem definite (h : s.Coupled) : s.hessianType ≠ .semidefinite := by
  rw [h.type_eq]
  exact nofun

theorem relaxation_nonneg (h : s.Coupled) : 0 ≤ s.parameters.relaxation := by
  rw [h.parameters, relaxation_exactParameters]
  norm_num

theorem infinity (h : s.Coupled) : s.parameters.infinity = 10 ^ 20 := by
  rw [h.parameters]
  exact infinity_exactParameters

theorem clamp_eq (h : s.Coupled) {a : ℝ} (hsmall : |a| ≤ 100) :
    Core.clamp s.parameters.infinity a = a := by
  rw [h.parameters]
  exact clamp_exactParameters hsmall

theorem exact (h : s.Coupled) : s.Exact :=
  ⟨h.strictlyConvex.epsZero_eq, h.strictlyConvex.epsDependent_eq, h.strictlyConvex.epsDefinite_eq.ge,
    h.relaxation_nonneg⟩

/-- A small limit at one side makes an inequality. -/
theorem loadedType_eq (h : s.Coupled) {e : Entity 2 m} {a : ℝ} (hsmall : |a| ≤ 100)
    (hlimits : s.target.lowerOf e = a ∧ s.target.upperOf e = 10 ^ 20 ∨
      s.target.lowerOf e = -10 ^ 20 ∧ s.target.upperOf e = a) : s.loadedType e = .bounded := by
  obtain ⟨hge, hle⟩ := abs_le.1 hsmall
  rw [loadedType, h.infinity, h.parameters, epsBound_exactParameters]
  unfold EntitySet.typeOfLimits
  rcases hlimits with ⟨hlower, hupper⟩ | ⟨hlower, hupper⟩
  · rw [hlower, hupper, if_neg fun hnot => absurd (hge.trans hnot.1) (by norm_num), if_neg]
    refine not_lt.2 (le_trans ?_ (sub_le_sub_left hle _))
    norm_num
  · rw [hlower, hupper, if_neg fun hnot => absurd (hnot.2.trans hle) (by norm_num), if_neg]
    refine not_lt.2 (le_trans ?_ (sub_le_sub_right hge _))
    norm_num

variable {e : Entity 2 m} {side : Activity} {τ : Type} {obs : Observer ℝ 2 m τ} {view : τ} {budget : ℕ}

theorem admits_solve (h : s.Coupled) (hsingle : s.SingleLimit e side) :
    optimalCalls (.solve obs view budget none none) s :=
  ⟨h.declared, h.exact, hsingle.equalLimits⟩

theorem admits_resume (h : s.Coupled) (hlone : s.Lone e side) :
    optimalCalls (.resume obs view budget) s :=
  fun _ => ⟨h.exact, hlone.single.equalLimits, hlone.typed trivial⟩

end Coupled

/-- The entries of the matrix: half the squares of both variables and of their sum. -/
noncomputable def coupling : Array ℝ := #[1 + 1, 1, 1, 1 + 1]

theorem coupled_of_entries (hparameters : s.parameters = exactParameters)
    (htype : s.hessianType = .definite)
    (hH : s.hessian = Grid.ofFn 2 2 fun i j => coupling.getD (i * 2 + j) 0) : s.Coupled := by
  have hentry : ∀ j k, j < 2 → k < 2 → s.hessian j k = if j = k then 2 else 1 := by
    intro j k hj hk
    rw [hH, Grid.ofFn_apply hj hk]
    obtain rfl | rfl : j = 0 ∨ j = 1 := by omega
    · obtain rfl | rfl : k = 0 ∨ k = 1 := by omega
      · exact one_add_one_eq_two
      · rfl
    · obtain rfl | rfl : k = 0 ∨ k = 1 := by omega
      · rfl
      · exact one_add_one_eq_two
  refine ⟨hparameters, htype, fun j k => ?_, hentry⟩
  by_cases hj : j < 2
  · by_cases hk : k < 2
    · rw [hentry j k hj hk, hentry k j hk hj]
      simp only [eq_comm]
    · rw [Grid.apply_of_column_le _ (not_lt.1 hk), Grid.apply_of_row_le _ (not_lt.1 hk)]
  · rw [Grid.apply_of_column_le _ (not_lt.1 hj), Grid.apply_of_row_le _ (not_lt.1 hj)]

/-- There is a row, which is that of the sum, and no limit but a lower one of the sum. -/
structure Summing (s : Constrained ℝ 2 1) : Prop extends s.Coupled where
  gradient : ∀ j, j < 2 → s.target.gradient j = 0
  row : ∀ j, j < 2 → s.row (.constraint 0) j = 1
  lower_bound : ∀ i, s.target.lowerOf (.bound i) = -10 ^ 20
  upper : ∀ e, s.target.upperOf e = 10 ^ 20

/-- The lower limit of the sum is finite. -/
structure Sharing (r : ℝ) (s : Constrained ℝ 2 1) : Prop extends s.Summing where
  small : |r| ≤ 100
  lower : s.target.lowerOf (.constraint 0) = r

/-- A lower limit of the sum is loaded. -/
noncomputable def setShare (s : Constrained ℝ 2 1) (r : ℝ) : Constrained ℝ 2 1 :=
  ((Constrained.interface ℝ 2 1).call (.load (.rowLower #[r])) s).2

theorem setShare_eq (s : Constrained ℝ 2 1) (r : ℝ) : s.setShare r = { s with target := { s.target with
    rowLower := Tuple.ofFn 1 fun i => Core.clamp s.parameters.infinity (#[r].getD i 0) } } := rfl

theorem reachable_setShare {s : Constrained ℝ 2 1}
    {admits : Call ℝ 2 1 (Loading ℝ) → Constrained ℝ 2 1 → Prop} (h : ∀ d s, admits (.load d) s)
    (hs : (Constrained.interface ℝ 2 1).Reachable admits s) (r : ℝ) :
    (Constrained.interface ℝ 2 1).Reachable admits (s.setShare r) := .call _ hs (h _ _)

theorem Summing.setShare {s : Constrained ℝ 2 1} (h : s.Summing) (hsmall : |r| ≤ 100) :
    Sharing r (s.setShare r) :=
  ⟨⟨⟨h.parameters, h.type_eq, h.symmetric, h.hessian⟩, h.gradient, h.row, h.lower_bound, h.upper⟩,
    hsmall, (Tuple.ofFn_apply Nat.zero_lt_one).trans (h.clamp_eq hsmall)⟩

namespace Sharing

variable {s s' : Constrained ℝ 2 1}

theorem valueOf_constraint (h : s.Sharing r) (x : ℕ → ℝ) :
    s.valueOf x (.constraint 0) = x 0 + x 1 := by
  rw [valueOf, sum_range_succ, sum_range_one, h.row 0 Nat.zero_lt_two, h.row 1 Nat.one_lt_two,
    one_mul, one_mul]

theorem single (h : s.Sharing r) : s.SingleLimit (.constraint 0) .lower := by
  obtain ⟨hge, hle⟩ := abs_le.1 h.small
  refine ⟨h.strictlyConvex, .inl rfl, h.loadedType_eq h.small (.inl ⟨h.lower, h.upper _⟩), fun e => ?_,
    fun e => ?_, fun j => r / 2, fun e => ?_⟩
  · rw [h.infinity]
    cases e with
    | bound i =>
      rw [h.lower_bound]
      exact iff_of_false (lt_irrefl _) nofun
    | constraint i =>
      rw [Subsingleton.elim i 0, h.lower]
      exact iff_of_true (lt_of_lt_of_le (by norm_num) hge) ⟨rfl, rfl⟩
  · rw [h.infinity, h.upper]
    exact iff_of_false (lt_irrefl _) fun hnot => nomatch hnot.2
  · rw [h.upper]
    cases e with
    | bound i =>
      rw [h.lower_bound, valueOf_bound]
      constructor <;> linarith
    | constraint i =>
      rw [Subsingleton.elim i 0, h.lower, h.valueOf_constraint]
      constructor <;> linarith

theorem congr (h : s.Sharing r) (hdata : s.SameData s') : s'.Sharing r := by
  refine ⟨⟨⟨hdata.parameters.trans h.parameters, hdata.hessianType.trans h.type_eq,
    h.symmetric.congr hdata.hessian, ?_⟩, ?_, ?_, ?_, ?_⟩, h.small, ?_⟩
  · rw [hdata.hessian]
    exact h.hessian
  · rw [hdata.target]
    exact h.gradient
  · rw [hdata.row_eq]
    exact h.row
  · rw [hdata.target]
    exact h.lower_bound
  · rw [hdata.target]
    exact h.upper
  · rw [hdata.target]
    exact h.lower

/-- Without the limit the minimum is at zero, and with it the two variables share the limit. -/
theorem minima (h : s.Sharing r) :
    s.Minima (.constraint 0) .lower (fun _ => 0) (fun _ => r / 2) (3 * r / 2) := by
  have hstationary : ∀ a j, j < 2 → ∑ k ∈ range 2, s.hessian j k * a + s.target.gradient j =
      3 * a * s.row (.constraint 0) j := fun a j hj => by
    rw [h.sum_mul (fun _ => a) hj, h.gradient j hj, h.row j hj]
    ring
  refine ⟨h.single, fun j hj => ?_, fun j hj => ?_, ?_⟩
  · rw [hstationary 0 j hj, mul_zero, zero_mul]
  · rw [hstationary (r / 2) j hj]
    ring
  · rw [h.valueOf_constraint, show s.target.limitOf .lower (.constraint 0) = r from h.lower]
    ring

/-- If the limit is positive, a solve from scratch adds the row to the working set. -/
theorem solve (h : s.Sharing r) (hs : s.InOrder) (hr : 0 < r) :
    ∃ s', (Constrained.interface ℝ 2 1).call (.solve Observer.silent () 2 none none) s =
        (.ok 2, s') ∧
      ((Constrained.interface ℝ 2 1).records (.solve Observer.silent () 2 none none) s).map
        (·.event) = [.add (.constraint 0) .lower, .full] ∧
        Lone.Ends s (.constraint 0) .lower s' ∧ s'.activity (.constraint 0) = .lower := by
  refine h.minima.solve_enters hs h.declared h.definite h.relaxation_nonneg ?_ le_rfl
  show s.valueOf _ _ < s.target.lowerOf (.constraint 0)
  rw [h.valueOf_constraint, h.lower, add_zero]
  exact hr

/-- The homotopy to a problem with another limit starts where the last one has ended. -/
theorem lone_setShare {a : ℝ} (h : s.Sharing r) (hlone : s.Lone (.constraint 0) .lower) (hsmall : |a| ≤ 100) :
    (s.setShare a).Lone (.constraint 0) .lower :=
  hlone.reload _ (h.toSumming.setShare hsmall).single

end Sharing

/-- A solver with the objective and the row of the sum, which has no limit yet. -/
noncomputable def unshared : Constrained ℝ 2 1 :=
  [Call.load (.core (.parameters exactParameters)), .load (.core (.hessian coupling)),
    .load (.matrix #[1, 1])].foldl (fun s c => ((Constrained.interface ℝ 2 1).call c s).2) (fresh 2 1)

/-- A solver with a lower limit of the sum as well. -/
noncomputable def shared (r : ℝ) : Constrained ℝ 2 1 := unshared.setShare r

theorem reachable_shared {admits : Call ℝ 2 1 (Loading ℝ) → Constrained ℝ 2 1 → Prop}
    (h : ∀ d s, admits (.load d) s) (r : ℝ) :
    (Constrained.interface ℝ 2 1).Reachable admits (shared r) :=
  reachable_setShare h (.call _ (.call _ (.call _ .fresh (h _ _)) (h _ _)) (h _ _)) r

theorem summing_unshared : unshared.Summing := by
  refine ⟨coupled_of_entries rfl rfl rfl, fun j hj => Tuple.fill_apply hj, fun j hj => ?_,
    fun i => (Tuple.fill_apply i.isLt).trans (congrArg Neg.neg infinity_exactParameters), fun e => ?_⟩
  · refine (Grid.ofFn_apply Nat.zero_lt_one hj).trans ?_
    obtain rfl | rfl : j = 0 ∨ j = 1 := by omega
    all_goals rfl
  · cases e with
    | bound i => exact (Tuple.fill_apply i.isLt).trans infinity_exactParameters
    | constraint i => exact (Tuple.fill_apply i.isLt).trans infinity_exactParameters

theorem sharing_shared (hr : |r| ≤ 100) : (shared r).Sharing r := summing_unshared.setShare hr

theorem sharing_one : (shared 1).Sharing 1 := sharing_shared (by norm_num)

theorem inOrder_shared (r : ℝ) : (shared r).InOrder := (inOrder_fresh 2 1).congr rfl rfl

/-- The sum has a positive lower limit, with which the row enters the working set, and then a negative one,
with which it leaves. -/
structure SharedSession (s1 s2 : Constrained ℝ 2 1) : Prop where
  solve : (Constrained.interface ℝ 2 1).call (.solve Observer.silent () 2 none none) (shared 1) =
    (.ok 2, s1)
  ends : Lone.Ends (shared 1) (.constraint 0) .lower s1
  held : s1.activity (.constraint 0) = .lower
  resume : (Constrained.interface ℝ 2 1).call (.resume Observer.silent () 2) (s1.setShare (-1)) =
    (.ok 2, s2)
  ends' : Lone.Ends (s1.setShare (-1)) (.constraint 0) .lower s2
  free : s2.activity (.constraint 0) = .inactive

theorem exists_sharedSession : ∃ s1 s2, SharedSession s1 s2 := by
  obtain ⟨s1, hsolve, -, hends, hheld⟩ := sharing_one.solve (inOrder_shared 1) one_pos
  have h1 := sharing_one.congr hends.sameData
  have h1' : (s1.setShare (-1)).Sharing (-1) := h1.toSumming.setShare (by norm_num)
  obtain ⟨s2, hresume, -, hends', hfree⟩ := h1'.minima.resume_leaves
    (h1.lone_setShare hends.toLone (by norm_num)) hheld
    (by unfold Repels; rw [if_neg nofun]; norm_num) le_rfl
  exact ⟨s1, s2, hsolve, hends, hheld, hresume, hends', hfree⟩

namespace SharedSession

variable {s1 s2 : Constrained ℝ 2 1} (h : SharedSession s1 s2)
include h

theorem sharing : s1.Sharing 1 := sharing_one.congr h.ends.sameData

theorem sharing_reloaded : (s1.setShare (-1)).Sharing (-1) :=
  h.sharing.toSumming.setShare (by norm_num)

theorem lone_reloaded : (s1.setShare (-1)).Lone (.constraint 0) .lower :=
  h.sharing.lone_setShare h.ends.toLone (by norm_num)

end SharedSession

/-- There are no rows, and no finite lower limits. A linear term pulls the first variable upwards. -/
structure Pulling (g : ℝ) (s : Constrained ℝ 2 0) : Prop extends s.Coupled where
  gradient : ∀ j, j < 2 → s.target.gradient j = if j = 0 then -g else 0
  lower : ∀ e, s.target.lowerOf e = -10 ^ 20

/-- The upper limit of the first variable is the only one that is finite. -/
structure Capping (g u : ℝ) (s : Constrained ℝ 2 0) : Prop extends s.Pulling g where
  small : |u| ≤ 100
  upper : ∀ i, s.target.upperOf (.bound i) = if i = 0 then u else 10 ^ 20

/-- An upper limit of the first variable is loaded. -/
noncomputable def setCap (s : Constrained ℝ 2 0) (u : ℝ) : Constrained ℝ 2 0 :=
  ((Constrained.interface ℝ 2 0).call (.load (.core (.upper #[u, exactParameters.infinity]))) s).2

theorem setCap_eq (s : Constrained ℝ 2 0) (u : ℝ) : s.setCap u = { s with target := { s.target with
    upper := Tuple.ofFn 2 fun i => Core.clamp s.parameters.infinity (#[u, exactParameters.infinity].getD i 0) } } := rfl

/-- A linear term is loaded. -/
noncomputable def setPull (s : Constrained ℝ 2 0) (g : ℝ) : Constrained ℝ 2 0 :=
  ((Constrained.interface ℝ 2 0).call (.load (.core (.gradient #[-g, 0]))) s).2

theorem Pulling.setCap {s : Constrained ℝ 2 0} (h : s.Pulling g) (hsmall : |u| ≤ 100) :
    Capping g u (s.setCap u) := by
  have hinfinity : Core.clamp s.parameters.infinity exactParameters.infinity = 10 ^ 20 := by
    rw [h.parameters]
    exact clamp_infinity
  refine ⟨⟨⟨h.parameters, h.type_eq, h.symmetric, h.hessian⟩, h.gradient, h.lower⟩, hsmall,
    fun i => (Tuple.ofFn_apply i.isLt).trans ?_⟩
  fin_cases i
  · exact h.clamp_eq hsmall
  · exact hinfinity

namespace Capping

variable {s s' : Constrained ℝ 2 0}

theorem setPull {a : ℝ} (h : s.Capping g u) (hsmall : |a| ≤ 100) : Capping a u (s.setPull a) := by
  refine ⟨⟨⟨h.parameters, h.type_eq, h.symmetric, h.hessian⟩, fun j hj => ?_, h.lower⟩, h.small,
    h.upper⟩
  refine (Tuple.ofFn_apply hj).trans ?_
  obtain rfl | rfl : j = 0 ∨ j = 1 := by omega
  · exact h.clamp_eq ((abs_neg a).trans_le hsmall)
  · exact h.clamp_eq (by norm_num)

theorem congr (h : s.Capping g u) (hdata : s.SameData s') : s'.Capping g u := by
  refine ⟨⟨⟨hdata.parameters.trans h.parameters, hdata.hessianType.trans h.type_eq,
    h.symmetric.congr hdata.hessian, ?_⟩, ?_, ?_⟩, h.small, ?_⟩
  · rw [hdata.hessian]
    exact h.hessian
  · rw [hdata.target]
    exact h.gradient
  · rw [hdata.target]
    exact h.lower
  · rw [hdata.target]
    exact h.upper

theorem single (h : s.Capping g u) : s.SingleLimit (.bound 0) .upper := by
  obtain ⟨hge, hle⟩ := abs_le.1 h.small
  have hlimit : s.target.upperOf (.bound 0) = u := h.upper 0
  refine ⟨h.strictlyConvex, .inr rfl, h.loadedType_eq h.small (.inr ⟨h.lower _, hlimit⟩), fun e => ?_,
    fun e => ?_, fun _ => u, fun e => ?_⟩
  · rw [h.infinity, h.lower]
    exact iff_of_false (lt_irrefl _) fun hnot => nomatch hnot.2
  · rw [h.infinity]
    cases e with
    | bound i =>
      rw [h.upper]
      split
      · next hi => exact iff_of_true (lt_of_le_of_lt hle (by norm_num)) ⟨congrArg _ hi, rfl⟩
      · next hi => exact iff_of_false (lt_irrefl _) fun hnot => hi (Entity.bound.inj hnot.1)
    | constraint i => exact i.elim0
  · rw [h.lower]
    cases e with
    | bound i =>
      rw [h.upper, valueOf_bound]
      constructor
      · linarith
      · split <;> linarith
    | constraint i => exact i.elim0

/-- Without the limit the minimum is where the linear term has pulled the first variable, and with it the
limit holds that variable. -/
theorem minima (h : s.Capping g u) : s.Minima (.bound 0) .upper
    (fun k => if k = 0 then 2 * g / 3 else -g / 3) (fun k => if k = 0 then u else -u / 2)
      (3 * u / 2 - g) := by
  refine ⟨h.single, fun j hj => ?_, fun j hj => ?_, ?_⟩
  · rw [h.sum_mul _ hj, h.gradient j hj]
    obtain rfl | rfl : j = 0 ∨ j = 1 := by omega
    · rw [if_pos rfl, if_neg one_ne_zero, if_pos rfl]
      ring
    · rw [if_pos rfl, if_neg one_ne_zero, if_neg one_ne_zero]
      ring
  · rw [h.sum_mul _ hj, h.gradient j hj]
    show _ = (3 * u / 2 - g) * if j = 0 then 1 else 0
    obtain rfl | rfl : j = 0 ∨ j = 1 := by omega
    · rw [if_pos rfl, if_neg one_ne_zero, if_pos rfl, if_pos rfl]
      ring
    · rw [if_pos rfl, if_neg one_ne_zero, if_neg one_ne_zero, if_neg one_ne_zero]
      ring
  · rw [valueOf_bound, show s.target.limitOf .upper (.bound 0) = u from h.upper 0]
    rfl

/-- If the minimum without the limit is beyond it, a solve from scratch adds the variable to the working
set. -/
theorem solve (h : s.Capping g u) (hs : s.InOrder) (hg : u < 2 * g / 3) :
    ∃ s', (Constrained.interface ℝ 2 0).call (.solve Observer.silent () 2 none none) s =
        (.ok 2, s') ∧
      ((Constrained.interface ℝ 2 0).records (.solve Observer.silent () 2 none none) s).map
        (·.event) = [.add (.bound 0) .upper, .full] ∧
        Lone.Ends s (.bound 0) .upper s' ∧ s'.activity (.bound 0) = .upper := by
  refine h.minima.solve_enters hs h.declared h.definite h.relaxation_nonneg ?_ le_rfl
  show s.target.upperOf (.bound 0) < s.valueOf _ _
  rw [valueOf_bound, h.upper, if_pos rfl]
  exact hg

/-- The homotopy to a problem with another linear term starts where the last one has ended, -/
theorem lone_setPull {a : ℝ} (h : s.Capping g u) (hlone : s.Lone (.bound 0) .upper)
    (hsmall : |a| ≤ 100) : (s.setPull a).Lone (.bound 0) .upper :=
  hlone.reload _ (h.setPull hsmall).single

/-- and so does one to a problem with another limit. -/
theorem lone_setCap {a : ℝ} (h : s.Capping g u) (hlone : s.Lone (.bound 0) .upper)
    (hsmall : |a| ≤ 100) : (s.setCap a).Lone (.bound 0) .upper :=
  hlone.reload _ (h.toPulling.setCap hsmall).single

end Capping

/-- A solver with the objective and a linear term, which has no limits yet. -/
noncomputable def pulled (g : ℝ) : Constrained ℝ 2 0 :=
  [Call.load (.core (.parameters exactParameters)), .load (.core (.hessian coupling)),
    .load (.core (.gradient #[-g, 0]))].foldl (fun s c => ((Constrained.interface ℝ 2 0).call c s).2)
      (fresh 2 0)

/-- A solver with an upper limit of the first variable as well. -/
noncomputable def capped (g u : ℝ) : Constrained ℝ 2 0 := (pulled g).setCap u

theorem pulling_pulled (hsmall : |g| ≤ 100) : (pulled g).Pulling g := by
  refine ⟨coupled_of_entries rfl rfl rfl, fun j hj => (Tuple.ofFn_apply hj).trans ?_, fun e => ?_⟩
  · obtain rfl | rfl : j = 0 ∨ j = 1 := by omega
    · exact clamp_exactParameters ((abs_neg g).trans_le hsmall)
    · exact clamp_exactParameters (by norm_num)
  · cases e with
    | bound i => exact (Tuple.fill_apply i.isLt).trans (congrArg Neg.neg infinity_exactParameters)
    | constraint i => exact i.elim0

theorem capping_capped (hg : |g| ≤ 100) (hu : |u| ≤ 100) : (capped g u).Capping g u :=
  (pulling_pulled hg).setCap hu

theorem capping_one : (capped 3 1).Capping 3 1 := capping_capped (by norm_num) (by norm_num)

theorem inOrder_capped (g u : ℝ) : (capped g u).InOrder := (inOrder_fresh 2 0).congr rfl rfl

/-- The first variable is pulled to its upper limit and enters the working set. Then it is pulled no longer
and leaves. -/
structure CappedSession (s1 s2 : Constrained ℝ 2 0) : Prop where
  solve : (Constrained.interface ℝ 2 0).call (.solve Observer.silent () 2 none none) (capped 3 1) =
    (.ok 2, s1)
  enters : ((Constrained.interface ℝ 2 0).records (.solve Observer.silent () 2 none none)
    (capped 3 1)).map (·.event) = [.add (.bound 0) .upper, .full]
  ends : Lone.Ends (capped 3 1) (.bound 0) .upper s1
  held : s1.activity (.bound 0) = .upper
  resume : (Constrained.interface ℝ 2 0).call (.resume Observer.silent () 2) (s1.setPull 0) =
    (.ok 2, s2)
  leaves : ((Constrained.interface ℝ 2 0).records (.resume Observer.silent () 2)
    (s1.setPull 0)).map (·.event) = [.remove (.bound 0), .full]
  ends' : Lone.Ends (s1.setPull 0) (.bound 0) .upper s2
  free : s2.activity (.bound 0) = .inactive

theorem exists_cappedSession : ∃ s1 s2, CappedSession s1 s2 := by
  obtain ⟨s1, hsolve, henters, hends, hheld⟩ :=
    capping_one.solve (inOrder_capped 3 1) (by norm_num)
  have h1 := capping_one.congr hends.sameData
  have h1' : (s1.setPull 0).Capping 0 1 := h1.setPull (by norm_num)
  obtain ⟨s2, hresume, hleaves, hends', hfree⟩ := h1'.minima.resume_leaves
    (h1.lone_setPull hends.toLone (by norm_num)) hheld
    (by unfold Repels; rw [if_pos rfl]; norm_num) le_rfl
  exact ⟨s1, s2, hsolve, henters, hends, hheld, hresume, hleaves, hends', hfree⟩

namespace CappedSession

variable {s1 s2 : Constrained ℝ 2 0} (h : CappedSession s1 s2)
include h

theorem capping : s1.Capping 3 1 := capping_one.congr h.ends.sameData

theorem capping_reloaded : (s1.setPull 0).Capping 0 1 := h.capping.setPull (by norm_num)

theorem lone_reloaded : (s1.setPull 0).Lone (.bound 0) .upper :=
  h.capping.lone_setPull h.ends.toLone (by norm_num)

end CappedSession

end Instances

end ActiveSet.Constrained
