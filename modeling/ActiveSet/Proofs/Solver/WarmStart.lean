import ActiveSet.Proofs.Solver.BoundsOnly.Solutions
import ActiveSet.Proofs.Solver.Minimum
import ActiveSet.Proofs.Solver.StrictConvexity

/-!
# Warm starts

A homotopy that starts at the solution of the previous problem goes to whatever vectors have been loaded
since, but the types of bounds and constraints, and which of their sides are finite, are those of the last
classification. With a positive definite matrix it ends at the only minimum of the loaded objective over
the points which these types allow. That is the only minimum within the loaded limits, and so what a solve
from scratch of the same problem finds, if no loaded limit is overlooked and no infinite one is held
(`warm_start_minimises`).

A limit that has become finite is overlooked, and the point may be outside (`warm_start_overlooks`).

* `Core.PosesAlike`, `Constrained.PosesAlike`: two solvers with the same problem loaded.
* `Constrained.Pinned`, `Box.Pinned`: the loaded limits of equalities are equal and finite.
* `Interface.SolvedCold`: where a solve from scratch has ended.
-/

namespace ActiveSet

open Finset

variable {n m : ℕ}

/-- A state in which a solve from scratch has ended with success, that was admitted in a state with a given
property. -/
inductive Interface.SolvedCold {K : Type} [Scalar K] {σ δ : Type} (I : Interface K n m σ δ)
    (admits : Call K n m δ → σ → Prop) (p : σ → Prop) : σ → Prop
  | intro {τ : Type} {obs : Observer K n m τ} {view : τ} {budget k : ℕ}
    {xGuess yGuess : Option (Array K)} {s s' : σ} (hs : I.Reachable admits s) (hp : p s)
    (hc : admits (.solve obs view budget xGuess yGuess) s)
    (hcall : I.call (.solve obs view budget xGuess yGuess) s = (.ok k, s')) :
    SolvedCold I admits p s'

-- ---------------------------------------------------------------------------
-- The same problem
-- ---------------------------------------------------------------------------

/-- The same matrix of the objective and the same vectors have been loaded, and the same numbers count as
infinite. -/
structure Core.PosesAlike (s s' : Core ℝ n m) : Prop where
  hessian : s'.hessian = s.hessian
  target : s'.target = s.target
  infinity : s'.parameters.infinity = s.parameters.infinity

theorem Core.PosesAlike.minimises {s s' : Core ℝ n m} (h : s.PosesAlike s')
    {p : Tuple ℝ n → Prop} {x : Tuple ℝ n} (hx : s'.Minimises p x) : s.Minimises p x := by
  obtain ⟨hmem, hleast⟩ := hx
  rw [h.hessian, h.target] at hleast
  exact ⟨hmem, hleast⟩

theorem Core.PosesAlike.within_eq {s s' : Core ℝ n m} (h : s.PosesAlike s') :
    s'.Within = s.Within := by
  have hiff : ∀ x, s'.Within x ↔ s.Within x := by
    intro x
    refine ⟨fun ⟨hlower, hupper⟩ => ?_, fun ⟨hlower, hupper⟩ => ?_⟩
    · rw [h.target, h.infinity] at hlower hupper
      exact ⟨hlower, hupper⟩
    · rw [← h.target, ← h.infinity] at hlower hupper
      exact ⟨hlower, hupper⟩
  exact funext fun x => propext (hiff x)

namespace Constrained

variable {s s' : Constrained ℝ n m} {x : Tuple ℝ n}

/-- The same matrices and the same vectors have been loaded, and the same numbers count as infinite. -/
structure PosesAlike (s s' : Constrained ℝ n m) : Prop extends s.toCore.PosesAlike s'.toCore where
  matrix : s'.matrix = s.matrix

/-- The loaded limits of an equality are equal and finite. -/
def Pinned (s : Constrained ℝ n m) : Prop :=
  ∀ e, EntitySet.typeOfLimits (s.target.lowerOf e) (s.target.upperOf e) s.parameters.epsBound
    s.parameters.infinity = .equality →
      -s.parameters.infinity < s.target.lowerOf e ∧ s.target.lowerOf e = s.target.upperOf e ∧
        s.target.upperOf e < s.parameters.infinity

theorem Pinned.equalLimits (h : s.Pinned) : s.EqualLimits := fun e htype => (h e htype).2.1

theorem SameData.posesAlike (h : s.SameData s') : s.PosesAlike s' :=
  ⟨⟨h.hessian, h.target, congrArg Parameters.infinity h.parameters⟩, h.matrix⟩

theorem PosesAlike.within_eq (h : s.PosesAlike s') : s'.Within = s.Within := by
  have hiff : ∀ x, s'.Within x ↔ s.Within x := by
    intro x
    have hvalue : ∀ e, s'.valueOf x e = s.valueOf x e := by
      intro e
      cases e with
      | bound i => rw [valueOf_bound, valueOf_bound]
      | constraint i => rw [valueOf_constraint, valueOf_constraint, h.matrix]
    rw [within_iff, within_iff, h.target, h.infinity]
    simp only [hvalue]
  exact funext fun x => propext (hiff x)

theorem Rearranged.allows_eq (h : s.Rearranged s') (hdata : s.SameData s') :
    s'.Allows = s.Allows := by
  have hiff : ∀ x, s'.Allows x ↔ s.Allows x := by
    intro x
    rw [allows_iff, allows_iff, hdata.target]
    simp only [h.limitType_eq, h.hasSide_eq, hdata.valueOf_eq]
  exact funext fun x => propext (hiff x)

theorem Rearranged.faithful (h : s.Rearranged s') (hdata : s.SameData s') (hs : s.Faithful) :
    s'.Faithful := by
  refine ⟨?_, ?_, ?_⟩
  · simp only [h.limitType_eq, h.hasSide_eq, hdata.target, hdata.parameters]
    exact hs.lower
  · simp only [h.limitType_eq, h.hasSide_eq, hdata.target, hdata.parameters]
    exact hs.upper
  · simp only [h.limitType_eq, hdata.target, hdata.parameters]
    exact hs.equality

-- ---------------------------------------------------------------------------
-- The end of a solve
-- ---------------------------------------------------------------------------

/-- What is admitted, however strictly, is admitted. -/
theorem courseCalls_loose {strict : Prop} {c : Call ℝ n m (Loading ℝ)} (h : courseCalls strict c s) :
    courseCalls False c s := by
  cases c with
  | load d => trivial
  | solve obs view budget xGuess yGuess => exact ⟨h.1, h.2.1, nofun⟩
  | resume obs view budget => exact fun hstart => ⟨(h hstart).1, nofun⟩
  | reset => trivial

/-- A solve that succeeds arrives at a solution of the loaded problem, with its working set at sides that
have limits. -/
theorem arrived_of_solve {strict : Prop} {c : Call ℝ n m (Loading ℝ)} {k : ℕ}
    (hs : (Constrained.interface ℝ n m).Reachable (courseCalls False) s)
    (hsolve : c.isSolve = true) (hc : courseCalls strict c s)
    (hcall : (Constrained.interface ℝ n m).call c s = (.ok k, s')) :
    s.SameData s' ∧ s'.Underway strict ∧ s'.current = s'.target ∧ s'.Sided := by
  have hI : (Constrained.interface ℝ n m).Respects (optimalPhases strict s.SameData)
      fun c s' => courseCalls strict c s' ∧ s.SameData s' :=
    respects_course fun _ _ h h' => h.trans h'
  obtain ⟨⟨⟨hunderway, hcurrent⟩, hdata⟩, hstatus⟩ := hI.arrived_of_call (settled_course hs)
    ⟨hc, ⟨rfl, rfl, rfl, rfl, rfl⟩⟩ hsolve hcall
  have hs' := hs.of_call (courseCalls_loose hc) hcall
  have hstart : s'.status.isStart = true := by
    rw [show s'.status = .solved from hstatus]
    rfl
  exact ⟨hdata, hunderway, hcurrent, (sided_of_reachable (hs'.mono fun _ _ _ => trivial) hstart).2⟩

/-- A homotopy that does not start from scratch ends at the only minimum over the points that the solver
looks for, and if no limit is overlooked and no infinite one held, at the only one within the loaded
limits. -/
theorem minimises_of_resume (hs : (Constrained.interface ℝ n m).Reachable (courseCalls False) s)
    (hdefinite : Definite n s.hessian) {τ : Type} {obs : Observer ℝ n m τ} {view : τ}
    {budget k : ℕ} (hc : courseCalls False (.resume obs view budget) s)
    (hcall : (Constrained.interface ℝ n m).call (.resume obs view budget) s = (.ok k, s')) :
    s.Minimises s.Allows s'.x ∧ (s.Faithful → s'.Held → s.Minimises s.Within s'.x) := by
  obtain ⟨hdata, hunderway, hcurrent, hsided⟩ := arrived_of_solve hs rfl hc hcall
  have hrearranged := rearranged_of_resume (hs.mono fun _ _ _ => trivial) hcall
  have hproblem := hdata.posesAlike
  rw [← hdata.hessian] at hdefinite
  refine ⟨hproblem.minimises ?_, fun hfaithful hheld => hproblem.minimises ?_⟩
  · rw [← hrearranged.allows_eq hdata]
    exact hunderway.optimal.minimises_allows hunderway.inStep hsided hdefinite hunderway.symmetric
      hcurrent
  · rw [← hproblem.within_eq]
    exact hunderway.optimal.minimises_within hunderway.inStep hsided hdefinite hunderway.symmetric
      hcurrent (hrearranged.faithful hdata hfaithful) hheld

/-- A solve from scratch ends at the only minimum within the loaded limits, if those of equalities are
equal and finite. -/
theorem minimises_of_solve (hs : (Constrained.interface ℝ n m).Reachable (courseCalls False) s)
    (hdefinite : Definite n s.hessian) (hpinned : s.Pinned) {τ : Type} {obs : Observer ℝ n m τ}
    {view : τ} {budget k : ℕ} {xGuess yGuess : Option (Array ℝ)}
    (hc : courseCalls False (.solve obs view budget xGuess yGuess) s)
    (hcall : (Constrained.interface ℝ n m).call (.solve obs view budget xGuess yGuess) s =
      (.ok k, s')) : s.Minimises s.Within s'.x := by
  have hstrict : courseCalls True (.solve obs view budget xGuess yGuess) s :=
    ⟨hc.1, hc.2.1, fun _ => hpinned.equalLimits⟩
  obtain ⟨hdata, hunderway, hcurrent, hsided⟩ := arrived_of_solve hs rfl hstrict hcall
  have hproblem := hdata.posesAlike
  have htyped := hunderway.typed trivial
  have hpinned' : s'.Pinned := by
    intro e
    rw [hdata.target, hdata.parameters]
    exact hpinned e
  rw [← hdata.hessian] at hdefinite
  -- the loaded problem is not changed, so a minimiser for the one state is one for the other
  refine hproblem.minimises ?_
  rw [← hproblem.within_eq]
  refine hunderway.optimal.minimises_within hunderway.inStep hsided hdefinite hunderway.symmetric
    hcurrent (htyped.faithful fun e htype => hpinned' e ?_) (htyped.held hsided)
  rw [← (htyped e).1]
  exact htype

end Constrained

-- ---------------------------------------------------------------------------
-- Bounds only
-- ---------------------------------------------------------------------------

namespace Box

variable {s s' : Box ℝ n} {t t' : Constrained ℝ n 0} {strict : Prop}

/-- The loaded limits of an equality are equal and finite. -/
def Pinned (s : Box ℝ n) : Prop :=
  ∀ i : Fin n, s.loadedType i = .equality → -s.parameters.infinity < s.target.lower i ∧
    s.target.lower i = s.target.upper i ∧ s.target.upper i < s.parameters.infinity

/-- No loaded limit is overlooked: a finite one is at a side that was finite when the bound was
classified, and one of an equality is its only one. -/
structure Faithful (s : Box ℝ n) : Prop where
  lower : ∀ i : Fin n, s.bounds.limitType i ≠ .equality →
    -s.parameters.infinity < s.target.lower i → s.bounds.hasSide i .lower = true
  upper : ∀ i : Fin n, s.bounds.limitType i ≠ .equality →
    s.target.upper i < s.parameters.infinity → s.bounds.hasSide i .upper = true
  equality : ∀ i : Fin n, s.bounds.limitType i = .equality →
    -s.parameters.infinity < s.target.lower i ∧ s.target.lower i = s.target.upper i ∧
      s.target.upper i < s.parameters.infinity

/-- No fixed variable is held at a loaded limit that is infinite. -/
structure Held (s : Box ℝ n) : Prop where
  lower : ∀ i : Fin n, s.bounds.limitType i ≠ .equality → s.bounds.activity i = .lower →
    -s.parameters.infinity < s.target.lower i
  upper : ∀ i : Fin n, s.bounds.limitType i ≠ .equality → s.bounds.activity i = .upper →
    s.target.upper i < s.parameters.infinity

theorem Companion.definite (h : Companion strict s t) (hs : Definite n s.hessian) :
    Definite n t.hessian := by
  have hst := h.matched.agrees
  obtain ⟨c⟩ := t
  cases hst
  exact hs

theorem Companion.pinned (h : Companion strict s t) (hs : s.Pinned) : t.Pinned := by
  have hst := h.matched.agrees
  obtain ⟨c⟩ := t
  cases hst
  intro e
  cases e with
  | bound i => exact hs i
  | constraint i => exact i.elim0

theorem Companion.faithful (h : Companion strict s t) (hs : s.Faithful) : t.Faithful := by
  have hst := h.matched.agrees
  obtain ⟨c⟩ := t
  cases hst
  refine ⟨fun e => ?_, fun e => ?_, fun e => ?_⟩
  · cases e with
    | bound i => exact hs.lower i
    | constraint i => exact i.elim0
  · cases e with
    | bound i => exact hs.upper i
    | constraint i => exact i.elim0
  · cases e with
    | bound i => exact hs.equality i
    | constraint i => exact i.elim0

theorem Companion.held (h : Companion strict s t) (hs : s.Held) : t.Held := by
  have hst := h.matched.agrees
  obtain ⟨c⟩ := t
  cases hst
  refine ⟨fun e => ?_, fun e => ?_⟩
  · cases e with
    | bound i => exact hs.lower i
    | constraint i => exact i.elim0
  · cases e with
    | bound i => exact hs.upper i
    | constraint i => exact i.elim0

/-- What a companion minimises is minimised. -/
theorem Companion.minimises (h : Companion strict s t) (h' : Companion strict s' t')
    {p q : Tuple ℝ n → Prop} (hp : ∀ x, p x ↔ q x) (hx : t.Minimises p t'.x) :
    Core.Minimises s q s'.x := by
  obtain rfl : p = q := funext fun x => propext (hp x)
  have hst := h.matched.agrees
  have hst' := h'.matched.agrees
  obtain ⟨c⟩ := t
  obtain ⟨c'⟩ := t'
  cases hst
  cases hst'
  exact ⟨hx.mem, hx.least⟩

theorem Companion.allows_iff (h : Companion strict s t) (x : Tuple ℝ n) :
    t.Allows x ↔ Core.Allows s x := by
  have hst := h.matched.agrees
  obtain ⟨c⟩ := t
  cases hst
  exact ⟨fun hx => ⟨hx.equality, hx.lower_le, hx.le_upper⟩, fun hx =>
    ⟨⟨hx.equality, hx.lower_le, hx.le_upper⟩, fun i => i.elim0, fun i => i.elim0, fun i => i.elim0⟩⟩

theorem Companion.within_iff (h : Companion strict s t) (x : Tuple ℝ n) :
    t.Within x ↔ Core.Within s x := by
  have hst := h.matched.agrees
  obtain ⟨c⟩ := t
  cases hst
  exact ⟨fun hx => ⟨hx.lower_le, hx.le_upper⟩, fun hx =>
    ⟨⟨hx.lower_le, hx.le_upper⟩, fun i => i.elim0, fun i => i.elim0⟩⟩

theorem minimises_of_resume (hs : (Box.interface ℝ n).Reachable (courseCalls False) s)
    (hdefinite : Definite n s.hessian) {τ : Type} {obs : Observer ℝ n 0 τ} {view : τ}
    {budget k : ℕ} (hc : courseCalls False (.resume obs view budget) s)
    (hcall : (Box.interface ℝ n).call (.resume obs view budget) s = (.ok k, s')) :
    Core.Minimises s (Core.Allows s) s'.x ∧
      (s.Faithful → s'.Held → Core.Minimises s (Core.Within s) s'.x) := by
  obtain ⟨t, h⟩ := exists_companion hs
  obtain ⟨t', hcall', h'⟩ := h.exists_call hc hcall
  obtain ⟨hallows, hwithin⟩ :=
    Constrained.minimises_of_resume h.reachable (h.definite hdefinite) (h.courseCalls hc) hcall'
  exact ⟨h.minimises h' h.allows_iff hallows, fun hfaithful hheld =>
    h.minimises h' h.within_iff (hwithin (h.faithful hfaithful) (h'.held hheld))⟩

theorem minimises_of_solve (hs : (Box.interface ℝ n).Reachable (courseCalls False) s)
    (hdefinite : Definite n s.hessian) (hpinned : s.Pinned) {τ : Type} {obs : Observer ℝ n 0 τ}
    {view : τ} {budget k : ℕ} {xGuess yGuess : Option (Array ℝ)}
    (hc : courseCalls False (.solve obs view budget xGuess yGuess) s)
    (hcall : (Box.interface ℝ n).call (.solve obs view budget xGuess yGuess) s = (.ok k, s')) :
    Core.Minimises s (Core.Within s) s'.x := by
  obtain ⟨t, h⟩ := exists_companion hs
  obtain ⟨t', hcall', h'⟩ := h.exists_call hc hcall
  exact h.minimises h' h.within_iff
    (Constrained.minimises_of_solve h.reachable (h.definite hdefinite) (h.pinned hpinned)
      (h.courseCalls hc) hcall')

end Box

/-- A homotopy with a positive definite matrix that starts from the last solution, whatever vectors have been
loaded since, ends at the only minimum of the loaded objective over the points that the types and the finite
sides of the last classification allow. If no finite loaded limit is overlooked by them, and no infinite one
held at the end, this is the only minimum within the loaded limits, and the point at which any solve from
scratch of the same problem ends. -/
theorem warm_start_minimises (n m : ℕ) :
    (∀ s, (Constrained.interface ℝ n m).Reachable (Constrained.courseCalls False) s →
      Definite n s.hessian → ∀ (τ : Type) (obs : Observer ℝ n m τ) (view : τ) (budget : ℕ),
        Constrained.courseCalls False (.resume obs view budget) s → ∀ k s',
          (Constrained.interface ℝ n m).call (.resume obs view budget) s = (.ok k, s') →
            s.Minimises s.Allows s'.x ∧ (s.Faithful → s'.Held → s.Minimises s.Within s'.x ∧
              ∀ t, (Constrained.interface ℝ n m).SolvedCold (Constrained.courseCalls False)
                (fun r => s.PosesAlike r ∧ r.Pinned) t → t.x = s'.x)) ∧
      ∀ s, (Box.interface ℝ n).Reachable (Box.courseCalls False) s →
        Definite n s.hessian → ∀ (τ : Type) (obs : Observer ℝ n 0 τ) (view : τ) (budget : ℕ),
          Box.courseCalls False (.resume obs view budget) s → ∀ k s',
            (Box.interface ℝ n).call (.resume obs view budget) s = (.ok k, s') →
              Core.Minimises s (Core.Allows s) s'.x ∧
                (Box.Faithful s → Box.Held s' → Core.Minimises s (Core.Within s) s'.x ∧
                  ∀ t, (Box.interface ℝ n).SolvedCold (Box.courseCalls False)
                    (fun r => Core.PosesAlike s r ∧ Box.Pinned r) t → t.x = s'.x) := by
  constructor
  · intro s hs hdefinite τ obs view budget hc k s' hcall
    obtain ⟨hallows, hwithin⟩ := Constrained.minimises_of_resume hs hdefinite hc hcall
    refine ⟨hallows, fun hfaithful hheld => ⟨hwithin hfaithful hheld, ?_⟩⟩
    -- a cold solve of the same problem ends in the minimum too, and there is only one
    rintro t ⟨hr, ⟨hproblem, hpinned⟩, hc', hcall'⟩
    rw [← hproblem.hessian] at hdefinite
    have hcold := Constrained.minimises_of_solve hr hdefinite hpinned hc' hcall'
    rw [hproblem.within_eq] at hcold
    exact (hwithin hfaithful hheld).unique (hproblem.minimises hcold)
  · intro s hs hdefinite τ obs view budget hc k s' hcall
    obtain ⟨hallows, hwithin⟩ := Box.minimises_of_resume hs hdefinite hc hcall
    refine ⟨hallows, fun hfaithful hheld => ⟨hwithin hfaithful hheld, ?_⟩⟩
    -- a cold solve of the same problem ends in the minimum too, and there is only one
    rintro t ⟨hr, ⟨hproblem, hpinned⟩, hc', hcall'⟩
    rw [← hproblem.hessian] at hdefinite
    have hcold := Box.minimises_of_solve hr hdefinite hpinned hc' hcall'
    rw [hproblem.within_eq] at hcold
    exact (hwithin hfaithful hheld).unique (hproblem.minimises hcold)

-- ---------------------------------------------------------------------------
-- Instances
-- ---------------------------------------------------------------------------

namespace Constrained

variable {s : Constrained ℝ n m}

/-- Without limits a homotopy that does not start from scratch arrives in one step. -/
theorem call_resume_of_unlimited (hs : s.Ready) (hconvex : s.StrictlyConvex) (hsided : s.Sided)
    (hunlimited : s.Unlimited) (hstart : s.status.isStart = true) (hlimits : s.checkLimits = .ok ())
    {τ : Type} (obs : Observer ℝ n m τ) (view : τ) (budget : ℕ) :
    ∃ s', (Constrained.interface ℝ n m).call (.resume obs view (budget + 1)) s = (.ok 1, s') := by
  have hmoving : (method.clearVerdict s).Moving :=
    ⟨hs.congr rfl rfl rfl rfl rfl rfl rfl rfl, hconvex.tolerant.congr rfl⟩
  have hstep := step_of_unlimited hmoving (hconvex.congr ⟨rfl, rfl, rfl, rfl, rfl⟩)
    (fun e => by
      have hinactive := hsided.isActive_of_unbounded (hunlimited e)
      cases e <;> exact hinactive)
    (fun e => by
      have htype := hunlimited e
      cases e <;> exact htype) 0
  have hrun : ((method : Method ℝ n m (Constrained ℝ n m)).resume obs (budget + 1)).Ensures
      (s, view) (fun k _ => k = 1) fun _ _ => False := by
    unfold Method.resume
    rw [Update.ensures_bind, Update.ensures_get]
    dsimp only
    rw [if_pos (show (method.status s).isStart = true from hstart),
      show method.checkLimits s = .ok () from hlimits, Update.ofExcept_ok, Update.ensures_bind,
      Update.ensures_pure]
    exact (Method.homotopy_of_step obs budget hstep).mono (fun _ _ h => h.1) fun _ _ h => h
  obtain ⟨k, r, hcall, rfl⟩ | ⟨f, r, -, hfalse⟩ := outcome_of_ensures hrun
  · exact ⟨r.1, hcall⟩
  · exact hfalse.elim

/-- The state in which half the square has been solved. -/
noncomputable def solvedSquare : Constrained ℝ 1 1 :=
  ((Constrained.interface ℝ 1 1).call (.solve Observer.silent () 1 none none) square).2

theorem call_solvedSquare : (Constrained.interface ℝ 1 1).call
    (.solve Observer.silent () 1 none none) square = (.ok 1, solvedSquare) := by
  obtain ⟨s', hcall, -⟩ := call_square
  unfold solvedSquare
  rw [hcall]

theorem admits_square : courseCalls True (.solve Observer.silent () 1 none none) square :=
  ⟨declared_square, exact_square, fun _ => cold_square.equalLimits⟩

theorem reachable_solvedSquare :
    (Constrained.interface ℝ 1 1).Reachable (courseCalls False) solvedSquare :=
  (reachable_square _ fun _ _ => trivial).of_call (courseCalls_loose admits_square)
    call_solvedSquare

theorem status_solvedSquare : solvedSquare.status = .solved := by
  obtain ⟨s', hcall, hstatus⟩ := call_square
  rw [call_solvedSquare] at hcall
  cases hcall
  exact hstatus

theorem arrived_solvedSquare : square.SameData solvedSquare ∧ solvedSquare.Underway True ∧
    solvedSquare.current = solvedSquare.target ∧ solvedSquare.Sided :=
  arrived_of_solve (reachable_square _ fun _ _ => trivial) rfl admits_square call_solvedSquare

theorem unlimited_solvedSquare : solvedSquare.Unlimited := by
  obtain ⟨hdata, hunderway, -, -⟩ := arrived_solvedSquare
  intro e
  rw [(hunderway.typed trivial e).1, hdata.target, hdata.parameters]
  exact typeOfLimits_square e

/-- None of its sides is finite. -/
theorem hasSide_solvedSquare (e : Entity 1 1) :
    solvedSquare.hasSide .lower e ≠ true ∧ solvedSquare.hasSide .upper e ≠ true := by
  obtain ⟨hdata, hunderway, -, -⟩ := arrived_solvedSquare
  obtain ⟨-, hlower, hupper⟩ := hunderway.typed trivial e
  have hinfinity : solvedSquare.parameters.infinity = 10 ^ 20 := by
    rw [hdata.parameters]
    exact infinity_exactParameters
  rw [hdata.target, hinfinity, lowerOf_square, lt_self_iff_false] at hlower
  rw [hdata.target, hinfinity, upperOf_square, lt_self_iff_false] at hupper
  exact ⟨hlower.1, hupper.1⟩

/-- What can be done with the solved problem after other vectors have been loaded. -/
structure Reloaded (s : Constrained ℝ 1 1) : Prop where
  frame : ∃ target, s = { solvedSquare with target }
  reachable : (Constrained.interface ℝ 1 1).Reachable (courseCalls False) s

namespace Reloaded

variable {s : Constrained ℝ 1 1}

theorem status (h : s.Reloaded) : s.status = .solved := by
  obtain ⟨target, rfl⟩ := h.frame
  exact status_solvedSquare

theorem parameters (h : s.Reloaded) : s.parameters = exactParameters := by
  obtain ⟨target, rfl⟩ := h.frame
  exact arrived_solvedSquare.1.parameters

theorem hessian (h : s.Reloaded) : s.hessian = square.hessian := by
  obtain ⟨target, rfl⟩ := h.frame
  exact arrived_solvedSquare.1.hessian

theorem strictlyConvex (h : s.Reloaded) : s.StrictlyConvex := by
  refine ⟨?_, ?_, ?_, ?_⟩
  · rw [h.hessian]
    exact strictlyConvex_square.definite
  · rw [h.parameters]
    rfl
  · rw [h.parameters]
    rfl
  · rw [h.parameters]
    rfl

theorem limitType (h : s.Reloaded) (e : Entity 1 1) : s.limitType e = .unbounded := by
  have htype := unlimited_solvedSquare e
  obtain ⟨target, rfl⟩ := h.frame
  cases e <;> exact htype

theorem hasSide (h : s.Reloaded) (e : Entity 1 1) :
    s.hasSide .lower e ≠ true ∧ s.hasSide .upper e ≠ true := by
  have hside := hasSide_solvedSquare e
  obtain ⟨target, rfl⟩ := h.frame
  cases e <;> exact hside

theorem admits (h : s.Reloaded) (budget : ℕ) :
    courseCalls False (.resume Observer.silent () budget) s := by
  refine fun _ => ⟨⟨?_, ?_, ?_, ?_⟩, nofun⟩
  · rw [h.parameters]
    exact exact_square.epsZero_eq
  · rw [h.parameters]
    exact exact_square.epsDependent_eq
  · rw [h.parameters]
    exact exact_square.epsDefinite_nonneg
  · rw [h.parameters]
    exact exact_square.relaxation_nonneg

/-- The next homotopy arrives in one step. -/
theorem call_resume (h : s.Reloaded) (hlimits : s.checkLimits = .ok ()) :
    ∃ s', (Constrained.interface ℝ 1 1).call (.resume Observer.silent () 1) s = (.ok 1, s') := by
  obtain ⟨-, hunderway, -, hsided⟩ := arrived_solvedSquare
  have hready := hunderway.toReady
  have hconvex := h.strictlyConvex
  have htype := h.limitType
  have hstart : s.status.isStart = true := by
    rw [h.status]
    rfl
  obtain ⟨target, rfl⟩ := h.frame
  have hready' : Ready { solvedSquare with target } :=
    hready.congr rfl rfl rfl rfl rfl rfl rfl rfl
  exact call_resume_of_unlimited hready' hconvex (hsided.congr rfl rfl) htype hstart hlimits
    Observer.silent () 0

theorem minimises (h : s.Reloaded) {s' : Constrained ℝ 1 1}
    (hcall : (Constrained.interface ℝ 1 1).call (.resume Observer.silent () 1) s = (.ok 1, s')) :
    s.Minimises s.Allows s'.x :=
  (minimises_of_resume h.reachable h.strictlyConvex.definite (h.admits 1) hcall).1

/-- Nothing is forbidden by limits that were not there. -/
theorem allows (h : s.Reloaded) (x : Tuple ℝ 1) : s.Allows x := by
  refine allows_iff.2 fun e => ⟨fun htype => ?_, fun hside => ?_, fun hside => ?_⟩
  · rw [h.limitType e] at htype
    cases htype
  · exact absurd hside (h.hasSide e).1
  · exact absurd hside (h.hasSide e).2

end Reloaded

/-- The solved problem with a lower limit of one. -/
noncomputable def tightened : Constrained ℝ 1 1 :=
  ((Constrained.interface ℝ 1 1).call (.load (.core (.lower #[1]))) solvedSquare).2

theorem reloaded_tightened : tightened.Reloaded :=
  ⟨⟨_, rfl⟩, .call _ reachable_solvedSquare trivial⟩

theorem tightened_eq : tightened = { solvedSquare with target := { solvedSquare.target with
    lower := Tuple.ofFn 1 fun i =>
      Core.clamp solvedSquare.parameters.infinity (#[1].getD i 0) } } := rfl

theorem lower_tightened : tightened.target.lower 0 = 1 := by
  rw [tightened_eq]
  refine (Tuple.ofFn_apply Nat.zero_lt_one).trans ?_
  rw [arrived_solvedSquare.1.parameters]
  refine Core.clamp_of ?_ ?_
  · rw [show square.parameters.infinity = 10 ^ 20 from infinity_exactParameters]
    norm_num
  · rw [show square.parameters.infinity = 10 ^ 20 from infinity_exactParameters]
    norm_num

theorem upper_tightened : tightened.target.upper 0 = 10 ^ 20 := by
  rw [tightened_eq]
  show solvedSquare.target.upper 0 = 10 ^ 20
  rw [arrived_solvedSquare.1.target]
  exact upperOf_square (.bound 0)

theorem rowLimits_tightened : tightened.target.rowLower 0 = -10 ^ 20 ∧
    tightened.target.rowUpper 0 = 10 ^ 20 := by
  rw [tightened_eq]
  show solvedSquare.target.rowLower 0 = -10 ^ 20 ∧ solvedSquare.target.rowUpper 0 = 10 ^ 20
  rw [arrived_solvedSquare.1.target]
  exact ⟨lowerOf_square (.constraint 0), upperOf_square (.constraint 0)⟩

theorem ordered_tightened (e : Entity 1 1) :
    tightened.target.lowerOf e ≤ tightened.target.upperOf e := by
  obtain rfl | rfl := entity_of_one e
  · refine lower_tightened.trans_le (le_of_le_of_eq ?_ upper_tightened.symm)
    norm_num
  · obtain ⟨hlower, hupper⟩ := rowLimits_tightened
    refine hlower.trans_le (le_of_le_of_eq ?_ hupper.symm)
    norm_num

theorem infinity_tightened : tightened.parameters.infinity = 10 ^ 20 := by
  rw [reloaded_tightened.parameters]
  exact infinity_exactParameters

theorem finite_tightened : -tightened.parameters.infinity < tightened.target.lower (0 : Fin 1) := by
  rw [infinity_tightened]
  refine lt_of_lt_of_eq ?_ lower_tightened.symm
  norm_num

/-- The point one is within the limits. -/
theorem within_tightened : tightened.Within (Tuple.fill 1 1) := by
  refine within_iff.2 fun e => ?_
  obtain rfl | rfl := entity_of_one e
  · rw [valueOf_bound, show (((0 : Fin 1) : ℕ)) = 0 from rfl, Tuple.fill_apply Nat.zero_lt_one]
    refine ⟨fun _ => lower_tightened.le, fun _ => le_of_le_of_eq ?_ upper_tightened.symm⟩
    norm_num
  · obtain ⟨hlower, hupper⟩ := rowLimits_tightened
    rw [infinity_tightened]
    exact ⟨fun h => absurd (h.trans_eq hlower) (lt_irrefl _),
      fun h => absurd (hupper.symm.trans_lt h) (lt_irrefl _)⟩

theorem objective_tightened (x : Tuple ℝ 1) :
    objective tightened.hessian tightened.target.gradient x = x 0 * x 0 / 2 := by
  have hgradient : tightened.target.gradient 0 = 0 := by
    rw [tightened_eq]
    show solvedSquare.target.gradient 0 = 0
    rw [arrived_solvedSquare.1.target, square_eq]
    exact Tuple.fill_apply Nat.zero_lt_one
  rw [objective_eq, reloaded_tightened.hessian]
  simp [form, hessian_square, hgradient]

end Constrained

section SingleLimit

variable {s s' : Constrained ℝ n m} {e : Entity n m} {side : Activity}

/-- Another problem with the same single limit overlooks nothing, -/
theorem Constrained.Lone.faithful (h : s.Lone e side) : s.Faithful := by
  have htyped := h.typed trivial
  refine ⟨fun a _ => (htyped a).2.1.2, fun a _ => (htyped a).2.2.2, fun a htype => ?_⟩
  exact absurd ((htyped a).1.symm.trans htype) (h.single.loadedType_ne a)

/-- and nothing is held at a limit that is infinite. -/
theorem Constrained.Lone.heldFinite (h : s.Lone e side) : s.Held := by
  have hplaced : ∀ a, s.activity a ≠ .inactive → a = e ∧ s.activity a = side := by
    intro a hactive
    obtain rfl : a = e := by
      by_contra hother
      exact hactive (h.others a hother)
    exact ⟨rfl, h.placed.resolve_left hactive⟩
  refine ⟨fun a _ ha => ?_, fun a _ ha => ?_⟩
  · obtain ⟨rfl, hside⟩ := hplaced a (by rw [ha]; exact nofun)
    exact (h.single.lower_iff a).2 ⟨rfl, hside.symm.trans ha⟩
  · obtain ⟨rfl, hside⟩ := hplaced a (by rw [ha]; exact nofun)
    exact (h.single.upper_iff a).2 ⟨rfl, hside.symm.trans ha⟩

theorem Constrained.SingleLimit.pinned (h : s.SingleLimit e side) : s.Pinned :=
  fun a htype => absurd htype (h.loadedType_ne a)

end SingleLimit

theorem Constrained.SameData.setShare {s s' : Constrained ℝ 2 1} (h : s.SameData s') (r : ℝ) :
    (s.setShare r).SameData (s'.setShare r) := by
  refine ⟨h.parameters, h.hessian, h.matrix, ?_, h.hessianType⟩
  rw [setShare_eq, setShare_eq]
  dsimp only
  rw [h.target, h.parameters]

theorem Constrained.SameData.setCap {s s' : Constrained ℝ 2 0} (h : s.SameData s') (u : ℝ) :
    (s.setCap u).SameData (s'.setCap u) := by
  refine ⟨h.parameters, h.hessian, h.matrix, ?_, h.hessianType⟩
  rw [setCap_eq, setCap_eq]
  dsimp only
  rw [h.target, h.parameters]

section Together

variable {s s' : Box ℝ n} {t t' : Constrained ℝ n 0}

theorem Together.faithful (h : Together s t) (ht : t.Faithful) : Box.Faithful s := by
  have hst := h.matched.agrees
  obtain ⟨c⟩ := t
  cases hst
  exact ⟨fun i => ht.lower (.bound i), fun i => ht.upper (.bound i), fun i => ht.equality (.bound i)⟩

theorem Together.held (h : Together s t) (ht : t.Held) : Box.Held s := by
  have hst := h.matched.agrees
  obtain ⟨c⟩ := t
  cases hst
  exact ⟨fun i => ht.lower (.bound i), fun i => ht.upper (.bound i)⟩

theorem Together.pinned (h : Together s t) (ht : t.Pinned) : Box.Pinned s := by
  have hst := h.matched.agrees
  obtain ⟨c⟩ := t
  cases hst
  exact fun i => ht (.bound i)

theorem Together.posesAlike (h : Together s t) (h' : Together s' t') (ht : t.PosesAlike t') :
    Core.PosesAlike s s' := by
  have hst := h.matched.agrees
  have hst' := h'.matched.agrees
  obtain ⟨c⟩ := t
  obtain ⟨c'⟩ := t'
  cases hst
  cases hst'
  exact ⟨ht.hessian, ht.target, ht.infinity⟩

end Together

/-- The lower limit of the sum is raised after a solve. The next homotopy keeps the row in the working set,
and the raised limit can be loaded and solved for from scratch as well. -/
structure Constrained.RaisedSession (s1 s2 t : Constrained ℝ 2 1) : Prop where
  solve : (Constrained.interface ℝ 2 1).call (.solve Observer.silent () 2 none none) (shared 1) =
    (.ok 2, s1)
  sharing : (s1.setShare 2).Sharing 2
  lone : (s1.setShare 2).Lone (.constraint 0) .lower
  resume : (Constrained.interface ℝ 2 1).call (.resume Observer.silent () 1) (s1.setShare 2) =
    (.ok 1, s2)
  ends : Lone.Ends (s1.setShare 2) (.constraint 0) .lower s2
  held : s2.activity (.constraint 0) = .lower
  posesAlike : (s1.setShare 2).PosesAlike (shared 2)
  cold : (Constrained.interface ℝ 2 1).call (.solve Observer.silent () 2 none none) (shared 2) =
    (.ok 2, t)

theorem Constrained.exists_raisedSession : ∃ s1 s2 t, RaisedSession s1 s2 t := by
  obtain ⟨s1, _, h⟩ := exists_sharedSession
  have hsharing : (s1.setShare 2).Sharing 2 := h.sharing.toSumming.setShare (by norm_num)
  have hlone : (s1.setShare 2).Lone (.constraint 0) .lower :=
    h.sharing.lone_setShare h.ends.toLone (by norm_num)
  obtain ⟨s2, hresume, hends, hheld⟩ := hsharing.minima.resume_stays hlone h.held
    (by unfold Repels; rw [if_neg nofun]; norm_num) le_rfl
  have hshared : (shared 2).Sharing 2 := sharing_shared (by norm_num)
  obtain ⟨t, hcold, -⟩ := hshared.solve (inOrder_shared 2) two_pos
  exact ⟨s1, s2, t, h.solve, hsharing, hlone, hresume, hends, hheld,
    (h.ends.sameData.setShare 2).symm.posesAlike, hcold⟩

/-- The upper limit of the first variable is lowered after a solve with bounds only. The next homotopy keeps
the variable in the working set, and the lowered limit can be solved for from scratch as well. -/
structure Box.LoweredSession (b1 b2 c : Box ℝ 2) (t1 t2 : Constrained ℝ 2 0) : Prop where
  solve : (Box.interface ℝ 2).call (.solve Observer.silent () 2 none none) (Box.capped 3 1) =
    (.ok 2, b1)
  together : Together (b1.setCap (1 / 2)) (t1.setCap (1 / 2))
  capping : (t1.setCap (1 / 2)).Capping 3 (1 / 2)
  lone : (t1.setCap (1 / 2)).Lone (.bound 0) .upper
  resume : (Box.interface ℝ 2).call (.resume Observer.silent () 1) (b1.setCap (1 / 2)) = (.ok 1, b2)
  together' : Together b2 t2
  ends : Constrained.Lone.Ends (t1.setCap (1 / 2)) (.bound 0) .upper t2
  held : t2.activity (.bound 0) = .upper
  posesAlike : Core.PosesAlike (b1.setCap (1 / 2)) (Box.capped 3 (1 / 2))
  cold : (Box.interface ℝ 2).call (.solve Observer.silent () 2 none none) (Box.capped 3 (1 / 2)) =
    (.ok 2, c)

theorem Box.exists_loweredSession : ∃ b1 b2 c t1 t2, LoweredSession b1 b2 c t1 t2 := by
  obtain ⟨b1, _, t1, _, h⟩ := exists_cappedSession
  have hcapping : (t1.setCap (1 / 2)).Capping 3 (1 / 2) :=
    h.session.capping.toPulling.setCap (by norm_num [abs_le])
  have hlone : (t1.setCap (1 / 2)).Lone (.bound 0) .upper :=
    h.session.capping.lone_setCap h.session.ends.toLone (by norm_num [abs_le])
  obtain ⟨t2, hresume, hends, hheld⟩ := hcapping.minima.resume_stays hlone h.session.held
    (by unfold Constrained.Repels; rw [if_pos rfl]; norm_num) le_rfl
  have hcapped : (Constrained.capped 3 (1 / 2)).Capping 3 (1 / 2) :=
    Constrained.capping_capped (by norm_num) (by norm_num [abs_le])
  obtain ⟨t3, hcold, -⟩ := hcapped.solve (Constrained.inOrder_capped 3 (1 / 2)) (by norm_num)
  -- what the solver for bounds and constraints does, the solver for bounds does too
  have htogether := h.together.setCap (1 / 2)
  have hstart := together_capped 3 (1 / 2)
  obtain ⟨b2, hcall, htogether'⟩ := htogether.exists_call (c := .resume Observer.silent () 1)
    (htogether.fit hcapping.toCoupled) hresume
  obtain ⟨c, hcall', -⟩ := hstart.exists_call (c := .solve Observer.silent () 2 none none)
    ⟨hstart.declared hcapped.declared, hstart.fit hcapped.toCoupled⟩ hcold
  exact ⟨b1, b2, c, t1, t2, h.solve, htogether, hcapping, hlone, hcall, htogether', hends, hheld,
    htogether.posesAlike hstart (h.session.ends.sameData.setCap (1 / 2)).symm.posesAlike, hcall'⟩

/-- After a solve the limit that holds is moved, in both solvers. Each ends at the minimum, with the limit in
its working set, and a solve from scratch ends at the same point. -/
theorem warm_start_minimises_shared : ∃ s1 s2 t b1 b2 c,
    (Constrained.interface ℝ 2 1).call (.solve Observer.silent () 2 none none)
        (Constrained.shared 1) = (.ok 2, s1) ∧
      (Constrained.interface ℝ 2 1).call (.resume Observer.silent () 1) (s1.setShare 2) = (.ok 1, s2) ∧
      s2.activity (.constraint 0) = .lower ∧
      (s1.setShare 2).Minimises (s1.setShare 2).Allows s2.x ∧
      (s1.setShare 2).Minimises (s1.setShare 2).Within s2.x ∧
      (Constrained.interface ℝ 2 1).call (.solve Observer.silent () 2 none none)
        (Constrained.shared 2) = (.ok 2, t) ∧ t.x = s2.x ∧
      (Box.interface ℝ 2).call (.solve Observer.silent () 2 none none) (Box.capped 3 1) = (.ok 2, b1) ∧
      (Box.interface ℝ 2).call (.resume Observer.silent () 1) (b1.setCap (1 / 2)) = (.ok 1, b2) ∧
      b2.bounds.activity 0 = .upper ∧
      Core.Minimises (b1.setCap (1 / 2)) (Core.Allows (b1.setCap (1 / 2))) b2.x ∧
      Core.Minimises (b1.setCap (1 / 2)) (Core.Within (b1.setCap (1 / 2))) b2.x ∧
      (Box.interface ℝ 2).call (.solve Observer.silent () 2 none none) (Box.capped 3 (1 / 2)) =
        (.ok 2, c) ∧ c.x = b2.x := by
  obtain ⟨s1, s2, t, h⟩ := Constrained.exists_raisedSession
  have hload : ∀ d s, Constrained.courseCalls (n := 2) (m := 1) False (.load d) s := fun _ _ => trivial
  have hshared : ∀ r : ℝ, |r| ≤ 100 → Constrained.courseCalls False
      (.solve Observer.silent () 2 none none) (Constrained.shared r) := fun r hr =>
    have hsharing := Constrained.sharing_shared hr
    Constrained.courseCalls_of_optimalCalls (hsharing.admits_solve hsharing.single)
  have hreach1 := (Constrained.reachable_shared hload 1).of_call (hshared 1 (by norm_num)) h.solve
  obtain ⟨hallows, hnext⟩ := (warm_start_minimises 2 1).1 (s1.setShare 2)
    (Constrained.reachable_setShare hload hreach1 2) h.sharing.strictlyConvex.definite Unit
      Observer.silent () 1 (Constrained.courseCalls_of_optimalCalls (h.sharing.admits_resume h.lone))
      1 s2 h.resume
  obtain ⟨hwithin, hsame⟩ := hnext h.lone.faithful h.ends.heldFinite
  have hx := hsame t ⟨Constrained.reachable_shared hload 2,
    ⟨h.posesAlike, (Constrained.sharing_shared (by norm_num)).single.pinned⟩,
    hshared 2 (by norm_num), h.cold⟩
  -- and the same for the solver for bounds
  obtain ⟨b1, b2, c, t1, t2, hb⟩ := Box.exists_loweredSession
  have hcapped : ∀ u : ℝ, |u| ≤ 100 → Box.courseCalls False
      (.solve Observer.silent () 2 none none) (Box.capped 3 u) := fun u hu =>
    have hcapping : (Constrained.capped 3 u).Capping 3 u :=
      Constrained.capping_capped (by norm_num) hu
    Box.courseCalls_of_optimalCalls
      ((together_capped 3 u).admits_solve hcapping.toCoupled hcapping.single)
  have hbox : ∀ u, (Box.interface ℝ 2).Reachable (Box.courseCalls False) (Box.capped 3 u) :=
    Box.reachable_capped (fun _ _ => trivial) 3
  have hbox1 := (hbox 1).of_call (hcapped 1 (by norm_num)) hb.solve
  obtain ⟨hallows', hnext'⟩ := (warm_start_minimises 2 0).2 (b1.setCap (1 / 2))
    (.call _ hbox1 trivial) (hb.together.strictlyConvex hb.capping.strictlyConvex).definite Unit
      Observer.silent () 1 (Box.courseCalls_of_optimalCalls
        (hb.together.admits_resume hb.capping.toCoupled hb.lone)) 1 b2 hb.resume
  obtain ⟨hwithin', hsame'⟩ := hnext' (hb.together.faithful hb.lone.faithful)
    (hb.together'.held hb.ends.heldFinite)
  have hpinned : (Constrained.capped 3 (1 / 2)).Pinned :=
    (Constrained.capping_capped (by norm_num) (by norm_num [abs_le])).single.pinned
  have hx' := hsame' c ⟨hbox (1 / 2), ⟨hb.posesAlike, (together_capped 3 (1 / 2)).pinned hpinned⟩,
    hcapped (1 / 2) (by norm_num [abs_le]), hb.cold⟩
  have hheld : b2.bounds.activity 0 = .upper := by
    rw [← hb.together'.matched.agrees.bounds]
    exact hb.held
  exact ⟨s1, s2, t, b1, b2, c, h.solve, h.resume, h.held, hallows, hwithin, h.cold, hx, hb.solve,
    hb.resume, hheld, hallows', hwithin', hb.cold, hx'⟩

/-- Half the square, solved without limits and then with a lower limit of one, is solved again without it:
the point is zero, outside the loaded limits. -/
theorem warm_start_overlooks :
    (Constrained.interface ℝ 1 1).Reachable (Constrained.courseCalls False) Constrained.tightened ∧
      Constrained.tightened.status = .solved ∧ Constrained.tightened.StrictlyConvex ∧
        Constrained.courseCalls False (.resume Observer.silent () 1) Constrained.tightened ∧
          (∃ x, Constrained.tightened.Within x) ∧
            ∃ s', (Constrained.interface ℝ 1 1).call (.resume Observer.silent () 1)
                Constrained.tightened = (.ok 1, s') ∧ s'.x 0 = 0 ∧
              ¬Constrained.tightened.Minimises Constrained.tightened.Within s'.x := by
  have h := Constrained.reloaded_tightened
  obtain ⟨s', hcall⟩ := h.call_resume
    (Constrained.checkLimits_of_ordered Constrained.ordered_tightened)
  -- the limit that was infinite is not looked at, so the point stays where it was
  have hx : s'.x = Tuple.fill 1 0 := by
    by_contra hne
    have hless := (h.minimises hcall).least (Tuple.fill 1 0) (h.allows _) (Ne.symm hne)
    rw [Constrained.objective_tightened, Constrained.objective_tightened,
      Tuple.fill_apply Nat.zero_lt_one] at hless
    linarith [mul_self_nonneg (s'.x 0)]
  have hzero : s'.x 0 = 0 := by
    rw [hx]
    exact Tuple.fill_apply Nat.zero_lt_one
  refine ⟨h.reachable, h.status, h.strictlyConvex, h.admits 1,
    -- it is below that limit now
    ⟨Tuple.fill 1 1, Constrained.within_tightened⟩, s', hcall, hzero, fun hmin => ?_⟩
  have hlower := hmin.mem.lower_le 0 (Constrained.finite_tightened)
  rw [show ((0 : Fin 1) : ℕ) = 0 from rfl, Constrained.lower_tightened, hzero] at hlower
  linarith

end ActiveSet
