import ActiveSet.Proofs.Solver.Constrained.Aims
import ActiveSet.Proofs.Solver.Constrained.Changing

/-!
# Solutions in the course of a session

The solution of an auxiliary problem is one by construction. A step leads from a solution to a
solution, and a change of the working set keeps it, so between the steps of a homotopy there is
always a solution of the current problem, and at its end one of the loaded problem. Where a homotopy
stops for want of a feasible point there is none (`respects_optimal`).

The phases carry a predicate of what has been loaded along, so that what holds at the end of a call
speaks of the problem that was loaded before it.

That nothing is feasible takes more than that there is a solution on the way: the limits of an equality
have to be equal, and the loaded limits have to be of the types that the entities were found to have.
The phases and the calls they are for are therefore stated with this proviso (`courseCalls strict`) and
without it; `optimalCalls` are the calls with it.
-/

namespace ActiveSet.Constrained

open Finset

variable {n m : ℕ} {s s' : Constrained ℝ n m} {guess : Guess ℝ n m} {strict : Prop}

-- ---------------------------------------------------------------------------
-- The start of a homotopy
-- ---------------------------------------------------------------------------

/-- Every comparison with zero is exact, and no auxiliary limit is on the wrong side. -/
structure Exact (s : Constrained ℝ n m) : Prop where
  epsZero_eq : s.parameters.epsZero = 0
  epsDependent_eq : s.parameters.epsDependent = 0
  epsDefinite_nonneg : 0 ≤ s.parameters.epsDefinite
  relaxation_nonneg : 0 ≤ s.parameters.relaxation

/-- Loaded limits that make an equality are equal. -/
def EqualLimits (s : Constrained ℝ n m) : Prop :=
  ∀ e, EntitySet.typeOfLimits (s.target.lowerOf e) (s.target.upperOf e) s.parameters.epsBound
    s.parameters.infinity = .equality → s.target.lowerOf e = s.target.upperOf e

theorem Exact.tolerant (h : s.Exact) : s.Tolerant :=
  ⟨h.epsDefinite_nonneg, h.epsDependent_eq.ge⟩

/-- A homotopy starts at the solution of the auxiliary problem. -/
theorem SetUp.underway (h : s.SetUp guess s') (hdeclared : s.Declared) (hexact : s.Exact)
    (hequal : strict → s.EqualLimits) (hs' : s'.InStep) : s'.Underway strict := by
  have hdata := h.sameData
  obtain ⟨hfactored, hsymm, htol⟩ := h.factored hdeclared hexact.tolerant
  obtain ⟨hoptimal, htyped⟩ := h.optimal hdeclared.symmetric hexact.relaxation_nonneg
  refine ⟨⟨⟨hs', hfactored, hsymm⟩, htol⟩, hoptimal, fun e => ?_, fun hstrict e htype => ?_,
    fun _ => htyped, ?_, ?_⟩
  · rw [hdata.target]
    exact h.ordered e
  · rw [(htyped e).1, hdata.target, hdata.parameters] at htype
    rw [hdata.target]
    exact hequal hstrict e htype
  · rw [hdata.parameters]
    exact hexact.epsZero_eq
  · rw [hdata.parameters]
    exact hexact.epsDependent_eq

/-- Limits that pass their check do not cross. -/
theorem ordered_of_checkLimits (h : s.checkLimits = .ok ()) (e : Entity n m) :
    s.target.lowerOf e ≤ s.target.upperOf e := by
  obtain ⟨hbounds, hrows⟩ := checkLimits_eq_ok_iff.1 h
  cases e with
  | bound i => exact not_lt.1 (Core.not_crosses_iff.1 hbounds i)
  | constraint i => exact not_lt.1 (Core.not_crosses_iff.1 hrows i)

/-- Limits that do not cross pass their check. -/
theorem checkLimits_of_ordered (h : ∀ e, s.target.lowerOf e ≤ s.target.upperOf e) :
    s.checkLimits = .ok () :=
  checkLimits_eq_ok_iff.2 ⟨Core.not_crosses_iff.2 fun i => not_lt.2 (h (.bound i)),
    Core.not_crosses_iff.2 fun i => not_lt.2 (h (.constraint i))⟩

/-- A homotopy can start again at the solution of a problem. -/
theorem Ready.underway (h : s.Ready) (hoptimal : s.Optimal) (hexact : s.Exact)
    (htyped : strict → s.EqualLimits ∧ s.Typed) (hlimits : s.checkLimits = .ok ()) :
    s.Underway strict := by
  refine ⟨⟨h, hexact.tolerant⟩, hoptimal, ordered_of_checkLimits hlimits, fun hstrict e htype => ?_,
    fun hstrict => (htyped hstrict).2, hexact.epsZero_eq, hexact.epsDependent_eq⟩
  obtain ⟨hequal, htyped⟩ := htyped hstrict
  rw [(htyped e).1] at htype
  exact hequal e htype

-- ---------------------------------------------------------------------------
-- A step
-- ---------------------------------------------------------------------------

theorem SameButDirection.underway (h : s.SameButDirection s') (hs : s.Underway strict) :
    s'.Underway strict := by
  have hmoving := h.moving hs.toMoving
  obtain ⟨dx, dy, tilt, dax, rfl⟩ := h
  exact Kept.underway (s := s) (kept_of_sets ⟨rfl, rfl, rfl, rfl, rfl⟩ rfl rfl rfl rfl rfl) hs hmoving
    (hs.optimal.congr rfl rfl rfl rfl rfl rfl rfl rfl)

theorem Underway.withVerdict (hs : s.Underway strict) (status : Status)
    (infeasible unbounded : Bool) : Underway { s with status, infeasible, unbounded } strict := by
  have hmoving : Moving { s with status, infeasible, unbounded } :=
    ⟨hs.toReady.congr rfl rfl rfl rfl rfl rfl rfl rfl, hs.tolerant.congr rfl⟩
  exact Kept.underway (s := s) (kept_of_sets ⟨rfl, rfl, rfl, rfl, rfl⟩ rfl rfl rfl rfl rfl) hs hmoving
    (hs.optimal.congr rfl rfl rfl rfl rfl rfl rfl rfl)

/-- A step ends at a solution on the way, where its event has been reached. -/
theorem Underway.perform (hs : s.Underway strict) (hf : s.Follows) :
    (s.perform s.stepLength.1 s.stepLength.2).Underway strict ∧
      s.SameData (s.perform s.stepLength.1 s.stepLength.2) ∧
      (s.perform s.stepLength.1 s.stepLength.2).Reached s.stepLength.2 := by
  obtain ⟨h0, h1, hpassable, htakes⟩ := stepLength_spec hs.optimal hf hs.epsZero_eq
  generalize s.stepLength.1 = tau at *
  generalize s.stepLength.2 = event at *
  have hadvanced := htakes.advanced
  have hoptimal := hadvanced.optimal hs.optimal hf hs.ordered h0 h1 hpassable
  have hvalue := hadvanced.valueOf_eq
  have hlimit := hadvanced.limit_eq
  have hy := hadvanced.y_eq
  -- the whole way leads to the aim of the direction
  have haims := hf.aims hs.optimal
  have hfull : event = .full → (s.perform tau event).current = s.target := by
    rintro rfl
    rfl
  obtain ⟨x, y, current, ax, hperform⟩ := hadvanced.frame
  rw [hperform] at hoptimal hvalue hlimit hy hfull ⊢
  refine ⟨⟨⟨hs.toReady.congr rfl rfl rfl rfl rfl rfl rfl rfl, hs.tolerant.congr rfl⟩, hoptimal,
    hs.ordered, hs.equal, hs.typed, hs.epsZero_eq, hs.epsDependent_eq⟩,
    ⟨rfl, rfl, rfl, rfl, rfl⟩, ?_⟩
  cases htakes with
  | full htau => exact hfull rfl
  | @lower e hreached hpasses =>
    refine ⟨?_, fun j => s.x j + s.dx j, haims.on_limit, fun _ => ?_, nofun⟩
    · rw [hvalue e, hreached]
      exact (hlimit .lower e).symm
    · exact (s.valueOf_add s.x s.dx e).trans_lt (hpasses.trans_eq (s.limitOf_add_shift .lower e))
  | @upper e hreached hpasses =>
    refine ⟨?_, fun j => s.x j + s.dx j, haims.on_limit, nofun, fun _ => ?_⟩
    · rw [hvalue e, hreached]
      exact (hlimit .upper e).symm
    · exact ((s.limitOf_add_shift .upper e).symm.trans_lt hpasses).trans_eq
        (s.valueOf_add s.x s.dx e).symm
  | @remove e hzero hpasses =>
    exact ⟨(hy e).trans hzero, fun j => s.x j + s.dx j, fun a => s.y.get a + s.dy.get a,
      haims.on_limit, haims.balanced, haims.inactive, hpasses⟩

/-- A change of the working set that fails for want of a feasible point is right: there is none, and
the solution on the way is still there. -/
theorem ChangeFailed.infeasible {event : StepEvent n m} {error : QpError}
    (h : s.ChangeFailed event error s') (hs : s.Underway strict) (hfits : s.Fits event)
    (hreached : s.Reached event) : error ∈ refusals ∧ s'.InOrder ∨
      error.IsInfeasibility ∧ s.SameData s' ∧ s'.Underway strict ∧ s'.status = s.status ∧
        (strict → ∀ x, ¬s'.Feasible x) := by
  cases h with
  | refused herror horder => exact .inl ⟨herror, horder⟩
  | stuck hreordered hw hind hstuck =>
    -- no entity could leave, which proves the loaded problem infeasible
    have hs1 := hreordered.underway hs
    obtain ⟨-, hpasses⟩ := hreordered.reached hreached
    have hdata := hstuck.dependent.sameData
    refine .inr ⟨isInfeasibility_addFailed _, hreordered.sameData.trans hdata,
      hstuck.dependent.underway hs1, hstuck.status_eq.trans hreordered.status_eq,
      fun hstrict x hx => ?_⟩
    exact hstuck.infeasible hs1.inStep hs1.factored.split hw hs1.epsDependent_eq hind
      (hreordered.canEnter hfits) (hs1.equal hstrict) hpasses x ((hdata.feasible_iff x).1 hx)
  | dependent hreordered hw hind hswapped hind' =>
    -- after an exchange the row is independent, so the second test does not fail
    have hs1 := hreordered.underway hs
    have hindependent := hswapped.independent hs1.toMoving hs1.epsZero_eq hs1.epsDependent_eq
      hw hind (hreordered.canEnter hfits)
    rw [hind'] at hindependent
    cases hindependent

-- ---------------------------------------------------------------------------
-- Sessions
-- ---------------------------------------------------------------------------

/-- Solutions in the course of a session, while a predicate holds of what has been loaded. -/
def optimalPhases (strict : Prop) (p : Constrained ℝ n m → Prop) :
    Phases n m (Constrained ℝ n m) where
  rest := InOrder
  ready s := s.Ready ∧ s.Optimal
  moving s := s.Underway strict ∧ p s
  directed s := (s.Underway strict ∧ s.Follows) ∧ p s
  stepped event s := (s.Underway strict ∧ s.Fits event ∧ s.Reached event) ∧ p s
  arrived s := (s.Underway strict ∧ s.current = s.target) ∧ p s
  blocked s := (strict → ∀ x, ¬s.Feasible x) ∧ p s
  refusal e := e ∈ refusals

/-- Every homotopy starts with exact comparisons, with a matrix of the objective that is symmetric and
what it is declared to be, and with equalities that have one limit. One that does not start from
scratch starts with limits of the types of the last auxiliary problem. -/
def optimalCalls : Call ℝ n m (Loading ℝ) → Constrained ℝ n m → Prop
  | .solve .., s => s.Declared ∧ s.Exact ∧ s.EqualLimits
  | .resume .., s => s.status.isStart = true → s.Exact ∧ s.EqualLimits ∧ s.Typed
  | .load _, _ | .reset, _ => True

/-- Every homotopy starts with exact comparisons, and one from scratch with a matrix of the objective
that is symmetric and what it is declared to be. If `strict` holds, equalities have one limit, and a
homotopy that does not start from scratch starts with limits of the types of the last auxiliary
problem. -/
def courseCalls (strict : Prop) : Call ℝ n m (Loading ℝ) → Constrained ℝ n m → Prop
  | .solve .., s => s.Declared ∧ s.Exact ∧ (strict → s.EqualLimits)
  | .resume .., s => s.status.isStart = true → s.Exact ∧ (strict → s.EqualLimits ∧ s.Typed)
  | .load _, _ | .reset, _ => True

theorem courseCalls_of_optimalCalls {c : Call ℝ n m (Loading ℝ)} (h : optimalCalls c s) :
    courseCalls strict c s := by
  cases c with
  | load d => trivial
  | solve obs view budget xGuess yGuess => exact ⟨h.1, h.2.1, fun _ => h.2.2⟩
  | resume obs view budget => exact fun hstart => ⟨(h hstart).1, fun _ => (h hstart).2⟩
  | reset => trivial

theorem respects_course_method {p : Constrained ℝ n m → Prop} (hp : OfData p) :
    (Constrained.method : Method ℝ n m (Constrained ℝ n m)).Respects (optimalPhases strict p) where
  core_withCore _ _ := rfl
  rest_ignores _ _ _ _ h := h.congr rfl rfl
  ready_ignores _ _ _ _ h := ⟨h.1.congr rfl rfl rfl rfl rfl rfl rfl rfl,
    h.2.congr rfl rfl rfl rfl rfl rfl rfl rfl⟩
  moving_ignores _ _ _ _ h := ⟨h.1.withVerdict _ _ _, hp _ _ h.2 ⟨rfl, rfl, rfl, rfl, rfl⟩⟩
  arrived_ignores _ _ _ _ h :=
    ⟨⟨h.1.1.withVerdict _ _ _, h.1.2⟩, hp _ _ h.2 ⟨rfl, rfl, rfl, rfl, rfl⟩⟩
  blocked_ignores _ _ _ _ h := ⟨h.1, hp _ _ h.2 ⟨rfl, rfl, rfl, rfl, rfl⟩⟩
  rest_of_ready _ h := h.1.inStep.toInOrder
  ready_of_moving _ h := ⟨h.1.toReady, h.1.optimal⟩
  moving_of_arrived _ h := ⟨h.1.1, h.2⟩
  direction s hs := by
    obtain ⟨hs, hps⟩ := hs
    refine (determineDirection_ensures hs.inStep).mono ?_ ?_
    · rintro ⟨⟩ s' hdirected
      have hfollows := hdirected.follows hs.inStep hs.factored hs.symmetric
      have hunderway := hdirected.same.underway hs
      obtain ⟨dx, dy, tilt, dax, rfl⟩ := hdirected.same
      exact ⟨⟨⟨hunderway, hfollows⟩, hp _ _ hps ⟨rfl, rfl, rfl, rfl, rfl⟩⟩, rfl⟩
    · rintro f s' ⟨hf, hsame, -⟩
      have hunderway := hsame.underway hs
      obtain ⟨dx, dy, tilt, dax, rfl⟩ := hsame
      exact ⟨hf, hunderway, hp _ _ hps ⟨rfl, rfl, rfl, rfl, rfl⟩⟩
  full s hs hfull := by
    obtain ⟨⟨hs, hf⟩, hps⟩ := hs
    have hfull : s.stepLength.2 = .full := hfull
    obtain ⟨hunderway, hdata, hreached⟩ := hs.perform hf
    rw [hfull] at hunderway hdata hreached
    refine ⟨?_, ⟨hunderway, hreached⟩, hp _ _ hps hdata⟩
    rw [show (method.stepLength s).1 = 1 from stepLength_eq_one hfull]
    simp
  stop s hs hstop := by
    obtain ⟨⟨hs, hf⟩, hps⟩ := hs
    obtain ⟨hunderway, hdata, hreached⟩ := hs.perform hf
    exact ⟨⟨hunderway, s.fits_perform, hreached⟩, hp _ _ hps hdata⟩
  status_perform := status_perform
  change event s hevent hs hstatus := by
    obtain ⟨⟨hs, hfits, hreached⟩, hps⟩ := hs
    refine (changeWorkingSet_ensures hs.inStep hevent hfits).mono ?_ ?_
    · rintro ⟨⟩ s' ⟨hchanged, hs'⟩
      obtain ⟨hdata, hunderway⟩ := hchanged.underway hs hs' hfits hreached
      exact ⟨hunderway, hp _ _ hps hdata⟩
    · rintro f s' ⟨error, rfl, hfailed⟩
      refine ⟨error, rfl, ?_⟩
      -- refusals say nothing about the problem; being stuck does
      obtain ⟨herror, horder⟩ | ⟨hinf, hdata, hs', hstatus', hnone⟩ :=
        hfailed.infeasible hs hfits hreached
      · obtain ⟨hinf, hne⟩ := not_isInfeasibility_of_mem_refusals herror
        exact ⟨horder, .inr ⟨hinf, hne, herror⟩⟩
      · exact ⟨hs'.inStep.toInOrder, .inl ⟨hinf, ⟨hnone, hp _ _ hps hdata⟩,
          .inr ⟨hstatus'.trans hstatus, hs'.toReady, hs'.optimal⟩⟩⟩

/-- A solve from scratch starts its homotopy at a solution. -/
theorem prepare_underway {p : Constrained ℝ n m → Prop} (hp : OfData p) (hs : s.InOrder)
    (hadmits : s.Declared ∧ s.Exact ∧ (strict → s.EqualLimits)) (hps : p s) :
    (prepare guess).Ensures s.reset
      (fun _ s' => (s'.Underway strict ∧ p s') ∧ s'.status = .auxiliarySolved)
      fun f s' => (∃ e, f = .failed e) ∧ s'.InOrder := by
  obtain ⟨hdeclared, hexact, hequal⟩ := hadmits
  refine (prepare_reset_ensures hs).mono ?_ fun _ _ h => ⟨h.1.imp fun _ h => h.1, h.2⟩
  rintro ⟨⟩ s' ⟨hsetup, hs', hstatus⟩
  have hunderway := hsetup.underway hdeclared.reset ⟨hexact.epsZero_eq, hexact.epsDependent_eq,
    hexact.epsDefinite_nonneg, hexact.relaxation_nonneg⟩ hequal hs'
  have hdata := s.sameData_reset.trans hsetup.sameData
  exact ⟨⟨hunderway, hp _ _ hps hdata⟩, hstatus⟩

theorem respects_course {p : Constrained ℝ n m → Prop} (hp : OfData p) :
    (Constrained.interface ℝ n m).Respects (optimalPhases strict p)
      fun c s => courseCalls strict c s ∧ p s where
  method := respects_course_method hp
  fresh := inOrder_fresh n m
  status_fresh := rfl
  rest_load _ _ _ := Loading.inOrder
  ready_load d s s' h := by
    obtain ⟨_, _, _, _, _, rfl⟩ | ⟨_, _, rfl⟩ := Loading.apply_cases h
    · exact .inl rfl
    · exact .inr ⟨rfl, fun hs => ⟨hs.1.congr rfl rfl rfl rfl rfl rfl rfl rfl,
        hs.2.congr rfl rfl rfl rfl rfl rfl rfl rfl⟩⟩
  reset s hs := hs.reset
  status_reset _ := rfl
  prepare obs view budget xGuess yGuess s guess hadmits hs _ :=
    prepare_underway hp hs hadmits.1 hadmits.2
  resume obs view budget s hadmits hstart hs hlimits := by
    obtain ⟨hexact, htyped⟩ := hadmits.1 hstart
    exact ⟨hs.1.underway hs.2 hexact htyped hlimits, hadmits.2⟩

theorem respects_optimal {p : Constrained ℝ n m → Prop} (hp : OfData p) :
    (Constrained.interface ℝ n m).Respects (optimalPhases True p)
      fun c s => optimalCalls c s ∧ p s :=
  have hI : (Constrained.interface ℝ n m).Respects (optimalPhases True p)
      fun c s => courseCalls True c s ∧ p s := respects_course hp
  { hI with
    prepare := fun obs view budget xGuess yGuess s guess hadmits =>
      hI.prepare obs view budget xGuess yGuess s guess
        ⟨courseCalls_of_optimalCalls hadmits.1, hadmits.2⟩
    resume := fun obs view budget s hadmits =>
      hI.resume obs view budget s ⟨courseCalls_of_optimalCalls hadmits.1, hadmits.2⟩ }

/-- Between all calls there is a solution of the current problem while a homotopy could start. -/
theorem settled_course (hs : (Constrained.interface ℝ n m).Reachable (courseCalls strict) s) :
    s.InOrder ∧ (s.status = .notInitialised ∨ s.status.isStart = true ∧ s.Ready ∧ s.Optimal) := by
  have hI : (Constrained.interface ℝ n m).Respects (optimalPhases strict fun _ => True)
      fun c s => courseCalls strict c s ∧ True := respects_course fun _ _ _ _ => trivial
  induction hs with
  | fresh => exact ⟨inOrder_fresh n m, .inl rfl⟩
  | call c _ hc ih => exact hI.settled_call c ih ⟨hc, trivial⟩

theorem settled_optimal (hs : (Constrained.interface ℝ n m).Reachable optimalCalls s) :
    s.InOrder ∧ (s.status = .notInitialised ∨ s.status.isStart = true ∧ s.Ready ∧ s.Optimal) := by
  have hI := respects_optimal (n := n) (m := m) (p := fun _ => True) fun _ _ _ _ => trivial
  induction hs with
  | fresh => exact ⟨inOrder_fresh n m, .inl rfl⟩
  | call c _ hc ih => exact hI.settled_call c ih ⟨hc, trivial⟩

end ActiveSet.Constrained
