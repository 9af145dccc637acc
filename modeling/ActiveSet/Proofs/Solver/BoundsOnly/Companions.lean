import ActiveSet.Proofs.Solver.BoundsOnly.Agreement
import ActiveSet.Proofs.Solver.Constrained.OptimalSession

/-!
# Companions

What is known of a solver with constraints is known of a solver for bounds as well: every state that the
one reaches, with exact comparisons, has a companion among the states of the other (`exists_companion`),
and the same call leads companions to companions (`Companion.call`).

* `Box.courseCalls`, `Box.optimalCalls`: the calls for which this is so.
* `Box.Companion`: a solver with constraints that agrees with a solver for bounds, and has got there by
  calls that are admitted for it.
-/

namespace ActiveSet.Box

variable {n : ℕ} {s s' : Box ℝ n} {t : Constrained ℝ n 0} {strict : Prop}

-- ---------------------------------------------------------------------------
-- Admitted calls
-- ---------------------------------------------------------------------------

/-- Every comparison with zero is exact, and no auxiliary limit is on the wrong side. -/
structure Exact (s : Box ℝ n) : Prop where
  epsZero_eq : s.parameters.epsZero = 0
  epsDefinite_nonneg : 0 ≤ s.parameters.epsDefinite
  relaxation_nonneg : 0 ≤ s.parameters.relaxation

/-- The type of the loaded limits of a bound. -/
noncomputable def loadedType (s : Box ℝ n) (i : Fin n) : LimitType :=
  EntitySet.typeOfLimits (s.target.lower i) (s.target.upper i) s.parameters.epsBound
    s.parameters.infinity

/-- Loaded limits that make an equality are equal. -/
def EqualLimits (s : Box ℝ n) : Prop :=
  ∀ i, s.loadedType i = .equality → s.target.lower i = s.target.upper i

/-- Types and finite sides of all bounds are those of the loaded limits. -/
def Typed (s : Box ℝ n) : Prop :=
  ∀ i : Fin n, s.bounds.limitType i = s.loadedType i ∧
    (s.bounds.hasSide i .lower = true ↔ -s.parameters.infinity < s.target.lower i) ∧
    (s.bounds.hasSide i .upper = true ↔ s.target.upper i < s.parameters.infinity)

/-- Every homotopy starts with exact comparisons, with a matrix of the objective that is symmetric and
what it is declared to be, and with equalities that have one limit. One that does not start from
scratch starts with limits of the types of the last auxiliary problem. -/
def optimalCalls : Call ℝ n 0 (Core.Loading ℝ) → Box ℝ n → Prop
  | .solve .., s => Declared s ∧ Exact s ∧ EqualLimits s
  | .resume .., s => Exact s ∧ (s.status.isStart = true → EqualLimits s ∧ Typed s)
  | .load _, _ | .reset, _ => True

/-- Every homotopy starts with exact comparisons, and one from scratch with a matrix of the objective
that is symmetric and what it is declared to be. If `strict` holds, equalities have one limit, and a
homotopy that does not start from scratch starts with limits of the types of the last auxiliary
problem. -/
def courseCalls (strict : Prop) : Call ℝ n 0 (Core.Loading ℝ) → Box ℝ n → Prop
  | .solve .., s => Declared s ∧ Exact s ∧ (strict → EqualLimits s)
  | .resume .., s => Exact s ∧ (strict → s.status.isStart = true → EqualLimits s ∧ Typed s)
  | .load _, _ | .reset, _ => True

theorem courseCalls_of_optimalCalls {c : Call ℝ n 0 (Core.Loading ℝ)} (h : optimalCalls c s) :
    courseCalls strict c s := by
  cases c with
  | load d => trivial
  | solve obs view budget xGuess yGuess => exact ⟨h.1, h.2.1, fun _ => h.2.2⟩
  | resume obs view budget => exact ⟨h.1, fun _ => h.2⟩
  | reset => trivial

theorem exactCalls_of_courseCalls {c : Call ℝ n 0 (Core.Loading ℝ)} (h : courseCalls strict c s) :
    exactCalls c s := by
  cases c with
  | load d => trivial
  | solve obs view budget xGuess yGuess => exact ⟨h.1, h.2.1.epsDefinite_nonneg⟩
  | resume obs view budget => exact h.1.epsDefinite_nonneg
  | reset => trivial

-- ---------------------------------------------------------------------------
-- Companions
-- ---------------------------------------------------------------------------

/-- The tolerance for dependence of the companions is zero. -/
def noTolerance : ℝ → ℝ := fun _ => 0

/-- What is loaded into a solver for bounds is loaded into its companion, but for the tolerance for
dependence. -/
def loadCompanion (d : Core.Loading ℝ) : Constrained.Loading ℝ :=
  .core (d.mapDependent noTolerance)

/-- A solver with constraints, of which it has none, that agrees with a solver for bounds and holds an
exact solution whenever a homotopy can start. -/
structure Companion (strict : Prop) (s : Box ℝ n) (t : Constrained ℝ n 0) : Prop where
  matched : Matched noTolerance s t
  reachable : (Constrained.interface ℝ n 0).Reachable (Constrained.courseCalls strict) t

theorem Exact.fit (h : s.Exact) : (s.parameters.mapDependent noTolerance).Fit :=
  ⟨h.epsZero_eq, h.epsDefinite_nonneg, le_rfl, zero_lt_one⟩

theorem admits_of_courseCalls {c : Call ℝ n 0 (Core.Loading ℝ)} (h : courseCalls strict c s) :
    Box.admits (fun p => (p.mapDependent noTolerance).Fit) c s := by
  cases c with
  | load d => trivial
  | solve obs view budget xGuess yGuess => exact ⟨h.1, h.2.1.fit⟩
  | resume obs view budget => exact h.1.fit
  | reset => trivial

theorem Exact.companion (h : s.Exact) (hst : s.Agrees noTolerance t.toCore) : t.Exact := by
  obtain ⟨c⟩ := t
  cases hst
  exact ⟨h.epsZero_eq, rfl, h.epsDefinite_nonneg, h.relaxation_nonneg⟩

theorem EqualLimits.companion (h : s.EqualLimits) (hst : s.Agrees noTolerance t.toCore) :
    t.EqualLimits := by
  obtain ⟨c⟩ := t
  cases hst
  intro e
  cases e with
  | bound i => exact h i
  | constraint i => exact i.elim0

theorem Typed.companion (h : s.Typed) (hst : s.Agrees noTolerance t.toCore) : t.Typed := by
  obtain ⟨c⟩ := t
  cases hst
  intro e
  cases e with
  | bound i => exact h i
  | constraint i => exact i.elim0

/-- What is admitted for a solver is admitted for its companion. -/
theorem Companion.courseCalls (h : Companion strict s t) {c : Call ℝ n 0 (Core.Loading ℝ)}
    (hc : courseCalls strict c s) :
    Constrained.courseCalls strict (c.mapLoad loadCompanion) t := by
  have hst := h.matched.agrees
  cases c with
  | load d => trivial
  | solve obs view budget xGuess yGuess =>
    obtain ⟨hdeclared, hexact, hequal⟩ := hc
    exact ⟨hst.declared hdeclared, hexact.companion hst, fun h => (hequal h).companion hst⟩
  | resume obs view budget =>
    intro hstart
    rw [hst.status] at hstart
    refine ⟨hc.1.companion hst, fun hstrict => ?_⟩
    obtain ⟨hequal, htyped⟩ := hc.2 hstrict hstart
    exact ⟨hequal.companion hst, htyped.companion hst⟩
  | reset => trivial

/-- The same call leads companions to companions, and has the same result for both. -/
theorem Companion.call (h : Companion strict s t) (c : Call ℝ n 0 (Core.Loading ℝ))
    (hc : Box.courseCalls strict c s) :
    ((Constrained.interface ℝ n 0).call (c.mapLoad loadCompanion) t).1 =
        ((Box.interface ℝ n).call c s).1 ∧
      Companion strict ((Box.interface ℝ n).call c s).2
        ((Constrained.interface ℝ n 0).call (c.mapLoad loadCompanion) t).2 := by
  obtain ⟨hresult, -, hmatched⟩ := h.matched.call (fun _ => rfl) c (admits_of_courseCalls hc)
  exact ⟨hresult, hmatched, .call _ h.reachable (h.courseCalls hc)⟩

/-- A call that ends for a solver ends with the same result for its companion. -/
theorem Companion.exists_call (h : Companion strict s t) {c : Call ℝ n 0 (Core.Loading ℝ)}
    (hc : Box.courseCalls strict c s) {r : Except Fault ℕ}
    (hcall : (Box.interface ℝ n).call c s = (r, s')) :
    ∃ t', (Constrained.interface ℝ n 0).call (c.mapLoad loadCompanion) t = (r, t') ∧
      Companion strict s' t' := by
  obtain ⟨hresult, h'⟩ := h.call c hc
  rw [hcall] at hresult h'
  exact ⟨_, Prod.ext hresult rfl, h'⟩

/-- A solver with constraints that has only been told to have no tolerance for dependence. -/
theorem companion_fresh : ∃ t, Companion strict (Box.fresh n) t := by
  have hparameters : (Constrained.interface ℝ n 0).Reachable (Constrained.courseCalls strict) _ :=
    .call (.load (.core (.parameters ((Parameters.default ℝ).mapDependent noTolerance)))) .fresh
      trivial
  refine ⟨_, ⟨.intro _ _ _ _ _, ?_, ?_⟩, hparameters⟩
  · exact ⟨(Box.respects_for fun _ h => h.definite).fresh, .inl rfl⟩
  · exact Constrained.respects_for.settled_call _ ⟨Constrained.respects_for.fresh, .inl rfl⟩ trivial

theorem exists_companion (hs : (Box.interface ℝ n).Reachable (courseCalls strict) s) :
    ∃ t, Companion strict s t := by
  induction hs with
  | fresh => exact companion_fresh
  | call c _ hc ih =>
    obtain ⟨t, ht⟩ := ih
    exact ⟨_, (ht.call c hc).2⟩

end ActiveSet.Box
