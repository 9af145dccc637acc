import ActiveSet.Proofs.SignedZeros
import ActiveSet.Proofs.Solver.Box.Remains
import ActiveSet.Proofs.Solver.Constrained.FreshStart

/-!
# How much a solve from scratch forgets

A solver that has solved other problems before is to solve the loaded one as a new solver would. What is
left in its vectors is multiplied by zero on the way, in a reset or as a summand of a sum. That forgets
every number whose product with zero is zero. It does not forget an infinity or what is not a number:
after a solve that overflowed, a reset leaves a point that is not a number, and the next solve from
scratch returns one (`overflow_remembered`).

Nothing else is remembered. Over double precision, the product of a negative number with zero is the
negative zero, and so what is left may still decide the sign of a zero. But as long as it is finite, a solve
from scratch has the result of a new solver, shows the same records, and leaves a solver that looks the
same up to the sign of zeros (`solve_forgets`). The tolerances must not be negative for that: a solver
divides by what exceeds them. In an arithmetic in which all products with zero are zero, everything is
forgotten without exception (`solve_forgets_exactly`).
-/

namespace ActiveSet

open Scalar

variable {K : Type} [Scalar K] {n m : Nat} {r : K → K → Prop}

/-! ## What can be seen -/

/-- What a solver shows of itself between two calls. -/
structure Appearance (K : Type) (n m : Nat) where
  /-- The point. -/
  x : Tuple K n
  /-- The multipliers. -/
  y : Dual K n m
  /-- The value of the objective. -/
  objective : K
  /-- The largest violation of an optimality condition. -/
  violation : K
  /-- Whether the solution is accurate enough. -/
  accuracy : Except QpError Unit
  /-- How far the solver has come. -/
  status : Status
  /-- The verdict that there is no feasible point. -/
  infeasible : Bool
  /-- The verdict that the objective has no lower bound. -/
  unbounded : Bool
  /-- The limit types and activities of the bounds, and the order of their partition. -/
  bounds : EntitySet .bound n
  /-- The limit types and activities of the constraints, and the order of their partition. -/
  constraints : EntitySet .constraint m
  /-- The dimension of the null space of the working set. -/
  nNull : Nat

/-- Two solvers look the same, up to related numbers. -/
structure Appearance.Alike (r : K → K → Prop) (a b : Appearance K n m) : Prop where
  x : a.x.Alike r b.x
  y : a.y.Alike r b.y
  objective : r a.objective b.objective
  violation : r a.violation b.violation
  accuracy : b.accuracy = a.accuracy
  status : b.status = a.status
  infeasible : b.infeasible = a.infeasible
  unbounded : b.unbounded = a.unbounded
  bounds : b.bounds = a.bounds
  constraints : b.constraints = a.constraints
  nNull : b.nNull = a.nNull

/-- What a solver for bounds shows. Without constraints the null space is that of the free variables. -/
def Box.appearance (s : Box K n) : Appearance K n 0 where
  x := s.x
  y := s.y
  objective := s.objective
  violation := s.violation
  accuracy := s.checkOptimality
  status := s.status
  infeasible := s.infeasible
  unbounded := s.unbounded
  bounds := s.bounds
  constraints := (Constrained.fresh n 0 : Constrained K n 0).constraints
  nNull := s.free.length

/-- What a solver for bounds and constraints shows. -/
def Constrained.appearance (s : Constrained K n m) : Appearance K n m where
  x := s.x
  y := s.y
  objective := s.objective
  violation := s.violation
  accuracy := s.checkOptimality
  status := s.status
  infeasible := s.infeasible
  unbounded := s.unbounded
  bounds := s.bounds
  constraints := s.constraints
  nNull := s.nNull

/-- A solve from scratch does the same in two states of a solver: whatever the guess, the budget and the
observer are, it has the same result, shows the same records, and leaves states that look the same up to
related numbers. A guess that is refused leaves both states as they are. -/
structure Interface.SolvesAlike {σ δ : Type} (I : Interface K n m σ δ) (appearance : σ → Appearance K n m)
    (r : K → K → Prop) (s t : σ) : Prop where
  result : ∀ {τ : Type} (obs : Observer K n m τ) (view : τ) (budget : Nat)
    (xGuess yGuess : Option (Array K)), (I.call (.solve obs view budget xGuess yGuess) t).1 =
      (I.call (.solve obs view budget xGuess yGuess) s).1
  records : ∀ {τ : Type} (obs : Observer K n m τ) (view : τ) (budget : Nat)
    (xGuess yGuess : Option (Array K)), I.records (.solve obs view budget xGuess yGuess) t =
      I.records (.solve obs view budget xGuess yGuess) s
  appearance : ∀ {τ : Type} (obs : Observer K n m τ) (view : τ) (budget : Nat)
    (xGuess yGuess : Option (Array K)) (guess : Guess K n m),
      Guess.ofArrays n m xGuess yGuess = .ok guess →
        (appearance (I.call (.solve obs view budget xGuess yGuess) s).2).Alike r
          (appearance (I.call (.solve obs view budget xGuess yGuess) t).2)
  refused : ∀ {τ : Type} (obs : Observer K n m τ) (view : τ) (budget : Nat)
    (xGuess yGuess : Option (Array K)) (e : QpError), Guess.ofArrays n m xGuess yGuess = .error e →
      I.call (.solve obs view budget xGuess yGuess) s = (.error (.failed e), s) ∧
        I.call (.solve obs view budget xGuess yGuess) t = (.error (.failed e), t)

/-- Solves do the same where steps do, if the auxiliary problems are set up alike. -/
theorem Interface.solvesAlike {σ δ : Type} {I : Interface K n m σ δ} {P : Phases n m σ}
    {R D A : σ → σ → Prop} {appearance : σ → Appearance K n m} {s t : σ}
    (h : I.method.Companions I.method P P R D) (hI : I.Respects P anyCall)
    (hRA : ∀ s t, R s t → A s t)
    (hA : ∀ s t status, A s t → A (I.method.withStatus status s) (I.method.withStatus status t))
    (happearance : ∀ s t, A s t → (appearance s).Alike r (appearance t)) (hs : P.rest s)
    (ht : P.rest t) (hprepare : I.PreparedAlike I R A s t) : I.SolvesAlike appearance r s t := by
  -- with guesses of the right sizes, both solvers are set up and take the same steps
  have hrun : ∀ {τ : Type} (obs : Observer K n m τ) (view : τ) (budget : Nat)
      (xGuess yGuess : Option (Array K)) (guess : Guess K n m),
      Guess.ofArrays n m xGuess yGuess = .ok guess →
        (I.method.solve obs budget xGuess yGuess).Alike (I.method.solve obs budget xGuess yGuess)
          (s, view) (t, view) (fun _ r q => A r.1 q.1 ∧ q.2 = r.2)
          fun _ r q => A r.1 q.1 ∧ q.2 = r.2 := by
    intro τ obs view budget xGuess yGuess guess hguess
    refine Interface.solve_alike h hI hI hRA hA obs view budget xGuess yGuess hs ht trivial trivial
      (fun e he => ?_) hprepare
    rw [hguess] at he
    cases he
  -- with guesses of wrong sizes, both are refused before they do anything
  constructor
  case result =>
    intro τ obs view budget xGuess yGuess
    cases hguess : Guess.ofArrays n m xGuess yGuess with
    | ok guess => exact (outcome_of_alike (hrun obs view budget _ _ guess hguess)).1
    | error e =>
      have hrefused := fun s => congrArg (fun r => (outcome r).1)
        (Method.solve_refused (M := I.method) hguess obs budget s view)
      exact (hrefused t).trans (hrefused s).symm
  case records =>
    intro τ obs view budget xGuess yGuess
    cases hguess : Guess.ofArrays n m xGuess yGuess with
    | ok guess =>
      exact congrArg Prod.snd
        (outcome_of_alike (hrun obs.logging (view, []) budget _ _ guess hguess)).2.1
    | error e =>
      have hrefused := fun s => congrArg (fun r => (viewed r).2)
        (Method.solve_refused (M := I.method) hguess obs.logging budget s (view, []))
      exact (hrefused t).trans (hrefused s).symm
  case appearance =>
    intro τ obs view budget xGuess yGuess guess hguess
    exact happearance _ _ (outcome_of_alike (hrun obs view budget _ _ guess hguess)).2.2
  case refused =>
    intro τ obs view budget xGuess yGuess e hguess
    exact ⟨congrArg outcome (Method.solve_refused (M := I.method) hguess obs budget s view),
      congrArg outcome (Method.solve_refused (M := I.method) hguess obs budget t view)⟩

section Congruent

variable (hr : Congruence r)
include hr

/-- Cores that differ in numbers look the same, as far as they show these. -/
theorem Box.appearance_alike {s t : Box K n} (h : s.AlikeAtStart r t) :
    s.appearance.Alike r t.appearance := by
  cases h with
  | intro hg hx hy =>
    have hviolation := Optimality.alike_violation hr s.hessian (noRows n) s.target hx hy
    exact ⟨hx, hy, alike_objective hr _ _ hx, hviolation, Optimality.accept_eq hr hviolation _, rfl, rfl, rfl,
      rfl, rfl, rfl⟩

theorem Constrained.appearance_alike {s t : Constrained K n m} (h : s.AlikeAtStart r t) :
    s.appearance.Alike r t.appearance := by
  cases h with
  | intro hcore hnullSpace =>
    cases hcore with
    | intro hg hx hy =>
      have hviolation := Optimality.alike_violation hr s.hessian s.matrix s.target hx hy
      exact ⟨hx, hy, alike_objective hr _ _ hx, hviolation, Optimality.accept_eq hr hviolation _, rfl, rfl,
        rfl, rfl, rfl, hnullSpace.nNull⟩

/-- Solvers for bounds with the same problem and related remains solve alike. -/
theorem Box.solvesAlike (hone : ((1 : K) == 1) = true) {s t : Box K n} (hg : Guarded r s.parameters)
    (hs : s.BoundsInOrder) (ht : t.BoundsInOrder) (hproblem : s.SameProblem t)
    (hremains : s.RemainsAlike r t) : (Box.interface K n).SolvesAlike Box.appearance r s t :=
  Interface.solvesAlike (A := Core.AlikeAtStart r) (Box.companions_of_alike hr) (Box.respects hone)
    (fun _ _ h => Core.AlikeOnCourse.start h hr) (fun _ _ status h => h.withStatus status)
    (fun _ _ h => Box.appearance_alike hr h) hs ht fun guess =>
      prepare_alike (hremains.reset hproblem hr hg (ht.capacity.trans hs.capacity.symm)) hr guess

/-- Solvers for bounds and constraints with the same problem and related remains solve alike. -/
theorem Constrained.solvesAlike (hone : ((1 : K) == 1) = true) {s t : Constrained K n m}
    (hg : Guarded r s.parameters) (hs : s.InOrder) (ht : t.InOrder) (hproblem : s.SameProblem t)
    (hremains : s.RemainsAlike r t) :
    (Constrained.interface K n m).SolvesAlike Constrained.appearance r s t :=
  Interface.solvesAlike (A := Constrained.AlikeAtStart r) (Constrained.companions_of_alike hr)
    (Constrained.respects hone) (fun _ _ h => AlikeOnCourse.start h hr)
    (fun _ _ status h => h.withCore (h.core.withStatus status))
    (fun _ _ h => Constrained.appearance_alike hr h) hs ht fun _ =>
      prepare_alike (hremains.reset hproblem hr hg hs ht) hr

end Congruent

/-! ## New solvers -/

/-- The condition that admits nothing but loading. -/
def onlyLoads {σ δ : Type} : Call K n m δ → σ → Prop := fun c _ => ∃ d, c = .load d

theorem Interface.reachable_loads {σ δ : Type} (I : Interface K n m σ δ) (data : List δ) :
    ∀ {s : σ}, I.Reachable onlyLoads s →
      I.Reachable onlyLoads (data.foldl (fun s d => (I.call (.load d) s).2) s) := by
  induction data with
  | nil => exact fun hs => hs
  | cons d rest ih => exact fun hs => ih (.call (.load d) hs ⟨d, rfl⟩)

/-- Whatever has been loaded, what remains in a new solver for bounds is as in one without a problem. -/
theorem Box.remains_of_loaded {s t : Box K n} (ht : (Box.interface K n).Reachable onlyLoads t)
    (h : s.RemainsAlike r (Box.fresh n)) : s.RemainsAlike r t := by
  induction ht with
  | fresh => exact h
  | @call t c _ hc ih =>
    obtain ⟨d, rfl⟩ := hc
    unfold Interface.call
    dsimp only
    cases hload : (Box.interface K n).load d t with
    | error e => exact ih
    | ok t' =>
      obtain ⟨_, _, _, _, rfl⟩ | ⟨_, _, rfl⟩ := Core.Loading.apply_cases hload
      · exact ⟨ih.x, ih.y, ih.dx, ih.dy, ih.tilt, ih.gradient, ih.factor⟩
      · exact ⟨ih.x, ih.y, ih.dx, ih.dy, ih.tilt, ih.gradient, ih.factor⟩

theorem Constrained.remains_of_loaded {s t : Constrained K n m}
    (ht : (Constrained.interface K n m).Reachable onlyLoads t)
    (h : s.RemainsAlike r (Constrained.fresh n m)) : s.RemainsAlike r t := by
  induction ht with
  | fresh => exact h
  | @call t c _ hc ih =>
    obtain ⟨d, rfl⟩ := hc
    unfold Interface.call
    dsimp only
    cases hload : (Constrained.interface K n m).load d t with
    | error e => exact ih
    | ok t' =>
      have hcore := ih.core
      obtain ⟨_, _, _, _, _, rfl⟩ | ⟨_, _, rfl⟩ := Constrained.Loading.apply_cases hload
      · exact ⟨⟨hcore.x, hcore.y, hcore.dx, hcore.dy, hcore.tilt, hcore.gradient, hcore.factor⟩,
          ih.ax, ih.dax, ih.dependency, ih.q⟩
      · exact ⟨⟨hcore.x, hcore.y, hcore.dx, hcore.dy, hcore.tilt, hcore.gradient, hcore.factor⟩,
          ih.ax, ih.dax, ih.dependency, ih.q⟩

/-! ## Exact arithmetic -/

/-- In an arithmetic in which all products with zero are zero, solves from scratch do the same in all
solvers with the same problem, whatever these have been called for before. -/
theorem solve_forgets_exactly (K : Type) [Scalar K] (n m : Nat) (hone : ((1 : K) == 1) = true)
    (hzero : ∀ a : K, 0 * a = 0) :
    (∀ s t : Box K n, (Box.interface K n).Reachable anyCall s → (Box.interface K n).Reachable anyCall t →
      s.SameProblem t → (Box.interface K n).SolvesAlike Box.appearance Eq s t) ∧
      ∀ s t : Constrained K n m, (Constrained.interface K n m).Reachable anyCall s →
        (Constrained.interface K n m).Reachable anyCall t → s.SameProblem t →
          (Constrained.interface K n m).SolvesAlike Constrained.appearance Eq s t := by
  -- if zero times a number is always zero, nothing that is left over matters
  have hresidue : ∀ a b : K, Residue Eq a b := fun a b => (hzero a).trans (hzero b).symm
  have hcore : ∀ {k : Nat} (c c' : Core K n k), c.RemainsAlike Eq c' := fun c c' =>
    ⟨fun _ => hresidue _ _, ⟨fun _ => hresidue _ _, fun _ => hresidue _ _⟩, fun _ => hresidue _ _,
      ⟨fun _ => hresidue _ _, fun _ => hresidue _ _⟩, fun _ => hresidue _ _, fun _ => hresidue _ _,
      fun _ _ => hresidue _ _⟩
  constructor
  · intro s t hs ht hproblem
    have hI := Box.respects (K := K) (n := n) hone
    exact Box.solvesAlike congruence_eq hone (guarded_eq _) (hI.settled hs).1 (hI.settled ht).1 hproblem
      (hcore s t)
  · intro s t hs ht hproblem
    have hI := Constrained.respects (K := K) (n := n) (m := m) hone
    exact Constrained.solvesAlike congruence_eq hone (guarded_eq _) (hI.settled hs).1 (hI.settled ht).1
      hproblem ⟨hcore _ _, fun _ => hresidue _ _, fun _ => hresidue _ _,
        ⟨fun _ => hresidue _ _, fun _ => hresidue _ _⟩, fun _ _ => hresidue _ _⟩

/-! ## Double precision -/

section Finite

/-- All entries are finite. -/
def Tuple.Finite (x : Tuple Float n) : Prop := ∀ i : Fin n, (x i).isFinite = true

/-- All entries are finite. -/
def Grid.Finite (G : Grid Float m n) : Prop := ∀ (i : Fin m) (j : Fin n), (G i j).isFinite = true

instance (x : Tuple Float n) : Decidable x.Finite :=
  inferInstanceAs (Decidable (∀ i : Fin n, (x i).isFinite = true))

instance (G : Grid Float m n) : Decidable G.Finite :=
  inferInstanceAs (Decidable (∀ (i : Fin m) (j : Fin n), (G i j).isFinite = true))

/-- All multipliers are finite. -/
structure Dual.Finite (y : Dual Float n m) : Prop where
  bound : y.bound.Finite
  row : y.row.Finite

/-- All that earlier solves have left is finite. -/
structure Core.Finite (c : Core Float n m) : Prop where
  x : c.x.Finite
  y : c.y.Finite
  dx : c.dx.Finite
  dy : c.dy.Finite
  tilt : c.tilt.Finite
  gradient : c.current.gradient.Finite
  factor : c.factor.entries.Finite

/-- All that earlier solves have left is finite. -/
structure Constrained.Finite (s : Constrained Float n m) : Prop extends s.toCore.Finite where
  ax : s.ax.Finite
  dax : s.dax.Finite
  dependency : s.dependency.Finite
  q : s.nullSpace.q.Finite

/-- No tolerance is negative. -/
structure Parameters.Nonnegative (p : Parameters Float) : Prop where
  zero : 0 ≤ p.epsZero
  definite : 0 ≤ p.epsDefinite
  dependent : 0 ≤ p.epsDependent

/-- Outside there are zeros only. -/
theorem Tuple.Finite.residue {x : Tuple Float n} (h : x.Finite) :
    x.Alike (Residue SameNumber) (Tuple.fill n 0) := by
  intro i
  rcases Nat.lt_or_ge i n with hi | hi
  · rw [Tuple.fill_apply hi]
    exact Double.residue_zero (h ⟨i, hi⟩)
  · rw [Tuple.apply_of_le _ hi, Tuple.apply_of_le _ hi]
    exact Double.residue_zero rfl

theorem Grid.Finite.residue {G : Grid Float m n} (h : G.Finite) :
    G.Alike (Residue SameNumber) (Grid.fill m n 0) := by
  intro i j
  rcases Nat.lt_or_ge i m with hi | hi
  · rcases Nat.lt_or_ge j n with hj | hj
    · rw [Grid.fill_apply hi hj]
      exact Double.residue_zero (h ⟨i, hi⟩ ⟨j, hj⟩)
    · rw [Grid.apply_of_column_le _ hj, Grid.apply_of_column_le _ hj]
      exact Double.residue_zero rfl
  · rw [Grid.apply_of_row_le _ hi, Grid.apply_of_row_le _ hi]
    exact Double.residue_zero rfl

theorem Dual.Finite.residue {y : Dual Float n m} (h : y.Finite) :
    y.Alike (Residue SameNumber) (Dual.zero n m) := ⟨h.bound.residue, h.row.residue⟩

/-- What is finite is cleared by a multiplication with zero. -/
theorem Tuple.Finite.cleared {x : Tuple Float n} (h : x.Finite) :
    (x.scale 0).Alike SameNumber (Tuple.fill n 0) := by
  have hfill : (Tuple.fill n (0 : Float)).scale 0 = Tuple.fill n 0 := Tuple.ext fun i hi => by
    rw [Tuple.scale_apply _ _ hi, Tuple.fill_apply hi]
    decide +kernel
  rw [← hfill]
  exact Tuple.Alike.cleared h.residue Double.congruence

theorem Dual.Finite.cleared {y : Dual Float n m} (h : y.Finite) :
    (y.scale 0).Alike SameNumber (Dual.zero n m) := ⟨h.bound.cleared, h.row.cleared⟩

theorem Core.Finite.remains {c : Core Float n m} (h : c.Finite) :
    c.RemainsAlike SameNumber (Core.fresh n m) :=
  ⟨h.x.residue, h.y.residue, h.dx.residue, h.dy.residue, h.tilt.residue, h.gradient.residue,
    h.factor.residue⟩

theorem Constrained.Finite.remains {s : Constrained Float n m} (h : s.Finite) :
    s.RemainsAlike SameNumber (Constrained.fresh n m) :=
  ⟨h.toFinite.remains, h.ax.residue, h.dax.residue, h.dependency.residue, h.q.residue⟩

theorem Parameters.Nonnegative.guarded {p : Parameters Float} (h : p.Nonnegative) :
    Guarded SameNumber p := Double.guarded h.zero h.definite h.dependent

end Finite

/-- Whatever a solver has been called for, as long as all that is left is finite, a reset leaves zeros, of
either sign, and a solve from scratch does what it does in any new solver with the same problem, up to the
sign of zeros. -/
theorem solve_forgets (n m : Nat) :
    (∀ s : Box Float n, (Box.interface Float n).Reachable anyCall s → Core.Finite s →
      (Core.reset s).x.Alike SameNumber (Tuple.fill n 0) ∧
        (Core.reset s).y.Alike SameNumber (Dual.zero n 0) ∧
        (s.parameters.Nonnegative → ∀ t : Box Float n, (Box.interface Float n).Reachable onlyLoads t →
          s.SameProblem t → (Box.interface Float n).SolvesAlike Box.appearance SameNumber s t)) ∧
      ∀ s : Constrained Float n m, (Constrained.interface Float n m).Reachable anyCall s → s.Finite →
        s.reset.x.Alike SameNumber (Tuple.fill n 0) ∧ s.reset.y.Alike SameNumber (Dual.zero n m) ∧
          (s.parameters.Nonnegative → ∀ t : Constrained Float n m,
            (Constrained.interface Float n m).Reachable onlyLoads t → s.SameProblem t →
              (Constrained.interface Float n m).SolvesAlike Constrained.appearance SameNumber s t) := by
  have hone : ((1 : Float) == 1) = true := by decide +kernel
  constructor
  · intro s hs hfinite
    refine ⟨hfinite.x.cleared, hfinite.y.cleared, fun htolerances t ht hproblem => ?_⟩
    -- a fresh instance that only loaded the problem has zeros where this one has leftovers
    have hI := Box.respects (K := Float) (n := n) hone
    exact Box.solvesAlike Double.congruence hone htolerances.guarded (hI.settled hs).1
      (hI.settled (ht.mono fun _ _ _ => trivial)).1 hproblem (Box.remains_of_loaded ht hfinite.remains)
  · intro s hs hfinite
    refine ⟨hfinite.x.cleared, hfinite.y.cleared, fun htolerances t ht hproblem => ?_⟩
    have hI := Constrained.respects (K := Float) (n := n) (m := m) hone
    exact Constrained.solvesAlike Double.congruence hone htolerances.guarded (hI.settled hs).1
      (hI.settled (ht.mono fun _ _ _ => trivial)).1 hproblem
      (Constrained.remains_of_loaded ht hfinite.remains)

/-! ### Examples -/

/-- A new solver for one variable, with the minimum of `x² / 2 + x` for `0 ≤ x` loaded. -/
def unusedSquare : Box Float 1 :=
  [Core.Loading.hessian #[1], .gradient #[1], .lower #[0]].foldl
    (fun s d => ((Box.interface Float 1).call (.load d) s).2) (Box.fresh 1)

/-- The same problem after the one without the limit has been solved. -/
def usedSquare : Box Float 1 :=
  [Call.load (.hessian #[1]), .load (.gradient #[1]), .solve Observer.silent () 10 none none,
    .load (.lower #[0])].foldl (fun s c => ((Box.interface Float 1).call c s).2) (Box.fresh 1)

/-- The same problem after one that overflowed on the way to its solution. -/
def overflownSquare : Box Float 1 :=
  [Call.load (.hessian #[1e10]), .solve Observer.silent () 10 (some #[1e300]) none,
    .load (.hessian #[1]), .load (.gradient #[1]), .load (.lower #[0])].foldl
      (fun s c => ((Box.interface Float 1).call c s).2) (Box.fresh 1)

/-- A new solver for one variable, with the same limit as that of a constraint. -/
def unusedRow : Constrained Float 1 1 :=
  [Constrained.Loading.core (.hessian #[1]), .core (.gradient #[1]), .matrix #[1], .rowLower #[0]].foldl
    (fun s d => ((Constrained.interface Float 1 1).call (.load d) s).2) (Constrained.fresh 1 1)

/-- The same problem after the one without the limit has been solved. -/
def usedRow : Constrained Float 1 1 :=
  [Call.load (.core (.hessian #[1])), .load (.core (.gradient #[1])), .load (.matrix #[1]),
    .solve Observer.silent () 10 none none, .load (.rowLower #[0])].foldl
      (fun s c => ((Constrained.interface Float 1 1).call c s).2) (Constrained.fresh 1 1)

theorem reachable_unusedSquare : (Box.interface Float 1).Reachable onlyLoads unusedSquare :=
  (Box.interface Float 1).reachable_loads _ .fresh

/-- The solution `-1` of another problem is forgotten, although its product with zero is the negative zero:
the next problem is solved as by a new solver, up to the sign of zeros. -/
theorem solve_forgets_negative :
    (Core.Finite usedSquare ∧ usedSquare.parameters.Nonnegative ∧ usedSquare.SameProblem unusedSquare ∧
      usedSquare.x 0 = -1 ∧ 0 * usedSquare.x 0 ≠ 0 ∧
      (Core.reset usedSquare).x.Alike SameNumber (Tuple.fill 1 0) ∧
      (Box.interface Float 1).SolvesAlike Box.appearance SameNumber usedSquare unusedSquare) ∧
      usedRow.Finite ∧ usedRow.parameters.Nonnegative ∧ usedRow.SameProblem unusedRow ∧
      usedRow.ax 0 = -1 ∧ 0 * usedRow.ax 0 ≠ 0 ∧
      usedRow.reset.x.Alike SameNumber (Tuple.fill 1 0) ∧
      (Constrained.interface Float 1 1).SolvesAlike Constrained.appearance SameNumber usedRow unusedRow := by
  -- the solver with bounds has ended a solve in the point -1
  have hreachable : (Box.interface Float 1).Reachable anyCall usedSquare :=
    Interface.reachable_foldl _ _ .fresh
  have hfinite : Core.Finite usedSquare :=
    ⟨by decide +kernel, ⟨by decide +kernel, by decide +kernel⟩, by decide +kernel,
      ⟨by decide +kernel, by decide +kernel⟩, by decide +kernel, by decide +kernel, by decide +kernel⟩
  have htolerances : usedSquare.parameters.Nonnegative :=
    ⟨by decide +kernel, by decide +kernel, by decide +kernel⟩
  have hproblem : usedSquare.SameProblem unusedSquare :=
    ⟨by decide +kernel, by decide +kernel, by decide +kernel, by decide +kernel⟩
  -- so has the solver with a row, whose value is -1 there
  have hreachable' : (Constrained.interface Float 1 1).Reachable anyCall usedRow :=
    Interface.reachable_foldl _ _ .fresh
  have hunused' : (Constrained.interface Float 1 1).Reachable onlyLoads unusedRow :=
    (Constrained.interface Float 1 1).reachable_loads _ .fresh
  have hfinite' : usedRow.Finite :=
    ⟨⟨by decide +kernel, ⟨by decide +kernel, by decide +kernel⟩, by decide +kernel,
      ⟨by decide +kernel, by decide +kernel⟩, by decide +kernel, by decide +kernel, by decide +kernel⟩,
      by decide +kernel, by decide +kernel, ⟨by decide +kernel, by decide +kernel⟩, by decide +kernel⟩
  have htolerances' : usedRow.parameters.Nonnegative :=
    ⟨by decide +kernel, by decide +kernel, by decide +kernel⟩
  have hproblem' : usedRow.SameProblem unusedRow :=
    ⟨⟨by decide +kernel, by decide +kernel, by decide +kernel, by decide +kernel⟩, by decide +kernel⟩
  -- both forget it, as -1 times zero is a zero
  obtain ⟨hbox, hconstrained⟩ := solve_forgets 1 1
  obtain ⟨hx, -, hsolves⟩ := hbox usedSquare hreachable hfinite
  obtain ⟨hx', -, hsolves'⟩ := hconstrained usedRow hreachable' hfinite'
  exact ⟨⟨hfinite, htolerances, hproblem, by decide +kernel, by decide +kernel, hx,
    hsolves htolerances unusedSquare reachable_unusedSquare hproblem⟩, hfinite', htolerances', hproblem',
    by decide +kernel, by decide +kernel, hx', hsolves' htolerances' unusedRow hunused' hproblem'⟩

/-- An overflow is remembered: after it a reset leaves a point that is not a number, and so does a solve
from scratch of a problem that a new solver has no difficulty with. -/
theorem overflow_remembered :
    (¬∀ s : Box Float 1, (Box.interface Float 1).Reachable anyCall s →
      (Core.reset s).x.Alike SameNumber (Tuple.fill 1 0)) ∧
      ¬∀ s t : Box Float 1, (Box.interface Float 1).Reachable anyCall s →
        (Box.interface Float 1).Reachable onlyLoads t → s.SameProblem t →
          (Box.interface Float 1).SolvesAlike Box.appearance SameNumber s t := by
  -- a product has overflown in the earlier solve, so what remains of the point is not a number
  have hreachable : (Box.interface Float 1).Reachable anyCall overflownSquare :=
    Interface.reachable_foldl _ _ .fresh
  have hproblem : overflownSquare.SameProblem unusedSquare :=
    ⟨by decide +kernel, by decide +kernel, by decide +kernel, by decide +kernel⟩
  constructor
  · intro hall
    have hnan : ((Core.reset overflownSquare).x 0).isNaN = true := by decide +kernel
    rw [Double.isNaN_eq (hall overflownSquare hreachable 0)] at hnan
    revert hnan
    decide +kernel
  · -- the next solve does not get rid of it, and a fresh solver never had it
    intro hall
    have hsolves := hall overflownSquare unusedSquare hreachable reachable_unusedSquare hproblem
    have hsame := hsolves.appearance Observer.silent () 10 none none ⟨none, none⟩ rfl
    have hnan : ((((Box.interface Float 1).call (.solve Observer.silent () 10 none none)
        overflownSquare).2).x 0).isNaN = true := by decide +kernel
    have hnumber : ((((Box.interface Float 1).call (.solve Observer.silent () 10 none none)
        unusedSquare).2).x 0).isNaN = false := by decide +kernel
    have hx : ∀ s t : Box Float 1, s.appearance.Alike SameNumber t.appearance →
        (s.x 0).isNaN = (t.x 0).isNaN := fun _ _ h => Double.isNaN_eq (h.x 0)
    have hagree := hx _ _ hsame
    rw [hnan, hnumber] at hagree
    cases hagree

end ActiveSet
