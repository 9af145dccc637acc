import ActiveSet.Proofs.Solver.Constrained.ColdStart
import ActiveSet.Proofs.Solver.Constrained.StartingSet
import ActiveSet.Proofs.Verdict

/-!
# How far a guess is followed

All equalities are to start in the working set of a solve from scratch, and of the inequalities those for
which the guess, or an objective that is declared to be semidefinite, asks. An inequality among the
constraints stays outside if it depends on what has entered before it.

But the entities enter in a fixed order, and nothing that has entered is given up again. So an inequality
that comes first can make an equality dependent, and the solve is refused for the guess, although the
equalities by themselves are independent (`guess_obstructs`). `setup_refused_iff` says when this happens,
and in which working set the homotopy starts otherwise.
-/

namespace ActiveSet

open Finset

namespace Constrained

variable {n m : ℕ} {s s' : Constrained ℝ n m} {guess : Guess ℝ n m}

/-- The rows of the equalities are independent: the unit vectors of the bounds among them, and rows of
the matrix. -/
def EqualitiesIndependent (s : Constrained ℝ n m) : Prop :=
  ∀ c : Entity n m → ℝ, (∀ e, s.loadedType e ≠ .equality → c e = 0) →
    (∀ j, j < n → ∑ e, c e * s.row e j = 0) → ∀ e, c e = 0

/-- If equalities that are independent obstruct a set-up, then an inequality has entered before one of
them. -/
theorem Obstructed.exists_inequality (h : s.Obstructed guess) (hind : s.EqualitiesIndependent) :
    ∃ (i : Fin m) (e : Entity n m), s.loadedType (.constraint i) = .equality ∧
      s.startingSet guess i e ∧ s.loadedType e ≠ .equality := by
  obtain ⟨i, htype, hdepends⟩ := h
  by_contra hnone
  push Not at hnone
  have hind : s.Independent fun e => s.loadedType e = .equality := hind
  refine hind.not_dependsOn (fun e he => hnone i e htype he) htype (fun hmem => ?_) hdepends
  exact absurd ((startingSet_constraint i).1 hmem).1 (lt_irrefl _)

/-- A homotopy starts in the working set of a guess. It is the starting set, each entity at the side that
it is asked for, with all equalities. What was to start in it and does not is an inequality that depends
on what had entered before it. -/
structure Guessed (s : Constrained ℝ n m) (guess : Guess ℝ n m) (s' : Constrained ℝ n m) : Prop where
  isActive_iff : ∀ e, s'.isActive e = true ↔ s.startingSet guess m e
  activity_eq : ∀ e, s'.isActive e = true → s'.activity e = s.wantedSide guess e
  equality : ∀ e, s.loadedType e = .equality → s'.isActive e = true
  left_out : ∀ e, s.Wanted guess e → s'.isActive e = false → s.loadedType e ≠ .equality ∧
    ∃ i : Fin m, e = .constraint i ∧ s.DependsOn (s.startingSet guess i) e

theorem StartsWith.guessed (h : s.StartsWith guess s') : s.Guessed guess s' := by
  have hiff : ∀ e, s'.isActive e = true ↔ s.startingSet guess m e := by
    intro e
    refine ⟨fun he => ?_, fun he => ?_⟩
    · by_contra hnot
      rw [isActive, h.inactive e hnot] at he
      cases he
    · rw [isActive, h.activity_eq e he]
      exact wanted_of_startingSet he
  -- an equality that stays outside would obstruct the set-up
  have hequality : ∀ e, s.loadedType e = .equality → s.startingSet guess m e := by
    intro e htype
    by_contra hnot
    obtain ⟨i, rfl, hdepends⟩ := exists_dependsOn (wanted_of_equality htype) hnot
    exact h.unobstructed ⟨i, htype, hdepends⟩
  refine ⟨hiff, fun e he => h.activity_eq e ((hiff e).1 he),
    fun e htype => (hiff e).2 (hequality e htype), fun e hwanted hout => ?_⟩
  have hnot : ¬s.startingSet guess m e := by
    rw [← hiff, hout]
    exact Bool.false_ne_true
  exact ⟨fun htype => hnot (hequality e htype), exists_dependsOn hwanted hnot⟩

/-- Without a guess only an equality is to start in the working set, unless the objective is declared to be
semidefinite. -/
theorem not_wanted_cold (hdefinite : s.hessianType ≠ .semidefinite) {e : Entity n m}
    (htype : s.loadedType e ≠ .equality) : ¬s.Wanted ⟨none, none⟩ e := by
  have hside : s.guessedSide ⟨none, none⟩ e = .inactive := guessedActivity_none htype _ _
  cases e with
  | bound i =>
    rw [Wanted, wantedSide, if_neg fun h => hdefinite h.1, hside]
    exact Bool.false_ne_true
  | constraint i =>
    rw [Wanted, wantedSide, hside]
    exact Bool.false_ne_true

/-- A solve from scratch says that no working set can be set up exactly if an equality obstructs it. -/
theorem call_obstructed_iff {τ : Type} (hs : s.InOrder) (heps : s.parameters.epsDependent = 0)
    (hordered : ∀ e, s.target.lowerOf e ≤ s.target.upperOf e) {xGuess yGuess : Option (Array ℝ)}
    (hguess : Guess.ofArrays n m xGuess yGuess = .ok guess) (obs : Observer ℝ n m τ) (view : τ)
    (budget : ℕ) :
    ((Constrained.interface ℝ n m).call (.solve obs view budget xGuess yGuess) s).1 =
      .error (.failed .setupWorkingSetFailed) ↔ s.Obstructed guess := by
  have hrun := solve_obstructed hs heps hordered hguess obs view budget
  obtain ⟨k, r, hcall, hnot⟩ | ⟨f, r, hcall, hiff⟩ := outcome_of_ensures hrun
  · rw [show (Constrained.interface ℝ n m).call (.solve obs view budget xGuess yGuess) s = _
      from hcall]
    exact ⟨nofun, fun h => absurd h hnot⟩
  · rw [show (Constrained.interface ℝ n m).call (.solve obs view budget xGuess yGuess) s = _
      from hcall, Except.error.injEq]
    exact hiff

-- ---------------------------------------------------------------------------
-- An instance
-- ---------------------------------------------------------------------------

/-- Half the square of a variable between zero and one, and a row that ties the variable to one half. -/
noncomputable def loadTied : List (Call ℝ 1 1 (Loading ℝ)) :=
  [.load (.core (.parameters exactParameters)), .load (.core (.hessian #[1])), .load (.matrix #[1]),
    .load (.core (.lower #[0])), .load (.core (.upper #[1])), .load (.rowLower #[1 / 2]),
    .load (.rowUpper #[1 / 2])]

/-- A solver with this problem loaded. -/
noncomputable def tied : Constrained ℝ 1 1 :=
  loadTied.foldl (fun s c => ((Constrained.interface ℝ 1 1).call c s).2) (Constrained.fresh 1 1)

theorem tied_eq : tied = { square with
    matrix := Grid.ofFn 1 1 fun i j => #[(1 : ℝ)].getD (i * 1 + j) 0
    target := { square.target with
      lower := Tuple.ofFn 1 fun i => Core.clamp exactParameters.infinity (#[0].getD i 0)
      upper := Tuple.ofFn 1 fun i => Core.clamp exactParameters.infinity (#[1].getD i 0)
      rowLower := Tuple.ofFn 1 fun i => Core.clamp exactParameters.infinity (#[1 / 2].getD i 0)
      rowUpper := Tuple.ofFn 1 fun i => Core.clamp exactParameters.infinity (#[1 / 2].getD i 0) } } := rfl

theorem reachable_tied {admits : Call ℝ 1 1 (Loading ℝ) → Constrained ℝ 1 1 → Prop}
    (h : ∀ d s, admits (.load d) s) : (Constrained.interface ℝ 1 1).Reachable admits tied :=
  .call _ (.call _ (.call _ (.call _ (.call _ (reachable_square admits h) (h _ _)) (h _ _)) (h _ _))
    (h _ _)) (h _ _)

theorem limits_tied_bound :
    tied.target.lowerOf (.bound 0) = 0 ∧ tied.target.upperOf (.bound 0) = 1 :=
  ⟨(Tuple.ofFn_apply Nat.zero_lt_one).trans (clamp_exactParameters (by norm_num)),
    (Tuple.ofFn_apply Nat.zero_lt_one).trans (clamp_exactParameters (by norm_num))⟩

theorem limits_tied_constraint : tied.target.lowerOf (.constraint 0) = 1 / 2 ∧
    tied.target.upperOf (.constraint 0) = 1 / 2 := by
  have hhalf : Core.clamp exactParameters.infinity (1 / 2) = 1 / 2 :=
    clamp_exactParameters (by norm_num [abs_le])
  exact ⟨(Tuple.ofFn_apply Nat.zero_lt_one).trans hhalf,
    (Tuple.ofFn_apply Nat.zero_lt_one).trans hhalf⟩

theorem ordered_tied (e : Entity 1 1) : tied.target.lowerOf e ≤ tied.target.upperOf e := by
  obtain rfl | rfl := entity_of_one e
  · rw [limits_tied_bound.1, limits_tied_bound.2]
    exact zero_le_one
  · rw [limits_tied_constraint.1, limits_tied_constraint.2]

theorem parameters_tied : tied.parameters = exactParameters := by
  rw [tied_eq, square_eq]

/-- Limits with a gap, of which the lower one is not negative, make an inequality. -/
theorem loadedType_of_gap {s : Constrained ℝ 1 1} (hparameters : s.parameters = exactParameters)
    {e : Entity 1 1} (hlower : 0 ≤ s.target.lowerOf e)
    (hgap : 1 / 2 ≤ s.target.upperOf e - s.target.lowerOf e) : s.loadedType e = .bounded := by
  rw [loadedType, hparameters, epsBound_exactParameters, infinity_exactParameters]
  unfold EntitySet.typeOfLimits
  rw [if_neg fun h => ?_, if_neg ?_]
  · refine not_lt.2 (le_trans ?_ hgap)
    norm_num
  · exact absurd (hlower.trans h.1) (by norm_num)

theorem loadedType_tied_bound : tied.loadedType (.bound 0) = .bounded := by
  refine loadedType_of_gap parameters_tied limits_tied_bound.1.ge ?_
  rw [limits_tied_bound.1, limits_tied_bound.2]
  norm_num

theorem loadedType_tied_constraint : tied.loadedType (.constraint 0) = .equality := by
  rw [loadedType, limits_tied_constraint.1, limits_tied_constraint.2,
    show tied.parameters = exactParameters from rfl, epsBound_exactParameters,
    infinity_exactParameters]
  unfold EntitySet.typeOfLimits
  rw [if_neg (by norm_num), if_pos (by norm_num)]

/-- The rows of both entities are one. -/
theorem row_tied (e : Entity 1 1) : tied.row e 0 = 1 := by
  obtain rfl | rfl := entity_of_one e
  · rw [row]
    exact if_pos rfl
  · exact Grid.ofFn_apply Nat.zero_lt_one Nat.zero_lt_one

/-- One row is independent. -/
theorem independent_tied {p : Entity 1 1 → Prop} (hp : ¬p (.bound 0)) : tied.Independent p := by
  intro c hc hzero
  have hbound : c (.bound 0) = 0 := hc _ hp
  have hsum := hzero 0 Nat.zero_lt_one
  simp only [row_tied, mul_one, Entity.sum_eq, Fin.sum_univ_one, hbound, zero_add] at hsum
  intro e
  obtain rfl | rfl := entity_of_one e
  · exact hbound
  · exact hsum

theorem equalitiesIndependent_tied : tied.EqualitiesIndependent :=
  independent_tied (p := fun e => tied.loadedType e = .equality) fun h => by
    rw [loadedType_tied_bound] at h
    cases h

/-- A guess for one variable. -/
noncomputable def point (a : ℝ) : Tuple ℝ 1 := ⟨⟨#[a], rfl⟩⟩

/-- A guess for the multipliers of one variable and of the rows. -/
noncomputable def multipliers (m : ℕ) (ys : Array ℝ) : Dual ℝ 1 m := Dual.ofFn 1 m fun k => ys.getD k 0

theorem ofArrays_point (a : ℝ) {ys : Array ℝ} (h : ys.size = 1 + m) :
    Guess.ofArrays 1 m (some #[a]) (some ys) = .ok ⟨some (point a), some (multipliers m ys)⟩ := by
  have hys : Dual.ofArray? 1 m ys = some (multipliers m ys) := if_pos h
  rw [Guess.ofArrays, Option.map_some, Option.map_some, hys]
  rfl

/-- The guess that the variable is zero. -/
noncomputable def zeroGuess : Guess ℝ 1 1 := ⟨some ⟨⟨#[0], rfl⟩⟩, none⟩

theorem ofArrays_zeroGuess : Guess.ofArrays 1 1 (some #[(0 : ℝ)]) none = .ok zeroGuess := rfl

theorem value_zeroGuess (s : Constrained ℝ 1 1) (e : Entity 1 1) :
    zeroGuess.x.map (fun x : Tuple ℝ 1 => s.valueOf x e) = some 0 := by
  refine congrArg some (sum_eq_zero fun j hj => ?_)
  obtain rfl : j = 0 := Nat.lt_one_iff.1 (mem_range.1 hj)
  exact mul_zero _

/-- An entity with a lower limit of zero is to start there. -/
theorem guessedSide_zeroGuess {s : Constrained ℝ 1 1} {e : Entity 1 1}
    (hparameters : s.parameters = exactParameters) (htype : s.loadedType e = .bounded)
    (hlower : s.target.lowerOf e = 0) : s.guessedSide zeroGuess e = .lower := by
  rw [guessedSide, htype, hlower, value_zeroGuess, hparameters]
  have hlimit : decide (-exactParameters.infinity < 0) = true ∧
      Scalar.abs ((0 : ℝ) - 0) ≤ exactParameters.epsBound := by
    rw [infinity_exactParameters, epsBound_exactParameters, sub_zero]
    exact ⟨decide_eq_true (by norm_num), (abs_zero (α := ℝ)).trans_le (by norm_num)⟩
  unfold guessedActivity
  dsimp only [Option.bind_some]
  rw [if_pos hlimit]
  rfl

theorem wantedSide_zeroGuess {s : Constrained ℝ 1 1} (hparameters : s.parameters = exactParameters)
    (htype : s.loadedType (.bound 0) = .bounded) (hlower : s.target.lowerOf (.bound 0) = 0) :
    s.wantedSide zeroGuess (.bound 0) = .lower := by
  have hside := guessedSide_zeroGuess hparameters htype hlower
  rw [wantedSide, hside]
  exact if_neg fun h => by cases h.2.1

theorem wanted_tied : tied.Wanted zeroGuess (.bound 0) :=
  congrArg Activity.isActive
    (wantedSide_zeroGuess parameters_tied loadedType_tied_bound limits_tied_bound.1)

/-- Where both rows are one, that of the constraint is that of the bound. -/
theorem dependsOn_of_row_eq {s : Constrained ℝ 1 1} (hrow : ∀ e, s.row e 0 = 1)
    {p : Entity 1 1 → Prop} (hp : p (.bound 0)) : s.DependsOn p (.constraint 0) := by
  refine ⟨fun e => if e = .bound 0 then 1 else 0, fun e he => if_neg fun heq => he ?_,
    fun j hj => ?_⟩
  · rw [heq]
    exact hp
  · obtain rfl : j = 0 := by omega
    simp [hrow]

theorem obstructed_tied : tied.Obstructed zeroGuess :=
  ⟨0, loadedType_tied_constraint, dependsOn_of_row_eq row_tied ((startingSet_bound 0).2 wanted_tied)⟩

/-- Without a guess the variable is not to start on a limit. -/
theorem not_wanted_tied : ¬tied.Wanted ⟨none, none⟩ (.bound 0) := by
  refine not_wanted_cold (by decide) ?_
  rw [loadedType_tied_bound]
  exact nofun

end Constrained

/-- A solve from scratch is refused for its guess exactly if an equality depends on the entities that have
entered the working set before it. If the equalities by themselves are independent, there is an
inequality among these. A homotopy that starts does so in the working set of the guess, without the
inequalities that depend on what was there before them. -/
theorem setup_refused_iff (n m : ℕ) {s : Constrained ℝ n m}
    (hs : (Constrained.interface ℝ n m).Reachable anyCall s)
    (heps : s.parameters.epsDependent = 0)
    (hordered : ∀ e, s.target.lowerOf e ≤ s.target.upperOf e) {xGuess yGuess : Option (Array ℝ)}
    {guess : Guess ℝ n m} (hguess : Guess.ofArrays n m xGuess yGuess = .ok guess) :
    (∀ {τ : Type} (obs : Observer ℝ n m τ) (view : τ) (budget : ℕ),
      (((Constrained.interface ℝ n m).call (.solve obs view budget xGuess yGuess) s).1 =
          .error (.failed .setupWorkingSetFailed) ↔ s.Obstructed guess) ∧
        ∀ s', (Constrained.interface ℝ n m).StartsBy s (.solve obs view budget xGuess yGuess) s' →
          s.Guessed guess s') ∧
      (s.EqualitiesIndependent → s.Obstructed guess →
        ∃ (i : Fin m) (e : Entity n m), s.loadedType (.constraint i) = .equality ∧
          s.startingSet guess i e ∧ s.loadedType e ≠ .equality) := by
  have hone : ((1 : ℝ) == 1) = true := by simp
  have horder : s.InOrder := ((Constrained.respects hone).settled hs).1
  refine ⟨fun obs view budget => ⟨Constrained.call_obstructed_iff horder heps hordered hguess obs view
    budget, fun s' hstarts => ?_⟩, fun hind hobstructed => hobstructed.exists_inequality hind⟩
  · cases hstarts with
    | prepared hguess' hprepare =>
      rw [hguess] at hguess'
      cases hguess'
      exact ((Constrained.prepare_startsWith horder heps hordered).of_ok hprepare).guessed

/-- The tied problem can be set up without a guess, but not with that of zero. -/
theorem setup_refused_tied :
    ((Constrained.interface ℝ 1 1).call (.solve Observer.silent () 1 none none)
        Constrained.tied).1 ≠ .error (.failed .setupWorkingSetFailed) ∧
      ((Constrained.interface ℝ 1 1).call (.solve Observer.silent () 1 (some #[0]) none)
        Constrained.tied).1 = .error (.failed .setupWorkingSetFailed) := by
  have hguess : Guess.ofArrays 1 1 none none = .ok (⟨none, none⟩ : Guess ℝ 1 1) := rfl
  have hreach : (Constrained.interface ℝ 1 1).Reachable anyCall Constrained.tied :=
    Constrained.reachable_tied fun _ _ => trivial
  obtain ⟨hcall, hinequality⟩ := setup_refused_iff 1 1 hreach rfl
    Constrained.ordered_tied hguess
  obtain ⟨hcall', -⟩ := setup_refused_iff 1 1 hreach rfl
    Constrained.ordered_tied Constrained.ofArrays_zeroGuess
  refine ⟨fun herror => ?_, (hcall' _ _ _).1.2 Constrained.obstructed_tied⟩
  -- without a guess no equality depends on an inequality, since none is wanted
  obtain ⟨i, e, -, hmem, htype⟩ := hinequality Constrained.equalitiesIndependent_tied
    ((hcall _ _ _).1.1 herror)
  obtain rfl := Subsingleton.elim i 0
  cases e with
  | bound i =>
    obtain rfl := Subsingleton.elim i 0
    exact Constrained.not_wanted_tied (Constrained.wanted_of_startingSet hmem)
  | constraint i =>
    obtain rfl := Subsingleton.elim i 0
    exact htype Constrained.loadedType_tied_constraint

/-- The only equality of the tied problem is independent. Nevertheless, no working set can be set up with
the guess of zero: the variable is put on its lower limit, an inequality, before the equality is looked
at. -/
theorem guess_obstructs :
    (Constrained.interface ℝ 1 1).Reachable anyCall Constrained.tied ∧
      Constrained.tied.parameters.epsDependent = 0 ∧
        (∀ e, Constrained.tied.target.lowerOf e ≤ Constrained.tied.target.upperOf e) ∧
          Constrained.tied.EqualitiesIndependent ∧
            Constrained.tied.loadedType (.bound 0) ≠ .equality ∧
              ((Constrained.interface ℝ 1 1).call (.solve Observer.silent () 10 (some #[0]) none)
                Constrained.tied).1 = .error (.failed .setupWorkingSetFailed) := by
  have horder : Constrained.tied.InOrder := (Constrained.inOrder_fresh 1 1).congr rfl rfl
  refine ⟨Constrained.reachable_tied fun _ _ => trivial, rfl, Constrained.ordered_tied,
    Constrained.equalitiesIndependent_tied, ?_, ?_⟩
  · rw [Constrained.loadedType_tied_bound]
    decide
  · exact (Constrained.call_obstructed_iff horder rfl Constrained.ordered_tied
      Constrained.ofArrays_zeroGuess Observer.silent () 10).2 Constrained.obstructed_tied

end ActiveSet
