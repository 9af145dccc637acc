import ActiveSet.Proofs.Solver.Loading
import ActiveSet.Proofs.Violation

/-!
# What an accepted solution is known to satisfy

A solution is accepted if its violation does not exceed a tolerance. Of two values of which one is not a
number a maximum takes the other one, so an amount that is not a number is not seen by the violation, and
neither by the verdict. What an accepted solution is known to satisfy is therefore limited to the amounts
that are numbers (`acceptance_bounds`), and a solution without a single number can be accepted
(`missing_accepted`).

* `accept_ok_iff`: the verdict on an amount.
* `acceptance_bounds`: the verdicts of both solvers in double precision.
* `overflownGuess`: a problem whose solution overflows.
-/

namespace ActiveSet

open Optimality

section Verdict

variable {K : Type} [Scalar K] {n m : ℕ}

theorem accept_ok_iff {amount tolerance : K} : accept amount tolerance = .ok () ↔ amount ≤ tolerance := by
  unfold accept
  split
  · next h => exact ⟨fun _ => h, fun _ => rfl⟩
  · next h =>
    split
    · exact ⟨fun h' => (nomatch h'), fun h' => absurd h' h⟩
    · exact ⟨fun h' => (nomatch h'), fun h' => absurd h' h⟩

/-- A point with multipliers is accepted if the optimality conditions hold up to the tolerance, apart from
amounts that are not numbers. -/
theorem accept_violation_iff [NumberOrder K] {H : Grid K n n} {A : Grid K m n} {d : Data K n m}
    {x : Tuple K n} {y : Dual K n m} {tolerance : K} :
    accept (violation H A d x y) tolerance = .ok () ↔
      0 ≤ tolerance ∧ ConditionsHold tolerance H A d x y :=
  accept_ok_iff.trans violation_le_iff

end Verdict

/-- In double precision a solution is accepted exactly if the tolerance is not negative, and every residual,
every distance to a limit and every weighed multiplier that is a number is at most the tolerance. This holds
of problems given by arrays, and of the verdicts of both solvers. -/
theorem acceptance_bounds (n m : ℕ) :
    (∀ (H : Grid Float n n) (A : Grid Float m n) (d : Data Float n m) (x : Tuple Float n)
        (y : Dual Float n m), ∃ v, violationOfArrays? n m H.toList.toArray d.gradient.toList.toArray
          A.toList.toArray d.lower.toList.toArray d.upper.toList.toArray d.rowLower.toList.toArray
          d.rowUpper.toList.toArray x.toList.toArray y.toList.toArray = some v ∧
        ∀ tolerance, accept v tolerance = .ok () ↔
          0 ≤ tolerance ∧ ConditionsHold tolerance H A d x y) ∧
      (∀ s : Constrained Float n m, s.checkOptimality = .ok () ↔
        0 ≤ s.parameters.epsOptimal ∧
          ConditionsHold s.parameters.epsOptimal s.hessian s.matrix s.target s.x s.y) ∧
      ∀ s : Box Float n, s.checkOptimality = .ok () ↔
        0 ≤ s.parameters.epsOptimal ∧
          ConditionsHold s.parameters.epsOptimal s.hessian (Box.noRows n) s.target s.x s.y :=
  ⟨fun H A d x y => ⟨violation H A d x y, violationOfArrays?_toList H A d x y,
    fun _ => accept_violation_iff⟩, fun _ => accept_violation_iff, fun _ => accept_violation_iff⟩

/-- A solver whose problem is finite and definite, and whose guess is so large that the gradient at it
overflows in both directions. -/
def overflownGuess : Box Float 2 :=
  [Call.load (.hessian #[2e10, -1e10, -1e10, 2e10]),
    .solve Observer.silent () 10 (some #[1e300, 1e300]) none].foldl
      (fun s c => ((Box.interface Float 2).call c s).2) (Box.fresh 2)

/-- A solution without a number is accepted, and so are residuals that are none. -/
theorem missing_accepted :
    (¬∀ s : Box Float 2, (Box.interface Float 2).Reachable anyCall s → s.checkOptimality = .ok () →
      ∀ i, i < 2 → (s.x i).isNaN = false) ∧
      ¬∀ (H : Grid Float 2 2) (A : Grid Float 0 2) (d : Data Float 2 0) (x : Tuple Float 2)
        (y : Dual Float 2 0) (tolerance : Float), accept (violation H A d x y) tolerance = .ok () →
          ∀ i, i < 2 → Scalar.abs (residual H A d x y i) ≤ tolerance := by
  have haccepted : overflownGuess.checkOptimality = .ok () := by decide +kernel
  constructor
  · intro hall
    have hnumber := hall overflownGuess (Interface.reachable_foldl _ _ .fresh) haccepted 0 (by omega)
    revert hnumber
    decide +kernel
  · intro hall
    have hle := hall _ _ _ _ _ _ haccepted 0 (by omega)
    revert hle
    decide +kernel

end ActiveSet
