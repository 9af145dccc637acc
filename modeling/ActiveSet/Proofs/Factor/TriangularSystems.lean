import ActiveSet.Proofs.Dense.Products
import ActiveSet.Proofs.Factor.Dimensions
import ActiveSet.Proofs.Factor.Schur
import ActiveSet.Proofs.Factor.Substitution

/-!
# Triangular systems

Four systems are solved by substitution: those with an upper triangular `R` and with its transpose, and
those with a reverse triangular `T` and with its transpose. They differ in the order of the unknowns and in
which equation an unknown is read off. What they have in common is one step: an equation whose unknowns are
known apart from one, with a coefficient that is not zero, determines that one (`Determined.learn`). A
substitution is a sequence of such steps, so that at each moment the unknowns that have been determined are
the only solution of their own equations.

* `Determined`: how far a substitution has got.
* `backSubstituteFrom_answers`, `forwardSubstituteTo_answers`: the two recursions, also where they stop.
* `SolvesSystem`: what is asked of a solver of a linear system.
* `triangular_systems_solved`: the four systems, and the two with `R` one after the other.
-/

namespace ActiveSet

open Finset Matrix

variable {d : ℕ} {tolerance : ℝ} {A : Matrix (Fin d) (Fin d) ℝ} {own : Fin d → Fin d}
  {b before : Fin d → ℝ} {known : Set (Fin d)} {earlier : Fin d → Set (Fin d)}

theorem Tuple.vector_set_of_ne (x : Tuple ℝ d) {p u : Fin d} (h : u ≠ p) (a : ℝ) :
    (x.set p a).vector u = x.vector u := by
  rw [Tuple.vector, Tuple.set_apply _ _ _ u.isLt, if_neg fun heq => h (Fin.ext heq)]
  rfl

-- ---------------------------------------------------------------------------
-- One unknown
-- ---------------------------------------------------------------------------

/-- How far a substitution has got with the system `A x = b`, in which unknown `u` is read off equation
`own u`: the unknowns in `known` have been determined, and the others stand as before. -/
structure Determined (tolerance : ℝ) (A : Matrix (Fin d) (Fin d) ℝ) (own : Fin d → Fin d)
    (b before : Fin d → ℝ) (known : Set (Fin d)) (x : Fin d → ℝ) : Prop where
  /-- The coefficients that were divided by are above the tolerance. -/
  pivots : ∀ u ∈ known, tolerance < |A (own u) u|
  /-- The equations of the known unknowns hold exactly where these have the values of `x`. -/
  solves_iff : ∀ y : Fin d → ℝ,
    (∀ u ∈ known, (A *ᵥ y) (own u) = b (own u)) ↔ ∀ u ∈ known, y u = x u
  /-- The other unknowns are untouched. -/
  kept : ∀ u, u ∉ known → x u = before u

/-- At the start nothing is known. -/
theorem determined_empty : Determined tolerance A own b before ∅ before where
  pivots u hu := absurd hu (Set.notMem_empty u)
  solves_iff _ := iff_of_true (fun u hu => absurd hu (Set.notMem_empty u))
    fun u hu => absurd hu (Set.notMem_empty u)
  kept _ _ := rfl

/-- An equation in which nothing but unknown `p` is new determines it. -/
theorem Determined.learn {x x' : Fin d → ℝ} {p : Fin d}
    (h : Determined tolerance A own b before known x) (hp : p ∉ known)
    (htol : 0 ≤ tolerance) (hpivot : tolerance < |A (own p) p|)
    (hzero : ∀ j, j ≠ p → j ∉ known → A (own p) j = 0)
    (hrow : (A *ᵥ x') (own p) = b (own p)) (hothers : ∀ u, u ≠ p → x' u = x u) :
    Determined tolerance A own b before (insert p known) x' := by
  have hne : A (own p) p ≠ 0 := abs_pos.1 (htol.trans_lt hpivot)
  have hknown : ∀ u ∈ known, x' u = x u := fun u hu => hothers u fun heq => hp (heq ▸ hu)
  -- vectors that agree on the known unknowns differ in equation `p` by what they differ in `p`
  have hequation : ∀ y : Fin d → ℝ, (∀ u ∈ known, y u = x u) →
      ((A *ᵥ y) (own p) = b (own p) ↔ y p = x' p) := by
    intro y hy
    have hdifference : (A *ᵥ y) (own p) - (A *ᵥ x') (own p) = A (own p) p * (y p - x' p) := by
      rw [mulVec, mulVec, ← dotProduct_sub, dotProduct, Finset.sum_eq_single p]
      · rfl
      · intro j _ hj
        by_cases hjk : j ∈ known
        · rw [Pi.sub_apply, hy j hjk, hknown j hjk, sub_self, mul_zero]
        · rw [hzero j hj hjk, zero_mul]
      · exact fun hnot => absurd (Finset.mem_univ p) hnot
    rw [← hrow, ← sub_eq_zero, hdifference, mul_eq_zero, or_iff_right hne, sub_eq_zero]
  refine ⟨?_, fun y => ?_, fun u hu => ?_⟩
  · rintro u (rfl | hu)
    · exact hpivot
    · exact h.pivots u hu
  · rw [Set.forall_mem_insert, Set.forall_mem_insert, h.solves_iff y]
    constructor
    · rintro ⟨hown, hy⟩
      exact ⟨(hequation y hy).1 hown, fun u hu => (hy u hu).trans (hknown u hu).symm⟩
    · rintro ⟨hyp, hy⟩
      have hy : ∀ u ∈ known, y u = x u := fun u hu => (hy u hu).trans (hknown u hu)
      exact ⟨(hequation y hy).2 hyp, hy⟩
  · rw [Set.mem_insert_iff, not_or] at hu
    rw [hothers u hu.1, h.kept u hu.2]

/-- If all unknowns have been determined, they are the only solution of the system. -/
theorem Determined.mulVec_eq_iff {x : Fin d → ℝ}
    (h : Determined tolerance A own b before Set.univ x) (hown : Function.Surjective own)
    (y : Fin d → ℝ) : A *ᵥ y = b ↔ y = x := by
  have hy := h.solves_iff y
  simp only [Set.mem_univ, true_implies] at hy
  rw [funext_iff, funext_iff, ← hy, hown.forall]

-- ---------------------------------------------------------------------------
-- All unknowns
-- ---------------------------------------------------------------------------

/-- What a substitution answers that is to determine the unknowns in `wanted`, where those in `earlier p`
come before unknown `p`. -/
def Answers (tolerance : ℝ) (A : Matrix (Fin d) (Fin d) ℝ) (own : Fin d → Fin d)
    (earlier : Fin d → Set (Fin d)) (b before : Fin d → ℝ) (wanted : Set (Fin d)) :
    Except (Failure (Tuple ℝ d)) (Tuple ℝ d) → Prop
  | .ok x => Determined tolerance A own b before wanted x.vector
  | .error e => e.error = .divByZero ∧ ∃ p, |A (own p) p| ≤ tolerance ∧
      Determined tolerance A own b before (earlier p) e.left.vector

section Recursions

variable {coef : ℕ → ℕ → ℝ} {rhs : ℕ → ℝ} {k : ℕ} {x : Tuple ℝ d}

/-- What is left of a right-hand side after the later unknowns, divided by the pivot, solves an equation
without earlier ones. -/
theorem row_set_deduct_later (hk : k < d) (hne : coef k k ≠ 0)
    (hzero : ∀ j, j < k → coef k j = 0) (c : ℝ) :
    ∑ j ∈ range d, coef k j * (x.set k
      (deduct c (d - (k + 1)) (fun j => coef k (k + 1 + j) * x (k + 1 + j)) / coef k k)) j = c := by
  rw [deduct_eq_sum, sum_of_upper hk fun j hj => by rw [hzero j hj, zero_mul],
    Tuple.set_apply _ _ _ hk, if_pos rfl, mul_div_cancel₀ _ hne]
  refine (congrArg _ (Finset.sum_congr rfl fun j hj => ?_)).trans (sub_add_cancel _ _)
  have hj := mem_range.1 hj
  rw [Tuple.set_apply _ _ _ (by omega), if_neg (by omega)]

/-- What is left of a right-hand side after the earlier unknowns, divided by the pivot, solves an equation
without later ones. -/
theorem row_set_deduct_earlier (hk : k < d) (hne : coef k k ≠ 0)
    (hzero : ∀ j, k < j → j < d → coef k j = 0) (c : ℝ) :
    ∑ j ∈ range d, coef k j * (x.set k (deduct c k (fun j => coef k j * x j) / coef k k)) j = c := by
  rw [deduct_eq_sum, sum_of_lower hk fun j hj hjd => by rw [hzero j hj hjd, zero_mul],
    Tuple.set_apply _ _ _ hk, if_pos rfl, mul_div_cancel₀ _ hne]
  refine (congrArg _ (Finset.sum_congr rfl fun j hj => ?_)).trans (sub_add_cancel _ _)
  have hj := mem_range.1 hj
  rw [Tuple.set_apply _ _ _ (by omega), if_neg (by omega)]

theorem isNegligible_eq_true_iff {pivot : ℝ} :
    isNegligible tolerance pivot = true ↔ |pivot| ≤ tolerance :=
  decide_eq_true_iff

theorem ne_zero_of_not_isNegligible {pivot : ℝ} (htol : 0 ≤ tolerance)
    (h : ¬isNegligible tolerance pivot = true) : pivot ≠ 0 := by
  rw [isNegligible_eq_true_iff, not_le] at h
  exact abs_pos.1 (htol.trans_lt h)

/-- One step of a substitution, with the coefficients as it reads them. -/
theorem Determined.step {p : Fin d} {a : ℝ}
    (h : Determined tolerance A own b before known x.vector) (hp : p ∉ known) (htol : 0 ≤ tolerance)
    (hcoef : ∀ j : Fin d, coef p j = A (own p) j)
    (hlarge : ¬isNegligible tolerance (coef p p) = true)
    (hzero : ∀ j, j ≠ p → j ∉ known → A (own p) j = 0)
    (hrow : ∑ j ∈ range d, coef p j * (x.set p a) j = b (own p)) :
    Determined tolerance A own b before (insert p known) (x.set p a).vector := by
  rw [isNegligible_eq_true_iff, not_le, hcoef p] at hlarge
  refine h.learn hp htol hlarge hzero ?_ fun u hu => x.vector_set_of_ne hu a
  rw [← hrow, Finset.sum_range]
  show ∑ j : Fin d, A (own p) j * (x.set p a) j = _
  exact Finset.sum_congr rfl fun j _ => by rw [hcoef]

/-- A back substitution goes through the unknowns from the last one on. -/
theorem backSubstituteFrom_answers (htol : 0 ≤ tolerance)
    (hupper : ∀ u j : Fin d, j < u → A (own u) j = 0)
    (hcoef : ∀ u j : Fin d, coef u j = A (own u) j) (hrhs : ∀ u : Fin d, rhs u = b (own u))
    (hk : k ≤ d) (h : Determined tolerance A own b before {u | k ≤ u.val} x.vector) :
    Answers tolerance A own Set.Ioi b before Set.univ
      (backSubstituteFrom tolerance coef rhs k x) := by
  induction k generalizing x with
  | zero =>
    have hall : {u : Fin d | 0 ≤ u.val} = Set.univ :=
      Set.eq_univ_of_forall fun u => Nat.zero_le u.val
    rw [hall] at h
    exact h
  | succ k ih =>
    have hkd : k < d := hk
    let p : Fin d := ⟨k, hkd⟩
    have hzero : ∀ j, j < k → coef k j = 0 := fun j hj =>
      (hcoef p ⟨j, Nat.lt_trans hj hkd⟩).trans (hupper p _ hj)
    have hgrown : {u : Fin d | k ≤ u.val} = insert p {u : Fin d | k + 1 ≤ u.val} := by
      ext u
      rw [Set.mem_insert_iff, Fin.ext_iff]
      show k ≤ u.val ↔ u.val = k ∨ k + 1 ≤ u.val
      omega
    rw [backSubstituteFrom]
    split
    · next hsmall =>
      -- the unknowns after `p` are the ones that are known
      rw [isNegligible_eq_true_iff, hcoef p p] at hsmall
      exact ⟨rfl, p, hsmall, h⟩
    · next hlarge =>
      have hne := ne_zero_of_not_isNegligible htol hlarge
      refine ih (by omega) ?_
      rw [hgrown]
      refine h.step (fun hp => Nat.not_succ_le_self k hp) htol (hcoef p) hlarge (fun j hj hjk => ?_)
        ((row_set_deduct_later hkd hne hzero _).trans (hrhs p))
      have hjp : j.val ≠ k := fun heq => hj (Fin.ext heq)
      have hjk : ¬k + 1 ≤ j.val := hjk
      exact hupper p j (show j.val < k by omega)

/-- A forward substitution goes through the unknowns from the first one on. -/
theorem forwardSubstituteTo_answers (htol : 0 ≤ tolerance)
    (hlower : ∀ u j : Fin d, u < j → A (own u) j = 0)
    (hcoef : ∀ u j : Fin d, coef u j = A (own u) j) (hrhs : ∀ u : Fin d, rhs u = b (own u))
    (hk : k ≤ d) :
    Answers tolerance A own Set.Iio b x.vector {u | u.val < k}
      (forwardSubstituteTo tolerance coef rhs k x) := by
  induction k with
  | zero =>
    have hnone : {u : Fin d | u.val < 0} = ∅ :=
      Set.eq_empty_of_forall_notMem fun u => Nat.not_lt_zero u.val
    rw [hnone]
    exact determined_empty
  | succ k ih =>
    have hkd : k < d := hk
    let p : Fin d := ⟨k, hkd⟩
    have hzero : ∀ j, k < j → j < d → coef k j = 0 := fun j hj hjd =>
      (hcoef p ⟨j, hjd⟩).trans (hlower p _ hj)
    have hgrown : {u : Fin d | u.val < k + 1} = insert p {u : Fin d | u.val < k} := by
      ext u
      rw [Set.mem_insert_iff, Fin.ext_iff]
      show u.val < k + 1 ↔ u.val = k ∨ u.val < k
      omega
    have ih := ih (by omega)
    rw [forwardSubstituteTo]
    cases hfirst : forwardSubstituteTo tolerance coef rhs k x with
    | error e =>
      -- what stops the substitution early stops it here, too
      rw [hfirst] at ih
      exact ih
    | ok x1 =>
      rw [hfirst] at ih
      have h : Determined tolerance A own b x.vector {u | u.val < k} x1.vector := ih
      show Answers tolerance A own Set.Iio b x.vector {u | u.val < k + 1}
        (if isNegligible tolerance (coef k k) = true then _ else _)
      split
      · next hsmall =>
        rw [isNegligible_eq_true_iff, hcoef p p] at hsmall
        exact ⟨rfl, p, hsmall, h⟩
      · next hlarge =>
        have hne := ne_zero_of_not_isNegligible htol hlarge
        rw [hgrown]
        refine h.step (fun hp => Nat.lt_irrefl k hp) htol (hcoef p) hlarge (fun j hj hjk => ?_)
          ((row_set_deduct_earlier hkd hne hzero _).trans (hrhs p))
        have hjp : j.val ≠ k := fun heq => hj (Fin.ext heq)
        have hjk : ¬j.val < k := hjk
        exact hlower p j (show k < j.val by omega)

/-- A back substitution starts with no unknown after the last one. -/
theorem determined_start (x : Tuple ℝ d) :
    Determined tolerance A own b x.vector {u | d ≤ u.val} x.vector := by
  have hnone : {u : Fin d | d ≤ u.val} = ∅ :=
    Set.eq_empty_of_forall_notMem fun u hu => Nat.not_le_of_lt u.isLt hu
  rw [hnone]
  exact determined_empty

end Recursions

-- ---------------------------------------------------------------------------
-- Systems
-- ---------------------------------------------------------------------------

/-- `outcome` is the answer of a solver for `A x = b` that takes the unknowns in a fixed order, with those
in `earlier p` before unknown `p`, reads unknown `u` off equation `own u`, and writes over `before`. -/
structure SolvesSystem (tolerance : ℝ) (A : Matrix (Fin d) (Fin d) ℝ) (own : Fin d → Fin d)
    (earlier : Fin d → Set (Fin d)) (b before : Fin d → ℝ)
    (outcome : Except (Failure (Tuple ℝ d)) (Tuple ℝ d)) : Prop where
  /-- It succeeds exactly if all pivots are above the tolerance. -/
  ok_iff : (∃ x, outcome = .ok x) ↔ ∀ u, tolerance < |A (own u) u|
  /-- The result is the only solution. -/
  solution : ∀ x, outcome = .ok x → ∀ y, A *ᵥ y = b ↔ y = x.vector
  /-- A failure is one at the first pivot that is not. The unknowns before it have been determined, and
  the others have not been touched. -/
  stopped : ∀ e, outcome = .error e → e.error = .divByZero ∧ ∃ p, |A (own p) p| ≤ tolerance ∧
    Determined tolerance A own b before (earlier p) e.left.vector

theorem Answers.solvesSystem {outcome : Except (Failure (Tuple ℝ d)) (Tuple ℝ d)}
    (h : Answers tolerance A own earlier b before Set.univ outcome)
    (hown : Function.Surjective own) : SolvesSystem tolerance A own earlier b before outcome := by
  cases outcome with
  | ok x =>
    have h : Determined tolerance A own b before Set.univ x.vector := h
    refine ⟨iff_of_true ⟨x, rfl⟩ fun u => h.pivots u trivial, fun x' heq => ?_, nofun⟩
    cases heq
    exact h.mulVec_eq_iff hown
  | error e =>
    obtain ⟨herror, p, hp, hleft⟩ := h
    refine ⟨iff_of_false nofun fun hall => (hall p).not_ge hp, nofun, fun e' heq => ?_⟩
    cases heq
    exact ⟨herror, p, hp, hleft⟩

section Solvers

theorem rev_val (u : Fin d) : u.rev.val = d - 1 - u.val := by
  rw [Fin.val_rev]
  omega

variable {n m : ℕ} {tolerance : ℝ}

namespace Cholesky

/-- The factor `R` as a matrix. -/
def triangle (f : Cholesky ℝ n) : Matrix (Fin f.dim) (Fin f.dim) ℝ := leadingBlock f.dim f.entries

variable {f : Cholesky ℝ n}

theorem solveR?_solvesSystem (htol : 0 ≤ tolerance) (hupper : f.triangle.BlockTriangular id)
    (b : Tuple ℝ f.dim) :
    ∃ outcome, f.solveR? tolerance b = some outcome ∧
      SolvesSystem tolerance f.triangle id Set.Ioi b.vector b.vector outcome := by
  refine ⟨_, f.solveR?_of tolerance b rfl, Answers.solvesSystem ?_ Function.surjective_id⟩
  exact backSubstituteFrom_answers htol (fun _ _ hju => hupper hju) (fun _ _ => rfl) (fun _ => rfl)
    (Nat.le_refl _) (determined_start b)

theorem solveRT?_solvesSystem (htol : 0 ≤ tolerance) (hupper : f.triangle.BlockTriangular id)
    (b : Tuple ℝ f.dim) :
    ∃ outcome, f.solveRT? tolerance b = some outcome ∧
      SolvesSystem tolerance f.triangleᵀ id Set.Iio b.vector b.vector outcome := by
  refine ⟨_, f.solveRT?_of tolerance b rfl, Answers.solvesSystem ?_ Function.surjective_id⟩
  have hanswers : Answers tolerance f.triangleᵀ id Set.Iio b.vector b.vector {u | u.val < f.dim}
      (forwardSubstituteTo tolerance (fun i j => f.entries j i) b f.dim b) :=
    forwardSubstituteTo_answers htol (fun _ _ huj => hupper huj) (fun _ _ => rfl) (fun _ => rfl)
      (Nat.le_refl _)
  have hall : {u : Fin f.dim | u.val < f.dim} = Set.univ := Set.eq_univ_of_forall fun u => u.isLt
  rw [hall] at hanswers
  exact hanswers

/-- The systems with the transpose and with the factor, one after the other, are the one with their
product. -/
theorem solveRT?_solveR?_solution (htol : 0 ≤ tolerance) (hupper : f.triangle.BlockTriangular id)
    {b z w : Tuple ℝ f.dim} (hz : f.solveRT? tolerance b = some (.ok z))
    (hw : f.solveR? tolerance z = some (.ok w)) (y : Fin f.dim → ℝ) :
    (f.triangleᵀ * f.triangle) *ᵥ y = b.vector ↔ y = w.vector := by
  obtain ⟨first, hfirst, hlower⟩ := solveRT?_solvesSystem htol hupper b
  obtain ⟨second, hsecond, hupper⟩ := solveR?_solvesSystem htol hupper z
  have hz : first = .ok z := Option.some.inj (hfirst.symm.trans hz)
  have hw : second = .ok w := Option.some.inj (hsecond.symm.trans hw)
  rw [← mulVec_mulVec, hlower.solution z hz, hupper.solution w hw]

/-- They can be solved one after the other exactly if no pivot is too small. -/
theorem solveRT?_solveR?_ok_iff (htol : 0 ≤ tolerance) (hupper : f.triangle.BlockTriangular id)
    (b : Tuple ℝ f.dim) :
    (∃ z w, f.solveRT? tolerance b = some (.ok z) ∧ f.solveR? tolerance z = some (.ok w)) ↔
      ∀ u, tolerance < |f.triangle u u| := by
  obtain ⟨first, hfirst, hlower⟩ := solveRT?_solvesSystem htol hupper b
  rw [hfirst]
  constructor
  · rintro ⟨z, w, hz, -⟩
    exact hlower.ok_iff.1 ⟨z, Option.some.inj hz⟩
  · intro hall
    obtain ⟨z, hz⟩ := hlower.ok_iff.2 hall
    obtain ⟨second, hsecond, hupper⟩ := solveR?_solvesSystem htol hupper z
    obtain ⟨w, hw⟩ := hupper.ok_iff.2 hall
    exact ⟨z, w, congrArg some hz, hsecond.trans (congrArg some hw)⟩

end Cholesky

namespace NullSpace

/-- The block `T` as a matrix. -/
def triangle (f : NullSpace ℝ n m) : Matrix (Fin f.nActive) (Fin f.nActive) ℝ :=
  leadingBlock f.nActive f.t

variable {f : NullSpace ℝ n m}

theorem solveT?_solvesSystem (htol : 0 ≤ tolerance)
    (hreverse : ∀ i j : Fin f.nActive, j < i.rev → f.triangle i j = 0)
    (b x : Tuple ℝ f.nActive) :
    ∃ outcome, f.solveT? tolerance b x = some outcome ∧
      SolvesSystem tolerance f.triangle Fin.rev Set.Ioi b.vector x.vector outcome := by
  refine ⟨_, f.solveT?_of tolerance b x rfl, Answers.solvesSystem ?_ Fin.rev_surjective⟩
  refine backSubstituteFrom_answers htol (fun u j hju => hreverse _ _ ?_) (fun u j => ?_)
    (fun u => ?_) (Nat.le_refl _) (determined_start x)
  · rwa [Fin.rev_rev]
  · rw [← rev_val]
    rfl
  · rw [← rev_val]
    rfl

theorem solveTT?_solvesSystem (htol : 0 ≤ tolerance)
    (hreverse : ∀ i j : Fin f.nActive, j < i.rev → f.triangle i j = 0)
    (b x : Tuple ℝ f.nActive) :
    ∃ outcome, f.solveTT? tolerance b x = some outcome ∧
      SolvesSystem tolerance f.triangleᵀ Fin.rev Set.Ioi b.vector x.vector outcome := by
  refine ⟨_, f.solveTT?_of tolerance b x rfl, Answers.solvesSystem ?_ Fin.rev_surjective⟩
  refine backSubstituteFrom_answers htol (fun u j hju => hreverse _ _ ?_) (fun u j => ?_)
    (fun u => ?_) (Nat.le_refl _) (determined_start x)
  · exact Fin.rev_lt_rev.2 hju
  · rw [← rev_val]
    rfl
  · rw [← rev_val]
    rfl

end NullSpace

end Solvers

/-- The four systems of the two factorizations, in exact arithmetic. For an upper triangular `R`, and for a
`T` of any order whose rows are zero left of the antidiagonal, whatever else the buffers hold, a system with
the matrix or with its transpose is solved exactly if the magnitudes of the pivots, on the diagonal of `R` or
on the antidiagonal of `T`, are above the tolerance. The result is the only solution then, and a failure
leaves the part of it that was determined before the pivot, and all else as it was. The two systems with `R`,
one after the other, solve the one with `Rᵀ R`. -/
theorem triangular_systems_solved (n m : ℕ) (tolerance : ℝ) (htol : 0 ≤ tolerance) :
    (∀ f : Cholesky ℝ n, f.triangle.BlockTriangular id →
      ∀ b : Tuple ℝ f.dim,
        (∃ outcome, f.solveR? tolerance b = some outcome ∧
          SolvesSystem tolerance f.triangle id Set.Ioi b.vector b.vector outcome) ∧
        (∃ outcome, f.solveRT? tolerance b = some outcome ∧
          SolvesSystem tolerance f.triangleᵀ id Set.Iio b.vector b.vector outcome) ∧
        ((∃ z w, f.solveRT? tolerance b = some (.ok z) ∧ f.solveR? tolerance z = some (.ok w)) ↔
          ∀ u, tolerance < |f.triangle u u|) ∧
        ∀ z w, f.solveRT? tolerance b = some (.ok z) → f.solveR? tolerance z = some (.ok w) →
          ∀ y, (f.triangleᵀ * f.triangle) *ᵥ y = b.vector ↔ y = w.vector) ∧
      ∀ f : NullSpace ℝ n m,
        (∀ i j : Fin f.nActive, j < i.rev → f.triangle i j = 0) →
        ∀ b x : Tuple ℝ f.nActive,
          (∃ outcome, f.solveT? tolerance b x = some outcome ∧
            SolvesSystem tolerance f.triangle Fin.rev Set.Ioi b.vector x.vector outcome) ∧
          ∃ outcome, f.solveTT? tolerance b x = some outcome ∧
            SolvesSystem tolerance f.triangleᵀ Fin.rev Set.Ioi b.vector x.vector outcome :=
  ⟨fun _ hupper b => ⟨Cholesky.solveR?_solvesSystem htol hupper b,
      Cholesky.solveRT?_solvesSystem htol hupper b, Cholesky.solveRT?_solveR?_ok_iff htol hupper b,
      fun _ _ => Cholesky.solveRT?_solveR?_solution htol hupper⟩,
    fun _ hreverse b x => ⟨NullSpace.solveT?_solvesSystem htol hreverse b x,
      NullSpace.solveTT?_solvesSystem htol hreverse b x⟩⟩

/-- A grid that was built from a formula has the entries of the formula. -/
theorem leadingBlock_ofFn (d : ℕ) (F : ℕ → ℕ → ℝ) :
    leadingBlock d (Grid.ofFn d d F) = leadingBlock d F := by
  ext i j
  exact Grid.ofFn_apply i.isLt j.isLt

/-- Two matrices that are not symmetric. The first unknown of one system has a pivot below the tolerance, and
stays what it was when the second one has been found; the other system is solved. -/
theorem triangular_systems_solved_skew :
    ∃ b : Tuple ℝ 2, b.vector = ![4, 5] ∧
      (∃ f : Cholesky ℝ 2, f.dim = 2 ∧ leadingBlock 2 f.entries = !![1 / 4, 1; 0, 2] ∧
        ∃ e, f.solveR? (1 / 2) b = some (.error e) ∧ e.error = .divByZero ∧
          e.left.vector = ![4, 5 / 2]) ∧
      ∃ f : NullSpace ℝ 2 2, f.nActive = 2 ∧ leadingBlock 2 f.t = !![0, 2; 1, 3] ∧
        ∃ x, f.solveT? (1 / 2) b b = some (.ok x) ∧ x.vector = ![-1, 2] := by
  let b : Tuple ℝ 2 := .ofFn 2 fun i => 4 + i
  let R (i j : ℕ) : ℝ := if i = j then if i = 0 then 1 / 4 else 2 else if i = 0 then 1 else 0
  let T (i j : ℕ) : ℝ := if i = j then if i = 0 then 0 else 3 else if i = 0 then 2 else 1
  let f : Cholesky ℝ 2 := ⟨.ofFn 2 2 R, 2, le_rfl⟩
  let g : NullSpace ℝ 2 2 :=
    { q := .fill 2 2 0
      t := .ofFn 2 2 T
      nFree := 2
      nActive := 2
      nFree_le := le_rfl
      nActive_le := le_rfl
      nActive_le_capacity := le_rfl }
  have hb : b.vector = ![4, 5] := by
    ext i
    rw [Tuple.vector, Tuple.ofFn_apply i.isLt]
    fin_cases i <;> norm_num
  have hf : f.triangle = !![1 / 4, 1; 0, 2] := by
    refine (leadingBlock_ofFn 2 R).trans ?_
    ext i j
    fin_cases i <;> fin_cases j <;> rfl
  have hg : g.triangle = !![0, 2; 1, 3] := by
    refine (leadingBlock_ofFn 2 T).trans ?_
    ext i j
    fin_cases i <;> fin_cases j <;> rfl
  have hupper : f.triangle.BlockTriangular id := by
    rw [hf]
    intro i j hji
    fin_cases i <;> fin_cases j <;> simp at hji ⊢
  have hreverse : ∀ i j : Fin 2, j < i.rev → g.triangle i j = 0 := by
    rw [hg]
    intro i j hji
    fin_cases i <;> fin_cases j <;> simp at hji ⊢
  obtain ⟨hfactor, hnull⟩ := triangular_systems_solved 2 2 (1 / 2) (by norm_num)
  refine ⟨b, hb, ⟨f, rfl, hf, ?_⟩, g, rfl, hg, ?_⟩
  · obtain ⟨⟨outcome, h, hsolves⟩, -⟩ := hfactor f hupper b
    rw [hf, hb] at hsolves
    cases outcome with
    | ok x =>
      -- the first pivot is a quarter
      have hpivot := hsolves.ok_iff.1 ⟨x, rfl⟩ 0
      norm_num at hpivot
    | error e =>
      obtain ⟨herror, p, hp, hleft⟩ := hsolves.stopped e rfl
      have hp : p = 0 := by
        fin_cases p
        · rfl
        · norm_num at hp
      subst hp
      refine ⟨e, h, herror, ?_⟩
      have hfirst : e.left.vector 0 = 4 := hleft.kept 0 Set.self_notMem_Ioi
      have hsecond : (!![1 / 4, 1; 0, 2] *ᵥ e.left.vector) 1 = 5 :=
        (hleft.solves_iff e.left.vector).2 (fun _ _ => rfl) 1 (Set.mem_Ioi.2 Fin.zero_lt_one)
      simp only [mulVec, vec2_dotProduct, of_apply, cons_val_one, cons_val_zero] at hsecond
      ext i
      fin_cases i
      · exact hfirst
      · show e.left.vector 1 = 5 / 2
        linarith
  · obtain ⟨⟨outcome, h, hsolves⟩, -⟩ := hnull g hreverse b b
    have hsolves : SolvesSystem (1 / 2) !![0, 2; 1, 3] Fin.rev Set.Ioi ![4, 5] ![4, 5] outcome := by
      rw [← hg, ← hb]
      exact hsolves
    obtain ⟨x, rfl⟩ := hsolves.ok_iff.2 fun u => by fin_cases u <;> norm_num [Fin.rev]
    refine ⟨x, h, ((hsolves.solution x rfl _).1 ?_).symm⟩
    ext i
    fin_cases i <;> norm_num [mulVec, vec2_dotProduct]

end ActiveSet
