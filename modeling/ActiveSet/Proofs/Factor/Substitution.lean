import ActiveSet.Factor.Substitution
import ActiveSet.Proofs.Exact.Real
import ActiveSet.Proofs.Update

/-!
# Substitution solves triangular systems

In exact arithmetic a substitution that comes to an end solves its system, provided no pivot is
zero. How large a pivot has to be for the substitution to go on does not matter for that.

* `backSubstitute_solves`, `eq_zero_of_upper`: an upper triangular system.
* `forwardSubstitute_solves`: a lower triangular system.
* `backSubstitute_eq_zero`, `forwardSubstitute_eq_zero`: systems without right-hand side.
* `backSubstitute_ok_iff`, `forwardSubstitute_ok_iff`: both come to an end if no pivot is too small.
-/

namespace ActiveSet

open Finset

variable {n : ℕ} {tolerance : ℝ} {F : ℕ → ℕ → ℝ} {b : ℕ → ℝ}

-- ---------------------------------------------------------------------------
-- Upper triangular systems
-- ---------------------------------------------------------------------------

theorem backSubstituteFrom_succ {k : ℕ} {x x' : Tuple ℝ n}
    (h : backSubstituteFrom tolerance F b (k + 1) x = .ok x') :
    backSubstituteFrom tolerance F b k (x.set k
      (deduct (b k) (n - (k + 1)) (fun j => F k (k + 1 + j) * x (k + 1 + j)) /
        F k k)) = .ok x' := by
  rw [backSubstituteFrom] at h
  split at h
  · cases h
  · exact h

/-- The unknowns that are known already stay, and the others solve their equations. -/
theorem backSubstituteFrom_spec : ∀ {k : ℕ} {x x' : Tuple ℝ n}, k ≤ n →
    (∀ i, i < k → F i i ≠ 0) → backSubstituteFrom tolerance F b k x = .ok x' →
      (∀ i, k ≤ i → x' i = x i) ∧ ∀ i, i < k →
        F i i * x' i + ∑ j ∈ range (n - (i + 1)), F i (i + 1 + j) * x' (i + 1 + j) =
          b i := by
  intro k
  induction k with
  | zero =>
    intro x x' _ _ h
    rw [backSubstituteFrom_zero] at h
    cases h
    exact ⟨fun i _ => rfl, fun i hi => absurd hi (Nat.not_lt_zero i)⟩
  | succ k ih =>
    intro x x' hk hpivot h
    have hnext := backSubstituteFrom_succ h
    rw [deduct_eq_sum] at hnext
    obtain ⟨hkept, hsolved⟩ := ih (by omega) (fun i hi => hpivot i (by omega)) hnext
    -- unknowns after `k` are those of the start
    have hlater : ∀ i, k + 1 ≤ i → x' i = x i := by
      intro i hi
      rw [hkept i (by omega)]
      by_cases hin : i < n
      · rw [Tuple.set_apply _ _ _ hin, if_neg (by omega)]
      · rw [Tuple.apply_of_le _ (by omega), Tuple.apply_of_le _ (by omega)]
    refine ⟨hlater, fun i hi => ?_⟩
    rcases Nat.lt_succ_iff_lt_or_eq.1 hi with hlt | rfl
    · exact hsolved i hlt
    · have hown := hkept i (Nat.le_refl i)
      rw [Tuple.set_apply _ _ _ (by omega), if_pos rfl] at hown
      have hsum : ∑ j ∈ range (n - (i + 1)), F i (i + 1 + j) * x' (i + 1 + j) =
          ∑ j ∈ range (n - (i + 1)), F i (i + 1 + j) * x (i + 1 + j) :=
        Finset.sum_congr rfl fun j _ => by rw [hlater _ (by omega)]
      have hne := hpivot i (Nat.lt_succ_self i)
      rw [hown, hsum]
      field_simp
      ring

/-- A sum over a row that is zero left of the diagonal starts at the diagonal. -/
theorem sum_of_upper {i : ℕ} (hi : i < n) {f : ℕ → ℝ} (hf : ∀ j, j < i → f j = 0) :
    ∑ j ∈ range n, f j = f i + ∑ j ∈ range (n - (i + 1)), f (i + 1 + j) := by
  have hsplit : n = (i + 1) + (n - (i + 1)) := by omega
  have hzero : ∑ j ∈ range i, f j = 0 := sum_eq_zero fun j hj => hf j (mem_range.1 hj)
  calc ∑ j ∈ range n, f j = ∑ j ∈ range ((i + 1) + (n - (i + 1))), f j := by rw [← hsplit]
    _ = f i + ∑ j ∈ range (n - (i + 1)), f (i + 1 + j) := by
      rw [sum_range_add, sum_range_succ, hzero, zero_add]

/-- A back substitution that comes to an end solves its system. -/
theorem backSubstitute_solves {x x' : Tuple ℝ n}
    (hupper : ∀ i j, j < i → i < n → F i j = 0) (hpivot : ∀ i, i < n → F i i ≠ 0)
    (h : backSubstitute tolerance F b x = .ok x') :
    ∀ i, i < n → ∑ j ∈ range n, F i j * x' j = b i := by
  intro i hi
  have hsolved := (backSubstituteFrom_spec (Nat.le_refl n) hpivot h).2 i hi
  rw [sum_of_upper hi fun j hj => by rw [hupper i j hj hi, zero_mul]]
  exact hsolved

/-- An upper triangular system without right-hand side has no solution but zero. -/
theorem eq_zero_of_upper {x : ℕ → ℝ} (hupper : ∀ i j, j < i → i < n → F i j = 0)
    (hpivot : ∀ i, i < n → F i i ≠ 0)
    (h : ∀ i, i < n → ∑ j ∈ range n, F i j * x j = 0) : ∀ i, i < n → x i = 0 := by
  -- the last unknown is zero, and with it the one before, and so on
  suffices hlater : ∀ k i, i < n → n ≤ i + k → x i = 0 from
    fun i hi => hlater n i hi (by omega)
  intro k
  induction k with
  | zero => exact fun i hi hk => absurd hk (by omega)
  | succ k ih =>
    intro i hi hk
    have hrow := h i hi
    have hzero : ∑ j ∈ range (n - (i + 1)), F i (i + 1 + j) * x (i + 1 + j) = 0 := by
      refine sum_eq_zero fun j hj => ?_
      have := mem_range.1 hj
      rw [ih (i + 1 + j) (by omega) (by omega), mul_zero]
    rw [sum_of_upper hi fun j hj => by rw [hupper i j hj hi, zero_mul], hzero, add_zero] at hrow
    exact (mul_eq_zero.1 hrow).resolve_left (hpivot i hi)

-- ---------------------------------------------------------------------------
-- Lower triangular systems
-- ---------------------------------------------------------------------------

theorem forwardSubstituteTo_succ {k : ℕ} {x x' : Tuple ℝ n}
    (h : forwardSubstituteTo tolerance F b (k + 1) x = .ok x') :
    ∃ x1, forwardSubstituteTo tolerance F b k x = .ok x1 ∧
      x' = x1.set k (deduct (b k) k (fun j => F k j * x1 j) / F k k) := by
  rw [forwardSubstituteTo] at h
  obtain ⟨x1, hfirst, h⟩ := exists_of_bind_ok h
  split at h
  · cases h
  · cases h
    exact ⟨x1, hfirst, rfl⟩

/-- The first unknowns solve their equations, and the others stay. -/
theorem forwardSubstituteTo_spec : ∀ {k : ℕ} {x x' : Tuple ℝ n}, k ≤ n →
    (∀ i, i < k → F i i ≠ 0) → forwardSubstituteTo tolerance F b k x = .ok x' →
      ∀ i, i < k → F i i * x' i + ∑ j ∈ range i, F i j * x' j = b i := by
  intro k
  induction k with
  | zero => exact fun _ _ _ i hi => absurd hi (Nat.not_lt_zero i)
  | succ k ih =>
    intro x x' hk hpivot h i hi
    obtain ⟨x1, hfirst, hx'⟩ := forwardSubstituteTo_succ h
    have hsolved := ih (by omega) (fun i hi => hpivot i (by omega)) hfirst
    rw [deduct_eq_sum] at hx'
    -- unknowns before `k` are the ones that were found first
    have hkept : ∀ j, j < k → x' j = x1 j := by
      intro j hj
      rw [hx', Tuple.set_apply _ _ _ (by omega), if_neg (by omega)]
    have hsum : ∑ j ∈ range i, F i j * x' j = ∑ j ∈ range i, F i j * x1 j :=
      Finset.sum_congr rfl fun j hj => by
        have := mem_range.1 hj
        rw [hkept j (by omega)]
    rw [hsum]
    rcases Nat.lt_succ_iff_lt_or_eq.1 hi with hlt | rfl
    · rw [hkept i hlt]
      exact hsolved i hlt
    · have hne := hpivot i (Nat.lt_succ_self i)
      rw [hx', Tuple.set_apply _ _ _ (by omega), if_pos rfl]
      field_simp
      ring

/-- A sum over a row that is zero right of the diagonal ends at the diagonal. -/
theorem sum_of_lower {i : ℕ} (hi : i < n) {f : ℕ → ℝ} (hf : ∀ j, i < j → j < n → f j = 0) :
    ∑ j ∈ range n, f j = f i + ∑ j ∈ range i, f j := by
  have hsub : range (i + 1) ⊆ range n := range_subset_range.2 hi
  rw [← sum_subset hsub, sum_range_succ, add_comm]
  intro j hj hnot
  rw [mem_range] at hj hnot
  exact hf j (by omega) hj

/-- A forward substitution that comes to an end solves its system. -/
theorem forwardSubstitute_solves {x x' : Tuple ℝ n}
    (hlower : ∀ i j, i < j → j < n → F i j = 0) (hpivot : ∀ i, i < n → F i i ≠ 0)
    (h : forwardSubstitute tolerance F b x = .ok x') :
    ∀ i, i < n → ∑ j ∈ range n, F i j * x' j = b i := by
  intro i hi
  have hsolved := forwardSubstituteTo_spec (Nat.le_refl n) hpivot h i hi
  rw [sum_of_lower hi fun j hj hjn => by rw [hlower i j hj hjn, zero_mul]]
  exact hsolved

-- ---------------------------------------------------------------------------
-- Without right-hand side
-- ---------------------------------------------------------------------------

/-- What is known to be zero makes the other unknowns zero as well. -/
theorem backSubstituteFrom_eq_zero : ∀ {k : ℕ} {x x' : Tuple ℝ n}, (∀ i, i < k → b i = 0) →
    (∀ i, k ≤ i → x i = 0) → backSubstituteFrom tolerance F b k x = .ok x' → ∀ i, x' i = 0 := by
  intro k
  induction k with
  | zero =>
    intro x x' _ hx h i
    rw [backSubstituteFrom_zero] at h
    cases h
    exact hx i (Nat.zero_le i)
  | succ k ih =>
    intro x x' hb hx h
    refine ih (fun i hi => hb i (by omega)) (fun i hi => ?_) (backSubstituteFrom_succ h)
    -- the entry solved for is zero, as are the ones after it
    have hown : deduct (b k) (n - (k + 1)) (fun j => F k (k + 1 + j) * x (k + 1 + j)) = 0 := by
      rw [deduct_eq_sum, hb k (Nat.lt_succ_self k), zero_sub, neg_eq_zero]
      exact sum_eq_zero fun j _ => by rw [hx _ (by omega), mul_zero]
    by_cases hin : i < n
    · rw [Tuple.set_apply _ _ _ hin, hown, zero_div]
      split
      · rfl
      · next hne => exact hx i (by omega)
    · exact Tuple.apply_of_le _ (by omega)

/-- A back substitution without right-hand side finds zero. -/
theorem backSubstitute_eq_zero {x x' : Tuple ℝ n} (hb : ∀ i, i < n → b i = 0)
    (h : backSubstitute tolerance F b x = .ok x') (i : ℕ) : x' i = 0 :=
  backSubstituteFrom_eq_zero hb (fun _ hi => Tuple.apply_of_le _ hi) h i

/-- The first unknowns are zero. -/
theorem forwardSubstituteTo_eq_zero : ∀ {k : ℕ} {x x' : Tuple ℝ n}, (∀ i, i < k → b i = 0) →
    forwardSubstituteTo tolerance F b k x = .ok x' → ∀ i, i < k → x' i = 0 := by
  intro k
  induction k with
  | zero => exact fun _ _ i hi => absurd hi (Nat.not_lt_zero i)
  | succ k ih =>
    intro x x' hb h i hi
    obtain ⟨x1, hfirst, rfl⟩ := forwardSubstituteTo_succ h
    have hbefore := ih (fun i hi => hb i (by omega)) hfirst
    by_cases hin : i < n
    · rw [Tuple.set_apply _ _ _ hin]
      split
      · rw [deduct_eq_sum, hb k (Nat.lt_succ_self k), zero_sub, sum_eq_zero, neg_zero, zero_div]
        exact fun j hj => by rw [hbefore j (mem_range.1 hj), mul_zero]
      · next hne => exact hbefore i (by omega)
    · exact Tuple.apply_of_le _ (by omega)

/-- A forward substitution without right-hand side finds zero. -/
theorem forwardSubstitute_eq_zero {x x' : Tuple ℝ n} (hb : ∀ i, i < n → b i = 0)
    (h : forwardSubstitute tolerance F b x = .ok x') (i : ℕ) : x' i = 0 := by
  by_cases hin : i < n
  · exact forwardSubstituteTo_eq_zero hb h i hin
  · exact Tuple.apply_of_le _ (by omega)

-- ---------------------------------------------------------------------------
-- Whether a substitution comes to an end
-- ---------------------------------------------------------------------------

section Ends

variable {K : Type} [Scalar K] {tolerance : K} {F : ℕ → ℕ → K} {b : ℕ → K}

theorem backSubstituteFrom_ok_iff {k : ℕ} {x : Tuple K n} :
    (∃ x', backSubstituteFrom tolerance F b k x = .ok x') ↔
      ∀ i, i < k → isNegligible tolerance (F i i) = false := by
  induction k generalizing x with
  | zero => exact iff_of_true ⟨x, rfl⟩ fun i hi => absurd hi (Nat.not_lt_zero i)
  | succ k ih =>
    rw [backSubstituteFrom, Nat.forall_lt_succ_right]
    cases hpivot : isNegligible tolerance (F k k) with
    | true => exact iff_of_false (fun ⟨_, h⟩ => by cases h) fun h => nomatch h.2
    | false =>
      rw [if_neg Bool.false_ne_true, ih]
      exact (and_iff_left rfl).symm

/-- A back substitution comes to an end if no pivot is too small, whatever its right-hand side. -/
theorem backSubstitute_ok_iff {x : Tuple K n} :
    (∃ x', backSubstitute tolerance F b x = .ok x') ↔
      ∀ i, i < n → isNegligible tolerance (F i i) = false :=
  backSubstituteFrom_ok_iff

theorem forwardSubstituteTo_ok_iff {k : ℕ} {x : Tuple K n} :
    (∃ x', forwardSubstituteTo tolerance F b k x = .ok x') ↔
      ∀ i, i < k → isNegligible tolerance (F i i) = false := by
  induction k with
  | zero => exact iff_of_true ⟨x, rfl⟩ fun i hi => absurd hi (Nat.not_lt_zero i)
  | succ k ih =>
    rw [forwardSubstituteTo, Nat.forall_lt_succ_right, ← ih]
    cases hfirst : forwardSubstituteTo tolerance F b k x with
    | error e => exact iff_of_false (fun ⟨_, h⟩ => by cases h) fun ⟨⟨_, h⟩, _⟩ => by cases h
    | ok x1 =>
      change (∃ x', (if isNegligible tolerance (F k k) = true then _ else _) = _) ↔ _
      cases hpivot : isNegligible tolerance (F k k) with
      | true => exact iff_of_false (fun ⟨_, h⟩ => by cases h) fun h => nomatch h.2
      | false => exact iff_of_true ⟨_, if_neg Bool.false_ne_true⟩ ⟨⟨x1, rfl⟩, rfl⟩

/-- A forward substitution comes to an end if no pivot is too small, whatever its right-hand side. -/
theorem forwardSubstitute_ok_iff {x : Tuple K n} :
    (∃ x', forwardSubstitute tolerance F b x = .ok x') ↔
      ∀ i, i < n → isNegligible tolerance (F i i) = false :=
  forwardSubstituteTo_ok_iff

end Ends

theorem isNegligible_zero {pivot : ℝ} (h : pivot ≠ 0) : isNegligible 0 pivot = false := by
  have hpos : ¬|pivot| ≤ 0 := not_le.2 (abs_pos.2 h)
  exact decide_eq_false hpos

/-- Without a tolerance a back substitution comes to an end. -/
theorem backSubstitute_ok (hpivot : ∀ i, i < n → F i i ≠ 0) (x : Tuple ℝ n) :
    ∃ x', backSubstitute 0 F b x = .ok x' :=
  backSubstitute_ok_iff.2 fun i hi => isNegligible_zero (hpivot i hi)

/-- Without a tolerance a forward substitution comes to an end. -/
theorem forwardSubstitute_ok (hpivot : ∀ i, i < n → F i i ≠ 0) (x : Tuple ℝ n) :
    ∃ x', forwardSubstitute 0 F b x = .ok x' :=
  forwardSubstitute_ok_iff.2 fun i hi => isNegligible_zero (hpivot i hi)

end ActiveSet
