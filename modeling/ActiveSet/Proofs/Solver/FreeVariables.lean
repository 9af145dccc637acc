import ActiveSet.Proofs.Solver.Constrained.Following

/-!
# Systems over the free variables

Without active constraints, what a step and a change of the working set compute is determined by the
problem and by which variables are free, and not by the order in which a factorization lists them nor
by the basis it writes them in.

Both are solutions of systems over the free variables. The direction (`Core.Tracks`) moves the fixed
variables with their limits, and leaves the gradient of the objective zero where a variable is free. The
pivot of a variable that becomes free (`Core.Pivot`) is the curvature of the objective along a vector
that moves this variable, and at which no other free variable feels a change of the gradient. If such
systems have only one solution (`Core.FreeRegular`), there is one direction and one pivot
(`Core.Tracks.unique`, `Core.Pivot.unique`).
-/

namespace ActiveSet.Core

open Finset

variable {n : ℕ} {c c' : Core ℝ n 0}

/-- What vanishes at the fixed variables is summed over the free ones. -/
theorem sum_free {m : ℕ} {c : Core ℝ n m} (hc : c.FreeInStep) {f : ℕ → ℝ}
    (hf : ∀ i : Fin n, c.bounds.isActive i = true → f i = 0) :
    ∑ k ∈ range n, f k = ∑ p ∈ range c.free.length, gather c.free f p := by
  rw [sum_gather_add hc.listed.nodup, add_eq_left]
  refine sum_eq_zero fun i _ => ?_
  split
  · rfl
  · next hnotin =>
    refine hf i ?_
    by_contra hactive
    exact hnotin ((hc.listed.mem_iff i).2 (by simpa using hactive))

/-- A move of free variables alone that changes the gradient of the objective at none of them is no
move at all. -/
def FreeRegular (c : Core ℝ n 0) : Prop :=
  ∀ v : ℕ → ℝ, (∀ i : Fin n, c.bounds.isActive i = true → v i = 0) →
    (∀ i : Fin n, c.bounds.isActive i = false → ∑ k ∈ range n, c.hessian i k * v k = 0) →
      ∀ i : Fin n, v i = 0

-- ---------------------------------------------------------------------------
-- Directions
-- ---------------------------------------------------------------------------

/-- The direction follows the data: fixed variables stay on their limits, and what the gradient of the
objective changes is taken up by the multipliers of fixed variables. -/
structure Tracks (c : Core ℝ n 0) : Prop where
  on_limit : ∀ i : Fin n, c.bounds.isActive i = true →
    c.dx i = c.shift.limitOf (c.bounds.activity i) (.bound i)
  balanced : ∀ i : Fin n, ∑ k ∈ range n, c.hessian i k * c.dx k + c.shift.gradient i = c.dy.bound i
  inactive : ∀ i : Fin n, c.bounds.isActive i = false → c.dy.bound i = 0

/-- There are no constraints, and so no multipliers of constraints. -/
theorem dual_ext {y y' : Dual ℝ n 0} (h : ∀ i : Fin n, y.bound i = y'.bound i) : y = y' := by
  obtain ⟨bound, row⟩ := y
  obtain ⟨bound', row'⟩ := y'
  obtain rfl : bound = bound' := Tuple.ext fun i hi => h ⟨i, hi⟩
  obtain rfl : row = row' := Tuple.ext fun i hi => absurd hi (Nat.not_lt_zero i)
  rfl

/-- Only one direction follows the data. -/
theorem Tracks.unique (h : c.Tracks) (h' : c'.Tracks) (hc : c.FreeRegular)
    (hbounds : c'.bounds = c.bounds) (hhessian : c'.hessian = c.hessian)
    (hshift : c'.shift = c.shift) : c'.dx = c.dx ∧ c'.dy = c.dy := by
  obtain ⟨honLimit', hbalanced', hinactive'⟩ := h'
  rw [hbounds] at honLimit' hinactive'
  rw [hhessian, hshift] at hbalanced'
  rw [hshift] at honLimit'
  have hdx : ∀ i : Fin n, c'.dx i - c.dx i = 0 := by
    refine hc (fun k => c'.dx k - c.dx k) (fun i hi => ?_) fun i hi => ?_
    · rw [honLimit' i hi, h.on_limit i hi, sub_self]
    · have hchange := h.balanced i
      have hchange' := hbalanced' i
      rw [h.inactive i hi] at hchange
      rw [hinactive' i hi] at hchange'
      simp only [mul_sub, sum_sub_distrib]
      linarith
  have hdx : c'.dx = c.dx := Tuple.ext fun i hi => sub_eq_zero.1 (hdx ⟨i, hi⟩)
  refine ⟨hdx, dual_ext fun i => ?_⟩
  rw [← hbalanced' i, ← h.balanced i, hdx]

-- ---------------------------------------------------------------------------
-- Pivots
-- ---------------------------------------------------------------------------

/-- The curvature of the objective along a vector that moves a fixed variable by one and free
variables such that they feel no change of the gradient. -/
def Pivot (c : Core ℝ n 0) (i : Fin n) (a : ℝ) : Prop :=
  ∃ v : ℕ → ℝ, v i = 1 ∧ (∀ j : Fin n, j ≠ i → c.bounds.isActive j = true → v j = 0) ∧
    (∀ j : Fin n, c.bounds.isActive j = false → ∑ k ∈ range n, c.hessian j k * v k = 0) ∧
      ∑ k ∈ range n, c.hessian i k * v k = a

theorem Pivot.congr {i : Fin n} {a : ℝ} (h : c.Pivot i a) (hbounds : c'.bounds = c.bounds)
    (hhessian : c'.hessian = c.hessian) : c'.Pivot i a := by
  unfold Pivot
  rw [hbounds, hhessian]
  exact h

/-- A pivot by the positions of the variables, where the new one is the last. -/
theorem Pivot.of_bordered (hc : c.FreeInStep) {i : Fin n} (hi : c.bounds.isActive i = true)
    {h : ℕ → ℕ → ℝ} (hh : ∀ p r, h p r = gather (c.free ++ [i])
      (fun u => gather (c.free ++ [i]) (c.hessian u) r) p) {v : ℕ → ℝ}
    (hone : v c.free.length = 1)
    (hzero : ∀ p, p < c.free.length → ∑ r ∈ range (c.free.length + 1), h p r * v r = 0) :
    c.Pivot i (∑ r ∈ range (c.free.length + 1), h c.free.length r * v r) := by
  have hmem := hc.listed.mem_iff
  have hnotin : i ∉ c.free := by
    rw [hmem, hi]
    exact Bool.true_eq_false_eq_False
  have hnodup : (c.free ++ [i]).Nodup :=
    List.nodup_append.2 ⟨hc.listed.nodup, List.nodup_singleton i, fun a ha b hb hab =>
      hnotin (List.mem_singleton.1 hb ▸ hab ▸ ha)⟩
  have hlength : (c.free ++ [i]).length = c.free.length + 1 := List.length_append
  -- the vector is `v` along the free variables and the new one, and zero elsewhere
  let x : Tuple ℝ n := spread (c.free ++ [i]) (fun p _ => v p) (Tuple.fill n 0)
  have hother : ∀ j : Fin n, j ∉ c.free ++ [i] → x j = 0 := by
    intro j hj
    rw [spread_of_notMem hj]
    exact Tuple.fill_apply j.isLt
  have hproduct : ∀ p (hp : p < (c.free ++ [i]).length),
      ∑ k ∈ range n, c.hessian (c.free ++ [i])[p] k * x k =
        ∑ r ∈ range (c.free.length + 1), h p r * v r := by
    intro p hp
    rw [sum_mul_spread_zero hnodup, hlength]
    exact Finset.sum_congr rfl fun r _ => by rw [hh, gather_of_lt hp]
  have hlt : c.free.length < (c.free ++ [i]).length := by omega
  have hlast : (c.free ++ [i])[c.free.length] = i := List.getElem_concat_length rfl _
  -- its products with rows of the matrix are those of `h` with `v`
  refine ⟨x, ?_, fun j hji hj => hother j fun hin => ?_, fun j hj => ?_, ?_⟩
  · rw [← hlast, ← gather_of_lt hlt x, gather_spread hnodup hlt, hone]
  · obtain hin | hin := List.mem_append.1 hin
    · rw [hmem, hj] at hin
      cases hin
    · exact hji (List.mem_singleton.1 hin)
  · obtain ⟨p, hp, rfl⟩ := List.mem_iff_getElem.1 ((hmem j).2 hj)
    rw [← hzero p hp, ← hproduct p (by omega), List.getElem_append_left hp]
  · rw [← hproduct c.free.length hlt, hlast]

/-- A fixed variable has only one pivot. -/
theorem Pivot.unique {i : Fin n} {a b : ℝ} (h : c.Pivot i a) (h' : c.Pivot i b)
    (hc : c.FreeRegular) : b = a := by
  obtain ⟨v, hone, hfixed, hfree, rfl⟩ := h
  obtain ⟨v', hone', hfixed', hfree', rfl⟩ := h'
  have hv : ∀ j : Fin n, v' j - v j = 0 := by
    refine hc (fun k => v' k - v k) (fun j hj => ?_) fun j hj => ?_
    · by_cases hji : j = i
      · rw [hji, hone, hone', sub_self]
      · rw [hfixed j hji hj, hfixed' j hji hj, sub_self]
    · simp only [mul_sub, sum_sub_distrib]
      rw [hfree j hj, hfree' j hj, sub_self]
  refine Finset.sum_congr rfl fun k hk => ?_
  rw [sub_eq_zero.1 (hv ⟨k, mem_range.1 hk⟩)]

end ActiveSet.Core
