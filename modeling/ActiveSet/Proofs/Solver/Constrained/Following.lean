import ActiveSet.Proofs.Factor.NullSpace.Uniqueness
import ActiveSet.Proofs.Factor.Substitution
import ActiveSet.Proofs.Solver.Constrained.Direction
import ActiveSet.Proofs.Solver.Constrained.Optimal

/-!
# A direction follows the data

In exact arithmetic a direction does what it is made for: along it the entities of the working set
stay on their moving limits, the gradient of the objective stays the combination of their rows by
the multipliers, and the other multipliers stay zero (`Directed.follows`).

A row that has nothing in the null space is a combination of the active rows over the free
variables, and the coefficients solve a system with `T`. The fixed variables take up the rest. This
is how multipliers are found, and how the dependency of an entity on the working set.
-/

namespace ActiveSet

open Finset

/-- A sum over all indices is one over those of a list, by their positions, and one over the
others. -/
theorem sum_gather_add {k : ℕ} {l : List (Fin k)} (hl : l.Nodup) (f : ℕ → ℝ) :
    ∑ i ∈ range k, f i =
      ∑ p ∈ range l.length, gather l f p + ∑ i : Fin k, if i ∈ l then 0 else f i := by
  -- the part in the list, as a sum over all positions
  have hlisted : ∑ p ∈ range l.length, gather l f p = ∑ i : Fin k, if i ∈ l then f i else 0 := by
    rw [Finset.sum_range, ← sum_filter]
    refine Finset.sum_bij (fun p _ => l.get p) ?_ ?_ ?_ ?_
    · intro p _
      rw [mem_filter]
      exact ⟨mem_univ _, List.get_mem l p⟩
    · intro p _ p' _ heq
      exact (List.Nodup.get_inj_iff hl).1 heq
    · intro i hi
      obtain ⟨p, hp⟩ := List.get_of_mem (mem_filter.1 hi).2
      exact ⟨p, mem_univ _, hp⟩
    · intro p _
      exact gather_of_lt p.isLt f
  rw [hlisted, ← sum_add_distrib, Finset.sum_range]
  refine Finset.sum_congr rfl fun i _ => ?_
  split
  · rw [add_zero]
  · rw [zero_add]

theorem gather_mul {k : ℕ} (l : List (Fin k)) (x y : ℕ → ℝ) (p : ℕ) :
    gather l (fun i => x i * y i) p = gather l x p * gather l y p := by
  unfold gather
  split
  · rfl
  · rw [mul_zero]

-- ---------------------------------------------------------------------------
-- Systems
-- ---------------------------------------------------------------------------

namespace NullSpace

variable {n m k : ℕ} {f : NullSpace ℝ n m} {A : ℕ → ℕ → ℝ} {tolerance : ℝ} {b x w : Tuple ℝ k}

theorem Factors.solveT?_solves (hf : f.Factors A) (h : f.solveT? tolerance b x = some (.ok w))
    {c : ℕ} (hc : c < f.nActive) : ∑ j ∈ Finset.range f.nActive, f.t c j * w j = b c := by
  unfold solveT? at h
  split at h
  · next hk =>
    subst hk
    have hupper : ∀ u j, j < u → u < f.nActive → f.t (f.nActive - 1 - u) j = 0 :=
      fun u j hju hu => hf.reverse _ _ (by omega) (by omega)
    have hpivot : ∀ u, u < f.nActive → f.t (f.nActive - 1 - u) u ≠ 0 := by
      intro u hu
      have hne := hf.antidiag_ne (f.nActive - 1 - u) (by omega)
      rwa [show f.nActive - 1 - (f.nActive - 1 - u) = u by omega] at hne
    have hsolved := backSubstitute_solves hupper hpivot (Option.some.inj h) (f.nActive - 1 - c)
      (by omega)
    rwa [show f.nActive - 1 - (f.nActive - 1 - c) = c by omega] at hsolved
  · cases h

theorem Factors.solveTT?_solves (hf : f.Factors A) (h : f.solveTT? tolerance b x = some (.ok w))
    {j : ℕ} (hj : j < f.nActive) : ∑ c ∈ Finset.range f.nActive, f.t c j * w c = b j := by
  unfold solveTT? at h
  split at h
  · next hk =>
    subst hk
    have hupper : ∀ u c, c < u → u < f.nActive → f.t c (f.nActive - 1 - u) = 0 :=
      fun u c hcu hu => hf.reverse _ _ (by omega) (by omega)
    have hsolved := backSubstitute_solves hupper hf.antidiag_ne (Option.some.inj h)
      (f.nActive - 1 - j) (by omega)
    rwa [show f.nActive - 1 - (f.nActive - 1 - j) = j by omega] at hsolved
  · cases h

/-- A row without a part in the null space is a combination of the rows of the matrix. -/
theorem Factors.eq_combination (hf : f.Factors A) {g x : ℕ → ℝ}
    (hnull : ∀ j, j < f.nNull → coord f.nFree g f.q j = 0)
    (hrange : ∀ j, j < f.nActive →
      ∑ c ∈ Finset.range f.nActive, f.t c j * x c = coord f.nFree g f.q (f.nNull + j)) {p : ℕ}
    (hp : p < f.nFree) : g p = ∑ c ∈ Finset.range f.nActive, x c * A c p := by
  have hsum := f.nNull_add
  have hzero : ∑ j ∈ Finset.range f.nNull, coord f.nFree g f.q j * f.q p j = 0 :=
    sum_eq_zero fun j hj => by rw [hnull j (mem_range.1 hj), zero_mul]
  -- the vector is expanded in `Z` and `Y`, and its part in `Z` is zero
  calc g p = ∑ j ∈ Finset.range (f.nNull + f.nActive), coord f.nFree g f.q j * f.q p j := by
        rw [hsum, hf.orthonormal.expand g hp]
    _ = ∑ j ∈ Finset.range f.nActive,
          (∑ c ∈ Finset.range f.nActive, f.t c j * x c) * f.q p (f.nNull + j) := by
        rw [sum_range_add, hzero, zero_add]
        exact Finset.sum_congr rfl fun j hj => by rw [hrange j (mem_range.1 hj)]
    _ = ∑ c ∈ Finset.range f.nActive, x c * A c p := by
        simp only [sum_mul]
        rw [sum_comm]
        refine Finset.sum_congr rfl fun c hc => ?_
        rw [← hf.rows_eq (mem_range.1 hc) hp, mul_sum]
        exact Finset.sum_congr rfl fun j _ => by ring

end NullSpace

theorem gather_spread {k : ℕ} {l : List (Fin k)} (hl : l.Nodup) {p : ℕ} (hp : p < l.length)
    (f : ℕ → ℝ → ℝ) (x : Tuple ℝ k) : gather l (spread l f x) p = f p (gather l x p) := by
  rw [gather_of_lt hp, gather_of_lt hp]
  exact spread_of_getElem? hl (List.getElem?_eq_getElem hp) f x

/-- The product with a vector that is zero where a list does not reach is one over the list. -/
theorem sum_mul_spread_zero {k : ℕ} {l : List (Fin k)} (hl : l.Nodup) (a v : ℕ → ℝ) :
    ∑ j ∈ range k, a j * spread l (fun p _ => v p) (Tuple.fill k 0) j =
      ∑ p ∈ range l.length, gather l a p * v p := by
  rw [sum_gather_add hl, add_eq_left.2 (sum_eq_zero fun j _ => ?_)]
  · refine Finset.sum_congr rfl fun p hp => ?_
    rw [gather_mul, gather_spread hl (mem_range.1 hp)]
  · split
    · rfl
    · next hj => rw [spread_of_notMem hj, Tuple.fill_apply j.isLt, mul_zero]

namespace Core

variable {n m : ℕ}

/-- The change of the gradient of the objective along the direction. -/
theorem withTilt_tilt {s : Core ℝ n m} (hsymm : ∀ i j : ℕ, s.hessian i j = s.hessian j i) {j : ℕ}
    (hj : j < n) : s.withTilt.tilt j =
      ∑ k ∈ range n, s.hessian j k * s.dx k + s.shift.gradient j := by
  show Tuple.addScaled 1 s.shift.gradient (s.hessian.combine 1 s.dx 0 s.tilt) j = _
  rw [Tuple.addScaled_apply _ _ _ hj, Grid.combine_apply _ _ _ _ _ hj, accumulate_eq_sum,
    zero_mul, zero_add, one_mul]
  congr 1
  refine Finset.sum_congr rfl fun k _ => ?_
  rw [one_mul, hsymm k j, mul_comm]

/-- Before the free variables move, the fixed ones follow their limits, and there are no
multipliers. -/
theorem fixedDirection_spec (s : Core ℝ n m) :
    (∀ i : Fin n, s.fixedDirection.dx i = if s.bounds.isActive i = true then
        s.shift.limitOf (s.bounds.activity i) (.bound i) else 0) ∧
      ∀ e, s.fixedDirection.dy.get e = 0 := by
  refine ⟨fun i => ?_, fun e => ?_⟩
  · show (Tuple.ofFn n fun i => _ : Tuple ℝ n) i = _
    rw [Tuple.ofFn_apply i.isLt]
    split
    · rfl
    · rw [zero_mul]
  · cases e with
    | bound i =>
      show s.dy.bound.scale 0 i = 0
      rw [Tuple.scale_apply _ _ i.isLt, zero_mul]
    | constraint i =>
      show s.dy.row.scale 0 i = 0
      rw [Tuple.scale_apply _ _ i.isLt, zero_mul]

end Core

namespace Constrained

variable {n m : ℕ} {s s' : Constrained ℝ n m}

-- ---------------------------------------------------------------------------
-- Free variables and active constraints
-- ---------------------------------------------------------------------------

/-- A sum over all variables is one over the free ones and one over the fixed ones. -/
theorem sum_free_add (hs : s.Listed) (f : ℕ → ℝ) :
    ∑ j ∈ range n, f j = ∑ p ∈ range s.free.length, gather s.free f p +
      ∑ i : Fin n, if s.bounds.isActive i = true then f i else 0 := by
  rw [sum_gather_add hs.listed.nodup]
  congr 1
  refine Finset.sum_congr rfl fun i _ => ?_
  have hmem := hs.listed.mem_iff i
  by_cases hi : i ∈ s.free
  · rw [if_pos hi, if_neg (by rw [hmem.1 hi]; exact Bool.false_ne_true)]
  · rw [if_neg hi, if_pos]
    by_contra hinactive
    exact hi (hmem.2 (by simpa using hinactive))

/-- What vanishes outside the working set is summed over the active constraints. -/
theorem sum_active (hs : s.Listed) {f : ℕ → ℝ}
    (hf : ∀ i : Fin m, s.constraints.isActive i = false → f i = 0) :
    ∑ i ∈ range m, f i = ∑ c ∈ range s.active.length, gather s.active f c := by
  rw [sum_gather_add hs.active_listed.nodup, add_eq_left]
  refine sum_eq_zero fun i _ => ?_
  split
  · rfl
  · next hi =>
    refine hf i ?_
    by_contra hactive
    exact hi ((hs.active_listed.mem_iff i).2 (by simpa using hactive))

theorem activeEntry_of_lt {c : ℕ} (hc : c < s.active.length) (p : ℕ) :
    s.activeEntry c p = gather s.free (s.matrix s.active[c]) p := gather_of_lt hc _

/-- A row that is a combination of the active rows over the free variables is one of the rows of all
entities: the fixed variables take up the rest. -/
theorem eq_sum_row (hs : s.Listed) {r x : ℕ → ℝ} {y : Dual ℝ n m}
    (hfree : ∀ p, p < s.free.length →
      gather s.free r p = ∑ c ∈ range s.active.length, x c * s.activeEntry c p)
    (hbound : ∀ i : Fin n, y.bound i = if s.bounds.isActive i = true then
      r i - ∑ c ∈ range s.active.length, x c * gather s.active (fun a => s.matrix a i) c else 0)
    (hrow : ∀ c, c < s.active.length → gather s.active y.row c = x c)
    (hinactive : ∀ i : Fin m, s.constraints.isActive i = false → y.row i = 0) {j : ℕ}
    (hj : j < n) : r j = ∑ e, y.get e * s.row e j := by
  have hrows : ∑ i : Fin m, y.row i * s.matrix i j =
      ∑ c ∈ range s.active.length, x c * gather s.active (fun a => s.matrix a j) c := by
    rw [← Finset.sum_range fun i => y.row i * s.matrix i j, sum_active hs fun i hi => by
      rw [hinactive i hi, zero_mul]]
    refine Finset.sum_congr rfl fun c hc => ?_
    rw [gather_mul, hrow c (mem_range.1 hc)]
  rw [s.sum_mul_row y.get hj]
  show r j = y.bound j + ∑ i : Fin m, y.row i * s.matrix i j
  rw [hrows, show y.bound j = _ from hbound ⟨j, hj⟩]
  -- the multiplier of a fixed variable makes up for the difference, and a free one has no difference
  by_cases hactive : s.bounds.isActive j = true
  · rw [if_pos hactive, sub_add_cancel]
  · rw [if_neg hactive, zero_add]
    obtain ⟨p, hp⟩ := List.get_of_mem ((hs.listed.mem_iff ⟨j, hj⟩).2 (by simpa using hactive))
    have hgather : ∀ f : ℕ → ℝ, gather s.free f p = f j := by
      intro f
      rw [gather_of_lt p.isLt, show s.free[(p : ℕ)] = ⟨j, hj⟩ from hp]
    rw [← hgather r, hfree p p.isLt]
    refine Finset.sum_congr rfl fun c hc => ?_
    have hc := mem_range.1 hc
    rw [activeEntry_of_lt hc, hgather, gather_of_lt hc]

/-- Steps along columns of `Q` change a product with a row by the coordinates of the row. -/
theorem sum_mul_spread (hs : s.Listed) (a : ℕ → ℝ) (x : Tuple ℝ n) {k : ℕ} (column : ℕ → ℕ)
    (w : ℕ → ℝ) :
    ∑ j ∈ range n, a j * spread s.free
        (fun p b => b + ActiveSet.sum k fun c => s.nullSpace.q p (column c) * w c) x j =
      ∑ j ∈ range n, a j * x j +
        ∑ c ∈ range k, coord s.nullSpace.nFree (gather s.free a) s.nullSpace.q (column c) *
          w c := by
  have hcolumns : ∑ p ∈ range s.free.length, gather s.free a p *
      ∑ c ∈ range k, s.nullSpace.q p (column c) * w c =
        ∑ c ∈ range k, coord s.nullSpace.nFree (gather s.free a) s.nullSpace.q (column c) *
          w c := by
    simp only [mul_sum]
    rw [sum_comm]
    refine Finset.sum_congr rfl fun c _ => ?_
    rw [coord, hs.nFree_eq, sum_mul]
    exact Finset.sum_congr rfl fun p _ => by ring
  -- free variables move along the columns, and fixed ones stay where they are
  rw [sum_free_add hs, sum_free_add hs fun j => a j * x j, ← hcolumns, add_right_comm,
    ← sum_add_distrib]
  congr 1
  · refine Finset.sum_congr rfl fun p hp => ?_
    rw [gather_mul, gather_mul, gather_spread hs.listed.nodup (mem_range.1 hp), sum_eq_sum]
    ring
  · refine Finset.sum_congr rfl fun i _ => ?_
    split
    · next hactive =>
      have hnotin : i ∉ s.free := by
        rw [hs.listed.mem_iff, hactive]
        exact Bool.true_eq_false_eq_False
      rw [spread_of_notMem hnotin]
    · rfl

-- ---------------------------------------------------------------------------
-- Parts of a direction
-- ---------------------------------------------------------------------------

/-- Along the direction active entities stay on their limits. -/
def FollowsLimits (s : Constrained ℝ n m) : Prop :=
  ∀ e, s.isActive e = true → s.valueOf s.dx e = s.shift.limitOf (s.activity e) e

/-- The direction follows the data: active entities stay on their limits, and the gradient of the
objective stays balanced by the multipliers. -/
structure Follows (s : Constrained ℝ n m) : Prop where
  balanced : ∀ j, j < n → ∑ k ∈ range n, s.hessian j k * s.dx k + s.shift.gradient j =
    ∑ e, s.dy.get e * s.row e j
  dax_eq : ∀ i : Fin m, s.dax i = s.valueOf s.dx (.constraint i)
  on_limit : s.FollowsLimits
  inactive : ∀ e, s.isActive e = false → s.dy.get e = 0

/-- The change of the gradient of the objective along the direction. -/
noncomputable def gradientChange (s : Constrained ℝ n m) (j : ℕ) : ℝ :=
  ∑ k ∈ range n, s.hessian j k * s.dx k + s.shift.gradient j

theorem withTilt_tilt (hsymm : s.SymmetricHessian) {j : ℕ} (hj : j < n) :
    s.toCore.withTilt.tilt j = s.gradientChange j := Core.withTilt_tilt hsymm hj

theorem gather_withTilt (hsymm : s.SymmetricHessian) (p : ℕ) :
    gather s.free s.toCore.withTilt.tilt p = gather s.free s.gradientChange p := by
  unfold gather
  split
  · next i _ => exact withTilt_tilt hsymm i.isLt
  · rfl

/-- The active constraints follow their limits, and the fixed variables still do. -/
theorem RangeStepped.followsLimits (h : s.RangeStepped s') (hs : s.Listed)
    (hf : s.nullSpace.Factors s.activeEntry) (hfixed : ∀ i : Fin n,
      s.bounds.isActive i = true →
        s.dx i = s.shift.limitOf (s.bounds.activity i) (.bound i)) : s'.FollowsLimits := by
  have hnActive := hs.nActive_eq
  cases h with
  | @intro w hw =>
    intro e he
    cases e with
    -- a fixed variable has followed its limit already, and this step does not move it
    | bound i =>
      have hnotin : i ∉ s.free := by
        rw [hs.listed.mem_iff, show s.bounds.isActive i = true from he]
        exact Bool.true_eq_false_eq_False
      rw [valueOf_bound, spread_of_notMem hnotin]
      exact hfixed i he
    | constraint i =>
      -- the row of an active constraint sees only the part in its range, which was solved for
      obtain ⟨c, hc⟩ := List.get_of_mem ((hs.active_listed.mem_iff i).2 he)
      have hrow : gather s.free (s.matrix i) = s.activeEntry c := by
        funext p
        rw [activeEntry_of_lt c.isLt, show s.active[(c : ℕ)] = i from hc]
      have hsolved := hf.solveT?_solves hw (c := c) (by rw [hnActive]; exact c.isLt)
      rw [rangeRhs, Tuple.ofFn_apply c.isLt, gather_of_lt c.isLt,
        show s.active[(c : ℕ)] = i from hc, dot_eq_sum] at hsolved
      show ∑ j ∈ range n, s.matrix i j * _ = s.activeLimitChange i
      rw [sum_mul_spread hs, hrow]
      have hcoord : ∑ c' ∈ range s.active.length,
          coord s.nullSpace.nFree (s.activeEntry c) s.nullSpace.q (s.nNull + c') * w c' =
            ∑ c' ∈ range s.nullSpace.nActive, s.nullSpace.t c c' * w c' := by
        rw [hnActive]
        refine Finset.sum_congr rfl fun c' hc' => ?_
        rw [← hf.range c c' (by rw [hnActive]; exact c.isLt)
          (by rw [hnActive]; exact mem_range.1 hc')]
        rfl
      rw [hcoord, hsolved]
      ring

/-- A step in the null space does not move an active entity. -/
theorem NullStepped.followsLimits (h : s.NullStepped s') (hs : s.Listed)
    (hf : s.nullSpace.Factors s.activeEntry) (hlimits : s.FollowsLimits) : s'.FollowsLimits := by
  have hnActive := hs.nActive_eq
  cases h with
  | @intro z w hz hw =>
    intro e he
    refine Eq.trans ?_ (hlimits e he)
    -- neither a fixed variable nor an active row moves along the null space
    cases e with
    | bound i =>
      have hnotin : i ∉ s.free := by
        rw [hs.listed.mem_iff, show s.bounds.isActive i = true from he]
        exact Bool.true_eq_false_eq_False
      rw [valueOf_bound, valueOf_bound, spread_of_notMem hnotin]
    | constraint i =>
      obtain ⟨c, hc⟩ := List.get_of_mem ((hs.active_listed.mem_iff i).2 he)
      have hrow : gather s.free (s.matrix i) = s.activeEntry c := by
        funext p
        rw [activeEntry_of_lt c.isLt, show s.active[(c : ℕ)] = i from hc]
      show ∑ j ∈ range n, s.matrix i j * _ = ∑ j ∈ range n, s.matrix i j * s.dx j
      rw [sum_mul_spread hs, hrow, add_eq_left]
      refine sum_eq_zero fun k hk => ?_
      rw [hf.null c k (by rw [hnActive]; exact c.isLt) (mem_range.1 hk), zero_mul]

/-- After a step in the null space the gradient of the objective is balanced there. -/
theorem NullStepped.balanced (h : s.NullStepped s') (hs : s.InStep) (hf : s.Factored)
    (hsymm : s.SymmetricHessian) {k : ℕ} (hk : k < s.nNull) :
    coord s.nullSpace.nFree (gather s.free s'.gradientChange) s.nullSpace.q k = 0 := by
  have hdim : s.factor.dim = s.nNull := hs.dim_eq
  have hnFree := hs.nFree_eq
  cases h with
  | @intro z w hz hw =>
    have hsolved := hf.triangular.solves hz hw (i := k) (by rw [hdim]; exact hk)
    rw [nullRhs, Tuple.ofFn_apply hk, sum_eq_sum, hdim] at hsolved
    -- how the step changes the gradient in each variable
    have hchange : ∀ j, gradientChange { s with
        tilt := s.toCore.withTilt.tilt
        dx := spread s.free (fun p a => a + ActiveSet.sum s.nNull fun k =>
          s.nullSpace.q p k * w k) s.dx } j = s.gradientChange j +
            ∑ k' ∈ range s.nNull,
              coord s.nullSpace.nFree (gather s.free (s.hessian j)) s.nullSpace.q k' * w k' := by
      intro j
      show ∑ r ∈ range n, s.hessian j r * _ + s.shift.gradient j = _
      rw [sum_mul_spread hs.toListed]
      unfold gradientChange
      ring
    have hgather : ∀ p, p < s.nullSpace.nFree → gather s.free (gradientChange { s with
        tilt := s.toCore.withTilt.tilt
        dx := spread s.free (fun p a => a + ActiveSet.sum s.nNull fun k =>
          s.nullSpace.q p k * w k) s.dx }) p = gather s.free s.gradientChange p +
            ∑ k' ∈ range s.nNull,
              (∑ r ∈ range s.nullSpace.nFree, s.freeHessian p r * s.nullSpace.q r k') * w k' := by
      intro p hp
      have hp : p < s.free.length := by rwa [← hnFree]
      rw [gather_of_lt hp, gather_of_lt hp, hchange]
      congr 1
      refine Finset.sum_congr rfl fun k' _ => ?_
      congr 1
      refine Finset.sum_congr rfl fun r _ => ?_
      rw [freeHessian, gather_of_lt hp]
    -- the coordinates of that change are products with the reduced matrix
    have hreduced : ∑ p ∈ range s.nullSpace.nFree,
        (∑ k' ∈ range s.nNull, (∑ r ∈ range s.nullSpace.nFree,
          s.freeHessian p r * s.nullSpace.q r k') * w k') * s.nullSpace.q p k =
            ∑ k' ∈ range s.nNull, s.reduced k k' * w k' := by
      simp only [sum_mul, reduced, quad]
      rw [sum_comm]
      refine Finset.sum_congr rfl fun k' _ => Finset.sum_congr rfl fun p _ => ?_
      rw [← sum_mul, ← sum_mul]
      ring
    -- the step was solved for the coordinates that were left
    calc coord s.nullSpace.nFree (gather s.free (gradientChange _)) s.nullSpace.q k
        = ∑ p ∈ range s.nullSpace.nFree, s.nullSpace.q p k * gather s.free s.gradientChange p +
            ∑ k' ∈ range s.nNull, s.reduced k k' * w k' := by
          rw [← hreduced, ← sum_add_distrib]
          refine Finset.sum_congr rfl fun p hp => ?_
          rw [hgather p (mem_range.1 hp)]
          ring
      _ = 0 := by
          rw [hsolved, hnFree, add_neg_eq_zero]
          exact Finset.sum_congr rfl fun p _ => by rw [gather_withTilt hsymm]

/-- The multipliers balance the change of the gradient, if it is balanced in the null space
already. -/
theorem MultiplierStepped.balanced (h : s.MultiplierStepped s') (hs : s.Listed)
    (hf : s.nullSpace.Factors s.activeEntry) (hsymm : s.SymmetricHessian)
    (hdy : ∀ e, s.dy.get e = 0) (hnull : ∀ k, k < s.nNull →
      coord s.nullSpace.nFree (gather s.free s.gradientChange) s.nullSpace.q k = 0) :
    (∀ j, j < n → s.gradientChange j = ∑ e, s'.dy.get e * s.row e j) ∧
      ∀ e, s.isActive e = false → s'.dy.get e = 0 := by
  have hnFree := hs.nFree_eq
  have hnActive := hs.nActive_eq
  cases h with
  | @intro w hw =>
    have hinactive : ∀ i : Fin m, s.constraints.isActive i = false →
        spread s.active (fun c _ => w c) s.dy.row i = 0 := by
      intro i hi
      rw [spread_of_notMem]
      · exact hdy (.constraint i)
      · rw [hs.active_listed.mem_iff, hi]
        exact Bool.false_ne_true
    have hbound : ∀ i : Fin n, (Tuple.ofFn n fun j =>
        if s.bounds.isActive j then
          deduct (s.toCore.withTilt.tilt j) s.active.length fun c =>
            gather s.active (fun i => s.matrix i j) c * w c
        else s.dy.bound j) i = if s.bounds.isActive i = true then
          s.gradientChange i - ∑ c ∈ range s.active.length,
            w c * gather s.active (fun a => s.matrix a i) c else 0 := by
      intro i
      rw [Tuple.ofFn_apply i.isLt, deduct_eq_sum, withTilt_tilt hsymm i.isLt,
        show s.dy.bound i = 0 from hdy (.bound i)]
      simp only [mul_comm (w _)]
    refine ⟨fun j hj => eq_sum_row hs (x := w) (fun p hp => ?_) hbound (fun c hc => ?_)
      hinactive hj, fun e he => ?_⟩
    · -- without a coordinate in the null space, the gradient is a combination of the active rows
      have hcombination := hf.eq_combination (x := w) hnull (fun c hc => by
        rw [hf.solveTT?_solves hw hc, multiplierRhs, Tuple.ofFn_apply (by rwa [← hnActive]),
          sum_eq_sum, coord, hnFree]
        refine Finset.sum_congr rfl fun p _ => ?_
        rw [gather_withTilt hsymm, mul_comm]
        rfl) (show p < s.nullSpace.nFree by rwa [hnFree])
      rw [hnActive] at hcombination
      exact hcombination
    · exact gather_spread hs.active_listed.nodup hc _ _
    · cases e with
      | bound i =>
        refine (hbound i).trans (if_neg ?_)
        rw [show s.bounds.isActive i = false from he]
        exact Bool.false_ne_true
      | constraint i => exact hinactive i he

-- ---------------------------------------------------------------------------
-- The whole direction
-- ---------------------------------------------------------------------------

/-- Without active constraints the fixed variables are all that has to follow a limit. -/
theorem followsLimits_of_fixed (hs : s.Listed) (hactive : s.active.length = 0)
    (hfixed : ∀ i : Fin n, s.bounds.isActive i = true →
      s.dx i = s.shift.limitOf (s.bounds.activity i) (.bound i)) : s.FollowsLimits := by
  intro e he
  cases e with
  | bound i =>
    rw [valueOf_bound]
    exact hfixed i he
  | constraint i =>
    have hmem := (hs.active_listed.mem_iff i).2 he
    rw [List.eq_nil_of_length_eq_zero hactive] at hmem
    cases hmem

theorem SameButDirection.factored (h : s.SameButDirection s') (hf : s.Factored) :
    s'.Factored := by
  obtain ⟨dx, dy, tilt, dax, rfl⟩ := h
  exact hf.congr rfl rfl rfl rfl rfl rfl

/-- A direction follows the data. -/
theorem Directed.follows (h : s.Directed s') (hs : s.InStep) (hf : s.Factored)
    (hsymm : s.SymmetricHessian) : s'.Follows := by
  obtain ⟨s1, s2, s3, hrange, hnull, hmultiplier, rfl⟩ := h.chain
  obtain ⟨hfixed, hdy⟩ := s.toCore.fixedDirection_spec
  have hfixed : ∀ i : Fin n, s.bounds.isActive i = true → s.toCore.fixedDirection.dx i =
      s.shift.limitOf (s.bounds.activity i) (.bound i) := by
    intro i hi
    rw [hfixed i, if_pos hi]
  have hs0 : InStep { s with toCore := s.toCore.fixedDirection } := hs.congr rfl rfl rfl rfl rfl rfl
  have hf0 : Factored { s with toCore := s.toCore.fixedDirection } :=
    hf.congr rfl rfl rfl rfl rfl rfl
  -- with the step in the range, active entities follow their limits
  have h1 : s1.InStep ∧ s1.Factored ∧ s1.FollowsLimits ∧ (∀ e, s1.dy.get e = 0) ∧
      s1.SymmetricHessian ∧ s1.nNull = s.nNull := by
    rcases hrange with ⟨-, hrange⟩ | ⟨hnone, rfl⟩
    · have hlimits := hrange.followsLimits hs0.toListed hf0.split hfixed
      refine ⟨hrange.same.inStep hs0, hrange.same.factored hf0, hlimits, ?_⟩
      cases hrange
      exact ⟨hdy, hsymm, rfl⟩
    · exact ⟨hs0, hf0, followsLimits_of_fixed hs0.toListed hnone hfixed, hdy, hsymm, rfl⟩
  obtain ⟨hs1, hf1, hlimits1, hdy1, hsymm1, hnNull1⟩ := h1
  -- with the step in the null space they still do, and the gradient is balanced there
  have h2 : s2.InStep ∧ s2.Factored ∧ s2.FollowsLimits ∧ (∀ e, s2.dy.get e = 0) ∧
      s2.SymmetricHessian ∧ ∀ k, k < s2.nNull →
        coord s2.nullSpace.nFree (gather s2.free s2.gradientChange) s2.nullSpace.q k = 0 := by
    rcases hnull with ⟨-, hnull⟩ | ⟨hnone, rfl⟩
    · have hbalanced := fun k hk => hnull.balanced hs1 hf1 hsymm1 (k := k) hk
      have hlimits := hnull.followsLimits hs1.toListed hf1.split hlimits1
      refine ⟨hnull.same.inStep hs1, hnull.same.factored hf1, hlimits, ?_⟩
      cases hnull
      exact ⟨hdy1, hsymm1, hbalanced⟩
    · refine ⟨hs1, hf1, hlimits1, hdy1, hsymm1, fun k hk => ?_⟩
      rw [hnNull1, hnone] at hk
      exact absurd hk (Nat.not_lt_zero k)
  obtain ⟨hs2, hf2, hlimits2, hdy2, hsymm2, hbalanced2⟩ := h2
  -- what is left of the gradient is in the range, where the multipliers balance it
  obtain ⟨hbalanced, hinactive⟩ :=
    hmultiplier.balanced hs2.toListed hf2.split hsymm2 hdy2 hbalanced2
  cases hmultiplier with
  | intro hw =>
    refine ⟨hbalanced, fun i => ?_, hlimits2, hinactive⟩
    show (Grid.apply _ 1 _ 0 _ : Tuple ℝ m) i = _
    rw [Grid.apply_apply _ _ _ _ _ i.isLt, dot_eq_sum, one_mul, zero_mul, add_zero]
    rfl

end Constrained

end ActiveSet
