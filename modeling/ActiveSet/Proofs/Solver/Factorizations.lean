import ActiveSet.Proofs.Factor.NullSpace.Uniqueness
import ActiveSet.Proofs.Solver.Constrained.SingleLimit
import Mathlib.LinearAlgebra.LinearIndependent.Lemmas

/-!
# Factorizations are those of the working set

Both factorizations are carried along by rotations through everything a session does, and nothing in
the program ever compares them with what they should be. Over the real numbers they are right in
every state that has a factorization: `factorizations_valid`. As a valid factorization is unique up
to signs, they agree with what would be computed anew.

* `Constrained.FactorizationsValid`: the equations between the matrices, in the orders of the free
  variables and of the active constraints.
* `Constrained.FactorizationsAgree`: any other valid factorizations are the same up to signs.
-/

namespace ActiveSet

open Finset

variable {n m : ℕ} {s : Constrained ℝ n m}

namespace Constrained

-- ---------------------------------------------------------------------------
-- The matrices
-- ---------------------------------------------------------------------------

/-- The rows of the active constraints over the free variables. -/
def activeRows (s : Constrained ℝ n m) : Matrix (Fin s.active.length) (Fin s.free.length) ℝ :=
  Matrix.of fun c p => s.matrix s.active[c] s.free[p]

/-- The matrix of the objective over the free variables. -/
def freeBlock (s : Constrained ℝ n m) : Matrix (Fin s.free.length) (Fin s.free.length) ℝ :=
  Matrix.of fun p r => s.hessian s.free[p] s.free[r]

/-- `Q`, of the dimension of the free variables. -/
def orthogonalFactor (s : Constrained ℝ n m) :
    Matrix (Fin s.free.length) (Fin s.free.length) ℝ :=
  Matrix.of fun p j => s.nullSpace.q p j

/-- `Z`, the first columns of `Q`. -/
def nullBasis (s : Constrained ℝ n m) : Matrix (Fin s.free.length) (Fin s.nNull) ℝ :=
  Matrix.of fun p k => s.nullSpace.q p k

/-- `T`, of the dimension of the active constraints. -/
def reverseFactor (s : Constrained ℝ n m) :
    Matrix (Fin s.active.length) (Fin s.active.length) ℝ :=
  Matrix.of fun c j => s.nullSpace.t c j

/-- `R`, of the dimension of the null space. -/
def triangularFactor (s : Constrained ℝ n m) : Matrix (Fin s.nNull) (Fin s.nNull) ℝ :=
  Matrix.of fun i j => s.factor.entries i j

/-- The rows of the working set: those of the active constraints, and the unit vectors of the fixed
variables. -/
def workingRow (s : Constrained ℝ n m) :
    Fin s.active.length ⊕ { i : Fin n // s.bounds.isActive i = true } → Fin n → ℝ
  | .inl c => fun j => s.matrix s.active[c] j
  | .inr i => Pi.single i.1 1

/-- The factorizations are those of the working set. -/
structure FactorizationsValid (s : Constrained ℝ n m) : Prop where
  nFree_eq : s.nullSpace.nFree = s.free.length
  nActive_eq : s.nullSpace.nActive = s.active.length
  dim_eq : s.factor.dim = s.nNull
  orthogonal : s.orthogonalFactor.transpose * s.orthogonalFactor = 1
  split : ∀ c j, (s.activeRows * s.orthogonalFactor) c j =
    if (j : ℕ) < s.nNull then 0 else s.nullSpace.t c (j - s.nNull)
  reverse : ∀ c j : Fin s.active.length, c + j + 1 < s.active.length → s.reverseFactor c j = 0
  antidiag_ne : ∀ c, s.reverseFactor c c.rev ≠ 0
  independent : LinearIndependent ℝ s.workingRow
  upper : ∀ i j, j < i → s.triangularFactor i j = 0
  diag_ne : ∀ i, s.triangularFactor i i ≠ 0
  product : s.triangularFactor.transpose * s.triangularFactor =
    s.nullBasis.transpose * s.freeBlock * s.nullBasis

/-- Valid factorizations of the same matrices are the same, up to the signs of the basis vectors of
the range and of the rows of the triangular factor. The latter can be computed from scratch, and
comes out the same whatever the tolerance for its pivots. -/
structure FactorizationsAgree (s : Constrained ℝ n m) : Prop where
  range : ∀ f : NullSpace ℝ n m, f.nFree = s.free.length → f.nActive = s.active.length →
    f.Factors s.activeEntry → ∃ sign : ℕ → ℝ, ∀ j, j < s.active.length →
      (sign j = 1 ∨ sign j = -1) ∧
        (∀ c, c < s.active.length → f.t c j = sign j * s.nullSpace.t c j) ∧
        ∀ p, p < s.free.length →
          f.q p (s.nNull + j) = sign j * s.nullSpace.q p (s.nNull + j)
  rebuilt : ∀ (tolerance : ℝ) (f : Cholesky ℝ n), 0 ≤ tolerance →
    s.factor.factorize? s.nNull s.reducedHessian tolerance = some (.ok f) →
      ∀ i, i < s.nNull → ∃ sign : ℝ, (sign = 1 ∨ sign = -1) ∧
        ∀ j, j < s.nNull → f.entries i j = sign * s.factor.entries i j
  rebuilds : ∃ f, s.factor.factorize? s.nNull s.reducedHessian 0 = some (.ok f)

-- ---------------------------------------------------------------------------
-- From entries to matrices
-- ---------------------------------------------------------------------------

theorem activeEntry_eq (s : Constrained ℝ n m) (c : Fin s.active.length)
    (p : Fin s.free.length) : s.activeEntry c p = s.activeRows c p := by
  unfold activeEntry
  rw [gather_of_lt c.isLt, gather_of_lt p.isLt]
  rfl

theorem freeHessian_eq (s : Constrained ℝ n m) (p r : Fin s.free.length) :
    s.freeHessian p r = s.freeBlock p r := by
  unfold freeHessian
  rw [gather_of_lt p.isLt, gather_of_lt r.isLt]
  rfl

/-- The rows of the working set are independent: over the free variables the active constraints are,
and each fixed variable has a unit vector of its own. -/
theorem linearIndependent_workingRow (hs : s.InStep) (hf : s.nullSpace.Factors s.activeEntry) :
    LinearIndependent ℝ s.workingRow := by
  have hnFree := hs.nFree_eq
  have hnActive := hs.nActive_eq
  rw [Fintype.linearIndependent_iff]
  intro g hg
  have hentry : ∀ j : Fin n, ∑ c, g (.inl c) * s.matrix s.active[c] j +
      ∑ i : { i : Fin n // s.bounds.isActive i = true },
        g (.inr i) * (Pi.single i.1 (1 : ℝ) : Fin n → ℝ) j = 0 := by
    intro j
    have hj := congrFun hg j
    rw [Fintype.sum_sum_type, Pi.add_apply, Finset.sum_apply, Finset.sum_apply] at hj
    exact hj
  -- no fixed variable has a part in the entry of a free one
  have hfree : ∀ p, p < s.nullSpace.nFree → ∑ c ∈ range s.nullSpace.nActive,
      (if h : c < s.active.length then g (.inl ⟨c, h⟩) else 0) * s.activeEntry c p = 0 := by
    intro p hp
    rw [hnFree] at hp
    have hj := hentry (s.free.get ⟨p, hp⟩)
    have hnone : ∑ i : { i : Fin n // s.bounds.isActive i = true },
        g (.inr i) * (Pi.single i.1 (1 : ℝ) : Fin n → ℝ) (s.free.get ⟨p, hp⟩) = 0 := by
      refine sum_eq_zero fun i _ => ?_
      have hinactive := (hs.listed.mem_iff _).1 (List.get_mem s.free ⟨p, hp⟩)
      rw [Pi.single_eq_of_ne, mul_zero]
      intro heq
      rw [heq, i.2] at hinactive
      cases hinactive
    rw [hnone, add_zero] at hj
    rw [hnActive, ← hj, ← Fin.sum_univ_eq_sum_range]
    refine Finset.sum_congr rfl fun c _ => ?_
    rw [dif_pos c.isLt, show s.activeEntry c p = _ from s.activeEntry_eq c ⟨p, hp⟩]
    rfl
  have hactive : ∀ c, g (.inl c) = 0 := by
    intro c
    have hc := hf.rows_independent hfree c (by rw [hnActive]; exact c.isLt)
    rwa [dif_pos c.isLt] at hc
  rintro (c | i)
  · exact hactive c
  · have hj := hentry i.1
    have hzero : ∑ c, g (.inl c) * s.matrix s.active[c] i.1 = 0 :=
      sum_eq_zero fun c _ => by rw [hactive c, zero_mul]
    rw [hzero, zero_add, sum_eq_single i, Pi.single_eq_same, mul_one] at hj
    · exact hj
    · intro k _ hne
      rw [Pi.single_eq_of_ne, mul_zero]
      intro heq
      exact hne (Subtype.ext heq.symm)
    · intro hnot
      exact absurd (mem_univ i) hnot

theorem Ready.factorizationsValid (h : s.Ready) : s.FactorizationsValid := by
  obtain ⟨hs, ⟨hsplit, htriangular⟩, -⟩ := h
  have hnFree := hs.nFree_eq
  have hnActive := hs.nActive_eq
  have hnull := s.nullSpace.nNull_add
  have hdim : s.factor.dim = s.nNull := hs.dim_eq
  have hnNull : s.nNull = s.nullSpace.nNull := rfl
  have horthonormal := hsplit.orthonormal
  have hupper := htriangular.upper
  have hdiag := htriangular.diag_ne
  have hproduct := htriangular.product
  rw [hdim] at hupper hdiag hproduct
  refine ⟨hnFree, hnActive, hdim, ?_, ?_, ?_, ?_, linearIndependent_workingRow hs hsplit, ?_, ?_,
    ?_⟩
  · -- the columns of `Q` are orthonormal
    ext i j
    rw [Matrix.mul_apply, Matrix.one_apply]
    have hij := horthonormal i j (by omega) (by omega)
    rw [hnFree, ← Fin.sum_univ_eq_sum_range] at hij
    simp only [← Fin.ext_iff] at hij
    exact hij
  · -- the active rows are zero in the null space, and `T` in the range
    intro c j
    have hcoord : (s.activeRows * s.orthogonalFactor) c j =
        coord s.nullSpace.nFree (s.activeEntry c) s.nullSpace.q j := by
      rw [Matrix.mul_apply, coord, hnFree,
        ← Fin.sum_univ_eq_sum_range fun p => s.activeEntry c p * s.nullSpace.q p j]
      refine Finset.sum_congr rfl fun p _ => ?_
      rw [activeEntry_eq]
      rfl
    rw [hcoord]
    split
    · next hlt => exact hsplit.null c j (by omega) hlt
    · next hge =>
      have hrange := hsplit.range c (j - s.nNull) (by omega) (by omega)
      rwa [show s.nullSpace.nNull + (j - s.nNull) = (j : ℕ) by omega] at hrange
  · -- `T` is triangular from the right, with no zero on its diagonal
    intro c j hlt
    exact hsplit.reverse c j (by omega) (by omega)
  · intro c
    have hne := hsplit.antidiag_ne c (by omega)
    show s.nullSpace.t c c.rev ≠ 0
    rwa [Fin.val_rev, show s.active.length - (c + 1) = s.nullSpace.nActive - 1 - c by omega]
  · -- `R` is triangular, with no zero on its diagonal
    intro i j hji
    exact hupper i j hji i.isLt
  · exact fun i => hdiag i i.isLt
  · -- its square is the reduced matrix
    ext i j
    have hij := hproduct i j i.isLt j.isLt
    rw [Matrix.mul_apply, Matrix.mul_assoc, Matrix.mul_apply]
    rw [← Fin.sum_univ_eq_sum_range fun k => s.factor.entries k i * s.factor.entries k j,
      reduced_eq hs.toListed, ← Fin.sum_univ_eq_sum_range fun p => s.nullSpace.q p i *
        ∑ r ∈ range s.free.length, s.freeHessian p r * s.nullSpace.q r j] at hij
    refine hij.trans (Finset.sum_congr rfl fun p _ => ?_)
    rw [Matrix.mul_apply, ← Fin.sum_univ_eq_sum_range fun r => s.freeHessian p r *
      s.nullSpace.q r j]
    congr 1
    refine Finset.sum_congr rfl fun r _ => ?_
    rw [freeHessian_eq]
    rfl

theorem Ready.factorizationsAgree (h : s.Ready) : s.FactorizationsAgree := by
  obtain ⟨hs, ⟨hsplit, htriangular⟩, hsymm⟩ := h
  have hnFree := hs.nFree_eq
  have hnActive := hs.nActive_eq
  have hdim : s.factor.dim = s.nNull := hs.dim_eq
  refine ⟨fun f hfree hactive hf => ?_, fun tolerance f htol hf => ?_, ?_⟩
  · -- factors with the same rows and the same signs are the same
    rw [← hnFree] at hfree
    rw [← hnActive] at hactive
    have hunique := hsplit.unique hf hfree hactive
    rw [hnFree, hnActive] at hunique
    exact hunique
  · -- so are factors of the reduced matrix, however they came about
    obtain ⟨hfdim, hfactors⟩ := Cholesky.factors_factorize htol (fun i j hi hj => by
      rw [reducedHessian_eq hs.toListed hj, reducedHessian_eq hs.toListed hi]
      exact reduced_comm hs.toListed hsymm i j) hf
    have hreduced := hfactors.congr (N := s.reduced) fun i j _ hj => by
      rw [hfdim] at hj
      exact (reducedHessian_eq hs.toListed hj).symm
    have hentries := htriangular.entries_eq hreduced (hfdim.trans hdim.symm)
    rw [hdim] at hentries
    exact hentries
  · have hfactors := htriangular.congr (N := s.reducedHessian) fun i j _ hj => by
      rw [hdim] at hj
      exact reducedHessian_eq hs.toListed hj
    rw [← hdim]
    exact hfactors.factorize_ok

end Constrained

/-- In every state with a factorization that any admitted calls lead to, the factorizations are those
of the working set, and they agree with any other valid ones. The data, the guesses and the budgets
are arbitrary, and a call may have ended in any way. -/
theorem factorizations_valid (n m : ℕ) (s : Constrained ℝ n m)
    (hs : (Constrained.interface ℝ n m).Reachable Constrained.exactCalls s)
    (hstatus : s.status ≠ .notInitialised) :
    s.FactorizationsValid ∧ s.FactorizationsAgree := by
  obtain ⟨-, hsettled⟩ := Constrained.settled_factored hs
  have hready : s.Ready := (hsettled.resolve_left hstatus).2
  exact ⟨hready.factorizationsValid, hready.factorizationsAgree⟩

/-- The factorizations are valid when the row of the sum has entered the working set, and again when it has
left it. -/
theorem factorizations_valid_shared : ∃ s1 s2,
    (Constrained.interface ℝ 2 1).call (.solve Observer.silent () 2 none none)
        (Constrained.shared 1) = (.ok 2, s1) ∧
      s1.status ≠ .notInitialised ∧ s1.activity (.constraint 0) = .lower ∧
      s1.FactorizationsValid ∧ s1.FactorizationsAgree ∧
      (Constrained.interface ℝ 2 1).call (.resume Observer.silent () 2) (s1.setShare (-1)) =
        (.ok 2, s2) ∧
      s2.status ≠ .notInitialised ∧ s2.activity (.constraint 0) = .inactive ∧
      s2.FactorizationsValid ∧ s2.FactorizationsAgree := by
  obtain ⟨s1, s2, h⟩ := Constrained.exists_sharedSession
  have hshared := Constrained.sharing_one
  have hload : ∀ d s, Constrained.exactCalls (n := 2) (m := 1) (.load d) s := fun _ _ => trivial
  have hreach1 := (Constrained.reachable_shared hload 1).of_call
    (by exact ⟨hshared.declared, hshared.exact.tolerant⟩) h.solve
  have hreach2 := (Constrained.reachable_setShare hload hreach1 (-1)).of_call
    (by exact h.sharing_reloaded.exact.tolerant) h.resume
  -- a row is active after the first solve, and has left after the second
  have hne1 : s1.status ≠ .notInitialised := by
    rw [h.ends.status]
    exact nofun
  have hne2 : s2.status ≠ .notInitialised := by
    rw [h.ends'.status]
    exact nofun
  obtain ⟨hvalid1, hagree1⟩ := factorizations_valid 2 1 s1 hreach1 hne1
  obtain ⟨hvalid2, hagree2⟩ := factorizations_valid 2 1 s2 hreach2 hne2
  exact ⟨s1, s2, h.solve, hne1, h.held, hvalid1, hagree1, h.resume, hne2, h.free, hvalid2, hagree2⟩

end ActiveSet
