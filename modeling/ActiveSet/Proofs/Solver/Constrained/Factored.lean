import ActiveSet.Proofs.Factor.Cholesky
import ActiveSet.Proofs.Factor.NullSpace.Columns
import ActiveSet.Proofs.Factor.NullSpace.Rows
import ActiveSet.Proofs.Solver.Constrained.WorkingSet

/-!
# Valid factorizations

In exact arithmetic both factorizations of a solver are those of its working set: `Factored` says of
a state that its null space factorization is one of the rows of the active constraints over the free
variables, and its triangular factor one of the objective's matrix on the null space. Each change of
the working set keeps it, whatever the tolerances, as long as they are not negative.

While an entity leaves, the triangular factor is behind by one dimension for a while. It is a factor
of a leading block then, which `Factored` admits.
-/

namespace ActiveSet.Constrained

open Finset

variable {n m : ℕ} {s s' : Constrained ℝ n m}

/-- The entry of an active constraint for a free variable, by their places in the factorization. -/
def activeEntry (s : Constrained ℝ n m) (c p : ℕ) : ℝ :=
  gather s.active (fun r => gather s.free (s.matrix r) p) c

/-- The entry of the objective's matrix for two free variables. -/
def freeHessian (s : Constrained ℝ n m) (p r : ℕ) : ℝ :=
  gather s.free (fun u => gather s.free (s.hessian u) r) p

/-- The objective's matrix in the coordinates of the factorization. -/
noncomputable def reduced (s : Constrained ℝ n m) : ℕ → ℕ → ℝ :=
  quad s.nullSpace.nFree s.freeHessian s.nullSpace.q

/-- The factorizations are those of the working set. -/
structure Factored (s : Constrained ℝ n m) : Prop where
  split : s.nullSpace.Factors s.activeEntry
  triangular : s.factor.Factors s.reduced

theorem Factored.congr (h : s.Factored) (hn : s'.nullSpace = s.nullSpace)
    (hf : s'.factor = s.factor) (hfree : s'.free = s.free) (ha : s'.active = s.active)
    (hA : s'.matrix = s.matrix) (hH : s'.hessian = s.hessian) : s'.Factored := by
  have hentry : s'.activeEntry = s.activeEntry := by
    unfold activeEntry
    rw [hfree, ha, hA]
  have hhess : s'.freeHessian = s.freeHessian := by
    unfold freeHessian
    rw [hfree, hH]
  refine ⟨?_, ?_⟩
  · rw [hn, hentry]
    exact h.split
  · unfold reduced
    rw [hn, hf, hhess]
    exact h.triangular

/-- The objective's matrix is symmetric. -/
def SymmetricHessian (s : Constrained ℝ n m) : Prop := ∀ i j : ℕ, s.hessian i j = s.hessian j i

theorem freeHessian_comm (hsymm : s.SymmetricHessian) {p r : ℕ} (hp : p < s.free.length)
    (hr : r < s.free.length) : s.freeHessian p r = s.freeHessian r p := by
  unfold freeHessian
  rw [gather_of_lt hp, gather_of_lt hr, gather_of_lt hr, gather_of_lt hp]
  exact hsymm _ _

theorem reduced_comm (hs : s.Listed) (hsymm : s.SymmetricHessian) (i j : ℕ) :
    s.reduced i j = s.reduced j i := by
  refine quad_comm (fun p r hp hr => ?_) i j
  rw [hs.nFree_eq] at hp hr
  exact freeHessian_comm hsymm hp hr

-- ---------------------------------------------------------------------------
-- Preparation
-- ---------------------------------------------------------------------------

theorem Reordered.factored (h : s.Reordered s') (hs : s.InStep) (hf : s.Factored) :
    s'.Factored := by
  cases h with
  | refl => exact hf
  | @swap p nullSpace hp hswap =>
    have hlast : s.free.length - 1 < s.free.length := by omega
    have hnFree := hs.nFree_eq
    have hnull := s.nullSpace.nNull_add
    have hdim : s.factor.dim = s.nullSpace.nNull := hs.dim_eq
    have hgather : ∀ (x : ℕ → ℝ) q, gather (moveLast s.free p) x q =
        gather s.free x (swapped p (s.free.length - 1) q) :=
      fun x q => gather_eq_of_getElem?_eq (getElem?_moveLast hp q) x
    -- rows of `Q` are exchanged together with their variables
    obtain ⟨hdim', -, hq, hsplit⟩ := hf.split.swapRows hswap (by omega) (by omega)
      (B := activeEntry { s with nullSpace, free := moveLast s.free p }) fun c q _ _ => by
        unfold activeEntry
        simp only [hgather]
    refine ⟨hsplit, hf.triangular.congr fun i j hi hj => ?_⟩
    unfold reduced
    dsimp only at hi hj ⊢
    -- so all products of these stay the same
    rw [hdim', ← quad_swapped (show p < s.nullSpace.nFree by omega)
      (show s.free.length - 1 < s.nullSpace.nFree by omega) s.freeHessian s.nullSpace.q i j]
    refine quad_congr (fun a b _ _ => ?_) (fun a ha => hq a i ha (by omega))
      fun a ha => hq a j ha (by omega)
    unfold freeHessian
    simp only [hgather]

/-- What an entity has in the null space is more than a tolerance, so it is not nothing. -/
theorem Prepared.norm_pos {w : PreparedRow ℝ} {e : Entity n m} (h : s.Prepared w e)
    (hw : w.independent = true) (heps : 0 ≤ s.parameters.epsDependent) :
    0 < norm s.nNull w.row := by
  cases e with
  | bound i =>
    obtain ⟨-, rfl⟩ := h
    exact lt_of_le_of_lt heps (of_decide_eq_true hw).2
  | constraint i =>
    obtain rfl : w = s.constraintRow i := h
    have hone : (0 : ℝ) ≤ max (norm s.free.length (Tuple.ofFn s.free.length
        (gather s.free (s.matrix i)))) 1 := le_max_of_le_right zero_le_one
    exact lt_of_le_of_lt (mul_nonneg heps hone) (of_decide_eq_true hw).2.1

/-- The row of a constraint is prepared in the coordinates of `Q`. -/
theorem Prepared.row_constraint {w : PreparedRow ℝ} {i : Fin m} (h : s.Prepared w (.constraint i))
    {j : ℕ} (hj : j < s.free.length) :
    w.row j = coord s.free.length (gather s.free (s.matrix i)) s.nullSpace.q j := by
  obtain rfl : w = s.constraintRow i := h
  show (Tuple.ofFn s.free.length fun j => _ : Tuple ℝ s.free.length) j = _
  rw [Tuple.ofFn_apply hj, sum_eq_sum]
  exact Finset.sum_congr rfl fun p hp => by rw [Tuple.ofFn_apply (mem_range.1 hp)]

/-- The row of a bound is prepared as the last row of `Q`. -/
theorem Prepared.row_bound {w : PreparedRow ℝ} {i : Fin n} (h : s.Prepared w (.bound i)) {j : ℕ}
    (hj : j < s.nullSpace.nFree) : w.row j = s.nullSpace.q (s.free.length - 1) j := by
  obtain ⟨-, rfl⟩ := h
  exact Tuple.ofFn_apply hj

-- ---------------------------------------------------------------------------
-- Entering
-- ---------------------------------------------------------------------------

/-- The factor of the objective's matrix follows the rotations of the null space and loses its last
dimension. -/
theorem factors_narrowed {gs : List (Rotation ℝ)} {factor : Cholesky ℝ n}
    (h : s.narrowedFactor? gs = some factor) (hproper : ∀ g ∈ gs, g.Proper)
    (hf : s.factor.Factors s.reduced) :
    factor.dim = s.factor.dim - 1 ∧ factor.Factors (quad s.nullSpace.nFree s.freeHessian fun p =>
      Rotation.turnAll 0 gs (s.nullSpace.q p)) := by
  unfold narrowedFactor? at h
  cases hturn : s.factor.turnBases? 0 gs with
  | none =>
    rw [hturn] at h
    cases h
  | some turned =>
    rw [hturn] at h
    obtain ⟨hdim, hturned⟩ := hf.turnBases hproper hturn
    obtain ⟨hdim', hnarrowed⟩ := hturned.dropLast h
    exact ⟨by omega, hnarrowed⟩

/-- A constraint that is independent enters the null space factorization. -/
theorem ConstraintEntered.split {i : Fin m} {side : Activity} {w : PreparedRow ℝ}
    {withFactor : Bool} (h : s.ConstraintEntered i side w withFactor s') (hs : s.Listed)
    (hw : s.Prepared w (.constraint i)) (hpos : 0 < norm s.nNull w.row)
    (hf : s.nullSpace.Factors s.activeEntry) : s'.nullSpace.Factors s'.activeEntry := by
  have hlength := hw.length_eq hs
  have hnFree := hs.nFree_eq
  have hnActive := hs.nActive_eq
  have hnull := s.nullSpace.nNull_add
  cases h with
  | @intro constraints gs row factor nullSpace hactivate hrow hfactor happend =>
    obtain ⟨hnNull, hgs, hproper, hrow, hzero, hne⟩ :=
      NullSpace.concentrate?_spec hrow (by omega)
    have hturned := hf.turnZ hproper (by omega)
    refine hturned.appendRow happend (B := activeEntry { s with
      constraints, factor, nullSpace, active := s.active ++ [i] }) ?_ ?_ hzero (hne hpos)
    · intro c p hc _
      exact gather_append_left (by rw [← hnActive]; exact hc) _
    · intro j hj
      have hj : j < s.nullSpace.nFree := hj
      have hlast : activeEntry { s with
          constraints, factor, nullSpace, active := s.active ++ [i] } s.nullSpace.nActive =
            gather s.free (s.matrix i) := by
        funext p
        rw [hnActive]
        exact gather_concat_length i _
      show row j = coord s.nullSpace.nFree _ _ j
      -- the coordinates are turned as the basis is
      rw [NullSpace.nActive_turnZ, hlast, hrow j (by omega),
        coord_congr (fun _ _ => rfl) fun p hp => congrFun (NullSpace.turnZ_row (by omega) hp) j,
        coord_turnAll]
      refine Rotation.turnAll_congr (d := s.nullSpace.nFree) (by omega) (fun j hj => ?_) j hj
      rw [hw.row_constraint (by omega), hnFree]

/-- A constraint that is independent enters both factorizations. -/
theorem ConstraintEntered.factored {i : Fin m} {side : Activity} {w : PreparedRow ℝ}
    (h : s.ConstraintEntered i side w true s') (hs : s.InStep)
    (hw : s.Prepared w (.constraint i)) (hpos : 0 < norm s.nNull w.row) (hf : s.Factored) :
    s'.Factored := by
  have hsplit := h.split hs.toListed hw hpos hf.split
  have hlength := hw.length_eq hs.toListed
  have hnFree := hs.nFree_eq
  have hnull := s.nullSpace.nNull_add
  have hdim : s.factor.dim = s.nullSpace.nNull := hs.dim_eq
  cases h with
  | @intro constraints gs row factor nullSpace hactivate hrow hfactor happend =>
    obtain ⟨hnNull, hgs, hproper, -, -, -⟩ := NullSpace.concentrate?_spec hrow (by omega)
    rw [if_pos rfl] at hfactor
    obtain ⟨hfactorDim, hnarrowed⟩ := factors_narrowed hfactor hproper hf.triangular
    refine ⟨hsplit, hnarrowed.congr fun a b ha hb => ?_⟩
    obtain ⟨hfree, hq⟩ := NullSpace.appendRow?_frame happend
    -- the reduced Hessian loses the vector that the rotations have moved to its end
    unfold reduced
    dsimp only
    rw [hfree, hq]
    exact quad_congr (fun _ _ _ _ => rfl)
      (fun p hp => congrFun (NullSpace.turnZ_row (f := s.nullSpace) (by omega) hp) a)
      fun p hp => congrFun (NullSpace.turnZ_row (f := s.nullSpace) (by omega) hp) b

/-- A variable whose direction is not lost becomes fixed in both factorizations. -/
theorem BoundEntered.factored {i : Fin n} {side : Activity} {w : PreparedRow ℝ}
    (h : s.BoundEntered i side w s') (hs : s.InStep) (hw : s.Prepared w (.bound i))
    (hpos : 0 < norm s.nNull w.row) (hf : s.Factored) : s'.Factored := by
  have hlength := hw.length_eq hs.toListed
  have hnFree := hs.nFree_eq
  have hnull := s.nullSpace.nNull_add
  have hdim : s.factor.dim = s.nullSpace.nNull := hs.dim_eq
  cases h with
  | @intro bounds gs row factor nullSpace hactivate hrow hfactor hremove =>
    obtain ⟨hnNull, hgs, hproper, hrow, hzero, hne⟩ :=
      NullSpace.concentrate?_spec hrow (by omega)
    obtain ⟨hfactorDim, hnarrowed⟩ := factors_narrowed hfactor hproper hf.triangular
    have hturned := hf.split.turnZ hproper (by omega)
    -- the last row of the rotated `Q` is the concentrated row
    have hlast : ∀ j, j < s.nullSpace.nFree →
        (s.nullSpace.turnZ gs).q (s.nullSpace.nFree - 1) j = row j := by
      intro j hj
      rw [NullSpace.turnZ_row (by omega) (by omega), hrow j (by omega)]
      refine Rotation.turnAll_congr (d := s.nullSpace.nFree) (by omega) (fun j hj => ?_) j hj
      rw [hw.row_bound hj, hnFree]
    obtain ⟨hnFree', hnActive', hq, hsplit⟩ := hturned.removeLastRow hremove
      (B := activeEntry { s with bounds, factor, nullSpace, free := s.free.dropLast })
      (fun j hj => by
        have hj : j + 1 < s.nullSpace.nNull := hj
        rw [NullSpace.nFree_turnZ, hlast j (by omega)]
        exact hzero j hj)
      (by
        rw [NullSpace.nFree_turnZ, NullSpace.nNull_turnZ, hlast _ (by omega)]
        exact hne hpos)
      (fun c p hc hp => by
        have hp : p < s.nullSpace.nFree - 1 := hp
        unfold activeEntry
        dsimp only
        congr 1
        funext r
        exact gather_dropLast (by omega) _)
    rw [NullSpace.nFree_turnZ] at hnFree'
    refine ⟨hsplit, hnarrowed.congr fun a b ha hb => ?_⟩
    -- the row that is struck has no part in the null space that is left
    obtain ⟨d, hd⟩ : ∃ d, s.nullSpace.nFree = d + 1 := ⟨s.nullSpace.nFree - 1, by omega⟩
    have hstruck : ∀ j, j < factor.dim →
        Rotation.turnAll 0 gs (s.nullSpace.q d) j = 0 := by
      intro j hj
      rw [← NullSpace.turnZ_row (by omega) (by omega), show d = s.nullSpace.nFree - 1 by omega,
        hlast j (by omega)]
      exact hzero j (by omega)
    have hkept : ∀ p j, p < d → j < factor.dim →
        nullSpace.q p j = Rotation.turnAll 0 gs (s.nullSpace.q p) j := by
      intro p j hp hj
      rw [← NullSpace.turnZ_row (by omega) (by omega)]
      exact hq p j (by rw [NullSpace.nFree_turnZ]; omega) (by rw [NullSpace.nNull_turnZ]; omega)
    unfold reduced
    dsimp only
    rw [show nullSpace.nFree = d by omega, hd, quad_succ (hstruck a ha) (hstruck b hb)]
    refine quad_congr (fun p r hp hr => ?_) (fun p hp => hkept p a hp ha)
      fun p hp => hkept p b hp hb
    unfold freeHessian
    dsimp only
    rw [gather_dropLast (by omega)]
    congr 1
    funext u
    exact gather_dropLast (by omega) _

theorem Entered.factored {e : Entity n m} {side : Activity} {w : PreparedRow ℝ}
    (h : s.Entered side w s' e) (hs : s.InStep) (hw : s.Prepared w e)
    (hpos : 0 < norm s.nNull w.row) (hf : s.Factored) : s'.Factored := by
  cases e with
  | bound i => exact BoundEntered.factored h hs hw hpos hf
  | constraint i => exact ConstraintEntered.factored h hs hw hpos hf

-- ---------------------------------------------------------------------------
-- Leaving
-- ---------------------------------------------------------------------------

/-- An entity has left the null space factorization. The triangular factor still fits the part of
the null space that was there before. -/
theorem Released.factored {e : Entity n m} (h : s.Released e s') (hs : s.InStep)
    (hf : s.Factored) : s'.Factored := by
  have hnFree := hs.nFree_eq
  have hnActive := hs.nActive_eq
  have hnull := s.nullSpace.nNull_add
  have hdim : s.factor.dim = s.nullSpace.nNull := hs.dim_eq
  cases h with
  | @bound i bounds nullSpace column hdeactivate happend =>
    obtain ⟨hfree, -, hq, hlast, hsplit⟩ := hf.split.appendFreeRow happend
      (B := activeEntry { s with bounds, nullSpace, free := s.free ++ [i] })
      (fun c p hc hp => by
        unfold activeEntry
        dsimp only
        congr 1
        funext r
        exact gather_append_left (by omega) _)
      (fun c hc => by
        rw [Tuple.ofFn_apply (by omega), hnFree]
        unfold activeEntry
        dsimp only
        congr 1
        funext r
        exact gather_concat_length i _)
    -- the new row of `Q` is zero in the old columns, which keep their part of the reduced matrix
    refine ⟨hsplit, hf.triangular.congr fun a b ha hb => ?_⟩
    unfold reduced
    dsimp only at ha hb ⊢
    rw [hfree, quad_succ (hlast a (by omega)) (hlast b (by omega))]
    refine quad_congr (fun p r hp hr => ?_) (fun p hp => hq p a hp (by omega))
      fun p hp => hq p b hp (by omega)
    unfold freeHessian
    dsimp only
    rw [gather_append_left (by omega)]
    congr 1
    funext u
    exact gather_append_left (by omega) _
  | @constraint i p constraints nullSpace hp hdeactivate hremove =>
    obtain ⟨hfree, -, hq, hsplit⟩ := hf.split.removeRow hremove
      (B := activeEntry { s with constraints, nullSpace, active := s.active.eraseIdx p })
      fun c r _ _ => gather_eraseIdx p c _
    -- the columns that were in the null space stay there, with their part of the reduced matrix
    refine ⟨hsplit, hf.triangular.congr fun a b ha hb => ?_⟩
    unfold reduced
    dsimp only at ha hb ⊢
    rw [hfree]
    exact quad_congr (fun _ _ _ _ => rfl) (fun p hp => hq p a hp (by omega))
      fun p hp => hq p b hp (by omega)

theorem reduced_eq (hs : s.Listed) (i j : ℕ) :
    s.reduced i j = ∑ p ∈ range s.free.length, s.nullSpace.q p i *
      ∑ r ∈ range s.free.length, s.freeHessian p r * s.nullSpace.q r j := by
  unfold reduced quad
  rw [hs.nFree_eq]

theorem hessianTimesLast_apply (hs : s.Listed) {p : ℕ} (hp : p < s.free.length) :
    s.hessianTimesLast p =
      ∑ r ∈ range s.free.length, s.freeHessian p r * s.nullSpace.q r (s.nNull - 1) := by
  have hnFree := hs.nFree_eq
  rw [hessianTimesLast, Tuple.ofFn_apply hp, sum_eq_sum]
  refine Finset.sum_congr rfl fun r hr => ?_
  have hr := mem_range.1 hr
  rw [lastDirection, Tuple.ofFn_apply (by omega)]
  rfl

/-- The products with the last direction are the last column of the reduced matrix. -/
theorem lastProducts_apply (hs : s.Listed) {j : ℕ} (hj : j < s.nNull - 1) :
    s.lastProducts j = s.reduced j (s.nNull - 1) := by
  rw [lastProducts, Tuple.ofFn_apply hj, sum_eq_sum, reduced_eq hs]
  exact Finset.sum_congr rfl fun p hp => by rw [hessianTimesLast_apply hs (mem_range.1 hp)]

theorem lastCurvature_eq (hs : s.Listed) :
    s.lastCurvature = s.reduced (s.nNull - 1) (s.nNull - 1) := by
  have hnFree := hs.nFree_eq
  rw [lastCurvature, dot_eq_sum, reduced_eq hs]
  refine Finset.sum_congr rfl fun p hp => ?_
  have hp := mem_range.1 hp
  rw [hessianTimesLast_apply hs hp, lastDirection, Tuple.ofFn_apply (by omega)]

/-- The triangular factor has caught up with the null space. -/
theorem Extended.factored (h : s.Extended s') (hs : s.Listed) (hdim : s.factor.dim + 1 = s.nNull)
    (hsymm : s.SymmetricHessian) (heps : 0 ≤ s.parameters.epsDefinite) (hf : s.Factored) :
    s'.Factored := by
  have hlast : s.factor.dim = s.nNull - 1 := by omega
  cases h with
  | @intro column factor tilt happend =>
    obtain ⟨-, hfactor⟩ := hf.triangular.append heps happend (N := s.reduced)
      (fun _ _ _ _ => rfl)
      (fun j hj => by rw [lastProducts_apply hs (by omega), hlast])
      (fun j _ => reduced_comm hs hsymm _ _) (by rw [lastCurvature_eq hs, hlast])
    exact ⟨hf.split, hfactor⟩

/-- The null space has gained a dimension over the factor. -/
theorem Released.dim_succ {e : Entity n m} (h : s.Released e s') (hs : s.InStep) (hs' : s'.Listed) :
    s'.factor.dim + 1 = s'.nNull := by
  have hdim := hs.dim_eq
  have hnull := hs.nNull_add
  have hnull' := hs'.nNull_add
  cases h with
  | bound hdeactivate happend =>
    dsimp only at hnull' ⊢
    rw [List.length_append, List.length_singleton] at hnull'
    omega
  | @constraint i p constraints nullSpace hp hdeactivate hremove =>
    obtain ⟨hlt, -⟩ := List.getElem?_eq_some_iff.1 hp
    dsimp only at hnull' ⊢
    rw [List.length_eraseIdx_of_lt hlt] at hnull'
    omega

theorem Left.factored {e : Entity n m} (h : s.Left e s') (hs : s.InStep)
    (hsymm : s.SymmetricHessian) (heps : 0 ≤ s.parameters.epsDefinite) (hf : s.Factored) :
    s'.Factored := by
  obtain ⟨s1, hreleased, hlisted, hextended⟩ := h
  have hf1 := hreleased.factored hs hf
  have hdim := hreleased.dim_succ hs hlisted
  cases hreleased <;> exact hextended.factored hlisted hdim hsymm heps hf1

end ActiveSet.Constrained
