import ActiveSet.Factor.NullSpace
import ActiveSet.Proofs.Factor.Coordinates

/-!
# Splitting a space

`Splits d z k w A q t` says of an orthonormal basis `q` of dimension `d = z + w` that the first `k`
rows of `A` vanish on its first `z` vectors, and that `t` holds their coordinates for the other `w`.
Every operation of a null space factorization is a sequence of rotations among the last vectors, so
this much is kept by each of them alone (`Splits.turn`). What the shape of `t` becomes is a matter of
its own. Once the rotations have put the zeros in place, a vector changes sides (`Splits.release`,
`Splits.absorb`, `Splits.strike`), and rows come and go (`Splits.append`, `Splits.select`).

`NullSpace.FactorsIf` adds that `t` is reverse triangular, and that a condition keeps zeros off its
antidiagonal: the rotations need no such condition, and what they do to the antidiagonal is the same
argument with it and without it. `NullSpace.Factors` is the case of interest, that there is no zero.
-/

namespace ActiveSet

open Finset Rotation

/-- The rows of `A` vanish on the first `z` vectors of the basis `q`, and have the coordinates `t`
for the others. -/
structure Splits (d z k w : ℕ) (A q t : ℕ → ℕ → ℝ) : Prop where
  count : z + w = d
  orthonormal : Orthonormal d q
  null : ∀ c j, c < k → j < z → coord d (A c) q j = 0
  range : ∀ c j, c < k → j < w → coord d (A c) q (z + j) = t c j

variable {d z k w : ℕ} {A B q q' t t' : ℕ → ℕ → ℝ}

theorem Splits.congr (hs : Splits d z k w A q t)
    (hA : ∀ c p, c < k → p < d → B c p = A c p) (hq : ∀ p j, p < d → j < d → q' p j = q p j)
    (ht : ∀ c j, c < k → j < w → t' c j = t c j) : Splits d z k w B q' t' := by
  have hcount := hs.count
  have hcoord : ∀ c j, c < k → j < d → coord d (B c) q' j = coord d (A c) q j :=
    fun c j hc hj => coord_congr (fun p hp => hA c p hc hp) fun p hp => hq p j hp hj
  refine ⟨hcount, hs.orthonormal.congr fun i j hi hj => hq i j hi hj, ?_, ?_⟩
  · intro c j hc hj
    rw [hcoord c j hc (by omega)]
    exact hs.null c j hc hj
  · intro c j hc hj
    rw [hcoord c _ hc (by omega), ht c j hc hj]
    exact hs.range c j hc hj

/-- A rotation of two of the last vectors turns the coordinates of all rows. -/
theorem Splits.turn {g : Rotation ℝ} {u v : ℕ} (hs : Splits d z k w A q t) (hg : g.Proper)
    (huv : u ≠ v) (hu : u < w) (hv : v < w) :
    Splits d z k w A (fun p => g.turn (z + u) (z + v) (q p)) fun c => g.turn u v (t c) := by
  have hcount := hs.count
  refine ⟨hcount, hs.orthonormal.turn hg (by omega) (by omega) (by omega), ?_, ?_⟩
  · -- columns of the null space are not turned
    intro c j hc hj
    rw [coord_turn, turn_of_ne _ (by omega) (by omega)]
    exact hs.null c j hc hj
  · -- the two turned columns of the range space, then the rest
    intro c j hc hj
    have htu := hs.range c u hc hu
    have htv := hs.range c v hc hv
    rw [coord_turn]
    by_cases hjv : j = v
    · subst hjv
      rw [turn_snd, turn_snd, htu, htv]
    by_cases hju : j = u
    · subst hju
      rw [turn_fst (by omega), turn_fst huv, htu, htv]
    rw [turn_of_ne _ (by omega) (by omega), turn_of_ne _ hju hjv]
    exact hs.range c j hc hj

/-- Rotations of the first vectors leave the coordinates of all rows alone. -/
theorem Splits.turnAll {gs : List (Rotation ℝ)} (hs : Splits d z k w A q t)
    (hproper : ∀ g ∈ gs, g.Proper) (hlength : gs.length < z) :
    Splits d z k w A (fun p => Rotation.turnAll 0 gs (q p)) t := by
  have hcount := hs.count
  have hzero : ∀ c, c < k → Rotation.turnAll 0 gs (coord d (A c) q) = coord d (A c) q :=
    fun c hc => turnAll_of_zero fun j _ hj => hs.null c j hc (by omega)
  refine ⟨hcount, hs.orthonormal.turnAll hproper (by omega), ?_, ?_⟩
  · intro c j hc hj
    rw [coord_turnAll, hzero c hc]
    exact hs.null c j hc hj
  · intro c j hc hj
    rw [coord_turnAll, hzero c hc]
    exact hs.range c j hc hj

-- ---------------------------------------------------------------------------
-- Vectors and rows change sides
-- ---------------------------------------------------------------------------

/-- The last vector of the null space leaves it, with a column of zeros for the coordinates. -/
theorem Splits.release (hs : Splits d (z + 1) k w A q t) (hfirst : ∀ c, c < k → t' c 0 = 0)
    (hlater : ∀ c j, c < k → j < w → t' c (j + 1) = t c j) : Splits d z k (w + 1) A q t' := by
  have hcount := hs.count
  refine ⟨by omega, hs.orthonormal, fun c j hc hj => hs.null c j hc (by omega), ?_⟩
  intro c j hc hj
  cases j with
  | zero =>
    rw [hfirst c hc]
    exact hs.null c z hc (Nat.lt_succ_self z)
  | succ j =>
    rw [hlater c j hc (by omega), show z + (j + 1) = z + 1 + j by omega]
    exact hs.range c j hc (by omega)

/-- The first vector outside the null space joins it once no row has a coordinate for it. -/
theorem Splits.absorb (hs : Splits d z k (w + 1) A q t) (hfirst : ∀ c, c < k → t c 0 = 0) :
    Splits d (z + 1) k w A q fun c j => t c (j + 1) := by
  have hcount := hs.count
  refine ⟨by omega, hs.orthonormal, fun c j hc hj => ?_, fun c j hc hj => ?_⟩
  · rcases Nat.lt_succ_iff_lt_or_eq.1 hj with hlt | rfl
    · exact hs.null c j hc hlt
    · exact (hs.range c 0 hc (Nat.succ_pos w)).trans (hfirst c hc)
  · rw [show z + 1 + j = z + (j + 1) by omega]
    exact hs.range c (j + 1) hc (by omega)

/-- A last vector that is a unit vector is struck together with its entry. -/
theorem Splits.strike (hs : Splits (d + 1) z k (w + 1) A q t) (hrow : ∀ j, j < d → q d j = 0) :
    Splits d z k w A q t := by
  have hcount := hs.count
  have hcoord : ∀ c j, j < d → coord d (A c) q j = coord (d + 1) (A c) q j := by
    intro c j hj
    unfold coord
    rw [sum_range_succ, hrow j hj, mul_zero, add_zero]
  refine ⟨by omega, fun i j hi hj => ?_, fun c j hc hj => ?_, fun c j hc hj => ?_⟩
  · have hij := hs.orthonormal i j (by omega) (by omega)
    rwa [sum_range_succ, hrow i hi, zero_mul, add_zero] at hij
  · rw [hcoord c j (by omega)]
    exact hs.null c j hc hj
  · rw [hcoord c _ (by omega)]
    exact hs.range c j hc (by omega)

theorem Splits.select {k' : ℕ} (hs : Splits d z k w A q t) (row : ℕ → ℕ)
    (hrow : ∀ c, c < k' → row c < k) :
    Splits d z k' w (fun c => A (row c)) q fun c => t (row c) :=
  ⟨hs.count, hs.orthonormal, fun c j hc => hs.null (row c) j (hrow c hc),
    fun c j hc => hs.range (row c) j (hrow c hc)⟩

theorem Splits.append (hs : Splits d z k w A q t)
    (hnull : ∀ j, j < z → coord d (A k) q j = 0)
    (hrange : ∀ j, j < w → coord d (A k) q (z + j) = t k j) : Splits d z (k + 1) w A q t := by
  refine ⟨hs.count, hs.orthonormal, fun c j hc hj => ?_, fun c j hc hj => ?_⟩
  · rcases Nat.lt_succ_iff_lt_or_eq.1 hc with hlt | rfl
    · exact hs.null c j hlt hj
    · exact hnull j hj
  · rcases Nat.lt_succ_iff_lt_or_eq.1 hc with hlt | rfl
    · exact hs.range c j hlt hj
    · exact hrange j hj

-- ---------------------------------------------------------------------------
-- Factorizations
-- ---------------------------------------------------------------------------

namespace NullSpace

variable {n m : ℕ}

/-- `f` holds an orthogonal matrix `Q` with `A Q = [0 T]`, where `T` is reverse triangular without a
zero on its antidiagonal. -/
structure Factors (f : NullSpace ℝ n m) (A : ℕ → ℕ → ℝ) : Prop
    extends Splits f.nFree f.nNull f.nActive f.nActive A f.q f.t where
  reverse : ∀ c j, c < f.nActive → c + j + 1 < f.nActive → f.t c j = 0
  antidiag_ne : ∀ c, c < f.nActive → f.t c (f.nActive - 1 - c) ≠ 0

/-- `f` holds an orthogonal matrix `Q` with `A Q = [0 T]`, where `T` is reverse triangular. There is
no zero on its antidiagonal if `regular` holds. -/
structure FactorsIf (regular : Prop) (f : NullSpace ℝ n m) (A : ℕ → ℕ → ℝ) : Prop
    extends Splits f.nFree f.nNull f.nActive f.nActive A f.q f.t where
  reverse : ∀ c j, c < f.nActive → c + j + 1 < f.nActive → f.t c j = 0
  antidiag_ne : regular → ∀ c, c < f.nActive → f.t c (f.nActive - 1 - c) ≠ 0

variable {f f' : NullSpace ℝ n m} {regular : Prop}

theorem Factors.toIf (hf : f.Factors A) : f.FactorsIf True A :=
  ⟨hf.toSplits, hf.reverse, fun _ => hf.antidiag_ne⟩

theorem FactorsIf.factors (hf : f.FactorsIf True A) : f.Factors A :=
  ⟨hf.toSplits, hf.reverse, hf.antidiag_ne trivial⟩

theorem nNull_add (f : NullSpace ℝ n m) : f.nNull + f.nActive = f.nFree :=
  Nat.sub_add_cancel f.nActive_le

/-- The dimension of the null space need not be known: the other two leave no choice. -/
theorem FactorsIf.of_splits (hs : Splits f.nFree z f.nActive f.nActive A f.q f.t)
    (hreverse : ∀ c j, c < f.nActive → c + j + 1 < f.nActive → f.t c j = 0)
    (hantidiag : regular → ∀ c, c < f.nActive → f.t c (f.nActive - 1 - c) ≠ 0) :
    f.FactorsIf regular A := by
  have hz : z = f.nNull := Nat.add_right_cancel (hs.count.trans f.nNull_add.symm)
  exact ⟨hz ▸ hs, hreverse, hantidiag⟩

theorem FactorsIf.congr (hf : f.FactorsIf regular A) (hA : ∀ c p, c < f.nActive → p < f.nFree →
    B c p = A c p) : f.FactorsIf regular B :=
  ⟨hf.toSplits.congr hA (fun _ _ _ _ => rfl) fun _ _ _ _ => rfl, hf.reverse, hf.antidiag_ne⟩

theorem reset?_apply {count p j : ℕ} (h : f.reset? count = some f') (hp : p < count)
    (hj : j < count) : f'.q p j = if p = j then 1 else 0 := by
  unfold reset? at h
  split at h
  · next hcount =>
    cases h
    have hzero : f.q.scale 0 p j = 0 := by
      rw [Grid.scale_apply _ _ (by omega) (by omega), zero_mul]
    rw [reset, Grid.ofFn_apply (by omega) (by omega), hzero]
    simp only [hp, and_true]
  · cases h

/-- Without constraints the unit vectors are a basis of the null space. -/
theorem factorsIf_reset {count : ℕ} (h : f.reset? count = some f') : f'.FactorsIf regular A := by
  have hentry : ∀ p j, p < count → j < count → f'.q p j = if p = j then 1 else 0 :=
    fun p j => reset?_apply h
  unfold reset? at h
  split at h
  · next hcount =>
    cases h
    refine ⟨⟨rfl, fun i j hi hj => ?_, nofun, nofun⟩, nofun, fun _ => nofun⟩
    have hi : i < count := hi
    have hj : j < count := hj
    show ∑ p ∈ Finset.range count, _ = _
    rw [sum_eq_single i]
    · rw [hentry i i hi hi, hentry i j hi hj, if_pos rfl, one_mul]
    · intro p hp hne
      rw [hentry p i (mem_range.1 hp) hi, if_neg hne, zero_mul]
    · intro hnot
      exact absurd (mem_range.2 hi) hnot
  · cases h

theorem factors_reset {count : ℕ} (h : f.reset? count = some f') : f'.Factors A :=
  (factorsIf_reset h).factors

/-- The rotated null space, row by row. -/
theorem turnZ_row {gs : List (Rotation ℝ)} (hlength : gs.length < f.nNull) {p : ℕ}
    (hp : p < f.nFree) : (f.turnZ gs).q p = Rotation.turnAll 0 gs (f.q p) := by
  have hnull := f.nNull_add
  have hfree := f.nFree_le
  exact Grid.turnNeighbours_row (by omega) hp

/-- Rotations of the null space keep the factors. -/
theorem FactorsIf.turnZ {gs : List (Rotation ℝ)} (hf : f.FactorsIf regular A)
    (hproper : ∀ g ∈ gs, g.Proper) (hlength : gs.length < f.nNull) :
    (f.turnZ gs).FactorsIf regular A := by
  have hturned := hf.toSplits.turnAll hproper hlength
  refine ⟨hturned.congr (fun _ _ _ _ => rfl) (fun p j hp _ => ?_) fun _ _ _ _ => rfl,
    hf.reverse, hf.antidiag_ne⟩
  exact congrFun (turnZ_row hlength hp) j

theorem Factors.turnZ {gs : List (Rotation ℝ)} (hf : f.Factors A) (hproper : ∀ g ∈ gs, g.Proper)
    (hlength : gs.length < f.nNull) : (f.turnZ gs).Factors A :=
  (hf.toIf.turnZ hproper hlength).factors

/-- A row that has been concentrated is the turned row, with one entry left in the null space. -/
theorem concentrate?_spec {count : ℕ} {row row' : Tuple ℝ count} {gs : List (Rotation ℝ)}
    (h : f.concentrate? row = some (gs, row')) (hcount : f.nNull ≤ count) :
    0 < f.nNull ∧ gs.length = f.nNull - 1 ∧ (∀ g ∈ gs, g.Proper) ∧
      (∀ j, j < count → row' j = turnAll 0 gs row j) ∧ (∀ j, j + 1 < f.nNull → row' j = 0) ∧
        (0 < norm f.nNull row → row' (f.nNull - 1) ≠ 0) := by
  unfold concentrate? at h
  split at h
  · next hpos =>
    obtain ⟨hpos, -⟩ := hpos
    have hmap : (List.range (f.nNull - 1)).map (fun j => row (j + 1)) =
        (List.range' 1 (f.nNull - 1)).map row := by
      rw [List.range'_eq_map_range, List.map_map]
      refine List.map_congr_left fun j _ => ?_
      show row (j + 1) = row (1 + j)
      rw [Nat.add_comm]
    dsimp only at h
    rw [hmap] at h
    have hswept := turnAll_sweep (f.nNull - 1) (show row 0 = row 0 from rfl)
    simp only [Nat.zero_add] at hswept
    cases h
    have hlength := length_sweep (row 0) ((List.range' 1 (f.nNull - 1)).map row)
    rw [List.length_map, List.length_range'] at hlength
    refine ⟨hpos, hlength, fun g hg => proper_of_mem_sweep hg, fun j hj => ?_, fun j hj => ?_,
      fun hnorm => ?_⟩
    · rw [Tuple.ofFn_apply hj, hswept j, if_neg (Nat.not_lt_zero j)]
    · rw [Tuple.ofFn_apply (by omega), if_pos (by omega)]
    · rw [Tuple.ofFn_apply (by omega), if_neg (Nat.lt_irrefl _), if_pos rfl]
      refine sweep_ne_zero ?_
      -- if everything that is collected were zero, so would be the norm
      by_contra hall
      obtain ⟨hfirst, hrest⟩ := not_or.1 hall
      refine hnorm.ne' ((norm_eq_zero_iff _ _).2 fun i hi => ?_)
      by_cases hi0 : i = 0
      · rw [hi0]
        exact not_not.1 hfirst
      · by_contra hne
        refine hrest ⟨row i, List.mem_map.2 ⟨i, ?_, rfl⟩, hne⟩
        rw [List.mem_range'_1]
        omega
  · cases h

end NullSpace

end ActiveSet
