import ActiveSet.Proofs.Factor.Rotation
import Mathlib.LinearAlgebra.Matrix.NonsingularInverse

/-!
# Coordinates

The columns of a square array `q` are a basis, in which rows and matrices are written: `coord` are
the coordinates of a row, and `quad` those of a matrix. A rotation of two columns turns the
coordinates, and an orthonormal basis stays orthonormal.

An array is a function of two indices, of which those below the dimension count.

* `coord_turn`, `quad_turn`, `Orthonormal.turn`: one rotation of the basis.
* `coord_turnAll`, `Orthonormal.turnAll`: rotations of neighbouring columns.
* `Orthonormal.expand`: a row is the combination of the columns by its coordinates.
* `Orthonormal.exists_bordered`: a bordered system in the coordinates of a basis.
-/

namespace ActiveSet

open Finset Rotation

/-- The coordinates of a row. -/
noncomputable def coord (d : ℕ) (a : ℕ → ℝ) (q : ℕ → ℕ → ℝ) (j : ℕ) : ℝ :=
  ∑ p ∈ range d, a p * q p j

/-- The coordinates of a matrix. -/
noncomputable def quad (d : ℕ) (h q : ℕ → ℕ → ℝ) (i j : ℕ) : ℝ :=
  ∑ p ∈ range d, q p i * ∑ r ∈ range d, h p r * q r j

/-- The columns of an array have length one and are perpendicular to each other. -/
def Orthonormal (d : ℕ) (q : ℕ → ℕ → ℝ) : Prop :=
  ∀ i j, i < d → j < d → ∑ p ∈ range d, q p i * q p j = if i = j then 1 else 0

variable {d : ℕ} {a a' : ℕ → ℝ} {h h' q q' : ℕ → ℕ → ℝ} {g : Rotation ℝ} {u v : ℕ}

theorem coord_congr (ha : ∀ p, p < d → a p = a' p) {j : ℕ} (hq : ∀ p, p < d → q p j = q' p j) :
    coord d a q j = coord d a' q' j := by
  refine Finset.sum_congr rfl fun p hp => ?_
  have hp := mem_range.1 hp
  rw [ha p hp, hq p hp]

theorem quad_congr (hh : ∀ p r, p < d → r < d → h p r = h' p r) {i j : ℕ}
    (hi : ∀ p, p < d → q p i = q' p i) (hj : ∀ p, p < d → q p j = q' p j) :
    quad d h q i j = quad d h' q' i j := by
  refine Finset.sum_congr rfl fun p hp => ?_
  have hp := mem_range.1 hp
  rw [hi p hp]
  congr 1
  refine Finset.sum_congr rfl fun r hr => ?_
  have hr := mem_range.1 hr
  rw [hh p r hp hr, hj r hr]

/-- A last row of zeros does not count. -/
theorem quad_succ {i j : ℕ} (hi : q d i = 0) (hj : q d j = 0) :
    quad (d + 1) h q i j = quad d h q i j := by
  unfold quad
  rw [sum_range_succ, hi, zero_mul, add_zero]
  refine Finset.sum_congr rfl fun p _ => ?_
  rw [sum_range_succ, hj, mul_zero, add_zero]

/-- The coordinates of a symmetric matrix are symmetric. -/
theorem quad_comm (hsymm : ∀ p r, p < d → r < d → h p r = h r p) (i j : ℕ) :
    quad d h q i j = quad d h q j i := by
  unfold quad
  simp only [mul_sum]
  rw [sum_comm]
  refine Finset.sum_congr rfl fun r hr => Finset.sum_congr rfl fun p hp => ?_
  rw [hsymm p r (mem_range.1 hp) (mem_range.1 hr)]
  ring

/-- The product of a matrix with a vector, in the coordinates of the basis. -/
theorem sum_quad_mul (e : ℕ) (w : ℕ → ℝ) (i : ℕ) :
    ∑ j ∈ range e, quad d h q i j * w j =
      coord d (fun p => ∑ r ∈ range d, h p r * ∑ j ∈ range e, q r j * w j) q i := by
  unfold coord quad
  simp only [mul_sum, sum_mul]
  rw [sum_comm]
  refine Finset.sum_congr rfl fun p _ => ?_
  rw [sum_comm]
  refine Finset.sum_congr rfl fun r _ => Finset.sum_congr rfl fun j _ => ?_
  ring

/-- In an orthonormal basis the identity matrix stays what it is. -/
theorem quad_of_identity (hq : Orthonormal d q)
    (hh : ∀ p r, p < d → r < d → h p r = if p = r then 1 else 0) {i j : ℕ} (hi : i < d)
    (hj : j < d) : quad d h q i j = if i = j then 1 else 0 := by
  rw [← hq i j hi hj]
  refine Finset.sum_congr rfl fun p hp => ?_
  have hp := mem_range.1 hp
  have hrow : ∑ r ∈ range d, h p r * q r j = q p j := by
    rw [sum_eq_single p]
    · rw [hh p p hp hp, if_pos rfl, one_mul]
    · intro r hr hne
      rw [hh p r hp (mem_range.1 hr), if_neg hne.symm, zero_mul]
    · intro hnot
      exact absurd (mem_range.2 hp) hnot
  rw [hrow]

-- ---------------------------------------------------------------------------
-- One rotation of the basis
-- ---------------------------------------------------------------------------

theorem coord_turn (j : ℕ) :
    coord d a (fun p => g.turn u v (q p)) j = g.turn u v (coord d a q) j :=
  (turn_sum d a q j).symm

/-- Both indices of a sum of products are turned by turning the factors. -/
theorem turn_turn_sum (d : ℕ) (F L : ℕ → ℕ → ℝ) (i j : ℕ) :
    g.turn u v (fun i => g.turn u v (fun j => ∑ p ∈ range d, F p i * L p j) j) i =
      ∑ p ∈ range d, g.turn u v (F p) i * g.turn u v (L p) j := by
  have hinner : (fun i => g.turn u v (fun j => ∑ p ∈ range d, F p i * L p j) j) =
      fun i => ∑ p ∈ range d, g.turn u v (L p) j * F p i := by
    funext i
    rw [turn_sum d (fun p => F p i)]
    exact Finset.sum_congr rfl fun p _ => mul_comm _ _
  rw [hinner, turn_sum d fun p => g.turn u v (L p) j]
  exact Finset.sum_congr rfl fun p _ => mul_comm _ _

theorem quad_turn (i j : ℕ) :
    quad d h (fun p => g.turn u v (q p)) i j =
      g.turn u v (fun i => g.turn u v (quad d h q i) j) i := by
  have hinner : ∀ p, ∑ r ∈ range d, h p r * g.turn u v (q r) j =
      g.turn u v (fun j => ∑ r ∈ range d, h p r * q r j) j :=
    fun p => (turn_sum d (h p) q j).symm
  have hboth := turn_turn_sum (g := g) (u := u) (v := v) d q
    (fun p j => ∑ r ∈ range d, h p r * q r j) i j
  unfold quad
  rw [hboth]
  exact Finset.sum_congr rfl fun p _ => by rw [hinner p]

/-- Turning both indices looks at entries in the rows and columns that are turned, and at the entry
itself. -/
theorem turn_turn_congr {M M' : ℕ → ℕ → ℝ} {e : ℕ} (hu : u < e) (hv : v < e)
    (hM : ∀ i j, i < e → j < e → M i j = M' i j) {i j : ℕ} (hi : i < e) (hj : j < e) :
    g.turn u v (fun i => g.turn u v (M i) j) i =
      g.turn u v (fun i => g.turn u v (M' i) j) i := by
  have hrow : ∀ i, i < e → g.turn u v (M i) j = g.turn u v (M' i) j :=
    fun i hi => turn_congr (hM i u hi hu) (hM i v hi hv) (hM i j hi hj)
  exact turn_congr (hrow u hu) (hrow v hv) (hrow i hi)

-- ---------------------------------------------------------------------------
-- Orthonormal bases
-- ---------------------------------------------------------------------------

theorem Orthonormal.congr (hq : Orthonormal d q)
    (heq : ∀ i j, i < d → j < d → q' i j = q i j) : Orthonormal d q' := by
  intro i j hi hj
  rw [← hq i j hi hj]
  refine Finset.sum_congr rfl fun p hp => ?_
  have hp := mem_range.1 hp
  rw [heq p i hp hi, heq p j hp hj]

/-- The rows of an orthonormal basis are orthonormal as well. -/
theorem Orthonormal.rows (hq : Orthonormal d q) {i k : ℕ} (hi : i < d) (hk : k < d) :
    ∑ j ∈ range d, q i j * q k j = if i = k then 1 else 0 := by
  let Q : Matrix (Fin d) (Fin d) ℝ := Matrix.of fun i j => q i j
  have hleft : Q.transpose * Q = 1 := by
    ext ⟨i, hi⟩ ⟨j, hj⟩
    rw [Matrix.mul_apply, Matrix.one_apply]
    simp only [Q, Matrix.transpose_apply, Matrix.of_apply, Fin.mk.injEq]
    rw [Fin.sum_univ_eq_sum_range (fun p => q p i * q p j) d]
    exact hq i j hi hj
  have hright : Q * Q.transpose = 1 := mul_eq_one_comm.1 hleft
  have hentry := congrFun (congrFun hright ⟨i, hi⟩) ⟨k, hk⟩
  rw [Matrix.mul_apply, Matrix.one_apply] at hentry
  simp only [Q, Matrix.transpose_apply, Matrix.of_apply, Fin.mk.injEq] at hentry
  rw [Fin.sum_univ_eq_sum_range (fun j => q i j * q k j) d] at hentry
  exact hentry

/-- A row is the combination of the columns of the basis by its coordinates. -/
theorem Orthonormal.expand (hq : Orthonormal d q) (a : ℕ → ℝ) {p : ℕ} (hp : p < d) :
    ∑ j ∈ range d, coord d a q j * q p j = a p := by
  unfold coord
  simp only [sum_mul]
  rw [sum_comm]
  have hrow : ∀ r ∈ range d, ∑ j ∈ range d, a r * q r j * q p j =
      if r = p then a r else 0 := by
    intro r hr
    have hrp := hq.rows (mem_range.1 hr) hp
    calc ∑ j ∈ range d, a r * q r j * q p j = a r * ∑ j ∈ range d, q r j * q p j := by
          rw [mul_sum]
          exact Finset.sum_congr rfl fun j _ => mul_assoc _ _ _
      _ = if r = p then a r else 0 := by
          rw [hrp]
          split
          · rw [mul_one]
          · rw [mul_zero]
  rw [Finset.sum_congr rfl hrow, sum_ite_eq' (range d) p, if_pos (mem_range.2 hp)]

/-- Conversely, an array whose rows are orthonormal is an orthonormal basis. -/
theorem orthonormal_of_rows (hrows : ∀ i k, i < d → k < d →
    ∑ j ∈ range d, q i j * q k j = if i = k then 1 else 0) : Orthonormal d q :=
  fun _ _ hi hj => Orthonormal.rows (q := fun i j => q j i) hrows hi hj

/-- In an orthonormal basis, a row with one entry stands in a column with one entry. -/
theorem Orthonormal.column_of_row {d : ℕ} {q : ℕ → ℕ → ℝ}
    (hq : Orthonormal (d + 1) q) (hrow : ∀ j, j < d → q d j = 0) {p : ℕ} (hp : p < d) :
    q p d = 0 := by
  have hone := hq.rows (show d < d + 1 by omega) (show d < d + 1 by omega)
  have hnone := hq.rows (show p < d + 1 by omega) (show d < d + 1 by omega)
  have hzero : ∀ r, ∑ j ∈ range d, q r j * q d j = 0 :=
    fun r => sum_eq_zero fun j hj => by rw [hrow j (mem_range.1 hj), mul_zero]
  rw [sum_range_succ, hzero, zero_add, if_pos rfl] at hone
  rw [sum_range_succ, hzero, zero_add, if_neg (by omega)] at hnone
  rcases mul_eq_zero.1 hnone with h | h
  · exact h
  · rw [h, mul_zero] at hone
    exact absurd hone zero_ne_one

-- A rotation of columns turns all rows alike, so it is the rows that are looked at.

/-- What a system with a matrix in the coordinates of a basis says of the matrix itself, when the last
coordinate direction is the last vector of the basis up to its sign. -/
theorem Orthonormal.exists_bordered {d : ℕ} {h q : ℕ → ℕ → ℝ} (hq : Orthonormal (d + 1) q)
    (hrow : ∀ j, j < d → q d j = 0) (hsymm : ∀ p r, p < d + 1 → r < d + 1 → h p r = h r p)
    {w : ℕ → ℝ} (hw : ∀ i, i < d →
      ∑ j ∈ range d, quad (d + 1) h q i j * w j = quad (d + 1) h q i d) :
    ∃ v : ℕ → ℝ, v d = 1 ∧ (∀ p, p < d → ∑ r ∈ range (d + 1), h p r * v r = 0) ∧
      ∑ r ∈ range (d + 1), h d r * v r =
        quad (d + 1) h q d d - ∑ i ∈ range d, quad (d + 1) h q i d * w i := by
  -- the last column of `q` less the combination of the others, scaled to have last entry one
  let u : ℕ → ℝ := fun j => if j = d then 1 else -w j
  let v : ℕ → ℝ := fun p => q d d * ∑ j ∈ range (d + 1), q p j * u j
  let g : ℕ → ℝ := fun p => ∑ r ∈ range (d + 1), h p r * v r
  let a := quad (d + 1) h q d d - ∑ i ∈ range d, quad (d + 1) h q i d * w i
  have hunit : q d d * q d d = 1 := by
    have hone := hq.rows (Nat.lt_succ_self d) (Nat.lt_succ_self d)
    rwa [sum_range_succ, sum_eq_zero fun j hj => by rw [hrow j (mem_range.1 hj), mul_zero],
      zero_add, if_pos rfl] at hone
  have hu : ∀ j ∈ range d, u j = -w j := fun j hj => if_neg (mem_range.1 hj).ne
  have hud : u d = 1 := if_pos rfl
  have hcoord : ∀ k, coord (d + 1) g q k = q d d *
      (quad (d + 1) h q k d - ∑ j ∈ range d, quad (d + 1) h q k j * w j) := by
    intro k
    have hsum : coord (d + 1) g q k =
        q d d * ∑ j ∈ range (d + 1), quad (d + 1) h q k j * u j := by
      rw [sum_quad_mul, coord, coord, mul_sum]
      refine Finset.sum_congr rfl fun p _ => ?_
      simp only [g, v, mul_sum, sum_mul]
      refine Finset.sum_congr rfl fun r _ => Finset.sum_congr rfl fun j _ => ?_
      ring
    rw [hsum, sum_range_succ, hud, mul_one, add_comm, sub_eq_add_neg, ← sum_neg_distrib]
    congr 2
    exact Finset.sum_congr rfl fun j hj => by rw [hu j hj, mul_neg]
  -- by the choice of `w`, the image of `v` has no coordinate along the first `d` columns
  have hexpand : ∀ p, p < d + 1 → g p = q d d * a * q p d := by
    intro p hp
    rw [← hq.expand g hp, sum_range_succ, sum_eq_zero fun k hk => by
      rw [hcoord, hw k (mem_range.1 hk), sub_self, mul_zero, zero_mul], zero_add, hcoord]
    congr 3
    exact Finset.sum_congr rfl fun j hj => by rw [quad_comm hsymm]
  refine ⟨v, ?_, fun p hp => ?_, ?_⟩
  · show q d d * ∑ j ∈ range (d + 1), q d j * u j = 1
    rw [sum_range_succ, hud, mul_one,
      sum_eq_zero fun j hj => by rw [hrow j (mem_range.1 hj), zero_mul], zero_add, hunit]
  · show g p = 0
    rw [hexpand p (by omega), hq.column_of_row hrow hp, mul_zero]
  · show g d = a
    rw [hexpand d (by omega), mul_right_comm, hunit, one_mul]

theorem Orthonormal.turn (hq : Orthonormal d q) (hg : g.Proper) (huv : u ≠ v) (hu : u < d)
    (hv : v < d) : Orthonormal d fun p => g.turn u v (q p) := by
  refine orthonormal_of_rows fun i k hi hk => ?_
  rw [sum_turn_mul_turn hg huv hu hv]
  exact hq.rows hi hk

theorem Orthonormal.turnAll {gs : List (Rotation ℝ)} {first : ℕ} (hq : Orthonormal d q)
    (hproper : ∀ g ∈ gs, g.Proper) (hlength : first + gs.length < d) :
    Orthonormal d fun p => Rotation.turnAll first gs (q p) := by
  refine orthonormal_of_rows fun i k hi hk => ?_
  rw [sum_turnAll_mul_turnAll hproper _ _ hlength]
  exact hq.rows hi hk

-- ---------------------------------------------------------------------------
-- Rotations of neighbouring columns
-- ---------------------------------------------------------------------------

theorem coord_turnAll (first : ℕ) (gs : List (Rotation ℝ)) (j : ℕ) :
    coord d a (fun p => turnAll first gs (q p)) j = turnAll first gs (coord d a q) j :=
  (turnAll_sum d a j).symm

end ActiveSet
