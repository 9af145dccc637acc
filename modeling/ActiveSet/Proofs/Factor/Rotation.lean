import ActiveSet.Factor.Rotation
import ActiveSet.Proofs.Exact.Real

/-!
# Rotations of sequences

A rotation of two columns of a grid does to each of its rows what `Rotation.turn` does to a
sequence: it turns two entries and leaves the others alone. Everything about the factorizations is
said through this one operation. It is linear, so it commutes with the inner products that make up
the coordinates of a row, and it keeps the inner product of two sequences that are turned alike.

* `Rotation.toward_spec`: what a rotation towards a pair is over the reals.
* `Rotation.turn`, `Rotation.turnAll`: one rotation, and rotations of neighbouring entries.
* `Rotation.turnAll_sweep`: a sweep collects the entries of a sequence in the last of them.
-/

namespace ActiveSet

open Finset

namespace Rotation

/-- The cosine and the sine of a rotation are those of an angle. -/
def Proper (g : Rotation ℝ) : Prop := g.c * g.c + g.s * g.s = 1

-- ---------------------------------------------------------------------------
-- The rotation towards a pair
-- ---------------------------------------------------------------------------

theorem toward_zero (a : ℝ) : toward a 0 = (⟨1, 0⟩, a) := by
  unfold toward
  rw [if_pos (by simp)]

theorem toward_of_zero {b : ℝ} (hb : b ≠ 0) : toward 0 b = (⟨0, 1⟩, b) := by
  unfold toward
  rw [if_neg (by simpa using hb), if_pos (by simp)]

theorem toward_of_ne {a b : ℝ} (ha : a ≠ 0) (hb : b ≠ 0) :
    toward a b = (⟨a / √(a * a + b * b), b / √(a * a + b * b)⟩, √(a * a + b * b)) := by
  unfold toward
  rw [if_neg (by simpa using hb), if_neg (by simpa using ha)]
  rfl

/-- The pair is turned into its length and zero, by a rotation whose sine vanishes only with the
second component. -/
theorem toward_spec (a b : ℝ) :
    (toward a b).1.Proper ∧ (toward a b).1.fst a b = (toward a b).2 ∧
      (toward a b).1.snd a b = 0 ∧ (toward a b).2 * (toward a b).2 = a * a + b * b ∧
      (b ≠ 0 → (toward a b).1.s ≠ 0) := by
  unfold Proper fst snd
  by_cases hb : b = 0
  · subst hb
    rw [toward_zero]
    refine ⟨by norm_num, by ring, by ring, by ring, fun h => absurd rfl h⟩
  by_cases ha : a = 0
  · subst ha
    rw [toward_of_zero hb]
    refine ⟨by norm_num, by ring, by ring, by ring, fun _ => one_ne_zero⟩
  rw [toward_of_ne ha hb]
  have hpos : 0 < a * a + b * b := add_pos (mul_self_pos.2 ha) (mul_self_pos.2 hb)
  have hne : √(a * a + b * b) ≠ 0 := (Real.sqrt_pos.2 hpos).ne'
  have hsq : √(a * a + b * b) * √(a * a + b * b) = a * a + b * b :=
    Real.mul_self_sqrt hpos.le
  -- of the length only its square matters
  generalize √(a * a + b * b) = r at hne hsq ⊢
  refine ⟨?_, ?_, ?_, hsq, fun _ => div_ne_zero hb hne⟩
  · field_simp
    linarith
  · field_simp
    linarith
  · ring

theorem proper_toward (a b : ℝ) : (toward a b).1.Proper := (toward_spec a b).1

theorem toward_ne_zero {a b : ℝ} (h : a ≠ 0 ∨ b ≠ 0) : (toward a b).2 ≠ 0 := by
  intro hzero
  have hsq := (toward_spec a b).2.2.2.1
  rw [hzero, mul_zero] at hsq
  have ha : 0 ≤ a * a := mul_self_nonneg a
  have hb : 0 ≤ b * b := mul_self_nonneg b
  rcases h with h | h
  · exact h (mul_self_eq_zero.1 (by linarith))
  · exact h (mul_self_eq_zero.1 (by linarith))

/-- The length is positive if the second component is. -/
theorem toward_pos {a b : ℝ} (hb : 0 < b) : 0 < (toward a b).2 := by
  by_cases ha : a = 0
  · subst ha
    rw [toward_of_zero hb.ne']
    exact hb
  · rw [toward_of_ne ha hb.ne']
    exact Real.sqrt_pos.2 (add_pos (mul_self_pos.2 ha) (mul_pos hb hb))

-- ---------------------------------------------------------------------------
-- One rotation of a sequence
-- ---------------------------------------------------------------------------

/-- The sequence with entries `u` and `v` turned. -/
noncomputable def turn (g : Rotation ℝ) (u v : ℕ) (f : ℕ → ℝ) (j : ℕ) : ℝ :=
  if j = v then g.snd (f u) (f v) else if j = u then g.fst (f u) (f v) else f j

variable {g : Rotation ℝ} {u v : ℕ}

theorem turn_fst (huv : u ≠ v) (f : ℕ → ℝ) : g.turn u v f u = g.fst (f u) (f v) := by
  rw [turn, if_neg huv, if_pos rfl]

theorem turn_snd (f : ℕ → ℝ) : g.turn u v f v = g.snd (f u) (f v) := by
  rw [turn, if_pos rfl]

theorem turn_of_ne (f : ℕ → ℝ) {j : ℕ} (hu : j ≠ u) (hv : j ≠ v) : g.turn u v f j = f j := by
  rw [turn, if_neg hv, if_neg hu]

/-- A pair of zeros is turned into zeros. -/
theorem turn_of_zero {f : ℕ → ℝ} (hu : f u = 0) (hv : f v = 0) (j : ℕ) :
    g.turn u v f j = f j := by
  unfold turn fst snd
  split
  · next hj => rw [hj, hu, hv]; ring
  · split
    · next hj => rw [hj, hu, hv]; ring
    · rfl

theorem turn_congr {f f' : ℕ → ℝ} {j : ℕ} (hu : f u = f' u) (hv : f v = f' v) (hj : f j = f' j) :
    g.turn u v f j = g.turn u v f' j := by
  unfold turn
  rw [hu, hv, hj]

/-- Turning commutes with a linear combination of sequences. -/
theorem turn_sum (d : ℕ) (a : ℕ → ℝ) (F : ℕ → ℕ → ℝ) (j : ℕ) :
    g.turn u v (fun j => ∑ p ∈ range d, a p * F p j) j =
      ∑ p ∈ range d, a p * g.turn u v (F p) j := by
  unfold turn fst snd
  split
  · rw [mul_sum, mul_sum, ← sum_sub_distrib]
    exact Finset.sum_congr rfl fun p _ => by ring
  · split
    · rw [mul_sum, mul_sum, ← sum_add_distrib]
      exact Finset.sum_congr rfl fun p _ => by ring
    · rfl

/-- A sum over a range, with two of its terms in front. -/
theorem sum_range_eq_add_add {d : ℕ} (huv : u ≠ v) (hu : u < d) (hv : v < d) (F : ℕ → ℝ) :
    ∑ k ∈ range d, F k = F u + (F v + ∑ k ∈ ((range d).erase u).erase v, F k) := by
  have hv' : v ∈ (range d).erase u := mem_erase.2 ⟨huv.symm, mem_range.2 hv⟩
  rw [add_sum_erase _ F hv', add_sum_erase _ F (mem_range.2 hu)]

/-- Two sequences that are turned alike keep their inner product. -/
theorem sum_turn_mul_turn (hg : g.Proper) {d : ℕ} (huv : u ≠ v) (hu : u < d) (hv : v < d)
    (f h : ℕ → ℝ) :
    ∑ k ∈ range d, g.turn u v f k * g.turn u v h k = ∑ k ∈ range d, f k * h k := by
  rw [sum_range_eq_add_add huv hu hv, sum_range_eq_add_add huv hu hv, turn_fst huv, turn_fst huv,
    turn_snd, turn_snd]
  have hrest : ∑ k ∈ ((range d).erase u).erase v, g.turn u v f k * g.turn u v h k =
      ∑ k ∈ ((range d).erase u).erase v, f k * h k := by
    refine Finset.sum_congr rfl fun k hk => ?_
    obtain ⟨hkv, hk⟩ := mem_erase.1 hk
    have hku := (mem_erase.1 hk).1
    rw [turn_of_ne f hku hkv, turn_of_ne h hku hkv]
  rw [hrest]
  unfold Proper at hg
  unfold fst snd
  linear_combination (f u * h u + f v * h v) * hg

-- ---------------------------------------------------------------------------
-- Rotations of neighbouring entries
-- ---------------------------------------------------------------------------

/-- The sequence after rotations of neighbouring entries, of which the first one turns entries
`first + 1` and `first`, and each further one moves on by one. -/
noncomputable def turnAll : ℕ → List (Rotation ℝ) → (ℕ → ℝ) → ℕ → ℝ
  | _, [], f => f
  | first, g :: gs, f => turnAll (first + 1) gs (g.turn (first + 1) first f)

theorem turnAll_congr {d : ℕ} {gs : List (Rotation ℝ)} : ∀ {first : ℕ} {f f' : ℕ → ℝ},
    first + gs.length < d → (∀ j, j < d → f j = f' j) → ∀ j, j < d →
      turnAll first gs f j = turnAll first gs f' j := by
  induction gs with
  | nil => exact fun _ hf => hf
  | cons g gs ih =>
    intro first f f' hd hf
    rw [List.length_cons] at hd
    exact ih (by omega) fun j hj => turn_congr (hf _ (by omega)) (hf _ (by omega)) (hf j hj)

/-- Entries that are all zero stay so. -/
theorem turnAll_of_zero {gs : List (Rotation ℝ)} : ∀ {first : ℕ} {f : ℕ → ℝ},
    (∀ j, first ≤ j → j ≤ first + gs.length → f j = 0) → turnAll first gs f = f := by
  induction gs with
  | nil => exact fun _ => rfl
  | cons g gs ih =>
    intro first f hf
    rw [List.length_cons] at hf
    have hturn : g.turn (first + 1) first f = f := by
      funext j
      exact turn_of_zero (hf _ (by omega) (by omega)) (hf _ (by omega) (by omega)) j
    rw [turnAll, hturn]
    exact ih fun j h1 h2 => hf j (by omega) (by omega)

theorem turnAll_sum (d : ℕ) (a : ℕ → ℝ) {gs : List (Rotation ℝ)} : ∀ {first : ℕ}
    {F : ℕ → ℕ → ℝ} (j : ℕ), turnAll first gs (fun j => ∑ p ∈ range d, a p * F p j) j =
      ∑ p ∈ range d, a p * turnAll first gs (F p) j := by
  induction gs with
  | nil => exact fun _ => rfl
  | cons g gs ih =>
    intro first F j
    have hturn : g.turn (first + 1) first (fun j => ∑ p ∈ range d, a p * F p j) =
        fun j => ∑ p ∈ range d, a p * g.turn (first + 1) first (F p) j := by
      funext j
      exact turn_sum d a F j
    rw [turnAll, hturn, ih]
    rfl

/-- Two sequences that are turned alike keep their inner product. -/
theorem sum_turnAll_mul_turnAll {d : ℕ} {gs : List (Rotation ℝ)} :
    (∀ g ∈ gs, g.Proper) → ∀ {first : ℕ} (f h : ℕ → ℝ), first + gs.length < d →
      ∑ k ∈ range d, turnAll first gs f k * turnAll first gs h k = ∑ k ∈ range d, f k * h k := by
  induction gs with
  | nil => exact fun _ _ _ _ _ => rfl
  | cons g gs ih =>
    intro hproper first f h hd
    rw [List.length_cons] at hd
    have hrest := fun g' hg' => hproper g' (List.mem_cons_of_mem g hg')
    rw [turnAll, turnAll, ih hrest _ _ (by omega),
      sum_turn_mul_turn (hproper g List.mem_cons_self) (by omega) (by omega) (by omega)]

/-! ## Sweeps -/

theorem proper_of_mem_sweep {as : List ℝ} : ∀ {r : ℝ} {g : Rotation ℝ}, g ∈ (sweep r as).1 →
    g.Proper := by
  induction as with
  | nil => exact fun h => nomatch h
  | cons a as ih =>
    intro r g hg
    rw [sweep_cons, List.mem_cons] at hg
    rcases hg with rfl | hg
    · exact proper_toward a r
    · exact ih hg

/-- What a sweep collects is zero only if all entries are. -/
theorem sweep_ne_zero {as : List ℝ} : ∀ {r : ℝ}, (r ≠ 0 ∨ ∃ a ∈ as, a ≠ 0) →
    (sweep r as).2 ≠ 0 := by
  induction as with
  | nil =>
    intro r h
    rcases h with h | ⟨a, ha, -⟩
    · exact h
    · exact absurd ha List.not_mem_nil
  | cons a as ih =>
    intro r h
    rw [sweep_cons]
    apply ih
    rcases h with h | ⟨b, hb, hne⟩
    · exact .inl (toward_ne_zero (.inr h))
    · rcases List.mem_cons.1 hb with rfl | hb
      · exact .inl (toward_ne_zero (.inl hne))
      · exact .inr ⟨b, hb, hne⟩

/-- A sweep over entries `first`, …, `first + k` makes all of them zero but the last one, in which
it collects them. -/
theorem turnAll_sweep (k : ℕ) : ∀ {first : ℕ} {f : ℕ → ℝ} {r : ℝ}, f first = r →
    ∀ j, turnAll first (sweep r ((List.range' (first + 1) k).map f)).1 f j =
      if j < first then f j
      else if j < first + k then 0
      else if j = first + k then (sweep r ((List.range' (first + 1) k).map f)).2
      else f j := by
  induction k with
  | zero =>
    intro first f r hr j
    change f j = _
    split
    · rfl
    · rw [if_neg (by omega)]
      split
      · next h => rw [h]; exact hr
      · rfl
  | succ k ih =>
    intro first f r hr j
    rw [List.range'_succ, List.map_cons, sweep_cons, turnAll]
    -- after the first rotation the next entry holds what was collected so far
    have htoward := toward_spec (f (first + 1)) r
    have hnext : (toward (f (first + 1)) r).1.turn (first + 1) first f (first + 1) =
        (toward (f (first + 1)) r).2 := by
      rw [turn_fst (by omega), hr]
      exact htoward.2.1
    have hmap : (List.range' (first + 1 + 1) k).map f =
        (List.range' (first + 1 + 1) k).map
          ((toward (f (first + 1)) r).1.turn (first + 1) first f) := by
      refine List.map_congr_left fun i hi => ?_
      rw [List.mem_range'_1] at hi
      exact (turn_of_ne f (by omega) (by omega)).symm
    rw [hmap, ih hnext j]
    by_cases hj : j < first
    · rw [if_pos (by omega), if_pos hj, turn_of_ne f (by omega) (by omega)]
    rw [if_neg hj]
    by_cases hfirst : j = first
    · -- the entry that was turned first is zero, and no later rotation touches it
      subst hfirst
      rw [if_pos (by omega), if_pos (by omega), turn_snd, hr]
      exact htoward.2.2.1
    rw [if_neg (by omega)]
    by_cases hlast : j < first + 1 + k
    · rw [if_pos hlast, if_pos (by omega)]
    rw [if_neg hlast, if_neg (show ¬j < first + (k + 1) by omega)]
    by_cases heq : j = first + 1 + k
    · rw [if_pos heq, if_pos (show j = first + (k + 1) by omega)]
    · rw [if_neg heq, if_neg (show j ≠ first + (k + 1) by omega),
        turn_of_ne f (by omega) (by omega)]

end Rotation

-- ---------------------------------------------------------------------------
-- Rotations of grids
-- ---------------------------------------------------------------------------

namespace Grid

variable {m n : ℕ} {G : Grid ℝ m n} {count u v : ℕ} {g : Rotation ℝ}

theorem set_apply_of_ne {i j r c : ℕ} (a : ℝ) (h : r ≠ i ∨ c ≠ j) : G.set i j a r c = G r c := by
  by_cases hr : r < m
  · by_cases hc : c < n
    · rw [set_apply _ _ _ _ hr hc, if_neg (by omega)]
    · rw [apply_of_column_le _ (by omega), apply_of_column_le _ (by omega)]
  · rw [apply_of_row_le _ (by omega), apply_of_row_le _ (by omega)]

/-- A rotation of columns turns each row. -/
theorem turnColumns_row (hu : u < n) (hv : v < n) {i : ℕ} (hi : i < count) :
    G.turnColumns count u v g i = g.turn u v (G i) := by
  funext j
  by_cases him : i < m
  · by_cases hj : j < n
    · rw [turnColumns_apply _ _ _ _ _ him hj, Rotation.turn]
      simp only [hi, true_and]
    · rw [apply_of_column_le _ (by omega), Rotation.turn_of_ne _ (by omega) (by omega),
        apply_of_column_le _ (by omega)]
  · -- outside the grid there are zeros only
    rw [apply_of_row_le _ (by omega), Rotation.turn_of_zero (apply_of_row_le _ (by omega))
      (apply_of_row_le _ (by omega)), apply_of_row_le _ (by omega)]

theorem turnColumns_of_le {i : ℕ} (hi : count ≤ i) (j : ℕ) :
    G.turnColumns count u v g i j = G i j := by
  by_cases him : i < m
  · by_cases hj : j < n
    · rw [turnColumns_apply _ _ _ _ _ him hj, if_neg (by omega), if_neg (by omega)]
    · rw [apply_of_column_le _ (by omega), apply_of_column_le _ (by omega)]
  · rw [apply_of_row_le _ (by omega), apply_of_row_le _ (by omega)]

/-- Where a rotation makes an entry zero, writing the zero changes nothing. -/
theorem turnColumns_set_row (hu : u < n) (hv : v < n) {k : ℕ} (hk : k < count) (hkm : k < m)
    (hzero : g.snd (G k u) (G k v) = 0) {i : ℕ} (hi : i < count) :
    (G.turnColumns count u v g).set k v 0 i = g.turn u v (G i) := by
  have hrow := turnColumns_row (G := G) (g := g) hu hv hi
  funext j
  by_cases hij : i = k ∧ j = v
  · obtain ⟨rfl, rfl⟩ := hij
    rw [set_apply _ _ _ _ hkm hv, if_pos ⟨rfl, rfl⟩, Rotation.turn_snd, hzero]
  · rw [set_apply_of_ne _ (by omega), hrow]

theorem turnNeighbours_row {gs : List (Rotation ℝ)} : ∀ {first : ℕ} {G : Grid ℝ m n},
    first + gs.length < n → ∀ {i : ℕ}, i < count →
      G.turnNeighbours count first gs i = Rotation.turnAll first gs (G i) := by
  induction gs with
  | nil => exact fun _ _ _ => rfl
  | cons g gs ih =>
    intro first G hlength i hi
    rw [List.length_cons] at hlength
    rw [turnNeighbours, Rotation.turnAll, ih (by omega) hi,
      turnColumns_row (by omega) (by omega) hi]

/-- An elimination turns two rows, one column at a time. In a column left of column `k` both entries
have to be zero, as there it does nothing. -/
theorem eliminate_column {last k : ℕ} (huv : u ≠ v) (hu : u < m) (hv : v < m) (hk : k < last)
    (hlast : last ≤ n) {i c : ℕ} (hzero : c < k → G u c = 0 ∧ G v c = 0) (hi : i < m)
    (hc : c < last) :
    G.eliminate last u v k i c =
      (Rotation.toward (G u k) (G v k)).1.turn u v (fun i => G i c) i := by
  have htoward := Rotation.toward_spec (G u k) (G v k)
  unfold eliminate
  dsimp only
  rw [turnRows_apply _ _ _ _ _ _ hi (by omega)]
  rcases Nat.lt_trichotomy c k with hlt | rfl | hgt
  · obtain ⟨hzu, hzv⟩ := hzero hlt
    rw [if_neg (by omega), if_neg (by omega), set_apply_of_ne _ (.inr (by omega)),
      set_apply_of_ne _ (.inr (by omega)),
      Rotation.turn_of_zero (f := fun i => G i c) hzu hzv]
  · -- the column that is written
    rw [if_neg (by omega), if_neg (by omega), set_apply _ _ _ _ hi (by omega),
      set_apply _ _ _ _ hi (by omega)]
    by_cases hiv : i = v
    · subst hiv
      rw [if_pos ⟨rfl, rfl⟩, Rotation.turn_snd]
      exact htoward.2.2.1.symm
    · by_cases hiu : i = u
      · subst hiu
        rw [if_neg (by omega), if_pos ⟨rfl, rfl⟩, Rotation.turn_fst huv]
        exact htoward.2.1.symm
      · rw [if_neg (by omega), if_neg (by omega), Rotation.turn_of_ne _ hiu hiv]
  · have hkept : ∀ r, ((G.set u k (Rotation.toward (G u k) (G v k)).2).set v k 0) r c = G r c := by
      intro r
      rw [set_apply_of_ne _ (.inr (by omega)), set_apply_of_ne _ (.inr (by omega))]
    simp only [hkept, hc, true_and, show k + 1 ≤ c from hgt]
    rfl

end Grid

end ActiveSet
