import ActiveSet.Proofs.Factor.Cholesky

/-!
# A row and a column that are deleted

A factor without one of its columns has entries below the diagonal, one in each later column, and a
sweep of rotations of neighbouring rows takes them away. The rows are turned in all later columns
alike, so the products of columns stay what they are (`Factors.removeColumn`).

The diagonal entry that a rotation collects is a length. So a factor with a positive diagonal keeps
one, and of these a matrix has only one (`Factors.entries_eq_of_positive`).

* `skip`: the places in the matrix of what is left.
* `Swept`: the rows and columns in the course of the sweep.
* `Positive`: the diagonal is positive, which every operation keeps.
-/

namespace ActiveSet.Cholesky

open Finset Rotation

variable {n : ℕ} {f f' : Cholesky ℝ n} {M : ℕ → ℕ → ℝ} {p : ℕ}

/-- The place in a sequence of the entry that is the `i`-th without entry `p`. -/
def skip (p i : ℕ) : ℕ := if p ≤ i then i + 1 else i

theorem skip_ne (p i : ℕ) : skip p i ≠ p := by
  unfold skip
  split <;> omega

theorem skip_lt {d i : ℕ} (hi : i < d - 1) : skip p i < d := by
  unfold skip
  split <;> omega

-- ---------------------------------------------------------------------------
-- The sweep
-- ---------------------------------------------------------------------------

/-- The array `F` after a sweep has passed the columns between `p` and `i`. Column `p` is struck and
does not count. The columns that have been passed have lost their diagonal entries to the row
above. -/
structure Swept (d p i : ℕ) (F G : ℕ → ℕ → ℝ) : Prop where
  upper : ∀ r c, c < r → r < d → c ≠ p → G r c = 0
  cleared : ∀ c, p < c → c < i → G c c = 0
  shifted : ∀ c, p < c → c < i → G (c - 1) c ≠ 0 ∧ (0 < F c c → 0 < G (c - 1) c)
  before : ∀ c, c < p → G c c = F c c
  later : ∀ c, i ≤ c → c < d → G c c = F c c
  product : ∀ a b, a < d → b < d → a ≠ p → b ≠ p →
    ∑ k ∈ range d, G k a * G k b = ∑ k ∈ range d, F k a * F k b

/-- One more rotation. -/
theorem Swept.eliminate {d i : ℕ} {F : ℕ → ℕ → ℝ} {G : Grid ℝ n n} (h : Swept d p i F G)
    (hp : p < i) (hi : i < d) (hd : d ≤ n) (hne : F i i ≠ 0) :
    Swept d p (i + 1) F (G.eliminate d (i - 1) i i) := by
  have hlater := h.later i (Nat.le_refl i) hi
  -- both rows are zero in the columns before
  have hzero : ∀ c, c ≠ p → c < i → G (i - 1) c = 0 ∧ G i c = 0 := by
    intro c hcp hci
    refine ⟨?_, h.upper i c hci hi hcp⟩
    rcases Nat.lt_or_ge c (i - 1) with hlt | hge
    · exact h.upper (i - 1) c hlt (by omega) hcp
    · obtain rfl : c = i - 1 := by omega
      exact h.cleared (i - 1) (by omega) hci
  have hrows : ∀ r c, r < d → c < d → c ≠ p → G.eliminate d (i - 1) i i r c =
      (toward (G (i - 1) i) (G i i)).1.turn (i - 1) i (fun r => G r c) r :=
    fun r c hr hc hcp => Grid.eliminate_column (by omega) (by omega) (by omega) hi hd
      (hzero c hcp) (by omega) hc
  obtain ⟨hproper, hlength, hcleared, -, -⟩ := toward_spec (G (i - 1) i) (G i i)
  have hlength_ne : (toward (G (i - 1) i) (G i i)).2 ≠ 0 :=
    toward_ne_zero (.inr (by rwa [hlater]))
  have hlength_pos : 0 < F i i → 0 < (toward (G (i - 1) i) (G i i)).2 :=
    fun hpos => toward_pos (by rwa [hlater])
  generalize (toward (G (i - 1) i) (G i i)).2 = length at hlength hlength_ne hlength_pos
  generalize (toward (G (i - 1) i) (G i i)).1 = g at hrows hproper hlength hcleared
  generalize G.eliminate d (i - 1) i i = G' at hrows
  have hold : ∀ r c, r < d → c < d → c ≠ p → c < i → G' r c = G r c := by
    intro r c hr hc hcp hci
    obtain ⟨hu, hv⟩ := hzero c hcp hci
    rw [hrows r c hr hc hcp, turn_of_zero (f := fun r => G r c) hu hv]
  have hother : ∀ r c, r < d → c < d → c ≠ p → r ≠ i - 1 → r ≠ i → G' r c = G r c := by
    intro r c hr hc hcp hu hv
    rw [hrows r c hr hc hcp, turn_of_ne _ hu hv]
  refine ⟨fun r c hcr hr hcp => ?_, fun c hpc hci => ?_, fun c hpc hci => ?_, fun c hcp => ?_,
    fun c hic hc => ?_, fun a b ha hb hap hbp => ?_⟩
  · rcases Nat.lt_or_ge c i with hlt | hge
    · rw [hold r c hr (by omega) hcp hlt]
      exact h.upper r c hcr hr hcp
    · rw [hother r c hr (by omega) hcp (by omega) (by omega)]
      exact h.upper r c hcr hr hcp
  · rcases Nat.lt_succ_iff_lt_or_eq.1 hci with hlt | rfl
    · rw [hold c c (by omega) (by omega) (by omega) hlt]
      exact h.cleared c hpc hlt
    · rw [hrows c c hi hi (by omega), turn_snd]
      exact hcleared
  · rcases Nat.lt_succ_iff_lt_or_eq.1 hci with hlt | rfl
    · rw [hold (c - 1) c (by omega) (by omega) (by omega) hlt]
      exact h.shifted c hpc hlt
    · rw [hrows (c - 1) c (by omega) hi (by omega), turn_fst (by omega), hlength]
      exact ⟨hlength_ne, hlength_pos⟩
  · rw [hother c c (by omega) (by omega) (by omega) (by omega) (by omega)]
    exact h.before c hcp
  · rw [hother c c hc hc (by omega) (by omega) (by omega)]
    exact h.later c (by omega) hc
  · rw [← h.product a b ha hb hap hbp]
    calc ∑ k ∈ range d, G' k a * G' k b
        = ∑ k ∈ range d, g.turn (i - 1) i (fun r => G r a) k *
            g.turn (i - 1) i (fun r => G r b) k := by
          refine Finset.sum_congr rfl fun k hk => ?_
          have hk := mem_range.1 hk
          rw [hrows k a hk ha hap, hrows k b hk hb hbp]
      _ = ∑ k ∈ range d, G k a * G k b :=
          sum_turn_mul_turn hproper (by omega) (by omega) hi _ _

/-- The whole sweep. -/
theorem Swept.clearDiagonal {d : ℕ} {F : ℕ → ℕ → ℝ} (hd : d ≤ n)
    (hne : ∀ c, p < c → c < d → F c c ≠ 0) {k : ℕ} : ∀ {i : ℕ} {G : Grid ℝ n n},
      Swept d p i F G → p < i → i + k ≤ d →
        Swept d p (i + k) F (clearDiagonal d G i k) := by
  induction k with
  | zero => exact fun h _ _ => h
  | succ k ih =>
    intro i G h hp hi
    have hnext := h.eliminate hp (by omega) hd (hne i hp (by omega))
    rw [Cholesky.clearDiagonal, show i + (k + 1) = (i + 1) + k by omega]
    exact ih hnext (by omega) (by omega)

/-- What is left of a factor after a sweep, without column `p` and the last row. -/
theorem Factors.swept (hf : f.Factors M) (hp : p < f.dim) :
    Swept f.dim p f.dim f.entries (Cholesky.clearDiagonal f.dim f.entries (p + 1)
      (f.dim - (p + 1))) := by
  have hstart : Swept f.dim p (p + 1) f.entries f.entries :=
    ⟨fun r c hcr hr _ => hf.upper r c hcr hr, fun c hpc hc => absurd hc (by omega),
      fun c hpc hc => absurd hc (by omega), fun _ _ => rfl, fun _ _ _ => rfl,
      fun _ _ _ _ _ _ => rfl⟩
  have hswept := hstart.clearDiagonal (k := f.dim - (p + 1)) f.dim_le
    (fun c _ hc => hf.diag_ne c hc) (Nat.lt_succ_self p) (by omega)
  rwa [show p + 1 + (f.dim - (p + 1)) = f.dim by omega] at hswept

-- ---------------------------------------------------------------------------
-- The deletion
-- ---------------------------------------------------------------------------

theorem removeColumn?_entries (h : f.removeColumn? p = some f') :
    p < f.dim ∧ f'.dim = f.dim - 1 ∧ ∀ i j, i < f.dim - 1 → j < f.dim - 1 →
      f'.entries i j = Cholesky.clearDiagonal f.dim f.entries (p + 1) (f.dim - (p + 1)) i
        (skip p j) := by
  unfold removeColumn? at h
  split at h
  · next hp =>
    cases h
    have hdim := f.dim_le
    refine ⟨hp, rfl, fun i j hi hj => ?_⟩
    dsimp only
    rw [Grid.ofFn_apply (by omega) (by omega), if_pos (by omega), if_neg (by omega)]
    unfold skip
    split <;> rfl
  · cases h

/-- The matrix loses a row and a column, and the factor follows by rotations. -/
theorem Factors.removeColumn (hf : f.Factors M) (h : f.removeColumn? p = some f') :
    f'.dim = f.dim - 1 ∧ f'.Factors fun i j => M (skip p i) (skip p j) := by
  obtain ⟨hp, hdim, hentries⟩ := removeColumn?_entries h
  have hswept := hf.swept hp
  generalize Cholesky.clearDiagonal f.dim f.entries (p + 1) (f.dim - (p + 1)) = G
    at hentries hswept
  refine ⟨hdim, ?_, ?_, ?_⟩
  · intro i j hji hi
    rw [hdim] at hi
    rw [hentries i j hi (by omega)]
    unfold skip
    split
    · next hpj =>
      rcases Nat.lt_or_ge (j + 1) i with hlt | hge
      · exact hswept.upper i (j + 1) hlt (by omega) (by omega)
      · obtain rfl : i = j + 1 := by omega
        exact hswept.cleared (j + 1) (by omega) (by omega)
    · exact hswept.upper i j hji (by omega) (by omega)
  · intro i hi
    rw [hdim] at hi
    rw [hentries i i hi hi]
    unfold skip
    split
    · exact (hswept.shifted (i + 1) (by omega) (by omega)).1
    · rw [hswept.before i (by omega)]
      exact hf.diag_ne i (by omega)
  · intro i j hi hj
    rw [hdim] at hi hj ⊢
    -- the last row is zero in all columns that are left
    have hlast : ∀ c, c < f.dim → c ≠ p → G (f.dim - 1) c = 0 := by
      intro c hc hcp
      rcases Nat.lt_or_ge c (f.dim - 1) with hlt | hge
      · exact hswept.upper (f.dim - 1) c hlt (by omega) hcp
      · obtain rfl : c = f.dim - 1 := by omega
        exact hswept.cleared (f.dim - 1) (by omega) (by omega)
    have hproduct := hswept.product (skip p i) (skip p j) (skip_lt hi) (skip_lt hj) (skip_ne p i)
      (skip_ne p j)
    rw [hf.product _ _ (skip_lt hi) (skip_lt hj),
      congrArg range (show f.dim = (f.dim - 1) + 1 by omega), sum_range_succ,
      hlast _ (skip_lt hi) (skip_ne p i), zero_mul, add_zero] at hproduct
    rw [← hproduct]
    refine Finset.sum_congr rfl fun k hk => ?_
    have hk := mem_range.1 hk
    rw [hentries k i hk hi, hentries k j hk hj]

-- ---------------------------------------------------------------------------
-- Positive diagonals
-- ---------------------------------------------------------------------------

/-- The diagonal of the factor is positive. -/
def Positive (f : Cholesky ℝ n) : Prop := ∀ i, i < f.dim → 0 < f.entries i i

theorem positive_identity {d : ℕ} (h : f.identity? d = some f') : f'.Positive := by
  obtain ⟨rfl, hentry⟩ := identity?_spec h
  intro i hi
  rw [hentry i i hi hi, if_pos rfl]
  exact one_pos

theorem positive_factorize {d : ℕ} {mat : ℕ → ℕ → ℝ} {tolerance : ℝ} (htol : 0 ≤ tolerance)
    (h : f.factorize? d mat tolerance = some (.ok f')) : f'.Positive := by
  obtain ⟨hd, G, hfill, rfl⟩ := factorize?_eq_ok h
  exact (fillColumns_filled htol (fun i j _ => f.cleared_apply i j) hd hfill).diag_pos

theorem Positive.append {k : ℕ} {col r : Tuple ℝ k} {diag pivotTolerance tolerance : ℝ}
    (hf : f.Positive) (hpivot : 0 ≤ pivotTolerance)
    (h : f.append? col diag pivotTolerance tolerance = some (.ok (r, f'))) : f'.Positive := by
  obtain ⟨hn, -, hsquare, rfl⟩ := append?_eq_ok h
  intro i hi
  rcases Nat.lt_succ_iff_lt_or_eq.1 hi with hlt | rfl
  · dsimp only
    rw [bordered_inner hlt hlt]
    exact hf i hlt
  · dsimp only
    rw [bordered_corner hn]
    exact Real.sqrt_pos.2 (lt_of_le_of_lt hpivot (not_le.1 hsquare))

theorem Positive.removeColumn (hpos : f.Positive) (hf : f.Factors M)
    (h : f.removeColumn? p = some f') : f'.Positive := by
  obtain ⟨hp, hdim, hentries⟩ := removeColumn?_entries h
  have hswept := hf.swept hp
  intro i hi
  rw [hdim] at hi
  rw [hentries i i hi hi]
  unfold skip
  split
  · exact (hswept.shifted (i + 1) (by omega) (by omega)).2 (hpos (i + 1) (by omega))
  · rw [hswept.before i (by omega)]
    exact hpos i (by omega)

/-- A matrix has one factor with a positive diagonal. -/
theorem Factors.entries_eq_of_positive (hf : f.Factors M) (hpos : f.Positive) (hf' : f'.Factors M)
    (hpos' : f'.Positive) (hdim : f'.dim = f.dim) {i j : ℕ} (hi : i < f.dim) (hj : j < f.dim) :
    f'.entries i j = f.entries i j := by
  obtain ⟨sign, rfl | rfl, hentries⟩ := hf.entries_eq hf' hdim i hi
  · rw [hentries j hj, one_mul]
  · have hown := hentries i hi
    have h := hpos i hi
    have h' := hpos' i (by omega)
    linarith

/-- A factor with a positive diagonal is the only array that is upper triangular, has a positive
diagonal, and multiplies to the matrix. -/
theorem Factors.eq_entries_of_positive (hf : f.Factors M) (hpos : f.Positive) {E : ℕ → ℕ → ℝ}
    (hupper : ∀ i j, j < i → i < f.dim → E i j = 0) (hE : ∀ i, i < f.dim → 0 < E i i)
    (hproduct : ∀ i j, i < f.dim → j < f.dim → ∑ k ∈ range f.dim, E k i * E k j = M i j)
    {i j : ℕ} (hi : i < f.dim) (hj : j < f.dim) : E i j = f.entries i j := by
  have hdim := f.dim_le
  have hentry : ∀ a b, a < f.dim → b < f.dim → Grid.ofFn n n E a b = E a b :=
    fun a b ha hb => Grid.ofFn_apply (by omega) (by omega)
  -- the array is a factor of the same dimension
  have hpos' : Positive ⟨Grid.ofFn n n E, f.dim, hdim⟩ :=
    fun a ha => (hE a ha).trans_eq (hentry a a ha ha).symm
  have hf' : Factors ⟨Grid.ofFn n n E, f.dim, hdim⟩ M := by
    refine ⟨fun a b hba ha => ?_, fun a ha => (hpos' a ha).ne', fun a b ha hb => ?_⟩
    · exact (hentry a b ha (Nat.lt_trans hba ha)).trans (hupper a b hba ha)
    · rw [← hproduct a b ha hb]
      refine Finset.sum_congr rfl fun k hk => ?_
      have hk := mem_range.1 hk
      exact congrArg₂ (· * ·) (hentry k a hk ha) (hentry k b hk hb)
  rw [← hf.entries_eq_of_positive hpos hf' hpos' rfl hi hj]
  exact (hentry i j hi hj).symm

end ActiveSet.Cholesky
