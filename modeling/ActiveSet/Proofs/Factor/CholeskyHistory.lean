import ActiveSet.Proofs.Factor.Cholesky
import ActiveSet.Proofs.Factor.Deletion
import ActiveSet.Proofs.Factor.Dimensions

/-!
# A factor and its matrix over any history

A factor is never compared with the matrix it belongs to, which is not even stored. A `Ledger` keeps
the two side by side: each operation changes the factor as the program does, and writes down what has
become of the matrix. Whatever operations there were, in whatever order, the factor is one of the matrix
on record, and an operation whose dimensions fit has a value (`cholesky_tracks`).

* `Operation`, `Operation.Admissible`: the operations, and what they require.
* `Ledger.step`: what an operation does to the factor and to the matrix.
* `History`: the ledgers that admissible operations lead to.
-/

namespace ActiveSet.Cholesky

open Finset Rotation

/-! ## Matrices on record -/

/-- The coefficients of a rotated basis: vector `j + 1` becomes `c z_{j+1} + s z_j`, and vector `j`
becomes `c z_j - s z_{j+1}`. Column `k` holds the new vector `k`. -/
def basisChange (j : ℕ) (g : Rotation ℝ) (p k : ℕ) : ℝ :=
  if k = j + 1 then (if p = j + 1 then g.c else if p = j then g.s else 0)
  else if k = j then (if p = j then g.c else if p = j + 1 then -g.s else 0)
  else if p = k then 1 else 0

/-- A matrix of dimension `d` with a last row and column, which are equal. -/
def border (d : ℕ) (M : ℕ → ℕ → ℝ) (col : ℕ → ℝ) (diag : ℝ) (a b : ℕ) : ℝ :=
  if a < d then if b < d then M a b else col a
  else if b < d then col b else diag

/-- A matrix without row and column `p`. -/
def strike (p : ℕ) (M : ℕ → ℕ → ℝ) (a b : ℕ) : ℝ := M (skip p a) (skip p b)

variable {n d j : ℕ} {M : ℕ → ℕ → ℝ} {g : Rotation ℝ}

/-- A row of a rotated basis is a turned row of the identity. -/
theorem basisChange_eq_turn (j : ℕ) (g : Rotation ℝ) (p : ℕ) :
    basisChange j g p = g.turn (j + 1) j fun k => if p = k then 1 else 0 := by
  funext k
  unfold basisChange turn fst snd
  dsimp only
  by_cases hlast : k = j + 1
  · subst hlast
    rw [if_pos rfl, if_neg (Nat.succ_ne_self j), if_pos rfl]
    by_cases hp : p = j + 1 <;> by_cases hp' : p = j <;> simp [hp, hp']
  by_cases hfirst : k = j
  · subst hfirst
    rw [if_neg hlast, if_pos rfl, if_pos rfl]
    by_cases hp : p = k <;> by_cases hp' : p = k + 1 <;> simp [hp, hp']
  rw [if_neg hlast, if_neg hfirst, if_neg hfirst, if_neg hlast]

/-- In the basis of unit vectors a matrix is what it is. -/
theorem quad_unit {a b : ℕ} (ha : a < d) (hb : b < d) :
    quad d M (fun p k => if p = k then 1 else 0) a b = M a b := by
  have hrow : ∀ p, ∑ r ∈ range d, M p r * (if r = b then 1 else 0) = M p b := by
    intro p
    rw [sum_eq_single b (fun r _ hne => by rw [if_neg hne, mul_zero])
      fun hnot => absurd (mem_range.2 hb) hnot, if_pos rfl, mul_one]
  unfold quad
  dsimp only
  rw [sum_eq_single a (fun p _ hne => by rw [if_neg hne, zero_mul])
    fun hnot => absurd (mem_range.2 ha) hnot, if_pos rfl, one_mul, hrow]

/-- A matrix in a rotated basis has its rows and its columns turned. -/
theorem quad_basisChange (hj : j + 1 < d) {a b : ℕ} (ha : a < d) (hb : b < d) :
    quad d M (basisChange j g) a b =
      g.turn (j + 1) j (fun a => g.turn (j + 1) j (M a) b) a := by
  rw [show basisChange j g = fun p => _ from funext (basisChange_eq_turn j g), quad_turn]
  exact turn_turn_congr hj (by omega) (fun _ _ => quad_unit) ha hb

/-! ## Operations -/

/-- The operations on a factor, with what they are told. -/
inductive Operation where
  /-- Factorizes a matrix of dimension `d`. -/
  | factorize (d : ℕ) (M : ℕ → ℕ → ℝ) (tolerance : ℝ)
  /-- The identity of dimension `d`. -/
  | identity (d : ℕ)
  /-- A last row and column. -/
  | append {k : ℕ} (col : Tuple ℝ k) (diag pivotTolerance tolerance : ℝ)
  /-- Strikes row and column `p`. -/
  | removeColumn (p : ℕ)
  /-- Rotates the basis vectors `j + 1` and `j`. -/
  | turnBasis (j : ℕ) (g : Rotation ℝ)
  /-- Strikes the last row and column. -/
  | dropLast
  /-- Gives the factor up. -/
  | reset

/-- What an operation requires of a factor of dimension `d` in a buffer of size `n`, and of its
arguments. -/
def Operation.Admissible (n d : ℕ) : Operation → Prop
  | .factorize e M tolerance =>
    e ≤ n ∧ 0 ≤ tolerance ∧ ∀ a b, a < e → b < e → M a b = M b a
  | .identity e => e ≤ n
  | @append k _ _ pivotTolerance tolerance =>
    k = d ∧ d < n ∧ 0 ≤ pivotTolerance ∧ 0 ≤ tolerance
  | .removeColumn p => p < d
  | .turnBasis j g => j + 1 < d ∧ g.c ^ 2 + g.s ^ 2 ≠ 0
  | .dropLast => 0 < d
  | .reset => True

/-- A factor, and the matrix it should belong to. -/
structure Ledger (n : ℕ) where
  /-- The factor. -/
  factor : Cholesky ℝ n
  /-- The dimension of the matrix. -/
  dim : ℕ
  /-- The matrix, of which the leading block counts. -/
  matrix : ℕ → ℕ → ℝ

/-- What an operation does to the factor, and what becomes of the matrix. After a factorization that
fails the matrix is empty, and where the factor cannot be extended neither of both changes. -/
noncomputable def Ledger.step (l : Ledger n) : Operation → Option (Ledger n)
  | .factorize d M tolerance => do
    match ← l.factor.factorize? d M tolerance with
    | .ok f => return ⟨f, d, M⟩
    | .error e => return ⟨e.left, 0, l.matrix⟩
  | .identity d => return ⟨← l.factor.identity? d, d, fun a b => if a = b then 1 else 0⟩
  | .append col diag pivotTolerance tolerance => do
    match ← l.factor.append? col diag pivotTolerance tolerance with
    | .ok (_, f) => return ⟨f, l.dim + 1, border l.dim l.matrix col diag⟩
    | .error _ => return l
  | .removeColumn p => return ⟨← l.factor.removeColumn? p, l.dim - 1, strike p l.matrix⟩
  | .turnBasis j g =>
    return ⟨← l.factor.turnBasis? j g, l.dim, quad l.dim l.matrix (basisChange j g)⟩
  | .dropLast => return ⟨← l.factor.dropLast?, l.dim - 1, l.matrix⟩
  | .reset => return ⟨l.factor.reset, 0, l.matrix⟩

/-- The ledgers to which admissible operations lead, from an empty factor on. -/
inductive History (n : ℕ) : Ledger n → Prop
  | start (M : ℕ → ℕ → ℝ) : History n ⟨.empty n, 0, M⟩
  | step {l l' : Ledger n} (op : Operation) (h : History n l) (hop : op.Admissible n l.dim)
    (hstep : l.step op = some l') : History n l'

/-! ## One operation -/

/-- The factor of a ledger is one of its matrix. -/
structure Ledger.Tracks (l : Ledger n) : Prop where
  dim_eq : l.factor.dim = l.dim
  factors : l.factor.Factors l.matrix

/-- A factor of dimension zero is one of any matrix. -/
theorem factors_of_dim_eq_zero {f : Cholesky ℝ n} (h : f.dim = 0) : f.Factors M :=
  ⟨fun i _ _ hi => absurd hi (by omega), fun i hi => absurd hi (by omega),
    fun i _ hi => absurd hi (by omega)⟩

section Border

variable {col : ℕ → ℝ} {diag : ℝ} {a b : ℕ}

theorem border_inner (ha : a < d) (hb : b < d) : border d M col diag a b = M a b := by
  rw [border, if_pos ha, if_pos hb]

theorem border_column (ha : a < d) : border d M col diag a d = col a := by
  rw [border, if_pos ha, if_neg (Nat.lt_irrefl d)]

theorem border_row (hb : b < d) : border d M col diag d b = border d M col diag b d := by
  rw [border_column hb, border, if_neg (Nat.lt_irrefl d), if_pos hb]

theorem border_corner : border d M col diag d d = diag := by
  rw [border, if_neg (Nat.lt_irrefl d), if_neg (Nat.lt_irrefl d)]

end Border

/-- An admissible operation has a value, and the factor follows the matrix. -/
theorem Ledger.Tracks.step {l : Ledger n} (h : l.Tracks) {op : Operation}
    (hop : op.Admissible n l.dim) : ∃ l', l.step op = some l' ∧ l'.Tracks := by
  obtain ⟨hdim, hf⟩ := h
  -- an operation that fails leaves a factor of dimension zero, or the factor as it was
  cases op with
  | factorize d M tolerance =>
    obtain ⟨hd, htol, hsymm⟩ := hop
    obtain ⟨f, hrun, -⟩ | ⟨e, hrun⟩ := factorize?_of (f := l.factor) M tolerance hd
    · obtain ⟨hfdim, hfactors⟩ := factors_factorize htol hsymm hrun
      simp only [Ledger.step, hrun]
      exact ⟨_, rfl, hfdim, hfactors⟩
    · obtain ⟨-, -, -, hzero⟩ := factorize?_eq_error hrun
      simp only [Ledger.step, hrun]
      exact ⟨_, rfl, hzero, factors_of_dim_eq_zero hzero⟩
  | identity d =>
    obtain ⟨f, hrun, -⟩ := identity?_of (f := l.factor) (show d ≤ n from hop)
    obtain ⟨hfdim, hfactors⟩ := factors_identity
      (M := fun a b => if a = b then 1 else 0) hrun fun _ _ _ _ => rfl
    simp only [Ledger.step, hrun]
    exact ⟨_, rfl, hfdim, hfactors⟩
  | @append k col diag pivotTolerance tolerance =>
    obtain ⟨hk, hn, hpivot, -⟩ := hop
    rw [← hdim] at hk hn
    obtain ⟨r, f, hrun, -⟩ | ⟨e, hrun⟩ := append?_of col diag pivotTolerance tolerance hn hk
    · obtain ⟨hfdim, hfactors⟩ := hf.append hpivot hrun (fun _ _ => border_inner)
        (fun _ => border_column) (fun _ => border_row) border_corner
      simp only [Ledger.step, hrun, ← hdim]
      exact ⟨_, rfl, hfdim, hfactors⟩
    · simp only [Ledger.step, hrun, ← hdim]
      exact ⟨_, rfl, hdim, hf⟩
  | removeColumn p =>
    obtain ⟨f, hrun, -⟩ := removeColumn?_of (show p < l.factor.dim from hdim ▸ hop)
    obtain ⟨hfdim, hfactors⟩ := hf.removeColumn hrun
    simp only [Ledger.step, hrun, ← hdim]
    exact ⟨_, rfl, hfdim, hfactors⟩
  | turnBasis j g =>
    obtain ⟨hj, hg⟩ := hop
    rw [← hdim] at hj
    obtain ⟨f, hrun, -⟩ := turnBasis?_of g hj
    obtain ⟨hfdim, hfactors⟩ := hf.turnBasis_of_ne (by rwa [← sq, ← sq]) hrun
    simp only [Ledger.step, hrun, ← hdim]
    refine ⟨_, rfl, hfdim, hfactors.congr fun a b ha hb => ?_⟩
    rw [hfdim] at ha hb
    exact quad_basisChange hj ha hb
  | dropLast =>
    obtain ⟨f, hrun, -⟩ := dropLast?_of (show 0 < l.factor.dim from hdim ▸ hop)
    obtain ⟨hfdim, hfactors⟩ := hf.dropLast hrun
    simp only [Ledger.step, hrun, ← hdim]
    exact ⟨_, rfl, hfdim, hfactors⟩
  | reset => exact ⟨_, rfl, rfl, factors_of_dim_eq_zero rfl⟩

theorem History.tracks {l : Ledger n} (h : History n l) : l.Tracks := by
  induction h with
  | start M => exact ⟨rfl, factors_of_dim_eq_zero rfl⟩
  | step op _ hop hstep ih =>
    obtain ⟨l', hrun, htracks⟩ := ih.step hop
    rw [hstep] at hrun
    cases hrun
    exact htracks

end ActiveSet.Cholesky

namespace ActiveSet

open Cholesky Finset

/-- After any sequence of admissible operations the factor is one of the matrix on record, and every
further operation whose dimensions fit has a value. Where the factor cannot be extended nothing
changes. -/
theorem cholesky_tracks (n : ℕ) (l : Cholesky.Ledger n) (h : History n l) :
    (l.factor.dim = l.dim ∧ l.factor.Factors l.matrix) ∧
      (∀ op : Operation, op.Admissible n l.dim → ∃ l', l.step op = some l' ∧ History n l') ∧
      ∀ {k : ℕ} (col : Tuple ℝ k) (diag pivotTolerance tolerance : ℝ) (e : Failure (Tuple ℝ k)),
        l.factor.append? col diag pivotTolerance tolerance = some (.error e) →
          l.step (.append col diag pivotTolerance tolerance) = some l := by
  have htracks := h.tracks
  refine ⟨⟨htracks.dim_eq, htracks.factors⟩, fun op hop => ?_, fun col diag _ _ e hfails => ?_⟩
  · obtain ⟨l', hstep, -⟩ := htracks.step hop
    exact ⟨l', hstep, .step op h hop hstep⟩
  · simp only [Ledger.step, hfails]
    rfl

/-- The identity in a basis that is rotated and stretched five times, without its first row and column:
what is left of the factor is a root of 25. -/
theorem cholesky_tracks_stretched : ∃ l : Cholesky.Ledger 2, History 2 l ∧ l.dim = 1 ∧
    l.factor.dim = 1 ∧ l.factor.entries 0 0 * l.factor.entries 0 0 = 25 := by
  have hstruck : ∃ l : Cholesky.Ledger 2, History 2 l ∧ l.dim = 1 ∧ l.matrix =
      strike 0 (quad 2 (fun a b => if a = b then 1 else 0) (basisChange 0 ⟨3, 4⟩)) := by
    have hidentity := (History.start (n := 2) fun _ _ => 0).step (.identity 2)
      (show 2 ≤ 2 from le_rfl) rfl
    have hturned := hidentity.step (.turnBasis 0 ⟨3, 4⟩)
      ⟨show 1 < 2 from one_lt_two, by norm_num⟩ rfl
    exact ⟨_, hturned.step (.removeColumn 0) (show 0 < 2 from two_pos) rfl, rfl, rfl⟩
  obtain ⟨l, hl, hdim, hmatrix⟩ := hstruck
  obtain ⟨⟨hfactor, hfactors⟩, -⟩ := cholesky_tracks 2 l hl
  rw [hdim] at hfactor
  have hproduct := hfactors.product 0 0 (by omega) (by omega)
  rw [hfactor, sum_range_one, hmatrix] at hproduct
  refine ⟨l, hl, hdim, hfactor, hproduct.trans ?_⟩
  norm_num [strike, skip, quad, basisChange, sum_range_succ]

end ActiveSet
