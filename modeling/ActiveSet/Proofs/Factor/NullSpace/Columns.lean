import ActiveSet.Proofs.Factor.NullSpace.Splitting

/-!
# Variables enter and leave a factorization

A free variable is a column of the matrix of the constraints and a row of `Q`. The last one can be
fixed once its row has been collected in one entry: by orthonormality the column of that entry is a
unit vector then, and both are struck. A variable that becomes free brings a unit vector, whose part
in the constraints is rotated into `T`.

Both work on `T` with one more column on its left. `Collected` and `Absorbed` are its shapes in the
course of the rotations.

* `Factors.swapRows`: two variables change places.
* `Factors.removeLastRow`, `Factors.appendFreeRow`: the last variable becomes fixed, or free.
-/

namespace ActiveSet

open Finset Rotation

-- ---------------------------------------------------------------------------
-- Two variables change places
-- ---------------------------------------------------------------------------

section Swap

variable {d a b : ℕ}

/-- The place of a variable before two of them changed places. -/
def swapped (a b p : ℕ) : ℕ := if p = a then b else if p = b then a else p

theorem swapped_lt (ha : a < d) (hb : b < d) {p : ℕ} (hp : p < d) : swapped a b p < d := by
  unfold swapped
  split
  · exact hb
  · split
    · exact ha
    · exact hp

theorem swapped_self (p : ℕ) : swapped a a p = p := by
  unfold swapped
  split
  · next h => exact h.symm
  · rfl

theorem sum_swapped (ha : a < d) (hb : b < d) (F : ℕ → ℝ) :
    ∑ p ∈ range d, F (swapped a b p) = ∑ p ∈ range d, F p := by
  have happly : ∀ p, Equiv.swap a b p = swapped a b p := fun p => Equiv.swap_apply_def a b p
  refine sum_equiv (Equiv.swap a b) (fun p => ?_) fun p _ => by rw [happly]
  rw [mem_range, mem_range, happly]
  refine ⟨swapped_lt ha hb, fun hp => ?_⟩
  have hback := swapped_lt ha hb hp
  rwa [← happly, ← happly, Equiv.swap_apply_self] at hback

theorem coord_swapped (ha : a < d) (hb : b < d) (x : ℕ → ℝ) (q : ℕ → ℕ → ℝ) (j : ℕ) :
    coord d (fun p => x (swapped a b p)) (fun p => q (swapped a b p)) j = coord d x q j :=
  sum_swapped ha hb fun p => x p * q p j

theorem quad_swapped (ha : a < d) (hb : b < d) (h q : ℕ → ℕ → ℝ) (i j : ℕ) :
    quad d (fun p r => h (swapped a b p) (swapped a b r)) (fun p => q (swapped a b p)) i j =
      quad d h q i j := by
  unfold quad
  rw [← sum_swapped ha hb fun p => q p i * ∑ r ∈ range d, h p r * q r j]
  refine Finset.sum_congr rfl fun p _ => ?_
  rw [← sum_swapped ha hb fun r => h (swapped a b p) r * q r j]

theorem Orthonormal.swapped {q : ℕ → ℕ → ℝ} (hq : Orthonormal d q) (ha : a < d) (hb : b < d) :
    Orthonormal d fun p => q (ActiveSet.swapped a b p) := by
  intro i j hi hj
  rw [← hq i j hi hj]
  exact sum_swapped ha hb fun p => q p i * q p j

end Swap

-- ---------------------------------------------------------------------------
-- One more column on the left
-- ---------------------------------------------------------------------------

section Prepended

variable {k w : ℕ} {G : Grid ℝ k w} {a : ℕ → ℝ} {c j : ℕ}

theorem Grid.prependColumn_zero (hc : c < k) : G.prependColumn a c 0 = a c := by
  rw [prependColumn_apply _ _ hc (Nat.succ_pos w), if_pos rfl]

theorem Grid.prependColumn_succ (hc : c < k) (hj : j < w) :
    G.prependColumn a c (j + 1) = G c j := by
  rw [prependColumn_apply _ _ hc (Nat.succ_lt_succ hj), if_neg (Nat.succ_ne_zero j),
    Nat.succ_sub_one]

end Prepended

namespace NullSpace

variable {n m : ℕ} {f f' : NullSpace ℝ n m} {A B : ℕ → ℕ → ℝ} {regular : Prop}

theorem FactorsIf.swapRows {a b : ℕ} (hf : f.FactorsIf regular A) (h : f.swapRows? a b = some f')
    (ha : a < f.nFree) (hb : b < f.nFree)
    (hA : ∀ c p, c < f.nActive → p < f.nFree → B c p = A c (swapped a b p)) :
    f'.nFree = f.nFree ∧ f'.nActive = f.nActive ∧
      (∀ p j, p < f.nFree → j < f.nFree → f'.q p j = f.q (swapped a b p) j) ∧
        f'.FactorsIf regular B := by
  have hfree := f.nFree_le
  have hsum := f.nNull_add
  unfold swapRows? at h
  split at h
  · next hab =>
    -- a row that is exchanged with itself
    have hab : a = b := hab.resolve_right (by omega)
    subst hab
    cases h
    refine ⟨rfl, rfl, fun p j _ _ => by rw [swapped_self], hf.congr fun c p hc hp => ?_⟩
    rw [hA c p hc hp, swapped_self]
  · split at h
    · cases h
      have hentry : ∀ p j, p < f.nFree → j < f.nFree →
          (Grid.ofFn n n fun i j => if j < f.nFree then
            f.q (if i = a then b else if i = b then a else i) j else f.q i j) p j =
              f.q (swapped a b p) j := by
        intro p j hp hj
        rw [Grid.ofFn_apply (by omega) (by omega), if_pos hj, swapped]
      generalize (Grid.ofFn n n fun i j => if j < f.nFree then
        f.q (if i = a then b else if i = b then a else i) j else f.q i j) = Q at hentry ⊢
      -- rows of `A` and of `Q` are exchanged alike, so their products stay the same
      have hcoord : ∀ c j, c < f.nActive → j < f.nFree →
          coord f.nFree (B c) Q j = coord f.nFree (A c) f.q j := by
        intro c j hc hj
        rw [← coord_swapped ha hb (A c)]
        exact coord_congr (fun p hp => hA c p hc hp) fun p hp => hentry p j hp hj
      refine ⟨rfl, rfl, hentry, ⟨⟨hsum, ?_, ?_, ?_⟩, hf.reverse, hf.antidiag_ne⟩⟩
      · exact (hf.orthonormal.swapped ha hb).congr fun i j hi hj => hentry i j hi hj
      · intro c j hc hj
        have hj : j < f.nNull := hj
        show coord f.nFree (B c) Q j = 0
        rw [hcoord c j hc (by omega)]
        exact hf.null c j hc hj
      · intro c j hc hj
        have hj : j < f.nActive := hj
        show coord f.nFree (B c) Q (f.nNull + j) = f.t c j
        rw [hcoord c _ hc (by omega)]
        exact hf.range c j hc hj
    · cases h

theorem Factors.swapRows {a b : ℕ} (hf : f.Factors A) (h : f.swapRows? a b = some f')
    (ha : a < f.nFree) (hb : b < f.nFree)
    (hA : ∀ c p, c < f.nActive → p < f.nFree → B c p = A c (swapped a b p)) :
    f'.nFree = f.nFree ∧ f'.nActive = f.nActive ∧
      (∀ p j, p < f.nFree → j < f.nFree → f'.q p j = f.q (swapped a b p) j) ∧ f'.Factors B := by
  obtain ⟨hnFree, hnActive, hswapped, hfactors⟩ := hf.toIf.swapRows h ha hb hA
  exact ⟨hnFree, hnActive, hswapped, hfactors.factors⟩

-- ---------------------------------------------------------------------------
-- The last variable becomes fixed
-- ---------------------------------------------------------------------------

/-- The shape of `T` with a column on its left while the last row of `Q` is collected, before column
`i`. The antidiagonal entries of the last rows have moved one place to the left. -/
structure Collected (regular : Prop) (k i : ℕ) (t : ℕ → ℕ → ℝ) : Prop where
  kept_zero : ∀ r c, r + i < k → r + c < k → t r c = 0
  kept_ne : regular → ∀ r, r + i < k → t r (k - r) ≠ 0
  moved_zero : ∀ r c, r < k → k ≤ r + i → r + c + 1 < k → t r c = 0
  moved_ne : regular → ∀ r, r < k → k ≤ r + i → t r (k - 1 - r) ≠ 0

theorem Collected.congr {k i : ℕ} {t t' : ℕ → ℕ → ℝ} (ht : Collected regular k i t)
    (h : ∀ r, r < k → t' r = t r) : Collected regular k i t' := by
  refine ⟨fun r c hr hc => ?_, fun hregular r hr => ?_, fun r c hrk hr hc => ?_,
    fun hregular r hrk hr => ?_⟩
  · rw [h r (by omega)]
    exact ht.kept_zero r c hr hc
  · rw [h r (by omega)]
    exact ht.kept_ne hregular r hr
  · rw [h r hrk]
    exact ht.moved_zero r c hrk hr hc
  · rw [h r hrk]
    exact ht.moved_ne hregular r hrk hr

theorem Collected.step {k i : ℕ} {t : ℕ → ℕ → ℝ} {g : Rotation ℝ} (ht : Collected regular k i t)
    (hg : regular → g.s ≠ 0) : Collected regular k (i + 1) fun r => g.turn (i + 1) i (t r) := by
  refine ⟨fun r c hr hc => ?_, fun hregular r hr => ?_, fun r c hrk hr hc => ?_,
    fun hregular r hrk hr => ?_⟩
  · rw [turn_of_zero (ht.kept_zero r _ (by omega) (by omega))
      (ht.kept_zero r _ (by omega) (by omega))]
    exact ht.kept_zero r c (by omega) hc
  · rw [turn_of_zero (ht.kept_zero r _ (by omega) (by omega))
      (ht.kept_zero r _ (by omega) (by omega))]
    exact ht.kept_ne hregular r (by omega)
  · rw [turn_of_ne _ (by omega) (by omega)]
    by_cases hlt : r + i < k
    · exact ht.kept_zero r c hlt (by omega)
    · exact ht.moved_zero r c hrk (by omega) hc
  · by_cases hlt : r + i < k
    · -- this is the row whose antidiagonal entry moves
      have hzero := ht.kept_zero r i hlt hlt
      have hne := ht.kept_ne hregular r hlt
      rw [show k - r = i + 1 by omega] at hne
      rw [show k - 1 - r = i by omega, turn_snd, snd, hzero, mul_zero, zero_sub]
      exact neg_ne_zero.2 (mul_ne_zero (hg hregular) hne)
    · rw [turn_of_ne _ (by omega) (by omega)]
      exact ht.moved_ne hregular r hrk (by omega)

/-- The rotations that collect the last row of `Q` in its last entry. -/
theorem collectLastRow_spec {d z k : ℕ} (hk : k ≤ min n m) (hd : d ≤ n) :
    ∀ {count i : ℕ} {q : Grid ℝ n n} {t : Grid ℝ (min n m) (min n m + 1)}, i + count = k →
      Splits d z k (k + 1) A q t → Collected regular k i t →
      (∀ j, j < z + i → q (d - 1) j = 0) → (regular → q (d - 1) (z + i) ≠ 0) →
        Splits d z k (k + 1) A (collectLastRow d k q t i count).1
            (collectLastRow d k q t i count).2 ∧
          Collected regular k k (collectLastRow d k q t i count).2 ∧
          (∀ j, j < z + k → (collectLastRow d k q t i count).1 (d - 1) j = 0) ∧
          ∀ r j, r < d → j < z → (collectLastRow d k q t i count).1 r j = q r j := by
  intro count
  induction count with
  | zero =>
    intro i q t hi hs ht hzero _
    rw [Nat.add_zero] at hi
    subst hi
    exact ⟨hs, ht, hzero, fun _ _ _ _ => rfl⟩
  | succ count ih =>
    intro i q t hi hs ht hzero hne
    have hcount := hs.count
    have hspec := toward_spec (q (d - 1) (z + i + 1)) (q (d - 1) (z + i))
    have hr := fun hregular => toward_ne_zero (a := q (d - 1) (z + i + 1)) (.inr (hne hregular))
    rw [collectLastRow]
    dsimp only
    rw [show d - k - 1 + i = z + i by omega]
    generalize (toward (q (d - 1) (z + i + 1)) (q (d - 1) (z + i))).2 = r at hspec hr
    generalize (toward (q (d - 1) (z + i + 1)) (q (d - 1) (z + i))).1 = g at hspec ⊢
    obtain ⟨hproper, hfst, hsnd, -, hsine⟩ := hspec
    have hturned := hs.turn hproper (show i + 1 ≠ i by omega) (by omega) (by omega)
    have hstep := ht.step fun hregular => hsine (hne hregular)
    -- the grids hold what the rotations of sequences say
    have hrows : ∀ r, r < k → (t.turnColumns k (i + 1) i g) r = g.turn (i + 1) i (t r) :=
      fun r hr => Grid.turnColumns_row (by omega) (by omega) hr
    have hcolumns : ∀ r, r < d → (q.turnColumns d (z + i + 1) (z + i) g) r =
        g.turn (z + (i + 1)) (z + i) (q r) :=
      fun r hr => Grid.turnColumns_row (by omega) (by omega) hr
    have hnext := hturned.congr (B := A) (fun _ _ _ _ => rfl)
      (fun r j hr _ => congrFun (hcolumns r hr) j) fun c j hc _ => congrFun (hrows c hc) j
    have hshape : Collected regular k (i + 1) (t.turnColumns k (i + 1) i g) := hstep.congr hrows
    have hzero_next : ∀ j, j < z + (i + 1) →
        (q.turnColumns d (z + i + 1) (z + i) g) (d - 1) j = 0 := by
      intro j hj
      rw [hcolumns _ (by omega)]
      by_cases hji : j = z + i
      · rw [hji, turn_snd]
        exact hsnd
      · rw [turn_of_ne _ (by omega) hji]
        exact hzero j (by omega)
    have hne_next : regular →
        (q.turnColumns d (z + i + 1) (z + i) g) (d - 1) (z + (i + 1)) ≠ 0 := by
      intro hregular
      rw [hcolumns _ (by omega), turn_fst (by omega)]
      show g.fst (q (d - 1) (z + i + 1)) _ ≠ 0
      rw [hfst]
      exact hr hregular
    obtain ⟨hs', ht', hzero', hkept⟩ := ih (by omega) hnext hshape hzero_next hne_next
    refine ⟨hs', ht', hzero', fun r j hr hj => ?_⟩
    rw [hkept r j hr hj, hcolumns r hr, turn_of_ne _ (by omega) (by omega)]

/-- The factors as a splitting with one more vector outside the null space. -/
theorem FactorsIf.prepend (hf : f.FactorsIf regular A) (hpos : 0 < f.nNull) :
    Splits f.nFree (f.nNull - 1) f.nActive (f.nActive + 1) A f.q (f.t.prependColumn fun _ => 0) ∧
      Collected regular f.nActive 0 (f.t.prependColumn fun _ => 0) := by
  have hsum := f.nNull_add
  have hcapacity := f.nActive_le_capacity
  -- the new column of `t` is zero and shifts the others by one
  have hfirst : ∀ c, c < f.nActive → (f.t.prependColumn fun _ => 0) c 0 = 0 :=
    fun c hc => Grid.prependColumn_zero (by omega)
  have hlater : ∀ c j, c < f.nActive → j < f.nActive →
      (f.t.prependColumn fun _ => 0) c (j + 1) = f.t c j :=
    fun c j hc hj => Grid.prependColumn_succ (by omega) (by omega)
  have hsplits : Splits f.nFree (f.nNull - 1 + 1) f.nActive f.nActive A f.q f.t := by
    rw [Nat.sub_add_cancel hpos]
    exact hf.toSplits
  -- the antidiagonal moves one column to the right with the columns it is made of
  refine ⟨hsplits.release hfirst hlater, ?_⟩
  refine ⟨fun r c hr hc => ?_, fun hregular r hr => ?_, fun r c hrk hr => absurd hr (by omega),
    fun _ r hrk hr => absurd hr (by omega)⟩
  · cases c with
    | zero => exact hfirst r (by omega)
    | succ c =>
      rw [hlater r c (by omega) (by omega)]
      exact hf.reverse r c (by omega) (by omega)
  · rw [show f.nActive - r = f.nActive - 1 - r + 1 by omega, hlater r _ (by omega) (by omega)]
    exact hf.antidiag_ne hregular r (by omega)

/-- The last variable becomes fixed, after its row has been concentrated. -/
theorem FactorsIf.removeLastRow (hf : f.FactorsIf regular A) (h : f.removeLastRow? = some f')
    (hzero : ∀ j, j + 1 < f.nNull → f.q (f.nFree - 1) j = 0)
    (hne : regular → f.q (f.nFree - 1) (f.nNull - 1) ≠ 0)
    (hA : ∀ c p, c < f.nActive → p < f.nFree - 1 → B c p = A c p) :
    f'.nFree + 1 = f.nFree ∧ f'.nActive = f.nActive ∧
      (∀ p j, p < f.nFree - 1 → j < f.nNull - 1 → f'.q p j = f.q p j) ∧
        f'.FactorsIf regular B := by
  unfold removeLastRow? at h
  split at h
  · next hlt =>
    have hsum := f.nNull_add
    have hfree := f.nFree_le
    have hcapacity := f.nActive_le_capacity
    obtain ⟨hstart, hshape⟩ := hf.prepend (by omega)
    obtain ⟨hs, ht, hrow, hkept⟩ := collectLastRow_spec hcapacity hfree (Nat.zero_add f.nActive)
      hstart hshape (fun j hj => hzero j (by omega)) hne
    dsimp only at h
    generalize collectLastRow f.nFree f.nActive f.q (f.t.prependColumn fun _ => 0) 0 f.nActive = r
      at h hs ht hrow hkept
    obtain ⟨q, t⟩ := r
    dsimp only at h hs ht hrow hkept
    cases h
    have hq : ∀ p j, p < f.nFree - 1 → j < f.nFree - 1 →
        (Grid.ofFn n n fun i j => if (i = f.nFree - 1 ∧ j ≤ f.nFree - 1) ∨
          (j = f.nFree - 1 ∧ i ≤ f.nFree - 1) then 0 else q i j) p j = q p j := by
      intro p j hp hj
      rw [Grid.ofFn_apply (by omega) (by omega), if_neg (by omega)]
    have hT : ∀ c j, c < f.nActive → j < f.nActive →
        (Grid.ofFn (min n m) (min n m) fun i j => t i j) c j = t c j :=
      fun c j hc hj => Grid.ofFn_apply (by omega) (by omega)
    generalize (Grid.ofFn n n fun i j => if (i = f.nFree - 1 ∧ j ≤ f.nFree - 1) ∨
      (j = f.nFree - 1 ∧ i ≤ f.nFree - 1) then 0 else q i j) = Q at hq ⊢
    generalize (Grid.ofFn (min n m) (min n m) fun i j => t i j) = T at hT ⊢
    -- with its row collected, the last vector is the unit vector of the variable
    have hstruck : Splits (f.nFree - 1) (f.nNull - 1) f.nActive f.nActive A q t := by
      rw [show f.nFree = f.nFree - 1 + 1 by omega] at hs
      exact hs.strike fun j hj => hrow j (by omega)
    refine ⟨Nat.sub_add_cancel (by omega), rfl, fun p j hp hj => ?_,
      .of_splits (hstruck.congr hA hq hT) (fun c j hc hj => ?_) fun hregular c hc => ?_⟩
    · show Q p j = f.q p j
      rw [hq p j hp (by omega), hkept p j (by omega) hj]
    · have hc : c < f.nActive := hc
      have hj : c + j + 1 < f.nActive := hj
      show T c j = 0
      rw [hT c j hc (by omega)]
      exact ht.moved_zero c j hc (by omega) hj
    · have hc : c < f.nActive := hc
      show T c (f.nActive - 1 - c) ≠ 0
      rw [hT c _ hc (by omega)]
      exact ht.moved_ne hregular c hc (by omega)
  · cases h

theorem Factors.removeLastRow (hf : f.Factors A) (h : f.removeLastRow? = some f')
    (hzero : ∀ j, j + 1 < f.nNull → f.q (f.nFree - 1) j = 0)
    (hne : f.q (f.nFree - 1) (f.nNull - 1) ≠ 0)
    (hA : ∀ c p, c < f.nActive → p < f.nFree - 1 → B c p = A c p) :
    f'.nFree + 1 = f.nFree ∧ f'.nActive = f.nActive ∧
      (∀ p j, p < f.nFree - 1 → j < f.nNull - 1 → f'.q p j = f.q p j) ∧ f'.Factors B := by
  obtain ⟨hnFree, hnActive, hkept, hfactors⟩ :=
    hf.toIf.removeLastRow h hzero (fun _ => hne) hA
  exact ⟨hnFree, hnActive, hkept, hfactors.factors⟩

-- ---------------------------------------------------------------------------
-- A variable becomes free
-- ---------------------------------------------------------------------------

/-- The shape of `T` with the coordinates of a new vector on its left, after the first `i` of them
have been rotated away. -/
structure Absorbed (regular : Prop) (k i : ℕ) (t : ℕ → ℕ → ℝ) : Prop where
  zero : ∀ r c, 0 < c → r + c < k → t r c = 0
  ne : regular → ∀ r, r < k → t r (k - r) ≠ 0
  done : ∀ r, r < i → t r 0 = 0

theorem Absorbed.congr {k i : ℕ} {t t' : ℕ → ℕ → ℝ} (ht : Absorbed regular k i t) (hi : i ≤ k)
    (h : ∀ r, r < k → t' r = t r) : Absorbed regular k i t' := by
  refine ⟨fun r c hc hrc => ?_, fun hregular r hr => ?_, fun r hr => ?_⟩
  · rw [h r (by omega)]
    exact ht.zero r c hc hrc
  · rw [h r hr]
    exact ht.ne hregular r hr
  · rw [h r (by omega)]
    exact ht.done r hr

theorem Absorbed.step {k i : ℕ} {t : ℕ → ℕ → ℝ} (ht : Absorbed regular k i t) (hi : i < k) :
    Absorbed regular k (i + 1) fun r =>
      (toward (t i (k - i)) (t i 0)).1.turn (k - i) 0 (t r) := by
  have hspec := toward_spec (t i (k - i)) (t i 0)
  have hr := fun hregular => toward_ne_zero (b := t i 0) (.inl (ht.ne hregular i hi))
  generalize (toward (t i (k - i)) (t i 0)).2 = r' at hspec hr
  generalize (toward (t i (k - i)) (t i 0)).1 = g at hspec ⊢
  obtain ⟨-, hfst, hsnd, -, -⟩ := hspec
  -- rows above `i` are zero in both columns
  have habove : ∀ r, r < i → g.turn (k - i) 0 (t r) = t r := by
    intro r hlt
    funext j
    exact turn_of_zero (ht.zero r _ (by omega) (by omega)) (ht.done r hlt) j
  refine ⟨fun r c hc hrc => ?_, fun hregular r hrk => ?_, fun r hri => ?_⟩
  · rcases Nat.lt_or_ge r i with hlt | hge
    · rw [habove r hlt]
      exact ht.zero r c hc hrc
    · rw [turn_of_ne _ (by omega) (by omega)]
      exact ht.zero r c hc hrc
  · rcases Nat.lt_trichotomy r i with hlt | rfl | hgt
    · rw [habove r hlt]
      exact ht.ne hregular r hrk
    · rw [turn_fst (by omega), hfst]
      exact hr hregular
    · rw [turn_of_ne _ (by omega) (by omega)]
      exact ht.ne hregular r hrk
  · rcases Nat.lt_succ_iff_lt_or_eq.1 hri with hlt | rfl
    · rw [habove r hlt]
      exact ht.done r hlt
    · rw [turn_snd]
      exact hsnd

/-- The rotations that move a new vector into the null space. -/
theorem absorbColumn_spec {d z k : ℕ} (hk : k ≤ min n m) (hd : d ≤ n) :
    ∀ {count i : ℕ} {q : Grid ℝ n n} {t : Grid ℝ (min n m) (min n m + 1)}, i + count = k →
      Splits d z k (k + 1) A q t → Absorbed regular k i t →
        Splits d z k (k + 1) A (absorbColumn d k z q t i count).1
            (absorbColumn d k z q t i count).2 ∧
          Absorbed regular k k (absorbColumn d k z q t i count).2 ∧
          ∀ r j, r < d → j < z → (absorbColumn d k z q t i count).1 r j = q r j := by
  intro count
  induction count with
  | zero =>
    intro i q t hi hs ht
    rw [Nat.add_zero] at hi
    subst hi
    exact ⟨hs, ht, fun _ _ _ _ => rfl⟩
  | succ count ih =>
    intro i q t hi hs ht
    have hcount := hs.count
    have hspec := toward_spec (t i (k - i)) (t i 0)
    have hstep := ht.step (show i < k by omega)
    rw [absorbColumn]
    dsimp only
    generalize (toward (t i (k - i)) (t i 0)).1 = g at hspec hstep ⊢
    have hturned := hs.turn hspec.1 (show k - i ≠ 0 by omega) (by omega) (by omega)
    -- the grids hold what the rotations of sequences say
    have hrows : ∀ r, r < k →
        ((t.turnColumns k (k - i) 0 g).set i 0 0) r = g.turn (k - i) 0 (t r) :=
      fun r hr => Grid.turnColumns_set_row (by omega) (by omega) (by omega) (by omega)
        hspec.2.2.1 hr
    have hcolumns : ∀ r, r < d → (q.turnColumns d (z + (k - i)) z g) r =
        g.turn (z + (k - i)) (z + 0) (q r) :=
      fun r hr => Grid.turnColumns_row (by omega) (by omega) hr
    have hnext := hturned.congr (B := A) (fun _ _ _ _ => rfl)
      (fun r j hr _ => congrFun (hcolumns r hr) j) fun c j hc _ => congrFun (hrows c hc) j
    have hshape := hstep.congr (by omega) hrows
    obtain ⟨hs', ht', hkept⟩ := ih (by omega) hnext hshape
    refine ⟨hs', ht', fun r j hr hj => ?_⟩
    rw [hkept r j hr hj, hcolumns r hr, turn_of_ne _ (by omega) (by omega)]

/-- The grid `Q` with a unit vector for a new variable, between the null space and the range. -/
def widened (f : NullSpace ℝ n m) : Grid ℝ n n :=
  Grid.ofFn n n fun i j =>
    if i < f.nFree ∧ j ≤ f.nFree then
      if j < f.nNull then f.q i j else if j = f.nNull then 0 else f.q i (j - 1)
    else if i = f.nFree ∧ j ≤ f.nFree then
      if j = f.nNull then 1 else 0
    else f.q i j

theorem widened_new (hn : f.nFree < n) {p : ℕ} (hp : p < f.nFree) :
    f.widened p f.nNull = 0 := by
  have hsum := f.nNull_add
  rw [widened, Grid.ofFn_apply (by omega) (by omega), if_pos ⟨hp, by omega⟩,
    if_neg (Nat.lt_irrefl _), if_pos rfl]

/-- The old vectors make room for the new one. -/
theorem widened_old (hn : f.nFree < n) {p j : ℕ} (hp : p < f.nFree) (hj : j ≤ f.nFree)
    (hne : j ≠ f.nNull) : f.widened p j = f.q p (if j < f.nNull then j else j - 1) := by
  rw [widened, Grid.ofFn_apply (by omega) (by omega), if_pos ⟨hp, hj⟩, if_neg hne]
  split <;> rfl

theorem widened_last (hn : f.nFree < n) {j : ℕ} (hj : j ≤ f.nFree) :
    f.widened f.nFree j = if j = f.nNull then 1 else 0 := by
  rw [widened, Grid.ofFn_apply hn (by omega), if_neg (by omega), if_pos ⟨rfl, hj⟩]

/-- The coordinate of a row for the new vector is its entry for the new variable. -/
theorem coord_widened_new (hn : f.nFree < n) (a : ℕ → ℝ) :
    coord (f.nFree + 1) a f.widened f.nNull = a f.nFree := by
  have hsum := f.nNull_add
  unfold coord
  have hzero : ∑ p ∈ Finset.range f.nFree, a p * f.widened p f.nNull = 0 :=
    sum_eq_zero fun p hp => by rw [widened_new hn (mem_range.1 hp), mul_zero]
  rw [sum_range_succ, hzero, widened_last hn (by omega), if_pos rfl, zero_add, mul_one]

theorem coord_widened_old (hn : f.nFree < n) (a : ℕ → ℝ) {j : ℕ} (hj : j ≤ f.nFree)
    (hne : j ≠ f.nNull) : coord (f.nFree + 1) a f.widened j =
      coord f.nFree a f.q (if j < f.nNull then j else j - 1) := by
  unfold coord
  rw [sum_range_succ, widened_last hn hj, if_neg hne, mul_zero, add_zero]
  exact Finset.sum_congr rfl fun p hp => by rw [widened_old hn (mem_range.1 hp) hj hne]

theorem FactorsIf.orthonormal_widened (hf : f.FactorsIf regular A) (hn : f.nFree < n) :
    Orthonormal (f.nFree + 1) f.widened := by
  intro i j hi hj
  have hsum := f.nNull_add
  -- the products of a column are the coordinates of a column
  show coord (f.nFree + 1) (fun p => f.widened p i) f.widened j = _
  by_cases hjz : j = f.nNull
  · subst hjz
    rw [coord_widened_new hn, widened_last hn (by omega)]
  rw [coord_widened_old hn _ (by omega) hjz]
  by_cases hiz : i = f.nNull
  · subst hiz
    rw [if_neg (Ne.symm hjz)]
    refine sum_eq_zero fun p hp => ?_
    show f.widened p f.nNull * _ = 0
    rw [widened_new hn (mem_range.1 hp), zero_mul]
  have hold := hf.orthonormal (if i < f.nNull then i else i - 1) (if j < f.nNull then j else j - 1)
    (by split <;> omega) (by split <;> omega)
  have hiff : ((if i < f.nNull then i else i - 1) = if j < f.nNull then j else j - 1) ↔ i = j := by
    split <;> split <;> omega
  simp only [hiff] at hold
  rw [← hold]
  refine Finset.sum_congr rfl fun p hp => ?_
  show f.widened p i * _ = _
  rw [widened_old hn (mem_range.1 hp) (by omega) hiz]

/-- The widened factors as a splitting with the new vector outside the null space. -/
theorem FactorsIf.widen (hf : f.FactorsIf regular A) (hn : f.nFree < n) {a : ℕ → ℝ}
    (hA : ∀ c p, c < f.nActive → p < f.nFree → B c p = A c p)
    (ha : ∀ c, c < f.nActive → B c f.nFree = a c) :
    Splits (f.nFree + 1) f.nNull f.nActive (f.nActive + 1) B f.widened (f.t.prependColumn a) ∧
      Absorbed regular f.nActive 0 (f.t.prependColumn a) := by
  have hsum := f.nNull_add
  have hcapacity := f.nActive_le_capacity
  have hold := hf.congr hA
  -- the new column of `T` comes first, and the old ones move up by one
  have hfirst : ∀ c, c < f.nActive → (f.t.prependColumn a) c 0 = a c :=
    fun c hc => Grid.prependColumn_zero (by omega)
  have hlater : ∀ c j, c < f.nActive → j < f.nActive →
      (f.t.prependColumn a) c (j + 1) = f.t c j :=
    fun c j hc hj => Grid.prependColumn_succ (by omega) (by omega)
  refine ⟨⟨by omega, hf.orthonormal_widened hn, ?_, ?_⟩, ?_⟩
  · intro c j hc hj
    rw [coord_widened_old hn _ (by omega) (by omega), if_pos hj]
    exact hold.null c j hc hj
  · intro c j hc hj
    cases j with
    | zero =>
      rw [hfirst c hc, ← ha c hc]
      exact coord_widened_new hn (B c)
    | succ j =>
      rw [hlater c j hc (by omega), coord_widened_old hn _ (by omega) (by omega),
        if_neg (by omega), show f.nNull + (j + 1) - 1 = f.nNull + j by omega]
      exact hold.range c j hc (by omega)
  · refine ⟨fun r c hc hrc => ?_, fun hregular r hr => ?_, nofun⟩
    · cases c with
      | zero => exact absurd hc (Nat.lt_irrefl 0)
      | succ c =>
        rw [hlater r c (by omega) (by omega)]
        exact hf.reverse r c (by omega) (by omega)
    · rw [show f.nActive - r = f.nActive - 1 - r + 1 by omega, hlater r _ hr (by omega)]
      exact hf.antidiag_ne hregular r hr

/-- A variable becomes free, and the null space grows by a vector at its end. Of the column of the
constraints nothing is left. -/
theorem FactorsIf.appendFreeRow {count : ℕ} {a column : Tuple ℝ count}
    (hf : f.FactorsIf regular A) (h : f.appendFreeRow? a = some (f', column))
    (hA : ∀ c p, c < f.nActive → p < f.nFree → B c p = A c p)
    (ha : ∀ c, c < f.nActive → B c f.nFree = a c) :
    f'.nFree = f.nFree + 1 ∧ f'.nActive = f.nActive ∧
      (∀ p j, p < f.nFree → j < f.nNull → f'.q p j = f.q p j) ∧
      (∀ j, j < f.nNull → f'.q f.nFree j = 0) ∧ (∀ c, c < f.nActive → column c = 0) ∧
      f'.FactorsIf regular B := by
  unfold appendFreeRow? at h
  split at h
  · next hroom =>
    have hn := hroom.2
    have hsum := f.nNull_add
    have hcapacity := f.nActive_le_capacity
    obtain ⟨hstart, hshape⟩ := hf.widen hn hA ha
    obtain ⟨hs, ht, hkept⟩ := absorbColumn_spec hcapacity hn (Nat.zero_add f.nActive) hstart hshape
    change some (_, _) = _ at h
    have hq : ∀ p j, p < f.nFree → j < f.nNull → f.widened p j = f.q p j := by
      intro p j hp hj
      rw [widened_old hn hp (by omega) (by omega), if_pos hj]
    have hlast : ∀ j, j < f.nNull → f.widened f.nFree j = 0 := by
      intro j hj
      rw [widened_last hn (by omega), if_neg (by omega)]
    change some (NullSpace.mk (absorbColumn (f.nFree + 1) f.nActive f.nNull f.widened
      (f.t.prependColumn a) 0 f.nActive).1 (Grid.ofFn _ _ fun i j => (absorbColumn (f.nFree + 1)
      f.nActive f.nNull f.widened (f.t.prependColumn a) 0 f.nActive).2 i (j + 1)) _ _ _ _ _,
      Tuple.ofFn _ fun i => (absorbColumn (f.nFree + 1) f.nActive f.nNull f.widened
      (f.t.prependColumn a) 0 f.nActive).2 i 0) = _ at h
    generalize absorbColumn (f.nFree + 1) f.nActive f.nNull f.widened (f.t.prependColumn a) 0
      f.nActive = r at h hs ht hkept
    obtain ⟨q, t⟩ := r
    dsimp only at h hs ht hkept
    cases h
    have hT : ∀ c j, c < f.nActive → j < f.nActive →
        (Grid.ofFn (min n m) (min n m) fun i j => t i (j + 1)) c j = t c (j + 1) :=
      fun c j hc hj => Grid.ofFn_apply (by omega) (by omega)
    generalize (Grid.ofFn (min n m) (min n m) fun i j => t i (j + 1)) = T at hT ⊢
    -- the new column of `T` has been rotated away
    have habsorbed := hs.absorb fun c hc => ht.done c hc
    refine ⟨rfl, rfl, fun p j hp hj => ?_, fun j hj => ?_, fun c hc => ?_,
      .of_splits (habsorbed.congr (fun _ _ _ _ => rfl) (fun _ _ _ _ => rfl) hT)
        (fun c j hc hj => ?_) fun hregular c hc => ?_⟩
    · rw [← hq p j hp hj]
      exact hkept p j (by omega) hj
    · rw [← hlast j hj]
      exact hkept f.nFree j (by omega) hj
    · rw [Tuple.ofFn_apply (hroom.1 ▸ hc)]
      exact ht.done c hc
    · have hc : c < f.nActive := hc
      have hj : c + j + 1 < f.nActive := hj
      show T c j = 0
      rw [hT c j hc (by omega)]
      exact ht.zero c (j + 1) (by omega) (by omega)
    · have hc : c < f.nActive := hc
      show T c (f.nActive - 1 - c) ≠ 0
      rw [hT c _ hc (by omega), show f.nActive - 1 - c + 1 = f.nActive - c by omega]
      exact ht.ne hregular c hc
  · cases h

theorem Factors.appendFreeRow {count : ℕ} {a column : Tuple ℝ count} (hf : f.Factors A)
    (h : f.appendFreeRow? a = some (f', column))
    (hA : ∀ c p, c < f.nActive → p < f.nFree → B c p = A c p)
    (ha : ∀ c, c < f.nActive → B c f.nFree = a c) :
    f'.nFree = f.nFree + 1 ∧ f'.nActive = f.nActive ∧
      (∀ p j, p < f.nFree → j < f.nNull → f'.q p j = f.q p j) ∧
      (∀ j, j < f.nNull → f'.q f.nFree j = 0) ∧ f'.Factors B := by
  obtain ⟨hnFree, hnActive, hkept, hlast, -, hfactors⟩ := hf.toIf.appendFreeRow h hA ha
  exact ⟨hnFree, hnActive, hkept, hlast, hfactors.factors⟩

end NullSpace

end ActiveSet
