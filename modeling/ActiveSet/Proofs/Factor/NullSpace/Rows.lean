import ActiveSet.Proofs.Factor.NullSpace.Splitting

/-!
# Constraints enter and leave a factorization

A row that has been concentrated enters as the last one, and the last vector of the null space joins
the range. When a row leaves, each row below it gets its antidiagonal entry rotated one place to the
right, so that the first vector of the range can join the null space. `Shifted` is the shape of `T`
in the course of these rotations.

* `Factors.appendRow`, `Factors.removeRow`: the factors afterwards.
-/

namespace ActiveSet.NullSpace

open Finset Rotation

variable {n m : ℕ} {f f' : NullSpace ℝ n m} {A B : ℕ → ℕ → ℝ} {regular : Prop}

-- ---------------------------------------------------------------------------
-- A row enters
-- ---------------------------------------------------------------------------

theorem appendRow?_frame {count : ℕ} {row : Tuple ℝ count} (h : f.appendRow? row = some f') :
    f'.nFree = f.nFree ∧ f'.q = f.q := by
  unfold appendRow? at h
  split at h
  · cases h
    exact ⟨rfl, rfl⟩
  · cases h

/-- A row with one entry left in the null space enters. -/
theorem FactorsIf.appendRow {count : ℕ} {row : Tuple ℝ count} (hf : f.FactorsIf regular A)
    (h : f.appendRow? row = some f')
    (hA : ∀ c p, c < f.nActive → p < f.nFree → B c p = A c p)
    (hrow : ∀ j, j < f.nFree → row j = coord f.nFree (B f.nActive) f.q j)
    (hzero : ∀ j, j + 1 < f.nNull → row j = 0) (hne : regular → row (f.nNull - 1) ≠ 0) :
    f'.FactorsIf regular B := by
  unfold appendRow? at h
  split at h
  · next hroom =>
    have hcapacity := hroom.2.1
    have hactive := hroom.2.2
    cases h
    have hsum := f.nNull_add
    have hold := hf.congr hA
    -- the entries of the larger `T`
    have hlast : ∀ j, j < f.nActive + 1 →
        (Grid.ofFn (min n m) (min n m) fun i j => if i = f.nActive then row (f.nNull - 1 + j)
          else if j = 0 then 0 else f.t i (j - 1)) f.nActive j = row (f.nNull - 1 + j) := by
      intro j hj
      rw [Grid.ofFn_apply (by omega) (by omega), if_pos rfl]
    have hfirst : ∀ c, c < f.nActive →
        (Grid.ofFn (min n m) (min n m) fun i j => if i = f.nActive then row (f.nNull - 1 + j)
          else if j = 0 then 0 else f.t i (j - 1)) c 0 = 0 := by
      intro c hc
      rw [Grid.ofFn_apply (by omega) (by omega), if_neg (by omega), if_pos rfl]
    have hinner : ∀ c j, c < f.nActive → j < f.nActive →
        (Grid.ofFn (min n m) (min n m) fun i j => if i = f.nActive then row (f.nNull - 1 + j)
          else if j = 0 then 0 else f.t i (j - 1)) c (j + 1) = f.t c j := by
      intro c j hc hj
      rw [Grid.ofFn_apply (by omega) (by omega), if_neg (by omega), if_neg (by omega),
        Nat.add_sub_cancel]
    generalize (Grid.ofFn (min n m) (min n m) fun i j => if i = f.nActive then
      row (f.nNull - 1 + j) else if j = 0 then 0 else f.t i (j - 1)) = T at hlast hfirst hinner ⊢
    -- the last vector of the null space joins the range, and then the row
    have hreleased : Splits f.nFree (f.nNull - 1) f.nActive (f.nActive + 1) B f.q T := by
      have hsplits := hold.toSplits
      rw [show f.nNull = f.nNull - 1 + 1 by omega] at hsplits
      exact hsplits.release hfirst hinner
    have happended := hreleased.append
      (fun j hj => (hrow j (by omega)).symm.trans (hzero j (by omega)))
      fun j hj => (hrow _ (by omega)).symm.trans (hlast j hj).symm
    refine .of_splits happended (fun c j hc hj => ?_) fun hregular c hc => ?_
    · have hj : c + j + 1 < f.nActive + 1 := hj
      show T c j = 0
      cases j with
      | zero => exact hfirst c (by omega)
      | succ j =>
        rw [hinner c j (by omega) (by omega)]
        exact hf.reverse c j (by omega) (by omega)
    · show T c (f.nActive + 1 - 1 - c) ≠ 0
      rcases Nat.lt_succ_iff_lt_or_eq.1 hc with hlt | rfl
      · rw [show f.nActive + 1 - 1 - c = f.nActive - 1 - c + 1 by omega,
          hinner c _ hlt (by omega)]
        exact hf.antidiag_ne hregular c hlt
      · rw [show f.nActive + 1 - 1 - f.nActive = 0 by omega, hlast 0 (by omega), Nat.add_zero]
        exact hne hregular
  · cases h

theorem Factors.appendRow {count : ℕ} {row : Tuple ℝ count} (hf : f.Factors A)
    (h : f.appendRow? row = some f')
    (hA : ∀ c p, c < f.nActive → p < f.nFree → B c p = A c p)
    (hrow : ∀ j, j < f.nFree → row j = coord f.nFree (B f.nActive) f.q j)
    (hzero : ∀ j, j + 1 < f.nNull → row j = 0) (hne : row (f.nNull - 1) ≠ 0) :
    f'.Factors B :=
  (hf.toIf.appendRow h hA hrow hzero fun _ => hne).factors

-- ---------------------------------------------------------------------------
-- A row leaves
-- ---------------------------------------------------------------------------

/-- The shape of `T` after the antidiagonal entries of the rows between `p` and `i` have moved one
place to the right. Nothing is said about row `p`, which leaves. -/
structure Shifted (regular : Prop) (count p i : ℕ) (t : ℕ → ℕ → ℝ) : Prop where
  kept_zero : ∀ r j, r < count → r < p ∨ i ≤ r → r + j + 1 < count → t r j = 0
  kept_ne : regular → ∀ r, r < count → r < p ∨ i ≤ r → t r (count - 1 - r) ≠ 0
  moved_zero : ∀ r j, p < r → r < i → r + j < count → t r j = 0
  moved_ne : regular → ∀ r, p < r → r < i → t r (count - r) ≠ 0

theorem Shifted.congr {count p i : ℕ} {t t' : ℕ → ℕ → ℝ} (ht : Shifted regular count p i t)
    (hi : i ≤ count) (h : ∀ r, r < count → t' r = t r) : Shifted regular count p i t' := by
  refine ⟨fun r j hr hor hj => ?_, fun hregular r hr hor => ?_, fun r j hpr hri hj => ?_,
    fun hregular r hpr hri => ?_⟩
  · rw [h r hr]
    exact ht.kept_zero r j hr hor hj
  · rw [h r hr]
    exact ht.kept_ne hregular r hr hor
  · rw [h r (by omega)]
    exact ht.moved_zero r j hpr hri hj
  · rw [h r (by omega)]
    exact ht.moved_ne hregular r hpr hri

theorem Shifted.step {count p i : ℕ} {t : ℕ → ℕ → ℝ} (ht : Shifted regular count p i t)
    (hp : p < i) (hi : i < count) :
    Shifted regular count p (i + 1) fun r =>
      (toward (t i (count - 1 - i + 1)) (t i (count - 1 - i))).1.turn (count - 1 - i + 1)
        (count - 1 - i) (t r) := by
  have hspec := toward_spec (t i (count - 1 - i + 1)) (t i (count - 1 - i))
  have hr := fun hregular => toward_ne_zero (a := t i (count - 1 - i + 1))
    (.inr (ht.kept_ne hregular i hi (.inr le_rfl)))
  generalize (toward (t i (count - 1 - i + 1)) (t i (count - 1 - i))).2 = r' at hspec hr
  generalize (toward (t i (count - 1 - i + 1)) (t i (count - 1 - i))).1 = g at hspec ⊢
  obtain ⟨-, hfst, hsnd, -, -⟩ := hspec
  refine ⟨fun r j hrc hor hj => ?_, fun hregular r hrc hor => ?_, fun r j hpr hri hj => ?_,
    fun hregular r hpr hri => ?_⟩
  · rcases hor with hlt | hgt
    · -- rows above `p` are zero in both columns
      rw [turn_of_zero (ht.kept_zero r _ hrc (.inl hlt) (by omega))
        (ht.kept_zero r _ hrc (.inl hlt) (by omega))]
      exact ht.kept_zero r j hrc (.inl hlt) hj
    · -- rows below `i` have their zeros further left
      rw [turn_of_ne _ (by omega) (by omega)]
      exact ht.kept_zero r j hrc (.inr (by omega)) hj
  · rcases hor with hlt | hgt
    · rw [turn_of_zero (ht.kept_zero r _ hrc (.inl hlt) (by omega))
        (ht.kept_zero r _ hrc (.inl hlt) (by omega))]
      exact ht.kept_ne hregular r hrc (.inl hlt)
    · rw [turn_of_ne _ (by omega) (by omega)]
      exact ht.kept_ne hregular r hrc (.inr (by omega))
  · rcases Nat.lt_succ_iff_lt_or_eq.1 hri with hlt | rfl
    · rw [turn_of_zero (ht.moved_zero r _ hpr hlt (by omega))
        (ht.moved_zero r _ hpr hlt (by omega))]
      exact ht.moved_zero r j hpr hlt hj
    · by_cases hjc : j = count - 1 - r
      · rw [hjc, turn_snd]
        exact hsnd
      · rw [turn_of_ne _ (by omega) hjc]
        exact ht.kept_zero r j hi (.inr le_rfl) (by omega)
  · rcases Nat.lt_succ_iff_lt_or_eq.1 hri with hlt | rfl
    · rw [turn_of_zero (ht.moved_zero r _ hpr hlt (by omega))
        (ht.moved_zero r _ hpr hlt (by omega))]
      exact ht.moved_ne hregular r hpr hlt
    · rw [show count - r = count - 1 - r + 1 by omega, turn_fst (by omega), hfst]
      exact hr hregular

/-- The rotations that move the antidiagonal entries. The null space takes no part in them. -/
theorem shiftRows_spec {d z p : ℕ} {k : ℕ} (hk : k ≤ min n m) (hd : d ≤ n) :
    ∀ {count i : ℕ} {q : Grid ℝ n n} {t : Grid ℝ (min n m) (min n m)}, i + count = k → p < i →
      Splits d z k k A q t → Shifted regular k p i t →
        Splits d z k k A (shiftRows d k q t i count).1 (shiftRows d k q t i count).2 ∧
          Shifted regular k p k (shiftRows d k q t i count).2 ∧
          ∀ r j, r < d → j < z → (shiftRows d k q t i count).1 r j = q r j := by
  intro count
  induction count with
  | zero =>
    intro i q t hi _ hs ht
    rw [Nat.add_zero] at hi
    subst hi
    exact ⟨hs, ht, fun _ _ _ _ => rfl⟩
  | succ count ih =>
    intro i q t hi hp hs ht
    have hcount := hs.count
    have hspec := toward_spec (t i (k - 1 - i + 1)) (t i (k - 1 - i))
    have hstep := ht.step hp (by omega)
    rw [shiftRows]
    dsimp only
    rw [show d - k + (k - 1 - i) = z + (k - 1 - i) by omega]
    generalize (toward (t i (k - 1 - i + 1)) (t i (k - 1 - i))).1 = g at hspec hstep ⊢
    have hturned := hs.turn hspec.1 (show k - 1 - i + 1 ≠ k - 1 - i by omega) (by omega) (by omega)
    -- the grids hold what the rotations of sequences say
    have hrows : ∀ r, r < k →
        ((t.turnColumns k (k - 1 - i + 1) (k - 1 - i) g).set i (k - 1 - i) 0) r =
          g.turn (k - 1 - i + 1) (k - 1 - i) (t r) :=
      fun r hr => Grid.turnColumns_set_row (by omega) (by omega) (by omega) (by omega)
        hspec.2.2.1 hr
    have hcolumns : ∀ r, r < d →
        (q.turnColumns d (z + (k - 1 - i) + 1) (z + (k - 1 - i)) g) r =
          g.turn (z + (k - 1 - i + 1)) (z + (k - 1 - i)) (q r) :=
      fun r hr => Grid.turnColumns_row (by omega) (by omega) hr
    have hnext := hturned.congr (B := A) (fun _ _ _ _ => rfl)
      (fun r j hr _ => congrFun (hcolumns r hr) j) fun c j hc _ => congrFun (hrows c hc) j
    have hshape := hstep.congr (by omega) hrows
    obtain ⟨hs', ht', hkept⟩ := ih (by omega) (by omega) hnext hshape
    refine ⟨hs', ht', fun r j hr hj => ?_⟩
    rw [hkept r j hr hj, hcolumns r hr, turn_of_ne _ (by omega) (by omega)]

/-- A row leaves, and the null space grows by a vector at its end. -/
theorem FactorsIf.removeRow {p : ℕ} (hf : f.FactorsIf regular A) (h : f.removeRow? p = some f')
    (hA : ∀ c r, c < f.nActive - 1 → r < f.nFree →
      B c r = A (if c < p then c else c + 1) r) :
    f'.nFree = f.nFree ∧ f'.nActive + 1 = f.nActive ∧
      (∀ r j, r < f.nFree → j < f.nNull → f'.q r j = f.q r j) ∧ f'.FactorsIf regular B := by
  unfold removeRow? at h
  split at h
  · next hp =>
    have hsum := f.nNull_add
    have hcapacity := f.nActive_le_capacity
    have hshape : Shifted regular f.nActive p (p + 1) f.t :=
      ⟨fun r j hr _ hj => hf.reverse r j hr hj, fun hregular r hr _ => hf.antidiag_ne hregular r hr,
        fun r j hpr hri => absurd hri (by omega), fun _ r hpr hri => absurd hri (by omega)⟩
    obtain ⟨hs, ht, hkept⟩ := shiftRows_spec hcapacity f.nFree_le
      (show p + 1 + (f.nActive - (p + 1)) = f.nActive by omega) (Nat.lt_succ_self p) hf.toSplits
      hshape
    dsimp only at h
    generalize shiftRows f.nFree f.nActive f.q f.t (p + 1) (f.nActive - (p + 1)) = r at h hs ht hkept
    obtain ⟨q, t⟩ := r
    dsimp only at h hs ht hkept
    cases h
    have hentry : ∀ c j, c < f.nActive - 1 → j < f.nActive - 1 →
        (Grid.ofFn (min n m) (min n m) fun i j => if i < p then t i (j + 1) else t (i + 1) (j + 1))
          c j = t (if c < p then c else c + 1) (j + 1) := by
      intro c j hc hj
      rw [Grid.ofFn_apply (by omega) (by omega)]
      split <;> rfl
    generalize (Grid.ofFn (min n m) (min n m) fun i j => if i < p then t i (j + 1) else
      t (i + 1) (j + 1)) = T at hentry ⊢
    -- in the rows that stay the first column of the range is zero by now
    have hfirst : ∀ c, c < f.nActive - 1 → t (if c < p then c else c + 1) 0 = 0 := by
      intro c hc
      split
      · exact ht.kept_zero c 0 (by omega) (.inl ‹_›) (by omega)
      · exact ht.moved_zero (c + 1) 0 (by omega) (by omega) (by omega)
    rw [show f.nActive = f.nActive - 1 + 1 by omega] at hs
    have habsorbed := (hs.select (fun c => if c < p then c else c + 1) fun c hc =>
      (show (if c < p then c else c + 1) < f.nActive - 1 + 1 by split <;> omega)).absorb hfirst
    refine ⟨rfl, Nat.sub_add_cancel (by omega), hkept,
      .of_splits (habsorbed.congr hA (fun _ _ _ _ => rfl) hentry) (fun c j hc hj => ?_)
        fun hregular c hc => ?_⟩
    · have hc : c < f.nActive - 1 := hc
      have hj : c + j + 1 < f.nActive - 1 := hj
      show T c j = 0
      rw [hentry c j hc (by omega)]
      split
      · exact ht.kept_zero c _ (by omega) (.inl ‹_›) (by omega)
      · exact ht.moved_zero (c + 1) _ (by omega) (by omega) (by omega)
    · have hc : c < f.nActive - 1 := hc
      show T c (f.nActive - 1 - 1 - c) ≠ 0
      rw [hentry c _ hc (by omega)]
      split
      · rw [show f.nActive - 1 - 1 - c + 1 = f.nActive - 1 - c by omega]
        exact ht.kept_ne hregular c (by omega) (.inl ‹_›)
      · rw [show f.nActive - 1 - 1 - c + 1 = f.nActive - (c + 1) by omega]
        exact ht.moved_ne hregular (c + 1) (by omega) (by omega)
  · cases h

theorem Factors.removeRow {p : ℕ} (hf : f.Factors A) (h : f.removeRow? p = some f')
    (hA : ∀ c r, c < f.nActive - 1 → r < f.nFree →
      B c r = A (if c < p then c else c + 1) r) :
    f'.nFree = f.nFree ∧ f'.nActive + 1 = f.nActive ∧
      (∀ r j, r < f.nFree → j < f.nNull → f'.q r j = f.q r j) ∧ f'.Factors B := by
  obtain ⟨hnFree, hnActive, hkept, hfactors⟩ := hf.toIf.removeRow h hA
  exact ⟨hnFree, hnActive, hkept, hfactors.factors⟩

end ActiveSet.NullSpace
