import ActiveSet.Factor.NullSpace
import ActiveSet.Proofs.Comparison
import ActiveSet.Proofs.Dense.Alike
import Mathlib.Data.List.Forall2

/-!
# Related factorizations

The factorizations of a solver are built from sums, rotations and triangular systems. A rotation divides by
the length of a pair that has no zero in it, and a system by pivots that have passed a comparison. So
related factorizations stay related (`Cholesky.Alike`, `NullSpace.Alike`), and what they determine is
related too.
-/

namespace ActiveSet

open Scalar

variable {K : Type} [Scalar K] {n m k : Nat} {r : K → K → Prop}

/-! ## Rotations -/

/-- Two rotations are related. -/
structure Rotation.Alike (r : K → K → Prop) (g h : Rotation K) : Prop where
  c : r g.c h.c
  s : r g.s h.s

namespace Rotation

variable {g h : Rotation K} {a b u v u' v' : K}

theorem Alike.fst (hg : g.Alike r h) (hr : Congruence r) (hu : r u u') (hv : r v v') :
    r (g.fst u v) (h.fst u' v') := hr.add (hr.mul hg.c hu) (hr.mul hg.s hv)

theorem Alike.snd (hg : g.Alike r h) (hr : Congruence r) (hu : r u u') (hv : r v v') :
    r (g.snd u v) (h.snd u' v') := hr.sub (hr.mul hg.c hv) (hr.mul hg.s hu)

/-- A pair without a zero is the same on both sides. -/
theorem alike_toward (hr : Congruence r) (hu : r u u') (hv : r v v') :
    (toward u v).1.Alike r (toward u' v').1 ∧ r (toward u v).2 (toward u' v').2 := by
  unfold toward
  rw [← hr.beq_zero hu, ← hr.beq_zero hv]
  split
  · exact ⟨⟨hr.refl 1, hr.refl 0⟩, hu⟩
  · next hv0 =>
    split
    · exact ⟨⟨hr.refl 0, hr.refl 1⟩, hv⟩
    · next hu0 =>
      rw [← hr.eq_of_ne_zero hu hu0, ← hr.eq_of_ne_zero hv hv0]
      exact ⟨⟨hr.refl _, hr.refl _⟩, hr.refl _⟩

theorem alike_sweep (hr : Congruence r) {as bs : List K} (h : List.Forall₂ r as bs) :
    ∀ {a b : K}, r a b → List.Forall₂ (Alike r) (sweep a as).1 (sweep b bs).1 ∧
      r (sweep a as).2 (sweep b bs).2 := by
  induction h with
  | nil => exact fun hab => ⟨.nil, hab⟩
  | cons h _ ih =>
    intro a b hab
    obtain ⟨hg, hab'⟩ := alike_toward hr h hab
    obtain ⟨hgs, hend⟩ := ih hab'
    rw [sweep_cons, sweep_cons]
    exact ⟨.cons hg hgs, hend⟩

end Rotation

namespace Grid

variable {G H : Grid K m n} {g h : Rotation K}

theorem Alike.turnColumns (hG : G.Alike r H) (hr : Congruence r) (hg : g.Alike r h) (count u v : Nat) :
    (G.turnColumns count u v g).Alike r (H.turnColumns count u v h) :=
  alike_ofFn hr.refl fun i j =>
    related_ite (hg.snd hr (hG i u) (hG i v)) (related_ite (hg.fst hr (hG i u) (hG i v)) (hG i j))

theorem Alike.turnRows (hG : G.Alike r H) (hr : Congruence r) (hg : g.Alike r h)
    (first last u v : Nat) : (G.turnRows first last u v g).Alike r (H.turnRows first last u v h) :=
  alike_ofFn hr.refl fun i j =>
    related_ite (hg.snd hr (hG u j) (hG v j)) (related_ite (hg.fst hr (hG u j) (hG v j)) (hG i j))

theorem Alike.eliminate (hG : G.Alike r H) (hr : Congruence r) (last u v k : Nat) :
    (G.eliminate last u v k).Alike r (H.eliminate last u v k) := by
  obtain ⟨hg, hlength⟩ := Rotation.alike_toward hr (hG u k) (hG v k)
  exact ((hG.set hr.refl u k hlength).set hr.refl v k (hr.refl 0)).turnRows hr hg _ _ _ _

theorem Alike.turnNeighbours (hr : Congruence r) {gs hs : List (Rotation K)}
    (h : List.Forall₂ (Rotation.Alike r) gs hs) (count : Nat) :
    ∀ (first : Nat) {G H : Grid K m n}, G.Alike r H →
      (G.turnNeighbours count first gs).Alike r (H.turnNeighbours count first hs) := by
  induction h with
  | nil => exact fun _ _ _ hG => hG
  | cons hg _ ih => exact fun first _ _ hG => ih (first + 1) (hG.turnColumns hr hg _ _ _)

/-- A written entry does not depend on what was there before. -/
theorem set_eq_set (a : K) {i j u c : Nat} (h : u = i ∧ c = j ∨ G u c = H u c) :
    G.set i j a u c = H.set i j a u c := by
  rcases Nat.lt_or_ge u m with hu | hu
  · rcases Nat.lt_or_ge c n with hc | hc
    · rw [set_apply _ _ _ _ hu hc, set_apply _ _ _ _ hu hc]
      split
      · rfl
      · next hne => exact h.resolve_left hne
    · rw [apply_of_column_le _ hc, apply_of_column_le _ hc]
  · rw [apply_of_row_le _ hu, apply_of_row_le _ hu]

theorem Alike.prependColumn (hG : G.Alike r H) (hr : ∀ a, r a a) {a b : Nat → K}
    (hab : ∀ i, r (a i) (b i)) : (G.prependColumn a).Alike r (H.prependColumn b) :=
  alike_ofFn hr fun i j => related_ite (hab i) (hG i (j - 1))

end Grid

/-! ## Triangular systems -/

/-- The comparison with a tolerance keeps a system from dividing by one of two related pivots that are not
the same. -/
def SafePivots (r : K → K → Prop) (tolerance : K) : Prop :=
  ∀ {a b}, r a b → ¬Scalar.abs a ≤ tolerance → a = b

theorem Scalar.Guarded.safePivots {p : Parameters K} (h : Guarded r p) : SafePivots r p.epsZero := by
  intro a b hab hle
  by_contra hne
  exact hle (h hab hne).abs_le

theorem Scalar.Guarded.eq_of_not_le_definite {p : Parameters K} (h : Guarded r p) {a b : K} (hab : r a b)
    (hle : ¬a ≤ p.epsDefinite) : a = b := by
  by_contra hne
  exact hle (h hab hne).le_definite

section Systems

variable {coef coef' : Nat → Nat → K} {rhs rhs' : Nat → K} {tolerance : K}

theorem isNegligible_eq (hr : Congruence r) {a b : K} (h : r a b) :
    isNegligible tolerance b = isNegligible tolerance a :=
  decide_eq_decide.2 (hr.le_iff (hr.abs h) (hr.refl _)).symm

theorem alike_backSubstituteFrom (hr : Congruence r) (hsafe : SafePivots r tolerance)
    (hcoef : ∀ i j, r (coef i j) (coef' i j)) (hrhs : ∀ i, r (rhs i) (rhs' i)) (k : Nat) :
    ∀ {x y : Tuple K n}, x.Alike r y → AttemptsAlike (Tuple.Alike r) (Tuple.Alike r)
      (backSubstituteFrom tolerance coef rhs k x) (backSubstituteFrom tolerance coef' rhs' k y) := by
  induction k with
  | zero => exact fun h => .ok h
  | succ k ih =>
    intro x y h
    unfold backSubstituteFrom
    rw [isNegligible_eq hr (hcoef k k)]
    split
    · exact .error _ h
    · next hpivot =>
      have hpivot : ¬Scalar.abs (coef k k) ≤ tolerance := fun hle => hpivot (decide_eq_true hle)
      -- a pivot that passes the test is the same number on both sides, not only a related one
      have heq := hsafe (hcoef k k) hpivot
      have hrest : r (deduct (rhs k) (n - (k + 1)) fun j => coef k (k + 1 + j) * x (k + 1 + j))
          (deduct (rhs' k) (n - (k + 1)) fun j => coef' k (k + 1 + j) * y (k + 1 + j)) :=
        hr.deduct (hrhs k) fun j => hr.mul (hcoef _ _) (h _)
      refine ih (h.set hr.refl k ?_)
      rw [← heq]
      exact hr.div hrest _

theorem alike_forwardSubstituteTo (hr : Congruence r) (hsafe : SafePivots r tolerance)
    (hcoef : ∀ i j, r (coef i j) (coef' i j)) (hrhs : ∀ i, r (rhs i) (rhs' i)) {x y : Tuple K n}
    (h : x.Alike r y) (k : Nat) : AttemptsAlike (Tuple.Alike r) (Tuple.Alike r)
      (forwardSubstituteTo tolerance coef rhs k x) (forwardSubstituteTo tolerance coef' rhs' k y) := by
  induction k with
  | zero => exact .ok h
  | succ k ih =>
    unfold forwardSubstituteTo
    generalize forwardSubstituteTo tolerance coef rhs k x = u at ih ⊢
    generalize forwardSubstituteTo tolerance coef' rhs' k y = v at ih ⊢
    cases ih with
    | error e h => exact .error e h
    | @ok x y h =>
      change AttemptsAlike _ _ (if isNegligible tolerance (coef k k) = true then _ else _)
        (if isNegligible tolerance (coef' k k) = true then _ else _)
      rw [isNegligible_eq hr (hcoef k k)]
      split
      · exact .error _ h
      · next hpivot =>
        have hpivot : ¬Scalar.abs (coef k k) ≤ tolerance := fun hle => hpivot (decide_eq_true hle)
        -- as above, the pivots are equal once they pass the test
        have heq := hsafe (hcoef k k) hpivot
        refine .ok (h.set hr.refl k ?_)
        rw [← heq]
        exact hr.div (hr.deduct (hrhs k) fun j => hr.mul (hcoef _ _) (h _)) _

end Systems

/-! ## Triangular factors -/

namespace Cholesky

/-- The buffers of two factors of the same dimension are related. -/
inductive Alike (r : K → K → Prop) (f : Cholesky K n) : Cholesky K n → Prop
  | intro {G : Grid K n n} (h : f.entries.Alike r G) : Alike r f { f with entries := G }

variable {f f' : Cholesky K n} {tolerance : K}

theorem Alike.cleared (h : f.Alike r f') (hr : Congruence r) : f.cleared.Alike r f'.cleared := by
  cases h with
  | intro hG => exact Grid.alike_ofFn hr.refl fun i j => hr.mul (hr.refl 0) (hG i j)

theorem Alike.identity? (h : f.Alike r f') (hr : Congruence r) (d : Nat) :
    Option.Rel (Alike r) (f.identity? d) (f'.identity? d) := by
  unfold Cholesky.identity?
  split
  · exact .some (.intro (Grid.alike_ofFn hr.refl fun i j => related_ite (hr.refl 1) (h.cleared hr i j)))
  · exact .none

/-! ### Factorization -/

/-- Only the column in turn is written. -/
theorem fillColumn_of_ne (mat : Nat → Nat → K) (G : Grid K n n) {j c : Nat} (hc : c ≠ j) (i u : Nat) :
    fillColumn mat j i G u c = G u c := by
  induction i with
  | zero => rfl
  | succ i ih =>
    rw [fillColumn]
    rcases Nat.lt_or_ge u n with hu | hu
    · rcases Nat.lt_or_ge c n with hcn | hcn
      · rw [Grid.set_apply _ _ _ _ hu hcn, if_neg fun h => hc h.2, ih]
      · rw [Grid.apply_of_column_le _ hcn, Grid.apply_of_column_le _ hcn]
    · rw [Grid.apply_of_row_le _ hu, Grid.apply_of_row_le _ hu]

section Factorization

variable {mat mat' : Nat → Nat → K} (hmat : ∀ i j, r (mat i j) (mat' i j)) {G H : Grid K n n}
include hmat

/-- The column in turn is divided by diagonal entries that have been found before. -/
theorem alike_fillColumn (hr : Congruence r) (h : G.Alike r H) {j : Nat}
    (hdiagonal : ∀ u, u < j → G u u = H u u) (i : Nat) (hij : i ≤ j) :
    (fillColumn mat j i G).Alike r (fillColumn mat' j i H) := by
  induction i with
  | zero => exact h
  | succ i ih =>
    have hcolumn := ih (by omega)
    have hpivot : fillColumn mat j i G i i = fillColumn mat' j i H i i := by
      rw [fillColumn_of_ne _ _ (by omega), fillColumn_of_ne _ _ (by omega), hdiagonal i (by omega)]
    refine hcolumn.set hr.refl i j ?_
    rw [← hpivot]
    exact hr.div (hr.deduct (hmat i j) fun k => hr.mul (hcolumn k i) (hcolumn k j)) _

/-- Two factors whose columns have been found alike have the same diagonal entries, since these are roots of
pivots above the tolerance. -/
theorem alike_fillColumns (hr : Congruence r) (hsafe : ∀ {a b}, r a b → ¬a ≤ tolerance → a = b)
    (h : G.Alike r H) (j : Nat) :
    AttemptsAlike (fun G H : Grid K n n => G.Alike r H ∧ ∀ u, u < j → G u u = H u u)
      (Grid.Alike r) (fillColumns mat tolerance j G) (fillColumns mat' tolerance j H) := by
  -- a pivot that passes the test is safe, so the pivots of all columns done are the same
  induction j with
  | zero => exact .ok ⟨h, fun u hu => absurd hu (Nat.not_lt_zero u)⟩
  | succ j ih =>
    unfold fillColumns
    generalize fillColumns mat tolerance j G = u at ih ⊢
    generalize fillColumns mat' tolerance j H = v at ih ⊢
    cases ih with
    | error e h => exact .error e h
    | @ok G H h =>
      obtain ⟨h, hdiagonal⟩ := h
      have hcolumn := alike_fillColumn hmat hr h hdiagonal j (Nat.le_refl j)
      have hpivot : r (deduct (mat j j) j fun k => fillColumn mat j j G k j * fillColumn mat j j G k j)
          (deduct (mat' j j) j fun k => fillColumn mat' j j H k j * fillColumn mat' j j H k j) :=
        hr.deduct (hmat j j) fun k => hr.mul (hcolumn k j) (hcolumn k j)
      have hkept : ∀ u, u < j → fillColumn mat j j G u u = fillColumn mat' j j H u u := fun u hu => by
        rw [fillColumn_of_ne _ _ (by omega), fillColumn_of_ne _ _ (by omega), hdiagonal u hu]
      change AttemptsAlike _ _ (if deduct _ _ _ ≤ tolerance then _ else _)
        (if deduct _ _ _ ≤ tolerance then _ else _)
      generalize fillColumn mat j j G = G' at hcolumn hpivot hkept ⊢
      generalize fillColumn mat' j j H = H' at hcolumn hpivot hkept ⊢
      refine related_ite_of (hr.le_iff hpivot (hr.refl _)) (fun _ => .error _ hcolumn) fun hle => ?_
      refine .ok ⟨hcolumn.set hr.refl j j (hr.sqrt hpivot), fun u hu => ?_⟩
      rw [← hsafe hpivot hle]
      refine Grid.set_eq_set _ ?_
      obtain hlt | rfl := Nat.lt_succ_iff_lt_or_eq.1 hu
      · exact .inr (hkept u hlt)
      · exact .inl ⟨rfl, rfl⟩

end Factorization

theorem Alike.factorize? (h : f.Alike r f') (hr : Congruence r)
    (hsafe : ∀ {a b}, r a b → ¬a ≤ tolerance → a = b) (d : Nat) {mat mat' : Nat → Nat → K}
    (hmat : ∀ i j, r (mat i j) (mat' i j)) :
    Option.Rel (AttemptsAlike (Alike r) (Alike r)) (f.factorize? d mat tolerance)
      (f'.factorize? d mat' tolerance) := by
  have hcolumns := alike_fillColumns hmat hr hsafe (h.cleared hr) d
  unfold Cholesky.factorize?
  split
  · generalize fillColumns mat tolerance d f.cleared = u at hcolumns ⊢
    generalize fillColumns mat' tolerance d f'.cleared = v at hcolumns ⊢
    cases hcolumns with
    | ok h => exact .some (.ok (.intro h.1))
    | error e h => exact .some (.error e (.intro h))
  · exact .none

/-! ### Systems -/

theorem Alike.solveR? (h : f.Alike r f') (hr : Congruence r) (hsafe : SafePivots r tolerance)
    {b b' : Tuple K k} (hb : b.Alike r b') :
    Option.Rel (AttemptsAlike (Tuple.Alike r) (Tuple.Alike r)) (f.solveR? tolerance b)
      (f'.solveR? tolerance b') := by
  cases h with
  | intro hG =>
    unfold Cholesky.solveR?
    split
    · exact .some (alike_backSubstituteFrom hr hsafe hG hb _ hb)
    · exact .none

theorem Alike.solveRT? (h : f.Alike r f') (hr : Congruence r) (hsafe : SafePivots r tolerance)
    {b b' : Tuple K k} (hb : b.Alike r b') :
    Option.Rel (AttemptsAlike (Tuple.Alike r) (Tuple.Alike r)) (f.solveRT? tolerance b)
      (f'.solveRT? tolerance b') := by
  cases h with
  | intro hG =>
    unfold Cholesky.solveRT?
    split
    · exact .some (alike_forwardSubstituteTo hr hsafe (fun i j => hG j i) hb hb _)
    · exact .none

/-! ### Updates -/

theorem Alike.append? (h : f.Alike r f') (hr : Congruence r) (hsafe : SafePivots r tolerance)
    {col col' : Tuple K k} (hcol : col.Alike r col') {diag diag' : K} (hdiag : r diag diag')
    (pivotTolerance : K) :
    Option.Rel (AttemptsAlike (fun a b => a.1.Alike r b.1 ∧ a.2.Alike r b.2) (Tuple.Alike r))
      (f.append? col diag pivotTolerance tolerance) (f'.append? col' diag' pivotTolerance tolerance) := by
  have hsolved := h.solveRT? hr hsafe hcol
  cases h with
  | @intro G hG =>
    unfold Cholesky.append?
    dsimp only
    split
    · generalize f.solveRT? tolerance col = u at hsolved ⊢
      generalize Cholesky.solveRT? { f with entries := G } tolerance col' = v at hsolved ⊢
      cases hsolved with
      | none => exact .none
      | some hsolved =>
        cases hsolved with
        | error e h => exact .some (.error e h)
        | @ok a b h =>
          -- the new pivot is the root of numbers that are related
          have hsquare : r (diag - dot k a a) (diag' - dot k b b) := hr.sub hdiag (hr.dot h h)
          refine related_ite_of (hr.le_iff hsquare (hr.refl _)) (fun _ => .some (.error _ h)) fun _ => ?_
          refine .some (.ok ⟨h, .intro (Grid.alike_ofFn hr.refl fun i j => ?_)⟩)
          exact related_ite (hr.sqrt hsquare)
            (related_ite (h i) (related_ite (hr.refl 0) (hG i j)))
    · exact .none

theorem alike_clearDiagonal (hr : Congruence r) (d count : Nat) :
    ∀ (i : Nat) {G H : Grid K n n}, G.Alike r H →
      (clearDiagonal d G i count).Alike r (clearDiagonal d H i count) := by
  induction count with
  | zero => exact fun _ _ _ h => h
  | succ count ih => exact fun i _ _ h => ih (i + 1) (h.eliminate hr _ _ _ _)

theorem Alike.removeColumn? (h : f.Alike r f') (hr : Congruence r) (p : Nat) :
    Option.Rel (Alike r) (f.removeColumn? p) (f'.removeColumn? p) := by
  cases h with
  | intro hG =>
    have hcleared := alike_clearDiagonal hr f.dim (f.dim - (p + 1)) (p + 1) hG
    unfold Cholesky.removeColumn?
    dsimp only
    split
    · exact .some (.intro (Grid.alike_ofFn hr.refl fun i j => related_ite
        (related_ite (hr.refl 0) (related_ite (hcleared _ _) (hcleared _ _))) (hcleared _ _)))
    · exact .none

theorem Alike.turnBasis? (h : f.Alike r f') (hr : Congruence r) {g g' : Rotation K} (hg : g.Alike r g')
    (j : Nat) : Option.Rel (Alike r) (f.turnBasis? j g) (f'.turnBasis? j g') := by
  cases h with
  | intro hG =>
    unfold Cholesky.turnBasis?
    dsimp only
    split
    · exact .some (.intro ((hG.turnColumns hr hg _ _ _).eliminate hr _ _ _ _))
    · exact .none

theorem alike_turnBases? (hr : Congruence r) {gs gs' : List (Rotation K)}
    (h : List.Forall₂ (Rotation.Alike r) gs gs') :
    ∀ (first : Nat) {f f' : Cholesky K n}, f.Alike r f' →
      Option.Rel (Alike r) (f.turnBases? first gs) (f'.turnBases? first gs') := by
  induction h with
  | nil => exact fun _ _ _ hf => .some hf
  | @cons g g' gs gs' hg _ ih =>
    intro first f f' hf
    have hturned := hf.turnBasis? hr hg first
    unfold Cholesky.turnBases?
    generalize f.turnBasis? first g = u at hturned ⊢
    generalize f'.turnBasis? first g' = v at hturned ⊢
    cases hturned with
    | none => exact .none
    | some hf' => exact ih (first + 1) hf'

theorem Alike.dropLast? (h : f.Alike r f') (hr : ∀ a, r a a) :
    Option.Rel (Alike r) f.dropLast? f'.dropLast? := by
  cases h with
  | intro hG =>
    unfold Cholesky.dropLast?
    dsimp only
    split
    · exact .some (.intro (Grid.alike_ofFn hr fun i j => related_ite (hr 0) (hG i j)))
    · exact .none

/-- The factor follows a rotation of the null space, and gives up its last direction. -/
theorem Alike.dropTurned (h : f.Alike r f') (hr : Congruence r) {gs gs' : List (Rotation K)}
    (hgs : List.Forall₂ (Rotation.Alike r) gs gs') :
    Option.Rel (Alike r) (do (← f.turnBases? 0 gs).dropLast?) (do (← f'.turnBases? 0 gs').dropLast?) := by
  have hturned := alike_turnBases? hr hgs 0 h
  generalize f.turnBases? 0 gs = u at hturned ⊢
  generalize f'.turnBases? 0 gs' = v at hturned ⊢
  cases hturned with
  | none => exact .none
  | some h => exact h.dropLast? hr.refl

end Cholesky

/-! ## Null spaces -/

namespace NullSpace

/-- The buffers of two factorizations of the same dimensions are related. -/
inductive Alike (r : K → K → Prop) (f : NullSpace K n m) : NullSpace K n m → Prop
  | intro {q : Grid K n n} {t : Grid K (min n m) (min n m)} (hq : f.q.Alike r q) (ht : f.t.Alike r t) :
    Alike r f { f with q, t }

variable {f f' : NullSpace K n m} {tolerance : K}

theorem Alike.nNull (h : f.Alike r f') : f'.nNull = f.nNull := by
  cases h
  rfl

/-- After a reset only the products with zero of the old buffer matter. -/
theorem alike_reset (hr : Congruence r) (h : f.q.Alike (Residue r) f'.q) (d : Nat) (hd : d ≤ n) :
    (f.reset d hd).Alike r (f'.reset d hd) :=
  .intro (Grid.alike_ofFn hr.refl fun i j => related_ite (hr.refl 1) (Grid.Alike.cleared h hr i j))
    (.refl hr.refl _)

theorem Alike.reset? (h : f.Alike r f') (hr : Congruence r) (d : Nat) :
    Option.Rel (Alike r) (f.reset? d) (f'.reset? d) := by
  cases h with
  | intro hq ht =>
    unfold NullSpace.reset?
    split
    · exact .some (alike_reset hr (fun i j => hr.residue (hq i j)) d _)
    · exact .none

section Buffers

variable {q : Grid K n n} {t : Grid K (min n m) (min n m)} (hq : f.q.Alike r q)
include hq

theorem alike_row? (hr : ∀ a, r a a) (p : Nat) :
    Option.Rel (Tuple.Alike r) (f.row? p) (row? { f with q, t } p) := by
  unfold row?
  dsimp only
  split
  · exact .some (Tuple.alike_ofFn hr fun j => hq p j)
  · exact .none

theorem alike_column? (hr : ∀ a, r a a) (j : Nat) :
    Option.Rel (Tuple.Alike r) (f.column? j) (column? { f with q, t } j) := by
  unfold column?
  dsimp only
  split
  · exact .some (Tuple.alike_ofFn hr fun p => hq _ _)
  · exact .none

end Buffers

theorem Alike.rowTimesQ? (h : f.Alike r f') (hr : Congruence r) {a a' : Tuple K k} (ha : a.Alike r a') :
    Option.Rel (Tuple.Alike r) (f.rowTimesQ? a) (f'.rowTimesQ? a') := by
  cases h with
  | intro hq ht =>
    unfold NullSpace.rowTimesQ?
    split
    · exact .some (Tuple.alike_ofFn hr.refl fun j => hr.sum fun p => hr.mul (ha p) (hq p j))
    · exact .none

theorem Alike.concentrate? (h : f.Alike r f') (hr : Congruence r) {w w' : Tuple K k}
    (hw : w.Alike r w') :
    Option.Rel (fun a b => List.Forall₂ (Rotation.Alike r) a.1 b.1 ∧ a.2.Alike r b.2)
      (f.concentrate? w) (f'.concentrate? w') := by
  unfold NullSpace.concentrate?
  rw [h.nNull]
  dsimp only
  split
  · have hentries : List.Forall₂ r ((List.range (f.nNull - 1)).map fun j => w (j + 1))
        ((List.range (f.nNull - 1)).map fun j => w' (j + 1)) := by
      rw [List.forall₂_map_left_iff, List.forall₂_map_right_iff]
      exact List.forall₂_same.2 fun j _ => hw (j + 1)
    obtain ⟨hgs, hend⟩ := Rotation.alike_sweep hr hentries (hw 0)
    exact .some ⟨hgs, Tuple.alike_ofFn hr.refl fun j =>
      related_ite (hr.refl 0) (related_ite hend (hw j))⟩
  · exact .none

theorem Alike.turnZ (h : f.Alike r f') (hr : Congruence r) {gs gs' : List (Rotation K)}
    (hgs : List.Forall₂ (Rotation.Alike r) gs gs') : (f.turnZ gs).Alike r (f'.turnZ gs') := by
  cases h with
  | intro hq ht => exact .intro (.turnNeighbours hr hgs _ _ hq) ht

/-! ### Active constraints -/

theorem Alike.appendRow? (h : f.Alike r f') (hr : ∀ a, r a a) {w w' : Tuple K k} (hw : w.Alike r w') :
    Option.Rel (Alike r) (f.appendRow? w) (f'.appendRow? w') := by
  cases h with
  | intro hq ht =>
    unfold NullSpace.appendRow?
    dsimp only
    split
    · exact .some (.intro hq (Grid.alike_ofFn hr fun i j =>
        related_ite (hw _) (related_ite (hr 0) (ht _ _))))
    · exact .none

theorem alike_shiftRows (hr : Congruence r) (nFree nActive count : Nat) :
    ∀ (i : Nat) {q q' : Grid K n n} {t t' : Grid K (min n m) (min n m)}, q.Alike r q' → t.Alike r t' →
      (shiftRows nFree nActive q t i count).1.Alike r (shiftRows nFree nActive q' t' i count).1 ∧
        (shiftRows nFree nActive q t i count).2.Alike r (shiftRows nFree nActive q' t' i count).2 := by
  induction count with
  | zero => exact fun _ _ _ _ _ hq ht => ⟨hq, ht⟩
  | succ count ih =>
    intro i q q' t t' hq ht
    have hg := (Rotation.alike_toward hr (ht i (nActive - 1 - i + 1)) (ht i (nActive - 1 - i))).1
    exact ih (i + 1) (hq.turnColumns hr hg _ _ _)
      ((ht.turnColumns hr hg _ _ _).set hr.refl _ _ (hr.refl 0))

theorem Alike.removeRow? (h : f.Alike r f') (hr : Congruence r) (p : Nat) :
    Option.Rel (Alike r) (f.removeRow? p) (f'.removeRow? p) := by
  cases h with
  | intro hq ht =>
    obtain ⟨hq', ht'⟩ := alike_shiftRows hr f.nFree f.nActive (f.nActive - (p + 1)) (p + 1) hq ht
    unfold NullSpace.removeRow?
    dsimp only
    split
    · exact .some (.intro hq' (Grid.alike_ofFn hr.refl fun i j => related_ite (ht' _ _) (ht' _ _)))
    · exact .none

/-! ### Free variables -/

theorem Alike.swapRows? (h : f.Alike r f') (hr : ∀ a, r a a) (a b : Nat) :
    Option.Rel (Alike r) (f.swapRows? a b) (f'.swapRows? a b) := by
  cases h with
  | intro hq ht =>
    unfold NullSpace.swapRows?
    dsimp only
    split
    · exact .some (.intro hq ht)
    · split
      · exact .some (.intro (Grid.alike_ofFn hr fun i j => related_ite (hq _ _) (hq i j)) ht)
      · exact .none

theorem alike_collectLastRow (hr : Congruence r) (nFree nActive count : Nat) :
    ∀ (j : Nat) {q q' : Grid K n n} {t t' : Grid K (min n m) (min n m + 1)}, q.Alike r q' →
      t.Alike r t' →
        (collectLastRow nFree nActive q t j count).1.Alike r
            (collectLastRow nFree nActive q' t' j count).1 ∧
          (collectLastRow nFree nActive q t j count).2.Alike r
            (collectLastRow nFree nActive q' t' j count).2 := by
  induction count with
  | zero => exact fun _ _ _ _ _ hq ht => ⟨hq, ht⟩
  | succ count ih =>
    intro j q q' t t' hq ht
    have hg := (Rotation.alike_toward hr (hq (nFree - 1) (nFree - nActive - 1 + j + 1))
      (hq (nFree - 1) (nFree - nActive - 1 + j))).1
    exact ih (j + 1) (hq.turnColumns hr hg _ _ _) (ht.turnColumns hr hg _ _ _)

theorem Alike.removeLastRow? (h : f.Alike r f') (hr : Congruence r) :
    Option.Rel (Alike r) f.removeLastRow? f'.removeLastRow? := by
  cases h with
  | intro hq ht =>
    obtain ⟨hq', ht'⟩ := alike_collectLastRow hr f.nFree f.nActive f.nActive 0 hq
      (ht.prependColumn hr.refl fun _ => hr.refl 0)
    unfold NullSpace.removeLastRow?
    dsimp only
    split
    · exact .some (.intro (Grid.alike_ofFn hr.refl fun i j => related_ite (hr.refl 0) (hq' i j))
        (Grid.alike_ofFn hr.refl ht'))
    · exact .none

theorem alike_absorbColumn (hr : Congruence r) (nFree nActive z count : Nat) :
    ∀ (i : Nat) {q q' : Grid K n n} {t t' : Grid K (min n m) (min n m + 1)}, q.Alike r q' →
      t.Alike r t' →
        (absorbColumn nFree nActive z q t i count).1.Alike r
            (absorbColumn nFree nActive z q' t' i count).1 ∧
          (absorbColumn nFree nActive z q t i count).2.Alike r
            (absorbColumn nFree nActive z q' t' i count).2 := by
  induction count with
  | zero => exact fun _ _ _ _ _ hq ht => ⟨hq, ht⟩
  | succ count ih =>
    intro i q q' t t' hq ht
    have hg := (Rotation.alike_toward hr (ht i (nActive - i)) (ht i 0)).1
    exact ih (i + 1) (hq.turnColumns hr hg _ _ _)
      ((ht.turnColumns hr hg _ _ _).set hr.refl _ _ (hr.refl 0))

theorem alike_of_absorbed (hr : Congruence r) {q q' : Grid K n n}
    {t t' : Grid K (min n m) (min n m + 1)} {nFree nActive : Nat} {h : nFree ≤ n} {h' : nActive ≤ nFree}
    {h'' : nActive ≤ min n m} (hqt : q.Alike r q' ∧ t.Alike r t') :
    Alike r (⟨q, .ofFn _ _ fun i j => t i (j + 1), nFree, nActive, h, h', h''⟩ : NullSpace K n m)
      ⟨q', .ofFn _ _ fun i j => t' i (j + 1), nFree, nActive, h, h', h''⟩ :=
  .intro hqt.1 (Grid.alike_ofFn hr.refl fun i j => hqt.2 i (j + 1))

theorem Alike.appendFreeRow? (h : f.Alike r f') (hr : Congruence r) (a : Tuple K k) :
    Option.Rel (fun u v => u.1.Alike r v.1) (f.appendFreeRow? a) (f'.appendFreeRow? a) := by
  cases h with
  | @intro q t hq ht =>
    unfold NullSpace.appendFreeRow?
    dsimp only
    split
    · refine .some (alike_of_absorbed hr (alike_absorbColumn hr _ _ _ _ 0
        (Grid.alike_ofFn hr.refl fun i j => ?_) (ht.prependColumn hr.refl fun i => hr.refl (a i))))
      exact related_ite (related_ite (hq i j) (related_ite (hr.refl 0) (hq i (j - 1))))
        (related_ite (related_ite (hr.refl 1) (hr.refl 0)) (hq i j))
    · exact .none

/-! ### Systems -/

theorem Alike.solveT? (h : f.Alike r f') (hr : Congruence r) (hsafe : SafePivots r tolerance)
    {b b' : Tuple K k} (hb : b.Alike r b') (x : Tuple K k) :
    Option.Rel (AttemptsAlike (Tuple.Alike r) (Tuple.Alike r)) (f.solveT? tolerance b x)
      (f'.solveT? tolerance b' x) := by
  cases h with
  | intro hq ht =>
    unfold NullSpace.solveT?
    split
    · exact .some (alike_backSubstituteFrom hr hsafe (fun _ _ => ht _ _) (fun _ => hb _) _
        (.refl hr.refl x))
    · exact .none

theorem Alike.solveTT? (h : f.Alike r f') (hr : Congruence r) (hsafe : SafePivots r tolerance)
    {b b' : Tuple K k} (hb : b.Alike r b') (x : Tuple K k) :
    Option.Rel (AttemptsAlike (Tuple.Alike r) (Tuple.Alike r)) (f.solveTT? tolerance b x)
      (f'.solveTT? tolerance b' x) := by
  cases h with
  | intro hq ht =>
    unfold NullSpace.solveTT?
    split
    · exact .some (alike_backSubstituteFrom hr hsafe (fun _ _ => ht _ _) (fun _ => hb _) _
        (.refl hr.refl x))
    · exact .none

end NullSpace

end ActiveSet
