import ActiveSet.Optimality
import ActiveSet.Proofs.Congruence

/-!
# Related tuples and grids

Tuples, grids, multipliers and the vectors of a problem are related entry by entry. If the relation is a
congruence, their operations keep it.

A summand that is multiplied by zero need not be related itself, only its product with zero has to be
(`Grid.alike_apply`, `Grid.alike_combine`).
-/

namespace ActiveSet

open Scalar

variable {K : Type} [Scalar K] {n m : Nat} {r d : K → K → Prop}

/-- The entries of two tuples are related. -/
def Tuple.Alike (r : K → K → Prop) (x y : Tuple K n) : Prop := ∀ i, r (x i) (y i)

/-- The entries of two grids are related. -/
def Grid.Alike (r : K → K → Prop) (G H : Grid K m n) : Prop := ∀ i j, r (G i j) (H i j)

/-- The multipliers of two problems are related. -/
structure Dual.Alike (r : K → K → Prop) (y z : Dual K n m) : Prop where
  bound : y.bound.Alike r z.bound
  row : y.row.Alike r z.row

/-- The vectors of two problems are related. -/
structure Data.Alike (r : K → K → Prop) (c e : Data K n m) : Prop where
  gradient : c.gradient.Alike r e.gradient
  lower : c.lower.Alike r e.lower
  upper : c.upper.Alike r e.upper
  rowLower : c.rowLower.Alike r e.rowLower
  rowUpper : c.rowUpper.Alike r e.rowUpper

namespace Tuple

variable {x x' y y' : Tuple K n} {f g : Nat → K} {a b : K}

theorem Alike.mono (h : x.Alike r y) (hd : ∀ {a b}, r a b → d a b) : x.Alike d y := fun i => hd (h i)

theorem Alike.refl (hr : ∀ a, r a a) (x : Tuple K n) : x.Alike r x := fun _ => hr _

/-- Outside all tuples are zero. -/
theorem alike_ofFn (hr : ∀ a, r a a) (h : ∀ i, r (f i) (g i)) : (ofFn n f).Alike r (ofFn n g) := by
  intro i
  rcases Nat.lt_or_ge i n with hi | hi
  · rw [ofFn_apply hi, ofFn_apply hi]
    exact h i
  · rw [apply_of_le _ hi, apply_of_le _ hi]
    exact hr 0

theorem alike_of_empty (hr : ∀ a, r a a) (x y : Tuple K 0) : x.Alike r y := by
  intro i
  rw [apply_of_le x (Nat.zero_le i), apply_of_le y (Nat.zero_le i)]
  exact hr 0

theorem Alike.set (h : x.Alike r y) (hr : ∀ a, r a a) (i : Nat) (hab : r a b) :
    (x.set i a).Alike r (y.set i b) := alike_ofFn hr fun j => related_ite hab (h j)

theorem Alike.scale (h : x.Alike r y) (hr : Congruence r) (a : K) : (x.scale a).Alike r (y.scale a) :=
  alike_ofFn hr.refl fun i => hr.mul (hr.refl a) (h i)

/-- Related products with zero are enough for what is cleared. -/
theorem Alike.cleared (h : x.Alike (Residue r) y) (hr : Congruence r) :
    (x.scale 0).Alike r (y.scale 0) := alike_ofFn hr.refl h

theorem Alike.addScaled (h : x.Alike r x') (h' : y.Alike r y') (hr : Congruence r) (a : K) :
    (Tuple.addScaled a x y).Alike r (Tuple.addScaled a x' y') :=
  alike_ofFn hr.refl fun i => hr.add (h' i) (hr.mul (hr.refl a) (h i))

theorem Alike.sub (h : x.Alike r x') (h' : y.Alike r y') (hr : Congruence r) :
    (x.sub y).Alike r (x'.sub y') := alike_ofFn hr.refl fun i => hr.sub (h i) (h' i)

end Tuple

namespace Grid

variable {G H : Grid K m n} {f g : Nat → Nat → K} {a b : K} {x x' : Tuple K n} {y y' : Tuple K m}

theorem Alike.refl (hr : ∀ a, r a a) (G : Grid K m n) : G.Alike r G := fun _ _ => hr _

theorem alike_ofFn (hr : ∀ a, r a a) (h : ∀ i j, r (f i j) (g i j)) :
    (ofFn m n f).Alike r (ofFn m n g) := by
  intro i j
  rcases Nat.lt_or_ge i m with hi | hi
  · rcases Nat.lt_or_ge j n with hj | hj
    · rw [ofFn_apply hi hj, ofFn_apply hi hj]
      exact h i j
    · rw [apply_of_column_le _ hj, apply_of_column_le _ hj]
      exact hr 0
  · rw [apply_of_row_le _ hi, apply_of_row_le _ hi]
    exact hr 0

theorem Alike.set (h : G.Alike r H) (hr : ∀ a, r a a) (i j : Nat) (hab : r a b) :
    (G.set i j a).Alike r (H.set i j b) := alike_ofFn hr fun i j => related_ite hab (h i j)

theorem Alike.cleared (h : G.Alike (Residue r) H) (hr : Congruence r) :
    (G.scale 0).Alike r (H.scale 0) := alike_ofFn hr.refl h

theorem alike_apply (hx : x.Alike r x') (hy : y.Alike (Residue r) y') (hr : Congruence r)
    (G : Grid K m n) (a : K) : (G.apply a x 0 y).Alike r (G.apply a x' 0 y') :=
  Tuple.alike_ofFn hr.refl fun i =>
    hr.add (hr.mul (hr.refl a) (hr.dot (fun _ => hr.refl _) hx)) (hy i)

theorem alike_combine (hy : y.Alike r y') {b : K} (hx : ∀ i, r (b * x i) (b * x' i)) (hr : Congruence r)
    (G : Grid K m n) (a : K) : (G.combine a y b x).Alike r (G.combine a y' b x') :=
  Tuple.alike_ofFn hr.refl fun i =>
    hr.accumulate (hx i) fun c => hr.mul (hr.mul (hr.refl a) (hy c)) (hr.refl _)

end Grid

namespace Dual

variable {y y' z z' : Dual K n m} {a b : K}

theorem Alike.mono (h : y.Alike r z) (hd : ∀ {a b}, r a b → d a b) : y.Alike d z :=
  ⟨h.bound.mono hd, h.row.mono hd⟩

theorem Alike.refl (hr : ∀ a, r a a) (y : Dual K n m) : y.Alike r y := ⟨.refl hr _, .refl hr _⟩

theorem Alike.get (h : y.Alike r z) (e : Entity n m) : r (y.get e) (z.get e) := by
  cases e with
  | bound i => exact h.bound i
  | constraint i => exact h.row i

theorem Alike.entry (h : y.Alike r z) (k : Nat) : r (y.entry k) (z.entry k) :=
  related_ite (h.bound k) (h.row (k - n))

theorem Alike.set (h : y.Alike r z) (hr : ∀ a, r a a) (e : Entity n m) (hab : r a b) :
    (y.set e a).Alike r (z.set e b) := by
  cases e with
  | bound i => exact ⟨h.bound.set hr i hab, h.row⟩
  | constraint i => exact ⟨h.bound, h.row.set hr i hab⟩

theorem Alike.scale (h : y.Alike r z) (hr : Congruence r) (a : K) : (y.scale a).Alike r (z.scale a) :=
  ⟨h.bound.scale hr a, h.row.scale hr a⟩

theorem Alike.cleared (h : y.Alike (Residue r) z) (hr : Congruence r) :
    (y.scale 0).Alike r (z.scale 0) := ⟨h.bound.cleared hr, h.row.cleared hr⟩

theorem Alike.addScaled (h : y.Alike r y') (h' : z.Alike r z') (hr : Congruence r) (a : K) :
    (Dual.addScaled a y z).Alike r (Dual.addScaled a y' z') :=
  ⟨h.bound.addScaled h'.bound hr a, h.row.addScaled h'.row hr a⟩

end Dual

namespace Data

variable {c c' e e' : Data K n m}

theorem Alike.refl (hr : ∀ a, r a a) (c : Data K n m) : c.Alike r c :=
  ⟨.refl hr _, .refl hr _, .refl hr _, .refl hr _, .refl hr _⟩

theorem Alike.sub (h : c.Alike r c') (h' : e.Alike r e') (hr : Congruence r) :
    (c.sub e).Alike r (c'.sub e') :=
  ⟨h.gradient.sub h'.gradient hr, h.lower.sub h'.lower hr, h.upper.sub h'.upper hr,
    h.rowLower.sub h'.rowLower hr, h.rowUpper.sub h'.rowUpper hr⟩

theorem Alike.addScaled (h : c.Alike r c') (h' : e.Alike r e') (hr : Congruence r) (a : K) :
    (Data.addScaled a c e).Alike r (Data.addScaled a c' e') :=
  ⟨h.gradient.addScaled h'.gradient hr a, h.lower.addScaled h'.lower hr a,
    h.upper.addScaled h'.upper hr a, h.rowLower.addScaled h'.rowLower hr a,
    h.rowUpper.addScaled h'.rowUpper hr a⟩

end Data

/-! ## Objective and optimality -/

theorem alike_objective (hr : Congruence r) (H : Grid K n n) (g : Tuple K n) {x y : Tuple K n}
    (h : x.Alike r y) : r (objective H g x) (objective H g y) :=
  hr.sum fun i => hr.mul (h i) (hr.add (hr.div (hr.dot (fun _ => hr.refl _) h) _) (hr.refl _))

namespace Optimality

theorem alike_sideViolation (hr : Congruence r) {a b c e : K} (h : r a b) (h' : r c e) (lower upper : K) :
    r (sideViolation a lower upper c) (sideViolation b lower upper e) := by
  have houtside : r (max (max (lower - a) (a - upper)) 0) (max (max (lower - b) (b - upper)) 0) :=
    hr.max (hr.max (hr.sub (hr.refl _) h) (hr.sub h (hr.refl _))) (hr.refl 0)
  unfold sideViolation
  simp only [hr.lt_iff (hr.refl 0) h', hr.lt_iff h' (hr.refl 0)]
  refine related_ite ?_ (related_ite ?_ houtside)
  · exact hr.max houtside
      (hr.mul h' (hr.min (hr.abs (hr.sub h (hr.refl _))) (hr.refl 1)))
  · exact hr.max houtside
      (hr.mul (hr.neg h') (hr.min (hr.abs (hr.sub (hr.refl _) h)) (hr.refl 1)))

theorem alike_violation (hr : Congruence r) (H : Grid K n n) (A : Grid K m n) (c : Data K n m)
    {x x' : Tuple K n} {y y' : Dual K n m} (hx : x.Alike r x') (hy : y.Alike r y') :
    r (violation H A c x y) (violation H A c x' y') := by
  have hfold : ∀ {k : Nat} {f g : (i : Nat) → i < k → K → K} {a b : K}, r a b →
      (∀ i hi a b, r a b → r (f i hi a) (g i hi b)) → r (k.fold f a) (k.fold g b) := by
    intro k f g a b hab h
    induction k with
    | zero => exact hab
    | succ k ih =>
      rw [Nat.fold_succ, Nat.fold_succ]
      exact h k _ _ _ (ih fun i hi => h i _)
  have hresidual : ∀ i, r (residual H A c x y i) (residual H A c x' y' i) := fun i =>
    hr.deduct (hr.sub (hr.add (hr.dot (fun _ => hr.refl _) hx) (hr.refl _)) (hy.bound i)) fun k =>
      hr.mul (hr.refl _) (hy.row k)
  refine hfold (hfold (hr.refl 0) fun i _ a b hab => ?_) fun i _ a b hab => ?_
  · exact hr.max (hr.max hab (hr.abs (hresidual i))) (alike_sideViolation hr (hx i) (hy.bound i) _ _)
  · exact hr.max hab (alike_sideViolation hr (hr.dot (fun _ => hr.refl _) hx) (hy.row i) _ _)

theorem accept_eq (hr : Congruence r) {a b : K} (h : r a b) (tolerance : K) :
    accept b tolerance = accept a tolerance := by
  unfold accept
  simp only [hr.le_iff h (hr.refl _)]

end Optimality

end ActiveSet
