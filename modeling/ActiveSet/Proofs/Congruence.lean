import ActiveSet.Solver.Parameters

/-!
# Congruences of an arithmetic

Rounding leaves it open which of two zeros a product with zero is. To say that this does not matter,
scalars are related that differ in the sign of a zero only. Such a relation is kept by all operations of an
arithmetic but one: whoever divides by a zero can tell its sign (`Scalar.Congruence`). A solver divides by
what has passed a comparison with a tolerance, and there related scalars are the same (`Scalar.Guarded`).

* `Scalar.Residue`: scalars whose products with zero are related.
* `Congruence.accumulate`, `Congruence.dot`, `Congruence.norm`: sums of related scalars.
-/

namespace ActiveSet.Scalar

variable {K : Type} [Scalar K]

/-- A scalar is a zero, of either sign where zeros have one. -/
def IsZero (a : K) : Prop := (a == 0) = true

instance (a : K) : Decidable (IsZero a) := inferInstanceAs (Decidable (_ = _))

/-- Two scalars are the same up to the sign of zeros. -/
def SameNumber (a b : K) : Prop := a = b ∨ IsZero a ∧ IsZero b

/-- Scalars that are related can be put in each other's place, other than as divisors. If they are not the
same, they are zeros, and what cuts them off at zero does not distinguish them. -/
structure Congruence (r : K → K → Prop) : Prop where
  refl : ∀ a, r a a
  add : ∀ {a b c d}, r a b → r c d → r (a + c) (b + d)
  sub : ∀ {a b c d}, r a b → r c d → r (a - c) (b - d)
  mul : ∀ {a b c d}, r a b → r c d → r (a * c) (b * d)
  div : ∀ {a b}, r a b → ∀ c, r (a / c) (b / c)
  neg : ∀ {a b}, r a b → r (-a) (-b)
  abs : ∀ {a b}, r a b → r (Scalar.abs a) (Scalar.abs b)
  sqrt : ∀ {a b}, r a b → r (Scalar.sqrt a) (Scalar.sqrt b)
  max : ∀ {a b c d}, r a b → r c d → r (max a c) (max b d)
  min : ∀ {a b c d}, r a b → r c d → r (min a c) (min b d)
  lt_iff : ∀ {a b c d}, r a b → r c d → (a < c ↔ b < d)
  le_iff : ∀ {a b c d}, r a b → r c d → (a ≤ c ↔ b ≤ d)
  beq_zero : ∀ {a b}, r a b → (a == 0) = (b == 0)
  eq_of_ne_zero : ∀ {a b}, r a b → ¬(a == 0) = true → a = b
  max_zero : ∀ {a b}, r a b → Max.max a 0 = Max.max b 0

/-- The products with zero are related. -/
def Residue (r : K → K → Prop) (a b : K) : Prop := r (0 * a) (0 * b)

/-- What is the same can be put in its own place. -/
theorem congruence_eq : Congruence (Eq : K → K → Prop) where
  refl _ := rfl
  add h h' := by rw [h, h']
  sub h h' := by rw [h, h']
  mul h h' := by rw [h, h']
  div h c := by rw [h]
  neg h := by rw [h]
  abs h := by rw [h]
  sqrt h := by rw [h]
  max h h' := by rw [h, h']
  min h h' := by rw [h, h']
  lt_iff h h' := by rw [h, h']
  le_iff h h' := by rw [h, h']
  beq_zero h := by rw [h]
  eq_of_ne_zero h _ := h
  max_zero h := by rw [h]

/-- A scalar counts as zero at all tolerances of a solver. -/
structure Negligible (p : Parameters K) (a : K) : Prop where
  abs_le : Scalar.abs a ≤ p.epsZero
  not_lt_neg : ¬a < -p.epsZero
  not_lt : ¬p.epsZero < a
  le_definite : a ≤ p.epsDefinite
  not_dependent_lt : ∀ v, ¬p.epsDependent * Max.max v 1 < a
  not_lt_neg_dependent : ∀ v, ¬a < -(p.epsDependent * Max.max v 1)

/-- The tolerances of a solver keep it from dividing by one of two related scalars that are not the same. -/
def Guarded (r : K → K → Prop) (p : Parameters K) : Prop := ∀ {a b}, r a b → a ≠ b → Negligible p a

theorem guarded_eq (p : Parameters K) : Guarded Eq p := fun h hne => absurd h hne

section Branches

omit [Scalar K]

variable {α β : Type} {R : α → β → Prop} {p q : Prop} [Decidable p] [Decidable q] {a c : α} {b d : β}

theorem related_ite_of (hpq : p ↔ q) (h : p → R a b) (h' : ¬p → R c d) :
    R (if p then a else c) (if q then b else d) := by
  by_cases hp : p
  · rw [if_pos hp, if_pos (hpq.1 hp)]
    exact h hp
  · rw [if_neg hp, if_neg fun hq => hp (hpq.2 hq)]
    exact h' hp

theorem related_ite (h : R a b) (h' : R c d) : R (if p then a else c) (if p then b else d) :=
  related_ite_of Iff.rfl (fun _ => h) fun _ => h'

end Branches

namespace Congruence

variable {r : K → K → Prop} (hr : Congruence r) {n : Nat} {a b : K} {f g f' g' : Nat → K}
include hr

theorem residue (h : r a b) : Residue r a b := hr.mul (hr.refl 0) h

/-! ## Sums -/

theorem accumulate (hab : r a b) (h : ∀ i, r (f i) (g i)) :
    r (accumulate a n f) (accumulate b n g) := by
  induction n with
  | zero => exact hab
  | succ n ih => exact hr.add ih (h n)

theorem deduct (hab : r a b) (h : ∀ i, r (f i) (g i)) : r (deduct a n f) (deduct b n g) := by
  induction n with
  | zero => exact hab
  | succ n ih => exact hr.sub ih (h n)

theorem sum (h : ∀ i, r (f i) (g i)) : r (sum n f) (sum n g) := hr.accumulate (hr.refl 0) h

theorem dot (h : ∀ i, r (f i) (g i)) (h' : ∀ i, r (f' i) (g' i)) : r (dot n f f') (dot n g g') :=
  hr.sum fun i => hr.mul (h i) (h' i)

theorem maxAbs (h : ∀ i, r (f i) (g i)) : r (maxAbs n f) (maxAbs n g) := by
  unfold ActiveSet.maxAbs
  induction n with
  | zero => exact hr.refl 0
  | succ n ih =>
    rw [Nat.fold_succ, Nat.fold_succ]
    exact hr.max ih (hr.abs (h n))

/-- The largest magnitude is divided by only if it is not zero. -/
theorem norm (h : ∀ i, r (f i) (g i)) : r (norm n f) (norm n g) := by
  have hmax : r (ActiveSet.maxAbs n f) (ActiveSet.maxAbs n g) := hr.maxAbs h
  unfold ActiveSet.norm
  dsimp only
  rw [← hr.beq_zero hmax]
  split
  · exact hmax
  · next hne =>
    rw [← hr.eq_of_ne_zero hmax hne]
    exact hr.mul (hr.refl _) (hr.sqrt (hr.sum fun i => hr.mul (hr.div (h i) _) (hr.div (h i) _)))

end Congruence

end ActiveSet.Scalar
