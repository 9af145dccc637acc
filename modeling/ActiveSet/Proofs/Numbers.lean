import ActiveSet.Proofs.Exact.Real
import ActiveSet.Scalar.Double
import Mathlib.Data.Prod.Lex

/-!
# Comparisons

The comparisons of double precision numbers are those of a linear order, with one exception: a value
that is not a number is not at most anything, not even at most itself. This is all that a proof needs to
know of a test or of a maximum that is computed, and it holds of exact arithmetic as well, where every
value is a number.

* `IsNumber`, `AtMost`: values that can be compared, and limits for those that can.
* `NumberOrder`: the laws, with `atMost_max` for the choice that a maximum makes.
* `Double.rank`: the place of a double precision number in a linear order.
-/

namespace ActiveSet

section Laws

variable {K : Type} [Scalar K]

/-- A value can be compared with itself, and so with all others that can. -/
def IsNumber (a : K) : Prop := a ≤ a

instance (a : K) : Decidable (IsNumber a) := inferInstanceAs (Decidable (a ≤ a))

/-- A value does not exceed a limit, unless it is not a number. -/
def AtMost (a limit : K) : Prop := IsNumber a → a ≤ limit

theorem IsNumber.le_iff {a limit : K} (ha : IsNumber a) : a ≤ limit ↔ AtMost a limit :=
  ⟨fun h _ => h, fun h => h ha⟩

/-- The comparisons of an arithmetic are those of a linear order of its numbers, and of two values of
which one is no number the other one counts as the larger one. -/
class NumberOrder (K : Type) [Scalar K] : Prop where
  le_trans : ∀ {a b c : K}, a ≤ b → b ≤ c → a ≤ c
  le_total : ∀ {a b : K}, IsNumber a → IsNumber b → a ≤ b ∨ b ≤ a
  isNumber_left : ∀ {a b : K}, a ≤ b → IsNumber a
  isNumber_right : ∀ {a b : K}, a ≤ b → IsNumber b
  lt_iff : ∀ {a b : K}, a < b ↔ a ≤ b ∧ ¬b ≤ a
  isNumber_zero : IsNumber (0 : K)
  max_of_not_left : ∀ {a b : K}, ¬IsNumber a → max a b = b
  max_of_not_right : ∀ {a b : K}, IsNumber a → ¬IsNumber b → max a b = a
  max_of_numbers : ∀ {a b : K}, IsNumber a → IsNumber b → max a b = if b < a then a else b

namespace NumberOrder

variable [NumberOrder K] {a b c limit : K}

theorem le_of_lt (h : a < b) : a ≤ b := (lt_iff.1 h).1

theorem not_le_of_lt (h : a < b) : ¬b ≤ a := (lt_iff.1 h).2

theorem lt_asymm (h : a < b) : ¬b < a := fun h' => not_le_of_lt h (le_of_lt h')

theorem lt_of_lt_of_le (hab : a < b) (hbc : b ≤ c) : a < c :=
  lt_iff.2 ⟨le_trans (le_of_lt hab) hbc, fun hca => not_le_of_lt hab (le_trans hbc hca)⟩

theorem lt_of_le_of_lt (hab : a ≤ b) (hbc : b < c) : a < c :=
  lt_iff.2 ⟨le_trans hab (le_of_lt hbc), fun hca => not_le_of_lt hbc (le_trans hca hab)⟩

theorem lt_trans (hab : a < b) (hbc : b < c) : a < c := lt_of_lt_of_le hab (le_of_lt hbc)

theorem le_of_not_lt (ha : IsNumber a) (hb : IsNumber b) (h : ¬b < a) : a ≤ b := by
  by_contra hab
  exact h (lt_iff.2 ⟨(le_total ha hb).resolve_left hab, hab⟩)

/-- A maximum is a number unless both of its parts are none. -/
theorem isNumber_max : IsNumber (max a b) ↔ IsNumber a ∨ IsNumber b := by
  by_cases ha : IsNumber a
  · by_cases hb : IsNumber b
    · rw [max_of_numbers ha hb]
      split <;> simp only [ha, hb, or_self]
    · simp only [max_of_not_right ha hb, ha, true_or]
  · simp only [max_of_not_left ha, ha, false_or]

/-- A maximum does not exceed a limit if its parts do not. -/
theorem atMost_max : AtMost (max a b) limit ↔ AtMost a limit ∧ AtMost b limit := by
  unfold AtMost
  by_cases ha : IsNumber a
  · by_cases hb : IsNumber b
    · rw [isNumber_max, max_of_numbers ha hb]
      simp only [ha, hb, or_self, true_implies]
      split
      · next hlt => exact ⟨fun h => ⟨h, le_trans (le_of_lt hlt) h⟩, And.left⟩
      · next hnot => exact ⟨fun h => ⟨le_trans (le_of_not_lt ha hb hnot) h, h⟩, And.right⟩
    · simp only [max_of_not_right ha hb, hb, false_implies, and_true]
  · simp only [max_of_not_left ha, ha, false_implies, true_and]

theorem atMost_zero : AtMost 0 limit ↔ 0 ≤ limit := ⟨fun h => h isNumber_zero, fun h _ => h⟩

/-- A number is not larger than a maximum with it, even with what is not a number. -/
theorem le_max_right (hb : IsNumber b) : b ≤ max a b := by
  by_cases ha : IsNumber a
  · rw [max_of_numbers ha hb]
    split
    · next hlt => exact le_of_lt hlt
    · exact hb
  · rw [max_of_not_left ha]
    exact hb

/-- What is cut off at zero is not negative. -/
theorem max_zero_nonneg : 0 ≤ max a 0 := le_max_right isNumber_zero

end NumberOrder

end Laws

-- ---------------------------------------------------------------------------
-- Exact arithmetic
-- ---------------------------------------------------------------------------

theorem atMost_real {a limit : ℝ} : AtMost a limit ↔ a ≤ limit := ⟨fun h => h (le_refl a), fun h _ => h⟩

instance numberOrderReal : NumberOrder ℝ where
  le_trans hab hbc := hab.trans hbc
  le_total {a b} _ _ := le_total a b
  isNumber_left _ := le_refl _
  isNumber_right _ := le_refl _
  lt_iff := lt_iff_le_not_ge
  isNumber_zero := le_refl _
  max_of_not_left h := absurd (le_refl _) h
  max_of_not_right _ h := absurd (le_refl _) h
  max_of_numbers {a b} _ _ := by
    split
    · next hlt => exact max_eq_left hlt.le
    · next hnot => exact max_eq_right (not_lt.1 hnot)

-- ---------------------------------------------------------------------------
-- Double precision
-- ---------------------------------------------------------------------------

namespace Double

open Float.Model

/-- The place of an unpacked number in a linear order: by its sign and whether it is infinite, then by
its exponent, and then by its mantissa. -/
def place : UnpackedFloat → Option (ℤ ×ₗ ℤ ×ₗ ℤ)
  | .notANumber => none
  | .infinity .negative => some (toLex (-2, toLex (0, 0)))
  | .finite .negative m e _ => some (toLex (-1, toLex (-e, -m)))
  | .zero _ => some (toLex (0, toLex (0, 0)))
  | .finite .positive m e _ => some (toLex (1, toLex (e, m)))
  | .infinity .positive => some (toLex (2, toLex (0, 0)))

/-- Comparisons that agree both ways have the same result. -/
theorem compare_of_lt_iff {α β : Type} [LinearOrder α] [LinearOrder β] {a b : α} {c d : β}
    (hlt : a < b ↔ c < d) (hgt : b < a ↔ d < c) : compare a b = compare c d := by
  rcases lt_trichotomy c d with h | h | h
  · rw [compare_lt_iff_lt.2 h, compare_lt_iff_lt.2 (hlt.2 h)]
  · have hab : a = b := by
      rw [h] at hlt hgt
      exact le_antisymm (not_lt.1 (mt hgt.1 (lt_irrefl _))) (not_lt.1 (mt hlt.1 (lt_irrefl _)))
    rw [compare_eq_iff_eq.2 h, compare_eq_iff_eq.2 hab]
  · rw [compare_gt_iff_gt.2 h, compare_gt_iff_gt.2 (hgt.2 h)]

theorem compare_eq_place (a b : UnpackedFloat) :
    a.compare b = (place a).bind fun p => (place b).map fun q => compare p q := by
  rcases a with (_ | _) | _ | _ | ⟨_ | _, m, e, _⟩ <;>
    rcases b with (_ | _) | _ | _ | ⟨_ | _, m', e', _⟩
  -- only two finite numbers of one sign are compared by their parts
  case finite.negative.finite.negative =>
    have he : compare (-e) (-e') = compare e' e := compare_of_lt_iff neg_lt_neg_iff neg_lt_neg_iff
    have hm : compare (-(m : ℤ)) (-m') = compare m' m := compare_of_lt_iff (by omega) (by omega)
    show some ((compare e e').then (compare m m')).swap =
      some ((compare (-e) (-e')).then (compare (-(m : ℤ)) (-m')))
    rw [he, hm, Ordering.swap_then, ← Std.OrientedOrd.eq_swap, ← Std.OrientedOrd.eq_swap]
  case finite.positive.finite.positive =>
    have hm : compare (m : ℤ) m' = compare m m' := compare_of_lt_iff (by omega) (by omega)
    show some ((compare e e').then (compare m m')) =
      some ((compare e e').then (compare (m : ℤ) m'))
    rw [hm]
  all_goals rfl

/-- The place of a number; what is not a number has none. -/
def rank (a : Float) : Option (ℤ ×ₗ ℤ ×ₗ ℤ) := place a.toModel.unpack

theorem lt_iff_rank {a b : Float} : a < b ↔ ∃ p ∈ rank a, ∃ q ∈ rank b, p < q := by
  have hcompare : a < b ↔ a.toModel.unpack.compare b.toModel.unpack = some .lt := by
    show decide (a.toModel < b.toModel) = true ↔ _
    rw [decide_eq_true_iff]
    exact beq_iff_eq
  rw [hcompare, compare_eq_place]
  change ((rank a).bind fun p => (rank b).map fun q => compare p q) = _ ↔ _
  cases rank a <;> cases rank b <;> simp [compare_lt_iff_lt]

theorem le_iff_rank {a b : Float} : a ≤ b ↔ ∃ p ∈ rank a, ∃ q ∈ rank b, p ≤ q := by
  have hcompare : a ≤ b ↔ (a.toModel.unpack.compare b.toModel.unpack).any (·.isLE) = true := by
    show decide (a.toModel ≤ b.toModel) = true ↔ _
    rw [decide_eq_true_iff]
    rfl
  rw [hcompare, compare_eq_place]
  change ((rank a).bind fun p => (rank b).map fun q => compare p q).any _ = true ↔ _
  cases rank a <;> cases rank b <;> simp [Ordering.isLE_iff_ne_gt, compare_gt_iff_gt]

theorem isNumber_iff {a : Float} : IsNumber a ↔ ∃ p, rank a = some p := by
  rw [IsNumber, le_iff_rank]
  exact ⟨fun ⟨p, hp, _⟩ => ⟨p, hp⟩, fun ⟨p, hp⟩ => ⟨p, hp, p, hp, le_refl p⟩⟩

theorem isNaN_iff {a : Float} : a.isNaN = true ↔ ¬IsNumber a := by
  rw [isNumber_iff]
  show a.toModel.unpack.isNaN = true ↔ ¬∃ p, place a.toModel.unpack = some p
  rcases a.toModel.unpack with (_ | _) | _ | _ | ⟨_ | _, m, e, _⟩
  case notANumber => exact iff_of_true rfl nofun
  all_goals exact iff_of_false nofun (not_not_intro ⟨_, rfl⟩)

end Double

open Double in
instance numberOrderFloat : NumberOrder Float where
  le_trans hab hbc := by
    rw [le_iff_rank] at hab hbc ⊢
    obtain ⟨p, hp, q, hq, hpq⟩ := hab
    obtain ⟨q', hq', r, hr, hqr⟩ := hbc
    cases Option.mem_unique hq hq'
    exact ⟨p, hp, r, hr, hpq.trans hqr⟩
  le_total ha hb := by
    obtain ⟨p, hp⟩ := isNumber_iff.1 ha
    obtain ⟨q, hq⟩ := isNumber_iff.1 hb
    rw [le_iff_rank, le_iff_rank]
    exact (le_total p q).imp (fun h => ⟨p, hp, q, hq, h⟩) fun h => ⟨q, hq, p, hp, h⟩
  isNumber_left h := by
    obtain ⟨p, hp, -⟩ := le_iff_rank.1 h
    exact isNumber_iff.2 ⟨p, hp⟩
  isNumber_right h := by
    obtain ⟨-, -, q, hq, -⟩ := le_iff_rank.1 h
    exact isNumber_iff.2 ⟨q, hq⟩
  lt_iff {a b} := by
    rw [lt_iff_rank, le_iff_rank, le_iff_rank]
    constructor
    · rintro ⟨p, hp, q, hq, hpq⟩
      refine ⟨⟨p, hp, q, hq, hpq.le⟩, fun ⟨q', hq', p', hp', hqp⟩ => ?_⟩
      cases Option.mem_unique hp hp'
      cases Option.mem_unique hq hq'
      exact hpq.not_ge hqp
    · rintro ⟨⟨p, hp, q, hq, -⟩, hnot⟩
      exact ⟨p, hp, q, hq, not_le.1 fun hqp => hnot ⟨q, hq, p, hp, hqp⟩⟩
  isNumber_zero := by decide +kernel
  max_of_not_left h := if_pos (isNaN_iff.2 h)
  max_of_not_right ha hb := (if_neg (mt isNaN_iff.1 (not_not.2 ha))).trans (if_pos (isNaN_iff.2 hb))
  max_of_numbers ha hb := (if_neg (mt isNaN_iff.1 (not_not.2 ha))).trans
    (if_neg (mt isNaN_iff.1 (not_not.2 hb)))

end ActiveSet
