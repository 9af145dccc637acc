import Mathlib
import ActiveSet.Proofs.Numbers
import ActiveSet.Solver.Core

/-!
# Clamped limits

A limit is stored between the two infinities of a solver. A maximum and a minimum see to that, and both
of them pass over what is not a number, so that such a limit becomes the lower infinity. Two limits that
are in order before they are clamped are in order afterwards, with one exception: the upper one is not a
number, and the lower one exceeds the lower infinity (`clamp_le_clamp_iff`).

The infinity has to be positive, and its opposite must not be. For double precision numbers this is a
matter of their bits: a number is unpacked, its sign is changed, and it is packed again.

* `ClampOrder`: what is needed of an arithmetic, in addition to the laws of its comparisons.
* `Double.nonPositive_neg`: the opposite of a positive number.
* `Core.clamp_mem`, `Core.clamp_le_clamp_iff`: where clamped limits lie, and when they are in order.
-/

namespace ActiveSet

/-- In addition to the laws of the comparisons, a minimum of two numbers is one of them, and the opposite
of a positive number is not positive. -/
class ClampOrder (K : Type) [Scalar K] : Prop extends NumberOrder K where
  min_of_numbers : ∀ {a b : K}, IsNumber a → IsNumber b → min a b = if a < b then a else b
  neg_nonpos : ∀ {a : K}, 0 < a → -a ≤ 0

-- ---------------------------------------------------------------------------
-- Exact arithmetic
-- ---------------------------------------------------------------------------

instance clampOrderReal : ClampOrder ℝ where
  min_of_numbers {a b} _ _ := by
    split
    · next hlt => exact min_eq_left hlt.le
    · next hnot => exact min_eq_right (not_lt.1 hnot)
  neg_nonpos h := neg_nonpos.2 h.le

-- ---------------------------------------------------------------------------
-- Double precision
-- ---------------------------------------------------------------------------

namespace Double

open Float.Model
open Float.Model.UnpackedFloat (Sign packComponents unpackMantissa_packComponents
  unpackExponent_packComponents unpackSign_packComponents)

/-- An unpacked value is a number that is not positive. -/
def NonPositive (f : UnpackedFloat) : Prop := ∃ p ∈ place f, p ≤ toLex (0, toLex (0, 0))

theorem nonPositive_infinity : NonPositive (.infinity .negative) := ⟨_, rfl, by decide⟩

theorem nonPositive_zero (s : Sign) : NonPositive (.zero s) := ⟨_, rfl, le_rfl⟩

theorem nonPositive_finite (m : Nat) (e : Int) (h : 0 < m) : NonPositive (.finite .negative m e h) :=
  ⟨_, rfl, Prod.Lex.toLex_le_toLex.2 (.inl neg_one_lt_zero)⟩

/-- With the sign bit set, all bits that do not stand for something else than a number do so for one that
is not positive. -/
theorem nonPositive_packComponents {e : BitVec 11} {m : BitVec 52} (h : e = -1#11 → m = 0#52) :
    NonPositive (.unpack .binary64 (packComponents .binary64 .negative e m)) := by
  rw [UnpackedFloat.unpack]
  simp only [unpackMantissa_packComponents, unpackExponent_packComponents, unpackSign_packComponents,
    Sign.ofBitVec_toBitVec]
  by_cases he : e = -1#11
  · -- an exponent of ones stands for an infinity, or for what is not a number
    rw [if_pos he, if_pos (h he)]
    exact nonPositive_infinity
  · rw [if_neg he]
    split
    · split
      · exact nonPositive_zero _
      · exact nonPositive_finite _ _ _
    · exact nonPositive_finite _ _ _

/-- A negative number is packed as infinite, as normal or as subnormal. -/
theorem nonPositive_pack (m : Nat) (e : Int) (h : 0 < m) :
    NonPositive (.unpack .binary64 (UnpackedFloat.pack .binary64 (.finite .negative m e h))) := by
  rw [UnpackedFloat.pack]
  dsimp only
  split
  · exact nonPositive_packComponents fun _ => rfl
  · next hsmall =>
    split
    · -- the exponent has been found small enough for its eleven bits not to be ones
      refine nonPositive_packComponents fun heq => absurd (congrArg BitVec.toNat heq) ?_
      have hlt := Nat.lt_of_not_le hsmall
      change _ + 1 < 2048 at hlt
      rw [BitVec.toNat_ofNat, Nat.mod_eq_of_lt (by omega)]
      change _ ≠ 2047
      omega
    · exact nonPositive_packComponents fun heq => absurd heq (by decide)

theorem unpack_neg (a : Float) : (-a).toModel.unpack =
    .unpack .binary64 (UnpackedFloat.pack .binary64 a.toModel.unpack.neg) := rfl

theorem nonPositive_neg {a : Float} {p : ℤ ×ₗ ℤ ×ₗ ℤ} (hp : p ∈ rank a)
    (hpos : toLex (0, toLex (0, 0)) < p) : NonPositive (-a).toModel.unpack := by
  rw [unpack_neg]
  change p ∈ place a.toModel.unpack at hp
  -- only positive numbers have a rank above that of zero
  cases ha : a.toModel.unpack with
  | notANumber =>
    rw [ha] at hp
    cases hp
  | zero s =>
    rw [ha] at hp
    cases hp
    exact absurd hpos (lt_irrefl _)
  | infinity s =>
    cases s with
    | positive => exact nonPositive_packComponents fun _ => rfl
    | negative =>
      rw [ha] at hp
      cases hp
      exact absurd hpos (by decide)
  | finite s m e hm =>
    cases s with
    | positive => exact nonPositive_pack m e hm
    | negative =>
      rw [ha] at hp
      cases hp
      exact absurd hpos (not_lt.2 (Prod.Lex.toLex_le_toLex.2 (.inl neg_one_lt_zero)))

end Double

open Double in
instance clampOrderFloat : ClampOrder Float where
  min_of_numbers ha hb := (if_neg (mt isNaN_iff.1 (not_not.2 ha))).trans
    (if_neg (mt isNaN_iff.1 (not_not.2 hb)))
  neg_nonpos h := by
    have hzero : rank (0 : Float) = some (toLex (0, toLex (0, 0))) := by decide +kernel
    obtain ⟨z, hz, p, hp, hpos⟩ := lt_iff_rank.1 h
    obtain rfl := Option.mem_unique hzero hz
    obtain ⟨q, hq, hle⟩ := nonPositive_neg hp hpos
    exact le_iff_rank.2 ⟨q, hq, _, hzero, hle⟩

-- ---------------------------------------------------------------------------
-- Clamping
-- ---------------------------------------------------------------------------

namespace Core

open NumberOrder ClampOrder

variable {K : Type} [Scalar K] [ClampOrder K] {infinity a l u : K}

theorem neg_infinity_lt (h : 0 < infinity) : -infinity < infinity := lt_of_le_of_lt (neg_nonpos h) h

/-- A limit that is not a number, or that does not exceed the lower infinity, is stored as the latter. -/
theorem clamp_of_not_lt (h : 0 < infinity) (ha : ¬-infinity < a) : clamp infinity a = -infinity := by
  have hlow : IsNumber (-infinity) := isNumber_left (neg_nonpos h)
  have hmax : max a (-infinity) = -infinity := by
    by_cases hnumber : IsNumber a
    · rw [max_of_numbers hnumber hlow, if_neg ha]
    · exact max_of_not_left hnumber
  rw [clamp, hmax, min_of_numbers hlow (isNumber_right (le_of_lt h)), if_pos (neg_infinity_lt h)]

/-- Other limits are stored as they are, up to the upper infinity. -/
theorem clamp_of_lt (h : 0 < infinity) (ha : -infinity < a) :
    clamp infinity a = if a < infinity then a else infinity := by
  have hnumber : IsNumber a := isNumber_right (le_of_lt ha)
  rw [clamp, max_of_numbers hnumber (isNumber_left (neg_nonpos h)), if_pos ha,
    min_of_numbers hnumber (isNumber_right (le_of_lt h))]

/-- A stored limit lies between the two infinities. -/
theorem clamp_mem (h : 0 < infinity) (a : K) :
    -infinity ≤ clamp infinity a ∧ clamp infinity a ≤ infinity := by
  have hinfinity : IsNumber infinity := isNumber_right (le_of_lt h)
  by_cases ha : -infinity < a
  · rw [clamp_of_lt h ha]
    split
    · next hlt => exact ⟨le_of_lt ha, le_of_lt hlt⟩
    · exact ⟨le_of_lt (neg_infinity_lt h), hinfinity⟩
  · rw [clamp_of_not_lt h ha]
    exact ⟨isNumber_left (neg_nonpos h), le_of_lt (neg_infinity_lt h)⟩

/-- Limits that do not cross are stored in order, unless the upper one is not a number and the lower one
does exceed the lower infinity. -/
theorem clamp_le_clamp_iff (h : 0 < infinity) (hcross : ¬u < l) :
    clamp infinity l ≤ clamp infinity u ↔ IsNumber u ∨ ¬-infinity < l := by
  by_cases hl : -infinity < l
  · have hnumber : IsNumber l := isNumber_right (le_of_lt hl)
    have hinfinity : IsNumber infinity := isNumber_right (le_of_lt h)
    simp only [hl, not_true_eq_false, or_false]
    constructor
    · -- a missing upper limit becomes the lower infinity, and the lower limit is stored above it
      intro hle
      by_contra hu
      rw [clamp_of_lt h hl, clamp_of_not_lt h fun hlt => hu (isNumber_right (le_of_lt hlt))] at hle
      split at hle
      · exact not_le_of_lt hl hle
      · exact not_le_of_lt (neg_infinity_lt h) hle
    · intro hu
      have hlu : l ≤ u := le_of_not_lt hnumber hu hcross
      rw [clamp_of_lt h hl, clamp_of_lt h (lt_of_lt_of_le hl hlu)]
      by_cases huhigh : u < infinity
      · rw [if_pos huhigh, if_pos (lt_of_le_of_lt hlu huhigh)]
        exact hlu
      · rw [if_neg huhigh]
        split
        · next hlhigh => exact le_of_lt hlhigh
        · exact hinfinity
  · rw [clamp_of_not_lt h hl]
    exact iff_of_true (clamp_mem h u).1 (.inr hl)

end Core

end ActiveSet
