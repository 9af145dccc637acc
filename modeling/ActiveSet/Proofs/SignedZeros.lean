import ActiveSet.Proofs.Clamping
import ActiveSet.Proofs.Congruence

/-!
# The sign of a zero

A product of a negative double precision number with zero is the negative zero. It compares as the positive
one does, but it is another number. Numbers that are the same up to the sign of zeros can be put in each
other's place, other than as divisors (`Double.congruence`), and a solver whose tolerances are not negative
does not divide by a zero (`Double.guarded`).

An operation on numbers unpacks them, and packs its result again. So each is a matter of a few cases of
unpacked values, and of what packing does to a zero and to a sign.
-/

namespace ActiveSet.Double

open Scalar Float.Model
open Float.Model.UnpackedFloat (Sign packComponents unpackMantissa_packComponents
  unpackExponent_packComponents unpackSign_packComponents)

/-! ## Zeros -/

/-- An unpacked value is a zero of either sign. -/
def IsSignedZero (f : UnpackedFloat) : Prop := ∃ s, f = .zero s

/-- Two unpacked values are the same up to the sign of zeros. -/
def SameUnpacked (f g : UnpackedFloat) : Prop := f = g ∨ IsSignedZero f ∧ IsSignedZero g

theorem rank_zero : rank 0 = some (toLex (0, toLex (0, 0))) := by decide +kernel

theorem place_eq_zero_iff {f : UnpackedFloat} :
    place f = some (toLex (0, toLex (0, 0))) ↔ IsSignedZero f := by
  constructor
  · intro h
    rcases f with (_ | _) | _ | s | ⟨_ | _, m, e, _⟩
    case zero => exact ⟨s, rfl⟩
    all_goals exact absurd h (by simp [place])
  · rintro ⟨s, rfl⟩
    rfl

theorem isZero_iff {a : Float} : IsZero a ↔ IsSignedZero a.toModel.unpack := by
  have hcompare : IsZero a ↔
      (a.toModel.unpack.compare (0 : Float).toModel.unpack == some .eq) = true := Iff.rfl
  rw [hcompare, beq_iff_eq, compare_eq_place, show place (0 : Float).toModel.unpack = _ from rank_zero,
    ← place_eq_zero_iff]
  cases place a.toModel.unpack <;> simp [compare_eq_iff_eq]

theorem rank_of_isZero {a : Float} (h : IsZero a) : rank a = some (toLex (0, toLex (0, 0))) :=
  place_eq_zero_iff.2 (isZero_iff.1 h)

theorem SameUnpacked.of_same {a b : Float} (h : SameNumber a b) :
    SameUnpacked a.toModel.unpack b.toModel.unpack := by
  obtain rfl | ⟨ha, hb⟩ := h
  · exact .inl rfl
  · exact .inr ⟨isZero_iff.1 ha, isZero_iff.1 hb⟩

theorem isZero_pack (s : Sign) : IsZero (Float.ofModel (pack (.zero s))) := by
  cases s <;> decide +kernel

theorem SameUnpacked.pack {f g : UnpackedFloat} (h : SameUnpacked f g) :
    SameNumber (Float.ofModel (pack f)) (.ofModel (pack g)) := by
  obtain rfl | ⟨⟨s, rfl⟩, t, rfl⟩ := h
  · exact .inl rfl
  · exact .inr ⟨isZero_pack s, isZero_pack t⟩

/-! ## Operations -/

namespace SameUnpacked

variable {f f' g g' h : UnpackedFloat}

theorem trans (hfg : SameUnpacked f g) (hgh : SameUnpacked g h) : SameUnpacked f h := by
  obtain rfl | ⟨hf, hg⟩ := hfg
  · exact hgh
  · obtain rfl | ⟨-, hh⟩ := hgh
    · exact .inr ⟨hf, hg⟩
    · exact .inr ⟨hf, hh⟩

theorem zeros (s t : Sign) : SameUnpacked (.zero s) (.zero t) := .inr ⟨⟨s, rfl⟩, t, rfl⟩

theorem unary (hf : SameUnpacked f f') (op : UnpackedFloat → UnpackedFloat)
    (zeros : ∀ s t, SameUnpacked (op (.zero s)) (op (.zero t))) : SameUnpacked (op f) (op f') := by
  obtain rfl | ⟨⟨s, rfl⟩, t, rfl⟩ := hf
  · exact .inl rfl
  · exact zeros s t

/-- An operation may be looked at for one operand after the other. -/
theorem binary {op : UnpackedFloat → UnpackedFloat → UnpackedFloat}
    (left : ∀ s t g, SameUnpacked (op (.zero s) g) (op (.zero t) g))
    (right : ∀ f s t, SameUnpacked (op f (.zero s)) (op f (.zero t)))
    (hf : SameUnpacked f f') (hg : SameUnpacked g g') : SameUnpacked (op f g) (op f' g') := by
  have hleft : SameUnpacked (op f g) (op f' g) := hf.unary (op · g) fun s t => left s t g
  have hright : SameUnpacked (op f' g) (op f' g') := hg.unary (op f') (right f')
  exact hleft.trans hright

theorem add_left (s t : Sign) (g : UnpackedFloat) :
    SameUnpacked (.add .binary64 (.zero s) g) (.add .binary64 (.zero t) g) := by
  rcases g with _ | _ | u | _
  case zero => cases s <;> cases t <;> cases u <;> exact .inr ⟨⟨_, rfl⟩, _, rfl⟩
  all_goals exact .inl rfl

theorem add_right (f : UnpackedFloat) (s t : Sign) :
    SameUnpacked (f.add .binary64 (.zero s)) (f.add .binary64 (.zero t)) := by
  rcases f with _ | _ | u | _
  case zero => cases s <;> cases t <;> cases u <;> exact .inr ⟨⟨_, rfl⟩, _, rfl⟩
  all_goals exact .inl rfl

theorem sub_left (s t : Sign) (g : UnpackedFloat) :
    SameUnpacked (.sub .binary64 (.zero s) g) (.sub .binary64 (.zero t) g) := by
  rcases g with _ | _ | u | _
  case zero => cases s <;> cases t <;> cases u <;> exact .inr ⟨⟨_, rfl⟩, _, rfl⟩
  all_goals exact .inl rfl

theorem sub_right (f : UnpackedFloat) (s t : Sign) :
    SameUnpacked (f.sub .binary64 (.zero s)) (f.sub .binary64 (.zero t)) := by
  rcases f with _ | _ | u | _
  case zero => cases s <;> cases t <;> cases u <;> exact .inr ⟨⟨_, rfl⟩, _, rfl⟩
  all_goals exact .inl rfl

/-- A product with a zero is a zero, or no number. -/
theorem mul_left (s t : Sign) (g : UnpackedFloat) :
    SameUnpacked (.mul .binary64 (.zero s) g) (.mul .binary64 (.zero t) g) := by
  rcases g with _ | _ | _ | _
  case zero | finite => exact .inr ⟨⟨_, rfl⟩, _, rfl⟩
  all_goals exact .inl rfl

theorem mul_right (f : UnpackedFloat) (s t : Sign) :
    SameUnpacked (f.mul .binary64 (.zero s)) (f.mul .binary64 (.zero t)) := by
  rcases f with _ | _ | _ | _
  case zero | finite => exact .inr ⟨⟨_, rfl⟩, _, rfl⟩
  all_goals exact .inl rfl

theorem div_left (s t : Sign) (g : UnpackedFloat) :
    SameUnpacked (.div .binary64 (.zero s) g) (.div .binary64 (.zero t) g) := by
  rcases g with _ | _ | _ | _
  case infinity | finite => exact .inr ⟨⟨_, rfl⟩, _, rfl⟩
  all_goals exact .inl rfl

end SameUnpacked

/-! ## Comparisons -/

section Comparisons

variable {a b c d : Float}

theorem rank_eq (h : SameNumber a b) : rank a = rank b := by
  obtain rfl | ⟨ha, hb⟩ := h
  · rfl
  · rw [rank_of_isZero ha, rank_of_isZero hb]

theorem lt_iff (hab : SameNumber a b) (hcd : SameNumber c d) : a < c ↔ b < d := by
  rw [lt_iff_rank, lt_iff_rank, rank_eq hab, rank_eq hcd]

theorem le_iff (hab : SameNumber a b) (hcd : SameNumber c d) : a ≤ c ↔ b ≤ d := by
  rw [le_iff_rank, le_iff_rank, rank_eq hab, rank_eq hcd]

theorem isNaN_eq (h : SameNumber a b) : a.isNaN = b.isNaN := by
  rw [Bool.eq_iff_iff, isNaN_iff, isNaN_iff, IsNumber, IsNumber, le_iff h h]

theorem same_larger (hab : SameNumber a b) (hcd : SameNumber c d) :
    SameNumber (larger a c) (larger b d) := by
  unfold larger
  rw [isNaN_eq hab, isNaN_eq hcd]
  exact related_ite hcd (related_ite hab (related_ite_of (lt_iff hcd hab) (fun _ => hab) fun _ => hcd))

theorem same_smaller (hab : SameNumber a b) (hcd : SameNumber c d) :
    SameNumber (smaller a c) (smaller b d) := by
  unfold smaller
  rw [isNaN_eq hab, isNaN_eq hcd]
  exact related_ite hcd (related_ite hab (related_ite_of (lt_iff hab hcd) (fun _ => hab) fun _ => hcd))

/-- A zero that is cut off at zero becomes the positive one. -/
theorem larger_of_isZero (h : IsZero a) : larger a 0 = 0 := by
  have hnot : ¬0 < a := by
    rw [lt_iff_rank, rank_of_isZero h, rank_zero]
    rintro ⟨p, hp, q, hq, hlt⟩
    cases hp
    cases hq
    exact lt_irrefl _ hlt
  exact (NumberOrder.max_of_numbers (isNumber_iff.2 ⟨_, rank_of_isZero h⟩)
    NumberOrder.isNumber_zero).trans (if_neg hnot)

end Comparisons

/-- Numbers that are the same up to the sign of zeros can be put in each other's place, other than as
divisors. -/
theorem congruence : Congruence (SameNumber : Float → Float → Prop) where
  refl _ := .inl rfl
  add h h' := (SameUnpacked.binary .add_left .add_right (.of_same h) (.of_same h')).pack
  sub h h' := (SameUnpacked.binary .sub_left .sub_right (.of_same h) (.of_same h')).pack
  mul h h' := (SameUnpacked.binary .mul_left .mul_right (.of_same h) (.of_same h')).pack
  div h c := ((SameUnpacked.of_same h).unary (·.div .binary64 c.toModel.unpack) fun s t =>
    .div_left s t _).pack
  neg h := ((SameUnpacked.of_same h).unary .neg fun s t => .zeros (-s) (-t)).pack
  abs h := ((SameUnpacked.of_same h).unary .abs fun _ _ => .inl rfl).pack
  sqrt h := ((SameUnpacked.of_same h).unary (.sqrt .binary64) .zeros).pack
  max := same_larger
  min := same_smaller
  lt_iff := lt_iff
  le_iff := le_iff
  beq_zero h := by
    obtain rfl | ⟨ha, hb⟩ := h
    · rfl
    · exact ha.trans hb.symm
  eq_of_ne_zero h hne := h.resolve_right fun hzero => hne hzero.1
  max_zero h := by
    obtain rfl | ⟨ha, hb⟩ := h
    · rfl
    · exact (larger_of_isZero ha).trans (larger_of_isZero hb).symm

/-- The product of a finite number with zero is a zero. An infinity has none, and neither has what is not a
number. -/
theorem isZero_zero_mul_iff {a : Float} : IsZero (0 * a) ↔ a.isFinite = true := by
  have hproduct : (0 * a : Float) = .ofModel (pack (.mul .binary64 (.zero .positive) a.toModel.unpack)) :=
    rfl
  have hnan : ¬IsZero (Float.ofModel (pack .notANumber)) := by decide +kernel
  rw [hproduct]
  change _ ↔ a.toModel.unpack.isFinite = true
  rcases a.toModel.unpack with _ | _ | _ | _
  case zero | finite => exact iff_of_true (isZero_pack _) rfl
  case infinity | notANumber => exact iff_of_false hnan nofun

theorem residue_zero {a : Float} (h : a.isFinite = true) : Residue SameNumber a 0 :=
  .inr ⟨isZero_zero_mul_iff.2 h, isZero_zero_mul_iff.2 rfl⟩

/-! ## Tolerances -/

/-- An unpacked value has a sign, or neither sign contradicts it. -/
def HasSign (s : Sign) : UnpackedFloat → Prop
  | .notANumber | .zero _ => True
  | .infinity t | .finite t _ _ _ => t = s

theorem hasSign_packComponents (s : Sign) (e : BitVec 11) (m : BitVec 52) :
    HasSign s (.unpack .binary64 (packComponents .binary64 s e m)) := by
  rw [UnpackedFloat.unpack]
  simp only [unpackMantissa_packComponents, unpackExponent_packComponents, unpackSign_packComponents,
    Sign.ofBitVec_toBitVec]
  split
  · split
    · rfl
    · trivial
  · split
    · split
      · trivial
      · rfl
    · rfl

/-- Packing keeps a sign. -/
theorem HasSign.pack {s : Sign} {f : UnpackedFloat} (h : HasSign s f) :
    HasSign s (Float.ofModel (pack f)).toModel.unpack := by
  cases f with
  | notANumber => trivial
  | zero t => cases t <;> trivial
  | infinity t =>
    obtain rfl : t = s := h
    exact hasSign_packComponents _ _ _
  | finite t m e hm =>
    obtain rfl : t = s := h
    change HasSign t (.unpack .binary64 (UnpackedFloat.pack .binary64 (.finite t m e hm)))
    rw [UnpackedFloat.pack]
    dsimp only
    split
    · exact hasSign_packComponents _ _ _
    · split <;> exact hasSign_packComponents _ _ _

theorem HasSign.neg {f : UnpackedFloat} (h : HasSign .positive f) : HasSign .negative f.neg := by
  cases f with
  | notANumber | zero => trivial
  | infinity t | finite t =>
    obtain rfl : t = .positive := h
    rfl

theorem HasSign.mul {f g : UnpackedFloat} (hf : HasSign .positive f) (hg : HasSign .positive g) :
    HasSign .positive (f.mul .binary64 g) := by
  have hround : ∀ m e acc, HasSign .positive (.roundWithAccuracy .binary64 .positive m e acc) := by
    intro m e acc
    unfold UnpackedFloat.roundWithAccuracy
    dsimp only
    split
    · trivial
    · rfl
  rcases f with (_ | _) | _ | _ | ⟨_ | _, m, e, _⟩ <;> rcases g with (_ | _) | _ | _ | ⟨_ | _, m', e', _⟩
  case finite.positive.finite.positive => exact hround _ _ _
  all_goals trivial

/-- A sign tells on which side of the zeros a number lies. -/
theorem HasSign.place_nonneg {f : UnpackedFloat} (h : HasSign .positive f) :
    ∀ p ∈ place f, toLex (0, toLex (0, 0)) ≤ p := by
  rintro p hp
  rcases f with (_ | _) | _ | _ | ⟨_ | _, m, e, _⟩ <;> cases hp
  case infinity.negative | finite.negative => cases h
  case infinity.positive | zero => decide
  case finite.positive => exact Prod.Lex.toLex_le_toLex.2 (.inl one_pos)

theorem HasSign.place_nonpos {f : UnpackedFloat} (h : HasSign .negative f) :
    ∀ p ∈ place f, p ≤ toLex (0, toLex (0, 0)) := by
  rintro p hp
  rcases f with (_ | _) | _ | _ | ⟨_ | _, m, e, _⟩ <;> cases hp
  case infinity.positive | finite.positive => cases h
  case infinity.negative | zero => decide
  case finite.negative => exact Prod.Lex.toLex_le_toLex.2 (.inl neg_one_lt_zero)

section Signs

variable {a b : Float}

theorem hasSign_of_nonneg (h : 0 ≤ a) : HasSign .positive a.toModel.unpack := by
  obtain ⟨p, hp, q, hq, hle⟩ := le_iff_rank.1 h
  cases hp.symm.trans rank_zero
  change q ∈ place a.toModel.unpack at hq
  generalize a.toModel.unpack = f at hq
  rcases f with (_ | _) | _ | _ | ⟨_ | _, m, e, _⟩
  case infinity.negative =>
    cases hq
    exact absurd hle (by decide)
  case finite.negative =>
    cases hq
    exact absurd hle (not_le.2 (Prod.Lex.toLex_lt_toLex.2 (.inl neg_one_lt_zero)))
  all_goals trivial

theorem not_lt_isZero (ha : IsZero a) (hb : HasSign .positive b.toModel.unpack) : ¬b < a := by
  rw [lt_iff_rank, rank_of_isZero ha]
  rintro ⟨p, hp, q, hq, hlt⟩
  cases hq
  exact absurd hlt (not_lt.2 (hb.place_nonneg p hp))

theorem not_isZero_lt (ha : IsZero a) (hb : HasSign .negative b.toModel.unpack) : ¬a < b := by
  rw [lt_iff_rank, rank_of_isZero ha]
  rintro ⟨p, hp, q, hq, hlt⟩
  cases hp
  exact absurd hlt (not_lt.2 (hb.place_nonpos q hq))

theorem isZero_le (ha : IsZero a) (hb : 0 ≤ b) : a ≤ b := by
  obtain ⟨p, hp, q, hq, hle⟩ := le_iff_rank.1 hb
  cases hp.symm.trans rank_zero
  exact le_iff_rank.2 ⟨_, rank_of_isZero ha, q, hq, hle⟩

theorem isZero_abs (ha : IsZero a) : IsZero a.abs := by
  have hpacked : a.abs = .ofModel (pack a.toModel.unpack.abs) := rfl
  obtain ⟨s, hs⟩ := isZero_iff.1 ha
  rw [hpacked, hs]
  exact isZero_pack .positive

theorem larger_one_nonneg (v : Float) : 0 ≤ larger v 1 :=
  NumberOrder.le_trans (b := (1 : Float)) (by decide +kernel)
    (NumberOrder.le_max_right (by decide +kernel))

end Signs

variable {p : Parameters Float}

/-- Zeros count as zero at tolerances that are not negative. -/
theorem negligible (hzero : 0 ≤ p.epsZero) (hdefinite : 0 ≤ p.epsDefinite)
    (hdependent : 0 ≤ p.epsDependent) {a : Float} (ha : IsZero a) : Negligible p a := by
  have hscaled : ∀ v, HasSign .positive (p.epsDependent * larger v 1).toModel.unpack := fun v =>
    ((hasSign_of_nonneg hdependent).mul (hasSign_of_nonneg (larger_one_nonneg v))).pack
  exact
    { abs_le := isZero_le (isZero_abs ha) hzero
      not_lt_neg := not_isZero_lt ha (hasSign_of_nonneg hzero).neg.pack
      not_lt := not_lt_isZero ha (hasSign_of_nonneg hzero)
      le_definite := isZero_le ha hdefinite
      not_dependent_lt := fun v => not_lt_isZero ha (hscaled v)
      not_lt_neg_dependent := fun v => not_isZero_lt ha (hscaled v).neg.pack }

/-- With tolerances that are not negative a solver does not divide by a zero. -/
theorem guarded (hzero : 0 ≤ p.epsZero) (hdefinite : 0 ≤ p.epsDefinite)
    (hdependent : 0 ≤ p.epsDependent) : Guarded SameNumber p := fun h hne =>
  negligible hzero hdefinite hdependent (h.resolve_left hne).1

end ActiveSet.Double
