import ActiveSet.Scalar

/-!
# Double precision scalars

The arithmetic the solvers run on: binary64 numbers with rounding to nearest.  Three operations
need a definition here.

* `larger`, `smaller`: of two numbers one of which is not a number, the other one is taken, so a
  missing value never hides a known one.  A negative number or zero cut off at zero by `larger` is
  the positive zero.
* `hypotenuse`: the square root of the sum of two squares, with a rescaling of very large and very
  small components and one correction of the rounded root.
-/

namespace ActiveSet.Double

/-- The larger of two numbers; a value that is not a number gives way to the other one.  Of two
equal numbers, such as the two zeros, the second one is taken. -/
def larger (a b : Float) : Float :=
  if a.isNaN then b else if b.isNaN then a else if b < a then a else b

/-- The smaller of two numbers; a value that is not a number gives way to the other one.  Of two
equal numbers, such as the two zeros, the second one is taken. -/
def smaller (a b : Float) : Float :=
  if a.isNaN then b else if b.isNaN then a else if a < b then a else b

/-- Two to the power `n`. -/
def twoPow (n : Nat) : Float := Float.ofNat (Nat.pow 2 n)

/-- The root of `ax² + ay²` for `ay ≤ ax` of moderate size: the rounded root `h`, less the amount
by which its square exceeds the sum of squares, divided by `2 h`.  The excess is written through
differences that lose no digits. -/
def hypotModerate (ax ay : Float) : Float :=
  let h := (ax * ax + ay * ay).sqrt
  let excess :=
    if h ≤ 2.0 * ay then
      let delta := h - ay
      let t1 := ax * (2.0 * delta - ax)
      let t2 := (delta - 2.0 * (ax - ay)) * delta
      t1 + t2
    else
      let delta := h - ax
      let t1 := 2.0 * delta * (ax - 2.0 * ay)
      let t2 := (4.0 * delta - ay) * ay + delta * delta
      t1 + t2
  h - excess / (2.0 * h)

/-- The root of the sum of two squares.  An infinite component makes it infinite.  A component
below `2⁻⁵⁴` times the other one does not move the root by more than half a unit, and components
whose squares would overflow or vanish are scaled by `2⁶⁰⁰` first. -/
def hypotenuse (a b : Float) : Float :=
  if a.isInf || b.isInf then 1.0 / 0.0
  else if a.isNaN || b.isNaN then a + b
  else
    let x := a.abs
    let y := b.abs
    let ax := if x < y then y else x
    let ay := if x < y then x else y
    let half := 1.0 / twoPow 54
    -- the squares would overflow
    if twoPow 511 < ax then
      if ay ≤ ax * half then ax + ay
      else hypotModerate (ax / twoPow 600) (ay / twoPow 600) * twoPow 600
    -- the smaller square would lose digits
    else if ay < 1.0 / twoPow 459 then
      if ay / half ≤ ax then ax + ay
      else hypotModerate (ax * twoPow 600) (ay * twoPow 600) / twoPow 600
    else if ay ≤ ax * half then ax + ay
    else hypotModerate ax ay

instance : Scalar Float where
  zero := 0.0
  one := 1.0
  natCast := Float.ofNat
  max := larger
  min := smaller
  abs := Float.abs
  sqrt := Float.sqrt
  hypot := hypotenuse
  decidableLT := fun a b => inferInstanceAs (Decidable (a < b))
  decidableLE := fun a b => inferInstanceAs (Decidable (a ≤ b))

end ActiveSet.Double
