/-!
# Scalars and their sums

A solver step is a fixed sequence of additions, products, square roots and comparisons.  The
definitions of this library take that arithmetic as a parameter, so that one and the same
definition runs on double precision numbers and can be read over the real numbers, or over
operations about which nothing at all is known.

* `Scalar`: the operations a solver needs.  The class has no laws; a statement that needs a law is
  stated for an arithmetic that has it.
* `accumulate`, `deduct`, `sum`: running sums and differences in increasing index order.  Rounded
  addition is not associative, so the order is part of the definition.
* `dot`, `norm`: the inner product and the Euclidean norm of the first entries of a sequence.

A sequence is a function of its index, together with the number of entries that count.
-/

namespace ActiveSet

/-- The arithmetic of a solver.  `max` and `min` are part of it because what they make of a value
that is not a number is a choice, and `hypot a b` stands for the square root of `a * a + b * b`
computed without overflow of the squares. -/
class Scalar (K : Type) extends Zero K, One K, Add K, Sub K, Mul K, Div K, Neg K, NatCast K,
    LT K, LE K, BEq K, Max K, Min K where
  /-- The magnitude of a scalar. -/
  abs : K → K
  /-- The square root. -/
  sqrt : K → K
  /-- The length of the vector with two given components. -/
  hypot : K → K → K
  /-- The strict comparison can be decided, as the branches of a solver need. -/
  decidableLT (a b : K) : Decidable (a < b)
  /-- The comparison can be decided, as the branches of a solver need. -/
  decidableLE (a b : K) : Decidable (a ≤ b)

variable {K : Type} [Scalar K]

instance instDecidableLT (a b : K) : Decidable (a < b) := Scalar.decidableLT a b

instance instDecidableLE (a b : K) : Decidable (a ≤ b) := Scalar.decidableLE a b

/-! ## Running sums -/

/-- `s` plus the first `n` terms of `f`, added one after the other. -/
def accumulate (s : K) : Nat → (Nat → K) → K
  | 0, _ => s
  | n + 1, f => accumulate s n f + f n

/-- `s` minus the first `n` terms of `f`, subtracted one after the other. -/
def deduct (s : K) : Nat → (Nat → K) → K
  | 0, _ => s
  | n + 1, f => deduct s n f - f n

/-- The sum of the first `n` terms of `f`. -/
def sum (n : Nat) (f : Nat → K) : K :=
  accumulate 0 n f

@[simp] theorem accumulate_zero (s : K) (f : Nat → K) : accumulate s 0 f = s := rfl

theorem accumulate_succ (s : K) (n : Nat) (f : Nat → K) :
    accumulate s (n + 1) f = accumulate s n f + f n := rfl

@[simp] theorem deduct_zero (s : K) (f : Nat → K) : deduct s 0 f = s := rfl

theorem deduct_succ (s : K) (n : Nat) (f : Nat → K) :
    deduct s (n + 1) f = deduct s n f - f n := rfl

/-! ## Inner product and norm -/

/-- The inner product of the first `n` entries of two sequences. -/
def dot (n : Nat) (x y : Nat → K) : K :=
  sum n fun i => x i * y i

/-- The largest magnitude among the first `n` entries, zero if there is none. -/
def maxAbs (n : Nat) (x : Nat → K) : K :=
  n.fold (fun i _ a => max a (Scalar.abs (x i))) 0

/-- The Euclidean norm of the first `n` entries.  The entries are divided by the largest magnitude
before they are squared, so that no square overflows; without a nonzero entry there is nothing to
divide by, and the largest magnitude is the answer. -/
def norm (n : Nat) (x : Nat → K) : K :=
  let a := maxAbs n x
  if a == 0 then a else a * Scalar.sqrt (sum n fun i => x i / a * (x i / a))

end ActiveSet
