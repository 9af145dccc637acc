import ActiveSet.Dense.Grid

/-!
# Plane rotations

Both factorizations of a solver are kept up to date by plane rotations: a rotation of two columns,
or of two rows, that makes a chosen entry zero.

* `Rotation.toward a b`: the rotation that turns the pair `(a, b)` into `(r, 0)`, with `r`.
* `Rotation.fst`, `Rotation.snd`: what a rotation makes of any pair.
* `Rotation.sweep`: the rotations that collect a whole sequence in its last entry, one after the
  other.
* `Grid.turnColumns`, `Grid.turnRows`: a rotation of two columns or rows of a grid.
* `Grid.eliminate`: a rotation of two rows that makes one entry of the second row zero.
-/

namespace ActiveSet

/-- A rotation of the plane by a cosine and a sine. -/
structure Rotation (K : Type) where
  /-- The cosine. -/
  c : K
  /-- The sine. -/
  s : K
deriving DecidableEq, Repr

namespace Rotation

variable {K : Type} [Scalar K]

/-- The rotation that turns `(a, b)` into `(r, 0)`, and `r`.  A pair with a zero component needs no
length: if `b` is zero nothing turns, and if only `a` is zero the components change places. -/
def toward (a b : K) : Rotation K × K :=
  if b == 0 then (⟨1, 0⟩, a)
  else if a == 0 then (⟨0, 1⟩, b)
  else
    let r := Scalar.hypot a b
    (⟨a / r, b / r⟩, r)

/-- The first component of a turned pair. -/
def fst (g : Rotation K) (u v : K) : K := g.c * u + g.s * v

/-- The second component of a turned pair. -/
def snd (g : Rotation K) (u v : K) : K := g.c * v - g.s * u

/-- The rotations that collect a sequence in one value: `r` is turned into the first entry of the
sequence, the result into the second one, and so on.  The value collected in the end comes with
them. -/
def sweep (r : K) : List K → List (Rotation K) × K
  | [] => ([], r)
  | a :: as =>
    let (g, r') := toward a r
    let (gs, r'') := sweep r' as
    (g :: gs, r'')

@[simp] theorem sweep_nil (r : K) : sweep r [] = ([], r) := rfl

theorem sweep_cons (r a : K) (as : List K) :
    sweep r (a :: as) =
      ((toward a r).1 :: (sweep (toward a r).2 as).1, (sweep (toward a r).2 as).2) := rfl

/-- A sweep takes one rotation for each entry. -/
theorem length_sweep (r : K) (as : List K) : (sweep r as).1.length = as.length := by
  induction as generalizing r with
  | nil => rfl
  | cons a as ih => simp [sweep_cons, ih]

end Rotation

namespace Grid

variable {K : Type} [Scalar K] {m n : Nat}

/-- Turns the entries of columns `u` and `v` in the first `count` rows. -/
def turnColumns (count u v : Nat) (g : Rotation K) (G : Grid K m n) : Grid K m n :=
  ofFn m n fun i j =>
    if i < count ∧ j = v then g.snd (G i u) (G i v)
    else if i < count ∧ j = u then g.fst (G i u) (G i v)
    else G i j

/-- Turns the entries of rows `u` and `v` in the columns from `first` on, up to but without
`last`. -/
def turnRows (first last u v : Nat) (g : Rotation K) (G : Grid K m n) : Grid K m n :=
  ofFn m n fun i j =>
    if first ≤ j ∧ j < last ∧ i = v then g.snd (G u j) (G v j)
    else if first ≤ j ∧ j < last ∧ i = u then g.fst (G u j) (G v j)
    else G i j

/-- Turns rows `u` and `v` so that the entry of row `v` in column `k` becomes zero.  The rows are
zero left of column `k`, and only the columns below `last` count. -/
def eliminate (last u v k : Nat) (G : Grid K m n) : Grid K m n :=
  let (g, r) := Rotation.toward (G u k) (G v k)
  -- column `k` is written, not turned: its second entry is zero without rounding
  ((G.set u k r).set v k 0).turnRows (k + 1) last u v g

/-- Turns neighbouring columns of the first `count` rows by a sequence of rotations, of which the
first one takes columns `first + 1` and `first`, and each further one moves on by a column. -/
def turnNeighbours (count : Nat) : Nat → List (Rotation K) → Grid K m n → Grid K m n
  | _, [], G => G
  | first, g :: gs, G => turnNeighbours count (first + 1) gs (G.turnColumns count (first + 1) first g)

theorem turnColumns_apply (count u v : Nat) (g : Rotation K) (G : Grid K m n) {i j : Nat}
    (hi : i < m) (hj : j < n) :
    G.turnColumns count u v g i j =
      if i < count ∧ j = v then g.snd (G i u) (G i v)
      else if i < count ∧ j = u then g.fst (G i u) (G i v)
      else G i j := ofFn_apply hi hj

theorem turnRows_apply (first last u v : Nat) (g : Rotation K) (G : Grid K m n) {i j : Nat}
    (hi : i < m) (hj : j < n) :
    G.turnRows first last u v g i j =
      if first ≤ j ∧ j < last ∧ i = v then g.snd (G u j) (G v j)
      else if first ≤ j ∧ j < last ∧ i = u then g.fst (G u j) (G v j)
      else G i j := ofFn_apply hi hj

end Grid

end ActiveSet
