import ActiveSet.Scalar

/-!
# Tuples

A tuple of `n` scalars is stored entry by entry and read as a function of the index, which is zero
from `n` on.  Reading through a function keeps bounds out of formulas: sums, inner products and
norms are written over indices, and one lemma, `Tuple.ofFn_apply`, says what a tuple that was built
from a formula holds.

* `Tuple.ofFn`: the tuple with given entries; every operation of this library builds its result so.
* `Tuple.ext`: a tuple is determined by its first `n` values.
* `Tuple.scale`, `Tuple.addScaled`, `Tuple.sub`: the entrywise operations.
-/

namespace ActiveSet

/-- A tuple of `n` scalars. -/
structure Tuple (K : Type) (n : Nat) where
  /-- The stored entries. -/
  entries : Vector K n
deriving DecidableEq, Repr

namespace Tuple

variable {K : Type} {n : Nat}

/-- The tuple whose entry `i` is `f i`. -/
def ofFn (n : Nat) (f : Nat → K) : Tuple K n :=
  ⟨Vector.ofFn fun i => f i⟩

/-- The entry at an index, zero outside the tuple. -/
def get [Zero K] (x : Tuple K n) (i : Nat) : K :=
  if h : i < n then x.entries[i] else 0

instance [Zero K] : CoeFun (Tuple K n) fun _ => Nat → K := ⟨get⟩

theorem ofFn_apply [Zero K] {f : Nat → K} {i : Nat} (h : i < n) : ofFn n f i = f i := by
  simp [get, ofFn, h]

theorem apply_of_le [Zero K] (x : Tuple K n) {i : Nat} (h : n ≤ i) : x i = 0 := by
  simp [get, Nat.not_lt.mpr h]

/-- A tuple is determined by its values below `n`. -/
theorem ext [Zero K] {x y : Tuple K n} (h : ∀ i, i < n → x i = y i) : x = y := by
  obtain ⟨x⟩ := x
  obtain ⟨y⟩ := y
  congr 1
  apply Vector.ext
  intro i hi
  simpa [get, hi] using h i hi

/-- The tuple with every entry `a`. -/
def fill (n : Nat) (a : K) : Tuple K n := ofFn n fun _ => a

theorem fill_apply [Zero K] {a : K} {i : Nat} (h : i < n) : fill n a i = a := ofFn_apply h

/-- The tuple that differs from `x` in entry `i` only, which is `a`; an index outside changes
nothing. -/
def set [Zero K] (x : Tuple K n) (i : Nat) (a : K) : Tuple K n :=
  ofFn n fun j => if j = i then a else x j

theorem set_apply [Zero K] (x : Tuple K n) (i : Nat) (a : K) {j : Nat} (h : j < n) :
    x.set i a j = if j = i then a else x j := ofFn_apply h

/-- The tuple with the entries of an array of the right size. -/
def ofArray? (n : Nat) (a : Array K) : Option (Tuple K n) :=
  if h : a.size = n then some ⟨⟨a, h⟩⟩ else none

/-- The entries in order. -/
def toList (x : Tuple K n) : List K := x.entries.toList

@[simp] theorem length_toList (x : Tuple K n) : x.toList.length = n := by
  simp [toList]

/-- A tuple can be read back from its entries. -/
theorem ofArray?_toList (x : Tuple K n) : ofArray? n x.toList.toArray = some x := by
  unfold ofArray?
  rw [dif_pos (by simp)]
  rfl

/-! ## Entrywise operations -/

variable [Scalar K]

/-- `a x`. -/
def scale (a : K) (x : Tuple K n) : Tuple K n := ofFn n fun i => a * x i

/-- `y + a x`. -/
def addScaled (a : K) (x y : Tuple K n) : Tuple K n := ofFn n fun i => y i + a * x i

/-- `x - y`. -/
def sub (x y : Tuple K n) : Tuple K n := ofFn n fun i => x i - y i

theorem scale_apply (a : K) (x : Tuple K n) {i : Nat} (h : i < n) : x.scale a i = a * x i :=
  ofFn_apply h

theorem addScaled_apply (a : K) (x y : Tuple K n) {i : Nat} (h : i < n) :
    addScaled a x y i = y i + a * x i := ofFn_apply h

theorem sub_apply (x y : Tuple K n) {i : Nat} (h : i < n) : x.sub y i = x i - y i := ofFn_apply h

end Tuple

end ActiveSet
