import ActiveSet.Solver.Core
import Mathlib.Data.List.Nodup

/-!
# Lists of positions

The order in which a factorization lists its variables or rows is a list without duplicates.
Gathering follows it, spreading goes the way back, and an entry that has to leave the factorization
first changes places with the last one.
-/

namespace ActiveSet

open scoped List

variable {K : Type} {n : Nat} {l : List (Fin n)}

theorem gather_of_getElem? [Zero K] {p : Nat} {i : Fin n} (h : l[p]? = some i) (x : Nat → K) :
    gather l x p = x i := by
  unfold gather
  rw [h]

theorem gather_of_lt [Zero K] {p : Nat} (h : p < l.length) (x : Nat → K) :
    gather l x p = x l[p] :=
  gather_of_getElem? (List.getElem?_eq_getElem h) x

/-- Gathering looks at the index in a position, and at nothing else of a list. -/
theorem gather_eq_of_getElem?_eq [Zero K] {l' : List (Fin n)} {p q : Nat} (h : l[p]? = l'[q]?)
    (x : Nat → K) : gather l x p = gather l' x q := by
  unfold gather
  rw [h]

theorem gather_append_left [Zero K] {l' : List (Fin n)} {p : Nat} (h : p < l.length)
    (x : Nat → K) : gather (l ++ l') x p = gather l x p :=
  gather_eq_of_getElem?_eq (List.getElem?_append_left h) x

theorem gather_concat_length [Zero K] (i : Fin n) (x : Nat → K) :
    gather (l ++ [i]) x l.length = x i :=
  gather_of_getElem? List.getElem?_concat_length x

theorem gather_dropLast [Zero K] {p : Nat} (h : p < l.length - 1) (x : Nat → K) :
    gather l.dropLast x p = gather l x p :=
  gather_eq_of_getElem?_eq (by rw [List.getElem?_dropLast, if_pos h]) x

theorem gather_eraseIdx [Zero K] (k p : Nat) (x : Nat → K) :
    gather (l.eraseIdx k) x p = gather l x (if p < k then p else p + 1) := by
  refine gather_eq_of_getElem?_eq ?_ x
  rw [List.getElem?_eraseIdx]
  split <;> rfl

/-- The indices are listed once each, so the identity restricted to them is the identity. -/
theorem gather_gather_of_identity [Zero K] [One K] (hl : l.Nodup) {h : Nat → Nat → K}
    (hidentity : ∀ i j, i < n → j < n → h i j = if i = j then 1 else 0) {p r : Nat}
    (hp : p < l.length) (hr : r < l.length) :
    gather l (fun u => gather l (h u) r) p = if p = r then 1 else 0 := by
  have hinj : (l[p] : Nat) = l[r] ↔ p = r := by
    rw [← Fin.ext_iff]
    exact List.Nodup.getElem_inj_iff hl
  rw [gather_of_lt hp, gather_of_lt hr, hidentity _ _ (l[p]).isLt (l[r]).isLt]
  simp only [hinj]

/-- An entry that is listed is changed by its position. -/
theorem spread_of_getElem? [Zero K] (hl : l.Nodup) {p : Nat} {i : Fin n} (h : l[p]? = some i)
    (f : Nat → K → K) (x : Tuple K n) : spread l f x i = f p (x i) := by
  obtain ⟨hp, hpi⟩ := List.getElem?_eq_some_iff.1 h
  have hfind : (l.findIdx? fun k => k.val == i.val) = some p := by
    rw [List.findIdx?_eq_some_iff_getElem]
    refine ⟨hp, by simp [hpi], fun q hq => ?_⟩
    have hne : l[q] ≠ l[p] := fun heq =>
      absurd ((List.Nodup.getElem_inj_iff hl).1 heq) (Nat.ne_of_lt hq)
    rw [hpi] at hne
    simpa [Fin.ext_iff] using hne
  unfold spread
  rw [Tuple.ofFn_apply i.isLt, hfind]

/-- An entry that is not listed is kept. -/
theorem spread_of_notMem [Zero K] {i : Fin n} (h : i ∉ l) (f : Nat → K → K) (x : Tuple K n) :
    spread l f x i = x i := by
  have hfind : (l.findIdx? fun k => k.val == i.val) = none := by
    rw [List.findIdx?_eq_none_iff]
    intro k hk
    have hne : k ≠ i := fun heq => h (heq ▸ hk)
    simpa [Fin.ext_iff] using hne
  unfold spread
  rw [Tuple.ofFn_apply i.isLt, hfind]

/-! ## Changing places with the last entry -/

section MoveLast

variable {α : Type} {l : List α} {p : Nat}

theorem moveLast_eq (h : p < l.length) :
    moveLast l p = (l.set p (l.get ⟨l.length - 1, by omega⟩)).dropLast ++ [l[p]] := by
  have hlast : l.getLast? = some (l.get ⟨l.length - 1, by omega⟩) := by
    rw [List.getLast?_eq_getElem?, List.getElem?_eq_getElem (by omega), List.get_eq_getElem]
  unfold moveLast
  rw [List.getElem?_eq_getElem h, hlast]

theorem length_moveLast (h : p < l.length) : (moveLast l p).length = l.length := by
  rw [moveLast_eq h]
  simp
  omega

theorem getLast?_moveLast (h : p < l.length) : (moveLast l p).getLast? = some l[p] := by
  rw [moveLast_eq h]
  simp

/-- Position `p` and the last one change places. -/
theorem getElem?_moveLast (h : p < l.length) (q : Nat) :
    (moveLast l p)[q]? =
      l[if q = p then l.length - 1 else if q = l.length - 1 then p else q]? := by
  rw [moveLast_eq h]
  grind

theorem perm_moveLast (h : p < l.length) : (moveLast l p).Perm l := by
  rw [moveLast_eq h]
  obtain ⟨init, z, rfl⟩ : ∃ init z, l = init ++ [z] :=
    ⟨l.dropLast, l.getLast (by rintro rfl; simp at h), (List.dropLast_append_getLast _).symm⟩
  by_cases hp : p < init.length
  · have hset : (init ++ [z]).set p z = init.set p z ++ [z] := List.set_append_left p z hp
    have hlast : (init ++ [z]).get ⟨(init ++ [z]).length - 1, by simp⟩ = z := by simp
    rw [hlast, hset, List.dropLast_concat, List.getElem_append_left hp]
    -- the list is cut at the position, and the last element is put there
    obtain ⟨front, back, hinit, -, hfront⟩ : ∃ front back, init = front ++ init[p] :: back ∧
        front.length = p ∧ init.set p z = front ++ z :: back := List.exists_of_set hp
    rw [hfront]
    conv_rhs => rw [hinit]
    rw [List.append_assoc, List.append_assoc]
    -- both sides hold the same elements after the cut, in another order
    refine List.Perm.append_left front ?_
    calc
      z :: (back ++ [init[p]]) ~ z :: init[p] :: back := (List.perm_append_singleton _ _).cons z
      _ ~ init[p] :: z :: back := List.Perm.swap _ _ _
      _ ~ init[p] :: (back ++ [z]) := ((List.perm_append_singleton _ _).cons _).symm
  · have hpeq : p = init.length := by
      simp at h
      omega
    subst hpeq
    simp

end MoveLast

end ActiveSet
