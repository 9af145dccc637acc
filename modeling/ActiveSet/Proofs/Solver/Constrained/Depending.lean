import ActiveSet.Proofs.Solver.Constrained.Exchange
import ActiveSet.Proofs.Solver.Constrained.Following

/-!
# Entities that depend on the working set

An entity that cannot enter the working set as it is has a row that is a combination of the rows in
it, and the coefficients that are computed for it are those of the combination
(`Dependent.row_eq`). As the rows in the working set are independent, there is no other combination
(`combination_unique`).

If none of these rows can be given up for the entity, the combination refutes the loaded problem. On
the way to it the entity would pass its limit, while the point stays on the limits of the working
set, and no point within these limits can do better (`Stuck.infeasible`).

* `DependsOn`, `Prepared.independent_eq_false_iff`: which entities cannot enter as they are.
-/

namespace ActiveSet

open Finset

namespace NullSpace

variable {n m k : ℕ} {f : NullSpace ℝ n m} {A : ℕ → ℕ → ℝ}

/-- Without a tolerance a system with `T` has a solution. -/
theorem Factors.solveT?_ok (hf : f.Factors A) (hk : k = f.nActive) (b x : Tuple ℝ k) :
    ∃ w, f.solveT? 0 b x = some (.ok w) := by
  subst hk
  have hpivot : ∀ u, u < f.nActive → f.t (f.nActive - 1 - u) u ≠ 0 := by
    intro u hu
    have hne := hf.antidiag_ne (f.nActive - 1 - u) (by omega)
    rwa [show f.nActive - 1 - (f.nActive - 1 - u) = u by omega] at hne
  obtain ⟨w, hw⟩ := backSubstitute_ok (F := fun u j => f.t (f.nActive - 1 - u) j)
    (b := fun u => b (f.nActive - 1 - u)) hpivot x
  refine ⟨w, ?_⟩
  unfold solveT?
  rw [if_pos rfl, hw]

/-- Without a tolerance a system with the transpose of `T` has a solution. -/
theorem Factors.solveTT?_ok (hf : f.Factors A) (hk : k = f.nActive) (b x : Tuple ℝ k) :
    ∃ w, f.solveTT? 0 b x = some (.ok w) := by
  subst hk
  obtain ⟨w, hw⟩ := backSubstitute_ok (F := fun u i => f.t i (f.nActive - 1 - u))
    (b := fun u => b (f.nActive - 1 - u)) hf.antidiag_ne x
  refine ⟨w, ?_⟩
  unfold solveTT?
  rw [if_pos rfl, hw]

end NullSpace

namespace Constrained

variable {n m : ℕ} {s s' : Constrained ℝ n m} {e : Entity n m} {w : PreparedRow ℝ}

-- ---------------------------------------------------------------------------
-- The row of an entity
-- ---------------------------------------------------------------------------

/-- A row is prepared in the coordinates of `Q`, that of a bound as well. -/
theorem Prepared.row_eq (h : s.Prepared w e) (hs : s.Listed) {j : ℕ} (hj : j < s.free.length) :
    w.row j = coord s.nullSpace.nFree (gather s.free (s.row e)) s.nullSpace.q j := by
  have hnFree := hs.nFree_eq
  cases e with
  | constraint i =>
    rw [hnFree]
    exact h.row_constraint hj
  | bound i =>
    rw [h.row_bound (by rwa [hnFree])]
    obtain ⟨hlast, -⟩ := h
    -- the variable is the last free one, and its unit vector has one entry
    have hpos : 0 < s.free.length := by omega
    have hentry : ∀ p, p < s.free.length →
        gather s.free (s.row (.bound i)) p = if p = s.free.length - 1 then 1 else 0 := by
      intro p hp
      have hget : s.free[s.free.length - 1]? = some i := by
        rw [← List.getLast?_eq_getElem?]
        exact hlast
      rw [gather_of_lt hp]
      show (if (s.free[p] : ℕ) = i then (1 : ℝ) else 0) = _
      have hiff : (s.free[p] : ℕ) = i ↔ p = s.free.length - 1 := by
        rw [← Fin.ext_iff]
        constructor
        · intro heq
          refine (List.getElem?_inj hp hs.listed.nodup).1 ?_
          rw [hget, List.getElem?_eq_getElem hp, heq]
        · rintro rfl
          rw [List.getElem?_eq_getElem hp] at hget
          exact Option.some.inj hget
      simp only [hiff]
    rw [coord, hnFree, sum_eq_single (s.free.length - 1)]
    · rw [hentry _ (by omega), if_pos rfl, one_mul]
    · intro p hp hne
      rw [hentry p (mem_range.1 hp), if_neg hne, zero_mul]
    · intro hnot
      exact absurd (mem_range.2 (by omega)) hnot

/-- Without a tolerance a row that is not independent has nothing in the null space. -/
theorem Prepared.row_eq_zero (h : s.Prepared w e) (hs : s.Listed)
    (heps : s.parameters.epsDependent = 0) (he : s.isActive e = false)
    (hind : w.independent = false) {j : ℕ} (hj : j < s.nNull) : w.row j = 0 := by
  have hpos : 0 < s.nNull := by omega
  have hnull := hs.nNull_add
  have hle := hs.length_free_le
  have hnorm : ¬0 < norm s.nNull w.row := by
    intro hnorm
    cases e with
    | bound i =>
      obtain ⟨-, rfl⟩ := h
      refine of_decide_eq_false hind ⟨hpos, ?_⟩
      rw [heps]
      exact hnorm
    | constraint i =>
      obtain rfl : w = s.constraintRow i := h
      refine of_decide_eq_false hind ⟨hpos, ?_, ?_⟩
      · rw [heps, zero_mul]
        exact hnorm
      · -- there is room, as not even all constraints are active
        have hnotin : i ∉ s.active := by
          rw [hs.active_listed.mem_iff, show s.constraints.isActive i = false from he]
          exact Bool.false_ne_true
        have hlength := (List.nodup_cons.2 ⟨hnotin, hs.active_listed.nodup⟩).length_le_card
        rw [List.length_cons, Fintype.card_fin] at hlength
        show s.active.length < min n m
        omega
  have hzero := le_antisymm (not_lt.1 hnorm) (norm_nonneg s.nNull w.row)
  exact (norm_eq_zero_iff s.nNull w.row).1 hzero j hj

/-- The row of a dependent entity is the combination of the rows of the working set with the computed
coefficients. -/
theorem Dependent.row_eq (h : s.Dependent e w s') (hs : s.Listed)
    (hf : s.nullSpace.Factors s.activeEntry) (hw : s.Prepared w e)
    (heps : s.parameters.epsDependent = 0) (he : s.isActive e = false)
    (hind : w.independent = false) :
    (∀ j, j < n → s.row e j = ∑ a, s'.dependency.get a * s.row a j) ∧
      ∀ a, s.isActive a = false → s'.dependency.get a = 0 := by
  have hnFree := hs.nFree_eq
  have hnActive := hs.nActive_eq
  have hnull := hs.nNull_add
  cases h with
  | @intro xi hxi =>
    have hinactive : ∀ i : Fin m, s.constraints.isActive i = false →
        spread s.active (fun c _ => xi c) (s.dependency.scale 0).row i = 0 := by
      intro i hi
      rw [spread_of_notMem]
      · show s.dependency.row.scale 0 i = 0
        rw [Tuple.scale_apply _ _ i.isLt, zero_mul]
      · rw [hs.active_listed.mem_iff, hi]
        exact Bool.false_ne_true
    have hbound : ∀ i : Fin n, (Tuple.ofFn n fun j =>
        if s.bounds.isActive j then
          deduct (s.ownRow e j) s.active.length fun c =>
            xi c * gather s.active (fun r => s.matrix r j) c
        else (s.dependency.scale 0).bound j) i = if s.bounds.isActive i = true then
          s.row e i - ∑ c ∈ range s.active.length,
            xi c * gather s.active (fun a => s.matrix a i) c else 0 := by
      intro i
      rw [Tuple.ofFn_apply i.isLt, deduct_eq_sum]
      split
      · next hactive =>
        congr 1
        cases e with
        | constraint k => rfl
        | bound k =>
          -- a bound has no part in the directions of the fixed variables
          have hne : (i : ℕ) ≠ k := by
            intro heq
            rw [heq, show s.bounds.isActive k = false from he] at hactive
            cases hactive
          exact (if_neg hne).symm
      · show s.dependency.bound.scale 0 i = 0
        rw [Tuple.scale_apply _ _ i.isLt, zero_mul]
    refine ⟨fun j hj => eq_sum_row hs (x := xi) (fun p hp => ?_) hbound (fun c hc => ?_)
      hinactive hj, fun a ha => ?_⟩
    · have hcombination := hf.eq_combination (x := xi) (fun k hk => by
        have hk : k < s.nNull := hk
        rw [← hw.row_eq hs (by omega)]
        exact hw.row_eq_zero hs heps he hind hk) (fun c hc => by
        rw [hf.solveTT?_solves hxi hc, Tuple.ofFn_apply (by rwa [← hnActive])]
        exact hw.row_eq hs (by omega)) (show p < s.nullSpace.nFree by rwa [hnFree])
      rw [hnActive] at hcombination
      exact hcombination
    · exact gather_spread hs.active_listed.nodup hc _ _
    · cases a with
      | bound i =>
        refine (hbound i).trans (if_neg ?_)
        rw [show s.bounds.isActive i = false from ha]
        exact Bool.false_ne_true
      | constraint i => exact hinactive i ha

/-- The coefficients of the constraints in a combination of rows, by their numbers. -/
def rowCoefficient (c : Entity n m → ℝ) (i : ℕ) : ℝ :=
  if h : i < m then c (.constraint ⟨i, h⟩) else 0

theorem rowCoefficient_fin (c : Entity n m → ℝ) (i : Fin m) :
    rowCoefficient c i = c (.constraint i) := dif_pos i.isLt

/-- Over the free variables a combination of the rows of the working set is one of the active
constraints. -/
theorem gather_combination (hs : s.Listed) {c : Entity n m → ℝ}
    (hinactive : ∀ a, s.isActive a = false → c a = 0) {r : ℕ → ℝ}
    (hr : ∀ j, j < n → r j = ∑ a, c a * s.row a j) {p : ℕ} (hp : p < s.free.length) :
    gather s.free r p =
      ∑ q ∈ range s.active.length, gather s.active (rowCoefficient c) q * s.activeEntry q p := by
  have hfree : s.bounds.isActive s.free[p] = false := (hs.listed.mem_iff _).1 (List.getElem_mem hp)
  have hsum := sum_active hs (f := fun i => rowCoefficient c i * s.matrix i s.free[p])
    fun i hi => by rw [rowCoefficient_fin, hinactive (.constraint i) hi, zero_mul]
  rw [Finset.sum_range] at hsum
  simp only [rowCoefficient_fin, gather_mul] at hsum
  rw [gather_of_lt hp, hr _ (s.free[p]).isLt, s.sum_mul_row c (s.free[p]).isLt,
    hinactive (.bound s.free[p]) hfree, zero_add, hsum]
  refine Finset.sum_congr rfl fun q hq => ?_
  have hq := mem_range.1 hq
  rw [activeEntry_of_lt hq, gather_of_lt hp, gather_of_lt hq fun i => s.matrix i s.free[p]]

/-- A combination of the rows of the working set vanishes only if it has no coefficients. -/
theorem combination_unique (hs : s.Listed) (hf : s.nullSpace.Factors s.activeEntry)
    {c : Entity n m → ℝ} (hinactive : ∀ a, s.isActive a = false → c a = 0)
    (hzero : ∀ j, j < n → ∑ a, c a * s.row a j = 0) : ∀ a, c a = 0 := by
  have hnActive := hs.nActive_eq
  -- over the free variables there are only the active constraints
  have hactive : ∀ q, q < s.nullSpace.nActive → gather s.active (rowCoefficient c) q = 0 := by
    refine hf.rows_independent fun p hp => ?_
    rw [hs.nFree_eq] at hp
    rw [hnActive, ← gather_combination hs hinactive (r := fun _ => 0)
      (fun j hj => (hzero j hj).symm) hp, gather_of_lt hp]
  have hconstraint : ∀ i : Fin m, c (.constraint i) = 0 := by
    intro i
    by_cases hi : s.constraints.isActive i = true
    · obtain ⟨p, hp⟩ := List.get_of_mem ((hs.active_listed.mem_iff i).2 hi)
      have hzero := hactive p (by rw [hnActive]; exact p.isLt)
      rwa [gather_of_lt p.isLt, show s.active[(p : ℕ)] = i from hp, rowCoefficient_fin] at hzero
    · exact hinactive (.constraint i) (Bool.eq_false_of_not_eq_true hi)
  intro a
  cases a with
  | constraint i => exact hconstraint i
  | bound i =>
    have hentry := hzero i i.isLt
    rw [s.sum_mul_row c i.isLt] at hentry
    have hnone : ∑ k : Fin m, c (.constraint k) * s.matrix k i = 0 :=
      sum_eq_zero fun k _ => by rw [hconstraint k, zero_mul]
    rwa [hnone, add_zero] at hentry

-- ---------------------------------------------------------------------------
-- Dependence
-- ---------------------------------------------------------------------------

/-- The row of an entity is a combination of the rows of some entities. -/
def DependsOn (s : Constrained ℝ n m) (p : Entity n m → Prop) (e : Entity n m) : Prop :=
  ∃ c : Entity n m → ℝ, (∀ a, ¬p a → c a = 0) ∧ ∀ j, j < n → s.row e j = ∑ a, c a * s.row a j

theorem DependsOn.mono {p q : Entity n m → Prop} (h : s.DependsOn p e) (hpq : ∀ a, p a → q a) :
    s.DependsOn q e := by
  obtain ⟨c, hc, hrow⟩ := h
  exact ⟨c, fun a ha => hc a fun hp => ha (hpq a hp), hrow⟩

/-- The rows of some entities are independent. -/
def Independent (s : Constrained ℝ n m) (p : Entity n m → Prop) : Prop :=
  ∀ c : Entity n m → ℝ, (∀ a, ¬p a → c a = 0) → (∀ j, j < n → ∑ a, c a * s.row a j = 0) →
    ∀ a, c a = 0

/-- An entity among independent ones does not depend on the others. -/
theorem Independent.not_dependsOn {p q : Entity n m → Prop} (h : s.Independent q)
    (hpq : ∀ a, p a → q a) (he : q e) (hnot : ¬p e) : ¬s.DependsOn p e := by
  rintro ⟨c, hc, hrow⟩
  -- the row of the entity and its combination cancel
  have hzero := h (fun a => c a - if a = e then 1 else 0) (fun a ha => ?_) (fun j hj => ?_) e
  · rw [hc e hnot, if_pos rfl] at hzero
    norm_num at hzero
  · have hne : a ≠ e := fun heq => ha (heq ▸ he)
    rw [hc a fun hpa => ha (hpq a hpa), if_neg hne, sub_zero]
  · have hpick : ∑ a, (if a = e then (1 : ℝ) else 0) * s.row a j = s.row e j := by simp
    simp only [sub_mul, sum_sub_distrib]
    rw [hpick, hrow j hj, sub_self]

theorem SameData.dependsOn_iff (h : s.SameData s') {p : Entity n m → Prop} :
    s'.DependsOn p e ↔ s.DependsOn p e := by
  unfold DependsOn
  rw [h.row_eq]

/-- What depends on the working set has nothing in the null space, so it cannot enter as it is. -/
theorem Prepared.independent_of_dependsOn (h : s.Prepared w e) (hs : s.Listed)
    (hf : s.nullSpace.Factors s.activeEntry) (heps : 0 ≤ s.parameters.epsDependent)
    (hdepends : s.DependsOn (fun a => s.isActive a = true) e) : w.independent = false := by
  by_contra hind
  rw [Bool.not_eq_false] at hind
  obtain ⟨c, hinactive, hrow⟩ := hdepends
  have hnull := hs.nNull_add
  have hentry : ∀ j, j < s.nNull → w.row j = 0 := by
    intro j hj
    -- the row is a combination of rows that are orthogonal to the null space
    have hgather : ∀ p ∈ range s.nullSpace.nFree, gather s.free (s.row e) p * s.nullSpace.q p j =
        ∑ q ∈ range s.active.length,
          gather s.active (rowCoefficient c) q * (s.activeEntry q p * s.nullSpace.q p j) := by
      intro p hp
      have hp : p < s.free.length := by rw [← hs.nFree_eq]; exact mem_range.1 hp
      rw [gather_combination hs (fun a ha => hinactive a (Bool.eq_false_iff.1 ha)) hrow hp, sum_mul]
      exact Finset.sum_congr rfl fun q _ => mul_assoc _ _ _
    rw [h.row_eq hs (by omega), coord, Finset.sum_congr rfl hgather, sum_comm]
    refine sum_eq_zero fun q hq => ?_
    rw [← mul_sum]
    have hzero := hf.null q j (by rw [hs.nActive_eq]; exact mem_range.1 hq) hj
    rw [coord] at hzero
    rw [hzero, mul_zero]
  have hnorm := h.norm_pos hind heps
  rw [(norm_eq_zero_iff s.nNull w.row).2 hentry] at hnorm
  exact lt_irrefl 0 hnorm

/-- Without a tolerance an entity can enter the working set as it is exactly if its row is no
combination of the rows that are in it. -/
theorem Prepared.independent_eq_false_iff (h : s.Prepared w e) (hs : s.Listed)
    (hf : s.nullSpace.Factors s.activeEntry) (heps : s.parameters.epsDependent = 0)
    (he : s.isActive e = false) :
    w.independent = false ↔ s.DependsOn (fun a => s.isActive a = true) e := by
  refine ⟨fun hind => ?_, h.independent_of_dependsOn hs hf heps.ge⟩
  -- a combination does not depend on the tolerance with which it would be computed
  let s0 : Constrained ℝ n m := { s with parameters := { s.parameters with epsZero := 0 } }
  have hs0 : s0.Listed := hs.congr rfl rfl rfl rfl rfl
  have hw0 : s0.Prepared w e := by cases e <;> exact h
  obtain ⟨xi, hxi⟩ := hf.solveTT?_ok hs.nActive_eq.symm
    (Tuple.ofFn s.active.length fun c => w.row (s.nNull + c)) (Tuple.fill _ 0)
  obtain ⟨hrow, hinactive⟩ := Dependent.row_eq (s := s0) (.intro hxi) hs0 hf hw0 heps
    (by cases e <;> exact he) hind
  refine ⟨_, fun a ha => hinactive a ?_, hrow⟩
  have ha := Bool.eq_false_iff.2 ha
  cases a <;> exact ha

-- ---------------------------------------------------------------------------
-- Infeasibility
-- ---------------------------------------------------------------------------

/-- The point is within all loaded limits. -/
def Feasible (s : Constrained ℝ n m) (x : ℕ → ℝ) : Prop :=
  ∀ e, s.target.lowerOf e ≤ s.valueOf x e ∧ s.valueOf x e ≤ s.target.upperOf e

theorem SameData.feasible_iff (h : s.SameData s') (x : ℕ → ℝ) : s'.Feasible x ↔ s.Feasible x := by
  unfold Feasible
  simp only [h.valueOf_eq, h.target]

/-- There is a point on the loaded limits of the working set that is beyond the one of an entity: it
is where the direction of the last step leads. -/
def Passes (s : Constrained ℝ n m) (e : Entity n m) (side : Activity) : Prop :=
  ∃ z : ℕ → ℝ, (∀ a, s.isActive a = true →
      s.valueOf z a = s.target.limitOf (s.activity a) a) ∧
    (side = .lower → s.valueOf z e < s.target.lowerOf e) ∧
    (side = .upper → s.target.upperOf e < s.valueOf z e)

/-- The sign with which multipliers move along the coefficients. -/
def sign (flip : Bool) : ℝ := if flip then -1 else 1

theorem sign_mul (flip : Bool) (a : ℝ) : (if flip then -a else a) = sign flip * a := by
  cases flip with
  | false => exact (one_mul a).symm
  | true => exact neg_eq_neg_one_mul a

/-- Without a tolerance every coefficient of the right sign uses up a multiplier. -/
theorem leavingAmount_eq_some_iff (heps : s.parameters.epsDependent = 0) {flip : Bool}
    {a : Entity n m} {t : ℝ} : s.leavingAmount flip a = some t ↔ s.limitType a ≠ .equality ∧
      t = max (s.y.get a / (sign flip * s.dependency.get a)) 0 ∧
        (s.activity a = .lower ∧ 0 < sign flip * s.dependency.get a ∨
          s.activity a = .upper ∧ sign flip * s.dependency.get a < 0) := by
  unfold leavingAmount
  rw [heps, zero_mul, sign_mul, amountToZero_eq_some_iff, neg_zero]

/-- Where no entity can be given up, no coefficient has the sign that would call for it. -/
theorem sign_of_leaving_eq_none {flip : Bool} (h : s.leaving flip = none)
    (heps : s.parameters.epsDependent = 0) {a : Entity n m} (htype : s.limitType a ≠ .equality) :
    (s.activity a = .lower → sign flip * s.dependency.get a ≤ 0) ∧
      (s.activity a = .upper → 0 ≤ sign flip * s.dependency.get a) := by
  have hnone := leaving_eq_none_iff.1 h a
  constructor
  · intro hside
    by_contra hpos
    have hsome := (leavingAmount_eq_some_iff heps).2
      ⟨htype, rfl, .inl ⟨hside, not_le.1 hpos⟩⟩
    rw [hnone] at hsome
    cases hsome
  · intro hside
    by_contra hneg
    have hsome := (leavingAmount_eq_some_iff heps).2
      ⟨htype, rfl, .inr ⟨hside, not_le.1 hneg⟩⟩
    rw [hnone] at hsome
    cases hsome

/-- Where no entity can be given up, the combination is on one side of its value at the limits of
the working set, for all points within the loaded limits. -/
theorem combination_le {σ : ℝ} {c : Entity n m → ℝ}
    (hinactive : ∀ a, s.isActive a = false → c a = 0)
    (hequal : ∀ a, s.limitType a = .equality → s.target.lowerOf a = s.target.upperOf a)
    (hlower : ∀ a, s.limitType a ≠ .equality → s.activity a = .lower → σ * c a ≤ 0)
    (hupper : ∀ a, s.limitType a ≠ .equality → s.activity a = .upper → 0 ≤ σ * c a)
    {x z : ℕ → ℝ} (hx : s.Feasible x)
    (hz : ∀ a, s.isActive a = true → s.valueOf z a = s.target.limitOf (s.activity a) a) :
    σ * ∑ a, c a * s.valueOf x a ≤ σ * ∑ a, c a * s.valueOf z a := by
  rw [mul_sum, mul_sum]
  -- each summand is compared on its own: at `z` the entity is on the limit that bounds its value
  refine sum_le_sum fun a _ => ?_
  rw [← mul_assoc, ← mul_assoc]
  obtain ⟨hge, hle⟩ := hx a
  by_cases htype : s.limitType a = .equality
  · by_cases hactive : s.isActive a = true
    · have heq : s.valueOf z a = s.valueOf x a := by
        rw [hz a hactive, Data.limitOf]
        have := hequal a htype
        split <;> linarith
      rw [heq]
    · rw [hinactive a (by simpa using hactive), mul_zero, zero_mul, zero_mul]
  · cases hactivity : s.activity a with
    | lower =>
      rw [hz a (by rw [isActive, hactivity]; rfl), hactivity]
      exact mul_le_mul_of_nonpos_left hge (hlower a htype hactivity)
    | upper =>
      rw [hz a (by rw [isActive, hactivity]; rfl), hactivity]
      exact mul_le_mul_of_nonneg_left hle (hupper a htype hactivity)
    | inactive =>
      rw [hinactive a (by rw [isActive, hactivity]; rfl), mul_zero, zero_mul, zero_mul]
    | undefined =>
      rw [hinactive a (by rw [isActive, hactivity]; rfl), mul_zero, zero_mul, zero_mul]

theorem canEnter_spec (hs : s.InStep) {side : Activity} (he : s.CanEnter side e) :
    s.activity e = .inactive ∧ s.limitType e ≠ .equality ∧ (side = .lower ∨ side = .upper) := by
  have hside : side.isActive = true → side = .lower ∨ side = .upper := by
    cases side with
    | lower => exact fun _ => .inl rfl
    | upper => exact fun _ => .inr rfl
    | inactive => exact nofun
    | undefined => exact nofun
  cases e with
  | bound i =>
    have he : s.bounds.CanEnter i side := he
    exact ⟨he.inactive, he.type_ne_equality hs.classified, hside he.isActive_side⟩
  | constraint i =>
    have he : s.constraints.CanEnter i side := he
    exact ⟨he.inactive, he.type_ne_equality hs.classified_constraints, hside he.isActive_side⟩

/-- What cannot enter at a side for want of an entity to give up tried the direction of its side. -/
theorem leaving_of_firstLeaving_eq_none {side : Activity} (h : s.firstLeaving e side = none)
    (htype : s.limitType e ≠ .equality) : s.leaving (side = .upper) = none := by
  refine firstLeaving_eq_none_iff.1 h _ ?_
  unfold directions
  rw [if_neg htype]
  split
  · next hside => simp [hside]
  · next hside => simp [hside]

/-- The row of an entity is a combination of active rows in which no inequality has a coefficient of the
sign with which it could be given up. -/
def Walled (s : Constrained ℝ n m) (e : Entity n m) (side : Activity) : Prop :=
  ∃ c : Entity n m → ℝ, (∀ a, s.isActive a = false → c a = 0) ∧
    (∀ j, j < n → s.row e j = ∑ a, c a * s.row a j) ∧
      ∀ a, s.limitType a ≠ .equality →
        (s.activity a = .lower → sign (side = .upper) * c a ≤ 0) ∧
          (s.activity a = .upper → 0 ≤ sign (side = .upper) * c a)

theorem Walled.dependsOn {side : Activity} (h : s.Walled e side) :
    s.DependsOn (fun a => s.isActive a = true) e := by
  obtain ⟨c, hinactive, hrow, -⟩ := h
  exact ⟨c, fun a ha => hinactive a (Bool.not_eq_true _ ▸ ha), hrow⟩

theorem Walled.congr {side : Activity} (h : s.Walled e side) (hdata : s.SameData s') (hactivity : s'.activity = s.activity)
    (htype : ∀ a, s'.limitType a = s.limitType a) : s'.Walled e side := by
  obtain ⟨c, hinactive, hrow, hsign⟩ := h
  refine ⟨c, fun a ha => hinactive a ?_, fun j hj => ?_, fun a ha => ?_⟩
  · rwa [isActive, ← hactivity]
  · rw [hdata.row_eq]
    exact hrow j hj
  · rw [hactivity]
    exact hsign a (htype a ▸ ha)

/-- What is dependent and cannot enter is such an entity. -/
theorem Stuck.walled {side : Activity} (h : s.Stuck e side w s') (hs : s.InStep)
    (hf : s.nullSpace.Factors s.activeEntry) (hw : s.Prepared w e)
    (heps : s.parameters.epsDependent = 0) (hind : w.independent = false) (he : s.CanEnter side e) :
    s.Walled e side := by
  obtain ⟨hactivity, htype, -⟩ := canEnter_spec hs he
  have hactive : s.isActive e = false := by
    rw [isActive, hactivity]
    rfl
  obtain ⟨hdependent, hnone⟩ := h
  obtain ⟨hrow, hinactive⟩ := hdependent.row_eq hs.toListed hf hw heps hactive hind
  cases hdependent with
  | intro hxi =>
    exact ⟨_, hinactive, hrow, fun a htype' =>
      sign_of_leaving_eq_none (leaving_of_firstLeaving_eq_none hnone htype) heps htype'⟩

/-- If such an entity passes its limit, no point is within the loaded limits. -/
theorem Walled.infeasible {side : Activity} (h : s.Walled e side) (hside : side = .lower ∨ side = .upper)
    (hequal : ∀ a, s.limitType a = .equality → s.target.lowerOf a = s.target.upperOf a)
    (hpasses : s.Passes e side) (x : ℕ → ℝ) : ¬s.Feasible x := by
  intro hx
  obtain ⟨z, hz, hlower, hupper⟩ := hpasses
  obtain ⟨c, hinactive, hrow, hsign⟩ := h
  have hvalue : ∀ x, s.valueOf x e = ∑ a, c a * s.valueOf x a := sum_mul_valueOf hrow
  have hle : sign (side = .upper) * s.valueOf x e ≤ sign (side = .upper) * s.valueOf z e := by
    rw [hvalue, hvalue]
    exact combination_le hinactive hequal (fun a htype hside => (hsign a htype).1 hside)
      (fun a htype hside => (hsign a htype).2 hside) hx hz
  obtain ⟨hge, hle'⟩ := hx e
  rcases hside with rfl | rfl
  · have hbeyond := hlower rfl
    rw [show sign (Activity.lower = .upper) = 1 from if_neg (by decide), one_mul, one_mul] at hle
    linarith
  · have hbeyond := hupper rfl
    rw [show sign (Activity.upper = .upper) = -1 from if_pos rfl] at hle
    linarith

/-- Where a dependent entity cannot enter, no point is within the loaded limits. -/
theorem Stuck.infeasible {side : Activity} (h : s.Stuck e side w s') (hs : s.InStep)
    (hf : s.nullSpace.Factors s.activeEntry) (hw : s.Prepared w e)
    (heps : s.parameters.epsDependent = 0) (hind : w.independent = false)
    (he : s.CanEnter side e) (hequal : ∀ a, s.limitType a = .equality →
      s.target.lowerOf a = s.target.upperOf a) (hpasses : s.Passes e side) (x : ℕ → ℝ) :
    ¬s.Feasible x :=
  (h.walled hs hf hw heps hind he).infeasible (canEnter_spec hs he).2.2 hequal hpasses x

end Constrained

end ActiveSet
