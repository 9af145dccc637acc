import ActiveSet.Proofs.Factor.Semidefinite
import ActiveSet.Proofs.Solver.Constrained.Convex
import ActiveSet.Proofs.Solver.Constrained.OptimalSession
import ActiveSet.Proofs.Solver.FlatDirections
import ActiveSet.Proofs.Verdict

/-!
# Singular pivots

If the matrix of the objective is semidefinite, the only reason for which its factor cannot follow the
null space, without tolerances, is a flat direction of the working set that is left
(`Unfollowed.flat`). While the factor fits the null space there is none (`Ready.not_flat`), so the
entity that has left feels the direction (`Stranded.felt`). If it left because its multiplier had reached
zero, the loaded objective falls along the direction that leads away from its limit (`Stranded.falls`).
-/

namespace ActiveSet.Constrained

open Finset

variable {n m : ℕ} {s s' : Constrained ℝ n m} {e : Entity n m} {error : QpError}

theorem Flat.congr {d : Tuple ℝ n} (h : s.Flat d) (hb : s'.bounds = s.bounds)
    (hc : s'.constraints = s.constraints) (hH : s'.hessian = s.hessian) (hA : s'.matrix = s.matrix) :
    s'.Flat d := by
  refine ⟨⟨h.ne_zero, ?_, ?_⟩, ?_⟩
  · rw [hH]
    exact h.vanishes
  · rw [hb]
    exact h.fixed
  · rw [hc, hA]
    exact h.rows

/-- A flat direction changes the value of no entity of the working set. -/
theorem Flat.valueOf_eq {d : Tuple ℝ n} (h : s.Flat d) {a : Entity n m} (ha : s.isActive a = true) :
    s.valueOf d a = 0 := by
  cases a with
  | bound i =>
    rw [valueOf_bound]
    exact h.fixed i ha
  | constraint i => exact h.rows i ha

theorem valueOf_reversed (s : Constrained ℝ n m) (d : Tuple ℝ n) (e : Entity n m) :
    s.valueOf (d.scale (-1)) e = -s.valueOf d e := by
  rw [valueOf, sum_mul_scale, neg_one_mul, valueOf]

/-- Where the gradient of the loaded objective is a combination of rows, it is known how the objective
changes along a direction in which its matrix vanishes. -/
theorem slope_of_balanced {d : Tuple ℝ n} {z : ℕ → ℝ} {v : Entity n m → ℝ} (hsymm : s.SymmetricHessian)
    (hd : ∀ j, j < n → ∑ k ∈ range n, s.hessian j k * d k = 0)
    (hbalanced : ∀ j, j < n → ∑ k ∈ range n, s.hessian j k * z k + s.target.gradient j =
      ∑ a, v a * s.row a j) : s.slope d = ∑ a, v a * s.valueOf d a := by
  -- a flat direction has no product with `H z`
  have hmixed : ∑ j ∈ range n, (∑ k ∈ range n, s.hessian j k * z k) * d j = 0 := by
    simp only [sum_mul]
    rw [sum_comm]
    refine sum_eq_zero fun k hk => ?_
    calc ∑ j ∈ range n, s.hessian j k * z k * d j
        = z k * ∑ j ∈ range n, s.hessian k j * d j := by
          rw [mul_sum]
          exact Finset.sum_congr rfl fun j _ => by rw [hsymm j k]; ring
      _ = 0 := by rw [hd k (mem_range.1 hk), mul_zero]
  calc s.slope d
      = ∑ j ∈ range n, (∑ k ∈ range n, s.hessian j k * z k) * d j +
          ∑ j ∈ range n, s.target.gradient j * d j := by rw [hmixed, zero_add]; rfl
    _ = ∑ j ∈ range n, (∑ a, v a * s.row a j) * d j := by
        rw [← sum_add_distrib]
        refine Finset.sum_congr rfl fun j hj => ?_
        rw [← hbalanced j (mem_range.1 hj), add_mul]
    _ = ∑ a, v a * s.valueOf d a := sum_mul_valueOf (fun _ _ => rfl) d

/-- The matrix of the objective is semidefinite, and no comparison of a pivot has a tolerance. -/
structure Convex (s : Constrained ℝ n m) : Prop where
  semidefinite : Semidefinite n s.hessian
  epsZero_eq : s.parameters.epsZero = 0
  epsDefinite_eq : s.parameters.epsDefinite = 0

theorem Convex.congr (h : s.Convex) (hsame : s.SameData s') : s'.Convex := by
  refine ⟨?_, ?_, ?_⟩
  · rw [hsame.hessian]
    exact h.semidefinite
  · rw [hsame.parameters]
    exact h.epsZero_eq
  · rw [hsame.parameters]
    exact h.epsDefinite_eq

/-- A combination of the basis of the null space, over all variables. -/
noncomputable def nullVector (s : Constrained ℝ n m) (u : ℕ → ℝ) : Tuple ℝ n :=
  spread s.free (fun p _ => ∑ k ∈ range s.nNull, s.nullSpace.q p k * u k) (Tuple.fill n 0)

/-- The product with a combination of the basis is the combination of the coordinates. -/
theorem sum_mul_nullVector (hs : s.Listed) (a u : ℕ → ℝ) :
    ∑ j ∈ range n, a j * s.nullVector u j =
      ∑ k ∈ range s.nNull, coord s.nullSpace.nFree (gather s.free a) s.nullSpace.q k * u k := by
  have hnFree := hs.nFree_eq
  unfold nullVector coord
  rw [sum_mul_spread_zero hs.listed.nodup a fun p => ∑ k ∈ range s.nNull, s.nullSpace.q p k * u k,
    hnFree]
  simp only [mul_sum, sum_mul]
  rw [sum_comm]
  exact Finset.sum_congr rfl fun k _ => Finset.sum_congr rfl fun p _ => by ring

/-- On the null space, the form of the matrix of the objective is that of the reduced matrix. -/
theorem form_nullVector (hs : s.Listed) (u : ℕ → ℝ) :
    form n s.hessian (s.nullVector u) = form s.nNull s.reduced u := by
  have hnFree := hs.nFree_eq
  have hspread := form_spread s.hessian hs.listed.nodup
    fun p => ∑ k ∈ range s.nNull, s.nullSpace.q p k * u k
  unfold reduced
  rw [form_quad, hnFree]
  exact hspread

/-- A combination of the basis is not zero unless its coefficients are. -/
theorem nullVector_ne_zero (hs : s.Listed) (hf : s.nullSpace.Factors s.activeEntry) {u : ℕ → ℝ}
    (hu : ∃ k, k < s.nNull ∧ u k ≠ 0) : ∃ j, j < n ∧ s.nullVector u j ≠ 0 := by
  have hnull := hs.nNull_add
  have hnFree := hs.nFree_eq
  obtain ⟨k, hk, hne⟩ := hu
  by_contra hnone
  have hzero : ∀ p, p < s.free.length → ∑ k ∈ range s.nNull, s.nullSpace.q p k * u k = 0 := by
    intro p hp
    by_contra hne
    refine hnone ⟨s.free[p], (s.free[p]).isLt, ?_⟩
    rw [← gather_of_lt hp (s.nullVector u), nullVector, gather_spread hs.listed.nodup hp]
    exact hne
  refine hne ?_
  rw [← hf.orthonormal.coord_combination (e := s.nNull) (by omega) u hk]
  exact sum_eq_zero fun p hp => by rw [hzero p (by simpa [hnFree] using hp), mul_zero]

/-- A combination of the basis changes the value of no entity of the working set. -/
theorem valueOf_nullVector (hs : s.Listed) (hf : s.nullSpace.Factors s.activeEntry) (u : ℕ → ℝ)
    (he : s.isActive e = true) : s.valueOf (s.nullVector u) e = 0 := by
  cases e with
  | bound i =>
    rw [valueOf_bound, nullVector, spread_of_notMem]
    · exact Tuple.fill_apply i.isLt
    · rw [hs.listed.mem_iff, show s.bounds.isActive i = true from he]
      exact Bool.true_eq_false_eq_False
  | constraint i =>
    obtain ⟨c, hc⟩ := List.get_of_mem ((hs.active_listed.mem_iff i).2 he)
    refine (sum_mul_nullVector hs _ u).trans (sum_eq_zero fun k hk => ?_)
    have hzero := hf.null c k (hs.nActive_eq.symm ▸ c.isLt) (mem_range.1 hk)
    have hentry : s.activeEntry c = gather s.free (s.row (.constraint i)) := by
      funext p
      rw [activeEntry_of_lt c.isLt, ← hc]
      rfl
    rw [hentry] at hzero
    rw [hzero, zero_mul]

/-- If the factor cannot follow the null space, there is a flat direction. -/
theorem Unfollowed.flat {removal : QpError} (h : s.Unfollowed removal error s') (hs : s.Listed)
    (hsymm : s.SymmetricHessian) (hf : s.Factored) (hdim : s.factor.dim + 1 = s.nNull)
    (hconvex : s.Convex) : ∃ d, s'.Flat d := by
  have hnull := hs.nNull_add
  have hle := hs.length_free_le
  have hnFree := hs.nFree_eq
  have hlast : s.factor.dim = s.nNull - 1 := by omega
  cases h with
  | @intro f tilt hfailed =>
    rw [hconvex.epsDefinite_eq, hconvex.epsZero_eq] at hfailed
    -- the last column of the reduced Hessian depends on the others
    obtain ⟨u, hone, hform⟩ := hf.triangular.exists_flat (N := s.reduced) (by omega) hlast.symm
      (fun _ _ _ _ => rfl) (fun j hj => by rw [lastProducts_apply hs (by omega), hlast])
      (fun j _ => reduced_comm hs hsymm _ _) (by rw [lastCurvature_eq hs, hlast]) hfailed
    rw [hdim, ← form_nullVector hs] at hform
    -- the combination moves no active row and no fixed variable
    have hvalue := fun e he => valueOf_nullVector (e := e) hs hf.split u he
    refine ⟨s.nullVector u, ⟨⟨nullVector_ne_zero hs hf.split ⟨s.factor.dim, by omega, ?_⟩,
      fun j hj => ?_, fun i hi => ?_⟩, fun i hi => hvalue (.constraint i) hi⟩⟩
    · rw [hone]
      exact one_ne_zero
    · exact hconvex.semidefinite.vanishes (fun i j _ _ => hsymm i j) hform hj
    · have hzero := hvalue (.bound i) hi
      rwa [valueOf_bound] at hzero

/-- While the factor fits the null space, there is no flat direction. -/
theorem Ready.not_flat (hs : s.Ready) {d : Tuple ℝ n} : ¬s.Flat d := by
  intro h
  have hf := hs.factored
  have hnFree := hs.inStep.nFree_eq
  have hnActive := hs.inStep.nActive_eq
  have hnull := s.nullSpace.nNull_add
  have hdim : s.factor.dim = s.nullSpace.nNull := hs.inStep.dim_eq
  have hsum : ∀ r : ℕ → ℝ, ∑ j ∈ range n, r j * d j =
      ∑ p ∈ range s.nullSpace.nFree, gather s.free r p * gather s.free d p := by
    intro r
    rw [sum_free_add hs.inStep.toListed, hnFree]
    simp only [gather_mul]
    refine add_eq_left.2 (sum_eq_zero fun i _ => ?_)
    split
    · next hi => rw [h.fixed i hi, mul_zero]
    · rfl
  -- the active rows leave no part outside the null space
  let w (j : ℕ) : ℝ := coord s.nullSpace.nFree (gather s.free d) s.nullSpace.q j
  have hrange : ∀ j, j < s.nullSpace.nActive → w (s.nullSpace.nNull + j) = 0 := by
    refine hf.split.columns_independent fun c hc => ?_
    have hc' : c < s.active.length := hnActive ▸ hc
    have hrow := h.rows s.active[c] ((hs.inStep.active_listed.mem_iff _).1 (List.getElem_mem hc'))
    rw [hsum] at hrow
    rw [← hrow]
    simp only [w, coord, mul_sum]
    rw [sum_comm]
    refine Finset.sum_congr rfl fun p hp => ?_
    rw [← activeEntry_of_lt hc', ← hf.split.rows_eq hc (mem_range.1 hp), sum_mul]
    exact Finset.sum_congr rfl fun j _ => by ring
  have hcombination : ∀ p, p < s.nullSpace.nFree →
      gather s.free d p = ∑ k ∈ range s.nullSpace.nNull, s.nullSpace.q p k * w k := by
    intro p hp
    rw [← hf.split.orthonormal.expand (gather s.free d) hp, ← hnull, sum_range_add, hnull]
    rw [add_eq_left.2 (sum_eq_zero fun j hj => ?_)]
    · exact Finset.sum_congr rfl fun k _ => mul_comm _ _
    · have hzero := hrange j (mem_range.1 hj)
      rw [show coord s.nullSpace.nFree (gather s.free d) s.nullSpace.q (s.nullSpace.nNull + j) = 0
        from hzero, zero_mul]
  -- nor does the factor within it
  have hcoordinates : ∀ k, k < s.factor.dim → w k = 0 := by
    refine hf.triangular.eq_zero fun i hi => ?_
    unfold reduced
    rw [sum_quad_mul, hdim]
    refine sum_eq_zero fun p hp => ?_
    have hp := mem_range.1 hp
    have hp' : p < s.free.length := hnFree ▸ hp
    have hproduct : ∑ r ∈ range s.nullSpace.nFree, s.freeHessian p r *
        ∑ k ∈ range s.nullSpace.nNull, s.nullSpace.q r k * w k = 0 := by
      rw [← h.vanishes s.free[p] (s.free[p]).isLt, hsum]
      refine Finset.sum_congr rfl fun r hr => ?_
      rw [← hcombination r (mem_range.1 hr), freeHessian, gather_of_lt hp']
    exact mul_eq_zero_of_left hproduct _
  obtain ⟨j, hj, hne⟩ := h.ne_zero
  by_cases hactive : s.bounds.isActive (⟨j, hj⟩ : Fin n) = true
  · exact hne (h.fixed ⟨j, hj⟩ hactive)
  · obtain ⟨p, hp, hpj⟩ := List.mem_iff_getElem.1
      ((hs.inStep.listed.mem_iff ⟨j, hj⟩).2 (by simpa using hactive))
    have hentry := hcombination p (by omega)
    rw [gather_of_lt hp, hpj, sum_eq_zero fun k hk => by
      rw [hcoordinates k (by have := mem_range.1 hk; omega), mul_zero]] at hentry
    exact hne hentry

/-- An entity has left the working set, and what has been loaded is the same. -/
theorem Stranded.left (h : s.Stranded e error s') (hs : s.InOrder) :
    s.SameData s' ∧ ∀ a, s'.isActive a = if a = e then false else s.isActive a := by
  obtain ⟨s1, removal, hreleased, -, -, hunfollowed⟩ := h
  have hmoved := hreleased.moved hs
  have hinside : ∀ a, s1.isActive a = if a = e then false else s.isActive a := by
    intro a
    rw [isActive, hmoved.activity_eq]
    split <;> rfl
  cases hunfollowed
  refine ⟨⟨hmoved.parameters, hmoved.hessian, hmoved.matrix, hmoved.target, hmoved.hessianType⟩,
    fun a => ?_⟩
  rw [← hinside]
  cases a <;> rfl

/-- An entity leaves a flat direction behind, if the factor cannot follow. -/
theorem Stranded.flat (h : s.Stranded e error s') (hs : s.Moving) (hconvex : s.Convex) :
    ∃ d, s'.Flat d := by
  obtain ⟨s1, removal, hreleased, hlisted, hdim, hunfollowed⟩ := h
  have hdata : s.SameData s1 := by
    cases hreleased <;> exact ⟨rfl, rfl, rfl, rfl, rfl⟩
  exact hunfollowed.flat hlisted (hs.symmetric.congr hdata.hessian)
    (hreleased.factored hs.inStep hs.factored) hdim (hconvex.congr hdata)

/-- The entity feels each of these directions, since there was none before. -/
theorem Stranded.felt (h : s.Stranded e error s') (hs : s.Moving) {d : Tuple ℝ n} (hd : s'.Flat d) :
    s.valueOf d e ≠ 0 := by
  intro hzero
  obtain ⟨hdata, hleft⟩ := h.left hs.inStep.toInOrder
  have hactive : ∀ a, s.isActive a = true → s.valueOf d a = 0 := by
    intro a ha
    by_cases hae : a = e
    · rw [hae, hzero]
    · rw [← hdata.valueOf_eq]
      exact hd.valueOf_eq (by rw [hleft, if_neg hae, ha])
  have hvanishes := hd.vanishes
  rw [hdata.hessian] at hvanishes
  refine hs.toReady.not_flat (d := d) ⟨⟨hd.ne_zero, hvanishes, fun i hi => ?_⟩, fun i hi => ?_⟩
  · rw [← s.valueOf_bound d i]
    exact hactive (.bound i) hi
  · exact hactive (.constraint i) hi

/-- If the multiplier of the entity has reached zero, the loaded objective falls along the flat direction
that leads away from its limit: the entity alone feels it, and its multiplier at the loaded problem has the
sign of the other side. -/
theorem Stranded.falls (h : s.Stranded e error s') (hs : s.Moving) (hreached : s.Reached (.remove e))
    (hconvex : s.Convex) :
    ∃ d, s'.Flat d ∧ s.slope d < 0 ∧ Inwards (s.activity e) (s.valueOf d e) := by
  obtain ⟨hdata, hleft⟩ := h.left hs.inStep.toInOrder
  obtain ⟨-, z, v, -, hbalanced, hinactive, hsign⟩ := hreached
  -- what is left of the balance at the loaded problem is the part of that entity
  have hslope {d : Tuple ℝ n} (hd : s'.Flat d) : s.slope d = v e * s.valueOf d e := by
    have hvanishes := hd.vanishes
    rw [hdata.hessian] at hvanishes
    rw [slope_of_balanced hs.symmetric hvanishes hbalanced]
    refine sum_eq_single e (fun a _ hne => ?_) fun hnot => absurd (mem_univ e) hnot
    by_cases ha : s.isActive a = true
    · have hzero := hd.valueOf_eq (a := a) (by rw [hleft, if_neg hne, ha])
      rw [hdata.valueOf_eq] at hzero
      rw [hzero, mul_zero]
    · rw [hinactive a (by simpa using ha), zero_mul]
  have hfalls {d : Tuple ℝ n} (hd : s'.Flat d) (hinwards : Inwards (s.activity e) (s.valueOf d e)) :
      s.slope d < 0 := by
    rw [hslope hd]
    rcases hsign with ⟨hside, hlt⟩ | ⟨hside, hlt⟩
    · exact mul_neg_of_neg_of_pos hlt (hside ▸ hinwards).pos
    · exact mul_neg_of_pos_of_neg hlt (hside ▸ hinwards).neg
  -- one of the two orientations leads away from the limit
  obtain ⟨d, hd⟩ := h.flat hs hconvex
  by_cases hinwards : Inwards (s.activity e) (s.valueOf d e)
  · exact ⟨d, hd, hfalls hd hinwards, hinwards⟩
  · have hside := hsign.imp And.left And.left
    have hreversed : Inwards (s.activity e) (s.valueOf (d.scale (-1)) e) := by
      rw [valueOf_reversed]
      exact .reversed hside (h.felt hs hd) hinwards
    exact ⟨d.scale (-1), hd.reversed, hfalls hd.reversed hreversed, hreversed⟩

-- ---------------------------------------------------------------------------
-- Calls
-- ---------------------------------------------------------------------------

/-- The verdict comes from a factor that cannot follow. -/
theorem ChangeFailed.refused_of_unbounded {event : StepEvent n m}
    (h : s.ChangeFailed event .hotstartStoppedUnboundedness s') :
    s.Refused event .hotstartStoppedUnboundedness s' := by
  generalize herror : QpError.hotstartStoppedUnboundedness = error at h ⊢
  cases h with
  | refused _ _ hcause => exact hcause
  | @stuck e _ _ _ _ _ _ _ _ => cases e <;> cases herror
  | @dependent e _ _ _ _ _ _ _ _ _ _ _ _ _ => cases e <;> cases herror

/-- An event is refused with the verdict where a flat direction is left, and what has been loaded is
the same. -/
theorem Refused.flat {event : StepEvent n m}
    (h : s.Refused event .hotstartStoppedUnboundedness s') (hs : s.Moving) (hconvex : s.Convex) :
    s.SameData s' ∧ ∃ d, s'.Flat d := by
  cases h with
  | exchange hreordered hw hind hdependent hstranded =>
    have hmoving := hdependent.moving (hreordered.moving hs)
    have hdata := hreordered.sameData.trans hdependent.sameData
    exact ⟨hdata.trans (hstranded.left hmoving.inStep.toInOrder).1,
      hstranded.flat hmoving (hconvex.congr hdata)⟩
  | removal hstranded =>
    exact ⟨(hstranded.left hs.inStep.toInOrder).1, hstranded.flat hs hconvex⟩

/-- Where the homotopy of a call comes to an event, the working set can follow it or be refused. -/
theorem refused_of_condemned {P : Phases n m (Constrained ℝ n m)}
    {admits : Call ℝ n m (Loading ℝ) → Constrained ℝ n m → Prop}
    (hI : (Constrained.interface ℝ n m).Respects P admits)
    (hP : ∀ event s, P.stepped event s → s.InStep ∧ s.Fits event)
    {c : Call ℝ n m (Loading ℝ)} {start s1 : Constrained ℝ n m} {event : StepEvent n m}
    (hs : (Constrained.interface ℝ n m).method.Settled P s) (hc : admits c s)
    (hstarts : (Constrained.interface ℝ n m).StartsBy s c start)
    (h : (Constrained.interface ℝ n m).method.Condemned start event s1 s') :
    P.stepped event s1 ∧ ∃ s2, s1.Refused event .hotstartStoppedUnboundedness s2 ∧
      s' = { s2 with status := .notInitialised, unbounded := true } := by
  cases h with
  | @intro s2 hcomes hchange =>
    obtain ⟨hmoving, hstart⟩ := hI.moving_of_startsBy hs hc hstarts
    obtain ⟨hstepped, hevent⟩ := hI.method.stepped_of_comesTo hmoving hstart hcomes
    obtain ⟨hin, hfits⟩ := hP event s1 hstepped
    obtain ⟨error, heq, hfailed⟩ := (changeWorkingSet_ensures hin hevent hfits).of_error hchange
    cases heq
    exact ⟨hstepped, s2, hfailed.refused_of_unbounded, rfl⟩

/-- A call with the verdict leaves a flat direction behind, and does not touch what has been loaded. -/
theorem flat_of_call (hs : (Constrained.interface ℝ n m).Reachable exactCalls s)
    (hconvex : s.Convex) {c : Call ℝ n m (Loading ℝ)} (hc : exactCalls c s) {e : QpError}
    (he : c.unboundedness = some e)
    (hcall : (Constrained.interface ℝ n m).call c s = (.error (.failed e), s')) :
    s'.unbounded = true ∧ s.SymmetricHessian ∧ s.SameData s' ∧ ∃ d, s'.Flat d := by
  obtain ⟨start, event, s1, hstarts, hcondemned⟩ :=
    (Constrained.interface ℝ n m).condemned_of_call he (fun h => by
      rcases checkLimits_error h with h | h <;> cases h) hcall
  have hI : (Constrained.interface ℝ n m).Respects (factoredPhases s.SameData)
      fun c s' => exactCalls c s' ∧ s.SameData s' := respects_factored fun _ _ h h' => h.trans h'
  obtain ⟨⟨⟨hmoving, -⟩, hdata⟩, s2, hrefused, rfl⟩ := refused_of_condemned hI
    (fun _ _ h => ⟨h.1.1.inStep, h.1.2⟩) (settled_factored hs) ⟨hc, ⟨rfl, rfl, rfl, rfl, rfl⟩⟩ hstarts
    hcondemned
  obtain ⟨hdata', d, hd⟩ := hrefused.flat hmoving (hconvex.congr hdata)
  have hsame := hdata.trans hdata'
  exact ⟨rfl, hmoving.symmetric.congr hdata.hessian.symm,
    ⟨hsame.parameters, hsame.hessian, hsame.matrix, hsame.target, hsame.hessianType⟩, d,
    hd.congr rfl rfl rfl rfl⟩

/-- If a call with the verdict has come, without tolerances, to an event where an entity was to leave, it
has left, and the loaded objective falls along a flat direction that leads away from its limit. -/
theorem falls_of_condemned (hs : (Constrained.interface ℝ n m).Reachable (courseCalls False) s)
    (hconvex : s.Convex) {c : Call ℝ n m (Loading ℝ)} (hc : courseCalls False c s)
    {start s1 : Constrained ℝ n m} (hstarts : (Constrained.interface ℝ n m).StartsBy s c start)
    (hcondemned : (Constrained.interface ℝ n m).method.Condemned start (.remove e) s1 s') :
    s'.isActive e = false ∧
      ∃ d, s'.Flat d ∧ s.slope d < 0 ∧ Inwards (s1.activity e) (s.valueOf d e) := by
  have hI : (Constrained.interface ℝ n m).Respects (optimalPhases False s.SameData)
      fun c s' => courseCalls False c s' ∧ s.SameData s' := respects_course fun _ _ h h' => h.trans h'
  obtain ⟨⟨⟨hunderway, -, hreached⟩, hdata⟩, s2, hrefused, rfl⟩ := refused_of_condemned hI
    (fun _ _ h => ⟨h.1.1.inStep, h.1.2.1⟩) (settled_course hs) ⟨hc, ⟨rfl, rfl, rfl, rfl, rfl⟩⟩ hstarts
    hcondemned
  -- the event is a removal, so the pivot failed on the removal itself
  cases hrefused with
  | removal hstranded =>
    obtain ⟨d, hd, hfalls, hinwards⟩ :=
      hstranded.falls hunderway.toMoving hreached (hconvex.congr hdata)
    have hleft := (hstranded.left hunderway.inStep.toInOrder).2 e
    rw [if_pos rfl] at hleft
    refine ⟨?_, d, hd.congr rfl rfl rfl rfl, ?_, ?_⟩
    · cases e <;> exact hleft
    · rwa [Core.slope, hdata.target] at hfalls
    · rwa [hdata.valueOf_eq] at hinwards

end ActiveSet.Constrained
