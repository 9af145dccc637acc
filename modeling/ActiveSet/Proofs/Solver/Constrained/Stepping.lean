import ActiveSet.Proofs.Solver.Constrained.Following

/-!
# A step keeps a solution

The step length is the largest for which no multiplier loses its sign and no limit is passed, and
what ends the step is reached exactly: writing it down as such changes nothing. So a step along a
direction that follows the data leads to the solution of another problem on the way
(`Advanced.optimal`).

* `firstBlocker_spec`: the first blocker is the earliest one.
* `Passable`, `TakesPlace`, `stepLength_spec`: how far the direction is followed, and where it ends.
* `Advanced`: the state after a step.
-/

namespace ActiveSet

open Finset

variable {n m : ℕ}

-- ---------------------------------------------------------------------------
-- The first blocker
-- ---------------------------------------------------------------------------

/-- The first of a list of blockers is the earliest, and earlier than the whole way, or the whole way
is free. -/
theorem firstBlocker_spec (l : List (Blocker ℝ n m)) :
    (firstBlocker l = ⟨1, .full⟩ ∨ firstBlocker l ∈ l ∧ (firstBlocker l).tau < 1) ∧
      (firstBlocker l).tau ≤ 1 ∧ ∀ b ∈ l, (firstBlocker l).tau ≤ b.tau := by
  -- what the search holds is never later than what it started with
  suffices hfold : ∀ best : Blocker ℝ n m,
      let r := l.foldl (fun best b => if b.tau < best.tau then b else best) best
      (r = best ∨ r ∈ l ∧ r.tau < best.tau) ∧ r.tau ≤ best.tau ∧ ∀ b ∈ l, r.tau ≤ b.tau from
    hfold ⟨1, .full⟩
  induction l with
  | nil => exact fun best => ⟨.inl rfl, le_refl best.tau, nofun⟩
  | cons b rest ih =>
    intro best
    rw [List.foldl_cons]
    split
    · next hlt =>
      obtain ⟨hcases, hle, hall⟩ := ih b
      refine ⟨.inr ?_, hle.trans hlt.le, List.forall_mem_cons.2 ⟨hle, hall⟩⟩
      rcases hcases with heq | ⟨hmem, htau⟩
      · rw [heq]
        exact ⟨List.mem_cons_self, hlt⟩
      · exact ⟨List.mem_cons_of_mem _ hmem, htau.trans hlt⟩
    · next hnot =>
      obtain ⟨hcases, hle, hall⟩ := ih best
      refine ⟨?_, hle, List.forall_mem_cons.2 ⟨hle.trans (not_lt.1 hnot), hall⟩⟩
      rcases hcases with heq | ⟨hmem, htau⟩
      · exact .inl heq
      · exact .inr ⟨List.mem_cons_of_mem _ hmem, htau⟩

namespace Constrained

variable {s : Constrained ℝ n m}

/-- The course of an entity. -/
noncomputable def courseOf (s : Constrained ℝ n m) : Entity n m → Course ℝ
  | .bound i => s.boundCourse i
  | .constraint i => s.rowCourse i

/-- The blockers of a step are those of all entities. -/
theorem mem_blockers {b : Blocker ℝ n m} : b ∈ s.boundBlockers ++ s.rowBlockers ↔
    ∃ e, b ∈ (s.courseOf e).blockers s.parameters.epsZero e := by
  rw [List.mem_append, Core.mem_boundBlockers, mem_rowBlockers]
  constructor
  · rintro (⟨i, hi⟩ | ⟨i, hi⟩)
    · exact ⟨.bound i, hi⟩
    · exact ⟨.constraint i, hi⟩
  · rintro ⟨e | i, he⟩
    · exact .inl ⟨e, he⟩
    · exact .inr ⟨i, he⟩

/-- The course of an entity in terms of its row, its limits and its multiplier. -/
theorem courseOf_eq (hax : ∀ i : Fin m, s.ax i = s.valueOf s.x (.constraint i))
    (hdax : ∀ i : Fin m, s.dax i = s.valueOf s.dx (.constraint i)) (e : Entity n m) :
    s.courseOf e = {
      type := s.limitType e
      activity := s.activity e
      finite := ⟨s.hasSide .lower e, s.hasSide .upper e⟩
      value := s.valueOf s.x e
      valueChange := s.valueOf s.dx e
      lower := s.current.lowerOf e
      lowerChange := s.shift.lowerOf e
      upper := s.current.upperOf e
      upperChange := s.shift.upperOf e
      multiplier := s.y.get e
      multiplierChange := s.dy.get e } := by
  cases e with
  | bound i =>
    rw [valueOf_bound, valueOf_bound]
    rfl
  | constraint i =>
    rw [← hax, ← hdax]
    rfl

/-- No multiplier loses its sign and no limit is passed on a part of the way. -/
structure Passable (s : Constrained ℝ n m) (tau : ℝ) : Prop where
  lower : ∀ e, s.activity e = .lower → s.limitType e ≠ .equality →
    0 ≤ s.y.get e + tau * s.dy.get e
  upper : ∀ e, s.activity e = .upper → s.limitType e ≠ .equality →
    s.y.get e + tau * s.dy.get e ≤ 0
  lower_le : ∀ e, s.activity e = .inactive → s.hasSide .lower e = true →
    s.current.lowerOf e + tau * s.shift.lowerOf e ≤ s.valueOf s.x e + tau * s.valueOf s.dx e
  le_upper : ∀ e, s.activity e = .inactive → s.hasSide .upper e = true →
    s.valueOf s.x e + tau * s.valueOf s.dx e ≤ s.current.upperOf e + tau * s.shift.upperOf e

/-- What takes place at the end of a step: the loaded problem is reached, or an entity reaches a
limit that it would pass on the rest of the way, or a multiplier reaches zero and would lose its
sign. -/
inductive TakesPlace (s : Constrained ℝ n m) (tau : ℝ) : StepEvent n m → Prop
  | full (htau : tau = 1) : TakesPlace s tau .full
  | lower {e : Entity n m} (hreached : s.valueOf s.x e + tau * s.valueOf s.dx e =
      s.current.lowerOf e + tau * s.shift.lowerOf e)
    (hpasses : s.valueOf s.x e + s.valueOf s.dx e < s.current.lowerOf e + s.shift.lowerOf e) :
    TakesPlace s tau (.add e .lower)
  | upper {e : Entity n m} (hreached : s.valueOf s.x e + tau * s.valueOf s.dx e =
      s.current.upperOf e + tau * s.shift.upperOf e)
    (hpasses : s.current.upperOf e + s.shift.upperOf e < s.valueOf s.x e + s.valueOf s.dx e) :
    TakesPlace s tau (.add e .upper)
  | remove {e : Entity n m} (hzero : s.y.get e + tau * s.dy.get e = 0)
    (hpasses : s.activity e = .lower ∧ s.y.get e + s.dy.get e < 0 ∨
      s.activity e = .upper ∧ 0 < s.y.get e + s.dy.get e) : TakesPlace s tau (.remove e)

/-- The distance to something that comes closer is not used up before the ratio of distance and
speed, and just then. -/
theorem ratio_spec (tau : ℝ) {a d : ℝ} (ha : 0 ≤ a) (hd : d < 0) :
    (tau ≤ max (a / -d) 0 → 0 ≤ a + tau * d) ∧
      (tau = max (a / -d) 0 → a + tau * d = 0 ∧ (tau < 1 → a + d < 0)) := by
  have hpos : 0 < -d := neg_pos.2 hd
  have hmax : max (a / -d) 0 = a / -d := max_eq_left (div_nonneg ha hpos.le)
  rw [hmax]
  refine ⟨fun h => ?_, fun h => ⟨?_, fun hlt => ?_⟩⟩
  · have := (le_div_iff₀ hpos).1 h
    linarith
  · have := (eq_div_iff hpos.ne').1 h
    linarith
  · rw [h, div_lt_one hpos] at hlt
    linarith

/-- Up to the earliest blocker the way is free. -/
theorem passable_of_le (h : s.Optimal) (hf : s.Follows) (heps : s.parameters.epsZero = 0) {tau : ℝ}
    (hnonneg : 0 ≤ tau) (hle : ∀ b ∈ s.boundBlockers ++ s.rowBlockers, tau ≤ b.tau) :
    s.Passable tau := by
  have hblocker : ∀ e (b : Blocker ℝ n m), b ∈ (s.courseOf e).blockers s.parameters.epsZero e →
      tau ≤ b.tau := fun e b hb => hle b (mem_blockers.2 ⟨e, hb⟩)
  -- by the ratio of its blocker, each quantity that shrinks is still on the right side at `tau`
  simp only [courseOf_eq h.ax_eq hf.dax_eq, Course.mem_blockers, heps, neg_zero] at hblocker
  refine ⟨fun e hside htype => ?_, fun e hside htype => ?_, fun e hside hfinite => ?_,
    fun e hside hfinite => ?_⟩
  · have hsign := h.nonneg e hside htype
    by_cases hd : s.dy.get e < 0
    · exact (ratio_spec tau hsign hd).1 (hblocker e _ (.inl ⟨hside, htype, hd, rfl⟩))
    · exact add_nonneg hsign (mul_nonneg hnonneg (not_lt.1 hd))
  · have hsign := neg_nonneg.2 (h.nonpos e hside htype)
    by_cases hd : 0 < s.dy.get e
    · have htau := hblocker e _ (.inr (.inl ⟨hside, htype, hd, rfl⟩))
      have hle := (ratio_spec tau hsign (neg_neg_of_pos hd)).1 (by rw [neg_neg]; exact htau)
      linarith
    · have hle := mul_nonneg hnonneg (neg_nonneg.2 (not_lt.1 hd))
      linarith
  · have htype := h.limited e .lower hfinite
    have hdistance := sub_nonneg.2 (h.lower_le e hfinite)
    by_cases hd : s.valueOf s.dx e - s.shift.lowerOf e < 0
    · have hle := (ratio_spec tau hdistance hd).1
        (hblocker e _ (.inr (.inr (.inl ⟨hside, htype, hfinite, hd, rfl⟩))))
      linarith
    · have hle := mul_nonneg hnonneg (not_lt.1 hd)
      linarith
  · have htype := h.limited e .upper hfinite
    have hdistance := sub_nonneg.2 (h.le_upper e hfinite)
    by_cases hd : s.shift.upperOf e - s.valueOf s.dx e < 0
    · have hle := (ratio_spec tau hdistance hd).1
        (hblocker e _ (.inr (.inr (.inr ⟨hside, htype, hfinite, hd, rfl⟩))))
      linarith
    · have hle := mul_nonneg hnonneg (not_lt.1 hd)
      linarith

/-- A blocker that is earlier than the whole way takes place at its time. -/
theorem takesPlace_of_blocker (h : s.Optimal) (hf : s.Follows) (heps : s.parameters.epsZero = 0)
    {b : Blocker ℝ n m} (hb : b ∈ s.boundBlockers ++ s.rowBlockers) (hlt : b.tau < 1) :
    0 ≤ b.tau ∧ s.TakesPlace b.tau b.event := by
  obtain ⟨e, he⟩ := mem_blockers.1 hb
  rw [courseOf_eq h.ax_eq hf.dax_eq, Course.mem_blockers, heps, neg_zero] at he
  -- a blocker is a multiplier that is used up or a limit that is reached, on either side
  rcases he with ⟨hside, htype, hd, rfl⟩ | ⟨hside, htype, hd, rfl⟩ |
    ⟨hside, -, hfinite, hd, rfl⟩ | ⟨hside, -, hfinite, hd, rfl⟩
  · obtain ⟨hzero, hpasses⟩ := (ratio_spec _ (h.nonneg e hside htype) hd).2 rfl
    exact ⟨le_max_right _ _, .remove hzero (.inl ⟨hside, hpasses hlt⟩)⟩
  · -- for an upper limit the signs are turned, so that one ratio serves both
    obtain ⟨hzero, hpasses⟩ := (ratio_spec _ (neg_nonneg.2 (h.nonpos e hside htype))
      (neg_neg_of_pos hd)).2 (by rw [neg_neg])
    have hpasses := hpasses hlt
    refine ⟨le_max_right _ _, .remove ?_ (.inr ⟨hside, by linarith⟩)⟩
    dsimp only at hzero ⊢
    linarith
  · obtain ⟨hreached, hpasses⟩ := (ratio_spec _ (sub_nonneg.2 (h.lower_le e hfinite)) hd).2 rfl
    have hpasses := hpasses hlt
    exact ⟨le_max_right _ _, .lower (by dsimp only at hreached ⊢; linarith) (by linarith)⟩
  · obtain ⟨hreached, hpasses⟩ := (ratio_spec _ (sub_nonneg.2 (h.le_upper e hfinite)) hd).2 rfl
    have hpasses := hpasses hlt
    exact ⟨le_max_right _ _, .upper (by dsimp only at hreached ⊢; linarith) (by linarith)⟩

/-- A step goes as far as the way is free, and ends where its event takes place. -/
theorem stepLength_spec (h : s.Optimal) (hf : s.Follows) (heps : s.parameters.epsZero = 0) :
    0 ≤ s.stepLength.1 ∧ s.stepLength.1 ≤ 1 ∧ s.Passable s.stepLength.1 ∧
      s.TakesPlace s.stepLength.1 s.stepLength.2 := by
  obtain ⟨hcases, hle, hall⟩ := firstBlocker_spec (s.boundBlockers ++ s.rowBlockers)
  obtain ⟨hnonneg, hevent⟩ : 0 ≤ s.stepLength.1 ∧ s.TakesPlace s.stepLength.1 s.stepLength.2 := by
    unfold stepLength
    rcases hcases with hfull | ⟨hmem, hlt⟩
    · rw [hfull]
      exact ⟨zero_le_one, .full rfl⟩
    · exact takesPlace_of_blocker h hf heps hmem hlt
  exact ⟨hnonneg, hle, passable_of_le h hf heps hnonneg hall, hevent⟩

-- ---------------------------------------------------------------------------
-- Following the direction
-- ---------------------------------------------------------------------------

/-- A part of the way has been followed: everything has moved along its direction. -/
structure Advanced (s : Constrained ℝ n m) (tau : ℝ) (s' : Constrained ℝ n m) : Prop where
  frame : ∃ x y current ax, s' = { s with x, y, current, ax }
  x_eq : ∀ j, j < n → s'.x j = s.x j + tau * s.dx j
  y_eq : ∀ e, s'.y.get e = s.y.get e + tau * s.dy.get e
  gradient_eq : ∀ j, j < n →
    s'.current.gradient j = s.current.gradient j + tau * s.shift.gradient j
  limit_eq : ∀ side e,
    s'.current.limitOf side e = s.current.limitOf side e + tau * s.shift.limitOf side e
  ax_eq : ∀ i : Fin m, s'.ax i = s'.valueOf s'.x (.constraint i)

theorem withRowValues_ax (s : Constrained ℝ n m) (i : Fin m) :
    s.withRowValues.ax i = s.valueOf s.x (.constraint i) := by
  show s.matrix.apply 1 s.x 0 s.ax i = _
  rw [Grid.apply_apply _ _ _ _ _ i.isLt, dot_eq_sum, one_mul, zero_mul, add_zero]
  rfl

/-- Writing down what takes place at the end of a step changes nothing. -/
theorem TakesPlace.advanced {tau : ℝ} {event : StepEvent n m} (h : s.TakesPlace tau event) :
    s.Advanced tau (s.perform tau event) := by
  have hx : ∀ j, j < n → (Tuple.addScaled tau s.dx s.x) j = s.x j + tau * s.dx j :=
    fun j hj => Tuple.addScaled_apply _ _ _ hj
  have hy := Dual.get_addScaled tau s.dy s.y
  have hgradient : ∀ j, j < n → (Data.addScaled tau s.shift s.current).gradient j =
      s.current.gradient j + tau * s.shift.gradient j :=
    fun j hj => Tuple.addScaled_apply _ _ _ hj
  have hlimit := fun side e => Data.limitOf_addScaled tau s.shift s.current side e
  -- a bound that has been reached is written as its limit, where it is already
  have hwritten : ∀ {i : Fin n} {limit : ℝ}, s.x i + tau * s.dx i = limit → ∀ j, j < n →
      ((Tuple.addScaled tau s.dx s.x).set i limit) j = s.x j + tau * s.dx j := by
    intro i limit hreached j hj
    rw [Tuple.set_apply _ _ _ hj]
    split
    · next hji => rw [hji, hreached]
    · exact hx j hj
  have hframe := perform_frame tau event s
  cases h with
  | full htau =>
    subst htau
    refine ⟨hframe, hx, hy, fun j hj => ?_, fun side e => ?_, withRowValues_ax _⟩
    · show s.target.gradient j = s.current.gradient j + 1 * s.shift.gradient j
      rw [show s.shift.gradient j = _ from Tuple.sub_apply _ _ hj]
      ring
    · show s.target.limitOf side e = _
      rw [show s.shift.limitOf side e = _ from Data.limitOf_sub _ _ side e]
      ring
  | @lower e hreached hpasses =>
    cases e with
    | bound i =>
      rw [valueOf_bound, valueOf_bound] at hreached
      exact ⟨hframe, hwritten (hreached.trans (hlimit .lower (.bound i)).symm), hy, hgradient, hlimit,
        withRowValues_ax _⟩
    | constraint i => exact ⟨hframe, hx, hy, hgradient, hlimit, withRowValues_ax _⟩
  | @upper e hreached hpasses =>
    cases e with
    | bound i =>
      rw [valueOf_bound, valueOf_bound] at hreached
      exact ⟨hframe, hwritten (hreached.trans (hlimit .upper (.bound i)).symm), hy, hgradient, hlimit,
        withRowValues_ax _⟩
    | constraint i => exact ⟨hframe, hx, hy, hgradient, hlimit, withRowValues_ax _⟩
  | @remove e hzero hpasses =>
    refine ⟨hframe, hx, fun e' => ?_, hgradient, hlimit, withRowValues_ax _⟩
    show (Dual.set _ e 0).get e' = _
    rw [Dual.get_set]
    split
    · next heq =>
      rw [heq, hzero]
    · exact hy e'

variable {s' : Constrained ℝ n m} {tau : ℝ}

theorem Advanced.valueOf_eq (h : s.Advanced tau s') (e : Entity n m) :
    s'.valueOf s'.x e = s.valueOf s.x e + tau * s.valueOf s.dx e := by
  have hx := h.x_eq
  obtain ⟨x, y, current, ax, rfl⟩ := h.frame
  rw [← valueOf_add_mul]
  exact valueOf_congr (s := s) hx e

/-- On the way between limits that do not cross they do not cross. -/
theorem limits_le_of_between {tau l u tl tu : ℝ} (h0 : 0 ≤ tau) (h1 : tau ≤ 1) (hlu : l ≤ u)
    (htarget : tl ≤ tu) : l + tau * (tl - l) ≤ u + tau * (tu - u) := by
  have hrest := mul_nonneg (sub_nonneg.2 h1) (sub_nonneg.2 hlu)
  have hway := mul_nonneg h0 (sub_nonneg.2 htarget)
  linarith

theorem Advanced.ordered (hadvanced : s.Advanced tau s')
    (haimed : ∀ e, s.target.lowerOf e ≤ s.target.upperOf e) (h0 : 0 ≤ tau) (h1 : tau ≤ 1)
    {e : Entity n m} (hle : s.current.lowerOf e ≤ s.current.upperOf e) :
    s'.current.lowerOf e ≤ s'.current.upperOf e := by
  have hlower := hadvanced.limit_eq .lower e
  have hupper := hadvanced.limit_eq .upper e
  rw [show s.shift.limitOf _ e = _ from Data.limitOf_sub s.target s.current _ e] at hlower hupper
  simp only [Data.limitOf_lower, Data.limitOf_upper] at hlower hupper
  rw [hlower, hupper]
  exact limits_le_of_between h0 h1 hle (haimed e)

theorem Advanced.on_limit (hadvanced : s.Advanced tau s') (h : s.Optimal) (hf : s.Follows)
    {e : Entity n m} (he : s.isActive e = true) :
    s'.valueOf s'.x e = s'.current.limitOf (s.activity e) e := by
  rw [hadvanced.valueOf_eq e, h.on_limit e he, hf.on_limit e he]
  exact (hadvanced.limit_eq (s.activity e) e).symm

theorem Advanced.stationary (hadvanced : s.Advanced tau s') (h : s.Optimal) (hf : s.Follows)
    {j : ℕ} (hj : j < n) : ∑ k ∈ range n, s.hessian j k * s'.x k + s'.current.gradient j =
      ∑ e, s'.y.get e * s.row e j := by
  have hpoint : ∑ k ∈ range n, s.hessian j k * s'.x k =
      ∑ k ∈ range n, s.hessian j k * s.x k + tau * ∑ k ∈ range n, s.hessian j k * s.dx k := by
    rw [mul_sum, ← sum_add_distrib]
    refine Finset.sum_congr rfl fun k hk => ?_
    rw [hadvanced.x_eq k (mem_range.1 hk)]
    ring
  have hrows : ∑ e, s'.y.get e * s.row e j =
      ∑ e, s.y.get e * s.row e j + tau * ∑ e, s.dy.get e * s.row e j := by
    rw [mul_sum, ← sum_add_distrib]
    refine Finset.sum_congr rfl fun e _ => ?_
    rw [hadvanced.y_eq e]
    ring
  rw [hpoint, hadvanced.gradient_eq j hj, hrows, ← h.stationary j hj, ← hf.balanced j hj]
  ring

/-- A direction that follows the data leads from a solution to a solution, as long as the way is
free. -/
theorem Advanced.optimal (hadvanced : s.Advanced tau s') (h : s.Optimal) (hf : s.Follows)
    (haimed : ∀ e, s.target.lowerOf e ≤ s.target.upperOf e) (h0 : 0 ≤ tau) (h1 : tau ≤ 1)
    (hpassable : s.Passable tau) : s'.Optimal := by
  have hstationary := fun j hj => hadvanced.stationary h hf (j := j) hj
  have honLimit := fun e he => hadvanced.on_limit h hf (e := e) he
  have hordered := fun e hle => hadvanced.ordered haimed h0 h1 (e := e) hle
  have hvalue := hadvanced.valueOf_eq
  have hlimit := hadvanced.limit_eq
  have hy := hadvanced.y_eq
  have hax := hadvanced.ax_eq
  obtain ⟨x, y, current, ax, rfl⟩ := hadvanced.frame
  refine ⟨h.defined, h.limited, hstationary, hax, honLimit, fun e hside => ?_, fun e hside => ?_,
    fun e he => ?_, fun e hside htype => ?_, fun e hside htype => ?_⟩
  · cases hactivity : s.activity e with
    | inactive =>
      rw [hvalue e]
      exact (hlimit .lower e).trans_le (hpassable.lower_le e hactivity hside)
    | lower =>
      rw [honLimit e (by rw [isActive, hactivity]; rfl), hactivity]
      exact le_refl _
    | upper =>
      -- on its upper limit it respects the lower one
      have he : s.isActive e = true := by
        rw [isActive, hactivity]
        rfl
      have hle := h.lower_le e hside
      rw [h.on_limit e he, hactivity] at hle
      rw [honLimit e he, hactivity]
      exact hordered e hle
    | undefined => exact absurd hactivity (h.defined e)
  · cases hactivity : s.activity e with
    | inactive =>
      rw [hvalue e]
      exact (hpassable.le_upper e hactivity hside).trans_eq (hlimit .upper e).symm
    | upper =>
      rw [honLimit e (by rw [isActive, hactivity]; rfl), hactivity]
      exact le_refl _
    | lower =>
      have he : s.isActive e = true := by
        rw [isActive, hactivity]
        rfl
      have hle := h.le_upper e hside
      rw [h.on_limit e he, hactivity] at hle
      rw [honLimit e he, hactivity]
      exact hordered e hle
    | undefined => exact absurd hactivity (h.defined e)
  · rw [hy e, h.inactive e he, hf.inactive e he, mul_zero, add_zero]
  · rw [hy e]
    exact hpassable.lower e hside htype
  · rw [hy e]
    exact hpassable.upper e hside htype

end Constrained

end ActiveSet
