import ActiveSet.Proofs.Solver.Box
import ActiveSet.Proofs.Solver.Constrained.Stepping

/-!
# The ratio test is exact

A step may go as far as every condition of the working set holds: entities outside it stay within their
finite limits, which move as well, and multipliers in it keep the sign of their side. Over the real
numbers, with a tolerance of zero, the ratio test finds the largest such part of the way, and of all the
conditions that are lost right after it the first one in a fixed order, in whatever state and along
whatever direction (`ratio_test_exact`).

* `StepEvent.Intact`: the condition whose loss an event reports.
* `Entity.Before`, `StepEvent.Before`: the order of the conditions.
* `LongestStep`: what a ratio test has to find.
* `Course.Margin`: how far a condition is from being lost, and how fast this shrinks.
-/

namespace ActiveSet

variable {n m : ℕ}

-- ---------------------------------------------------------------------------
-- Conditions and their order
-- ---------------------------------------------------------------------------

namespace Course

/-- An entity has a finite limit at a side, by the record of its classification. -/
def HasLimit (c : Course ℝ) (side : Activity) : Prop :=
  c.type ≠ .unbounded ∧
    (side = .lower ∧ c.finite.lower = true ∨ side = .upper ∧ c.finite.upper = true)

/-- An entity outside the working set is within its finite limit at a side, where a part `r` of the
way has been made. -/
def Within (c : Course ℝ) (side : Activity) (r : ℝ) : Prop :=
  c.activity = .inactive → c.HasLimit side →
    if side = .upper then c.value + r * c.valueChange ≤ c.upper + r * c.upperChange
    else c.lower + r * c.lowerChange ≤ c.value + r * c.valueChange

/-- The multiplier of an entity in the working set that is no equality has the sign of its side, where
a part `r` of the way has been made. -/
def Signed (c : Course ℝ) (r : ℝ) : Prop :=
  c.type ≠ .equality →
    (c.activity = .lower → 0 ≤ c.multiplier + r * c.multiplierChange) ∧
      (c.activity = .upper → c.multiplier + r * c.multiplierChange ≤ 0)

end Course

namespace StepEvent

/-- The condition whose loss an event reports holds where a part `r` of the way has been made. That the
loaded problem is reached is no loss. -/
def Intact (c : Entity n m → Course ℝ) (r : ℝ) : StepEvent n m → Prop
  | .full => True
  | .add e side => (c e).Within side r
  | .remove e => (c e).Signed r

/-- The entity that an event is about. -/
def entity? : StepEvent n m → Option (Entity n m)
  | .full => none
  | .add e _ => some e
  | .remove e => some e

end StepEvent

/-- The order of the entities: bounds before constraints, and then the lower index first. -/
def Entity.Before : Entity n m → Entity n m → Prop
  | .bound i, .bound j => i < j
  | .constraint i, .constraint j => i < j
  | .bound _, .constraint _ => True
  | .constraint _, .bound _ => False

/-- The order of the conditions: that of their entities, and then the lower limit before the upper
one. -/
inductive StepEvent.Before : StepEvent n m → StepEvent n m → Prop
  | entity {a b : StepEvent n m} {e e' : Entity n m} (ha : a.entity? = some e)
    (hb : b.entity? = some e') (h : e.Before e') : Before a b
  | side (e : Entity n m) : Before (.add e .lower) (.add e .upper)

/-- A part `tau` of the way is the largest on which all conditions hold. If it is not the whole way, the
event belongs to a condition that is lost right after it, the first of all that are. -/
structure LongestStep (c : Entity n m → Course ℝ) (tau : ℝ) (event : StepEvent n m) : Prop where
  nonneg : 0 ≤ tau
  le_one : tau ≤ 1
  intact : ∀ r, 0 ≤ r → r ≤ tau → ∀ other : StepEvent n m, other.Intact c r
  eq_one : event = .full → tau = 1
  lt_one : event ≠ .full → tau < 1
  lost : event ≠ .full → ∀ r, tau < r → ¬event.Intact c r
  first : event ≠ .full → ∀ other : StepEvent n m, (∀ r, tau < r → ¬other.Intact c r) →
    event = other ∨ event.Before other

-- ---------------------------------------------------------------------------
-- Margins
-- ---------------------------------------------------------------------------

/-- The margin by which the condition of an event about an entity holds, and the change of this margin
along the whole way. -/
inductive Course.Margin (c : Course ℝ) (e : Entity n m) : StepEvent n m → ℝ → ℝ → Prop
  | lowerMultiplier (hside : c.activity = .lower) (htype : c.type ≠ .equality) :
    Margin c e (.remove e) c.multiplier c.multiplierChange
  | upperMultiplier (hside : c.activity = .upper) (htype : c.type ≠ .equality) :
    Margin c e (.remove e) (-c.multiplier) (-c.multiplierChange)
  | lowerLimit (hside : c.activity = .inactive) (htype : c.type ≠ .unbounded)
    (hfinite : c.finite.lower = true) :
    Margin c e (.add e .lower) (c.value - c.lower) (c.valueChange - c.lowerChange)
  | upperLimit (hside : c.activity = .inactive) (htype : c.type ≠ .unbounded)
    (hfinite : c.finite.upper = true) :
    Margin c e (.add e .upper) (c.upper - c.value) (c.upperChange - c.valueChange)

/-- A condition holds as long as its margin is not used up. -/
theorem StepEvent.intact_iff {c : Entity n m → Course ℝ} {r : ℝ} {event : StepEvent n m} :
    event.Intact c r ↔ ∀ e a d, (c e).Margin e event a d → 0 ≤ a + r * d := by
  constructor
  · -- what must not be negative is a multiplier or a distance to a limit
    rintro h e a d (⟨hside, htype⟩ | ⟨hside, htype⟩ | ⟨hside, htype, hfinite⟩ |
      ⟨hside, htype, hfinite⟩)
    · exact (h htype).1 hside
    · have hsign := (h htype).2 hside
      linarith
    · have hlimit : _ ≤ _ := h hside ⟨htype, .inl ⟨rfl, hfinite⟩⟩
      linarith
    · have hlimit : _ ≤ _ := h hside ⟨htype, .inr ⟨rfl, hfinite⟩⟩
      linarith
  · intro h
    cases event with
    | full => trivial
    | add e side =>
      rintro hside ⟨htype, ⟨rfl, hfinite⟩ | ⟨rfl, hfinite⟩⟩
      · have hmargin := h e _ _ (.lowerLimit hside htype hfinite)
        rw [if_neg (by decide)]
        linarith
      · have hmargin := h e _ _ (.upperLimit hside htype hfinite)
        rw [if_pos rfl]
        linarith
    | remove e =>
      refine fun htype => ⟨fun hside => h e _ _ (.lowerMultiplier hside htype), fun hside => ?_⟩
      have hmargin := h e _ _ (.upperMultiplier hside htype)
      linarith

/-- The blockers of an entity are the margins that shrink, and when each would be used up. -/
theorem Course.mem_blockers_iff_margin {c : Course ℝ} {e : Entity n m} {b : Blocker ℝ n m} :
    b ∈ c.blockers 0 e ↔ ∃ a d, c.Margin e b.event a d ∧ d < 0 ∧ b.tau = max (a / -d) 0 := by
  rw [mem_blockers, neg_zero]
  constructor
  · -- the four branches of the test are the four kinds of margin
    rintro (⟨hside, htype, hd, rfl⟩ | ⟨hside, htype, hd, rfl⟩ | ⟨hside, htype, hfinite, hd, rfl⟩ |
      ⟨hside, htype, hfinite, hd, rfl⟩)
    · exact ⟨_, _, .lowerMultiplier hside htype, hd, rfl⟩
    · exact ⟨_, _, .upperMultiplier hside htype, neg_neg_of_pos hd, by rw [neg_neg]⟩
    · exact ⟨_, _, .lowerLimit hside htype hfinite, hd, rfl⟩
    · exact ⟨_, _, .upperLimit hside htype hfinite, hd, rfl⟩
  · obtain ⟨tau, event⟩ := b
    rintro ⟨a, d, hmargin, hd, htau⟩
    dsimp only at hmargin htau
    subst htau
    cases hmargin with
    | lowerMultiplier hside htype => exact .inl ⟨hside, htype, hd, rfl⟩
    | upperMultiplier hside htype =>
      exact .inr (.inl ⟨hside, htype, neg_lt_zero.1 hd, by rw [neg_neg]⟩)
    | lowerLimit hside htype hfinite =>
      exact .inr (.inr (.inl ⟨hside, htype, hfinite, hd, rfl⟩))
    | upperLimit hside htype hfinite =>
      exact .inr (.inr (.inr ⟨hside, htype, hfinite, hd, rfl⟩))

-- ---------------------------------------------------------------------------
-- The order of the blockers
-- ---------------------------------------------------------------------------

theorem Entity.pairwise_all : (Entity.all n m).Pairwise Entity.Before := by
  have hbounds : ((List.finRange n).map (Entity.bound (m := m))).Pairwise Entity.Before :=
    List.pairwise_map.2 (List.pairwise_lt_finRange n)
  have hrows : ((List.finRange m).map (Entity.constraint (n := n))).Pairwise Entity.Before :=
    List.pairwise_map.2 (List.pairwise_lt_finRange m)
  refine List.pairwise_append.2 ⟨hbounds, hrows, fun e he e' he' => ?_⟩
  obtain ⟨i, -, rfl⟩ := List.mem_map.1 he
  obtain ⟨j, -, rfl⟩ := List.mem_map.1 he'
  trivial

theorem Course.entity?_of_mem_blockers {c : Course ℝ} {eps : ℝ} {e : Entity n m}
    {b : Blocker ℝ n m} (hb : b ∈ c.blockers eps e) : b.event.entity? = some e := by
  rw [mem_blockers] at hb
  obtain ⟨-, -, -, rfl⟩ | ⟨-, -, -, rfl⟩ | ⟨-, -, -, -, rfl⟩ | ⟨-, -, -, -, rfl⟩ := hb <;> rfl

/-- An entity contributes its lower limit before its upper one. -/
theorem Course.pairwise_blockers (c : Course ℝ) (eps : ℝ) (e : Entity n m) :
    (c.blockers eps e).Pairwise fun a b => a.event.Before b.event := by
  have hsingle (o : Option ℝ) (event : StepEvent n m) :
      ((o.map (Blocker.mk · event)).toList).Pairwise fun a b => a.event.Before b.event := by
    cases o <;> simp
  unfold blockers
  split
  · split
    · exact .nil
    · exact hsingle _ _
  · split
    · exact .nil
    · exact hsingle _ _
  · split
    · exact .nil
    · refine List.pairwise_append.2 ⟨hsingle _ _, hsingle _ _, fun a ha b hb => ?_⟩
      obtain ⟨-, -, rfl⟩ := Option.map_eq_some_iff.1 (Option.mem_toList.1 ha)
      obtain ⟨-, -, rfl⟩ := Option.map_eq_some_iff.1 (Option.mem_toList.1 hb)
      exact .side e
  · exact .nil

/-- All blockers of a step, in the order in which they are looked at. -/
noncomputable def blockersOf (eps : ℝ) (c : Entity n m → Course ℝ) : List (Blocker ℝ n m) :=
  (Entity.all n m).flatMap fun e => (c e).blockers eps e

theorem pairwise_blockersOf (eps : ℝ) (c : Entity n m → Course ℝ) :
    (blockersOf eps c).Pairwise fun a b => a.event.Before b.event := by
  refine List.pairwise_flatMap.2 ⟨fun e _ => (c e).pairwise_blockers eps e, ?_⟩
  refine Entity.pairwise_all.imp fun h a ha b hb => ?_
  exact .entity (Course.entity?_of_mem_blockers ha) (Course.entity?_of_mem_blockers hb) h

/-- All blockers before the first one in the list are later. -/
theorem firstBlocker_split (l : List (Blocker ℝ n m)) : firstBlocker l = ⟨1, .full⟩ ∨
    ∃ before after, l = before ++ firstBlocker l :: after ∧
      ∀ b ∈ before, (firstBlocker l).tau < b.tau := by
  -- what replaces the best one so far is earlier than it, and so than all that came before
  suffices hfold : ∀ best : Blocker ℝ n m,
      let r := l.foldl (fun best b => if b.tau < best.tau then b else best) best
      r = best ∨ r.tau < best.tau ∧
        ∃ before after, l = before ++ r :: after ∧ ∀ b ∈ before, r.tau < b.tau from
    (hfold ⟨1, .full⟩).imp_right And.right
  induction l with
  | nil => exact fun best => .inl rfl
  | cons b rest ih =>
    intro best
    rw [List.foldl_cons]
    split
    · next hlt =>
      obtain heq | ⟨htau, before, after, hsplit, hbefore⟩ := ih b
      · rw [heq]
        exact .inr ⟨hlt, [], rest, rfl, nofun⟩
      · exact .inr ⟨htau.trans hlt, b :: before, after, congrArg (b :: ·) hsplit,
          List.forall_mem_cons.2 ⟨htau, hbefore⟩⟩
    · next hnot =>
      obtain heq | ⟨htau, before, after, hsplit, hbefore⟩ := ih best
      · exact .inl heq
      · exact .inr ⟨htau, b :: before, after, congrArg (b :: ·) hsplit,
          List.forall_mem_cons.2 ⟨htau.trans_le (not_lt.1 hnot), hbefore⟩⟩

-- ---------------------------------------------------------------------------
-- The longest step
-- ---------------------------------------------------------------------------

section Longest

variable {c : Entity n m → Course ℝ} {event : StepEvent n m} {tau : ℝ}

theorem mem_blockersOf {b : Blocker ℝ n m} :
    b ∈ blockersOf 0 c ↔
      ∃ e a d, (c e).Margin e b.event a d ∧ d < 0 ∧ b.tau = max (a / -d) 0 := by
  rw [blockersOf, List.mem_flatMap]
  simp only [Entity.mem_all, true_and, Course.mem_blockers_iff_margin]

/-- The condition of an event has one margin only. -/
theorem Course.Margin.unique {e e' : Entity n m} {a d a' d' : ℝ} (h : (c e).Margin e event a d)
    (h' : (c e').Margin e' event a' d') : a = a' ∧ d = d' := by
  cases h with
  | lowerMultiplier hside =>
    cases h' with
    | lowerMultiplier => exact ⟨rfl, rfl⟩
    | upperMultiplier hside' => cases hside.symm.trans hside'
  | upperMultiplier hside =>
    cases h' with
    | lowerMultiplier hside' => cases hside.symm.trans hside'
    | upperMultiplier => exact ⟨rfl, rfl⟩
  | lowerLimit =>
    cases h'
    exact ⟨rfl, rfl⟩
  | upperLimit =>
    cases h'
    exact ⟨rfl, rfl⟩

/-- A condition that holds at the start and is lost right after a part of the way has a blocker that is
no later. -/
theorem exists_blocker_of_lost (h0 : event.Intact c 0) (htau : 0 ≤ tau)
    (hlost : ∀ r, tau < r → ¬event.Intact c r) :
    ∃ b ∈ blockersOf 0 c, b.event = event ∧ b.tau ≤ tau := by
  have hmargin (r : ℝ) (hr : tau < r) : ∃ e a d, (c e).Margin e event a d ∧ a + r * d < 0 := by
    have hnot := hlost r hr
    rw [StepEvent.intact_iff] at hnot
    push Not at hnot
    exact hnot
  obtain ⟨e, a, d, hm, hused⟩ := hmargin (tau + 1) (lt_add_one tau)
  have hstart := StepEvent.intact_iff.1 h0 e a d hm
  rw [zero_mul, add_zero] at hstart
  have hd : d < 0 := by
    by_contra hnonneg
    have hmove := mul_nonneg (by linarith : 0 ≤ tau + 1) (not_lt.1 hnonneg)
    linarith
  refine ⟨⟨max (a / -d) 0, event⟩, mem_blockersOf.2 ⟨e, a, d, hm, hd, rfl⟩, rfl, ?_⟩
  -- were the margin used up later, the condition would still hold then
  by_contra hlater
  obtain ⟨e', a', d', hm', hused'⟩ := hmargin _ (not_le.1 hlater)
  obtain ⟨rfl, rfl⟩ := hm'.unique hm
  have hzero := ((Constrained.ratio_spec _ hstart hd).2 rfl).1
  linarith

/-- A condition with a blocker is lost right after it. -/
theorem lost_of_blocker {b : Blocker ℝ n m} (hb : b ∈ blockersOf 0 c)
    (h0 : b.event.Intact c 0) {r : ℝ} (hr : b.tau < r) : ¬b.event.Intact c r := by
  obtain ⟨e, a, d, hm, hd, htau⟩ := mem_blockersOf.1 hb
  have hstart := StepEvent.intact_iff.1 h0 e a d hm
  rw [zero_mul, add_zero] at hstart
  have hzero := ((Constrained.ratio_spec _ hstart hd).2 htau).1
  have hmove := mul_lt_mul_of_neg_right hr hd
  intro hintact
  have hmargin := StepEvent.intact_iff.1 hintact e a d hm
  linarith

/-- Up to the earliest blocker all conditions hold. -/
theorem intact_of_le_blockers (h0 : event.Intact c 0) {r : ℝ} (hr : 0 ≤ r)
    (hle : ∀ b ∈ blockersOf 0 c, r ≤ b.tau) : event.Intact c r := by
  refine StepEvent.intact_iff.2 fun e a d hm => ?_
  have hstart := StepEvent.intact_iff.1 h0 e a d hm
  rw [zero_mul, add_zero] at hstart
  by_cases hd : d < 0
  · exact (Constrained.ratio_spec r hstart hd).1 (hle ⟨_, event⟩ (mem_blockersOf.2 ⟨e, a, d, hm, hd, rfl⟩))
  · exact add_nonneg hstart (mul_nonneg hr (not_lt.1 hd))

/-- The first of all blockers makes the longest step. -/
theorem longestStep_firstBlocker (h0 : ∀ event : StepEvent n m, event.Intact c 0) :
    LongestStep c (firstBlocker (blockersOf 0 c)).tau (firstBlocker (blockersOf 0 c)).event := by
  obtain ⟨hcases, hle, hall⟩ := firstBlocker_spec (blockersOf 0 c)
  have hordered := pairwise_blockersOf 0 c
  obtain hfull | ⟨before, after, hsplit, hbefore⟩ := firstBlocker_split (blockersOf 0 c)
  · rw [hfull] at hall ⊢
    exact {
      nonneg := zero_le_one
      le_one := le_rfl
      intact := fun r hr hr1 other =>
        intact_of_le_blockers (h0 other) hr fun b hb => hr1.trans (hall b hb)
      eq_one := fun _ => rfl
      lt_one := fun h => absurd rfl h
      lost := fun h => absurd rfl h
      first := fun h => absurd rfl h }
  generalize firstBlocker (blockersOf 0 c) = b at *
  have hmem : b ∈ blockersOf 0 c := hsplit ▸ List.mem_append_right _ List.mem_cons_self
  obtain ⟨e, a, d, hm, hd, htau⟩ := mem_blockersOf.1 hmem
  have hnonneg : 0 ≤ b.tau := htau ▸ le_max_right _ _
  have hne : b.event ≠ .full := by
    intro hfull
    rw [hfull] at hm
    cases hm
  refine ⟨hnonneg, hle, fun r hr hr1 other =>
    intact_of_le_blockers (h0 other) hr fun b' hb' => hr1.trans (hall b' hb'),
    fun hfull => absurd hfull hne, fun _ => ?_, fun _ r hr => lost_of_blocker hmem (h0 _) hr,
    fun _ other hlost => ?_⟩
  · obtain rfl | ⟨-, hlt⟩ := hcases
    · exact absurd rfl hne
    · exact hlt
  -- the blocker of another condition that is lost at the same time comes later in the list
  · obtain ⟨b', hb', rfl, hle'⟩ := exists_blocker_of_lost (h0 other) hnonneg hlost
    rw [hsplit] at hb' hordered
    obtain hb' | hb' := List.mem_append.1 hb'
    · exact absurd hle' (not_le.2 (hbefore b' hb'))
    · obtain rfl | hb' := List.mem_cons.1 hb'
      · exact .inl rfl
      · exact .inr ((List.pairwise_cons.1 (List.pairwise_append.1 hordered).2.1).1 b' hb')

end Longest

-- ---------------------------------------------------------------------------
-- Both solvers
-- ---------------------------------------------------------------------------

theorem Constrained.blockers_eq (s : Constrained ℝ n m) :
    s.boundBlockers ++ s.rowBlockers = blockersOf s.parameters.epsZero s.courseOf := by
  rw [blockersOf, Entity.all, List.flatMap_append, List.flatMap_map, List.flatMap_map]
  rfl

/-- The course of a bound, where there is no other entity. -/
noncomputable def Box.courseOf (s : Box ℝ n) : Entity n 0 → Course ℝ
  | .bound i => s.boundCourse i
  | .constraint i => i.elim0

theorem Box.blockers_eq (s : Box ℝ n) :
    s.boundBlockers = blockersOf s.parameters.epsZero (Box.courseOf s) := by
  rw [blockersOf, Entity.all, List.flatMap_append, List.flatMap_map, List.flatMap_map]
  exact (List.append_nil _).symm

/-- With a tolerance of zero, and from any state in which all conditions of the working set hold, the
ratio test of both solvers finds the longest step along any direction, and the first of the conditions
that are lost after it. -/
theorem ratio_test_exact :
    (∀ (n m : ℕ) (s : Constrained ℝ n m), s.parameters.epsZero = 0 →
      (∀ event : StepEvent n m, event.Intact s.courseOf 0) →
        LongestStep s.courseOf s.stepLength.1 s.stepLength.2) ∧
      ∀ (n : ℕ) (s : Box ℝ n), s.parameters.epsZero = 0 →
        (∀ event : StepEvent n 0, event.Intact (Box.courseOf s) 0) →
          LongestStep (Box.courseOf s) (Box.stepLength s).1 (Box.stepLength s).2 := by
  constructor
  · intro n m s heps h0
    have hlongest := longestStep_firstBlocker h0
    unfold Constrained.stepLength
    rw [Constrained.blockers_eq, heps]
    exact hlongest
  · intro n s heps h0
    have hlongest := longestStep_firstBlocker h0
    unfold Box.stepLength
    rw [Box.blockers_eq, heps]
    exact hlongest

/-- A variable at `0` on its way to `1`, while its upper limit is at `1` on its way to `0`. -/
noncomputable def crossing : Box ℝ 1 :=
  { Core.fresh 1 0 with
    parameters := { Parameters.default ℝ with epsZero := 0 }
    current := ⟨.fill 1 0, .fill 1 (-1), .fill 1 1, .fill 0 0, .fill 0 0⟩
    target := ⟨.fill 1 0, .fill 1 (-1), .fill 1 0, .fill 0 0, .fill 0 0⟩
    dx := .fill 1 1
    bounds := { EntitySet.empty .bound 1 1 (Nat.le_refl 1) with
      types := .replicate 1 .bounded
      activities := .replicate 1 .inactive
      finite := .replicate 1 ⟨true, true⟩ } }

theorem boundCourse_crossing :
    crossing.boundCourse 0 = ⟨.bounded, .inactive, ⟨true, true⟩, 0, 1, -1, 0, 1, -1, 0, 0⟩ := by
  have hentry (a : ℝ) : Tuple.fill 1 a 0 = a := Tuple.fill_apply zero_lt_one
  simp only [Core.boundCourse, Core.shift, Data.sub, Tuple.sub_apply, Nat.lt_one_iff, crossing,
    Fin.val_zero, hentry, Core.fresh, Dual.zero]
  norm_num
  decide

theorem intact_crossing (event : StepEvent 1 0) : event.Intact (Box.courseOf crossing) 0 := by
  cases event with
  | full => trivial
  | add e side =>
    cases e with
    | bound i =>
      rw [Subsingleton.elim i 0]
      show (crossing.boundCourse 0).Within side 0
      rw [boundCourse_crossing]
      intro _ _
      split <;> norm_num
    | constraint i => exact i.elim0
  | remove e =>
    cases e with
    | bound i =>
      rw [Subsingleton.elim i 0]
      show (crossing.boundCourse 0).Signed 0
      rw [boundCourse_crossing]
      exact fun _ => ⟨nofun, nofun⟩
    | constraint i => exact i.elim0

/-- On the whole way the variable would pass its upper limit. -/
theorem event_ne_full_of_crossing {c : Entity 1 0 → Course ℝ} {tau : ℝ} {event : StepEvent 1 0}
    (hc : c (.bound 0) = crossing.boundCourse 0) (h : LongestStep c tau event) : event ≠ .full := by
  intro hfull
  have hwithin : (c (.bound 0)).Within .upper 1 :=
    h.intact 1 zero_le_one (h.eq_one hfull).ge (.add (.bound 0) .upper)
  rw [hc, boundCourse_crossing] at hwithin
  have hlimit : (0 : ℝ) + 1 * 1 ≤ 1 + 1 * -1 := hwithin rfl ⟨by decide, .inr ⟨rfl, rfl⟩⟩
  norm_num at hlimit

/-- Neither solver lets the variable pass its limit. -/
theorem ratio_test_exact_crossing :
    let s : Constrained ℝ 1 0 := { Constrained.fresh 1 0 with toCore := crossing }
    crossing.parameters.epsZero = 0 ∧
      (∀ event : StepEvent 1 0, event.Intact (Box.courseOf crossing) 0) ∧
      (∀ event : StepEvent 1 0, event.Intact s.courseOf 0) ∧
      LongestStep (Box.courseOf crossing) (Box.stepLength crossing).1 (Box.stepLength crossing).2 ∧
      (Box.stepLength crossing).2 ≠ .full ∧ LongestStep s.courseOf s.stepLength.1 s.stepLength.2 ∧
      s.stepLength.2 ≠ .full := by
  intro s
  have hsame : s.courseOf = Box.courseOf crossing := by
    funext e
    cases e with
    | bound i => rfl
    | constraint i => exact i.elim0
  have hstart : ∀ event : StepEvent 1 0, event.Intact s.courseOf 0 := by
    rw [hsame]
    exact intact_crossing
  have hbox := ratio_test_exact.2 1 crossing rfl intact_crossing
  have hlongest := ratio_test_exact.1 1 0 s rfl hstart
  exact ⟨rfl, intact_crossing, hstart, hbox, event_ne_full_of_crossing rfl hbox, hlongest,
    event_ne_full_of_crossing rfl hlongest⟩

end ActiveSet
