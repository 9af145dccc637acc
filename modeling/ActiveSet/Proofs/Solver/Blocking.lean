import ActiveSet.Proofs.Numbers
import ActiveSet.Proofs.WorkingSet.EntitySet
import ActiveSet.Solver.Blocking

/-!
# What a ratio test finds

The blockers of an entity are listed by its activity: an active entity that is no equality
contributes the loss of its multiplier's sign, an inactive one the limits it moves towards.
`Course.mem_blockers` says exactly which these are. So an event that a step ends in always fits the
entity it names, whatever the arithmetic makes of the step length.

* `Course.mem_blockers`: the blockers of one entity.
* `firstBlocker_cases`, `firstBlocker_lt_one`: the first blocker is one of the list, before the end of the
  way, or the whole way.
* `EntitySet.CanEnter`, `EntitySet.CanLeave`: what it takes to enter or leave the working set.
-/

namespace ActiveSet

variable {K : Type} [Scalar K] {n m : Nat}

/-- The blockers of an entity: the multiplier of an active entity is used up, or an inactive entity
reaches one of its limits. -/
theorem Course.mem_blockers {eps : K} {e : Entity n m} {c : Course K} {b : Blocker K n m} :
    b ∈ c.blockers eps e ↔
      c.activity = .lower ∧ c.type ≠ .equality ∧ c.multiplierChange < -eps ∧
          b = ⟨max (c.multiplier / -c.multiplierChange) 0, .remove e⟩ ∨
        c.activity = .upper ∧ c.type ≠ .equality ∧ eps < c.multiplierChange ∧
          b = ⟨max (-c.multiplier / c.multiplierChange) 0, .remove e⟩ ∨
        c.activity = .inactive ∧ c.type ≠ .unbounded ∧ c.finite.lower = true ∧
          c.valueChange - c.lowerChange < -eps ∧
          b = ⟨max ((c.value - c.lower) / -(c.valueChange - c.lowerChange)) 0, .add e .lower⟩ ∨
        c.activity = .inactive ∧ c.type ≠ .unbounded ∧ c.finite.upper = true ∧
          c.upperChange - c.valueChange < -eps ∧
          b = ⟨max ((c.upper - c.value) / -(c.upperChange - c.valueChange)) 0, .add e .upper⟩ := by
  unfold blockers
  -- an active entity can lose its multiplier, and an inactive one can reach either limit
  cases hact : c.activity with
  | lower =>
    by_cases htype : c.type = .equality
    · simp [htype]
    · by_cases hchange : c.multiplierChange < -eps
      · simp [htype, hchange, lowerMultiplierUsedUp]
      · simp [htype, hchange, lowerMultiplierUsedUp]
  | upper =>
    by_cases htype : c.type = .equality
    · simp [htype]
    · by_cases hchange : eps < c.multiplierChange
      · simp [htype, hchange, upperMultiplierUsedUp]
      · simp [htype, hchange, upperMultiplierUsedUp]
  | inactive =>
    by_cases htype : c.type = .unbounded
    · simp [htype]
    · simp only [htype, if_false, List.mem_append, Option.mem_toList, Option.map_eq_some_iff,
        lowerLimitReached, upperLimitReached]
      constructor
      · rintro (⟨t, ht, rfl⟩ | ⟨t, ht, rfl⟩)
        · split at ht
          · next h =>
            cases ht
            simp [h, htype]
          · cases ht
        · split at ht
          · next h =>
            cases ht
            simp [h, htype]
          · cases ht
      · rintro (⟨h, -⟩ | ⟨h, -⟩ | ⟨-, -, hside, hchange, rfl⟩ | ⟨-, -, hside, hchange, rfl⟩)
        · cases h
        · cases h
        · left
          exact ⟨_, if_pos ⟨hchange, hside⟩, rfl⟩
        · right
          exact ⟨_, if_pos ⟨hchange, hside⟩, rfl⟩
  | undefined => simp

/-- The first of a list of blockers is one of them, or the whole way is free. -/
theorem firstBlocker_cases (l : List (Blocker K n m)) :
    firstBlocker l = ⟨1, .full⟩ ∨ firstBlocker l ∈ l := by
  unfold firstBlocker
  generalize (⟨1, .full⟩ : Blocker K n m) = best
  induction l generalizing best with
  | nil => exact .inl rfl
  | cons b rest ih =>
    rw [List.foldl_cons]
    split
    · obtain h | h := ih b
      · rw [h]
        exact .inr (List.mem_cons_self ..)
      · exact .inr (List.mem_cons_of_mem _ h)
    · obtain h | h := ih best
      · exact .inl h
      · exact .inr (List.mem_cons_of_mem _ h)

/-- The first of a list of blockers comes before the end of the way, if there is any that does. -/
theorem firstBlocker_lt_one [NumberOrder K] (l : List (Blocker K n m)) :
    firstBlocker l = ⟨1, .full⟩ ∨ firstBlocker l ∈ l ∧ (firstBlocker l).tau < 1 := by
  unfold firstBlocker
  show _ ∨ _ ∧ _ < (⟨1, .full⟩ : Blocker K n m).tau
  generalize (⟨1, .full⟩ : Blocker K n m) = best
  induction l generalizing best with
  | nil => exact .inl rfl
  | cons b rest ih =>
    rw [List.foldl_cons]
    split
    · next hlt =>
      obtain h | ⟨hmem, hbefore⟩ := ih b
      · rw [h]
        exact .inr ⟨List.mem_cons_self .., hlt⟩
      · exact .inr ⟨List.mem_cons_of_mem _ hmem, NumberOrder.lt_trans hbefore hlt⟩
    · exact (ih best).imp_right (And.imp_left (List.mem_cons_of_mem _))

/-- No blocker lies behind, whatever a quotient has come to. -/
theorem Course.blocker_tau_nonneg [NumberOrder K] {eps : K} {e : Entity n m} {c : Course K}
    {b : Blocker K n m} (hb : b ∈ c.blockers eps e) : 0 ≤ b.tau := by
  rw [mem_blockers] at hb
  obtain ⟨-, -, -, rfl⟩ | ⟨-, -, -, rfl⟩ | ⟨-, -, -, -, rfl⟩ | ⟨-, -, -, -, rfl⟩ := hb <;>
    exact NumberOrder.max_zero_nonneg

namespace EntitySet

variable {kind : EntityKind} {k : Nat}

/-- An entity can enter the working set at a side: it is outside, and has a limit there. -/
structure CanEnter (s : EntitySet kind k) (i : Fin k) (side : Activity) : Prop where
  inactive : s.activity i = .inactive
  isActive_side : side.isActive = true
  type_ne : s.limitType i ≠ .unbounded
  hasSide : s.hasSide i side = true

/-- An entity can leave the working set: it is inside, and no equality. -/
structure CanLeave (s : EntitySet kind k) (i : Fin k) : Prop where
  active : s.isActive i = true
  type_ne : s.limitType i ≠ .equality

theorem CanEnter.isActive_eq {s : EntitySet kind k} {i : Fin k} {side : Activity}
    (h : s.CanEnter i side) : s.isActive i = false := by
  rw [isActive, h.inactive]
  rfl

/-- What can enter is no equality, since all equalities are inside. -/
theorem CanEnter.type_ne_equality {s : EntitySet kind k} {i : Fin k} {side : Activity}
    (h : s.CanEnter i side) (hs : s.Classified) : s.limitType i ≠ .equality := by
  intro heq
  have hactive := hs.equality i heq
  rw [h.isActive_eq] at hactive
  cases hactive

/-- What can enter becomes active at the side it enters at. -/
theorem CanEnter.sideFor_eq {s : EntitySet kind k} {i : Fin k} {side : Activity}
    (h : s.CanEnter i side) (hs : s.Classified) : s.sideFor i side = some side := by
  unfold sideFor
  cases htype : s.limitType i with
  | unbounded => exact absurd htype h.type_ne
  | bounded => exact if_pos h.hasSide
  | equality => exact absurd htype (h.type_ne_equality hs)
  | unknown => exact absurd htype (hs.known i)

/-- An entity that can enter and does so is at the side it enters at. -/
theorem CanEnter.moved_of_activate {s s' : EntitySet kind k} {i : Fin k} {side : Activity}
    (h : s.CanEnter i side) (hs : s.Sound) (hclass : s.Classified)
    (hactivate : s.activate i side = .ok s') : s.Moved i side s' := by
  obtain ⟨-, -, side', hfor, hmoved⟩ := activate_spec hs hactivate
  rw [h.sideFor_eq hclass] at hfor
  cases hfor
  exact hmoved

/-- What can enter does so while there is room. -/
theorem CanEnter.activate {s : EntitySet kind k} {i : Fin k} {side : Activity}
    (h : s.CanEnter i side) (hs : s.Sound) (hclass : s.Classified)
    (hroom : s.partition.activeCount < s.partition.capacity) :
    ∃ s', s.activate i side = .ok s' ∧ s.Moved i side s' ∧ s'.Classified := by
  obtain ⟨s', hs'⟩ := activate_of hs h.isActive_side (h.sideFor_eq hclass) h.isActive_eq hroom
  have hmoved := h.moved_of_activate hs hclass hs'
  exact ⟨s', hs', hmoved, hclass.moved hmoved fun _ => h.isActive_side⟩

/-- What can enter still can after another entity has moved. -/
theorem CanEnter.moved {s s' : EntitySet kind k} {i j : Fin k} {side a : Activity}
    (h : s.CanEnter i side) (hmoved : s.Moved j a s') (hne : i ≠ j) : s'.CanEnter i side := by
  refine ⟨?_, h.isActive_side, ?_, ?_⟩
  · rw [hmoved.activity, if_neg hne]
    exact h.inactive
  · rw [hmoved.limitType]
    exact h.type_ne
  · rw [hmoved.hasSide]
    exact h.hasSide

/-- What can leave does so. -/
theorem CanLeave.deactivate {s : EntitySet kind k} {i : Fin k} (h : s.CanLeave i) (hs : s.Sound)
    (hclass : s.Classified) :
    ∃ s', s.deactivate i = .ok s' ∧ s.Moved i .inactive s' ∧ s'.Classified := by
  obtain ⟨s', hs'⟩ := deactivate_of hs h.active
  obtain ⟨-, hmoved⟩ := deactivate_spec hs hs'
  exact ⟨s', hs', hmoved, hclass.moved hmoved fun heq => absurd heq h.type_ne⟩

end EntitySet

/-- A blocker from the course of an entity names a change that its set admits. -/
theorem Course.blocker_event {kind : EntityKind} {k : Nat} {s : EntitySet kind k} {i : Fin k}
    {eps : K} {e : Entity n m} {c : Course K} (htype : c.type = s.limitType i)
    (hactivity : c.activity = s.activity i)
    (hfinite : c.finite = ⟨s.hasSide i .lower, s.hasSide i .upper⟩) {b : Blocker K n m}
    (hb : b ∈ c.blockers eps e) :
    b.event = .remove e ∧ s.CanLeave i ∨ ∃ side, b.event = .add e side ∧ s.CanEnter i side := by
  rw [mem_blockers, htype, hactivity, hfinite] at hb
  obtain ⟨hact, hne, -, rfl⟩ | ⟨hact, hne, -, rfl⟩ | ⟨hact, hne, hside, -, rfl⟩ |
    ⟨hact, hne, hside, -, rfl⟩ := hb
  · exact .inl ⟨rfl, by rw [EntitySet.isActive, hact]; rfl, hne⟩
  · exact .inl ⟨rfl, by rw [EntitySet.isActive, hact]; rfl, hne⟩
  · exact .inr ⟨.lower, rfl, hact, rfl, hne, hside⟩
  · exact .inr ⟨.upper, rfl, hact, rfl, hne, hside⟩

theorem Core.mem_boundBlockers {s : Core K n m} {b : Blocker K n m} :
    b ∈ s.boundBlockers ↔
      ∃ i : Fin n, b ∈ (s.boundCourse i).blockers s.parameters.epsZero (.bound i) := by
  simp [boundBlockers]

/-- What ends a step at a bound is a change that the set of bounds admits. -/
theorem Core.boundBlocker_event {s : Core K n m} {b : Blocker K n m} (hb : b ∈ s.boundBlockers) :
    ∃ i : Fin n, b.event = .remove (.bound i) ∧ s.bounds.CanLeave i ∨
      ∃ side, b.event = .add (.bound i) side ∧ s.bounds.CanEnter i side := by
  obtain ⟨i, hi⟩ := mem_boundBlockers.1 hb
  exact ⟨i, Course.blocker_event rfl rfl rfl hi⟩

end ActiveSet
