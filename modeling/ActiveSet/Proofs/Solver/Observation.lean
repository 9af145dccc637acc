import ActiveSet.Proofs.Pages
import ActiveSet.Proofs.Solver.Lifecycle

/-!
# What the observer of a solve can rely on

The observer of either solver is shown the steps as they are made, one record after each. So from its
records it can tell how far a step went, what has become of the working set, and how the call will end
(`observation_faithful`). This holds over the real numbers, and for double precision numbers even where
a quotient in the ratio test is not a number.

What a change of the working set does to the counts is read off the operations that it consists of: a
plain one moves a single entity, and an exchange two of them.

* `Box.Changed.alters`, `Constrained.Changed.alters`: what an event does with the working set.
* `Box.recordable`, `Constrained.recordable`: the records of both solvers.
-/

namespace ActiveSet

variable {K : Type} [Scalar K] {n m : Nat}

-- ---------------------------------------------------------------------------
-- Bounds only
-- ---------------------------------------------------------------------------

namespace Box

variable {s s' : Box K n}

/-- The working set of bounds. -/
theorem standing_eq (s : Box K n) :
    (method : Method K n 0 (Box K n)).standing activity s = ⟨s.activity, s.bounds.activeCount⟩ := by
  rw [← s.bounds.sub_inactiveCount]
  rfl

omit [Scalar K] in
/-- The activities after one bound has moved. -/
theorem activity_of_moved {bounds : EntitySet .bound n} {i : Fin n} {a : Activity}
    (h : s.bounds.Moved i a bounds) (hs' : s'.bounds = bounds) (e : Entity n 0) :
    s'.activity e = if e = .bound i then a else s.activity e := by
  cases e with
  | bound j =>
    simp only [activity, hs', Entity.bound.injEq]
    exact h.activity j
  | constraint j => exact j.elim0

/-- A change of the working set moves one bound. -/
theorem Changed.alters {event : StepEvent n 0} (h : s.Changed event s') (hs : s.InStep)
    (hfits : s.Fits event) : event.Alters ⟨s.activity, s.bounds.activeCount⟩
      ⟨s'.activity, s'.bounds.activeCount⟩ := by
  cases h with
  | @added i side p bounds factor hp hactivate hfactor =>
    have he : s.bounds.CanEnter i side := hfits
    have hmoved := he.moved_of_activate hs.sound hs.classified hactivate
    exact .added he.isActive_eq he.isActive_side (activity_of_moved hmoved rfl)
      (EntitySet.activeCount_activate hactivate)
  | @removed i bounds column factor hdeactivate hfactor =>
    obtain ⟨hactive, hmoved⟩ := EntitySet.deactivate_spec hs.sound hdeactivate
    exact .removed hactive (activity_of_moved hmoved rfl)
      (EntitySet.activeCount_deactivate hdeactivate)

theorem recordable [NumberOrder K] :
    (method : Method K n 0 (Box K n)).Recordable (phases K n) activity where
  restartable := restartable
  ignores _ _ _ _ := rfl
  direction s hs := by
    refine (determineDirection_ensures hs).mono ?_ fun _ _ _ => trivial
    rintro ⟨⟩ _ ⟨-, dx, dy, tilt, rfl⟩
    rfl
  perform tau event s := by
    obtain ⟨x, y, current, hperform⟩ := Core.perform_frame tau event s
    change method.standing activity (s.perform tau event) = _
    rw [hperform]
    rfl
  change event s hevent hs := by
    refine (changeWorkingSet_ensures hs.1 hevent hs.2).mono (fun _ s' h => ?_) fun _ _ _ => trivial
    rw [standing_eq, standing_eq]
    exact h.2.alters hs.1 hs.2
  stepLength s := by
    -- the event of a step is full or that of a bound that blocks before the end
    obtain h | ⟨hmem, hlt⟩ := firstBlocker_lt_one s.boundBlockers
    · exact .inl (by simp only [method, stepLength, h])
    · obtain ⟨i, hi⟩ := Core.mem_boundBlockers.1 hmem
      obtain hfull | ⟨hnot, -⟩ := stepLength_cases s
      · exact .inl hfull
      · exact .inr ⟨hnot, Course.blocker_tau_nonneg hi, hlt⟩

end Box

-- ---------------------------------------------------------------------------
-- Bounds and constraints
-- ---------------------------------------------------------------------------

namespace Constrained

variable {s s' : Constrained K n m} {e leaver : Entity n m} {side : Activity} {w : PreparedRow K}

/-- The working set of bounds and constraints. -/
def standing (s : Constrained K n m) : Standing n m :=
  ⟨s.activity, s.bounds.activeCount + s.active.length⟩

theorem standing_eq (s : Constrained K n m) :
    (method : Method K n m (Constrained K n m)).standing activity s = s.standing := by
  unfold standing
  rw [← s.bounds.sub_inactiveCount]
  rfl

theorem Reordered.standing_eq (h : s.Reordered s') : s'.standing = s.standing := by
  unfold standing
  rw [h.activity_eq]
  cases h <;> rfl

theorem Dependent.standing_eq (h : s.Dependent e w s') : s'.standing = s.standing := by
  unfold standing
  rw [h.activity_eq]
  cases h
  rfl

/-- An entity that enters is the only one that moves. -/
theorem Entered.activity_eq (h : s.Entered side w s' e) (hs : s.InStep) (he : s.CanEnter side e)
    (a : Entity n m) : s'.activity a = if a = e then side else s.activity a := by
  cases e with
  | bound i =>
    have he : s.bounds.CanEnter i side := he
    cases (show s.BoundEntered i side w s' from h) with
    | intro hactivate hrow hfactor hnull =>
      have hmoved := he.moved_of_activate hs.sound hs.classified hactivate
      cases a with
      | bound j =>
        simp only [Entity.bound.injEq]
        exact hmoved.activity j
      | constraint j => rfl
  | constraint i =>
    have he : s.constraints.CanEnter i side := he
    cases (show s.ConstraintEntered i side w true s' from h) with
    | intro hactivate hrow hfactor hnull =>
      have hmoved :=
        he.moved_of_activate hs.constraints_sound hs.classified_constraints hactivate
      cases a with
      | bound j => rfl
      | constraint j =>
        simp only [Entity.constraint.injEq]
        exact hmoved.activity j

theorem Entered.count_eq (h : s.Entered side w s' e) : s'.standing.count = s.standing.count + 1 := by
  cases e with
  | bound i =>
    cases (show s.BoundEntered i side w s' from h) with
    | intro hactivate hrow hfactor hnull =>
      have hcount := EntitySet.activeCount_activate hactivate
      simp only [standing, hcount]
      omega
  | constraint i =>
    cases (show s.ConstraintEntered i side w true s' from h) with
    | intro hactivate hrow hfactor hnull =>
      simp only [standing, List.length_append, List.length_singleton]
      omega

theorem Released.count_eq (h : s.Released e s') : s'.standing.count + 1 = s.standing.count := by
  cases h with
  | bound hdeactivate hnull =>
    have hcount := EntitySet.activeCount_deactivate hdeactivate
    simp only [standing]
    omega
  | constraint hp hdeactivate hnull =>
    obtain ⟨hlt, -⟩ := List.getElem?_eq_some_iff.1 hp
    simp only [standing, List.length_eraseIdx_of_lt hlt]
    omega

theorem Left.count_eq (h : s.Left e s') : s'.standing.count + 1 = s.standing.count := by
  obtain ⟨s1, hreleased, -, hextended⟩ := h
  rw [← hreleased.count_eq]
  cases hextended
  rfl

omit [Scalar K] in
theorem CanEnter.isActive_eq (h : s.CanEnter side e) : (s.activity e).isActive = false := by
  cases e <;> exact EntitySet.CanEnter.isActive_eq h

omit [Scalar K] in
theorem CanEnter.isActive_side (h : s.CanEnter side e) : side.isActive = true := by
  cases e with
  | bound i => exact EntitySet.CanEnter.isActive_side h
  | constraint i => exact EntitySet.CanEnter.isActive_side h

omit [Scalar K] in
theorem CanLeave.isActive_eq (h : s.CanLeave e) : (s.activity e).isActive = true := by
  cases e <;> exact EntitySet.CanLeave.active h

/-- A change of the working set moves one entity, or two if they change places. -/
theorem Changed.alters {event : StepEvent n m} (h : s.Changed event s') (hs : s.InStep)
    (hfits : s.Fits event) : event.Alters s.standing s'.standing := by
  cases h with
  | @added e side w s1 s' hreordered hw hind hentered =>
    have he : s.CanEnter side e := hfits
    have hentering := hentered.activity_eq (hreordered.inStep hs) (hreordered.canEnter he)
    rw [hreordered.activity_eq] at hentering
    have hcount := hentered.count_eq
    rw [hreordered.standing_eq] at hcount
    exact .added he.isActive_eq he.isActive_side hentering hcount
  -- in an exchange the leaver is taken out first, and then the new entity is added
  | @exchanged e side w s1 s' hreordered hw hind hexchanged =>
    have he : s.CanEnter side e := hfits
    cases hexchanged with
    | @intro flip t leaver w' s4 s5 hswapped hind' hentered =>
      obtain ⟨s2, s3, hdependent, hleaving, hleft, hs3, hreordered'⟩ := hswapped.chain
      have hs2 := hdependent.inStep (hreordered.inStep hs)
      have hstanding : s2.standing = s.standing :=
        hdependent.standing_eq.trans hreordered.standing_eq
      have hleave := canLeave_of_leaving (firstLeaving_eq_some hleaving).2
      have hleaver := hleave.isActive_eq
      have he3 : s3.CanEnter side e := hleft.canEnter hs2.toInOrder (by
        cases hdependent
        exact (hreordered.canEnter he).congr rfl rfl)
      have hentering := hentered.activity_eq (hreordered'.inStep hs3) (hreordered'.canEnter he3)
      rw [hreordered'.activity_eq] at hentering
      have hcount := hentered.count_eq
      rw [hreordered'.standing_eq, hleft.count_eq, hstanding] at hcount
      have hactivity2 : s2.activity = s.activity := congrArg Standing.activity hstanding
      rw [hactivity2] at hleaver
      -- seen from the start, two entities have changed their places
      have hchanged : ∀ a, s5.activity a =
          if a = e then side else if a = leaver then .inactive else s.activity a := by
        intro a
        rw [hentering, hleft.activity_eq hs2.toInOrder, hactivity2]
      refine .exchanged he.isActive_eq he.isActive_side hleaver (fun a => ?_) hcount
      refine Eq.trans ?_ (hchanged a)
      cases a <;> rfl
  | removed hleft =>
    have he : s.CanLeave _ := hfits
    exact .removed he.isActive_eq (hleft.activity_eq hs.toInOrder) hleft.count_eq

theorem recordable [NumberOrder K] :
    (method : Method K n m (Constrained K n m)).Recordable (workingSetPhases K n m) activity where
  restartable := restartable
  ignores s _ _ _ := by
    rw [standing_eq, standing_eq]
    rfl
  direction s hs := by
    refine (determineDirection_ensures hs).mono (fun _ s' hdirected => ?_) fun _ _ _ => trivial
    obtain ⟨dx, dy, tilt, dax, rfl⟩ := hdirected.same
    rfl
  perform tau event s := by
    obtain ⟨x, y, current, ax, hperform⟩ := perform_frame tau event s
    change method.standing activity (s.perform tau event) = _
    rw [hperform]
    rfl
  change event s hevent hs := by
    refine (changeWorkingSet_ensures hs.1 hevent hs.2).mono (fun _ s' h => ?_) fun _ _ _ => trivial
    rw [standing_eq, standing_eq]
    exact h.1.alters hs.1 hs.2
  -- an event comes before the end, and after a nonnegative length
  stepLength s := by
    obtain h | ⟨hmem, hlt⟩ := firstBlocker_lt_one (s.boundBlockers ++ s.rowBlockers)
    · exact .inl (by simp only [method, stepLength, h])
    · refine .inr ⟨(blocker_event hmem).1, ?_, hlt⟩
      obtain hbound | hrow := List.mem_append.1 hmem
      · obtain ⟨i, hi⟩ := Core.mem_boundBlockers.1 hbound
        exact Course.blocker_tau_nonneg hi
      · obtain ⟨i, hi⟩ := mem_rowBlockers.1 hrow
        exact Course.blocker_tau_nonneg hi

end Constrained

-- ---------------------------------------------------------------------------
-- Sessions
-- ---------------------------------------------------------------------------

/-- The records of a call tell what they should, and how it has ended. This is so for both solvers, in every
state that any calls lead to, for every call that enters its homotopy, with any observer and any budget,
over the real numbers and for double precision numbers, of which some may be no numbers. A writer of their
lines leaves the first ones on its page, as many as there is room for. -/
theorem observation_faithful (n m : ℕ) :
    ((∀ s, (Constrained.interface ℝ n m).Reachable anyCall s → ∀ c start,
        (Constrained.interface ℝ n m).StartsBy s c start →
          (Constrained.interface ℝ n m).Records Constrained.activity s c start) ∧
      ∀ s, (Box.interface ℝ n).Reachable anyCall s → ∀ c start,
        (Box.interface ℝ n).StartsBy s c start →
          (Box.interface ℝ n).Records Box.activity s c start) ∧
    ((∀ s, (Constrained.interface Float n m).Reachable anyCall s → ∀ c start,
        (Constrained.interface Float n m).StartsBy s c start →
          (Constrained.interface Float n m).Records Constrained.activity s c start) ∧
      ∀ s, (Box.interface Float n).Reachable anyCall s → ∀ c start,
        (Box.interface Float n).StartsBy s c start →
          (Box.interface Float n).Records Box.activity s c start) ∧
    (∀ s start budget limit,
      (Constrained.interface Float n m).method.Written s start budget limit) ∧
    ∀ s start budget limit, (Box.interface Float n).method.Written s start budget limit := by
  have hreal : ((1 : ℝ) == 1) = true := beq_self_eq_true 1
  have hdouble : ((1 : Float) == 1) = true := by decide +kernel
  refine ⟨⟨fun s hs c start h => ?_, fun s hs c start h => ?_⟩,
    ⟨fun s hs c start h => ?_, fun s hs c start h => ?_⟩, Constrained.restartable.written,
    Box.restartable.written⟩
  · -- what the records rely on is kept by every call, over both kinds of numbers
    have hI := Constrained.respects (K := ℝ) (n := n) (m := m) hreal
    exact hI.records Constrained.recordable (hI.settled hs) h
  · have hI := Box.respects (K := ℝ) (n := n) hreal
    exact hI.records Box.recordable (hI.settled hs) h
  · have hI := Constrained.respects (K := Float) (n := n) (m := m) hdouble
    exact hI.records Constrained.recordable (hI.settled hs) h
  · have hI := Box.respects (K := Float) (n := n) hdouble
    exact hI.records Box.recordable (hI.settled hs) h

/-! ## An instance -/

/-- The solution of a problem in one variable is on the upper limit of a row. The limit has been raised
beyond the upper bound of the variable since. -/
def raisedRow : Constrained Float 1 1 :=
  [Call.load (.core (.hessian #[1])), .load (.matrix #[2]), .load (.core (.gradient #[-1])),
    .load (.core (.bounds #[0] #[0.25])), .load (.rowBounds #[0] #[0.25]),
    .solve Observer.silent () 10 none none, .load (.rowUpper #[1])].foldl
      (fun s c => ((Constrained.interface Float 1 1).call c s).2) (Constrained.fresh 1 1)

/-- What the observer is shown of the way to the solution with the raised limit. -/
def raisedLog : List (Iteration Float 1 1 × Answer) :=
  Call.log (Constrained.interface Float 1 1).method raisedRow
    (.resume Observer.silent () 10 : Call Float 1 1 (Constrained.Loading Float))

/-- The bound takes the place of the row, so after both steps the working set is as large as before. -/
theorem observation_faithful_raisedRow :
    (Constrained.interface Float 1 1).Reachable anyCall raisedRow ∧
      (Constrained.interface Float 1 1).StartsBy raisedRow (.resume Observer.silent () 10) raisedRow ∧
      raisedLog.map (·.1.event) = [.add (.bound 0) .upper, .full] ∧ Sized 1 (raisedLog.map (·.1)) ∧
      ((Constrained.interface Float 1 1).call (.resume Observer.silent () 10) raisedRow).1 =
        .ok 2 := by
  have hreachable : (Constrained.interface Float 1 1).Reachable anyCall raisedRow :=
    Interface.reachable_foldl _ _ .fresh
  have hstatus : raisedRow.status = .solved := by decide +kernel
  have hstarts : (Constrained.interface Float 1 1).StartsBy raisedRow
      (.resume Observer.silent () 10) raisedRow := by
    refine .resumed ?_ (by decide +kernel)
    change raisedRow.status.isStart = true
    rw [hstatus]
    rfl
  have hcount : ((Constrained.interface Float 1 1).method.standing Constrained.activity
      raisedRow).count = 1 := by decide +kernel
  have hevents : raisedLog.map (·.1.event) = [.add (.bound 0) .upper, .full] := by decide +kernel
  have hrecords := (observation_faithful 1 1).2.1.1 raisedRow hreachable _ _ hstarts
  -- the bound enters while the row has to leave, so the count stays one
  have hsized := hrecords.sized
  rw [hcount] at hsized
  have hlast : raisedLog[1]?.map (·.1.event) = some .full := by
    rw [← List.getElem?_map, hevents]
    rfl
  obtain ⟨r, hr, hfull⟩ := Option.map_eq_some_iff.1 hlast
  exact ⟨hreachable, hstarts, hevents, hsized, (hrecords.ok_iff 2).2 ⟨1, r, rfl, hr, hfull⟩⟩

end ActiveSet
