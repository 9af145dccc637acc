import ActiveSet.Proofs.WorkingSet.EntitySet
import ActiveSet.Proofs.WorkingSet.Moves
import ActiveSet.Scalar.Double

/-!
# Entity sets under any use

The solvers classify their entities once and move them with care. Here an entity set is given to an
arbitrary user, who classifies, moves and resets entities in any order, with indices outside the set,
sides that are none, and limits that cross or are not numbers. Nothing is assumed of the arithmetic, so
that a comparison may have any answer.

What has to survive such a use is that the three tables and the partition agree, and that an active
entity stands at a limit that was finite when it was classified (`Limits.Stands`). The changes are
written entry by entry and equal the changes as a whole (`Change.write_eq`), so that one that is refused
leaves nothing behind; `Consistent.left` is what one change keeps, and `changes_coherent` is what holds
after any sequence of them.

* `Change`, `Change.write`: changes, entry by entry.
* `Change.record`: the limits by which each entity was classified, read off the changes alone.
* `Coherent`, `Responds`: what the set shows, and how it answers the next change.
-/

namespace ActiveSet

/-- What an entity is classified by: its limits, the distance below which they coincide, and the
number from which on a limit is none. -/
structure Limits (K : Type) where
  lower : K
  upper : K
  tolerance : K
  infinity : K

namespace Limits

variable {K : Type} [Scalar K]

/-- The type of an entity with these limits. -/
def type (l : Limits K) : LimitType :=
  EntitySet.typeOfLimits l.lower l.upper l.tolerance l.infinity

/-- The sides at which these limits are finite. -/
def sides (l : Limits K) : FiniteSides := ⟨-l.infinity < l.lower, l.upper < l.infinity⟩

/-- The activities that an entity of a type admits: it may be inactive, at the lower limit if its limits
coincide, and otherwise at a limit that is finite. -/
inductive Stands (l : Limits K) : LimitType → Activity → Prop
  | inactive (t : LimitType) : Stands l t .inactive
  | equality : Stands l .equality .lower
  | lower (h : -l.infinity < l.lower) : Stands l .bounded .lower
  | upper (h : l.upper < l.infinity) : Stands l .bounded .upper

theorem Stands.ne_undefined {l : Limits K} {t : LimitType} {a : Activity} (h : l.Stands t a) :
    a ≠ .undefined := by
  cases h <;> exact nofun

end Limits

namespace EntitySet

variable {kind : EntityKind} {n : Nat} {K : Type} [Scalar K]

/-- A change that is asked for, with any index, side and limits. -/
inductive Change (K : Type) where
  /-- Classifies an entity. -/
  | classify (i : Nat) (l : Limits K)
  /-- Moves an entity into the working set, at a side. -/
  | activate (i : Nat) (side : Activity)
  /-- Moves an entity out of the working set. -/
  | deactivate (i : Nat)
  /-- Every entity becomes unclassified and inactive. -/
  | reset

-- ---------------------------------------------------------------------------
-- Changes as a whole and entry by entry
-- ---------------------------------------------------------------------------

/-- The set after a change, with the type that a classification reports. -/
def Change.apply : Change K → EntitySet kind n → Except QpError (Option LimitType × EntitySet kind n)
  | classify i l, s =>
    (s.classify i l.lower l.upper l.tolerance l.infinity).map fun r => (some r.1, r.2)
  | activate i side, s => (s.activate i side).map (Prod.mk none)
  | deactivate i, s => (s.deactivate i).map (Prod.mk none)
  | reset, s => .ok (none, s.reset)

/-- A move of the partition, whose errors are reported as one. -/
def movePartition (m : Partition.Move) : Update (EntitySet kind n) Unit :=
  Update.mapError (fun _ => kind.movingFailed)
    (Update.focus partition (fun s p => { s with partition := p }) m.write)

/-- A change, written entry by entry. The partition moves before the activity is written, since it may
refuse. -/
def Change.write : Change K → Update (EntitySet kind n) (Option LimitType)
  | classify i l => do
    let s ← get
    if h : i < n then
      if s.types[i] ≠ .unknown then Update.fail kind.setupFailed
      else if l.upper < l.lower then Update.fail kind.setupFailed
      else
        modify fun s => { s with types := s.types.set i l.type }
        modify fun s => { s with activities := s.activities.set i .inactive }
        modify fun s => { s with finite := s.finite.set i l.sides }
        return some l.type
    else Update.fail .indexOutOfBounds
  | activate i side => do
    let s ← get
    if h : i < n then
      if side.isActive = false then Update.fail .invalidArguments
      else
        match s.sideFor i side with
        | none => Update.fail kind.movingFailed
        | some side' =>
          if s.isActive i then Update.fail .indexAlreadyOfDesiredStatus
          else
            movePartition (.activate i)
            modify fun s => { s with activities := s.activities.set i side' }
            return none
    else Update.fail .indexOutOfBounds
  | deactivate i => do
    let s ← get
    if h : i < n then
      if s.isActive i = false then Update.fail .indexAlreadyOfDesiredStatus
      else
        movePartition (.deactivate i)
        modify fun s => { s with activities := s.activities.set i .inactive }
        return none
    else Update.fail .indexOutOfBounds
  | reset => do
    Update.focus types (fun s v => { s with types := v }) (Update.fill fun _ => .unknown)
    Update.focus activities (fun s v => { s with activities := v }) (Update.fill fun _ => .undefined)
    Update.focus finite (fun s v => { s with finite := v }) (Update.fill fun _ => ⟨false, false⟩)
    movePartition .reset
    return none

/-- The partition moves as a whole, and no other part of the set does. -/
theorem movePartition_ensures (m : Partition.Move) (s : EntitySet kind n) :
    (movePartition m).Ensures s
      (fun _ s' => ∃ p, m.apply s.partition = .ok p ∧ s' = { s with partition := p })
      fun f s' => s' = s ∧ f = .failed kind.movingFailed ∧ ∃ e, m.apply s.partition = .error e := by
  unfold movePartition
  rw [Update.ensures_mapError, Update.ensures_focus, m.write_eq]
  refine (Update.ensures_atomically_map m.apply s.partition).mono (fun _ p hp => ⟨p, hp, rfl⟩) ?_
  rintro f p ⟨rfl, e, rfl, he⟩
  exact ⟨rfl, rfl, e, he⟩

/-- A change that is written entry by entry is made as a whole or not at all. -/
theorem Change.write_eq (c : Change K) :
    c.write = Update.atomically fun s : EntitySet kind n => c.apply s := by
  refine Update.eq_atomically fun s => ?_
  cases c with
  | classify i l =>
    simp only [write, apply, EntitySet.classify, Update.ensures_bind, Update.ensures_get]
    by_cases hi : i < n
    · rw [dif_pos hi, dif_pos hi]
      split
      · exact ⟨rfl, _, rfl, rfl⟩
      · split
        · exact ⟨rfl, _, rfl, rfl⟩
        · rfl
    · rw [dif_neg hi, dif_neg hi]
      exact ⟨rfl, _, rfl, rfl⟩
  | activate i side =>
    simp only [write, apply, EntitySet.activate, Update.ensures_bind, Update.ensures_get]
    by_cases hi : i < n
    · rw [dif_pos hi, dif_pos hi]
      split
      · exact ⟨rfl, _, rfl, rfl⟩
      cases s.sideFor i side with
      | none => exact ⟨rfl, _, rfl, rfl⟩
      | some side' =>
        dsimp only
        split
        · exact ⟨rfl, _, rfl, rfl⟩
        -- a full group refuses the entity before its activity has been written
        refine Update.ensures_bind_of (movePartition_ensures _ s) ?_ ?_
        · rintro f s' ⟨rfl, rfl, e, he⟩
          have hmove : s'.partition.moveToActive i = .error e := he
          rw [hmove]
          exact ⟨rfl, _, rfl, rfl⟩
        · rintro _ s' ⟨p, hp, rfl⟩
          have hmove : s.partition.moveToActive i = .ok p := hp
          rw [hmove]
          rfl
    · rw [dif_neg hi, dif_neg hi]
      exact ⟨rfl, _, rfl, rfl⟩
  | deactivate i =>
    simp only [write, apply, EntitySet.deactivate, Update.ensures_bind, Update.ensures_get]
    by_cases hi : i < n
    · rw [dif_pos hi, dif_pos hi]
      split
      · exact ⟨rfl, _, rfl, rfl⟩
      refine Update.ensures_bind_of (movePartition_ensures _ s) ?_ ?_
      · rintro f s' ⟨rfl, rfl, e, he⟩
        have hmove : s'.partition.moveToInactive i = .error e := he
        rw [hmove]
        exact ⟨rfl, _, rfl, rfl⟩
      · rintro _ s' ⟨p, hp, rfl⟩
        have hmove : s.partition.moveToInactive i = .ok p := hp
        rw [hmove]
        rfl
    · rw [dif_neg hi, dif_neg hi]
      exact ⟨rfl, _, rfl, rfl⟩
  | reset =>
    simp only [write, apply, Update.ensures_bind, Update.ensures_focus]
    refine (Update.fill_ensures _ s.types).mono ?_ fun _ _ h => h.elim
    rintro _ types rfl
    refine (Update.fill_ensures _ s.activities).mono ?_ fun _ _ h => h.elim
    rintro _ activities rfl
    refine (Update.fill_ensures _ s.finite).mono ?_ fun _ _ h => h.elim
    rintro _ finite rfl
    refine (movePartition_ensures .reset _).mono ?_ ?_
    · rintro _ s' ⟨p, hp, rfl⟩
      cases hp
      have hconst : ∀ {α : Type} (a : α), Vector.ofFn (fun _ : Fin n => a) = Vector.replicate n a :=
        fun a => Vector.ext fun k hk => by rw [Vector.getElem_ofFn, Vector.getElem_replicate]
      rw [Update.ensures_pure, hconst, hconst, hconst]
      rfl
    · rintro f s' ⟨-, -, e, he⟩
      cases he

-- ---------------------------------------------------------------------------
-- What a change keeps
-- ---------------------------------------------------------------------------

/-- The limits by which each entity was classified since the last reset, read off the changes alone: an
entity is classified once, by limits that do not cross. -/
def Change.record (n : Nat) (c : Change K) (setups : Nat → Option (Limits K)) :
    Nat → Option (Limits K) :=
  match c with
  | classify i l =>
    if i < n ∧ (setups i).isNone = true ∧ ¬l.upper < l.lower then Function.update setups i (some l)
    else setups
  | reset => fun _ => none
  | activate .. | deactivate _ => setups

/-- The records of an entity, next to the limits that it was classified by. -/
inductive ClassifiedAs (s : EntitySet kind n) (i : Fin n) : Option (Limits K) → Prop
  | unknown (htype : s.limitType i = .unknown) (hactivity : s.activity i = .undefined) :
    ClassifiedAs s i none
  | known {l : Limits K} (htype : s.limitType i = l.type) (hsides : s.sides i = l.sides)
    (hstands : l.Stands (s.limitType i) (s.activity i)) : ClassifiedAs s i (some l)

/-- The partition and the activities agree, and every entity has the records that its classification and
the moves since then leave. -/
structure Consistent (s : EntitySet kind n) (capacity : Nat) (setups : Nat → Option (Limits K)) :
    Prop where
  sound : s.Sound
  capacity : s.partition.capacity = capacity
  classifiedAs : ∀ i : Fin n, s.ClassifiedAs i (setups i)

variable {s s' : EntitySet kind n} {i : Fin n} {l : Limits K} {setups : Nat → Option (Limits K)}
  {capacity : Nat}

theorem type_ne_unknown (l : Limits K) : l.type ≠ .unknown := typeOfLimits_ne_unknown _ _

theorem ClassifiedAs.unknown_iff {o : Option (Limits K)} (h : s.ClassifiedAs i o) :
    s.limitType i = .unknown ↔ o = none := by
  cases h with
  | unknown htype => simp [htype]
  | known htype => simp [htype, type_ne_unknown]

theorem ClassifiedAs.undefined_iff {o : Option (Limits K)} (h : s.ClassifiedAs i o) :
    s.activity i = .undefined ↔ s.limitType i = .unknown := by
  cases h with
  | unknown htype hactivity => simp [htype, hactivity]
  | known htype hsides hstands =>
    have hne : s.limitType i ≠ .unknown := htype ▸ type_ne_unknown _
    simp only [hne, iff_false]
    exact hstands.ne_undefined

/-- Records look at one entity. -/
theorem ClassifiedAs.congr {o : Option (Limits K)} (h : s.ClassifiedAs i o)
    (htype : s'.limitType i = s.limitType i) (hsides : s'.sides i = s.sides i)
    (hactivity : s'.activity i = s.activity i) : s'.ClassifiedAs i o := by
  cases h with
  | unknown ht ha => exact .unknown (htype.trans ht) (hactivity.trans ha)
  | known ht hs hstands =>
    refine .known (htype.trans ht) (hsides.trans hs) ?_
    rwa [htype, hactivity]

/-- The side at which an entity becomes active is one at which it can stand. -/
theorem stands_of_sideFor {side side' : Activity} (hsides : s.sides i = l.sides)
    (hside : side.isActive = true) (h : s.sideFor i side = some side') : l.Stands (s.limitType i) side' := by
  unfold sideFor at h
  split at h
  · next hequality =>
    cases h
    rw [hequality]
    exact .equality
  · next hbounded =>
    rw [hbounded]
    split at h
    · next hfinite =>
      cases h
      cases side with
      | lower =>
        rw [hasSide_lower, hsides] at hfinite
        exact .lower (of_decide_eq_true hfinite)
      | upper =>
        rw [hasSide_upper, hsides] at hfinite
        exact .upper (of_decide_eq_true hfinite)
      | inactive => cases hside
      | undefined => cases hside
    · cases h
  · cases h
  · cases h

namespace Consistent

theorem empty (h : capacity ≤ n) :
    (EntitySet.empty kind n capacity h).Consistent capacity fun _ => (none : Option (Limits K)) := by
  refine ⟨sound_empty h, rfl, fun i => .unknown ?_ ?_⟩
  · simp [EntitySet.empty, ofPartition]
  · simp [EntitySet.empty, ofPartition]

/-- An entity is classified exactly if that has not happened since the last reset, by limits that do not
cross. -/
theorem classify_ok_iff (h : s.Consistent capacity setups) (i : Nat) (l : Limits K) :
    (∃ r, s.classify i l.lower l.upper l.tolerance l.infinity = .ok r) ↔
      i < n ∧ (setups i).isNone = true ∧ ¬l.upper < l.lower := by
  by_cases hi : i < n
  · have hunknown := (h.classifiedAs ⟨i, hi⟩).unknown_iff
    rw [Option.isNone_iff_eq_none, ← hunknown]
    constructor
    · rintro ⟨⟨t, s'⟩, hr⟩
      obtain ⟨htype, hcross, -⟩ := classify_spec (i := ⟨i, hi⟩) hr
      exact ⟨hi, htype, hcross⟩
    · rintro ⟨-, htype, hcross⟩
      obtain ⟨t, s', hr⟩ := classify_of (i := ⟨i, hi⟩) l.tolerance l.infinity htype hcross
      exact ⟨_, hr⟩
  · constructor
    · rintro ⟨r, hr⟩
      rw [EntitySet.classify, dif_neg hi] at hr
      cases hr
    · exact fun ⟨hi', _⟩ => absurd hi' hi

/-- What a classification keeps. -/
theorem classify (h : s.Consistent capacity setups) {i : Nat} {t : LimitType}
    (hr : s.classify i l.lower l.upper l.tolerance l.infinity = .ok (t, s')) :
    s'.Consistent capacity (Function.update setups i (some l)) := by
  obtain ⟨hi, -, -⟩ := (h.classify_ok_iff i l).1 ⟨_, hr⟩
  obtain ⟨hunknown, -, ht, hpartition, htype, hactivity, hsides⟩ :=
    classify_spec (i := ⟨i, hi⟩) hr
  -- neither an undefined entity nor an inactive one is in the working set
  have hinactive : ∀ j : Fin n, s'.isActive j = s.isActive j := by
    intro j
    rw [isActive, isActive, hactivity]
    split
    · next heq =>
      rw [heq, (h.classifiedAs ⟨i, hi⟩).undefined_iff.2 hunknown]
      rfl
    · rfl
  refine ⟨⟨hpartition ▸ h.sound.partition, fun j => ?_⟩, hpartition ▸ h.capacity, fun j => ?_⟩
  · rw [hinactive, hpartition]
    exact h.sound.isActive_iff j
  · by_cases hj : j = ⟨i, hi⟩
    · subst hj
      rw [Function.update_self]
      refine .known (by rw [htype, if_pos rfl, ht, Limits.type])
        (by rw [hsides, if_pos rfl, Limits.sides]) ?_
      rw [hactivity, if_pos rfl]
      exact .inactive _
    · have hji : j.val ≠ i := fun heq => hj (Fin.ext heq)
      rw [Function.update_of_ne hji]
      refine (h.classifiedAs j).congr ?_ ?_ ?_
      · rw [htype, if_neg hj]
      · rw [hsides, if_neg hj]
      · rw [hactivity, if_neg hj]

/-- What a change of one activity keeps. -/
theorem moved (h : s.Consistent capacity setups) {a : Activity} (hm : s.Moved i a s')
    (ha : ∀ l : Limits K, s.sides i = l.sides → l.Stands (s.limitType i) a)
    (hknown : s.limitType i ≠ .unknown) : s'.Consistent capacity setups := by
  have hsides : ∀ j : Fin n, s'.sides j = s.sides j := fun j => by
    unfold sides
    rw [hm.finite]
  refine ⟨hm.sound, hm.capacity.trans h.capacity, fun j => ?_⟩
  by_cases hj : j = i
  · subst hj
    have hold := h.classifiedAs j
    generalize setups j = o at hold ⊢
    cases hold with
    | unknown htype => exact absurd htype hknown
    | known htype hs =>
      refine .known ((hm.limitType j).trans htype) ((hsides j).trans hs) ?_
      rw [hm.limitType, hm.activity, if_pos rfl]
      exact ha _ hs
  · refine (h.classifiedAs j).congr (hm.limitType j) (hsides j) ?_
    rw [hm.activity, if_neg hj]

theorem activate (h : s.Consistent capacity setups) {i : Nat} {side : Activity}
    (hr : s.activate i side = .ok s') : s'.Consistent capacity setups := by
  by_cases hi : i < n
  · obtain ⟨-, hside, side', hfor, hm⟩ := activate_spec (i := ⟨i, hi⟩) h.sound hr
    refine h.moved hm (fun l hsides => stands_of_sideFor hsides hside hfor) ?_
    intro hunknown
    rw [sideFor, hunknown] at hfor
    cases hfor
  · rw [EntitySet.activate, dif_neg hi] at hr
    cases hr

theorem deactivate (h : s.Consistent capacity setups) {i : Nat} (hr : s.deactivate i = .ok s') :
    s'.Consistent capacity setups := by
  by_cases hi : i < n
  · obtain ⟨hactive, hm⟩ := deactivate_spec (i := ⟨i, hi⟩) h.sound hr
    refine h.moved hm (fun l _ => .inactive _) fun hunknown => ?_
    rw [isActive, (h.classifiedAs ⟨i, hi⟩).undefined_iff.2 hunknown] at hactive
    cases hactive
  · rw [EntitySet.deactivate, dif_neg hi] at hr
    cases hr

theorem reset (h : s.Consistent capacity setups) :
    s.reset.Consistent capacity fun _ => (none : Option (Limits K)) :=
  ⟨sound_reset s, h.capacity, fun i => .unknown (limitType_reset s i) (activity_reset s i)⟩

/-- What a change keeps, whether it succeeds or is refused. -/
theorem left (h : s.Consistent capacity setups) (c : Change K) :
    (c.write.left s).Consistent capacity (c.record n setups) := by
  rw [c.write_eq]
  cases hr : c.apply s with
  | error e =>
    rw [Update.left_of_error (Update.atomically_of_error hr)]
    cases c with
    | classify i l =>
      -- a classification that is refused must not be recorded either
      have hrefused : ¬∃ r, s.classify i l.lower l.upper l.tolerance l.infinity = .ok r := by
        rintro ⟨r, hok⟩
        rw [Change.apply, hok] at hr
        cases hr
      rw [h.classify_ok_iff] at hrefused
      rw [Change.record, if_neg hrefused]
      exact h
    | activate i side => exact h
    | deactivate i => exact h
    | reset => cases hr
  | ok r =>
    rw [Update.left_of_ok (Update.atomically_of_ok hr)]
    cases c with
    | classify i l =>
      obtain ⟨⟨t, s'⟩, hok, rfl⟩ := exists_of_map_ok hr
      rw [Change.record, if_pos ((h.classify_ok_iff i l).1 ⟨_, hok⟩)]
      exact h.classify hok
    | activate i side =>
      obtain ⟨s', hok, rfl⟩ := exists_of_map_ok hr
      exact h.activate hok
    | deactivate i =>
      obtain ⟨s', hok, rfl⟩ := exists_of_map_ok hr
      exact h.deactivate hok
    | reset =>
      cases hr
      exact h.reset

end Consistent

-- ---------------------------------------------------------------------------
-- What the users of an entity set see
-- ---------------------------------------------------------------------------

/-- The tables and the partition of an entity set agree, with each other and with the limits by which
its entities were classified. -/
structure Coherent (s : EntitySet kind n) (capacity : Nat) (setups : Nat → Option (Limits K)) :
    Prop where
  check : s.check = .ok ()
  mem_active_iff : ∀ i : Fin n, i ∈ s.active ↔ s.activity i = .lower ∨ s.activity i = .upper
  mem_inactive_iff : ∀ i : Fin n,
    i ∈ s.inactive ↔ s.activity i = .inactive ∨ s.activity i = .undefined
  undefined_iff : ∀ i : Fin n, s.activity i = .undefined ↔ s.limitType i = .unknown
  unknown_iff : ∀ i : Fin n, s.limitType i = .unknown ↔ setups i = none
  /-- An active entity was classified, as an equality that stands at its lower limit, or with two limits
  of which it stands at a finite one. -/
  admitted : ∀ i ∈ s.active, ∃ l, setups i = some l ∧ s.limitType i = l.type ∧
    (l.type = .equality ∧ s.activity i = .lower ∨
      l.type = .bounded ∧ (s.activity i = .lower ∧ -l.infinity < l.lower ∨
        s.activity i = .upper ∧ l.upper < l.infinity))
  length_le : s.active.length ≤ capacity

/-- How an entity set answers the next change. -/
structure Responds (s : EntitySet kind n) (setups : Nat → Option (Limits K)) : Prop where
  classify_accepted : ∀ (i : Nat) (l : Limits K),
    (∃ o s', (Change.classify i l).write s = .ok o s') ↔
      i < n ∧ (setups i).isNone = true ∧ ¬l.upper < l.lower
  refused_unchanged : ∀ (c : Change K) f s', c.write s = .error f s' →
    s' = s ∧ ∃ e, f = .failed e
  deactivate_restores : ∀ (i : Nat) (side : Activity) o s',
    (Change.activate (K := K) i side).write s = .ok o s' →
      ∃ o' s'', (Change.deactivate (K := K) i).write s' = .ok o' s'' ∧
        (∀ j : Fin n, s''.activity j = s.activity j) ∧
        (∀ j, j ∈ s''.active ↔ j ∈ s.active) ∧ ∀ j, j ∈ s''.inactive ↔ j ∈ s.inactive

namespace Consistent

theorem isActive_eq_true_iff (s : EntitySet kind n) (i : Nat) :
    s.isActive i = true ↔ s.activity i = .lower ∨ s.activity i = .upper := by
  unfold isActive
  cases s.activity i <;> decide

theorem isActive_eq_false_iff (s : EntitySet kind n) (i : Nat) :
    s.isActive i = false ↔ s.activity i = .inactive ∨ s.activity i = .undefined := by
  unfold isActive
  cases s.activity i <;> decide

theorem coherent (h : s.Consistent capacity setups) : s.Coherent capacity setups where
  check := check_eq_ok_iff.2 h.sound
  mem_active_iff i := (h.sound.mem_active i).trans (isActive_eq_true_iff s i)
  mem_inactive_iff i := (h.sound.mem_inactive i).trans (isActive_eq_false_iff s i)
  undefined_iff i := (h.classifiedAs i).undefined_iff
  unknown_iff i := (h.classifiedAs i).unknown_iff
  admitted i hi := by
    rw [h.sound.mem_active, isActive] at hi
    have hclassified := h.classifiedAs i
    generalize setups i = o at hclassified ⊢
    cases hclassified with
    | unknown _ hactivity =>
      rw [hactivity] at hi
      cases hi
    | @known l htype _ hstands =>
      refine ⟨l, rfl, htype, ?_⟩
      rw [← htype]
      generalize s.limitType i = t, s.activity i = a at hstands hi ⊢
      cases hstands with
      | inactive => cases hi
      | equality => exact .inl ⟨rfl, rfl⟩
      | lower hlower => exact .inr ⟨rfl, .inl ⟨rfl, hlower⟩⟩
      | upper hupper => exact .inr ⟨rfl, .inr ⟨rfl, hupper⟩⟩
  length_le := by
    rw [EntitySet.active, s.partition.length_active, ← h.capacity]
    exact s.partition.activeCount_le

/-- An entity that has just become active can be moved back, and then no trace of it is left. -/
theorem deactivate_of_activate (h : s.Consistent capacity setups) {i : Nat} {side : Activity}
    (hr : s.activate i side = .ok s') :
    ∃ s'', s'.deactivate i = .ok s'' ∧ (∀ j : Fin n, s''.activity j = s.activity j) ∧
      (∀ j, j ∈ s''.active ↔ j ∈ s.active) ∧ ∀ j, j ∈ s''.inactive ↔ j ∈ s.inactive := by
  by_cases hi : i < n
  · obtain ⟨hnot, hside, side', hfor, hm⟩ := activate_spec (i := ⟨i, hi⟩) h.sound hr
    have hactive : s'.isActive i = true := by
      rw [hm.isActive ⟨i, hi⟩, if_pos rfl]
      exact sideFor_isActive hside hfor
    obtain ⟨s'', hr'⟩ := deactivate_of (i := ⟨i, hi⟩) hm.sound hactive
    obtain ⟨-, hm'⟩ := deactivate_spec (i := ⟨i, hi⟩) hm.sound hr'
    -- the entity was classified, or it could not have become active
    have hbefore : s.activity i = .inactive := by
      refine ((isActive_eq_false_iff s i).1 hnot).resolve_right fun hundefined => ?_
      rw [sideFor, (h.classifiedAs ⟨i, hi⟩).undefined_iff.1 hundefined] at hfor
      cases hfor
    have hactivity : ∀ j : Fin n, s''.activity j = s.activity j := by
      intro j
      rw [hm'.activity, hm.activity]
      split
      · next heq => rw [heq, hbefore]
      · rfl
    have hsame : ∀ j : Fin n, s''.isActive j = s.isActive j := fun j => by
      rw [isActive, hactivity, isActive]
    refine ⟨s'', hr', hactivity, fun j => ?_, fun j => ?_⟩
    · rw [hm'.sound.mem_active, h.sound.mem_active, hsame]
    · rw [hm'.sound.mem_inactive, h.sound.mem_inactive, hsame]
  · rw [EntitySet.activate, dif_neg hi] at hr
    cases hr

theorem responds (h : s.Consistent capacity setups) : s.Responds setups where
  classify_accepted i l := by
    rw [← h.classify_ok_iff, Change.write_eq]
    constructor
    · rintro ⟨o, s', hw⟩
      have happly : (Change.classify i l).apply s = .ok (o, s') := Update.of_atomically_ok hw
      obtain ⟨r, hr, -⟩ := exists_of_map_ok happly
      exact ⟨r, hr⟩
    · rintro ⟨r, hr⟩
      refine ⟨some r.1, r.2, Update.atomically_of_ok ?_⟩
      rw [Change.apply, hr]
      rfl
  refused_unchanged c f s' hw := by
    rw [c.write_eq] at hw
    obtain ⟨rfl, e, rfl, -⟩ := Update.of_atomically_error hw
    exact ⟨rfl, e, rfl⟩
  deactivate_restores i side o s' hw := by
    rw [Change.write_eq] at hw
    have happly : (Change.activate (K := K) i side).apply s = .ok (o, s') :=
      Update.of_atomically_ok hw
    obtain ⟨_, hr, heq⟩ := exists_of_map_ok happly
    cases heq
    obtain ⟨s'', hr', hrest⟩ := h.deactivate_of_activate hr
    refine ⟨none, s'', ?_, hrest⟩
    rw [Change.write_eq]
    refine Update.atomically_of_ok ?_
    rw [Change.apply, hr']
    rfl

end Consistent

/-- The set after changes that are made one after the other, where those that are refused are passed
over. -/
def run (changes : List (Change K)) (s : EntitySet kind n) : EntitySet kind n :=
  changes.foldl (fun s c => c.write.left s) s

/-- The limits by which the entities are classified after the same changes. -/
def Change.recordAll (n : Nat) (changes : List (Change K)) : Nat → Option (Limits K) :=
  changes.foldl (fun setups c => c.record n setups) fun _ => none

/-- However an entity set of any size and capacity is used, its tables, its partition and the limits by
which its entities were classified agree, and the next change is made as a whole or not at all. -/
theorem changes_coherent {capacity : Nat} (h : capacity ≤ n) (changes : List (Change K)) :
    (run changes (empty kind n capacity h)).Coherent capacity (Change.recordAll n changes) ∧
      (run changes (empty kind n capacity h)).Responds (Change.recordAll n changes) := by
  have hrun := Update.left_foldl (u := fun c : Change K => c.write) (f := Change.record n)
    (P := fun (s : EntitySet kind n) setups => s.Consistent capacity setups)
    (fun c s setups hs => hs.left c) changes (Consistent.empty h)
  exact ⟨hrun.coherent, hrun.responds⟩

/-- Three entities, two of which can be active: the limits of the first coincide, the second has a lower
limit only, and those of the third are not numbers. A side without a limit and a full group are refused. -/
theorem changes_coherent_three :
    2 ≤ 3 ∧ ∃ (s : EntitySet .bound 3) (setups : Nat → Option (Limits Float)),
      s.Coherent 2 setups ∧ s.Responds setups ∧ s.active = [1, 0] ∧
        s.activities.toList = [.lower, .lower, .inactive] ∧
        s.types.toList = [.equality, .bounded, .bounded] := by
  let limits (lower upper : Float) : Limits Float := ⟨lower, upper, 1e-10, 1e20⟩
  let changes : List (Change Float) :=
    [.classify 0 (limits 1 1), .classify 1 (limits 0 1e30), .classify 2 (limits (0 / 0) (0 / 0)),
      .classify 2 (limits 0 1), .activate 1 .upper, .activate 1 .lower, .activate 0 .upper,
      .activate 2 .lower, .activate 3 .lower, .deactivate 2]
  let s : EntitySet .bound 3 := run changes (empty .bound 3 2 (by decide))
  have hrun : s.Coherent 2 (Change.recordAll 3 changes) ∧ s.Responds (Change.recordAll 3 changes) :=
    changes_coherent (by decide) changes
  refine ⟨by decide, s, _, hrun.1, hrun.2, ?_, ?_, ?_⟩
  · decide +kernel
  · decide +kernel
  · decide +kernel

end EntitySet

end ActiveSet
