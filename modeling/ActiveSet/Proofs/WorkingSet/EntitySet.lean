import ActiveSet.Proofs.WorkingSet.Partition
import ActiveSet.WorkingSet.EntitySet

/-!
# Entity sets whose records agree

An entity set records twice which entities are in the working set: by the groups of its partition
and by the activity of each entity. It is `Sound` if the two agree, which is what
`EntitySet.check` looks at.

Each change is described once, by what it does to the activities: `classify_spec`,
`activate_spec` and `deactivate_spec` hold of the changes that succeed, and `activate_of` and
`deactivate_of` say when a change is not refused.
-/

namespace ActiveSet.EntitySet

variable {kind : EntityKind} {n : Nat} {s s' : EntitySet kind n}

/-- The partition is sound, and its active group holds the entities with an active activity. -/
structure Sound (s : EntitySet kind n) : Prop where
  partition : s.partition.Sound
  isActive_iff : ∀ i : Fin n, s.partition.IsActive i ↔ s.isActive i = true

theorem check_eq_ok_iff : s.check = .ok () ↔ s.Sound := by
  have hall : ((List.finRange n).all fun i =>
      decide (getElem s.partition.position i.val i.isLt < s.partition.activeCount) == s.isActive i) = true ↔
      ∀ i : Fin n, s.partition.IsActive i ↔ s.isActive i = true := by
    rw [List.all_eq_true]
    simp only [List.mem_finRange, true_implies, beq_iff_eq]
    refine forall_congr' fun i => ?_
    rw [Bool.eq_iff_iff, decide_eq_true_eq]
    rfl
  unfold check
  cases hp : s.partition.check with
  | error e =>
    simp only [bind, Except.bind, reduceCtorEq, false_iff]
    intro h
    rw [Partition.check_eq_ok_iff.2 h.partition] at hp
    cases hp
  | ok u =>
    simp only [bind, Except.bind]
    have hpart := Partition.check_eq_ok_iff.1 hp
    split
    · next h => simpa using (⟨hpart, hall.1 h⟩ : s.Sound)
    · next h => simpa using fun h' : s.Sound => h (hall.2 h'.isActive_iff)

theorem Sound.mem_active (h : s.Sound) (i : Fin n) : i ∈ s.active ↔ s.isActive i = true :=
  (h.partition.mem_active i).trans (h.isActive_iff i)

theorem Sound.mem_inactive (h : s.Sound) (i : Fin n) : i ∈ s.inactive ↔ s.isActive i = false := by
  unfold inactive
  rw [h.partition.mem_inactive i, h.isActive_iff i, Bool.not_eq_true]

/-- While an entity is inactive, not all entities are active. -/
theorem Sound.activeCount_lt (h : s.Sound) {i : Fin n} (hi : s.isActive i = false) :
    s.partition.activeCount < n := by
  have hmem : i ∈ s.inactive := (h.mem_inactive i).2 hi
  have hpos := List.length_pos_of_mem hmem
  have hlen : s.inactive.length = n - s.partition.activeCount := s.partition.length_inactive
  omega

/-! ## Changes -/

@[simp] theorem activity_fin (i : Fin n) : s.activity i = getElem s.activities i.val i.isLt := by
  simp [activity]

@[simp] theorem limitType_fin (i : Fin n) : s.limitType i = getElem s.types i.val i.isLt := by
  simp [limitType]

theorem isActive_fin (i : Fin n) : s.isActive i = (getElem s.activities i.val i.isLt).isActive := by
  rw [isActive, activity_fin]

/-- The sides of an entity at which a limit was finite when it was classified. -/
def sides (s : EntitySet kind n) (i : Fin n) : FiniteSides :=
  getElem s.finite i.val i.isLt

theorem hasSide_lower (i : Fin n) : s.hasSide i .lower = (s.sides i).lower := by
  simp [hasSide, sides]

theorem hasSide_upper (i : Fin n) : s.hasSide i .upper = (s.sides i).upper := by
  simp [hasSide, sides]

/-- What a classification does: it records the type and the finite sides of limits that do not
cross, and the entity becomes inactive. -/
theorem classify_spec {K : Type} [Scalar K] {i : Fin n} {lower upper tolerance infinity : K}
    {t : LimitType} (h : s.classify i lower upper tolerance infinity = .ok (t, s')) :
    s.limitType i = .unknown ∧ ¬upper < lower ∧ t = typeOfLimits lower upper tolerance infinity ∧
      s'.partition = s.partition ∧
      (∀ j : Fin n, s'.limitType j = if j = i then t else s.limitType j) ∧
      (∀ j : Fin n, s'.activity j = if j = i then .inactive else s.activity j) ∧
      ∀ j : Fin n, s'.sides j =
        if j = i then ⟨-infinity < lower, upper < infinity⟩ else s.sides j := by
  unfold classify at h
  rw [dif_pos i.isLt] at h
  split at h
  · cases h
  next htype =>
  split at h
  · cases h
  next hcross =>
    cases h
    refine ⟨by simpa using htype, hcross, rfl, rfl, fun j => ?_, fun j => ?_, fun j => ?_⟩
    · simp only [limitType_fin]
      grind
    · simp only [activity_fin]
      grind
    · unfold sides
      grind

/-- A classification that is refused is refused with one error. -/
theorem classify_error {K : Type} [Scalar K] {i : Fin n} {lower upper tolerance infinity : K}
    {e : QpError} (h : s.classify i lower upper tolerance infinity = .error e) :
    e = kind.setupFailed := by
  unfold classify at h
  rw [dif_pos i.isLt] at h
  split at h
  · cases h
    rfl
  · split at h
    · cases h
      rfl
    · cases h

/-- An entity is classified if that has not been done before and its limits do not cross. -/
theorem classify_of {K : Type} [Scalar K] {i : Fin n} {lower upper : K} (tolerance infinity : K)
    (htype : s.limitType i = .unknown) (hcross : ¬upper < lower) :
    ∃ t s', s.classify i lower upper tolerance infinity = .ok (t, s') := by
  have hunknown : ¬s.types[(i : Nat)] ≠ .unknown := by simpa using htype
  unfold classify
  rw [dif_pos i.isLt, if_neg hunknown, if_neg hcross]
  exact ⟨_, _, rfl⟩

/-- An entity becomes active at the side it is asked to, if equalities are asked to the lower one. -/
theorem sideFor_eq {i : Nat} {side side' : Activity} (h : s.sideFor i side = some side')
    (hequality : s.limitType i = .equality → side = .lower) : side' = side := by
  unfold sideFor at h
  split at h
  · next htype =>
    cases h
    exact (hequality htype).symm
  · split at h
    · cases h
      rfl
    · cases h
  · cases h
  · cases h

/-- Where an entity would become active depends on its type and its finite limits only. -/
theorem sideFor_congr (htypes : s.types = s'.types) (hfinite : s.finite = s'.finite) (i : Nat)
    (side : Activity) : s.sideFor i side = s'.sideFor i side := by
  unfold sideFor limitType hasSide
  rw [htypes, hfinite]

/-- The side at which an entity becomes active is one. -/
theorem sideFor_isActive {i : Nat} {side side' : Activity} (hside : side.isActive = true)
    (h : s.sideFor i side = some side') : side'.isActive = true := by
  unfold sideFor at h
  split at h
  · cases h
    rfl
  · split at h
    · cases h
      exact hside
    · cases h
  · cases h
  · cases h

/-- The set `s'` is a sound one that differs from `s` in the activity of an entity. -/
structure Moved (s : EntitySet kind n) (i : Fin n) (a : Activity) (s' : EntitySet kind n) :
    Prop where
  sound : s'.Sound
  types : s'.types = s.types
  finite : s'.finite = s.finite
  capacity : s'.partition.capacity = s.partition.capacity
  activity : ∀ j : Fin n, s'.activity j = if j = i then a else s.activity j

theorem Moved.limitType {i : Fin n} {a : Activity} (h : s.Moved i a s') (j : Fin n) :
    s'.limitType j = s.limitType j := by
  simp only [EntitySet.limitType, h.types]

theorem Moved.hasSide {i : Fin n} {a : Activity} (h : s.Moved i a s') (j : Fin n)
    (side : Activity) : s'.hasSide j side = s.hasSide j side := by
  simp only [EntitySet.hasSide, h.finite]

theorem Moved.isActive {i : Fin n} {a : Activity} (h : s.Moved i a s') (j : Fin n) :
    s'.isActive j = if j = i then a.isActive else s.isActive j := by
  rw [EntitySet.isActive, h.activity]
  split <;> rfl

/-- What moving an entity into the working set does. -/
theorem activate_spec (hs : s.Sound) {i : Fin n} {side : Activity}
    (h : s.activate i side = .ok s') :
    s.isActive i = false ∧ side.isActive = true ∧
      ∃ side', s.sideFor i side = some side' ∧ s.Moved i side' s' := by
  unfold activate at h
  rw [dif_pos i.isLt] at h
  split at h
  · cases h
  next hside =>
  rw [Bool.not_eq_false] at hside
  split at h
  · cases h
  next side' hfor =>
  split at h
  · cases h
  next hnot =>
  rw [Bool.not_eq_true] at hnot
  split at h
  · cases h
  -- all checks are passed
  next partition hmove =>
    cases h
    obtain ⟨hsound, hcap, -, hiff⟩ := Partition.moveToActive_sound hs.partition hmove
    have hact : ∀ j : Fin n, (s.activities.set i side')[j.val] =
        if j = i then side' else s.activities[j.val] := by
      intro j
      grind
    refine ⟨hnot, hside, side', hfor, ⟨hsound, fun j => ?_⟩, rfl, rfl, hcap, fun j => ?_⟩
    · rw [hiff, hs.isActive_iff, isActive_fin, isActive_fin, hact]
      by_cases hji : j = i
      · simp [hji, sideFor_isActive hside hfor]
      · simp [hji]
    · simp only [activity_fin]
      exact hact j

/-- An inactive entity with a limit at a side can become active while there is room. -/
theorem activate_of (hs : s.Sound) {i : Fin n} {side side' : Activity}
    (hside : side.isActive = true) (hfor : s.sideFor i side = some side')
    (hi : s.isActive i = false) (hroom : s.partition.activeCount < s.partition.capacity) :
    ∃ s', s.activate i side = .ok s' := by
  have hnot : ¬s.partition.IsActive i := by
    rw [hs.isActive_iff, hi]
    exact Bool.false_ne_true
  obtain ⟨p, hp⟩ := Partition.moveToActive_of hnot hroom
  unfold activate
  rw [dif_pos i.isLt, if_neg (by rw [hside]; decide), hfor]
  dsimp only
  rw [if_neg (by rw [hi]; decide), hp]
  exact ⟨_, rfl⟩

/-- What moving an entity out of the working set does. -/
theorem deactivate_spec (hs : s.Sound) {i : Fin n} (h : s.deactivate i = .ok s') :
    s.isActive i = true ∧ s.Moved i .inactive s' := by
  unfold deactivate at h
  rw [dif_pos i.isLt] at h
  split at h
  · cases h
  next hin =>
  rw [Bool.not_eq_false] at hin
  split at h
  · cases h
  next partition hmove =>
    cases h
    obtain ⟨hsound, hcap, -, hiff⟩ := Partition.moveToInactive_sound hs.partition hmove
    have hact : ∀ j : Fin n, (s.activities.set i .inactive)[j.val] =
        if j = i then .inactive else s.activities[j.val] := by
      intro j
      grind
    -- the entity has left the active part, and no other one has
    refine ⟨hin, ⟨hsound, fun j => ?_⟩, rfl, rfl, hcap, fun j => ?_⟩
    · rw [hiff, hs.isActive_iff, isActive_fin, isActive_fin, hact]
      by_cases hji : j = i
      · simp [hji, Activity.isActive]
      · simp [hji]
    · simp only [activity_fin]
      exact hact j

/-- An active entity can become inactive. -/
theorem deactivate_of (hs : s.Sound) {i : Fin n} (hi : s.isActive i = true) :
    ∃ s', s.deactivate i = .ok s' := by
  obtain ⟨p, hp⟩ := Partition.moveToInactive_of ((hs.isActive_iff i).2 hi)
  unfold deactivate
  rw [dif_pos i.isLt, if_neg (by rw [hi]; decide), hp]
  exact ⟨_, rfl⟩

theorem activeCount_activate {i : Fin n} {side : Activity} (h : s.activate i side = .ok s') :
    s'.activeCount = s.activeCount + 1 := by
  unfold activate at h
  rw [dif_pos i.isLt] at h
  split at h
  · cases h
  split at h
  · cases h
  split at h
  · cases h
  split at h
  · cases h
  next partition hmove =>
    cases h
    exact Partition.activeCount_moveToActive hmove

theorem activeCount_deactivate {i : Fin n} (h : s.deactivate i = .ok s') :
    s'.activeCount + 1 = s.activeCount := by
  unfold deactivate at h
  rw [dif_pos i.isLt] at h
  split at h
  · cases h
  split at h
  · cases h
  next partition hmove =>
    cases h
    exact Partition.activeCount_moveToInactive hmove

/-- What is not outside the working set is inside. -/
theorem sub_inactiveCount (s : EntitySet kind n) : n - s.inactiveCount = s.activeCount := by
  have hle := Nat.le_trans s.partition.activeCount_le s.partition.capacity_le
  exact Nat.sub_sub_self hle

/-! ## Classification of a whole set -/

section Classification

variable {K : Type} [Scalar K]

/-- Every entity has the type and the finite sides of its limits, which do not cross. -/
def ClassifiedBy (s : EntitySet kind n) (lower upper : Nat → K) (tolerance infinity : K) : Prop :=
  ∀ i : Fin n, ¬upper i < lower i ∧
    s.limitType i = typeOfLimits (lower i) (upper i) tolerance infinity ∧
    s.sides i = ⟨-infinity < lower i, upper i < infinity⟩

/-- A set in the course of its classification: all entities but those of a list are classified, and
none is active. -/
structure ClassifiedExcept (s : EntitySet kind n) (lower upper : Nat → K) (tolerance infinity : K)
    (rest : List (Fin n)) : Prop where
  sound : s.Sound
  isActive_eq : ∀ i : Fin n, s.isActive i = false
  done : ∀ i : Fin n, i ∉ rest → s.activity i = .inactive ∧ ¬upper i < lower i ∧
    s.limitType i = typeOfLimits (lower i) (upper i) tolerance infinity ∧
    s.sides i = ⟨-infinity < lower i, upper i < infinity⟩

variable {lower upper : Nat → K} {tolerance infinity : K}

theorem classifiedExcept_all (hs : s.Sound) (hinactive : ∀ i : Fin n, s.isActive i = false) :
    s.ClassifiedExcept lower upper tolerance infinity (List.finRange n) :=
  ⟨hs, hinactive, fun i hi => absurd (List.mem_finRange i) hi⟩

theorem ClassifiedExcept.classify {i : Fin n} {rest : List (Fin n)}
    (hs : s.ClassifiedExcept lower upper tolerance infinity (i :: rest)) {t : LimitType}
    (h : s.classify i (lower i) (upper i) tolerance infinity = .ok (t, s')) :
    s'.ClassifiedExcept lower upper tolerance infinity rest := by
  obtain ⟨-, hcross, rfl, hpart, htype, hact, hsides⟩ := classify_spec h
  have hinactive : ∀ j : Fin n, s'.isActive j = false := by
    intro j
    rw [isActive, hact]
    split
    · rfl
    · exact hs.isActive_eq j
  -- the partition stays sound, as neither it nor the activity of any entity changes
  refine ⟨⟨hpart ▸ hs.sound.partition, fun j => ?_⟩, hinactive, fun j hj => ?_⟩
  · rw [hinactive j, hpart, hs.sound.isActive_iff, hs.isActive_eq j]
  · rw [htype, hact, hsides]
    by_cases hji : j = i
    · subst hji
      simp only [if_true]
      exact ⟨trivial, hcross, trivial, trivial⟩
    · simp only [hji, if_false]
      exact hs.done j (by simp [hji, hj])

theorem ClassifiedExcept.classifiedBy (hs : s.ClassifiedExcept lower upper tolerance infinity []) :
    s.ClassifiedBy lower upper tolerance infinity :=
  fun i => (hs.done i (List.not_mem_nil)).2

theorem typeOfLimits_ne_unknown (l u : K) : typeOfLimits l u tolerance infinity ≠ .unknown := by
  unfold typeOfLimits
  split
  · simp
  · split
    · simp
    · simp

end Classification

/-! ## Agreement with lists -/

/-- A list without duplicates holds exactly the entities that are active, or those that are not. -/
structure Listed (s : EntitySet kind n) (l : List (Fin n)) (active : Bool) : Prop where
  nodup : l.Nodup
  mem_iff : ∀ i, i ∈ l ↔ s.isActive i = active

/-- The entities of a set have been looked at, and its equalities are in the working set. -/
structure Classified (s : EntitySet kind n) : Prop where
  known : ∀ i : Fin n, s.limitType i ≠ .unknown
  equality : ∀ i : Fin n, s.limitType i = .equality → s.isActive i = true

variable {l l' : List (Fin n)} {active : Bool} {i : Fin n} {a : Activity}

theorem Listed.perm (h : s.Listed l active) (hl : l'.Perm l) : s.Listed l' active :=
  ⟨hl.nodup_iff.2 h.nodup, fun i => hl.mem_iff.trans (h.mem_iff i)⟩

/-- A list of the active entities is as long as the active group. -/
theorem Sound.activeCount_eq (hs : s.Sound) (h : s.Listed l true) : s.activeCount = l.length := by
  have hperm : s.active.Perm l := by
    refine (List.perm_ext_iff_of_nodup hs.partition.nodup_active h.nodup).2 ?_
    intro i
    exact (hs.mem_active i).trans (h.mem_iff i).symm
  rw [← hperm.length_eq]
  exact (s.partition.length_active).symm

/-- A list of the inactive entities is as long as the inactive group. -/
theorem Sound.inactiveCount_eq (hs : s.Sound) (h : s.Listed l false) :
    s.inactiveCount = l.length := by
  have hperm : s.inactive.Perm l := by
    refine (List.perm_ext_iff_of_nodup hs.partition.nodup_inactive h.nodup).2 ?_
    intro i
    exact (hs.mem_inactive i).trans (h.mem_iff i).symm
  rw [← hperm.length_eq]
  exact (s.partition.length_inactive).symm

/-- A list from which an entity that changes its group is taken out. -/
theorem Listed.remove (h : s.Listed l active) (hl : l.Perm (i :: l')) (ha : a.isActive = !active)
    (hmoved : s.Moved i a s') : s'.Listed l' active := by
  have hperm := h.perm hl.symm
  obtain ⟨hnotin, hnodup⟩ := List.nodup_cons.1 hperm.nodup
  refine ⟨hnodup, fun j => ?_⟩
  rw [isActive, hmoved.activity]
  by_cases hji : j = i
  · subst hji
    rw [if_pos rfl, ha]
    simp [hnotin]
  · rw [if_neg hji]
    have hmem := hperm.mem_iff j
    rw [List.mem_cons] at hmem
    rw [← isActive, ← hmem]
    simp [hji]

/-- A list that an entity joins when it changes its group. -/
theorem Listed.insert (h : s.Listed l active) (hl : l'.Perm (i :: l)) (hi : s.isActive i = !active)
    (ha : a.isActive = active) (hmoved : s.Moved i a s') : s'.Listed l' active := by
  have hnotin : i ∉ l := by
    rw [h.mem_iff, hi]
    simp
  refine Listed.perm (l := i :: l) ⟨List.nodup_cons.2 ⟨hnotin, h.nodup⟩, fun j => ?_⟩ hl
  rw [isActive, hmoved.activity, List.mem_cons]
  by_cases hji : j = i
  · simp [hji, ha]
  · simp only [hji, false_or, if_false]
    exact h.mem_iff j

/-- A change of one activity keeps the equalities in the working set, unless it takes one out. -/
theorem Classified.moved (h : s.Classified) (hmoved : s.Moved i a s')
    (ha : s.limitType i = .equality → a.isActive = true) : s'.Classified := by
  have htype := hmoved.limitType
  refine ⟨fun j => ?_, fun j hj => ?_⟩
  · rw [htype]
    exact h.known j
  · rw [htype] at hj
    rw [isActive, hmoved.activity]
    split
    · next hji => exact ha (hji ▸ hj)
    · exact h.equality j hj

/-! ## Sets without active entities -/

theorem sound_ofPartition {p : Partition n} (hp : p.Sound) (hnot : ∀ i, ¬p.IsActive i) :
    (ofPartition kind p).Sound := by
  refine ⟨hp, fun i => ?_⟩
  rw [isActive_fin]
  simp [ofPartition, Activity.isActive, hnot i]

theorem sound_empty {capacity : Nat} (h : capacity ≤ n) : (empty kind n capacity h).Sound :=
  sound_ofPartition (Partition.sound_empty h) (Partition.not_isActive_empty h)

theorem sound_reset (s : EntitySet kind n) : s.reset.Sound :=
  sound_ofPartition (Partition.sound_empty _) (Partition.not_isActive_empty _)

theorem limitType_reset (s : EntitySet kind n) (i : Fin n) : s.reset.limitType i = .unknown := by
  simp [reset, ofPartition]

theorem activity_reset (s : EntitySet kind n) (i : Fin n) : s.reset.activity i = .undefined := by
  simp [reset, ofPartition]

end ActiveSet.EntitySet
