import ActiveSet.Proofs.Atomic
import ActiveSet.Proofs.WorkingSet.Partition
import Mathlib.Data.Finset.Card

/-!
# Partitions as sets

For its users a partition is a set of numbers below `n`, with a bound on its size: the active group.
The two tables are there so that a move costs the same for every index. Here the moves are written
entry by entry, as a program makes them in memory, and compared with insertion into a set and removal
from it.

Each move makes all its checks before its first write, so that it equals the move as a whole
(`Move.write_eq`), and each move of a partition is a move of the set it represents, with the same error
where it is refused (`Represents.apply`). Along any sequence of moves with any indices the partition
then represents the set that the sequence builds (`moves_refine_set`).

* `Move`, `Move.write`, `Move.onSet`: moves, entry by entry and of sets.
* `Represents.apply`: a move of a partition and a move of the set it represents.
* `Refines`, `MovesLike`: what the tables, and the next move, show of the set.
-/

namespace ActiveSet.Partition

variable {n : Nat}

/-- A change of the groups that is asked for, with any index. -/
inductive Move where
  /-- Moves an index into the active group. -/
  | activate (i : Nat)
  /-- Moves an index out of the active group. -/
  | deactivate (i : Nat)
  /-- Moves all indices out of the active group. -/
  | reset
deriving DecidableEq, Repr

-- ---------------------------------------------------------------------------
-- Moves as a whole and entry by entry
-- ---------------------------------------------------------------------------

/-- The partition after a move. -/
def Move.apply : Move → Partition n → Except QpError (Partition n)
  | activate i, p => p.moveToActive i
  | deactivate i, p => p.moveToInactive i
  | reset, p => .ok p.reset

/-- Lets the indices in two slots change places: the two slots are written, and then the positions of
the two indices. -/
def swap (a b : Fin n) : Update (Partition n) Unit := do
  if a ≠ b then
    let p ← get
    let i := p.index a
    let j := p.index b
    modify fun p => { p with slots := p.slots.set a j a.isLt }
    modify fun p => { p with slots := p.slots.set b i b.isLt }
    modify fun p => { p with position := p.position.set j a j.isLt }
    modify fun p => { p with position := p.position.set i b i.isLt }

/-- Writes the size of the active group, which has to be within the capacity. -/
def setActiveCount (count : Nat) : Update (Partition n) Unit := do
  let p ← get
  if h : count ≤ p.capacity then set { p with activeCount := count, activeCount_le := h }
  else throw .broken

/-- Writes the natural order into a slot and into the position of the index that belongs there. -/
def restore (i : Fin n) : Update (Partition n) Unit := do
  modify fun p => { p with slots := p.slots.set i i i.isLt }
  modify fun p => { p with position := p.position.set i i i.isLt }

theorem border_lt {p : Partition n} (h : p.activeCount < p.capacity) : p.activeCount < n :=
  Nat.lt_of_lt_of_le h p.capacity_le

theorem lastActive_lt {p : Partition n} {s : Fin n} (h : s < p.activeCount) : p.activeCount - 1 < n := by
  have := p.activeCount_le
  have := p.capacity_le
  omega

/-- A move, written entry by entry. An index that becomes active is swapped to the border before the
border moves over it; for an index that leaves, the border moves first. -/
def Move.write : Move → Update (Partition n) Unit
  | activate i => do
    let p ← get
    let s ← Update.ofExcept (p.slot i)
    if s < p.activeCount then Update.fail .indexListMoveFailed
    else if h : p.activeCount < p.capacity then
      swap s ⟨p.activeCount, border_lt h⟩
      setActiveCount (p.activeCount + 1)
    else Update.fail .indexListExceedsMaxLength
  | deactivate i => do
    let p ← get
    let s ← Update.ofExcept (p.slot i)
    if h : s < p.activeCount then
      setActiveCount (p.activeCount - 1)
      swap s ⟨p.activeCount - 1, lastActive_lt h⟩
    else Update.fail .indexListMoveFailed
  | reset => do
    (List.finRange n).forM restore
    setActiveCount 0

variable {p p' : Partition n}

theorem swap_ensures (a b : Fin n) (p : Partition n) :
    (swap a b).Ensures p (fun _ p' => p' = p.exchanged a b p.activeCount p.activeCount_le)
      fun _ _ => False := by
  unfold swap
  rw [Update.ensures_ite]
  constructor
  · intro hne
    simp only [Update.ensures_bind, Update.ensures_get, Update.ensures_modify]
    unfold exchanged swapTables index
    rw [if_neg hne]
    rfl
  · intro heq
    rw [Update.ensures_pure, exchanged, swapTables, if_pos (Decidable.not_not.1 heq)]

theorem setActiveCount_ensures {count : Nat} (h : count ≤ p.capacity) :
    (setActiveCount count).Ensures p
      (fun _ p' => p' = { p with activeCount := count, activeCount_le := h }) fun _ _ => False := by
  unfold setActiveCount
  rw [Update.ensures_bind, Update.ensures_get, dif_pos h]
  exact rfl

/-- The tables hold the natural order, except for the indices of a list. -/
structure RestoredExcept (p q : Partition n) (rest : List (Fin n)) : Prop where
  capacity : q.capacity = p.capacity
  index : ∀ i, i ∉ rest → q.index i = i
  place : ∀ i, i ∉ rest → q.place i = i

theorem restore_ensures {q : Partition n} {i : Fin n} {rest : List (Fin n)}
    (h : p.RestoredExcept q (i :: rest)) :
    (restore i).Ensures q (fun _ q' => p.RestoredExcept q' rest) fun _ _ => False := by
  have hset : ∀ (v : Vector (Fin n) n) (j : Fin n), (j ≠ i → getElem v j.val j.isLt = j) →
      getElem (v.set i i) j.val j.isLt = j := by
    intro v j hj
    -- an entry is the one that has just been written, or it was in order before
    by_cases hji : j = i
    · subst hji
      simp
    · rw [Vector.getElem_set_ne _ _ (fun heq => hji (Fin.ext heq.symm))]
      exact hj hji
  simp only [restore, Update.ensures_bind, Update.ensures_modify]
  refine ⟨h.capacity, fun j hj => hset _ j fun hji => h.index j ?_,
    fun j hj => hset _ j fun hji => h.place j ?_⟩
  · exact List.not_mem_cons_of_ne_of_not_mem hji hj
  · exact List.not_mem_cons_of_ne_of_not_mem hji hj

theorem restore_all (p : Partition n) :
    ((List.finRange n).forM restore).Ensures p (fun _ q => p.RestoredExcept q []) fun _ _ => False := by
  refine Update.ensures_forM (I := fun rest q => p.RestoredExcept q rest)
    (fun i rest q hq => restore_ensures hq) ⟨rfl, fun i hi => ?_, fun i hi => ?_⟩
  · exact absurd (List.mem_finRange i) hi
  · exact absurd (List.mem_finRange i) hi

/-- Tables in the natural order are those of an empty partition. -/
theorem RestoredExcept.eq_reset {q : Partition n} (h : p.RestoredExcept q []) :
    ({ q with activeCount := 0, activeCount_le := Nat.zero_le _ } : Partition n) = p.reset := by
  obtain ⟨slots, position, count, capacity, hcapacity, hcount⟩ := q
  obtain rfl : capacity = p.capacity := h.capacity
  have hslots : slots = Vector.ofFn id := by
    apply Vector.ext
    intro k hk
    have hentry : getElem slots k hk = ⟨k, hk⟩ := h.index ⟨k, hk⟩ List.not_mem_nil
    rw [hentry, Vector.getElem_ofFn, id]
  have hposition : position = Vector.ofFn id := by
    apply Vector.ext
    intro k hk
    have hentry : getElem position k hk = ⟨k, hk⟩ := h.place ⟨k, hk⟩ List.not_mem_nil
    rw [hentry, Vector.getElem_ofFn, id]
  subst hslots hposition
  rfl

/-- A move that is written entry by entry is made as a whole or not at all. -/
theorem Move.write_eq (m : Move) :
    m.write = Update.atomically fun p : Partition n => (m.apply p).map (Prod.mk ()) := by
  refine Update.eq_atomically fun p => ?_
  cases m with
  | activate i =>
    simp only [write, apply, Update.ensures_bind, Update.ensures_get]
    by_cases hi : i < n
    · rw [slot_of_lt p ⟨i, hi⟩, Update.ofExcept_ok, Update.ensures_pure, moveToActive_eq p ⟨i, hi⟩]
      by_cases hin : p.IsActive ⟨i, hi⟩
      · have hlt : (p.place ⟨i, hi⟩).val < p.activeCount := hin
        rw [if_pos hlt, if_pos hin]
        exact ⟨rfl, _, rfl, rfl⟩
      have hnlt : ¬(p.place ⟨i, hi⟩).val < p.activeCount := hin
      rw [if_neg hnlt, if_neg hin]
      -- the last check: behind it the swap and the new border cannot fail
      by_cases hroom : p.activeCount < p.capacity
      · rw [dif_pos hroom, dif_pos hroom]
        refine Update.ensures_bind_of (swap_ensures _ _ p) (fun _ _ h => h.elim) ?_
        rintro _ p' rfl
        refine (setActiveCount_ensures (p := p.exchanged _ _ _ _) hroom).mono ?_ fun _ _ h => h.elim
        rintro _ p' rfl
        rfl
      · rw [dif_neg hroom, dif_neg hroom]
        exact ⟨rfl, _, rfl, rfl⟩
    · rw [moveToActive, slot, dif_neg hi]
      exact ⟨rfl, _, rfl, rfl⟩
  | deactivate i =>
    simp only [write, apply, Update.ensures_bind, Update.ensures_get]
    by_cases hi : i < n
    · rw [slot_of_lt p ⟨i, hi⟩, Update.ofExcept_ok, Update.ensures_pure, moveToInactive_eq p ⟨i, hi⟩]
      by_cases hin : p.IsActive ⟨i, hi⟩
      · have hlt : (p.place ⟨i, hi⟩).val < p.activeCount := hin
        have hle := Nat.le_trans (Nat.sub_le p.activeCount 1) p.activeCount_le
        rw [dif_pos hlt, dif_pos hin]
        refine Update.ensures_bind_of (setActiveCount_ensures hle) (fun _ _ h => h.elim) ?_
        rintro _ p' rfl
        refine (swap_ensures _ _ _).mono ?_ fun _ _ h => h.elim
        rintro _ p' rfl
        rfl
      · have hnlt : ¬(p.place ⟨i, hi⟩).val < p.activeCount := hin
        rw [dif_neg hnlt, dif_neg hin]
        exact ⟨rfl, _, rfl, rfl⟩
    · rw [moveToInactive, slot, dif_neg hi]
      exact ⟨rfl, _, rfl, rfl⟩
  | reset =>
    simp only [write, apply]
    refine Update.ensures_bind_of (restore_all p) (fun _ _ h => h.elim) fun _ q hq => ?_
    refine (setActiveCount_ensures (Nat.zero_le _)).mono ?_ fun _ _ h => h.elim
    rintro _ p' rfl
    rw [hq.eq_reset]
    rfl

-- ---------------------------------------------------------------------------
-- The order of the active group
-- ---------------------------------------------------------------------------

theorem getElem_active (p : Partition n) {k : Nat} (hk : k < p.active.length) (hkn : k < n) :
    p.active[k] = p.index ⟨k, hkn⟩ := by
  simp only [active, index, List.getElem_take, Vector.getElem_toList]

/-- An index that becomes active joins the group at its end, and the others keep their order. -/
theorem Sound.active_moveToActive (h : p.Sound) {i : Fin n} (hmove : p.moveToActive i = .ok p') :
    p'.active = p.active ++ [i] := by
  rw [moveToActive_eq] at hmove
  split at hmove
  · cases hmove
  next hnot =>
  split at hmove
  next hroom =>
    cases hmove
    have hlen := p.length_active
    have hn := Nat.lt_of_lt_of_le hroom p.capacity_le
    have hlen' : (p.exchanged (p.place i) ⟨p.activeCount, hn⟩ _ hroom).active.length =
        p.activeCount + 1 := length_active _
    refine List.ext_getElem (by rw [hlen', List.length_append, hlen, List.length_singleton]) ?_
    intro k hk hk'
    have hkn : k < n := by omega
    rw [getElem_active _ hk hkn, index_exchanged]
    by_cases hlast : k = p.activeCount
    · subst hlast
      rw [if_pos rfl, h.index_place, List.getElem_append_right (by omega)]
      simp
    · have hkc : k < p.active.length := by omega
      -- the slot of an inactive index lies behind the border, and so it is none of these
      have hslot : (⟨k, hkn⟩ : Fin n) ≠ p.place i := by
        intro heq
        apply hnot
        unfold IsActive
        rw [← heq]
        show k < p.activeCount
        omega
      rw [if_neg (by rwa [Fin.mk.injEq]), if_neg hslot, List.getElem_append_left hkc,
        getElem_active _ hkc hkn]
  · cases hmove

-- ---------------------------------------------------------------------------
-- Moves of a set
-- ---------------------------------------------------------------------------

/-- The move of a set of numbers below `n`, with a bound on its size. -/
def Move.onSet (n capacity : Nat) : Move → Finset Nat → Except QpError (Finset Nat)
  | activate i, s =>
    if n ≤ i then .error .indexOutOfBounds
    else if i ∈ s then .error .indexListMoveFailed
    else if s.card < capacity then .ok (insert i s)
    else .error .indexListExceedsMaxLength
  | deactivate i, s =>
    if n ≤ i then .error .indexOutOfBounds
    else if i ∈ s then .ok (s.erase i)
    else .error .indexListMoveFailed
  | reset, _ => .ok ∅

/-- The set after a move, which stays as it is if the move is refused. -/
def Move.next (n capacity : Nat) (m : Move) (s : Finset Nat) : Finset Nat :=
  match m.onSet n capacity s with
  | .ok s' => s'
  | .error _ => s

/-- The tables are in order, and the active indices are the members of a set. -/
structure Represents (p : Partition n) (s : Finset Nat) : Prop where
  sound : p.Sound
  mem_iff : ∀ i : Nat, i ∈ s ↔ ∃ h : i < n, p.IsActive ⟨i, h⟩

namespace Represents

variable {s : Finset Nat}

theorem mem_fin (h : p.Represents s) (i : Fin n) : i.val ∈ s ↔ p.IsActive i := by
  rw [h.mem_iff]
  exact ⟨fun ⟨_, hi⟩ => hi, fun hi => ⟨i.isLt, hi⟩⟩

/-- The active group lists the members of the set. -/
theorem mem_active (h : p.Represents s) (i : Nat) : i ∈ p.active.map Fin.val ↔ i ∈ s := by
  rw [h.mem_iff, List.mem_map]
  constructor
  · rintro ⟨j, hj, rfl⟩
    exact ⟨j.isLt, (h.sound.mem_active j).1 hj⟩
  · rintro ⟨hi, hactive⟩
    exact ⟨⟨i, hi⟩, (h.sound.mem_active _).2 hactive, rfl⟩

theorem toFinset_active (h : p.Represents s) : (p.active.map Fin.val).toFinset = s := by
  ext i
  rw [List.mem_toFinset, h.mem_active]

theorem card (h : p.Represents s) : s.card = p.activeCount := by
  rw [← h.toFinset_active, List.toFinset_card_of_nodup
    (h.sound.nodup_active.map Fin.val_injective), List.length_map, p.length_active]

theorem empty {c : Nat} (h : c ≤ n) : (Partition.empty n c h).Represents ∅ := by
  refine ⟨sound_empty h, fun i => ?_⟩
  simp [not_isActive_empty]

/-- A move of a partition is the move of the set that it represents. -/
theorem apply (h : p.Represents s) (m : Move) :
    (∃ p' s', m.apply p = .ok p' ∧ m.onSet n p.capacity s = .ok s' ∧ p'.Represents s' ∧
        p'.capacity = p.capacity) ∨
      ∃ e, m.apply p = .error e ∧ m.onSet n p.capacity s = .error e := by
  cases m with
  | activate i =>
    by_cases hi : n ≤ i
    · refine .inr ⟨.indexOutOfBounds, ?_, if_pos hi⟩
      rw [Move.apply, moveToActive, slot, dif_neg (Nat.not_lt.2 hi)]
      rfl
    · have hlt : i < n := Nat.lt_of_not_le hi
      have hiff := h.mem_fin ⟨i, hlt⟩
      simp only [Move.apply, Move.onSet, if_neg hi, h.card]
      -- an index that is in the set already is refused, and so is one too many
      by_cases hin : p.IsActive ⟨i, hlt⟩
      · rw [moveToActive_eq p ⟨i, hlt⟩, if_pos hin, if_pos (hiff.2 hin)]
        exact .inr ⟨_, rfl, rfl⟩
      rw [if_neg (mt hiff.1 hin)]
      by_cases hroom : p.activeCount < p.capacity
      · obtain ⟨p', hmove⟩ := moveToActive_of hin hroom
        obtain ⟨hsound, hcapacity, -, hactive⟩ := moveToActive_sound h.sound hmove
        rw [if_pos hroom]
        refine .inl ⟨p', _, hmove, rfl, ⟨hsound, fun j => ?_⟩, hcapacity⟩
        simp only [Finset.mem_insert, h.mem_iff, hactive, Fin.mk.injEq, exists_or]
        rw [or_comm]
        simp only [exists_prop, and_iff_right_iff_imp.2 (fun hj : j = i => hj ▸ hlt)]
      · rw [moveToActive_eq p ⟨i, hlt⟩, if_neg hin, dif_neg hroom, if_neg hroom]
        exact .inr ⟨_, rfl, rfl⟩
  | deactivate i =>
    by_cases hi : n ≤ i
    · refine .inr ⟨.indexOutOfBounds, ?_, if_pos hi⟩
      rw [Move.apply, moveToInactive, slot, dif_neg (Nat.not_lt.2 hi)]
      rfl
    · have hlt : i < n := Nat.lt_of_not_le hi
      have hiff := h.mem_fin ⟨i, hlt⟩
      simp only [Move.apply, Move.onSet, if_neg hi]
      -- only an index that is in the set can be taken out
      by_cases hin : p.IsActive ⟨i, hlt⟩
      · obtain ⟨p', hmove⟩ := moveToInactive_of hin
        obtain ⟨hsound, hcapacity, -, hactive⟩ := moveToInactive_sound h.sound hmove
        rw [if_pos (hiff.2 hin)]
        refine .inl ⟨p', _, hmove, rfl, ⟨hsound, fun j => ?_⟩, hcapacity⟩
        simp only [Finset.mem_erase, h.mem_iff, hactive, ne_eq, Fin.mk.injEq]
        constructor
        · rintro ⟨hne, hj, hin⟩
          exact ⟨hj, hin, hne⟩
        · rintro ⟨hj, hin, hne⟩
          exact ⟨hne, hj, hin⟩
      · rw [moveToInactive_eq p ⟨i, hlt⟩, dif_neg hin, if_neg (mt hiff.1 hin)]
        exact .inr ⟨_, rfl, rfl⟩
  | reset => exact .inl ⟨p.reset, ∅, rfl, rfl, .empty p.capacity_le, rfl⟩

end Represents

-- ---------------------------------------------------------------------------
-- What the users of a partition see
-- ---------------------------------------------------------------------------

/-- The group of an index is read off its slot. -/
theorem group_of_lt (p : Partition n) (i : Fin n) :
    p.group i = .ok (if p.IsActive i then .active else .inactive) := by
  unfold group
  rw [slot_of_lt]
  rfl

theorem group_of_le (p : Partition n) {i : Nat} (hi : n ≤ i) :
    p.group i = .error .indexOutOfBounds := by
  rw [group, slot, dif_neg (Nat.not_lt.2 hi)]
  rfl

/-- The group of an index is the one that lists it. -/
theorem group_iff (g : Group) (l : List (Fin n))
    (hl : ∀ i : Fin n, i ∈ l ↔ (if p.IsActive i then .active else .inactive) = g) (i : Nat) :
    p.group i = .ok g ↔ i ∈ l.map Fin.val := by
  rw [List.mem_map]
  by_cases hi : i < n
  · rw [group_of_lt p ⟨i, hi⟩, Except.ok.injEq, ← hl]
    exact ⟨fun h => ⟨_, h, rfl⟩, fun ⟨j, hj, hji⟩ => (Fin.ext hji : j = ⟨i, hi⟩) ▸ hj⟩
  · rw [group_of_le p (Nat.le_of_not_lt hi)]
    constructor
    · exact nofun
    · rintro ⟨j, -, rfl⟩
      exact absurd j.isLt hi

/-- The tables of a partition, and what they show of a set. -/
structure Refines (p : Partition n) (capacity : Nat) (s : Finset Nat) : Prop where
  slots_perm : p.slots.toList.Perm (List.finRange n)
  place_index : ∀ k : Fin n, p.place (p.index k) = k
  index_place : ∀ i : Fin n, p.index (p.place i) = i
  check : p.check = .ok ()
  groups_perm : (p.active ++ p.inactive).Perm (List.finRange n)
  members : (p.active.map Fin.val).toFinset = s
  length_le : p.active.length ≤ capacity
  slot_iff : ∀ (i : Nat) (k : Fin n), p.slot i = .ok k ↔ (p.index k).val = i
  group_active_iff : ∀ i : Nat, p.group i = .ok .active ↔ i ∈ p.active.map Fin.val
  group_inactive_iff : ∀ i : Nat, p.group i = .ok .inactive ↔ i ∈ p.inactive.map Fin.val
  outside : ∀ i : Nat, n ≤ i →
    p.slot i = .error .indexOutOfBounds ∧ p.group i = .error .indexOutOfBounds

/-- How the next move of a partition ends, and what it leaves. -/
structure MovesLike (p : Partition n) (capacity : Nat) (s : Finset Nat) : Prop where
  /-- A move ends as the move of the set does, with the same error. -/
  result : ∀ m : Move, m.write.result p =
    ((m.onSet n capacity s).map fun _ => ()).mapError Fault.failed
  activate_refused : ∀ i : Nat, (∃ f p', (Move.activate i).write p = .error f p') ↔
    n ≤ i ∨ i ∈ p.active.map Fin.val ∨ p.active.length = capacity
  deactivate_refused : ∀ i : Nat, (∃ f p', (Move.deactivate i).write p = .error f p') ↔
    n ≤ i ∨ i ∉ p.active.map Fin.val
  reset_accepted : (Move.reset.write p) = .ok () p.reset
  refused_unchanged : ∀ (m : Move) f p', m.write p = .error f p' → p' = p
  activate_appends : ∀ (i : Nat) p', (Move.activate i).write p = .ok () p' →
    p'.active.map Fin.val = p.active.map Fin.val ++ [i]

namespace Represents

variable {s : Finset Nat}

theorem slot_iff (h : p.Represents s) (i : Nat) (k : Fin n) :
    p.slot i = .ok k ↔ (p.index k).val = i := by
  by_cases hi : i < n
  · rw [slot_of_lt p ⟨i, hi⟩, Except.ok.injEq]
    constructor
    · rintro rfl
      rw [h.sound.index_place]
    · rintro rfl
      exact h.sound k
  · rw [slot, dif_neg hi]
    constructor
    · exact nofun
    · rintro rfl
      exact absurd (p.index k).isLt hi

/-- A partition that represents a set shows that set. -/
theorem refines (h : p.Represents s) : p.Refines p.capacity s where
  slots_perm := by
    refine (List.perm_ext_iff_of_nodup h.sound.nodup (List.nodup_finRange n)).2 fun i => ?_
    rw [Vector.mem_toList_iff, Vector.mem_iff_getElem]
    exact ⟨fun _ => List.mem_finRange i,
      fun _ => ⟨p.place i, (p.place i).isLt, h.sound.index_place i⟩⟩
  place_index := h.sound
  index_place := h.sound.index_place
  check := check_eq_ok_iff.2 h.sound
  groups_perm := by
    refine (List.perm_ext_iff_of_nodup ?_ (List.nodup_finRange n)).2 fun i => ?_
    · rw [active, inactive, List.take_append_drop]
      exact h.sound.nodup
    · rw [List.mem_append, h.sound.mem_active, h.sound.mem_inactive]
      exact ⟨fun _ => List.mem_finRange i, fun _ => Decidable.em _⟩
  members := h.toFinset_active
  length_le := by
    rw [p.length_active]
    exact p.activeCount_le
  slot_iff := h.slot_iff
  group_active_iff := group_iff .active p.active fun i => by
    rw [h.sound.mem_active]
    split <;> simp [*]
  group_inactive_iff := group_iff .inactive p.inactive fun i => by
    rw [h.sound.mem_inactive]
    split <;> simp [*]
  outside i hi := ⟨by rw [slot, dif_neg (Nat.not_lt.2 hi)], group_of_le p hi⟩

/-- A move is refused exactly when the move of the set is. -/
theorem refused_iff (h : p.Represents s) (m : Move) :
    (∃ f p', m.write p = .error f p') ↔ ∃ e, m.onSet n p.capacity s = .error e := by
  rw [m.write_eq]
  obtain ⟨p', s', hp, hs, -⟩ | ⟨e, hp, hs⟩ := h.apply m
  · rw [Update.atomically_map_of_ok hp, hs]
    simp
  · rw [Update.atomically_map_of_error hp, hs]
    simp

/-- The next move of a partition that represents a set is one of that set. -/
theorem movesLike (h : p.Represents s) : p.MovesLike p.capacity s where
  result m := by
    rw [m.write_eq]
    obtain ⟨p', s', hp, hs, -⟩ | ⟨e, hp, hs⟩ := h.apply m
    · rw [Update.result_of_ok (Update.atomically_map_of_ok hp), hs]
      rfl
    · rw [Update.result_of_error (Update.atomically_map_of_error hp), hs]
      rfl
  activate_refused i := by
    rw [h.refused_iff, h.mem_active, p.length_active]
    have hle := p.activeCount_le
    simp only [Move.onSet, h.card]
    by_cases hi : n ≤ i
    · simp [hi]
    by_cases hin : i ∈ s
    · simp [hi, hin]
    by_cases hroom : p.activeCount < p.capacity
    · simp [hi, hin, hroom, Nat.ne_of_lt hroom]
    · simp [hi, hin, Nat.le_antisymm hle (Nat.le_of_not_lt hroom)]
  deactivate_refused i := by
    rw [h.refused_iff, h.mem_active]
    simp only [Move.onSet]
    by_cases hi : n ≤ i
    · simp [hi]
    · by_cases hin : i ∈ s
      · simp [hi, hin]
      · simp [hi, hin]
  reset_accepted := by
    rw [Move.write_eq]
    exact Update.atomically_of_ok rfl
  refused_unchanged m f p' hm := by
    rw [m.write_eq] at hm
    exact (Update.of_atomically_error hm).1
  activate_appends i p' hm := by
    rw [Move.write_eq] at hm
    have hmove : p.moveToActive i = .ok p' :=
      (Update.ensures_atomically_map (Move.activate i).apply p).of_ok hm
    by_cases hi : i < n
    · rw [h.sound.active_moveToActive (i := ⟨i, hi⟩) hmove, List.map_append]
      rfl
    · rw [moveToActive, slot, dif_neg hi] at hmove
      cases hmove

/-- A partition represents the same set as before a move that is refused, and otherwise the set
after the move. -/
theorem left (h : p.Represents s) (m : Move) :
    (m.write.left p).Represents (m.next n p.capacity s) ∧
      (m.write.left p).capacity = p.capacity := by
  rw [m.write_eq, Move.next]
  obtain ⟨p', s', hp, hs, hrep, hcapacity⟩ | ⟨e, hp, hs⟩ := h.apply m
  · rw [Update.left_of_ok (Update.atomically_map_of_ok hp), hs]
    exact ⟨hrep, hcapacity⟩
  · rw [Update.left_of_error (Update.atomically_map_of_error hp), hs]
    exact ⟨h, rfl⟩

end Represents

/-- The partition after moves that are made one after the other, where those that are refused are passed
over. -/
def run (moves : List Move) (p : Partition n) : Partition n :=
  moves.foldl (fun p m => m.write.left p) p

/-- The set after the same moves. -/
def Move.runOnSet (n capacity : Nat) (moves : List Move) : Finset Nat :=
  moves.foldl (fun s m => m.next n capacity s) ∅

/-- A partition of any size and capacity, after any moves with any indices, shows the set that the
successful ones of these moves build, and its next move is one of that set. -/
theorem moves_refine_set {capacity : Nat} (h : capacity ≤ n) (moves : List Move) :
    (run moves (empty n capacity h)).Refines capacity (Move.runOnSet n capacity moves) ∧
      (run moves (empty n capacity h)).MovesLike capacity (Move.runOnSet n capacity moves) := by
  have hrun := Update.left_foldl (u := fun m : Move => m.write) (f := Move.next n capacity)
    (P := fun (p : Partition n) s => p.Represents s ∧ p.capacity = capacity)
    (fun m p s hp => by
      obtain ⟨hrep, rfl⟩ := hp
      exact hrep.left m) moves ⟨.empty h, rfl⟩
  obtain ⟨hrep, hcapacity⟩ := hrun
  have hrefines := hrep.refines
  have hmoves := hrep.movesLike
  rw [hcapacity] at hrefines hmoves
  exact ⟨hrefines, hmoves⟩

/-- Five indices, three of which can be active: after moves that fill the group, a refused fourth one
and a removal, the group is a set of two in the order of its slots. -/
theorem moves_refine_set_five :
    3 ≤ 5 ∧ ∃ p : Partition 5, p.Refines 3 {1, 4} ∧ p.MovesLike 3 {1, 4} ∧ p.active = [4, 1] := by
  let moves : List Move :=
    [.activate 3, .activate 1, .activate 3, .activate 5, .activate 4, .activate 0, .deactivate 3]
  have hset : Move.runOnSet 5 3 moves = {1, 4} := by decide +kernel
  have hrun := moves_refine_set (n := 5) (by decide : 3 ≤ 5) moves
  rw [hset] at hrun
  exact ⟨by decide, _, hrun.1, hrun.2, by decide +kernel⟩

end ActiveSet.Partition
