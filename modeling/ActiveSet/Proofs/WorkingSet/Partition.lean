import ActiveSet.WorkingSet.Partition
import Mathlib.Data.Fintype.EquivFin

/-!
# The two tables of a partition

A partition is `Sound` if its second table is the inverse of the first one, which is what
`Partition.check` looks at. An index is then active exactly when its slot lies before the border,
and both groups list each of their members once.

A move exchanges two slots, which keeps the tables inverse to each other, and shifts the border over
the one index that moves: `moveToActive_sound` and `moveToInactive_sound` say which indices are
active afterwards, and `moveToActive_of` that a move of an inactive index within the capacity is
never refused.
-/

namespace ActiveSet.Partition

variable {n : Nat}

/-- The index in a slot. -/
def index (p : Partition n) (s : Fin n) : Fin n := getElem p.slots s.val s.isLt

/-- The slot of an index. -/
def place (p : Partition n) (i : Fin n) : Fin n := getElem p.position i.val i.isLt

/-- The second table finds every slot. -/
def Sound (p : Partition n) : Prop := ∀ s : Fin n, p.place (p.index s) = s

/-- The slot of an index lies before the border. -/
def IsActive (p : Partition n) (i : Fin n) : Prop := (p.place i).val < p.activeCount

instance (p : Partition n) (i : Fin n) : Decidable (p.IsActive i) :=
  inferInstanceAs (Decidable (_ < _))

theorem check_eq_ok_iff {p : Partition n} : p.check = .ok () ↔ p.Sound := by
  unfold check Sound
  split
  · next h => simpa [index, place] using h
  · next h => simpa [index, place] using h

/-- A table of a finite range that has a left inverse has it as its right inverse, too. -/
theorem Sound.index_place {p : Partition n} (h : p.Sound) (i : Fin n) :
    p.index (p.place i) = i := by
  obtain ⟨s, rfl⟩ :=
    Finite.surjective_of_injective (Function.LeftInverse.injective (f := p.index) h) i
  rw [h s]

theorem Sound.nodup {p : Partition n} (h : p.Sound) : p.slots.toList.Nodup := by
  have hslots : p.slots.toList = List.ofFn p.index := by
    apply List.ext_getElem
    · simp
    · intro k hk _
      simp [index]
  rw [hslots, List.nodup_ofFn]
  exact Function.LeftInverse.injective h

theorem Sound.nodup_active {p : Partition n} (h : p.Sound) : p.active.Nodup :=
  h.nodup.sublist (List.take_sublist _ _)

theorem Sound.nodup_inactive {p : Partition n} (h : p.Sound) : p.inactive.Nodup :=
  h.nodup.sublist (List.drop_sublist _ _)

/-- The active group lists the indices whose slot lies before the border. -/
theorem Sound.mem_active {p : Partition n} (h : p.Sound) (i : Fin n) :
    i ∈ p.active ↔ p.IsActive i := by
  have hcount : p.activeCount ≤ n := Nat.le_trans p.activeCount_le p.capacity_le
  unfold active IsActive
  rw [List.mem_take_iff_getElem]
  constructor
  · rintro ⟨k, hk, rfl⟩
    simp only [Vector.length_toList] at hk
    have hkn : k < n := by omega
    rw [show p.slots.toList[k] = p.index ⟨k, hkn⟩ from rfl, h ⟨k, hkn⟩]
    show k < p.activeCount
    omega
  · intro hi
    refine ⟨p.place i, by simp; omega, ?_⟩
    simpa [index] using h.index_place i

theorem Sound.mem_inactive {p : Partition n} (h : p.Sound) (i : Fin n) :
    i ∈ p.inactive ↔ ¬p.IsActive i := by
  rw [← h.mem_active i]
  have hmem : i ∈ p.slots.toList := by
    rw [Vector.mem_toList_iff, Vector.mem_iff_getElem]
    exact ⟨p.place i, (p.place i).isLt, h.index_place i⟩
  rw [← List.take_append_drop p.activeCount p.slots.toList, List.mem_append] at hmem
  have hdisj := List.disjoint_take_drop h.nodup (Nat.le_refl p.activeCount)
  constructor
  · exact fun hin hac => hdisj hac hin
  · exact fun hac => hmem.resolve_left hac

/-! ## Moves -/

/-- The partition after the indices in two slots have changed places and the border has moved. -/
def exchanged (p : Partition n) (a b : Fin n) (count : Nat) (h : count ≤ p.capacity) :
    Partition n :=
  { p with
    slots := (swapTables p.slots p.position a b).1
    position := (swapTables p.slots p.position a b).2
    activeCount := count
    activeCount_le := h }

variable {p p' : Partition n}

theorem index_exchanged (a b s : Fin n) {count : Nat} (hc : count ≤ p.capacity) :
    (p.exchanged a b count hc).index s =
      if s = b then p.index a else if s = a then p.index b else p.index s := by
  unfold index exchanged swapTables
  grind

theorem Sound.place_exchanged (h : p.Sound) (a b i : Fin n) {count : Nat}
    (hc : count ≤ p.capacity) :
    (p.exchanged a b count hc).place i =
      if p.place i = a then b else if p.place i = b then a else p.place i := by
  have hplace : (p.exchanged a b count hc).place i =
      if a = b then p.place i
      else if i = p.index a then b else if i = p.index b then a else p.place i := by
    unfold place index exchanged swapTables
    grind
  have hi := h.index_place i
  have ha := h a
  have hb := h b
  rw [hplace]
  grind

/-- Exchanged slots are found where they are now. -/
theorem Sound.exchanged (h : p.Sound) (a b : Fin n) {count : Nat} (hc : count ≤ p.capacity) :
    (p.exchanged a b count hc).Sound := by
  intro s
  rw [h.place_exchanged, index_exchanged]
  have hs := h s
  have ha := h a
  have hb := h b
  grind

theorem slot_of_lt (p : Partition n) (i : Fin n) : p.slot i = .ok (p.place i) := by
  unfold slot place
  rw [dif_pos i.isLt]

theorem moveToActive_eq (p : Partition n) (i : Fin n) :
    p.moveToActive i =
      if p.IsActive i then .error .indexListMoveFailed
      else if h : p.activeCount < p.capacity then
        .ok (p.exchanged (p.place i) ⟨p.activeCount, Nat.lt_of_lt_of_le h p.capacity_le⟩ _ h)
      else .error .indexListExceedsMaxLength := by
  unfold moveToActive
  rw [slot_of_lt]
  rfl

theorem moveToInactive_eq (p : Partition n) (i : Fin n) :
    p.moveToInactive i =
      if h : p.IsActive i then
        .ok (p.exchanged (p.place i)
          ⟨p.activeCount - 1, by
            have hlt : (p.place i).val < p.activeCount := h
            have := p.activeCount_le
            have := p.capacity_le
            omega⟩
          _ (Nat.le_trans (Nat.sub_le _ 1) p.activeCount_le))
      else .error .indexListMoveFailed := by
  unfold moveToInactive
  rw [slot_of_lt]
  rfl

/-- A successful move into the active group. -/
theorem moveToActive_sound (h : p.Sound) {i : Fin n} (hmove : p.moveToActive i = .ok p') :
    p'.Sound ∧ p'.capacity = p.capacity ∧ ¬p.IsActive i ∧
      ∀ j, p'.IsActive j ↔ p.IsActive j ∨ j = i := by
  rw [moveToActive_eq] at hmove
  split at hmove
  · cases hmove
  next hnot =>
  split at hmove
  next hroom =>
    cases hmove
    refine ⟨h.exchanged _ _ _, rfl, hnot, fun j => ?_⟩
    unfold IsActive at hnot ⊢
    -- the entity changes places with the first inactive one, which then belongs to the active part
    rw [h.place_exchanged]
    change (ite _ _ _ : Fin n).val < p.activeCount + 1 ↔ _
    have hinj : p.place j = p.place i ↔ j = i :=
      (Function.LeftInverse.injective (g := p.index) h.index_place).eq_iff
    simp only [apply_ite Fin.val, Fin.ext_iff] at hinj ⊢
    split
    · omega
    · split <;> omega
  · cases hmove

/-- An inactive index can become active while there is room. -/
theorem moveToActive_of {i : Fin n} (hnot : ¬p.IsActive i) (hroom : p.activeCount < p.capacity) :
    ∃ p', p.moveToActive i = .ok p' := by
  rw [moveToActive_eq, if_neg hnot, dif_pos hroom]
  exact ⟨_, rfl⟩

/-- A successful move out of the active group. -/
theorem moveToInactive_sound (h : p.Sound) {i : Fin n} (hmove : p.moveToInactive i = .ok p') :
    p'.Sound ∧ p'.capacity = p.capacity ∧ p.IsActive i ∧
      ∀ j, p'.IsActive j ↔ p.IsActive j ∧ j ≠ i := by
  rw [moveToInactive_eq] at hmove
  split at hmove
  next hin =>
    cases hmove
    refine ⟨h.exchanged _ _ _, rfl, hin, fun j => ?_⟩
    unfold IsActive at hin ⊢
    rw [h.place_exchanged]
    change (ite _ _ _ : Fin n).val < p.activeCount - 1 ↔ _
    have hinj : p.place j = p.place i ↔ j = i :=
      (Function.LeftInverse.injective (g := p.index) h.index_place).eq_iff
    simp only [apply_ite Fin.val, ne_eq, Fin.ext_iff] at hinj ⊢
    split
    · omega
    · split <;> omega
  · cases hmove

/-- An active index can become inactive. -/
theorem moveToInactive_of {i : Fin n} (h : p.IsActive i) :
    ∃ p', p.moveToInactive i = .ok p' := by
  rw [moveToInactive_eq, dif_pos h]
  exact ⟨_, rfl⟩

theorem activeCount_moveToActive {i : Fin n} (hmove : p.moveToActive i = .ok p') :
    p'.activeCount = p.activeCount + 1 := by
  rw [moveToActive_eq] at hmove
  split at hmove
  · cases hmove
  · split at hmove
    · cases hmove
      rfl
    · cases hmove

theorem activeCount_moveToInactive {i : Fin n} (hmove : p.moveToInactive i = .ok p') :
    p'.activeCount + 1 = p.activeCount := by
  rw [moveToInactive_eq] at hmove
  split at hmove
  next hin =>
    cases hmove
    exact Nat.succ_pred_eq_of_pos (Nat.zero_lt_of_lt hin)
  · cases hmove

theorem sound_empty {c : Nat} (h : c ≤ n) : (empty n c h).Sound := by
  intro s
  simp [empty, index, place]

theorem not_isActive_empty {c : Nat} (h : c ≤ n) (i : Fin n) : ¬(empty n c h).IsActive i := by
  simp [IsActive, empty]

end ActiveSet.Partition
