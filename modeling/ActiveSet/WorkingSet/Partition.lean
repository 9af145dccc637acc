import ActiveSet.Fault

/-!
# Partitions of an index range

The indices below `n` are split into an active and an inactive group.  All of them stand in one row
of slots, the active group first, and a second table says in which slot each index stands.  Asking
for the group of an index is then one comparison, and moving an index to the other group is one
swap across the border between the groups, followed by a shift of the border.

The order of the slots is visible: it is the order in which a solver visits the members of a group.
A newly active index joins at the end of its group; an index that leaves changes places with the
last one.

* `Partition.moveToActive`, `Partition.moveToInactive`: the two moves.
* `Partition.check`: whether the two tables describe the same order.
-/

namespace ActiveSet

/-- The two groups of a partition. -/
inductive Group where
  | active
  | inactive
deriving DecidableEq, Repr

/-- A partition of the indices below `n`.  The active group has a capacity. -/
structure Partition (n : Nat) where
  /-- The index in each slot. -/
  slots : Vector (Fin n) n
  /-- The slot of each index. -/
  position : Vector (Fin n) n
  /-- The size of the active group, which takes the first slots. -/
  activeCount : Nat
  /-- The largest size of the active group. -/
  capacity : Nat
  /-- The capacity is within the range. -/
  capacity_le : capacity ≤ n
  /-- The active group is within its capacity. -/
  activeCount_le : activeCount ≤ capacity

namespace Partition

variable {n : Nat}

/-- The partition of a capacity within the range whose indices are all inactive and stand in their
natural order. -/
def empty (n capacity : Nat) (h : capacity ≤ n) : Partition n where
  slots := Vector.ofFn id
  position := Vector.ofFn id
  activeCount := 0
  capacity := capacity
  capacity_le := h
  activeCount_le := Nat.zero_le _

/-- The empty partition of a given capacity, which has to be within the range. -/
def empty? (n capacity : Nat) : Option (Partition n) :=
  if h : capacity ≤ n then some (empty n capacity h) else none

/-- All indices become inactive and return to their natural order. -/
def reset (p : Partition n) : Partition n := empty n p.capacity p.capacity_le

/-- The size of the inactive group. -/
def inactiveCount (p : Partition n) : Nat := n - p.activeCount

/-- The active indices in the order of their slots. -/
def active (p : Partition n) : List (Fin n) := p.slots.toList.take p.activeCount

/-- The inactive indices in the order of their slots. -/
def inactive (p : Partition n) : List (Fin n) := p.slots.toList.drop p.activeCount

/-- The slot of an index. -/
def slot (p : Partition n) (i : Nat) : Except QpError (Fin n) :=
  if h : i < n then .ok p.position[i] else .error .indexOutOfBounds

/-- The group of an index. -/
def group (p : Partition n) (i : Nat) : Except QpError Group := do
  let s ← p.slot i
  return if s < p.activeCount then .active else .inactive

/-- The tables after the indices in two slots have changed places. -/
def swapTables (slots position : Vector (Fin n) n) (a b : Fin n) :
    Vector (Fin n) n × Vector (Fin n) n :=
  if a = b then (slots, position)
  else
    let i := slots[a]
    let j := slots[b]
    ((slots.set a j).set b i, (position.set j a).set i b)

/-- Moves an inactive index to the end of the active group. -/
def moveToActive (p : Partition n) (i : Nat) : Except QpError (Partition n) := do
  let s ← p.slot i
  if s < p.activeCount then throw .indexListMoveFailed
  else if h : p.activeCount < p.capacity then
    let border : Fin n := ⟨p.activeCount, Nat.lt_of_lt_of_le h p.capacity_le⟩
    let (slots, position) := swapTables p.slots p.position s border
    return { p with slots, position, activeCount := p.activeCount + 1, activeCount_le := h }
  else throw .indexListExceedsMaxLength

/-- Moves an active index to the front of the inactive group. -/
def moveToInactive (p : Partition n) (i : Nat) : Except QpError (Partition n) := do
  let s ← p.slot i
  if h : s < p.activeCount then
    let border : Fin n := ⟨p.activeCount - 1, by
      have := p.activeCount_le
      have := p.capacity_le
      omega⟩
    let (slots, position) := swapTables p.slots p.position s border
    return { p with
      slots, position, activeCount := p.activeCount - 1
      activeCount_le := Nat.le_trans (Nat.sub_le _ _) p.activeCount_le }
  else throw .indexListMoveFailed

/-- Whether every slot holds an index that the second table finds there. -/
def check (p : Partition n) : Except QpError Unit :=
  if (List.finRange n).all fun s => p.position[p.slots[s]] = s then .ok ()
  else .error .indexListCorrupted

@[simp] theorem activeCount_empty {c : Nat} (h : c ≤ n) : (empty n c h).activeCount = 0 := rfl

@[simp] theorem activeCount_reset (p : Partition n) : p.reset.activeCount = 0 := rfl

theorem length_active (p : Partition n) : p.active.length = p.activeCount := by
  have := p.activeCount_le
  have := p.capacity_le
  simp only [active, List.length_take, Vector.length_toList]
  omega

theorem length_inactive (p : Partition n) : p.inactive.length = p.inactiveCount := by
  simp [inactive, inactiveCount]

end Partition

end ActiveSet
