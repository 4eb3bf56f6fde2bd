/-!
# A ring of slots

An open-addressing table keeps its entries in an array of slots that is read cyclically: index `i`
means index `i` modulo the number of slots. An entry with hash `h` belongs to its home bucket, `h`
modulo the number of slots, and its displacement is the number of slots it sits past that bucket.
The displacement is never stored; it follows from the hash and the index.

The main statements are the readings after a write, `get_set_self` and `get_set_of_ne`, and that the
entries are what the slots hold, `mem_entries`.
-/

namespace OpenAddressing

universe u

/-- The bucket where an entry with this hash would sit if nothing were in its way. -/
def home (hash : UInt32) (capacity : Nat) : Nat := hash.toNat % capacity

/-- How many slots `index` lies past the home bucket of `hash`, going round the end. -/
def displacement (hash : UInt32) (index capacity : Nat) : Nat :=
  (index + capacity - home hash capacity) % capacity

/-- An item with the hash it was stored under. -/
structure Slot (α : Type u) where
  /-- The hash, fixed while the entry stays. -/
  hash : UInt32
  /-- The item stored. -/
  item : α
deriving DecidableEq

/-- A ring of slots, each vacant or taken. -/
structure Slots (α : Type u) where
  /-- The slots from index 0 up. -/
  cells : Array (Option (Slot α))
deriving DecidableEq

namespace Slots

variable {α : Type u}

/-- The number of slots. -/
def capacity (s : Slots α) : Nat := s.cells.size

/-- A ring of `n` vacant slots. -/
def vacant (n : Nat) : Slots α := ⟨Array.replicate n none⟩

/-- The slot at `index`, counted round the ring. -/
def get (s : Slots α) (index : Nat) : Option (Slot α) := s.cells.getD (index % s.cells.size) none

/-- Writes the slot at `index`, counted round the ring. -/
def set (s : Slots α) (index : Nat) (slot : Option (Slot α)) : Slots α :=
  ⟨s.cells.setIfInBounds (index % s.cells.size) slot⟩

/-- The entries in slot order. -/
def entries (s : Slots α) : List (Slot α) := s.cells.toList.filterMap id

/-- The index of the first vacant slot. -/
def firstVacant? (s : Slots α) : Option Nat := s.cells.findIdx? Option.isNone

@[simp] theorem capacity_vacant (n : Nat) : (vacant n : Slots α).capacity = n := by
  simp [capacity, vacant]

@[simp] theorem capacity_set (s : Slots α) (i : Nat) (x : Option (Slot α)) :
    (s.set i x).capacity = s.capacity := by
  simp [capacity, set]

@[simp] theorem get_vacant (n i : Nat) : (vacant n : Slots α).get i = none := by
  simp only [get, vacant, Array.getD_eq_getD_getElem?, Array.getElem?_replicate]
  split <;> rfl

@[simp] theorem entries_vacant (n : Nat) : (vacant n : Slots α).entries = [] := by
  simp [entries, vacant]

/-- Inside the first round, a slot reads as its cell. -/
theorem get_of_lt (s : Slots α) {i : Nat} (h : i < s.cells.size) : s.get i = s.cells[i] := by
  simp [get, Nat.mod_eq_of_lt h, h]

/-- The entries are what the slots of one round hold. -/
theorem mem_entries {s : Slots α} {slot : Slot α} :
    slot ∈ s.entries ↔ ∃ i < s.capacity, s.get i = some slot := by
  simp only [entries, List.mem_filterMap, id_eq, exists_eq_right, Array.mem_toList_iff,
    Array.mem_iff_getElem]
  constructor
  · rintro ⟨i, h, hi⟩
    exact ⟨i, h, by rw [get_of_lt s h, hi]⟩
  · rintro ⟨i, h, hi⟩
    exact ⟨i, h, by rw [← get_of_lt s h, hi]⟩

/-- There are no more entries than slots. -/
theorem length_entries_le (s : Slots α) : s.entries.length ≤ s.capacity := by
  simpa [entries, capacity] using List.length_filterMap_le id s.cells.toList

/-- Reading goes round the ring. -/
@[simp] theorem get_mod (s : Slots α) (i : Nat) : s.get (i % s.capacity) = s.get i := by
  simp [get, capacity]

/-- A slot reads as it was last written. -/
theorem get_set_self (s : Slots α) (h : 0 < s.capacity) (i : Nat) (x : Option (Slot α)) :
    (s.set i x).get i = x := by
  have hi : i % s.cells.size < s.cells.size := Nat.mod_lt _ h
  simp [get, set, hi]

/-- Writing one slot leaves the others alone. -/
theorem get_set_of_ne (s : Slots α) {i j : Nat} (h : i % s.capacity ≠ j % s.capacity)
    (x : Option (Slot α)) : (s.set i x).get j = s.get j := by
  simp only [capacity] at h
  simp [get, set, h]

end Slots

/-- A displacement is below the number of slots. -/
theorem displacement_lt (hash : UInt32) (index : Nat) {capacity : Nat} (h : 0 < capacity) :
    displacement hash index capacity < capacity :=
  Nat.mod_lt _ h

/-- An entry sits as many slots past its home bucket as its displacement says. -/
theorem home_add_displacement (hash : UInt32) (index : Nat) {capacity : Nat} (h : 0 < capacity) :
    (home hash capacity + displacement hash index capacity) % capacity = index % capacity := by
  have hlt : home hash capacity < capacity := Nat.mod_lt _ h
  unfold displacement
  rw [Nat.add_mod_mod, show home hash capacity + (index + capacity - home hash capacity)
    = index + capacity by omega, Nat.add_mod_right]

end OpenAddressing
