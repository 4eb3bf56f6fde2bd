import Mathlib.Data.Nat.Notation
import OpenAddressing.Slots.BackwardShift
import OpenAddressing.Slots.Placement
import OpenAddressing.Slots.Search

/-!
# The slots do not look at the items

Entries are moved by their hashes and selected by a predicate that the caller brings along. So a
ring with its items changed by a function is searched, filled and closed up like the ring itself:
each operation on slots commutes with `Slots.map`.
-/

namespace OpenAddressing

universe u v

variable {α : Type u} {β : Type v}

/-- The entry with its item changed. -/
def Slot.map (f : α → β) (slot : Slot α) : Slot β := ⟨slot.hash, f slot.item⟩

@[simp] theorem Slot.hash_map (f : α → β) (slot : Slot α) : (slot.map f).hash = slot.hash := rfl

@[simp] theorem Slot.item_map (f : α → β) (slot : Slot α) : (slot.map f).item = f slot.item := rfl

namespace Slots

/-- The ring with every item changed. -/
def map (f : α → β) (s : Slots α) : Slots β := ⟨s.cells.map (Option.map (Slot.map f))⟩

@[simp] theorem capacity_map (f : α → β) (s : Slots α) : (s.map f).capacity = s.capacity := by
  simp [capacity, map]

/-- No item is changed by the identity. -/
@[simp] theorem map_id (s : Slots α) : s.map id = s := by
  have hslot : (Slot.map id : Slot α → Slot α) = id := rfl
  simp [map, hslot]

@[simp] theorem map_vacant (f : α → β) (n : ℕ) : (vacant n : Slots α).map f = vacant n := by
  simp [map, vacant]

@[simp] theorem get_map (f : α → β) (s : Slots α) (i : ℕ) :
    (s.map f).get i = (s.get i).map (Slot.map f) := by
  simp only [get, map, Array.size_map, Array.getD_eq_getD_getElem?, Array.getElem?_map]
  cases s.cells[i % s.cells.size]? <;> rfl

theorem map_set (f : α → β) (s : Slots α) (i : ℕ) (x : Option (Slot α)) :
    (s.set i x).map f = (s.map f).set i (x.map (Slot.map f)) := by
  simp [set, map]

@[simp] theorem entries_map (f : α → β) (s : Slots α) :
    (s.map f).entries = s.entries.map (Slot.map f) := by
  simp [entries, map, List.filterMap_map, List.map_filterMap]

@[simp] theorem firstVacant?_map (f : α → β) (s : Slots α) :
    (s.map f).firstVacant? = s.firstVacant? := by
  simp [firstVacant?, map, Array.findIdx?_map, Function.comp_def]

/-- A search asks the predicate about the items as they are changed. -/
theorem searchFrom_map (f : α → β) (s : Slots α) (hash : UInt32) (eq : β → Bool)
    (left passed : ℕ) :
    (s.map f).searchFrom hash eq left passed
      = s.searchFrom hash (fun x => eq (f x)) left passed := by
  induction left generalizing passed with
  | zero => rfl
  | succ left ih =>
    rw [searchFrom, searchFrom]
    simp only [get_map, capacity_map, ih]
    cases s.get (home hash s.capacity + passed) <;> rfl

/-- So it comes to the same slot. -/
theorem search_map (f : α → β) (s : Slots α) (hash : UInt32) (eq : β → Bool) :
    (s.map f).search hash eq = s.search hash fun x => eq (f x) := by
  rw [search, search, searchFrom_map, capacity_map]

/-- The walk of a newcomer goes by the hashes. -/
theorem placeFrom_map (f : α → β) (left : ℕ) (s : Slots α) (carried : Slot α) (index : ℕ)
    (settled : Option ℕ) :
    placeFrom left (s.map f) (carried.map f) index settled
      = ((placeFrom left s carried index settled).1.map f,
        (placeFrom left s carried index settled).2) := by
  induction left generalizing s carried index settled with
  | zero => rfl
  | succ left ih =>
    rw [placeFrom, placeFrom, get_map]
    cases hget : s.get index with
    | none => simp only [Option.map_none, map_set, Option.map_some]
    | some resident =>
      simp only [Option.map_some, Slot.hash_map, capacity_map]
      split
      · rw [← ih, map_set, Option.map_some]
      · exact ih s carried (index + 1) settled

/-- So a newcomer takes the same slot. -/
theorem place_map (f : α → β) (s : Slots α) (slot : Slot α) :
    (s.map f).place (slot.map f) = ((s.place slot).1.map f, (s.place slot).2) := by
  simp only [place, Slot.hash_map, capacity_map, placeFrom_map]

/-- Entries move back by their hashes. -/
theorem shiftBack_map (f : α → β) (left : ℕ) (s : Slots α) (gap : ℕ) :
    shiftBack left (s.map f) gap = (shiftBack left s gap).map f := by
  induction left generalizing s gap with
  | zero => rfl
  | succ left ih =>
    rw [shiftBack, shiftBack, get_map]
    cases hget : s.get (gap + 1) with
    | none => rfl
    | some slot =>
      simp only [Option.map_some, Slot.hash_map, capacity_map]
      split
      · rw [← ih, map_set, map_set, Option.map_some, Option.map_none]
      · rfl

/-- So a gap is closed by the same entries. -/
theorem erase_map (f : α → β) (s : Slots α) (index : ℕ) :
    (s.map f).erase index = (s.erase index).map f := by
  rw [erase, erase, capacity_map, ← shiftBack_map, map_set, Option.map_none]

end Slots

end OpenAddressing
