import OpenAddressing.Dict.Update
import OpenAddressing.Proofs.Table.Update

/-!
# Calls by key in terms of the search

Looking up, inserting and removing by key go by one search of the table. Here each call is given by
what the search comes to: the entry selected, or none. Keys without bytes are refused before any
search.
-/

namespace OpenAddressing

universe u v

namespace Dict

variable {ρ : Type v} {α : Type u} {d : Dict ρ α} {key : Bytes} {index : ℕ} {slot : Slot (Entry α)}

/-- A search of the dictionary for a key comes to `slot` at `index`. -/
abbrev Selects (d : Dict ρ α) (key : Bytes) (index : ℕ) (slot : Slot (Entry α)) : Prop :=
  d.table.Selects (d.hashKey key) (d.config.accepts key) index slot

/-- A search of the dictionary for a key comes to nothing. -/
abbrev Misses (d : Dict ρ α) (key : Bytes) : Prop :=
  d.table.slots.search (d.hashKey key) (d.config.accepts key) = none

/-- The dictionary with another entry in a slot. -/
def overwrite (d : Dict ρ α) (index : ℕ) (hash : UInt32) (entry : Entry α) : Dict ρ α :=
  ⟨{ d.table with slots := d.table.slots.set index (some ⟨hash, entry⟩) }, d.config⟩

namespace Selects

/-- The value of the entry selected is rewritten in its slot. -/
theorem modify_eq (h : d.Selects key index slot) (f : α → α) :
    d.modify key f = (some (f slot.item.value),
      d.overwrite index slot.hash ⟨slot.item.key, f slot.item.value⟩) := by
  have hupdate := h.update?_eq fun entry => (f entry.value, (⟨entry.key, f entry.value⟩ : Entry α))
  obtain ⟨table, config⟩ := d
  unfold hashKey at hupdate
  simp only [modify, hupdate]
  rfl

/-- The entry selected is replaced by the one inserted. -/
theorem insertKey_eq {key : Key} (h : d.Selects key.bytes index slot)
    (hkey : key.bytes.isEmpty = false) (available : Allocator) (value : α) :
    d.insertKey available key value = ⟨.ok (d.config.givenBack slot.item.value),
      d.overwrite index slot.hash ⟨key, value⟩, [d.config.givenUp slot.item.value]⟩ := by
  have hupdate := h.update?_eq fun old => (old, (⟨key, value⟩ : Entry α))
  obtain ⟨table, config⟩ := d
  unfold hashKey at hupdate
  simp only [insertKey, hkey, hupdate]
  rfl

end Selects

/-- Nothing is rewritten when the search comes to nothing. -/
theorem modify_of_misses (h : d.Misses key) (f : α → α) : d.modify key f = (none, d) := by
  have hupdate := Table.update?_of_search_none h
    fun entry => (f entry.value, (⟨entry.key, f entry.value⟩ : Entry α))
  obtain ⟨table, config⟩ := d
  unfold hashKey at hupdate
  simp only [modify, hupdate]

/-- A key without bytes is not inserted. -/
theorem insertKey_of_isEmpty {key : Key} (hkey : key.bytes.isEmpty = true) (available : Allocator)
    (value : α) : d.insertKey available key value = ⟨.error emptyKey, d, []⟩ :=
  if_pos hkey

/-- An entry is added when the search comes to nothing. -/
theorem insertKey_of_misses {key : Key} (h : d.Misses key.bytes)
    (hkey : key.bytes.isEmpty = false) (available : Allocator) (value : α) :
    d.insertKey available key value =
      match d.table.insertNew available d.config.settings.resize (d.hashKey key.bytes)
        ⟨key, value⟩ with
      | ⟨.ok _, u⟩ => ⟨.ok none, ⟨u, d.config⟩, []⟩
      | ⟨.error e, u⟩ => ⟨.error e, ⟨u, d.config⟩, []⟩ := by
  have hupdate := Table.update?_of_search_none h fun old => (old, (⟨key, value⟩ : Entry α))
  obtain ⟨table, config⟩ := d
  unfold hashKey at hupdate
  simp only [insertKey, hkey, hupdate]
  rfl

/-- A key without bytes is not removed. -/
theorem remove_of_isEmpty (hkey : key.isEmpty = true) (available : Allocator) :
    d.remove available key = ⟨.error emptyKey, d, []⟩ :=
  if_pos hkey

/-- Nothing is removed when the search comes to nothing. -/
theorem remove_of_misses (h : d.Misses key) (hkey : key.isEmpty = false) (available : Allocator) :
    d.remove available key = ⟨.error .notFound, d, []⟩ := by
  have hremove := Table.remove_of_search_none h available d.config.settings.resize
  obtain ⟨table, config⟩ := d
  unfold hashKey at hremove
  simp only [remove, hkey, hremove]
  rfl

/-- The entry selected is taken out of the table, and its value given to the caller. -/
theorem Selects.remove_eq (h : d.Selects key index slot) (hkey : key.isEmpty = false)
    (hw : d.table.WellFormed) (available : Allocator) :
    d.remove available key = ⟨.ok slot.item.value,
      ⟨(d.table.remove available d.config.settings.resize (d.hashKey key)
        (d.config.accepts key)).state, d.config⟩, [⟨slot.item.value, none⟩]⟩ := by
  have hremove := Table.Selects.remove_eq h hw available d.config.settings.resize
  obtain ⟨table, config⟩ := d
  unfold hashKey at hremove
  simp only [remove, hkey, hashKey, hremove]
  rfl

/-- No other entry is. -/
theorem Selects.remove_spec (h : d.Selects key index slot) (hkey : key.isEmpty = false)
    (hw : d.table.WellFormed) (available : Allocator) :
    ∃ u, d.remove available key
        = ⟨.ok slot.item.value, ⟨u, d.config⟩, [⟨slot.item.value, none⟩]⟩ ∧
      u.WellFormed ∧ slot ::ₘ u.contents = d.table.contents := by
  obtain ⟨u, hremove, hwu, hcontents⟩ :=
    Table.Selects.remove_spec h hw available d.config.settings.resize
  exact ⟨u, by rw [h.remove_eq hkey hw, hremove], hwu, hcontents⟩

/-- A deletion is a removal that answers the value only if the caller owns it. -/
theorem delete_eq (d : Dict ρ α) (available : Allocator) (key : Bytes) :
    (d.delete available key).answer = (d.remove available key).answer.map d.config.givenBack ∧
      (d.delete available key).dict = (d.remove available key).dict := by
  have hconfig : (d.remove available key).dict.config = d.config := by
    unfold remove
    split
    · rfl
    · dsimp only
      split <;> rfl
  unfold delete
  generalize d.remove available key = effect at hconfig ⊢
  obtain ⟨answer, d', departed⟩ := effect
  cases answer with
  | error e => exact ⟨rfl, rfl⟩
  | ok value =>
    refine ⟨?_, rfl⟩
    show Except.ok (d'.config.givenBack value) = Except.ok (d.config.givenBack value)
    rw [show d'.config = d.config from hconfig]

end Dict

end OpenAddressing
