import OpenAddressing.Dict.Bulk

/-!
# Shared dictionaries

A dictionary that outlives its callers' keys: every key inserted is copied, whatever the settings
say about ownership. All else is as in the dictionary within, one call at a time; an operation
answers the dictionary within as it leaves it.
-/

namespace OpenAddressing

universe u v w

/-- A dictionary that keeps a copy of every key. -/
structure SharedDict (ρ : Type v) (α : Type u) where
  /-- The dictionary within. -/
  inner : Dict ρ α

namespace SharedDict

variable {ρ : Type v} {α : Type u} {β : Type w}

/-- The empty shared dictionary under these settings. -/
def empty (settings : Settings) : SharedDict ρ α := ⟨Dict.empty settings⟩

/-- Inserts a value for a copy of the key. -/
def insert (d : SharedDict ρ α) (available : Allocator) (key : Bytes) (value : α) :
    Dict.Effect ρ α (Option α) :=
  d.inner.insertKey available (.owned key) value

/-- The value stored for a key. -/
def get? (d : SharedDict ρ α) (key : Bytes) : Option α := d.inner.get? key

/-- What `f` makes of the value stored for a key. -/
def withValue? (d : SharedDict ρ α) (key : Bytes) (f : α → β) : Option β :=
  (d.inner.get? key).map f

/-- Whether a value is stored for a key. -/
def contains (d : SharedDict ρ α) (key : Bytes) : Bool := d.inner.contains key

/-- Deletes the value stored for a key, and answers it, unless the dictionary owned it. -/
def delete (d : SharedDict ρ α) (available : Allocator) (key : Bytes) :
    Dict.Effect ρ α (Option α) :=
  d.inner.delete available key

/-- Takes out the value stored for a key and gives it to the caller. -/
def remove (d : SharedDict ρ α) (available : Allocator) (key : Bytes) : Dict.Effect ρ α α :=
  d.inner.remove available key

/-- Replaces the hash. -/
def setHash (d : SharedDict ρ α) (hash : Bytes → UInt32) : Outcome (Dict ρ α) Unit :=
  d.inner.setHash hash

/-- Replaces the measure. -/
def setSize (d : SharedDict ρ α) (size : Bytes → Nat) : Outcome (Dict ρ α) Unit :=
  d.inner.setSize size

/-- Replaces the comparison. -/
def setEqual (d : SharedDict ρ α) (equal : Bytes → Bytes → Bool) : Outcome (Dict ρ α) Unit :=
  d.inner.setEqual equal

/-- Puts another disposal of values in place. -/
def setRelease (d : SharedDict ρ α) (release : Release ρ) : Dict ρ α := d.inner.setRelease release

/-- The number of entries. -/
def size (d : SharedDict ρ α) : Nat := d.inner.size

/-- Whether there is no entry. -/
def isEmpty (d : SharedDict ρ α) : Bool := d.inner.isEmpty

/-- The number of slots. -/
def capacity (d : SharedDict ρ α) : Nat := d.inner.capacity

/-- Removes every entry, keeps the slots and gives up the values. -/
def clear (d : SharedDict ρ α) : Dict ρ α × List (Departure ρ α) := d.inner.clear

end SharedDict

end OpenAddressing
