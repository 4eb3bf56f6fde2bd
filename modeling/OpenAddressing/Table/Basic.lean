import OpenAddressing.Count
import OpenAddressing.Error
import OpenAddressing.Slots.Search

/-!
# Robin-hood tables

A table is a ring of slots with the number of its entries and a mark that says whether a rehash is
under way. It never hashes or compares items itself: every operation takes the hash of the item
sought and a predicate on stored items. A table has at least four slots, and their number is a power
of two.

Slots come from an allocator, which may refuse. Nothing is assumed about when it does.
-/

namespace OpenAddressing

universe u v

/-- The slot counts for which an array can be obtained. -/
abbrev Allocator := Nat → Bool

/-- A robin-hood hash table. -/
structure Table (α : Type u) where
  /-- The ring of slots. -/
  slots : Slots α
  /-- The number of entries. -/
  size : Nat
  /-- Whether a rehash is under way. -/
  resizing : Bool := false
deriving DecidableEq

namespace Table

variable {α : Type u} {β : Type v}

/-- The fewest slots a table has. -/
def minCapacity : Nat := 4

/-- The number of slots. -/
def capacity (t : Table α) : Nat := t.slots.capacity

/-- Whether there is no entry. -/
def isEmpty (t : Table α) : Bool := t.size == 0

/-- The table without entries on `n` slots. -/
def vacant (n : Nat) : Table α := ⟨Slots.vacant n, 0, false⟩

/-- The empty table of the fewest slots. -/
def empty : Table α := vacant minCapacity

instance : Inhabited (Table α) := ⟨empty⟩

/-- The empty table on at least `n` slots: `n` is rounded up to a power of two that is not below the
fewest slots. A refusal reports the rounded count, or `n` itself if rounding leaves the counts. -/
def withCapacity (available : Allocator) (n : Nat) : Except Error (Table α) :=
  match Count.ceilPowerOfTwo? (max n minCapacity) with
  | none => .error (.allocation n)
  | some capacity =>
    if available capacity then .ok (vacant capacity) else .error (.allocation capacity)

/-- The table that holds the same entries in the same slots and is not being rehashed. -/
def copy (t : Table α) : Table α := { t with resizing := false }

/-- The entries in slot order. -/
def entries (t : Table α) : List (Slot α) := t.slots.entries

/-- The items in slot order. -/
def items (t : Table α) : List α := t.entries.map Slot.item

/-- The item with this hash that `eq` accepts. -/
def find? (t : Table α) (hash : UInt32) (eq : α → Bool) : Option α :=
  match t.slots.search hash eq with
  | none => none
  | some index => (t.slots.get index).map Slot.item

/-- Replaces the item that `find?` selects in place, and answers with what `f` makes of it. -/
def update? (t : Table α) (hash : UInt32) (eq : α → Bool) (f : α → β × α) :
    Option β × Table α :=
  match t with
  | ⟨slots, size, resizing⟩ =>
    match slots.search hash eq with
    | none => (none, ⟨slots, size, resizing⟩)
    | some index =>
      match slots.get index with
      | none => (none, ⟨slots, size, resizing⟩)
      | some slot =>
        let (answer, item) := f slot.item
        (some answer, ⟨slots.set index (some ⟨slot.hash, item⟩), size, resizing⟩)

/-- Removes every entry and keeps the slots. -/
def clear (t : Table α) : Table α := { t with slots := Slots.vacant t.capacity, size := 0 }

@[simp] theorem capacity_vacant (n : Nat) : (vacant n : Table α).capacity = n :=
  Slots.capacity_vacant n

@[simp] theorem capacity_clear (t : Table α) : t.clear.capacity = t.capacity :=
  Slots.capacity_vacant _

@[simp] theorem entries_clear (t : Table α) : t.clear.entries = [] :=
  Slots.entries_vacant _

end Table

end OpenAddressing
