import OpenAddressing.Slots.BackwardShift
import OpenAddressing.Table.Resize

/-!
# Insertion and removal

An insertion that matches a stored entry replaces its item and touches nothing else. Any other first
grows the table as its policy asks and then places the new entry. A removal decides before it takes
the entry out whether the table shrinks afterwards, and succeeds also when it cannot.
-/

namespace OpenAddressing

universe u

namespace Table

variable {α : Type u}

/-- Grows the table until one more entry is below the load at which it grows, at most `left`
times. -/
def growFrom (available : Allocator) (policy : ResizePolicy) :
    (left : Nat) → Table α → Outcome (Table α) Unit
  | 0, t => ⟨.ok (), t⟩
  | left + 1, t =>
    if t.adjustment (t.size + 1) policy = .grow then
      (t.resize available .grow).andThen fun _ t => growFrom available policy left t
    else ⟨.ok (), t⟩

/-- Grows the table until one more entry is below the load at which it grows. Sixty-four doublings
exceed every count. -/
def makeRoom (t : Table α) (available : Allocator) (policy : ResizePolicy) :
    Outcome (Table α) Unit :=
  growFrom available policy 64 t

/-- Places a new entry and answers its index. -/
def put (t : Table α) (slot : Slot α) : Outcome (Table α) Nat :=
  match t with
  | ⟨slots, size, resizing⟩ =>
    if slots.capacity < size + 1 then ⟨.error (.capacity slots.capacity), ⟨slots, size, resizing⟩⟩
    else
      match slots.place slot with
      | (slots, some index) => ⟨.ok index, ⟨slots, size + 1, resizing⟩⟩
      | (slots, none) => ⟨.error (.capacity slots.capacity), ⟨slots, size, resizing⟩⟩

/-- Inserts an entry that no stored entry matches, and answers its index. -/
def insertNew (t : Table α) (available : Allocator) (policy : ResizePolicy) (hash : UInt32)
    (item : α) : Outcome (Table α) Nat :=
  (t.makeRoom available policy).andThen fun _ t => t.put ⟨hash, item⟩

/-- Inserts an item, and answers the item it replaces, if any. -/
def insert (t : Table α) (available : Allocator) (policy : ResizePolicy) (hash : UInt32) (item : α)
    (eq : α → Bool) : Outcome (Table α) (Option α) :=
  match t.update? hash eq fun old => (old, item) with
  | (some old, t) => ⟨.ok (some old), t⟩
  | (none, t) =>
    (t.insertNew available policy hash item).andThen fun _ t => ⟨.ok none, t⟩

/-- Takes the entry out of the slot at `index`, if there is one, and closes the gap. -/
def eraseAt (t : Table α) (index : Nat) : Option (Slot α) × Table α :=
  match t with
  | ⟨slots, size, resizing⟩ =>
    match slots.get index with
    | none => (none, ⟨slots, size, resizing⟩)
    | some slot => (some slot, ⟨slots.erase index, size - 1, resizing⟩)

/-- Removes the entry that `find?` selects. -/
def remove (t : Table α) (available : Allocator) (policy : ResizePolicy) (hash : UInt32)
    (eq : α → Bool) : Outcome (Table α) α :=
  match t.slots.search hash eq with
  | none => ⟨.error .notFound, t⟩
  | some index =>
    let afterwards := t.adjustment (t.size - 1) policy
    match t.eraseAt index with
    | (none, t) => ⟨.error .notFound, t⟩
    | (some slot, t) =>
      ⟨.ok slot.item, if afterwards = .shrink then (t.resize available .shrink).state else t⟩

end Table

end OpenAddressing
