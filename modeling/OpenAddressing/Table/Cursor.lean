import OpenAddressing.Table.Basic

/-!
# Walking over the entries

A cursor yields the items of a table in slot order and counts how many are still to come. An editor
does the same and rewrites each item it passes; what it has not passed stays as it was. Draining
hands the entries to a cursor and leaves the table empty at once, however far the cursor then goes.
-/

namespace OpenAddressing

universe u

/-- A place in a walk over the entries of a table. -/
structure Cursor (α : Type u) where
  /-- The slots not passed yet. -/
  pending : List (Option (Slot α))
  /-- The number of items still to come. -/
  remaining : Nat

namespace Cursor

variable {α : Type u}

/-- The next item, and the walk after it. -/
def next? (c : Cursor α) : Option (α × Cursor α) :=
  match c.pending.dropWhile Option.isNone with
  | some slot :: rest => some (slot.item, ⟨rest, c.remaining - 1⟩)
  | _ => none

/-- The next items after those of `taken`, which holds the latest first. -/
def takeFrom : (n : Nat) → (taken : List α) → Cursor α → List α × Cursor α
  | 0, taken, c => (taken.reverse, c)
  | n + 1, taken, c =>
    match c.next? with
    | none => (taken.reverse, c)
    | some (item, c) => takeFrom n (item :: taken) c

/-- The next items, `n` if there are so many, and the walk after them. -/
def take (n : Nat) (c : Cursor α) : List α × Cursor α := takeFrom n [] c

end Cursor

/-- A place in a walk that rewrites the items of a table. -/
structure Editor (α : Type u) where
  /-- The slots passed, the latest first. -/
  passed : List (Option (Slot α))
  /-- The slots not passed yet. -/
  pending : List (Option (Slot α))
  /-- The number of items still to come. -/
  remaining : Nat

namespace Editor

variable {α : Type u}

/-- Passes the next item and rewrites it by `f`. -/
def next? (e : Editor α) (f : α → α) : Option (Editor α) :=
  match e.pending.dropWhile Option.isNone with
  | some slot :: rest =>
    some ⟨some ⟨slot.hash, f slot.item⟩ ::
      ((e.pending.takeWhile Option.isNone).reverse ++ e.passed), rest, e.remaining - 1⟩
  | _ => none

/-- Passes the next items, `n` if there are so many, and rewrites each by `f`. -/
def take (f : α → α) : (n : Nat) → Editor α → Editor α
  | 0, e => e
  | n + 1, e =>
    match e.next? f with
    | none => e
    | some e => take f n e

/-- The slots as the walk leaves them. -/
def slots (e : Editor α) : Slots α := ⟨(e.passed.reverse ++ e.pending).toArray⟩

end Editor

namespace Table

variable {α : Type u}

/-- The walk over all items. -/
def cursor (t : Table α) : Cursor α := ⟨t.slots.cells.toList, t.size⟩

/-- The rewriting walk over all items. -/
def editor (t : Table α) : Editor α := ⟨[], t.slots.cells.toList, t.size⟩

/-- The table after a rewriting walk over it. -/
def edited (t : Table α) (e : Editor α) : Table α := { t with slots := e.slots }

/-- Rewrites the first `n` items in slot order. -/
def mapFirst (t : Table α) (n : Nat) (f : α → α) : Table α := t.edited (t.editor.take f n)

/-- Empties the table and hands its items to a walk. -/
def drain (t : Table α) : Cursor α × Table α := (t.cursor, t.clear)

end Table

end OpenAddressing
