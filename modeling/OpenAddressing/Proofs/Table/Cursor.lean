import Mathlib.Data.Nat.Notation
import OpenAddressing.Table.Cursor

/-!
# A walk comes to the entries in slot order

What a cursor has still to come to are the items in the slots it has not passed. Each step takes the
first of them, so the first `n` steps take the first `n` (`Cursor.fst_take`).
-/

namespace OpenAddressing

universe u

namespace Cursor

variable {α : Type u}

/-- The items still to come. -/
def items (c : Cursor α) : List α := (c.pending.filterMap id).map Slot.item

/-- Vacant slots passed on the way hold nothing. -/
theorem filterMap_dropWhile_isNone (pending : List (Option (Slot α))) :
    (pending.dropWhile Option.isNone).filterMap id = pending.filterMap id := by
  induction pending with
  | nil => rfl
  | cons cell rest ih =>
    cases cell with
    | none => exact ih
    | some slot => rfl

/-- A step takes the first item still to come, or there is none. -/
theorem next?_cases (c : Cursor α) :
    (c.next? = none ∧ c.items = []) ∨
      ∃ item after, c.next? = some (item, after) ∧ c.items = item :: after.items := by
  have hitems : c.items = ((c.pending.dropWhile Option.isNone).filterMap id).map Slot.item := by
    rw [filterMap_dropWhile_isNone, items]
  rw [hitems, next?]
  cases hdrop : c.pending.dropWhile Option.isNone with
  | nil => exact Or.inl ⟨rfl, rfl⟩
  | cons cell rest =>
    cases cell with
    | none =>
      -- What is left does not begin with a vacant slot.
      have hhead := List.head?_dropWhile_not Option.isNone c.pending
      rw [hdrop] at hhead
      cases hhead
    | some slot => exact Or.inr ⟨slot.item, _, rfl, rfl⟩

/-- The items of `n` steps are the first `n` still to come. -/
theorem fst_takeFrom (n : ℕ) (taken : List α) (c : Cursor α) :
    (takeFrom n taken c).1 = taken.reverse ++ c.items.take n := by
  induction n generalizing taken c with
  | zero => simp [takeFrom]
  | succ n ih =>
    rw [takeFrom]
    rcases next?_cases c with ⟨hnext, hitems⟩ | ⟨item, after, hnext, hitems⟩
    · simp [hnext, hitems]
    · simp [hnext, hitems, ih]

/-- A walk takes the first items still to come. -/
theorem fst_take (n : ℕ) (c : Cursor α) : (c.take n).1 = c.items.take n :=
  fst_takeFrom n [] c

/-- A walk over a table is to come to all its items, in slot order. -/
theorem items_cursor (t : Table α) : t.cursor.items = t.items := rfl

end Cursor

end OpenAddressing
