import OpenAddressing.Slots.Placement
import OpenAddressing.Table.Load

/-!
# Changing the number of slots

A rehash places every entry, in slot order, into a ring of another size. It is refused when the
entries would not leave a slot vacant, and when the slots cannot be obtained. Growth doubles the
slots and shrinking halves them; `reserve` and `shrinkToFit` go to the slots that fit a number of
entries. A refused change is an error of `resize` and `reserve`; `shrinkToFit` passes over it.
-/

namespace OpenAddressing

universe u

namespace Table

variable {α : Type u}

/-- Places further entries one after another, up to the first that finds no vacant slot. -/
def refill : Table α → List (Slot α) → Outcome (Table α) Unit
  | t, [] => ⟨.ok (), t⟩
  | ⟨slots, size, resizing⟩, slot :: rest =>
    match slots.place slot with
    | (slots, some _) => refill ⟨slots, size + 1, resizing⟩ rest
    | (slots, none) => ⟨.error (.capacity slots.capacity), ⟨slots, size, resizing⟩⟩

/-- Placing further entries keeps the number of slots. -/
@[simp] theorem capacity_refill (t : Table α) (rest : List (Slot α)) :
    (refill t rest).state.capacity = t.capacity := by
  induction rest generalizing t with
  | nil => rfl
  | cons slot rest ih =>
    have hp := Slots.capacity_place t.slots slot
    unfold refill
    split
    · rename_i slots _ heq
      rw [ih]
      simpa [capacity, heq] using hp
    · rename_i slots heq
      simpa [capacity, heq] using hp

/-- Rehashes every entry into `capacity` slots. -/
def resizeTo (t : Table α) (available : Allocator) (capacity : Nat) : Outcome (Table α) Unit :=
  if capacity = t.capacity then ⟨.ok (), t⟩
  else if capacity < minCapacity ∨ capacity ≤ t.size then ⟨.error (.capacity capacity), t⟩
  else if available capacity then
    let moved := refill ⟨Slots.vacant capacity, 0, true⟩ t.entries
    ⟨moved.answer, { moved.state with resizing := false }⟩
  else ⟨.error (.allocation capacity), { t with resizing := false }⟩

/-- A rehash that succeeds reaches the slots asked for. -/
theorem capacity_resizeTo {t : Table α} {available : Allocator} {capacity : Nat}
    (h : (t.resizeTo available capacity).answer = .ok ()) :
    (t.resizeTo available capacity).state.capacity = capacity := by
  unfold resizeTo at h ⊢
  split
  · simp_all
  · split
    · simp_all
    · split
      · exact (capacity_refill _ _).trans (Slots.capacity_vacant _)
      · simp_all

/-- Doubles or halves the number of slots, but never goes below the fewest slots. -/
def resize (t : Table α) (available : Allocator) : Adjustment → Outcome (Table α) Unit
  | .grow =>
    match Count.mul? t.capacity 2 with
    | none => ⟨.error (.allocation Count.largest), t⟩
    | some capacity => t.resizeTo available capacity
  | .shrink => t.resizeTo available (max (t.capacity / 2) minCapacity)
  | .keep => ⟨.ok (), t⟩

/-- Makes room for `additional` more entries, so that none of them makes the table grow. -/
def reserve (t : Table α) (available : Allocator) (additional : Nat) : Outcome (Table α) Unit :=
  match (Count.add? t.size additional).bind fittingCapacity? with
  | none => ⟨.error (.allocation Count.largest), t⟩
  | some capacity =>
    if t.capacity < capacity then t.resizeTo available capacity else ⟨.ok (), t⟩

/-- Goes down to the slots that fit the entries, if they are fewer and can be obtained. -/
def shrinkToFit (t : Table α) (available : Allocator) : Table α :=
  match fittingCapacity? t.size with
  | none => t
  | some capacity =>
    if capacity < t.capacity then (t.resizeTo available capacity).state else t

end Table

end OpenAddressing
