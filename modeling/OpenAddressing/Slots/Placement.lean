import OpenAddressing.Slots.Basic

/-!
# Placing an entry

Robin-hood placement starts at the home bucket of the incoming entry. At a taken slot the two
entries compare displacements: a resident strictly closer to its home gives way and is carried on in
place of the newcomer, and on a tie the resident stays. The entry in hand at the first vacant slot
takes it. A ring with no vacant slot is left after one round, with the last entry carried homeless.
-/

namespace OpenAddressing

universe u

namespace Slots

variable {α : Type u}

/-- Placement with `carried` in hand at `index` and at most `left` slots still to visit; `settled`
is the index that the newcomer has taken, if it has. Indices count on past the end of the ring. -/
def placeFrom : (left : Nat) → Slots α → (carried : Slot α) → (index : Nat) →
    (settled : Option Nat) → Slots α × Option Nat
  | 0, s, _, _, _ => (s, none)
  | left + 1, s, carried, index, settled =>
    match s.get index with
    | none => (s.set index (some carried), some (settled.getD index))
    | some resident =>
      if displacement resident.hash index s.capacity
          < displacement carried.hash index s.capacity then
        placeFrom left (s.set index (some carried)) resident (index + 1)
          (some (settled.getD index))
      else
        placeFrom left s carried (index + 1) settled

/-- Places an entry, and answers the index it has taken, or `none` if no slot was vacant. -/
def place (s : Slots α) (slot : Slot α) : Slots α × Option Nat :=
  match placeFrom s.capacity s slot (home slot.hash s.capacity) none with
  | (s, settled) => (s, settled.map (· % s.capacity))

@[simp] theorem capacity_placeFrom (left : Nat) (s : Slots α) (carried : Slot α) (index : Nat)
    (settled : Option Nat) : (placeFrom left s carried index settled).1.capacity = s.capacity := by
  induction left generalizing s carried index settled with
  | zero => rfl
  | succ left ih =>
    simp only [placeFrom]
    split
    · simp
    · split <;> simp [ih]

@[simp] theorem capacity_place (s : Slots α) (slot : Slot α) :
    (s.place slot).1.capacity = s.capacity :=
  capacity_placeFrom ..

end Slots

end OpenAddressing
