import OpenAddressing.Slots.Basic

/-!
# Robin-hood order

A ring is in robin-hood order when an entry away from its home bucket directly follows another
entry, and is displaced by at most one slot more than that. Going back from an entry, displacements
then fall by at most one a slot and reach zero before any vacant slot, so the slots from the home
bucket of an entry to the entry itself are all taken. Searching and closing gaps rest on this order,
and placing keeps it.

The order is stated over all indices and decided on one round of the ring (`ordered_iff`).
-/

namespace OpenAddressing

universe u

/-- Displacements go round the ring. -/
theorem displacement_mod (hash : UInt32) (index : Nat) {capacity : Nat} (h : 0 < capacity) :
    displacement hash (index % capacity) capacity = displacement hash index capacity := by
  have hlt : home hash capacity < capacity := Nat.mod_lt _ h
  unfold displacement
  rw [Nat.add_sub_assoc (by omega), Nat.add_sub_assoc (by omega), Nat.mod_add_mod]

namespace Slots

variable {α : Type u}

/-- The displacement of an entry at `index` of the ring. -/
def displacementAt (s : Slots α) (index : Nat) (slot : Slot α) : Nat :=
  displacement slot.hash index s.capacity

/-- The condition of robin-hood order on the slots at `index` and after it. -/
def OrderedAt (s : Slots α) (index : Nat) : Prop :=
  match s.get index, s.get (index + 1) with
  | _, none => True
  | none, some slot => s.displacementAt (index + 1) slot = 0
  | some before, some slot =>
    s.displacementAt (index + 1) slot ≤ s.displacementAt index before + 1

instance (s : Slots α) (index : Nat) : Decidable (s.OrderedAt index) := by
  unfold OrderedAt
  split <;> infer_instance

/-- Robin-hood order. -/
def Ordered (s : Slots α) : Prop := ∀ index, s.OrderedAt index

/-- Some slot is vacant or holds an entry at its home bucket. -/
def HasRunStart (s : Slots α) : Prop :=
  ∃ index < s.capacity, ∀ slot, s.get index = some slot → s.displacementAt index slot = 0

/-- A ring of vacant slots is in order. -/
theorem ordered_vacant (n : Nat) : (vacant n : Slots α).Ordered := by
  intro index
  simp [OrderedAt]

/-- The condition at an index is the one at the same slot in the first round. -/
theorem orderedAt_mod (s : Slots α) (h : 0 < s.capacity) (index : Nat) :
    s.OrderedAt (index % s.capacity) ↔ s.OrderedAt index := by
  have h1 : s.get (index % s.capacity + 1) = s.get (index + 1) := by
    rw [← get_mod, Nat.mod_add_mod, get_mod]
  have h2 (slot : Slot α) :
      s.displacementAt (index % s.capacity + 1) slot = s.displacementAt (index + 1) slot := by
    unfold displacementAt
    rw [← displacement_mod _ (index % s.capacity + 1) h, Nat.mod_add_mod, displacement_mod _ _ h]
  have h3 (slot : Slot α) :
      s.displacementAt (index % s.capacity) slot = s.displacementAt index slot :=
    displacement_mod _ _ h
  unfold OrderedAt
  simp only [get_mod, h1, h2, h3]

/-- One round of the ring decides the order. -/
theorem ordered_iff (s : Slots α) (h : 0 < s.capacity) :
    s.Ordered ↔ ∀ index < s.capacity, s.OrderedAt index :=
  ⟨fun ho index _ => ho index, fun ho index =>
    (orderedAt_mod s h index).1 (ho _ (Nat.mod_lt _ h))⟩

end Slots

end OpenAddressing
