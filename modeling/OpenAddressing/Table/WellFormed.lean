import OpenAddressing.Slots.Order
import OpenAddressing.Table.Basic

/-!
# Well-formed tables

What every operation keeps: the number of slots is a power of two and at least four, the size counts
the entries, and the ring is in robin-hood order and somewhere starts a run.
-/

namespace OpenAddressing

universe u

namespace Table

variable {α : Type u}

/-- A table as the operations make it. -/
structure WellFormed (t : Table α) : Prop where
  /-- The number of slots is a power of two. -/
  capacity_eq : t.capacity.isPowerOfTwo
  /-- There are at least four slots. -/
  minCapacity_le : minCapacity ≤ t.capacity
  /-- The size counts the entries. -/
  size_eq : t.size = t.entries.length
  /-- The ring is in robin-hood order. -/
  ordered : t.slots.Ordered
  /-- A run starts somewhere. -/
  hasRunStart : t.slots.HasRunStart

/-- A table without entries is well formed on every admissible number of slots. -/
theorem wellFormed_vacant {n : Nat} (hn : n.isPowerOfTwo) (h : minCapacity ≤ n) :
    (vacant n : Table α).WellFormed where
  capacity_eq := by rwa [capacity_vacant]
  minCapacity_le := by simpa using h
  size_eq := by simp [vacant, entries]
  ordered := Slots.ordered_vacant _
  hasRunStart := ⟨0, by simpa [vacant] using Nat.pos_of_isPowerOfTwo hn, by simp [vacant]⟩

/-- The empty table is well formed. -/
theorem wellFormed_empty : (empty : Table α).WellFormed :=
  wellFormed_vacant ⟨2, rfl⟩ (Nat.le_refl minCapacity)

/-- A new table is well formed. -/
theorem wellFormed_withCapacity {available : Allocator} {n : Nat} {t : Table α}
    (h : withCapacity available n = .ok t) : t.WellFormed := by
  unfold withCapacity at h
  split at h
  · simp at h
  · rename_i capacity hc
    split at h
    · obtain rfl := Except.ok.inj h
      unfold Count.ceilPowerOfTwo? at hc
      split at hc
      · obtain rfl := Option.some.inj hc
        have hle := Count.le_ceilPowerOfTwo (max n minCapacity)
        exact wellFormed_vacant (Count.isPowerOfTwo_ceilPowerOfTwo _) (by omega)
      · simp at hc
    · simp at h

end Table

end OpenAddressing
