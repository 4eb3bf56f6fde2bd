import OpenAddressing.Slots.Basic

/-!
# Closing a gap

Deletion leaves no marker. The entries after the gap move back by one slot each, up to the first
slot that is vacant or holds an entry at its home bucket, so that every entry stays on a run of
taken slots from its home bucket.
-/

namespace OpenAddressing

universe u

namespace Slots

variable {α : Type u}

/-- Moves entries back into the vacant slot `gap`, at most `left` of them. -/
def shiftBack : (left : Nat) → Slots α → (gap : Nat) → Slots α
  | 0, s, _ => s
  | left + 1, s, gap =>
    match s.get (gap + 1) with
    | none => s
    | some slot =>
      if 0 < displacement slot.hash (gap + 1) s.capacity then
        shiftBack left ((s.set gap (some slot)).set (gap + 1) none) (gap + 1)
      else s

/-- Takes the entry out of the slot at `index` and closes the gap. -/
def erase (s : Slots α) (index : Nat) : Slots α :=
  shiftBack (s.capacity - 1) (s.set index none) index

@[simp] theorem capacity_shiftBack (left : Nat) (s : Slots α) (gap : Nat) :
    (shiftBack left s gap).capacity = s.capacity := by
  induction left generalizing s gap with
  | zero => rfl
  | succ left ih =>
    simp only [shiftBack]
    split
    · rfl
    · split <;> simp [ih]

@[simp] theorem capacity_erase (s : Slots α) (index : Nat) :
    (s.erase index).capacity = s.capacity := by
  simp [erase]

end Slots

end OpenAddressing
