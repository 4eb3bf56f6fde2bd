import OpenAddressing.Slots.Basic

/-!
# Searching a ring

A search for an entry starts at the home bucket of its hash and follows the ring. It stops at a
vacant slot, and at an entry whose displacement is below the number of slots passed: in robin-hood
order the entry sought would sit before either of them. It visits no slot twice.
-/

namespace OpenAddressing

universe u

namespace Slots

variable {α : Type u}

/-- The search after `passed` slots, with at most `left` slots still to visit. -/
def searchFrom (s : Slots α) (hash : UInt32) (eq : α → Bool) : (left passed : Nat) → Option Nat
  | 0, _ => none
  | left + 1, passed =>
    let index := home hash s.capacity + passed
    match s.get index with
    | none => none
    | some slot =>
      if displacement slot.hash index s.capacity < passed then none
      else if slot.hash = hash ∧ eq slot.item then some (index % s.capacity)
      else s.searchFrom hash eq left (passed + 1)

/-- The index of the first entry on the probe path with this hash whose item `eq` accepts. -/
def search (s : Slots α) (hash : UInt32) (eq : α → Bool) : Option Nat :=
  s.searchFrom hash eq s.capacity 0

/-- What a search finds has the hash sought and is accepted. -/
theorem get_of_searchFrom {s : Slots α} {hash : UInt32} {eq : α → Bool} {left passed i : Nat}
    (h : s.searchFrom hash eq left passed = some i) :
    ∃ slot, s.get i = some slot ∧ slot.hash = hash ∧ eq slot.item = true := by
  induction left generalizing passed with
  | zero => simp [searchFrom] at h
  | succ left ih =>
    simp only [searchFrom] at h
    split at h
    · simp at h
    · rename_i slot hslot
      split at h
      · simp at h
      · split at h
        · rename_i hm
          obtain rfl := Option.some.inj h
          exact ⟨slot, by simpa using hslot, hm⟩
        · exact ih h

/-- What a search finds has the hash sought and is accepted. -/
theorem get_of_search {s : Slots α} {hash : UInt32} {eq : α → Bool} {i : Nat}
    (h : s.search hash eq = some i) :
    ∃ slot, s.get i = some slot ∧ slot.hash = hash ∧ eq slot.item = true :=
  get_of_searchFrom h

end Slots

end OpenAddressing
