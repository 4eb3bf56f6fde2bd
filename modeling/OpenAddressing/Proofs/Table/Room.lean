import OpenAddressing.Proofs.Table.Addition

/-!
# Room for so many new entries

A table has room for a number of new entries when with all of them it stays below three quarters
(`RoomFor`). A reservation that succeeds makes such room (`roomFor_of_reserve`). An insertion then
neither grows the table nor fails, whatever the policy and the slots that can be obtained, and uses
up room only if the entry is a new one (`RoomFor.insert`). So the room lasts for insertions and
lookups one after another, of which only so many may insert a new entry (`steady_of_roomFor`), and
the slots stay.
-/

namespace OpenAddressing

universe u

namespace Table

variable {α : Type u} {t : Table α} {count rest : ℕ} {hash : UInt32} {eq : α → Bool}

/-! ## Room -/

/-- With so many new entries the table stays below three quarters, by products that are counts. -/
structure RoomFor (count : ℕ) (t : Table α) : Prop where
  /-- The table is well formed. -/
  wellFormed : t.WellFormed
  /-- With the new entries it stays below three quarters. -/
  load : 4 * (t.size + count) < 3 * t.capacity
  /-- Four times the entries are a count. -/
  lt_limit : 4 * (t.size + count) < Count.limit

/-- A reservation that succeeds makes room for as many new entries. -/
theorem roomFor_of_reserve (hw : t.WellFormed) {available : Allocator} {n : ℕ}
    (h : (t.reserve available n).answer = .ok ()) : RoomFor n (t.reserve available n).state := by
  rcases reserve_cases hw available n with ⟨-, heq⟩ | ⟨m, hm, ⟨-, -, heq⟩ | ⟨-, u, heq, hre, hcap⟩⟩
  · rw [heq] at h
    cases h
  · rw [heq] at h
    cases h
  · obtain ⟨count, hcount, hfit⟩ := Option.bind_eq_some_iff.1 hm
    obtain ⟨-, rfl⟩ := Count.add?_eq_some_iff.1 hcount
    obtain ⟨rfl, -⟩ := eq_fitting_of_fittingCapacity hfit
    have hload := (fits_fitting (t.size + n)).load
    have hsize := hre.size_eq hw
    -- The slots that fit were computed, so four times the entries are a count.
    have hlimit : (t.size + n) * 4 < Count.limit := by
      by_contra hmany
      rw [fittingCapacity?_of_le (Nat.le_of_not_lt hmany)] at hfit
      cases hfit
    rw [heq]
    refine ⟨hre.wellFormed, ?_, ?_⟩
    · show 4 * (u.size + n) < 3 * u.capacity
      omega
    · show 4 * (u.size + n) < Count.limit
      omega

namespace RoomFor

/-- Room for more new entries is room for fewer. -/
theorem mono (h : RoomFor count t) (hle : rest ≤ count) : RoomFor rest t := by
  have hload := h.load
  have hlimit := h.lt_limit
  exact ⟨h.wellFormed, by omega, by omega⟩

/-- A table with room for a new entry need not grow for it under any policy. -/
theorem adjustment_ne_grow (h : RoomFor count t) (hpos : 0 < count) (policy : ResizePolicy) :
    t.adjustment (t.size + 1) policy ≠ .grow := by
  have hload := h.load
  have hlimit := h.lt_limit
  -- Four times the entries are below the largest count, so only the exact products matter.
  intro hgrow
  obtain ⟨-, hsat⟩ := satMul_le_of_grow hgrow
  rw [Count.limit_eq] at hlimit
  unfold Count.satMul at hsat
  rw [Count.largest_eq] at hsat
  omega

/-- Overwriting an entry under its hash leaves the slots and the room. -/
theorem overwrite (h : RoomFor count t) {index : ℕ} {old slot : Slot α}
    (hold : t.slots.get index = some old) (hhash : slot.hash = old.hash) :
    ({ t with slots := t.slots.set index (some slot) } : Table α).capacity = t.capacity ∧
      RoomFor count { t with slots := t.slots.set index (some slot) } := by
  have hcap : (t.slots.set index (some slot)).capacity = t.capacity := Slots.capacity_set ..
  refine ⟨hcap, h.wellFormed.overwrite hold hhash, ?_, h.lt_limit⟩
  show 4 * (t.size + count) < 3 * (t.slots.set index (some slot)).capacity
  rw [hcap]
  exact h.load

/-- Rewriting the item found leaves the slots and the room. -/
theorem update? {β : Type*} (h : RoomFor count t) (hash : UInt32) (eq : α → Bool)
    (f : α → β × α) : (t.update? hash eq f).2.capacity = t.capacity ∧
      RoomFor count (t.update? hash eq f).2 := by
  rcases t.exists_selects_or hash eq with ⟨index, slot, hselect⟩ | hmiss
  · rw [hselect.update?_eq]
    exact h.overwrite hselect.get rfl
  · rw [update?_of_search_none hmiss]
    exact ⟨rfl, h⟩

/-- Placing a new entry uses up room for one. -/
theorem put (h : RoomFor (1 + rest) t) (slot : Slot α) :
    ∃ i u, t.put slot = ⟨.ok i, u⟩ ∧ u.capacity = t.capacity ∧ RoomFor rest u := by
  have hload := h.load
  have hlimit := h.lt_limit
  have hroom : t.size < t.capacity := by omega
  obtain ⟨i, u, hput, hwu, hcap, -⟩ := put_spec h.wellFormed hroom slot
  have hsize := size_of_put h.wellFormed hroom hput
  exact ⟨i, u, hput, hcap, hwu, by omega, by omega⟩

/-- An insertion for which there is room succeeds on the slots there are, and comes to the same
under every policy and whatever slots can be obtained. A new entry uses up room for one. -/
theorem insert (h : RoomFor ((t.find? hash eq).isNone.toNat + rest) t) (item : α) :
    ∃ old u, (∀ available policy, t.insert available policy hash item eq = ⟨.ok old, u⟩) ∧
      u.capacity = t.capacity ∧ RoomFor rest u := by
  rcases t.exists_selects_or hash eq with ⟨index, slot, hselect⟩ | hmiss
  · have hsame : (⟨slot.hash, item⟩ : Slot α).hash = slot.hash := rfl
    obtain ⟨hcap, hroom⟩ := h.overwrite hselect.get hsame
    exact ⟨some slot.item, _, fun available policy => hselect.insert_eq available policy item, hcap,
      hroom.mono (Nat.le_add_left ..)⟩
  · -- The entry is a new one, and the table need not grow for it.
    rw [find?_of_search_none hmiss] at h
    obtain ⟨i, u, hput, hcap, hroom⟩ := put h ⟨hash, item⟩
    refine ⟨none, u, fun available policy => ?_, hcap, hroom⟩
    have hkeep := h.adjustment_ne_grow (Nat.lt_add_right rest Nat.one_pos) policy
    rw [insert_of_search_none hmiss, insertNew_of_ne_grow hkeep, hput, Outcome.andThen_ok]

end RoomFor

/-! ## Insertions and lookups one after another -/

/-- An insertion or a lookup, with its arguments and the slots that can be obtained during it. -/
inductive Use (α : Type u) where
  /-- Insert an item, in the place of one that is accepted. -/
  | insert (available : Allocator) (policy : ResizePolicy) (hash : UInt32) (item : α)
      (eq : α → Bool)
  /-- Look up an item. -/
  | find (hash : UInt32) (eq : α → Bool)
  /-- Look up an item and rewrite it. -/
  | update (hash : UInt32) (eq : α → Bool) (f : α → α)

/-- Performs an insertion or a lookup, and answers the item replaced or found, if any. -/
def use (t : Table α) : Use α → Outcome (Table α) (Option α)
  | .insert available policy hash item eq => t.insert available policy hash item eq
  | .find hash eq => ⟨.ok (t.find? hash eq), t⟩
  | .update hash eq f =>
    ⟨.ok (t.update? hash eq fun item => (f item, f item)).1,
      (t.update? hash eq fun item => (f item, f item)).2⟩

/-- How many new entries it inserts, or is asked to: one if it is an insertion and no stored entry
matches, and none otherwise. -/
def fresh (t : Table α) : Use α → ℕ
  | .insert _ _ hash _ eq => (t.find? hash eq).isNone.toNat
  | _ => 0

/-- How many of the insertions and lookups insert a new entry. -/
def newcomers (t : Table α) : List (Use α) → ℕ
  | [] => 0
  | use :: rest => t.fresh use + (t.use use).state.newcomers rest

/-- Each of the insertions and lookups succeeds and leaves the number of slots as it is. -/
def Steady (t : Table α) : List (Use α) → Prop
  | [] => True
  | use :: rest => (∃ found, (t.use use).answer = .ok found) ∧
      (t.use use).state.capacity = t.capacity ∧ (t.use use).state.Steady rest

/-- An insertion or lookup for which there is room succeeds on the slots there are, and uses up no
more room than it has new entries. -/
theorem RoomFor.use {use : Use α} (h : RoomFor (t.fresh use + rest) t) :
    (∃ found, (t.use use).answer = .ok found) ∧ (t.use use).state.capacity = t.capacity ∧
      RoomFor rest (t.use use).state := by
  cases use with
  | insert available policy hash item eq =>
    obtain ⟨old, u, hinsert, hcap, hrest⟩ := h.insert item
    rw [Table.use, hinsert]
    exact ⟨⟨old, rfl⟩, hcap, hrest⟩
  | find hash eq => exact ⟨⟨_, rfl⟩, rfl, h.mono (Nat.le_add_left ..)⟩
  | update hash eq f =>
    obtain ⟨hcap, hroom⟩ := h.update? hash eq fun item => (f item, f item)
    exact ⟨⟨_, rfl⟩, hcap, hroom.mono (Nat.le_add_left ..)⟩

/-- A table with room for the new entries of insertions and lookups is steady under these. -/
theorem steady_of_roomFor {uses : List (Use α)} (h : RoomFor (t.newcomers uses) t) :
    t.Steady uses := by
  induction uses generalizing t with
  | nil => trivial
  | cons use rest ih =>
    -- The first leaves room for the new entries of the rest.
    obtain ⟨hanswer, hcap, hrest⟩ := RoomFor.use h
    exact ⟨hanswer, hcap, ih hrest⟩

end Table

end OpenAddressing
