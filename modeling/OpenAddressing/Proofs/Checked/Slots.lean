import Mathlib.Data.Nat.Notation
import OpenAddressing.Proofs.Slots.Depth
import OpenAddressing.Proofs.Slots.Search
import OpenAddressing.Proofs.Table.Thresholds
import OpenAddressing.Slots.BackwardShift

/-!
# Computing with machine words, slot by slot

On a machine a count is a word. A sum or a difference that is no word, an index beyond the last
slot, a key cut beyond its end and an assertion that fails all break a computation off. The
operations here say so: they answer a `Fault` instead. Indices are computed the way a machine does
it, each taken round the ring by a mask as soon as it is computed.

On a ring whose slots are a power of two and can be counted, searching, placing and closing a gap
never come to a fault and do what the operations on unbounded numbers do (`checkedSearch_eq`,
`checkedPlace_eq`, `checkedErase_eq`). The step to it is that a displacement, which adds an index to
the number of slots, stays within a word (`checkedDisplacement_eq`): the slots of a ring are at most
half of the words.
-/

namespace OpenAddressing

universe u v

/-- Why a computation with machine words breaks off. -/
inductive Fault where
  /-- A sum is no word. -/
  | overflow
  /-- A difference is below zero. -/
  | underflow
  /-- An index is beyond the last slot. -/
  | index
  /-- A key is cut beyond its end. -/
  | slice
  /-- An assertion fails. -/
  | assertion
deriving DecidableEq

/-- What a computation with machine words comes to, unless it breaks off. -/
abbrev Checked (β : Type u) := Except Fault β

namespace Checked

variable {β : Type u} {γ : Type v}

/-- Goes on with the result, unless the computation broke off. -/
def andThen (c : Checked β) (next : β → Checked γ) : Checked γ :=
  match c with
  | .ok b => next b
  | .error fault => .error fault

@[simp] theorem andThen_ok (b : β) (next : β → Checked γ) :
    andThen (.ok b) next = next b := rfl

/-- The sum, if it is a word. -/
def add (a b : ℕ) : Checked ℕ := if a + b < Count.limit then .ok (a + b) else .error .overflow

/-- The difference, if it is not below zero. -/
def sub (a b : ℕ) : Checked ℕ := if b ≤ a then .ok (a - b) else .error .underflow

/-- Goes on if `p` holds, and breaks off otherwise. -/
def require (p : Prop) [Decidable p] (next : Checked β) : Checked β :=
  if p then next else .error .assertion

theorem add_of_lt {a b : ℕ} (h : a + b < Count.limit) : add a b = .ok (a + b) := if_pos h

theorem sub_of_le {a b : ℕ} (h : b ≤ a) : sub a b = .ok (a - b) := if_pos h

theorem require_of {p : Prop} [Decidable p] (h : p) (next : Checked β) : require p next = next :=
  if_pos h

end Checked

/-! ## Displacements -/

/-- A number of slots that a ring can have: a power of two that can be counted. -/
structure RingSize (n : ℕ) : Prop where
  /-- It is a power of two. -/
  isPowerOfTwo : n.isPowerOfTwo
  /-- It can be counted. -/
  lt_limit : n < Count.limit

namespace RingSize

variable {n : ℕ}

theorem pos (h : RingSize n) : 0 < n := Nat.pos_of_isPowerOfTwo h.isPowerOfTwo

/-- A word can count the slots of two such rings. -/
theorem mul_two_le (h : RingSize n) : n * 2 ≤ Count.limit :=
  Count.mul_two_le_limit h.isPowerOfTwo h.lt_limit

/-- The mask takes an index round the ring. -/
theorem and_mask (h : RingSize n) (i : ℕ) : i &&& n - 1 = i % n := by
  obtain ⟨k, rfl⟩ := h.isPowerOfTwo
  exact Nat.and_two_pow_sub_one_eq_mod i k

/-- The mask is a difference that is not below zero. -/
theorem checked_mask (h : RingSize n) : Checked.sub n 1 = .ok (n - 1) := Checked.sub_of_le h.pos

/-- The index after one on the ring is a word. -/
theorem checked_succ (h : RingSize n) (i : ℕ) : Checked.add (i % n) 1 = .ok (i % n + 1) := by
  have hlt : i % n < n := Nat.mod_lt i h.pos
  have hlimit := h.lt_limit
  exact Checked.add_of_lt (by omega)

/-- It is the next index round the ring. -/
theorem succ_and_mask (h : RingSize n) (i : ℕ) : i % n + 1 &&& n - 1 = (i + 1) % n := by
  rw [h.and_mask, Nat.mod_add_mod]

end RingSize

/-- How many slots `index` lies past the home bucket of `hash`, by masks. -/
def checkedDisplacement (hash : UInt32) (index capacity : ℕ) : Checked ℕ :=
  .require capacity.isPowerOfTwo <|
  (Checked.sub capacity 1).andThen fun mask =>
  (Checked.add index capacity).andThen fun past =>
  (Checked.sub past (hash.toNat &&& mask)).andThen fun steps =>
  .ok (steps &&& mask)

/-- At a slot of a ring it is the displacement. -/
theorem checkedDisplacement_eq {n : ℕ} (hn : RingSize n) (hash : UInt32) (index : ℕ) :
    checkedDisplacement hash (index % n) n = .ok (displacement hash index n) := by
  have hindex : index % n < n := Nat.mod_lt index hn.pos
  have hhome : hash.toNat % n < n := Nat.mod_lt _ hn.pos
  have hpast : Checked.add (index % n) n = .ok (index % n + n) := by
    have htwice := hn.mul_two_le
    exact Checked.add_of_lt (by omega)
  have hsteps : Checked.sub (index % n + n) (hash.toNat % n)
      = .ok (index % n + n - hash.toNat % n) := Checked.sub_of_le (by omega)
  rw [checkedDisplacement, Checked.require_of hn.isPowerOfTwo, hn.checked_mask, hpast,
    Checked.andThen_ok, Checked.andThen_ok, hn.and_mask, hsteps, Checked.andThen_ok, hn.and_mask,
    ← displacement_mod hash index hn.pos, displacement, home]

/-- On half of all words as slots, the last index can still be added. -/
example : checkedDisplacement 5 (2 ^ 63 - 1) (2 ^ 63) = .ok (2 ^ 63 - 6) := by decide +kernel

/-- An index twice as large could not. -/
example : checkedDisplacement 5 (2 ^ 63) (2 ^ 63) = .error .overflow := by decide +kernel

namespace Slots

variable {α : Type u} {s : Slots α}

/-! ## Reading and writing -/

/-- Reads the slot at `index`, which must be one of the ring. -/
def checkedGet (s : Slots α) (index : ℕ) : Checked (Option (Slot α)) :=
  match s.cells[index]? with
  | some cell => .ok cell
  | none => .error .index

/-- Writes the slot at `index`, which must be one of the ring. -/
def checkedSet (s : Slots α) (index : ℕ) (cell : Option (Slot α)) : Checked (Slots α) :=
  if index < s.cells.size then .ok ⟨s.cells.setIfInBounds index cell⟩ else .error .index

/-- A slot of the ring is read. -/
theorem checkedGet_of_lt {index : ℕ} (h : index < s.capacity) :
    s.checkedGet index = .ok (s.get index) := by
  have hlt : index < s.cells.size := h
  rw [checkedGet, Array.getElem?_eq_getElem hlt, get_of_lt s hlt]

/-- A slot of the ring is written. -/
theorem checkedSet_of_lt {index : ℕ} (h : index < s.capacity) (cell : Option (Slot α)) :
    s.checkedSet index cell = .ok (s.set index cell) := by
  have hlt : index < s.cells.size := h
  rw [checkedSet, set, if_pos hlt, Nat.mod_eq_of_lt hlt]

/-- An index taken round the ring is read. -/
theorem checkedGet_mod (hpos : 0 < s.capacity) (index : ℕ) :
    s.checkedGet (index % s.capacity) = .ok (s.get index) := by
  rw [checkedGet_of_lt (Nat.mod_lt index hpos), get_mod]

/-- It is written. -/
theorem checkedSet_mod (hpos : 0 < s.capacity) (index : ℕ) (cell : Option (Slot α)) :
    s.checkedSet (index % s.capacity) cell = .ok (s.set index cell) :=
  if_pos (Nat.mod_lt index hpos)

/-! ## Searching -/

/-- The search after `passed` slots, at `index` and with at most `left` slots still to visit. -/
def checkedSearchFrom (s : Slots α) (hash : UInt32) (eq : α → Checked Bool) (mask : ℕ) :
    (left passed index : ℕ) → Checked (Option ℕ)
  | 0, _, _ => .ok none
  | left + 1, passed, index =>
    (s.checkedGet index).andThen fun cell =>
    match cell with
    | none => .ok none
    | some slot =>
      (checkedDisplacement slot.hash index s.capacity).andThen fun reached =>
      if reached < passed then .ok none
      else
        (if slot.hash = hash then eq slot.item else .ok false : Checked Bool).andThen fun found =>
        if found then .ok (some index)
        else
          (Checked.add index 1).andThen fun next =>
          s.checkedSearchFrom hash eq mask left (passed + 1) (next &&& mask)

/-- The index of the first entry on the probe path with this hash whose item `eq` accepts. -/
def checkedSearch (s : Slots α) (hash : UInt32) (eq : α → Checked Bool) : Checked (Option ℕ) :=
  (Checked.sub s.capacity 1).andThen fun mask =>
  s.checkedSearchFrom hash eq mask s.capacity 0 (hash.toNat &&& mask)

/-- A search by masks visits the same slots. -/
theorem checkedSearchFrom_eq (hs : RingSize s.capacity) (hash : UInt32) {eq : α → Checked Bool}
    {eq' : α → Bool} (heq : ∀ x, eq x = .ok (eq' x)) (left passed : ℕ) :
    s.checkedSearchFrom hash eq (s.capacity - 1) left passed
        ((home hash s.capacity + passed) % s.capacity)
      = .ok (s.searchFrom hash eq' left passed) := by
  induction left generalizing passed with
  | zero => rfl
  | succ left ih =>
    rw [checkedSearchFrom, searchFrom, checkedGet_mod hs.pos, Checked.andThen_ok]
    cases hget : s.get (home hash s.capacity + passed) with
    | none => rfl
    | some slot =>
      -- The predicate is asked only where the hashes agree, and answers without a fault.
      have hfound : (if slot.hash = hash then eq slot.item else .ok false : Checked Bool)
          = .ok (decide (slot.hash = hash ∧ eq' slot.item)) := by
        by_cases hhash : slot.hash = hash
        · simp [hhash, heq]
        · simp [hhash]
      simp only [checkedDisplacement_eq hs, hfound, hs.checked_succ, hs.succ_and_mask,
        Checked.andThen_ok, decide_eq_true_eq, Nat.add_assoc, ih]
      split_ifs <;> rfl

/-- So it comes to the same slot. -/
theorem checkedSearch_eq (hs : RingSize s.capacity) (hash : UInt32) {eq : α → Checked Bool}
    {eq' : α → Bool} (heq : ∀ x, eq x = .ok (eq' x)) :
    s.checkedSearch hash eq = .ok (s.search hash eq') := by
  have hfrom := checkedSearchFrom_eq hs hash heq s.capacity 0
  have hhome : home hash s.capacity % s.capacity = home hash s.capacity := Nat.mod_mod ..
  rw [Nat.add_zero, hhome] at hfrom
  rw [checkedSearch, hs.checked_mask, Checked.andThen_ok, hs.and_mask]
  exact hfrom

/-! ## Placing -/

/-- Placement with `carried` in hand at `index` and at most `left` slots still to visit. -/
def checkedPlaceFrom (mask : ℕ) : (left : ℕ) → Slots α → (carried : Slot α) → (index : ℕ) →
    (settled : Option ℕ) → Checked (Slots α × Option ℕ)
  | 0, s, _, _, _ => .ok (s, none)
  | left + 1, s, carried, index, settled =>
    (s.checkedGet index).andThen fun cell =>
    match cell with
    | none =>
      (s.checkedSet index (some carried)).andThen fun s => .ok (s, some (settled.getD index))
    | some resident =>
      (checkedDisplacement resident.hash index s.capacity).andThen fun reached =>
      (checkedDisplacement carried.hash index s.capacity).andThen fun wanted =>
      (Checked.add index 1).andThen fun next =>
      if reached < wanted then
        (s.checkedSet index (some carried)).andThen fun s =>
        checkedPlaceFrom mask left s resident (next &&& mask) (some (settled.getD index))
      else checkedPlaceFrom mask left s carried (next &&& mask) settled

/-- Places an entry, and answers the index it has taken, or `none` if no slot was vacant. -/
def checkedPlace (s : Slots α) (slot : Slot α) : Checked (Slots α × Option ℕ) :=
  (Checked.sub s.capacity 1).andThen fun mask =>
  checkedPlaceFrom mask s.capacity s slot (slot.hash.toNat &&& mask) none

/-- Placement by masks visits the same slots, and settles at the same index of the ring. -/
theorem checkedPlaceFrom_eq {n : ℕ} (hn : RingSize n) (left : ℕ) {s : Slots α} (hs : s.capacity = n)
    (carried : Slot α) (index : ℕ) (settled : Option ℕ) :
    checkedPlaceFrom (n - 1) left s carried (index % n) (settled.map (· % n))
      = .ok ((placeFrom left s carried index settled).1,
        (placeFrom left s carried index settled).2.map (· % n)) := by
  induction left generalizing s carried index settled with
  | zero => rfl
  | succ left ih =>
    subst hs
    -- The index answered is the one of the ring, the one followed counts on past its end.
    have hsettled : (settled.map (· % s.capacity)).getD (index % s.capacity)
        = settled.getD index % s.capacity := by
      cases settled <;> rfl
    rw [checkedPlaceFrom, placeFrom, checkedGet_mod hn.pos, Checked.andThen_ok]
    cases hget : s.get index with
    | none =>
      dsimp only
      rw [checkedSet_mod hn.pos, Checked.andThen_ok, hsettled]
      rfl
    | some resident =>
      simp only [checkedDisplacement_eq hn, hn.checked_succ, hn.succ_and_mask, Checked.andThen_ok]
      split
      · rw [checkedSet_mod hn.pos, Checked.andThen_ok, hsettled]
        exact ih (capacity_set ..) resident (index + 1) (some (settled.getD index))
      · exact ih rfl carried (index + 1) settled

/-- So a newcomer takes the same slot. -/
theorem checkedPlace_eq (hs : RingSize s.capacity) (slot : Slot α) :
    s.checkedPlace slot = .ok (s.place slot) := by
  have hfrom := checkedPlaceFrom_eq hs s.capacity rfl slot (home slot.hash s.capacity) none
  have hhome : home slot.hash s.capacity % s.capacity = home slot.hash s.capacity :=
    Nat.mod_mod ..
  have hcap := capacity_placeFrom s.capacity s slot (home slot.hash s.capacity) none
  rw [hhome, home] at hfrom
  rw [checkedPlace, place, home, hs.checked_mask, Checked.andThen_ok, hs.and_mask]
  refine hfrom.trans ?_
  rw [home] at hcap
  dsimp only
  rw [hcap]

/-! ## Closing a gap -/

/-- Moves entries back into the vacant slot `gap`, at most `left` of them. -/
def checkedShiftBack (mask : ℕ) : (left : ℕ) → Slots α → (gap : ℕ) → Checked (Slots α)
  | 0, s, _ => .ok s
  | left + 1, s, gap =>
    (Checked.add gap 1).andThen fun next =>
    (s.checkedGet (next &&& mask)).andThen fun cell =>
    match cell with
    | none => .ok s
    | some slot =>
      (checkedDisplacement slot.hash (next &&& mask) s.capacity).andThen fun reached =>
      if 0 < reached then
        (s.checkedSet gap (some slot)).andThen fun s =>
        (s.checkedSet (next &&& mask) none).andThen fun s =>
        checkedShiftBack mask left s (next &&& mask)
      else .ok s

/-- Takes the entry out of the slot at `index` and closes the gap. -/
def checkedErase (s : Slots α) (index : ℕ) : Checked (Slots α) :=
  (Checked.sub s.capacity 1).andThen fun mask =>
  (s.checkedSet index none).andThen fun s => checkedShiftBack mask (s.capacity - 1) s index

/-- Entries move back into the same slots. -/
theorem checkedShiftBack_eq {n : ℕ} (hn : RingSize n) (left : ℕ) {s : Slots α} (hs : s.capacity = n)
    (gap : ℕ) : checkedShiftBack (n - 1) left s (gap % n) = .ok (shiftBack left s gap) := by
  induction left generalizing s gap with
  | zero => rfl
  | succ left ih =>
    subst hs
    rw [checkedShiftBack, shiftBack, hn.checked_succ, Checked.andThen_ok, hn.succ_and_mask,
      checkedGet_mod hn.pos, Checked.andThen_ok]
    cases hget : s.get (gap + 1) with
    | none => rfl
    | some slot =>
      simp only [checkedDisplacement_eq hn, Checked.andThen_ok]
      split
      · -- The second write is to the ring as the first has left it.
        have hset : (s.set gap (some slot)).capacity = s.capacity := capacity_set ..
        have hvacated := checkedSet_mod (s := s.set gap (some slot)) (by rw [hset]; exact hn.pos)
          (gap + 1) none
        rw [hset] at hvacated
        rw [checkedSet_mod hn.pos, Checked.andThen_ok, hvacated, Checked.andThen_ok]
        exact ih (by rw [capacity_set, hset]) (gap + 1)
      · rfl

/-- So a gap is closed by the same entries. -/
theorem checkedErase_eq (hs : RingSize s.capacity) (index : ℕ) :
    s.checkedErase (index % s.capacity) = .ok (s.erase index) := by
  have hset : (s.set index none).capacity = s.capacity := capacity_set ..
  rw [checkedErase, erase, hs.checked_mask, Checked.andThen_ok, checkedSet_mod hs.pos,
    Checked.andThen_ok, hset]
  exact checkedShiftBack_eq hs _ hset index

end Slots

end OpenAddressing
