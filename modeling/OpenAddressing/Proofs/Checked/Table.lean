import OpenAddressing.Proofs.Checked.Slots
import OpenAddressing.Proofs.Table.Sizes

/-!
# Computing with machine words, by table

The operations of a table that look up, insert, remove and rehash, computed with machine words. They
add to the size and take from it, where the operations on slots take indices round the ring. A table
whose slots are a ring that can be counted and whose size counts its entries (`Counted`) has room
for every such sum and difference: the size is at most the number of slots, and there is an entry
wherever one is taken out.

So none of them comes to a fault, and each does what the operation on unbounded numbers does
(`checkedInsert_eq`, `checkedRemove_eq`, `checkedReserve_eq` and so on).
-/

namespace OpenAddressing

universe u v w

namespace Checked

variable {σ : Type u} {β : Type v} {γ : Type w}

/-- Goes on with the answer and the state of an outcome, unless the operation failed. -/
def onward (c : Checked (Outcome σ β)) (next : β → σ → Checked (Outcome σ γ)) :
    Checked (Outcome σ γ) :=
  c.andThen fun outcome =>
  match outcome with
  | ⟨.ok b, s⟩ => next b s
  | ⟨.error e, s⟩ => .ok ⟨.error e, s⟩

/-- What goes on without a fault is the outcome that goes on. -/
theorem onward_ok {o : Outcome σ β} {next : β → σ → Checked (Outcome σ γ)}
    {next' : β → σ → Outcome σ γ} (h : ∀ b, next b o.state = .ok (next' b o.state)) :
    onward (.ok o) next = .ok (o.andThen next') := by
  obtain ⟨_ | b, s⟩ := o
  · rfl
  · exact h b

end Checked

namespace Table

variable {α : Type u} {β : Type v} {t u : Table α} {hash : UInt32} {eq : α → Checked Bool}
  {eq' : α → Bool}

/-- A table as the operations make it, on slots that can be counted. -/
structure Counted (t : Table α) : Prop where
  /-- It is well formed. -/
  wellFormed : t.WellFormed
  /-- Its slots can be counted. -/
  lt_limit : t.capacity < Count.limit

namespace Counted

/-- The slots of such a table are a ring that can be counted. -/
theorem ringSize (hc : t.Counted) : RingSize t.slots.capacity :=
  ⟨hc.wellFormed.capacity_eq, hc.lt_limit⟩

/-- One entry more can be counted. -/
theorem checked_succ (hc : t.Counted) : Checked.add t.size 1 = .ok (t.size + 1) := by
  have hsize := hc.wellFormed.size_le
  have htwice := hc.ringSize.mul_two_le
  have hmin := hc.wellFormed.minCapacity_le
  refine Checked.add_of_lt ?_
  unfold minCapacity capacity at *
  omega

/-- Where there is an entry, one less can be counted. -/
theorem checked_pred (hc : t.Counted) {index : ℕ} {slot : Slot α}
    (hget : t.slots.get index = some slot) : Checked.sub t.size 1 = .ok (t.size - 1) := by
  have hmem := Slots.mem_contents_of_get hc.wellFormed.capacity_pos hget
  have hpos : 0 < t.size := by
    rw [hc.wellFormed.size_eq_card]
    exact Multiset.card_pos_iff_exists_mem.2 ⟨slot, hmem⟩
  exact Checked.sub_of_le hpos

/-- Every call keeps a table so. -/
theorem step (hc : t.Counted) (h : Step t u) : u.Counted :=
  ⟨h.wellFormed hc.wellFormed, h.capacity_lt_limit hc.wellFormed hc.lt_limit⟩

/-- So does a walk that rewrites the items it passes. -/
theorem mapEach (hc : t.Counted) (fs : List (α → α)) : (t.mapEach fs).Counted :=
  ⟨hc.wellFormed.mapEach fs, (sameHashes_mapEach t fs).capacity.trans_lt hc.lt_limit⟩

end Counted

/-- Every table that comes about is so. -/
theorem Reachable.counted (h : t.Reachable) : t.Counted := ⟨h.wellFormed, h.capacity_lt_limit⟩

/-! ## Lookup -/

/-- The item with this hash that `eq` accepts. -/
def checkedFind? (t : Table α) (hash : UInt32) (eq : α → Checked Bool) : Checked (Option α) :=
  (t.slots.checkedSearch hash eq).andThen fun found =>
  match found with
  | none => .ok none
  | some index => (t.slots.checkedGet index).andThen fun cell => .ok (cell.map Slot.item)

/-- Replaces the item found in place, and answers with what `f` makes of it. -/
def checkedUpdate? (t : Table α) (hash : UInt32) (eq : α → Checked Bool) (f : α → β × α) :
    Checked (Option β × Table α) :=
  (t.slots.checkedSearch hash eq).andThen fun found =>
  match found with
  | none => .ok (none, t)
  | some index =>
    (t.slots.checkedGet index).andThen fun cell =>
    match cell with
    | none => .ok (none, t)
    | some slot =>
      (t.slots.checkedSet index (some ⟨slot.hash, (f slot.item).2⟩)).andThen fun slots =>
      .ok (some (f slot.item).1, ⟨slots, t.size, t.resizing⟩)

theorem checkedFind?_eq (hc : t.Counted) (heq : ∀ x, eq x = .ok (eq' x)) :
    t.checkedFind? hash eq = .ok (t.find? hash eq') := by
  rw [checkedFind?, find?, Slots.checkedSearch_eq hc.ringSize hash heq, Checked.andThen_ok]
  cases hsearch : t.slots.search hash eq' with
  | none => rfl
  | some index =>
    have hlt := Slots.lt_of_search hc.wellFormed.capacity_pos hsearch
    dsimp only
    rw [Slots.checkedGet_of_lt hlt, Checked.andThen_ok]

theorem checkedUpdate?_eq (hc : t.Counted) (heq : ∀ x, eq x = .ok (eq' x)) (f : α → β × α) :
    t.checkedUpdate? hash eq f = .ok (t.update? hash eq' f) := by
  rw [checkedUpdate?, update?, Slots.checkedSearch_eq hc.ringSize hash heq, Checked.andThen_ok]
  cases hsearch : t.slots.search hash eq' with
  | none => rfl
  | some index =>
    have hlt := Slots.lt_of_search hc.wellFormed.capacity_pos hsearch
    dsimp only
    rw [Slots.checkedGet_of_lt hlt, Checked.andThen_ok]
    cases t.slots.get index with
    | none => rfl
    | some slot =>
      dsimp only
      rw [Slots.checkedSet_of_lt hlt, Checked.andThen_ok]

/-! ## Another number of slots -/

/-- Places further entries one after another, up to the first that finds no vacant slot. -/
def checkedRefill : Table α → List (Slot α) → Checked (Outcome (Table α) Unit)
  | t, [] => .ok ⟨.ok (), t⟩
  | ⟨slots, size, resizing⟩, slot :: rest =>
    (slots.checkedPlace slot).andThen fun placed =>
    match placed with
    | (slots, some _) =>
      (Checked.add size 1).andThen fun size => checkedRefill ⟨slots, size, resizing⟩ rest
    | (slots, none) => .ok ⟨.error (.capacity slots.capacity), ⟨slots, size, resizing⟩⟩

/-- Rehashes every entry into `capacity` slots, which must be a power of two. All entries must have
moved if none was refused. -/
def checkedResizeTo (t : Table α) (available : Allocator) (capacity : ℕ) :
    Checked (Outcome (Table α) Unit) :=
  .require capacity.isPowerOfTwo <|
  if capacity = t.capacity then .ok ⟨.ok (), t⟩
  else if capacity < minCapacity ∨ capacity ≤ t.size then .ok ⟨.error (.capacity capacity), t⟩
  else if available capacity then
    (checkedRefill ⟨Slots.vacant capacity, 0, true⟩ t.entries).andThen fun moved =>
    match moved with
    | ⟨.ok (), u⟩ => .require (u.size = t.size) <| .ok ⟨.ok (), { u with resizing := false }⟩
    | ⟨.error e, u⟩ => .ok ⟨.error e, { u with resizing := false }⟩
  else .ok ⟨.error (.allocation capacity), { t with resizing := false }⟩

/-- Doubles or halves the number of slots, but never goes below the fewest slots. -/
def checkedResize (t : Table α) (available : Allocator) :
    Adjustment → Checked (Outcome (Table α) Unit)
  | .grow =>
    match Count.mul? t.capacity 2 with
    | none => .ok ⟨.error (.allocation Count.largest), t⟩
    | some capacity => t.checkedResizeTo available capacity
  | .shrink => t.checkedResizeTo available (max (t.capacity / 2) minCapacity)
  | .keep => .ok ⟨.ok (), t⟩

/-- The slots that keep `count` entries below the load at which a table grows, if that is a
count. -/
def checkedFittingCapacity? (count : ℕ) : Checked (Option ℕ) :=
  match Count.mul? count 4 with
  | none => .ok none
  | some quadruple =>
    (Checked.add (quadruple / 3) 1).andThen fun minimum =>
    .ok ((Count.ceilPowerOfTwo? minimum).map (max · minCapacity))

/-- Makes room for `additional` more entries. -/
def checkedReserve (t : Table α) (available : Allocator) (additional : ℕ) :
    Checked (Outcome (Table α) Unit) :=
  match Count.add? t.size additional with
  | none => .ok ⟨.error (.allocation Count.largest), t⟩
  | some required =>
    (checkedFittingCapacity? required).andThen fun fit =>
    match fit with
    | none => .ok ⟨.error (.allocation Count.largest), t⟩
    | some capacity =>
      if t.capacity < capacity then t.checkedResizeTo available capacity else .ok ⟨.ok (), t⟩

/-- Goes down to the slots that fit the entries, if they are fewer and can be obtained. -/
def checkedShrinkToFit (t : Table α) (available : Allocator) : Checked (Table α) :=
  (checkedFittingCapacity? t.size).andThen fun fit =>
  match fit with
  | none => .ok t
  | some capacity =>
    if capacity < t.capacity then
      (t.checkedResizeTo available capacity).andThen fun moved => .ok moved.state
    else .ok t

/-- Entries for which there is room are placed without a fault. -/
theorem checkedRefill_eq (hc : t.Counted) {rest : List (Slot α)}
    (hroom : t.size + rest.length ≤ t.capacity) : checkedRefill t rest = .ok (refill t rest) := by
  induction rest generalizing t with
  | nil => rfl
  | cons slot rest ih =>
    rw [List.length_cons] at hroom
    obtain ⟨s, i, hplace, hcap, hplaced⟩ := hc.wellFormed.place (by omega) slot
    have hnext : (⟨s, t.size + 1, t.resizing⟩ : Table α).Counted :=
      ⟨(hplaced t.resizing).1, hcap.trans_lt hc.lt_limit⟩
    have hroom' : t.size + 1 + rest.length ≤ s.capacity := by omega
    rw [checkedRefill, refill, Slots.checkedPlace_eq hc.ringSize, Checked.andThen_ok, hplace]
    dsimp only
    rw [hc.checked_succ, Checked.andThen_ok]
    exact ih hnext hroom'

/-- A rehash into a ring that can be counted moves all entries, or none. -/
theorem checkedResizeTo_eq (hc : t.Counted) (available : Allocator) {capacity : ℕ}
    (hring : RingSize capacity) :
    t.checkedResizeTo available capacity = .ok (t.resizeTo available capacity) := by
  rw [checkedResizeTo, resizeTo, Checked.require_of hring.isPowerOfTwo]
  split_ifs with hsame hsmall havailable
  · rfl
  · rfl
  · -- The new ring is vacant and has more slots than there are entries to place.
    have hmin : minCapacity ≤ capacity := by omega
    have hstart : (⟨Slots.vacant capacity, 0, true⟩ : Table α).Counted :=
      ⟨(wellFormed_vacant hring.isPowerOfTwo hmin).with_resizing true,
        (Slots.capacity_vacant capacity).trans_lt hring.lt_limit⟩
    have hroom : 0 + t.entries.length ≤ (Slots.vacant capacity : Slots α).capacity := by
      rw [Slots.capacity_vacant, ← hc.wellFormed.size_eq]
      omega
    obtain ⟨hok, hwm, hcontents⟩ := refill_spec hstart.wellFormed hroom
    -- The assertion at the end: as many entries have been placed as there were.
    have hmoved : (refill ⟨Slots.vacant capacity, 0, true⟩ t.entries).state.size = t.size := by
      rw [hwm.size_eq_card, hcontents, hc.wellFormed.size_eq]
      simp [contents]
    rw [checkedRefill_eq hstart hroom, Checked.andThen_ok]
    generalize refill ⟨Slots.vacant capacity, 0, true⟩ t.entries = moved at hok hmoved
    obtain ⟨answer, v⟩ := moved
    obtain rfl : answer = .ok () := hok
    exact Checked.require_of hmoved _
  · rfl

theorem checkedResize_eq (hc : t.Counted) (available : Allocator) (adjustment : Adjustment) :
    t.checkedResize available adjustment = .ok (t.resize available adjustment) := by
  cases adjustment with
  | grow =>
    rw [checkedResize, resize]
    cases hdouble : Count.mul? t.capacity 2 with
    | none => rfl
    | some capacity =>
      obtain ⟨hlimit, rfl⟩ := Count.mul?_eq_some_iff.1 hdouble
      exact checkedResizeTo_eq hc available
        ⟨Nat.isPowerOfTwo_mul_two_of_isPowerOfTwo hc.wellFormed.capacity_eq, hlimit⟩
  | shrink =>
    have hhalf : max (t.capacity / 2) minCapacity ≤ t.capacity :=
      Nat.max_le.2 ⟨Nat.div_le_self .., hc.wellFormed.minCapacity_le⟩
    exact checkedResizeTo_eq hc available
      ⟨isPowerOfTwo_half hc.wellFormed.capacity_eq, hhalf.trans_lt hc.lt_limit⟩
  | keep => rfl

/-- A third of a word has a successor. -/
theorem checkedFittingCapacity?_eq (count : ℕ) :
    checkedFittingCapacity? count = .ok (fittingCapacity? count) := by
  rw [checkedFittingCapacity?, fittingCapacity?]
  cases hquadruple : Count.mul? count 4 with
  | none => rfl
  | some quadruple =>
    obtain ⟨hlimit, rfl⟩ := Count.mul?_eq_some_iff.1 hquadruple
    have hsucc : count * 4 / 3 + 1 < Count.limit := by
      rw [Count.limit_eq] at hlimit ⊢
      omega
    dsimp only
    rw [Checked.add_of_lt hsucc, Checked.andThen_ok]

/-- The slots that fit a number of entries are a ring that can be counted. -/
theorem ringSize_of_fittingCapacity? {count capacity : ℕ}
    (h : fittingCapacity? count = some capacity) : RingSize capacity :=
  ⟨isPowerOfTwo_fittingCapacity h, (eq_fitting_of_fittingCapacity h).2⟩

theorem checkedReserve_eq (hc : t.Counted) (available : Allocator) (additional : ℕ) :
    t.checkedReserve available additional = .ok (t.reserve available additional) := by
  rw [checkedReserve, reserve]
  cases Count.add? t.size additional with
  | none => rfl
  | some required =>
    rw [Option.bind_some]
    dsimp only
    rw [checkedFittingCapacity?_eq, Checked.andThen_ok]
    cases hfit : fittingCapacity? required with
    | none => rfl
    | some capacity =>
      dsimp only
      split
      · exact checkedResizeTo_eq hc available (ringSize_of_fittingCapacity? hfit)
      · rfl

theorem checkedShrinkToFit_eq (hc : t.Counted) (available : Allocator) :
    t.checkedShrinkToFit available = .ok (t.shrinkToFit available) := by
  rw [checkedShrinkToFit, shrinkToFit, checkedFittingCapacity?_eq, Checked.andThen_ok]
  cases hfit : fittingCapacity? t.size with
  | none => rfl
  | some capacity =>
    dsimp only
    split
    · rw [checkedResizeTo_eq hc available (ringSize_of_fittingCapacity? hfit), Checked.andThen_ok]
    · rfl

/-! ## Insertion -/

/-- Grows the table until one more entry is below the load at which it grows, at most `left`
times. -/
def checkedGrowFrom (available : Allocator) (policy : ResizePolicy) :
    (left : ℕ) → Table α → Checked (Outcome (Table α) Unit)
  | 0, t => .ok ⟨.ok (), t⟩
  | left + 1, t =>
    (Checked.add t.size 1).andThen fun projected =>
    if t.adjustment projected policy = .grow then
      (t.checkedResize available .grow).onward fun _ t => checkedGrowFrom available policy left t
    else .ok ⟨.ok (), t⟩

/-- Places a new entry and answers its index. -/
def checkedPut (t : Table α) (slot : Slot α) : Checked (Outcome (Table α) ℕ) :=
  (Checked.add t.size 1).andThen fun wanted =>
  if t.slots.capacity < wanted then .ok ⟨.error (.capacity t.slots.capacity), t⟩
  else
    (t.slots.checkedPlace slot).andThen fun placed =>
    match placed with
    | (slots, some index) =>
      (Checked.add t.size 1).andThen fun size => .ok ⟨.ok index, ⟨slots, size, t.resizing⟩⟩
    | (slots, none) => .ok ⟨.error (.capacity slots.capacity), ⟨slots, t.size, t.resizing⟩⟩

/-- Inserts an entry that no stored entry matches, and answers its index. -/
def checkedInsertNew (t : Table α) (available : Allocator) (policy : ResizePolicy) (hash : UInt32)
    (item : α) : Checked (Outcome (Table α) ℕ) :=
  (checkedGrowFrom available policy 64 t).onward fun _ t => t.checkedPut ⟨hash, item⟩

/-- Inserts an item, and answers the item it replaces, if any. -/
def checkedInsert (t : Table α) (available : Allocator) (policy : ResizePolicy) (hash : UInt32)
    (item : α) (eq : α → Checked Bool) : Checked (Outcome (Table α) (Option α)) :=
  (t.checkedUpdate? hash eq fun old => (old, item)).andThen fun updated =>
  match updated with
  | (some old, t) => .ok ⟨.ok (some old), t⟩
  | (none, t) =>
    (t.checkedInsertNew available policy hash item).onward fun _ t => .ok ⟨.ok none, t⟩

/-- Growing keeps a table on slots that can be counted. -/
theorem Counted.growFrom (hc : t.Counted) (available : Allocator) (policy : ResizePolicy)
    (left : ℕ) : (growFrom available policy left t).state.Counted := by
  induction left generalizing t with
  | zero => exact hc
  | succ left ih =>
    rw [Table.growFrom]
    split
    · have hnext := hc.step (.resize t available .grow)
      generalize t.resize available .grow = outcome at hnext
      obtain ⟨_ | _, v⟩ := outcome
      · exact hnext
      · exact ih hnext
    · exact hc

theorem checkedGrowFrom_eq (hc : t.Counted) (available : Allocator) (policy : ResizePolicy)
    (left : ℕ) :
    checkedGrowFrom available policy left t = .ok (growFrom available policy left t) := by
  induction left generalizing t with
  | zero => rfl
  | succ left ih =>
    rw [checkedGrowFrom, Table.growFrom, hc.checked_succ, Checked.andThen_ok]
    split
    · rw [checkedResize_eq hc]
      exact Checked.onward_ok fun _ => ih (hc.step (.resize t available .grow))
    · rfl

theorem checkedPut_eq (hc : t.Counted) (slot : Slot α) : t.checkedPut slot = .ok (t.put slot) := by
  rw [checkedPut, put, hc.checked_succ, Checked.andThen_ok]
  split
  · rfl
  · rw [Slots.checkedPlace_eq hc.ringSize, Checked.andThen_ok]
    rcases t.slots.place slot with ⟨slots, _ | index⟩ <;> rfl

theorem checkedInsertNew_eq (hc : t.Counted) (available : Allocator) (policy : ResizePolicy)
    (hash : UInt32) (item : α) :
    t.checkedInsertNew available policy hash item
      = .ok (t.insertNew available policy hash item) := by
  rw [checkedInsertNew, checkedGrowFrom_eq hc]
  exact Checked.onward_ok fun _ => checkedPut_eq (hc.growFrom available policy 64) _

theorem checkedInsert_eq (hc : t.Counted) (available : Allocator) (policy : ResizePolicy)
    (item : α) (heq : ∀ x, eq x = .ok (eq' x)) :
    t.checkedInsert available policy hash item eq
      = .ok (t.insert available policy hash item eq') := by
  rw [checkedInsert, insert, checkedUpdate?_eq hc heq, Checked.andThen_ok]
  rcases t.exists_selects_or hash eq' with ⟨index, slot, hselect⟩ | hmiss
  · rw [hselect.update?_eq]
  · rw [update?_of_search_none hmiss]
    dsimp only
    rw [checkedInsertNew_eq hc]
    exact Checked.onward_ok fun _ => rfl

/-! ## Removal -/

/-- Takes the entry out of the slot at `index`, if there is one, and closes the gap. -/
def checkedEraseAt (t : Table α) (index : ℕ) : Checked (Option (Slot α) × Table α) :=
  (t.slots.checkedGet index).andThen fun cell =>
  match cell with
  | none => .ok (none, t)
  | some slot =>
    (t.slots.checkedErase index).andThen fun slots =>
    (Checked.sub t.size 1).andThen fun size => .ok (some slot, ⟨slots, size, t.resizing⟩)

/-- Removes the entry found. -/
def checkedRemove (t : Table α) (available : Allocator) (policy : ResizePolicy) (hash : UInt32)
    (eq : α → Checked Bool) : Checked (Outcome (Table α) α) :=
  (t.slots.checkedSearch hash eq).andThen fun found =>
  match found with
  | none => .ok ⟨.error .notFound, t⟩
  | some index =>
    (Checked.sub t.size 1).andThen fun projected =>
    (t.checkedEraseAt index).andThen fun erased =>
    match erased with
    | (none, t) => .ok ⟨.error .notFound, t⟩
    | (some slot, u) =>
      if t.adjustment projected policy = .shrink then
        (u.checkedResize available .shrink).andThen fun shrunk => .ok ⟨.ok slot.item, shrunk.state⟩
      else .ok ⟨.ok slot.item, u⟩

/-- Taking out an entry, or none, leaves the table on as many slots. -/
theorem Counted.eraseAt (hc : t.Counted) (index : ℕ) :
    (t.eraseAt index).2.Counted ∧ (t.eraseAt index).2.capacity = t.capacity := by
  cases hget : t.slots.get index with
  | none =>
    rw [Table.eraseAt, hget]
    exact ⟨hc, rfl⟩
  | some slot =>
    obtain ⟨u, hu, hwu, hslots, -⟩ := hc.wellFormed.eraseAt hget
    have hcap : u.capacity = t.capacity := by
      rw [capacity, hslots, Slots.capacity_erase, capacity]
    rw [hu]
    exact ⟨⟨hwu, hcap.trans_lt hc.lt_limit⟩, hcap⟩

/-- Wherever an index is on the ring, the entry there is taken out without a fault. -/
theorem checkedEraseAt_eq (hc : t.Counted) (index : ℕ) :
    t.checkedEraseAt (index % t.capacity) = .ok (t.eraseAt index) := by
  rw [checkedEraseAt, eraseAt, capacity, Slots.checkedGet_mod hc.ringSize.pos, Checked.andThen_ok]
  cases hget : t.slots.get index with
  | none => rfl
  | some slot =>
    dsimp only
    rw [Slots.checkedErase_eq hc.ringSize, Checked.andThen_ok, hc.checked_pred hget,
      Checked.andThen_ok]

theorem checkedRemove_eq (hc : t.Counted) (available : Allocator) (policy : ResizePolicy)
    (heq : ∀ x, eq x = .ok (eq' x)) :
    t.checkedRemove available policy hash eq = .ok (t.remove available policy hash eq') := by
  rw [checkedRemove, Slots.checkedSearch_eq hc.ringSize hash heq, Checked.andThen_ok]
  rcases t.exists_selects_or hash eq' with ⟨index, slot, hselect⟩ | hmiss
  · -- The size is taken from twice, for the load to come and for the entry: it counts the entry.
    have hlt : index < t.capacity :=
      Slots.lt_of_search hc.wellFormed.capacity_pos hselect.search
    have herase := checkedEraseAt_eq hc index
    rw [Nat.mod_eq_of_lt hlt] at herase
    obtain ⟨u, hu, -⟩ := hc.wellFormed.eraseAt hselect.get
    have hcu : u.Counted := by
      have hleft := (hc.eraseAt index).1
      rwa [hu] at hleft
    rw [hselect.search, hselect.remove_eq hc.wellFormed, hu]
    dsimp only
    rw [hc.checked_pred hselect.get, Checked.andThen_ok, herase, hu, Checked.andThen_ok]
    dsimp only
    split
    · rw [checkedResize_eq hcu, Checked.andThen_ok]
    · rfl
  · rw [hmiss, remove_of_search_none hmiss]

end Table

end OpenAddressing
