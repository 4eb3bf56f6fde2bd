import OpenAddressing.Proofs.Checked.Walks
import OpenAddressing.Proofs.Table.Atomicity

/-!
# Walks over a table are exact

A cursor and an editor keep a count of their own of the items still to come, next to the slots they
have not passed. A count that agrees with those slots goes on to agree with every step
(`Cursor.Counted.take`, `Editor.Counted.takeEach`), and what is still to come after some steps are
the items less those already taken (`Cursor.items_take`, `Editor.items_takeEach`). `Cursor.Yields`
and `Editor.Yields` say what that means call by call: each call takes the next item of a list, the
count is the number of items left, and calls are in vain from when it is zero.

An editor rewrites the entries that it passes and leaves all else as it was: the entry that `n`
others lie before takes the function of call `n` (`getElem?_rewriteCells`). `IteratesExactly` puts
this together for a table whose size is the number of its entries.
-/

namespace OpenAddressing

universe u

/-! ## Walks that read -/

namespace Cursor

variable {α : Type u} {c : Cursor α}

/-- An exact count is the number of items still to come. -/
theorem Counted.remaining_eq (hc : c.Counted) : c.remaining = c.items.length := by
  rw [items, List.length_map]
  exact hc

/-- After `n` steps the first `n` items are no longer to come. -/
theorem items_takeFrom (n : ℕ) (taken : List α) (c : Cursor α) :
    (takeFrom n taken c).2.items = c.items.drop n := by
  induction n generalizing taken c with
  | zero => rfl
  | succ n ih =>
    rw [takeFrom]
    rcases next?_cases c with ⟨hnext, hitems⟩ | ⟨item, after, hnext, hitems⟩
    · simp [hnext, hitems]
    · simp [hnext, hitems, ih]

/-- After a walk the rest of the items is still to come. -/
theorem items_take (n : ℕ) (c : Cursor α) : (c.take n).2.items = c.items.drop n :=
  items_takeFrom n [] c

/-- Steps keep the count exact. -/
theorem Counted.takeFrom (hc : c.Counted) (n : ℕ) (taken : List α) :
    (takeFrom n taken c).2.Counted := by
  induction n generalizing taken c with
  | zero => exact hc
  | succ n ih =>
    rw [Cursor.takeFrom]
    cases hstep : c.next? with
    | none => exact hc
    | some next => exact ih ((checkedNext?_eq hc).2 _ _ hstep) _

/-- A walk keeps the count exact. -/
theorem Counted.take (hc : c.Counted) (n : ℕ) : (c.take n).2.Counted := hc.takeFrom n []

/-- The next item is the first still to come. -/
theorem fst_next? (c : Cursor α) : c.next?.map Prod.fst = c.items.head? := by
  rcases next?_cases c with ⟨hnext, hitems⟩ | ⟨item, after, hnext, hitems⟩
  · rw [hnext, hitems]
    rfl
  · rw [hnext, hitems]
    rfl

/-- A call is in vain when no item is to come. -/
theorem next?_eq_none_iff : c.next? = none ↔ c.items = [] := by
  rw [← Option.map_eq_none_iff (f := Prod.fst), fst_next?, List.head?_eq_none_iff]

/-- The walk comes to the items of `l`, each once and in this order, and counts them down. -/
structure Yields (c : Cursor α) (l : List α) : Prop where
  /-- A call takes the item that the calls before it have left. -/
  next_eq : ∀ k, (c.take k).2.next?.map Prod.fst = l[k]?
  /-- What is still to come are the other items, in order. -/
  take_eq : ∀ k n, ((c.take k).2.take n).1 = (l.drop k).take n
  /-- The count is the number of those. -/
  remaining_eq : ∀ k, (c.take k).2.remaining = l.length - k
  /-- The count is zero from when all calls are in vain. -/
  ended_iff : ∀ k, (c.take k).2.remaining = 0 ↔ ∀ n, (c.take (k + n)).2.next? = none

/-- A walk whose count is exact comes to what it has to come to. -/
theorem Counted.yields (hc : c.Counted) : c.Yields c.items where
  next_eq k := by rw [fst_next?, items_take, List.head?_drop]
  take_eq k n := by rw [fst_take, items_take]
  remaining_eq k := by rw [(hc.take k).remaining_eq, items_take, List.length_drop]
  ended_iff k := by
    rw [(hc.take k).remaining_eq, items_take, List.length_eq_zero_iff]
    constructor
    · intro hnone n
      rw [next?_eq_none_iff, items_take, ← List.drop_drop, hnone, List.drop_nil]
    · intro hvain
      have hlast := hvain 0
      rwa [next?_eq_none_iff, items_take] at hlast

end Cursor

/-! ## Walks that rewrite -/

/-- Rewrites the entries in the first taken slots, each by a function of its own. -/
def rewriteCells {α : Type u} : List (α → α) → List (Option (Slot α)) → List (Option (Slot α))
  | [], cells => cells
  | _ :: _, [] => []
  | f :: fs, none :: cells => none :: rewriteCells (f :: fs) cells
  | f :: fs, some slot :: cells => some (slot.onItem f) :: rewriteCells fs cells

/-- Rewriting an item by the identity changes nothing. -/
theorem map_onItem_id {α : Type u} (cell : Option (Slot α)) :
    cell.map (Slot.onItem id) = cell := by
  cases cell <;> rfl

/-- An entry is rewritten by the function whose number is how many entries lie before it. -/
theorem getElem?_rewriteCells {α : Type u} (fs : List (α → α)) (cells : List (Option (Slot α)))
    (i : ℕ) : (rewriteCells fs cells)[i]? = cells[i]?.map
      (Option.map (Slot.onItem (fs.getD ((cells.take i).filterMap id).length id))) := by
  -- The functions go down with the taken slots only, and so does what `take` keeps of them.
  fun_induction rewriteCells fs cells generalizing i with
  | case1 cells =>
    simp only [List.getD_nil]
    cases cells[i]? with
    | none => rfl
    | some cell => rw [Option.map_some, map_onItem_id]
  | case2 => rfl
  | case3 f fs cells ih =>
    cases i with
    | zero => rfl
    | succ i => simp [ih]
  | case4 f fs slot cells ih =>
    cases i with
    | zero => rfl
    | succ i => simp [ih]

/-- Vacant slots are passed and stay. -/
theorem rewriteCells_append {α : Type u} {vacant : List (Option (Slot α))}
    (hvacant : vacant.filterMap id = []) (fs : List (α → α)) (cells : List (Option (Slot α))) :
    rewriteCells fs (vacant ++ cells) = vacant ++ rewriteCells fs cells := by
  induction vacant with
  | nil => rfl
  | cons cell vacant ih =>
    cases fs with
    | nil => rw [rewriteCells, rewriteCells]
    | cons f fs =>
      cases cell with
      | none => rw [List.cons_append, rewriteCells, ih hvacant, List.cons_append]
      | some slot => cases hvacant

/-- Without entries there is nothing to rewrite. -/
theorem rewriteCells_of_filterMap_eq_nil {α : Type u} {cells : List (Option (Slot α))}
    (hcells : cells.filterMap id = []) (fs : List (α → α)) : rewriteCells fs cells = cells := by
  have hpassed := rewriteCells_append hcells fs []
  have hnil : rewriteCells fs ([] : List (Option (Slot α))) = [] := by cases fs <;> rfl
  rwa [hnil, List.append_nil] at hpassed

namespace Editor

variable {α : Type u} {e : Editor α}

/-- The items still to come. -/
def items (e : Editor α) : List α := (e.pending.filterMap id).map Slot.item

/-- An exact count is the number of items still to come. -/
theorem Counted.remaining_eq (he : e.Counted) : e.remaining = e.items.length := by
  rw [items, List.length_map]
  exact he

/-- The item in the slot passed last, as it was left. -/
def latest? (e : Editor α) : Option α :=
  match e.passed with
  | some slot :: _ => some slot.item
  | _ => none

/-- A step comes to the first item still to come and rewrites it, or there is none. -/
theorem next?_items (e : Editor α) (f : α → α) :
    (e.next? f = none ∧ e.items = []) ∨
      ∃ item after, e.next? f = some after ∧ e.items = item :: after.items ∧
        after.latest? = some (f item) := by
  rcases next?_cases e f with ⟨hnext, hnone⟩ | ⟨vacant, slot, rest, hpending, hvacant, hnext⟩
  · exact Or.inl ⟨hnext, by rw [items, hnone, List.map_nil]⟩
  · refine Or.inr ⟨slot.item, _, hnext, ?_, rfl⟩
    rw [items, hpending, List.filterMap_append, hvacant]
    rfl

/-- After some steps as many items are no longer to come. -/
theorem items_takeEach (fs : List (α → α)) (e : Editor α) :
    (e.takeEach fs).items = e.items.drop fs.length := by
  induction fs generalizing e with
  | nil => rfl
  | cons f fs ih =>
    rw [takeEach]
    rcases next?_items e f with ⟨hnext, hitems⟩ | ⟨item, after, hnext, hitems, -⟩
    · simp [hnext, hitems]
    · simp [hnext, hitems, ih]

/-- Steps keep the count exact. -/
theorem Counted.takeEach (he : e.Counted) (fs : List (α → α)) : (e.takeEach fs).Counted := by
  induction fs generalizing e with
  | nil => exact he
  | cons f fs ih =>
    rw [Editor.takeEach]
    cases hstep : e.next? f with
    | none => exact he
    | some after => exact ih ((checkedNext?_eq he f).2 _ hstep)

/-- A step rewrites the first item still to come. -/
theorem latest?_next? (e : Editor α) (f : α → α) :
    (e.next? f).bind latest? = e.items.head?.map f := by
  rcases next?_items e f with ⟨hnext, hitems⟩ | ⟨item, after, hnext, hitems, hlatest⟩
  · rw [hnext, hitems]
    rfl
  · rw [hnext, hitems, Option.bind_some, hlatest]
    rfl

/-- A step is in vain when no item is to come. -/
theorem next?_eq_none_iff {f : α → α} : e.next? f = none ↔ e.items = [] := by
  rcases next?_items e f with ⟨hnext, hitems⟩ | ⟨item, after, hnext, hitems, -⟩
  · exact ⟨fun _ => hitems, fun _ => hnext⟩
  · exact iff_of_false (by rw [hnext]; exact Option.some_ne_none after)
      (by rw [hitems]; exact List.cons_ne_nil item after.items)

/-- The cells after a rewriting walk. -/
theorem cells_takeEach (fs : List (α → α)) (e : Editor α) :
    (e.takeEach fs).slots.cells.toList = e.passed.reverse ++ rewriteCells fs e.pending := by
  induction fs generalizing e with
  | nil => simp [takeEach, slots, rewriteCells]
  | cons f fs ih =>
    rw [takeEach]
    rcases next?_cases e f with ⟨hnext, hnone⟩ | ⟨vacant, slot, rest, hpending, hvacant, hnext⟩
    · rw [hnext, rewriteCells_of_filterMap_eq_nil hnone]
      rfl
    · rw [hnext, hpending, rewriteCells_append hvacant]
      dsimp only
      rw [ih]
      simp [rewriteCells]

/-- The walk comes to the items of `l`, each once and in this order, and counts them down. -/
structure Yields (e : Editor α) (l : List α) : Prop where
  /-- A call comes to the item that the calls before it have left, and rewrites it. -/
  next_eq : ∀ fs f, ((e.takeEach fs).next? f).bind latest? = l[fs.length]?.map f
  /-- The count is the number of items still to come. -/
  remaining_eq : ∀ fs, (e.takeEach fs).remaining = l.length - fs.length
  /-- The count is zero from when all calls are in vain. -/
  ended_iff : ∀ fs, (e.takeEach fs).remaining = 0 ↔
    ∀ gs f, (e.takeEach (fs ++ gs)).next? f = none

/-- A walk whose count is exact comes to what it has to come to. -/
theorem Counted.yields (he : e.Counted) : e.Yields e.items where
  next_eq fs f := by rw [latest?_next?, items_takeEach, List.head?_drop]
  remaining_eq fs := by rw [(he.takeEach fs).remaining_eq, items_takeEach, List.length_drop]
  ended_iff fs := by
    rw [(he.takeEach fs).remaining_eq, items_takeEach, List.length_eq_zero_iff]
    constructor
    · intro hnone gs f
      rw [next?_eq_none_iff, items_takeEach, List.length_append, ← List.drop_drop, hnone,
        List.drop_nil]
    · intro hvain
      have hlast := hvain [] id
      rwa [next?_eq_none_iff, items_takeEach, List.append_nil] at hlast

end Editor

/-! ## The walks over a table -/

namespace Table

variable {α : Type u} {t : Table α}

/-- How many entries lie in the slots before `i`. -/
def rank (t : Table α) (i : ℕ) : ℕ := (t.slots.stretch 0 i).length

/-- What a draining walk has handed out after `k` calls, and the table it leaves. -/
def drainFirst (t : Table α) (k : ℕ) : List α × Table α := ((t.drain.1.take k).1, t.drain.2)

/-- The items are those of one round of slots. -/
theorem items_eq_filterMap (t : Table α) :
    t.items = (List.range t.capacity).filterMap fun i => (t.slots.get i).map Slot.item := by
  rw [items, entries, Slots.entries_eq_stretch, Slots.stretch, List.map_filterMap,
    List.range_eq_range']
  rfl

/-- An entry is the item whose number is how many entries lie before it. -/
theorem getElem?_items_rank {i : ℕ} (hi : i < t.capacity) {slot : Slot α}
    (hget : t.slots.get i = some slot) : t.items[t.rank i]? = some slot.item := by
  obtain ⟨n, hn⟩ : ∃ n, t.capacity = i + (n + 1) := Nat.exists_eq_add_of_lt hi
  have hsplit : t.entries = t.slots.stretch 0 i ++ slot :: t.slots.stretch (i + 1) n := by
    calc t.entries = t.slots.stretch 0 t.capacity := Slots.entries_eq_stretch t.slots
      _ = t.slots.stretch 0 i ++ t.slots.stretch i (n + 1) := by
        rw [hn, Slots.stretch_add, Nat.zero_add]
      _ = t.slots.stretch 0 i ++ slot :: t.slots.stretch (i + 1) n := by
        rw [Slots.stretch_of_get_some hget]
  rw [items, List.getElem?_map, hsplit, rank, List.getElem?_append_right (Nat.le_refl _),
    Nat.sub_self]
  rfl

/-- A rewriting walk rewrites the entry that `n` others lie before by its function `n`, and leaves
the other slots alone. -/
theorem get_mapEach (t : Table α) (fs : List (α → α)) {i : ℕ} (hi : i < t.capacity) :
    (t.mapEach fs).slots.get i = (t.slots.get i).map (Slot.onItem (fs.getD (t.rank i) id)) := by
  have hcells : (t.mapEach fs).slots.cells.toList = rewriteCells fs t.slots.cells.toList :=
    Editor.cells_takeEach fs t.editor
  have hread : (t.mapEach fs).slots.cells.toList[i]? = some ((t.mapEach fs).slots.get i) :=
    Slots.getElem?_toList_cells _ ((sameHashes_mapEach t fs).capacity.symm ▸ hi)
  rw [hcells, getElem?_rewriteCells, Slots.getElem?_toList_cells _ hi,
    Slots.filterMap_take_cells t.slots hi.le] at hread
  exact (Option.some.inj hread).symm

/-- The walks over a table come to each entry once, in slot order; one that rewrites leaves alone
what it has not come to, and one that drains leaves the table empty. -/
structure IteratesExactly (t : Table α) : Prop where
  /-- The items are those of one round of slots, in order. -/
  items_eq : t.items = (List.range t.capacity).filterMap fun i => (t.slots.get i).map Slot.item
  /-- There are as many as the table counts. -/
  length_eq : t.items.length = t.size
  /-- An entry is the item whose number is how many entries lie before it. -/
  rank_eq : ∀ i < t.capacity, ∀ slot, t.slots.get i = some slot →
    t.items[t.rank i]? = some slot.item
  /-- A walk comes to the items. -/
  cursor : t.cursor.Yields t.items
  /-- A rewriting walk comes to the items. -/
  editor : t.editor.Yields t.items
  /-- It rewrites the entries it has come to, each by the function of that call, and leaves the
  other slots alone. -/
  edited_get : ∀ fs, ∀ i < t.capacity, (t.mapEach fs).slots.get i
    = (t.slots.get i).map (Slot.onItem (fs.getD (t.rank i) id))
  /-- It keeps the number of slots. -/
  edited_capacity : ∀ fs, (t.mapEach fs).capacity = t.capacity
  /-- It keeps the number of entries. -/
  edited_size : ∀ fs, (t.mapEach fs).size = t.size
  /-- A draining walk comes to the items. -/
  drained : t.drain.1.Yields t.items
  /-- After as many calls as one likes it has handed out the first items, and the table is the empty
  one on as many slots. -/
  drainFirst_eq : ∀ k, t.drainFirst k = (t.items.take k, vacant t.capacity)

/-- A well-formed table that is not being rehashed iterates exactly. -/
theorem WellFormed.iteratesExactly (hw : t.WellFormed) (hidle : t.resizing = false) :
    t.IteratesExactly where
  items_eq := t.items_eq_filterMap
  length_eq := by rw [items, List.length_map, hw.size_eq]
  rank_eq _ hi _ hget := getElem?_items_rank hi hget
  cursor := Cursor.Counted.yields (c := t.cursor) hw.size_eq
  editor := Editor.Counted.yields (e := t.editor) hw.size_eq
  edited_get fs _ hi := get_mapEach t fs hi
  edited_capacity fs := (sameHashes_mapEach t fs).capacity
  edited_size _ := rfl
  drained := Cursor.Counted.yields (c := t.cursor) hw.size_eq
  drainFirst_eq k := by
    rw [drainFirst, Cursor.fst_take]
    show (t.items.take k, t.clear) = _
    rw [Table.clear, hidle]
    rfl

end Table

end OpenAddressing
