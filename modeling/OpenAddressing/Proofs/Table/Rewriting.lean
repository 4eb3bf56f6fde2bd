import Mathlib.Data.List.TakeWhile
import OpenAddressing.Proofs.Table.Cursor
import OpenAddressing.Proofs.Table.Update

/-!
# A walk that rewrites the items it passes

An editor passes the items of a table in slot order and rewrites each of them. `takeEach` gives it a
function of its own for each item; `take` gives it the same one for all (`take_eq_takeEach`). The
slots keep their hashes (`sameHashes_mapEach`), and the entries are those there were with the first
of them rewritten (`entries_mapEach`).
-/

namespace OpenAddressing

universe u

/-- Rewrites the first elements of a list, each by a function of its own. -/
def rewriteEach {α : Type u} (fs : List (α → α)) (l : List α) : List α :=
  List.zipWith (fun x f => f x) l fs ++ l.drop fs.length

/-- The slot with its item rewritten. -/
def Slot.onItem {α : Type u} (f : α → α) (slot : Slot α) : Slot α := ⟨slot.hash, f slot.item⟩

/-- Rewriting elements and then reading them is rewriting what is read. -/
theorem map_rewriteEach {α β : Type*} {g : α → β} {lift : (β → β) → α → α}
    (h : ∀ f x, g (lift f x) = f (g x)) (fs : List (β → β)) (l : List α) :
    (rewriteEach (fs.map lift) l).map g = rewriteEach fs (l.map g) := by
  unfold rewriteEach
  rw [List.map_append, List.map_drop, List.length_map, List.map_zipWith, List.zipWith_map_right,
    List.zipWith_map_left]
  simp only [h]

/-- Rewriting elements leaves alone what none of the functions changes. -/
theorem map_rewriteEach_of_eq {α β : Type*} {g : α → β} {fs : List (α → α)}
    (h : ∀ f ∈ fs, ∀ x, g (f x) = g x) (l : List α) : (rewriteEach fs l).map g = l.map g := by
  induction fs generalizing l with
  | nil => simp [rewriteEach]
  | cons f fs ih =>
    cases l with
    | nil => rfl
    | cons x l =>
      have hrest := ih (fun f' hf' => h f' (List.mem_cons_of_mem f hf')) l
      unfold rewriteEach at hrest ⊢
      rw [List.zipWith_cons_cons, List.cons_append, List.length_cons, List.drop_succ_cons,
        List.map_cons, List.map_cons, hrest, h f List.mem_cons_self]

namespace Slots

variable {α : Type u}

/-- Cells with the same hashes make rings with the same hashes. -/
theorem sameHashes_of_map_eq {s t : Slots α}
    (h : t.cells.toList.map (Option.map Slot.hash) = s.cells.toList.map (Option.map Slot.hash)) :
    SameHashes s t := by
  have hsize : t.cells.size = s.cells.size := by
    have hlength := congrArg List.length h
    rwa [List.length_map, List.length_map, Array.length_toList, Array.length_toList] at hlength
  refine ⟨hsize, fun i => ?_⟩
  have hcell : ∀ (r : Slots α), (r.get i).map Slot.hash
      = ((r.cells.toList.map (Option.map Slot.hash))[i % r.cells.size]?).getD none := fun r => by
    unfold get
    rw [List.getElem?_map, Array.getElem?_toList, Array.getD_eq_getD_getElem?]
    cases r.cells[i % r.cells.size]? <;> rfl
  rw [hcell, hcell, h, hsize]

end Slots

namespace Editor

variable {α : Type u} {e : Editor α}

/-- Passes the next items, one for each function, and rewrites each by its own. -/
def takeEach : List (α → α) → Editor α → Editor α
  | [], e => e
  | f :: fs, e =>
    match e.next? f with
    | none => e
    | some e => takeEach fs e

/-- Rewriting `n` items by one function is rewriting each by it. -/
theorem take_eq_takeEach (f : α → α) (n : ℕ) (e : Editor α) :
    e.take f n = e.takeEach (List.replicate n f) := by
  induction n generalizing e with
  | zero => rfl
  | succ n ih =>
    rw [take, List.replicate_succ, takeEach]
    cases e.next? f with
    | none => rfl
    | some e' => exact ih e'

/-- A step passes some vacant slots and one entry, which it rewrites under its hash, or nothing is
left to pass. -/
theorem next?_cases (e : Editor α) (f : α → α) :
    (e.next? f = none ∧ e.pending.filterMap id = []) ∨
      ∃ vacant slot rest, e.pending = vacant ++ some slot :: rest ∧ vacant.filterMap id = [] ∧
        e.next? f = some ⟨some (slot.onItem f) :: (vacant.reverse ++ e.passed), rest,
          e.remaining - 1⟩ := by
  have hsplit := List.takeWhile_append_dropWhile (p := Option.isNone) (l := e.pending)
  have hitems := Cursor.filterMap_dropWhile_isNone e.pending
  rw [next?]
  cases hdrop : e.pending.dropWhile Option.isNone with
  | nil =>
    rw [hdrop] at hitems
    exact Or.inl ⟨rfl, hitems.symm⟩
  | cons cell rest =>
    cases cell with
    | none =>
      -- What is left does not begin with a vacant slot.
      have hhead := List.head?_dropWhile_not Option.isNone e.pending
      rw [hdrop] at hhead
      cases hhead
    | some slot =>
      rw [hdrop] at hsplit
      refine Or.inr ⟨_, slot, rest, hsplit.symm, ?_, rfl⟩
      refine List.filterMap_eq_nil_iff.2 fun cell hcell => ?_
      exact Option.isNone_iff_eq_none.1 (List.mem_takeWhile_imp hcell)

/-- A rewriting walk keeps the hashes. -/
theorem hashes_takeEach (fs : List (α → α)) (e : Editor α) :
    (e.takeEach fs).slots.cells.toList.map (Option.map Slot.hash)
      = e.slots.cells.toList.map (Option.map Slot.hash) := by
  induction fs generalizing e with
  | nil => rfl
  | cons f fs ih =>
    rw [takeEach]
    rcases next?_cases e f with ⟨hnext, -⟩ | ⟨vacant, slot, rest, hpending, -, hnext⟩
    · rw [hnext]
    · rw [hnext]
      dsimp only
      rw [ih, Editor.slots, Editor.slots, hpending]
      simp [Slot.onItem]

/-- A rewriting walk rewrites the first entries that it has not passed. -/
theorem entries_takeEach (fs : List (α → α)) (e : Editor α) :
    (e.takeEach fs).slots.entries = e.passed.reverse.filterMap id
      ++ rewriteEach (fs.map Slot.onItem) (e.pending.filterMap id) := by
  induction fs generalizing e with
  | nil => simp [takeEach, Editor.slots, Slots.entries, rewriteEach]
  | cons f fs ih =>
    rw [takeEach]
    rcases next?_cases e f with ⟨hnext, hnone⟩ | ⟨vacant, slot, rest, hpending, hvacant, hnext⟩
    · rw [hnext]
      show (e.passed.reverse ++ e.pending).filterMap id = _
      rw [List.filterMap_append, hnone]
      simp [rewriteEach]
    · have hpassed : ((some (slot.onItem f) :: (vacant.reverse ++ e.passed)).reverse).filterMap id
          = e.passed.reverse.filterMap id ++ [slot.onItem f] := by
        rw [List.reverse_cons, List.reverse_append, List.reverse_reverse, List.filterMap_append,
          List.filterMap_append, hvacant, List.append_nil]
        rfl
      have hitems : e.pending.filterMap id = slot :: rest.filterMap id := by
        rw [hpending, List.filterMap_append, hvacant]
        rfl
      rw [hnext, hitems]
      dsimp only
      rw [ih, hpassed]
      simp [rewriteEach]

end Editor

namespace Table

variable {α : Type u} {t : Table α}

/-- Rewrites the first items in slot order, each by a function of its own. -/
def mapEach (t : Table α) (fs : List (α → α)) : Table α := t.edited (t.editor.takeEach fs)

/-- Rewriting the first `n` items by one function is rewriting each by it. -/
theorem mapFirst_eq_mapEach (t : Table α) (n : ℕ) (f : α → α) :
    t.mapFirst n f = t.mapEach (List.replicate n f) := by
  rw [mapFirst, mapEach, Editor.take_eq_takeEach]

/-- Rewriting the items that a walk passes keeps the hashes. -/
theorem sameHashes_mapEach (t : Table α) (fs : List (α → α)) :
    Slots.SameHashes t.slots (t.mapEach fs).slots := by
  refine Slots.sameHashes_of_map_eq ?_
  rw [mapEach, edited, Editor.hashes_takeEach]
  simp [Editor.slots, editor]

/-- Rewriting the items that a walk passes keeps a table well formed. -/
theorem WellFormed.mapEach (hw : t.WellFormed) (fs : List (α → α)) : (t.mapEach fs).WellFormed :=
  hw.of_sameHashes (sameHashes_mapEach t fs)

/-- So does rewriting them all by one function. -/
theorem WellFormed.mapFirst (hw : t.WellFormed) (n : ℕ) (f : α → α) :
    (t.mapFirst n f).WellFormed := by
  rw [mapFirst_eq_mapEach]
  exact hw.mapEach _

/-- The entries are those there were, with the first items rewritten. -/
theorem entries_mapEach (t : Table α) (fs : List (α → α)) :
    (t.mapEach fs).entries = rewriteEach (fs.map Slot.onItem) t.entries :=
  Editor.entries_takeEach fs t.editor

end Table

end OpenAddressing
