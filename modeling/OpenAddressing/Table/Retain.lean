import OpenAddressing.Table.Update

/-!
# Keeping some of the entries

`retain` visits every entry once. A visit sees the item and a running state, may change both, and
says whether the entry stays. The walk starts after a vacant slot and removes in place: closing a
gap never fills a vacant slot, so an entry that moves back into the slot just visited has not been
visited yet. A table without a vacant slot is rebuilt instead, in slot order.
-/

namespace OpenAddressing

universe u v

/-- What a visit decides about an item. -/
structure Verdict (α : Type u) where
  /-- Whether the entry stays. -/
  keep : Bool
  /-- The item as the visit leaves it. -/
  item : α

/-- What a walk over the entries of a table leaves. -/
structure Sweep (σ : Type v) (α : Type u) where
  /-- The table with the entries that stay. -/
  table : Table α
  /-- The items of the others, in the order of the visits. -/
  removed : List α
  /-- The running state after the last visit. -/
  state : σ

namespace Table

variable {α : Type u} {σ : Type v}

/-- Rewrites the item in the slot at `index`. -/
def setItem (t : Table α) (index : Nat) (slot : Slot α) : Table α :=
  match t with
  | ⟨slots, size, resizing⟩ => ⟨slots.set index (some slot), size, resizing⟩

/-- The walk from `index` on over `slots` more slots. A slot is visited again after a removal, so
`turns` bounds the slots and the removals together; `removed` holds the latest removal first. -/
def sweepFrom (visit : α → σ → Verdict α × σ) :
    (turns slots index : Nat) → Table α → (removed : List α) → σ → Sweep σ α
  | 0, _, _, t, removed, state => ⟨t, removed.reverse, state⟩
  | _ + 1, 0, _, t, removed, state => ⟨t, removed.reverse, state⟩
  | turns + 1, slots + 1, index, t, removed, state =>
    match t.slots.get index with
    | none => sweepFrom visit turns slots (index + 1) t removed state
    | some slot =>
      let (verdict, state) := visit slot.item state
      let t := t.setItem index ⟨slot.hash, verdict.item⟩
      if verdict.keep then sweepFrom visit turns slots (index + 1) t removed state
      else
        match t.eraseAt index with
        | (some gone, t) =>
          sweepFrom visit turns (slots + 1) index t (gone.item :: removed) state
        | (none, t) => sweepFrom visit turns (slots + 1) index t removed state

/-- Visits further entries one after another and places those that stay; `removed` holds the latest
removal first. -/
def rebuildFrom (visit : α → σ → Verdict α × σ) :
    List (Slot α) → Table α → (removed : List α) → σ → Sweep σ α
  | [], t, removed, state => ⟨t, removed.reverse, state⟩
  | slot :: rest, ⟨slots, size, resizing⟩, removed, state =>
    let (verdict, state) := visit slot.item state
    if verdict.keep then
      match slots.place ⟨slot.hash, verdict.item⟩ with
      | (slots, some _) => rebuildFrom visit rest ⟨slots, size + 1, resizing⟩ removed state
      | (slots, none) => rebuildFrom visit rest ⟨slots, size, resizing⟩ removed state
    else rebuildFrom visit rest ⟨slots, size, resizing⟩ (verdict.item :: removed) state

/-- Visits every entry once and keeps those the visits keep. -/
def retain (t : Table α) (visit : α → σ → Verdict α × σ) (state : σ) : Sweep σ α :=
  match t.slots.firstVacant? with
  | none => rebuildFrom visit t.entries t.clear [] state
  | some vacantIndex =>
    sweepFrom visit (t.capacity - 1 + t.size) (t.capacity - 1) (vacantIndex + 1) t [] state

end Table

end OpenAddressing
