import OpenAddressing.Proofs.Slots.Mapping
import OpenAddressing.Proofs.Table.Rewriting
import OpenAddressing.Table.Retain
import OpenAddressing.Table.Stats

/-!
# A table does not look at its items

Every operation takes the hash of what it seeks and a predicate that looks at the items on its
behalf. So a table with its items changed by a function behaves like the table itself: an operation
on `t.map f` whose predicates, visits and functions agree along `f` with those of an operation on
`t` answers the same, but for the items changed by `f`, and leaves the table mapped by `f`. There is
one such lemma for each operation, and none needs the table to be well formed.
-/

namespace OpenAddressing

universe u v w

namespace Outcome

variable {σ τ β γ : Type*}

/-- The outcome with another reading of the state. -/
def onState (f : σ → τ) (o : Outcome σ β) : Outcome τ β := ⟨o.answer, f o.state⟩

/-- Going on after another reading of the state is reading it after going on. -/
theorem onState_andThen {f : σ → τ} {next : β → σ → Outcome σ γ} {next' : β → τ → Outcome τ γ}
    (h : ∀ b s, next' b (f s) = (next b s).onState f) (o : Outcome σ β) :
    (o.onState f).andThen next' = (o.andThen next).onState f := by
  obtain ⟨_ | b, s⟩ := o
  · rfl
  · exact h b s

end Outcome

namespace Table

variable {α : Type u} {β : Type v}

/-- The table with every item changed. -/
def map (f : α → β) (t : Table α) : Table β := ⟨t.slots.map f, t.size, t.resizing⟩

@[simp] theorem capacity_map (f : α → β) (t : Table α) : (t.map f).capacity = t.capacity :=
  Slots.capacity_map f t.slots

@[simp] theorem entries_map (f : α → β) (t : Table α) :
    (t.map f).entries = t.entries.map (Slot.map f) :=
  Slots.entries_map f t.slots

@[simp] theorem map_id (t : Table α) : t.map id = t := by
  rw [map, Slots.map_id]

theorem items_map (f : α → β) (t : Table α) : (t.map f).items = t.items.map f := by
  rw [items, items, entries_map, List.map_map, List.map_map]
  rfl

theorem clear_map (f : α → β) (t : Table α) : (t.map f).clear = t.clear.map f := by
  simp only [clear, map, Slots.map_vacant, capacity, Slots.capacity_map]

theorem adjustment_map (f : α → β) (t : Table α) (projected : ℕ) (policy : ResizePolicy) :
    (t.map f).adjustment projected policy = t.adjustment projected policy := by
  rw [adjustment, adjustment, capacity_map]

/-! ## Lookup and replacement in place -/

/-- The item found is the one found by the predicate on the items as they are changed. -/
theorem find?_map (f : α → β) (t : Table α) (hash : UInt32) (eq : β → Bool) :
    (t.map f).find? hash eq = (t.find? hash fun x => eq (f x)).map f := by
  simp only [find?, map, Slots.search_map]
  cases t.slots.search hash fun x => eq (f x) with
  | none => rfl
  | some index =>
    simp only [Slots.get_map]
    cases t.slots.get index <;> rfl

/-- The item found is replaced by what takes its place, changed. -/
theorem update?_map {γ δ : Type*} {f : α → β} {k : γ → δ} {g : α → γ × α} {g' : β → δ × β}
    (h : ∀ x, g' (f x) = (k (g x).1, f (g x).2)) (t : Table α) (hash : UInt32) (eq : β → Bool) :
    (t.map f).update? hash eq g' = ((t.update? hash (fun x => eq (f x)) g).1.map k,
      (t.update? hash (fun x => eq (f x)) g).2.map f) := by
  simp only [update?, map, Slots.search_map]
  cases t.slots.search hash fun x => eq (f x) with
  | none => rfl
  | some index =>
    simp only [Slots.get_map]
    cases t.slots.get index with
    | none => rfl
    | some slot =>
      simp only [Option.map_some, Slot.item_map, Slot.hash_map, h, Slots.map_set]
      rfl

/-! ## Another number of slots -/

/-- Further entries are placed by their hashes. -/
theorem refill_map (f : α → β) (rest : List (Slot α)) (t : Table α) :
    refill (t.map f) (rest.map (Slot.map f)) = (refill t rest).onState (map f) := by
  induction rest generalizing t with
  | nil => rfl
  | cons slot rest ih =>
    rw [List.map_cons, refill, refill, map, Slots.place_map]
    rcases t.slots.place slot with ⟨slots, _ | index⟩
    · simp only [Slots.capacity_map]
      rfl
    · exact ih ⟨slots, t.size + 1, t.resizing⟩

/-- A rehash moves the entries by their hashes. -/
theorem resizeTo_map (f : α → β) (t : Table α) (available : Allocator) (capacity : ℕ) :
    (t.map f).resizeTo available capacity = (t.resizeTo available capacity).onState (map f) := by
  have hsize : (t.map f).size = t.size := rfl
  have hstart : (⟨Slots.vacant capacity, 0, true⟩ : Table β)
      = Table.map f ⟨Slots.vacant capacity, 0, true⟩ := by rw [map, Slots.map_vacant]
  unfold resizeTo
  rw [capacity_map, entries_map, hsize, hstart, refill_map]
  split_ifs <;> rfl

theorem resize_map (f : α → β) (t : Table α) (available : Allocator) (adjustment : Adjustment) :
    (t.map f).resize available adjustment = (t.resize available adjustment).onState (map f) := by
  cases adjustment with
  | grow =>
    rw [resize, resize, capacity_map]
    cases Count.mul? t.capacity 2 with
    | none => rfl
    | some capacity => exact resizeTo_map f t available capacity
  | shrink =>
    rw [resize, resize, capacity_map]
    exact resizeTo_map f t available _
  | keep => rfl

theorem reserve_map (f : α → β) (t : Table α) (available : Allocator) (additional : ℕ) :
    (t.map f).reserve available additional = (t.reserve available additional).onState (map f) := by
  have hsize : (t.map f).size = t.size := rfl
  rw [reserve, reserve, capacity_map, hsize]
  cases (Count.add? t.size additional).bind fittingCapacity? with
  | none => rfl
  | some capacity =>
    dsimp only
    split
    · exact resizeTo_map f t available capacity
    · rfl

theorem shrinkToFit_map (f : α → β) (t : Table α) (available : Allocator) :
    (t.map f).shrinkToFit available = (t.shrinkToFit available).map f := by
  have hsize : (t.map f).size = t.size := rfl
  rw [shrinkToFit, shrinkToFit, capacity_map, hsize]
  cases fittingCapacity? t.size with
  | none => rfl
  | some capacity =>
    dsimp only
    split
    · rw [resizeTo_map]
      rfl
    · rfl

/-! ## Insertion and removal -/

theorem growFrom_map (f : α → β) (available : Allocator) (policy : ResizePolicy) (left : ℕ)
    (t : Table α) :
    growFrom available policy left (t.map f)
      = (growFrom available policy left t).onState (map f) := by
  induction left generalizing t with
  | zero => rfl
  | succ left ih =>
    have hsize : (t.map f).size = t.size := rfl
    rw [growFrom, growFrom, adjustment_map, hsize, resize_map]
    split
    · exact Outcome.onState_andThen (fun _ u => ih u) _
    · rfl

theorem put_map (f : α → β) (t : Table α) (slot : Slot α) :
    (t.map f).put (slot.map f) = (t.put slot).onState (map f) := by
  simp only [put, map, Slots.capacity_map, Slots.place_map]
  split
  · rfl
  · rcases t.slots.place slot with ⟨slots, _ | index⟩
    · simp only [Slots.capacity_map]
      rfl
    · rfl

/-- A new entry is placed by its hash. -/
theorem insertNew_map (f : α → β) (t : Table α) (available : Allocator) (policy : ResizePolicy)
    (hash : UInt32) (item : α) :
    (t.map f).insertNew available policy hash (f item)
      = (t.insertNew available policy hash item).onState (map f) := by
  rw [insertNew, insertNew, makeRoom, makeRoom, growFrom_map]
  exact Outcome.onState_andThen (fun _ u => put_map f u ⟨hash, item⟩) _

theorem eraseAt_map (f : α → β) (t : Table α) (index : ℕ) :
    (t.map f).eraseAt index
      = ((t.eraseAt index).1.map (Slot.map f), (t.eraseAt index).2.map f) := by
  simp only [eraseAt, map, Slots.get_map]
  cases t.slots.get index with
  | none => rfl
  | some slot =>
    simp only [Option.map_some, Slots.erase_map]

/-- The entry removed is the one that the predicate on the items as they are changed selects. -/
theorem remove_map (f : α → β) (t : Table α) (available : Allocator) (policy : ResizePolicy)
    (hash : UInt32) (eq : β → Bool) :
    (t.map f).remove available policy hash eq
      = ⟨(t.remove available policy hash fun x => eq (f x)).answer.map f,
        (t.remove available policy hash fun x => eq (f x)).state.map f⟩ := by
  have hsize : (t.map f).size = t.size := rfl
  have hsearch : (t.map f).slots.search hash eq = t.slots.search hash fun x => eq (f x) :=
    Slots.search_map f t.slots hash eq
  rw [remove, remove, hsearch, adjustment_map, hsize]
  -- The load is weighed by sizes alone, so both shrink or neither does.
  cases t.slots.search hash fun x => eq (f x) with
  | none => rfl
  | some index =>
    simp only [eraseAt_map]
    rcases t.eraseAt index with ⟨_ | slot, u⟩
    · rfl
    · simp only [Option.map_some, resize_map]
      split <;> rfl

end Table

/-! ## Walks -/

/-- A walk with its items and its running state changed. -/
def Sweep.map {σ τ α β : Type*} (f : α → β) (g : σ → τ) (r : Sweep σ α) : Sweep τ β :=
  ⟨r.table.map f, r.removed.map f, g r.state⟩

/-- A place in a rewriting walk with the items changed. -/
def Editor.map {α β : Type*} (f : α → β) (e : Editor α) : Editor β :=
  ⟨e.passed.map (Option.map (Slot.map f)), e.pending.map (Option.map (Slot.map f)), e.remaining⟩

/-- The next item is rewritten as it is changed. -/
theorem Editor.next?_map {α β : Type*} {f : α → β} {h : α → α} {h' : β → β}
    (hh : ∀ x, h' (f x) = f (h x)) (e : Editor α) :
    (e.map f).next? h' = (e.next? h).map (Editor.map f) := by
  have hvacant : Option.isNone ∘ Option.map (Slot.map f) = Option.isNone := by
    funext cell
    cases cell <;> rfl
  simp only [next?, map, List.dropWhile_map, List.takeWhile_map, hvacant]
  rcases e.pending.dropWhile Option.isNone with _ | ⟨_ | slot, rest⟩
  · rfl
  · rfl
  · simp [map, Slot.map, hh]

/-- Each item passed is rewritten as it is changed. -/
theorem Editor.takeEach_map {α β γ : Type*} {f : α → β} {lift : γ → α → α} {lift' : γ → β → β}
    (hlift : ∀ c x, lift' c (f x) = f (lift c x)) (cs : List γ) (e : Editor α) :
    (e.map f).takeEach (cs.map lift') = (e.takeEach (cs.map lift)).map f := by
  induction cs generalizing e with
  | nil => rfl
  | cons c cs ih =>
    rw [List.map_cons, List.map_cons, takeEach, takeEach, next?_map (hlift c)]
    cases e.next? (lift c) with
    | none => rfl
    | some e => exact ih e

namespace Table

variable {α : Type u} {β : Type v}

section Visit

variable {σ : Type w} {τ : Type*} {f : α → β} {g : σ → τ} {visit : α → σ → Verdict α × σ}
  {visit' : β → τ → Verdict β × τ}

/-- The walk in place visits the items as they are changed. -/
theorem sweepFrom_map
    (h : ∀ x s, visit' (f x) (g s)
      = (⟨(visit x s).1.keep, f (visit x s).1.item⟩, g (visit x s).2))
    (turns slots index : ℕ) (t : Table α) (removed : List α) (state : σ) :
    sweepFrom visit' turns slots index (t.map f) (removed.map f) (g state)
      = (sweepFrom visit turns slots index t removed state).map f g := by
  induction turns generalizing slots index t removed state with
  | zero => simp [sweepFrom, Sweep.map]
  | succ turns ih =>
    cases slots with
    | zero => simp [sweepFrom, Sweep.map]
    | succ slots =>
      have hslots : (t.map f).slots.get index = (t.slots.get index).map (Slot.map f) :=
        Slots.get_map f t.slots index
      rw [sweepFrom, sweepFrom, hslots]
      cases t.slots.get index with
      | none => exact ih slots (index + 1) t removed state
      | some slot =>
        have hset : (t.map f).setItem index ⟨slot.hash, f (visit slot.item state).1.item⟩
            = (t.setItem index ⟨slot.hash, (visit slot.item state).1.item⟩).map f := by
          simp only [setItem, map, Slots.map_set]
          rfl
        simp only [Option.map_some, Slot.item_map, Slot.hash_map, h, hset, eraseAt_map]
        -- Both visits decide alike; after a removal the walk stays at the slot.
        split
        · exact ih slots (index + 1) _ removed _
        · rcases eraseAt _ index with ⟨_ | gone, u⟩
          · exact ih (slots + 1) index u removed _
          · exact ih (slots + 1) index u (gone.item :: removed) _

/-- So does the rebuild. -/
theorem rebuildFrom_map
    (h : ∀ x s, visit' (f x) (g s)
      = (⟨(visit x s).1.keep, f (visit x s).1.item⟩, g (visit x s).2))
    (rest : List (Slot α)) (t : Table α) (removed : List α) (state : σ) :
    rebuildFrom visit' (rest.map (Slot.map f)) (t.map f) (removed.map f) (g state)
      = (rebuildFrom visit rest t removed state).map f g := by
  induction rest generalizing t removed state with
  | nil => simp [rebuildFrom, Sweep.map]
  | cons slot rest ih =>
    rw [List.map_cons, rebuildFrom, rebuildFrom, map]
    simp only [Slot.item_map, Slot.hash_map, h]
    split
    · have hplace := Slots.place_map f t.slots ⟨slot.hash, (visit slot.item state).1.item⟩
      rw [Slot.map] at hplace
      rw [hplace]
      rcases t.slots.place ⟨slot.hash, (visit slot.item state).1.item⟩ with ⟨slots, _ | index⟩
      · exact ih ⟨slots, t.size, t.resizing⟩ removed _
      · exact ih ⟨slots, t.size + 1, t.resizing⟩ removed _
    · exact ih t (_ :: removed) _

/-- Keeping some of the entries visits the items as they are changed. -/
theorem retain_map
    (h : ∀ x s, visit' (f x) (g s)
      = (⟨(visit x s).1.keep, f (visit x s).1.item⟩, g (visit x s).2))
    (t : Table α) (state : σ) :
    (t.map f).retain visit' (g state) = (t.retain visit state).map f g := by
  have hfirst : (t.map f).slots.firstVacant? = t.slots.firstVacant? :=
    Slots.firstVacant?_map f t.slots
  have hsize : (t.map f).size = t.size := rfl
  rw [retain, retain, hfirst, capacity_map, hsize, entries_map, clear_map]
  cases t.slots.firstVacant? with
  | none => exact rebuildFrom_map h t.entries t.clear [] state
  | some vacantIndex => exact sweepFrom_map h _ _ _ t [] state

end Visit

/-- A rewriting walk rewrites the items as they are changed. -/
theorem mapEach_map {γ : Type*} {f : α → β} {lift : γ → α → α} {lift' : γ → β → β}
    (hlift : ∀ c x, lift' c (f x) = f (lift c x)) (cs : List γ) (t : Table α) :
    (t.map f).mapEach (cs.map lift') = (t.mapEach (cs.map lift)).map f := by
  have heditor : (t.map f).editor = t.editor.map f := by
    simp [editor, Editor.map, map, Slots.map]
  rw [mapEach, mapEach, heditor, Editor.takeEach_map hlift]
  simp [edited, map, Editor.slots, Editor.map, Slots.map]

/-! ## Statistics -/

theorem displacements_map (f : α → β) (t : Table α) :
    (t.map f).displacements = t.displacements := by
  rw [displacements, displacements, capacity_map, map, Slots.map, Array.toList_map,
    List.zipIdx_map, List.filterMap_map]
  refine List.filterMap_congr fun p _ => ?_
  obtain ⟨_ | slot, index⟩ := p <;> rfl

/-- Displacements do not depend on the items. -/
theorem histogram_map (f : α → β) (t : Table α) : (t.map f).histogram = t.histogram := by
  rw [histogram, histogram, displacements_map]

theorem stats_map (f : α → β) (t : Table α) : (t.map f).stats = t.stats := by
  have hsize : (t.map f).size = t.size := rfl
  simp only [stats, loadFactor, histogram_map, capacity_map, hsize]

end Table

end OpenAddressing
