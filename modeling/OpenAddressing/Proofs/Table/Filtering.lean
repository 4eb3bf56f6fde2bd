import Mathlib.Order.Bounds.Basic
import OpenAddressing.Proofs.Table.Mapping
import OpenAddressing.Proofs.Table.Retain

/-!
# Keeping some of the entries filters them

`visits` lists the visits to entries one after another: which entry each comes to, the running state
it is given, and what it decides. What a walk over the entries keeps and removes are filters of that
list (`kept_visitAll`, `removed_visitAll`).

The walk of `retain` is one over `round`, the entries in slot order from the slot after the first
vacant one once round the ring, or from the first slot if none is vacant. That these are its calls,
and no others, is seen with a visit that records the items and states it is given
(`visitAll_recorded`); recording changes nothing else, since a table does not look at what the
running state is (`retain_recorded`). `FiltersExactly` puts this together, and every well-formed
table has it.
-/

namespace OpenAddressing

universe u v w

/-! ## Visits -/

/-- A visit that a walk makes. -/
structure Visit (σ : Type v) (α : Type u) where
  /-- The entry it comes to, as it was stored before. -/
  slot : Slot α
  /-- The running state it is given. -/
  state : σ
  /-- What it decides about the item. -/
  verdict : Verdict α

/-- The entry as the visit leaves it. -/
def Visit.left {α : Type u} {σ : Type v} (v : Visit σ α) : Slot α := ⟨v.slot.hash, v.verdict.item⟩

section Visits

variable {α : Type u} {σ : Type v} (visit : α → σ → Verdict α × σ)

/-- The visits to entries one after another, each given the state that the one before leaves. -/
def visits : List (Slot α) → σ → List (Visit σ α)
  | [], _ => []
  | slot :: rest, state =>
    ⟨slot, state, (visit slot.item state).1⟩ :: visits rest (visit slot.item state).2

/-- What the visits keep is what they leave of the entries they decide to keep. -/
theorem kept_visitAll (l : List (Slot α)) (state : σ) :
    (visitAll visit l state).kept
      = ((visits visit l state).filter (·.verdict.keep)).map Visit.left := by
  induction l generalizing state with
  | nil => rfl
  | cons slot rest ih =>
    rw [visits]
    cases hkeep : (visit slot.item state).1.keep with
    | true => simp [visitAll_cons_of_keep hkeep, hkeep, ih, Visit.left]
    | false => simp [visitAll_cons_of_not_keep hkeep, hkeep, ih]

/-- What the visits remove are the items they leave of the others. -/
theorem removed_visitAll (l : List (Slot α)) (state : σ) :
    (visitAll visit l state).removed
      = ((visits visit l state).filter fun v => !v.verdict.keep).map fun v => v.verdict.item := by
  induction l generalizing state with
  | nil => rfl
  | cons slot rest ih =>
    rw [visits]
    cases hkeep : (visit slot.item state).1.keep with
    | true => simp [visitAll_cons_of_keep hkeep, hkeep, ih]
    | false => simp [visitAll_cons_of_not_keep hkeep, hkeep, ih]

/-- The running state goes from visit to visit. -/
theorem state_visitAll (l : List (Slot α)) (state : σ) :
    (visitAll visit l state).state = l.foldl (fun s slot => (visit slot.item s).2) state := by
  induction l generalizing state with
  | nil => rfl
  | cons slot rest ih =>
    rw [List.foldl_cons, ← ih]
    cases hkeep : (visit slot.item state).1.keep with
    | true => rw [visitAll_cons_of_keep hkeep]
    | false => rw [visitAll_cons_of_not_keep hkeep]

/-- The visit that also records the items and running states it is given, the latest last. -/
def recorded (item : α) (state : σ × List (α × σ)) : Verdict α × σ × List (α × σ) :=
  ((visit item state.1).1, (visit item state.1).2, state.2 ++ [(item, state.1)])

/-- What is recorded are the visits. -/
theorem visitAll_recorded (l : List (Slot α)) (state : σ) (log : List (α × σ)) :
    (visitAll (recorded visit) l (state, log)).state.2
      = log ++ (visits visit l state).map fun v => (v.slot.item, v.state) := by
  induction l generalizing state log with
  | nil => simp [visitAll, visits]
  | cons slot rest ih =>
    have hrest := ih (visit slot.item state).2 (log ++ [(slot.item, state)])
    rw [List.append_assoc] at hrest
    rw [visits, List.map_cons]
    cases hkeep : (recorded visit slot.item (state, log)).1.keep with
    | true =>
      rw [visitAll_cons_of_keep hkeep]
      exact hrest
    | false =>
      rw [visitAll_cons_of_not_keep hkeep]
      exact hrest

end Visits

/-! ## The walk over a table -/

namespace Slots

variable {α : Type u} {s : Slots α}

/-- The first vacant slot is the least that is vacant. -/
theorem isLeast_of_firstVacant? {i : ℕ} (h : s.firstVacant? = some i) :
    IsLeast {i | i < s.capacity ∧ s.get i = none} i := by
  unfold firstVacant? at h
  obtain ⟨hlt, -, hbefore⟩ := Array.findIdx?_eq_some_iff_getElem.1 h
  refine ⟨⟨hlt, get_firstVacant? h⟩, fun j ⟨hj, hnone⟩ => ?_⟩
  by_contra hji
  have htaken := hbefore j (by omega)
  rw [get_of_lt s hj] at hnone
  exact htaken (Option.isNone_iff_eq_none.2 hnone)

/-- If there is no first vacant slot, none is vacant. -/
theorem get_ne_none_of_firstVacant? (h : s.firstVacant? = none) {i : ℕ} (hi : i < s.capacity) :
    s.get i ≠ none := by
  unfold firstVacant? at h
  have htaken := Array.findIdx?_eq_none_iff.1 h s.cells[i] (Array.getElem_mem hi)
  rw [get_of_lt s hi]
  exact Option.isSome_iff_ne_none.1 (Option.isNone_eq_false_iff.1 htaken)

end Slots

namespace Table

variable {α : Type u} {σ : Type v} {t : Table α}

/-- The slot from which a walk that keeps some of the entries starts: the one after the first vacant
slot, or the first if none is vacant. -/
def visitStart (t : Table α) : ℕ :=
  match t.slots.firstVacant? with
  | none => 0
  | some vacantIndex => vacantIndex + 1

/-- The entries in slot order from there on, once round the ring. -/
def round (t : Table α) : List (Slot α) := t.slots.stretch t.visitStart t.capacity

/-- They are visited in this order. -/
theorem visitOrder_eq_round (hw : t.WellFormed) : t.visitOrder = t.round := by
  unfold visitOrder round visitStart
  cases hfirst : t.slots.firstVacant? with
  | none => exact Slots.entries_eq_stretch t.slots
  | some vacantIndex =>
    -- The last slot of the round is the vacant one before the first.
    have hc : t.capacity - 1 + 1 = t.slots.capacity := Nat.sub_add_cancel hw.capacity_pos
    have hlast : t.slots.get (vacantIndex + 1 + (t.capacity - 1)) = none := by
      rw [show vacantIndex + 1 + (t.capacity - 1) = vacantIndex + t.slots.capacity by omega,
        Slots.get_add_capacity, Slots.get_firstVacant? hfirst]
    have hround := t.slots.stretch_succ_last (vacantIndex + 1) (t.capacity - 1)
    rw [hc, hlast, Option.toList_none, List.append_nil] at hround
    exact hround.symm

/-- Keeping some of the entries visits those of the round and leaves what the visits keep. -/
theorem retain_round (hw : t.WellFormed) (visit : α → σ → Verdict α × σ) (state : σ) :
    (t.retain visit state).Visits t.capacity 0 [] (visitAll visit t.round state) := by
  rw [← visitOrder_eq_round hw]
  exact retain_spec hw visit state

/-- Recording the visits changes nothing else. -/
theorem retain_recorded (t : Table α) (visit : α → σ → Verdict α × σ) (state : σ)
    (log : List (α × σ)) :
    (t.retain (recorded visit) (state, log)).map id Prod.fst = t.retain visit state := by
  have hforget : (t.map id).retain visit state
      = (t.retain (recorded visit) (state, log)).map id Prod.fst :=
    retain_map (g := Prod.fst) (fun _ _ => rfl) t (state, log)
  rw [← hforget, map_id]

/-- Keeping some of the entries visits each of them once and filters them by the visits. -/
structure FiltersExactly (t : Table α) : Prop where
  /-- The walk starts at the first slot of a full table. -/
  start_of_full : (∀ i < t.capacity, t.slots.get i ≠ none) → t.visitStart = 0
  /-- Otherwise it starts after the first vacant slot. -/
  start_of_vacant : ∀ i, IsLeast {i | i < t.capacity ∧ t.slots.get i = none} i →
    t.visitStart = i + 1
  /-- Each entry is in the round once. -/
  once : (t.round : Multiset (Slot α)) = t.contents
  /-- The calls are the visits to the entries in that order, each given the state that the one
  before leaves. -/
  calls_eq : ∀ {σ : Type w} (visit : α → σ → Verdict α × σ) (state : σ),
    (t.retain (recorded visit) (state, [])).state.2
      = (visits visit t.round state).map fun v => (v.slot.item, v.state)
  /-- Recording them changes nothing else. -/
  recorded_eq : ∀ {σ : Type w} (visit : α → σ → Verdict α × σ) (state : σ),
    (t.retain (recorded visit) (state, [])).map id Prod.fst = t.retain visit state
  /-- The running state is that of the last visit. -/
  state_eq : ∀ {σ : Type w} (visit : α → σ → Verdict α × σ) (state : σ),
    (t.retain visit state).state = t.round.foldl (fun s slot => (visit slot.item s).2) state
  /-- The table holds the entries that are kept, with their items as the visits leave them. -/
  contents_eq : ∀ {σ : Type w} (visit : α → σ → Verdict α × σ) (state : σ),
    (t.retain visit state).table.contents
      = ((visits visit t.round state).filter (·.verdict.keep)).map Visit.left
  /-- The items of the others are handed out in the order of the visits. -/
  removed_eq : ∀ {σ : Type w} (visit : α → σ → Verdict α × σ) (state : σ),
    (t.retain visit state).removed
      = ((visits visit t.round state).filter fun v => !v.verdict.keep).map fun v => v.verdict.item
  /-- The size is the number of entries kept. -/
  size_eq : ∀ {σ : Type w} (visit : α → σ → Verdict α × σ) (state : σ),
    (t.retain visit state).table.size
      = ((visits visit t.round state).filter (·.verdict.keep)).length
  /-- The number of slots stays. -/
  capacity_eq : ∀ {σ : Type w} (visit : α → σ → Verdict α × σ) (state : σ),
    (t.retain visit state).table.capacity = t.capacity

/-- A well-formed table filters its entries exactly. -/
theorem WellFormed.filtersExactly (hw : t.WellFormed) : FiltersExactly.{u, w} t where
  start_of_full hfull := by
    unfold visitStart
    cases hfirst : t.slots.firstVacant? with
    | none => rfl
    | some i =>
      obtain ⟨⟨hi, hvacant⟩, -⟩ := Slots.isLeast_of_firstVacant? hfirst
      exact absurd hvacant (hfull i hi)
  start_of_vacant i hi := by
    unfold visitStart
    cases hfirst : t.slots.firstVacant? with
    | none => exact absurd hi.1.2 (Slots.get_ne_none_of_firstVacant? hfirst hi.1.1)
    | some j => rw [(Slots.isLeast_of_firstVacant? hfirst).unique hi]
  once := Slots.coe_stretch_capacity t.slots t.visitStart
  calls_eq visit state := by
    rw [(retain_round hw (recorded visit) (state, [])).state_eq, visitAll_recorded,
      List.nil_append]
  recorded_eq visit state := retain_recorded t visit state []
  state_eq visit state := by
    rw [(retain_round hw visit state).state_eq, state_visitAll]
  contents_eq visit state := by
    rw [(retain_round hw visit state).contents, kept_visitAll, zero_add]
  removed_eq visit state := by
    rw [(retain_round hw visit state).removed_eq, removed_visitAll, List.nil_append]
  size_eq visit state := by
    have hvisits := retain_round hw visit state
    rw [hvisits.wellFormed.size_eq_card, hvisits.contents, kept_visitAll, zero_add,
      Multiset.coe_card, List.length_map]
  capacity_eq visit state := (retain_round hw visit state).capacity_eq

end Table

end OpenAddressing
