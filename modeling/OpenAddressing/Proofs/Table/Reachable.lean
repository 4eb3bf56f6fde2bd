import OpenAddressing.Proofs.Table.Retain
import OpenAddressing.Proofs.Table.Rewriting

/-!
# The tables that come about

`Reachable` is every table that comes about from a new one by any calls, in any order, with any
arguments, whichever slots can be obtained. Each call keeps a table well formed (`Step.wellFormed`),
so each reachable table is (`Reachable.wellFormed`). `RobinHood` is what that says slot by slot, and
`robinHood_of_reachable` that it holds of every reachable table.
-/

namespace OpenAddressing

universe u

namespace Table

variable {α : Type u} {t u : Table α}

/-! ## Calls and the tables they lead to -/

/-- What one call makes of a table, with any arguments, whether it succeeds or not. -/
inductive Step : Table α → Table α → Prop where
  /-- An insertion. -/
  | insert (t : Table α) (available : Allocator) (policy : ResizePolicy) (hash : UInt32) (item : α)
      (eq : α → Bool) : Step t (t.insert available policy hash item eq).state
  /-- A change of the item found. -/
  | update (t : Table α) (hash : UInt32) (eq : α → Bool) (f : α → α) :
      Step t (t.update? hash eq fun item => ((), f item)).2
  /-- A removal. -/
  | remove (t : Table α) (available : Allocator) (policy : ResizePolicy) (hash : UInt32)
      (eq : α → Bool) : Step t (t.remove available policy hash eq).state
  /-- A change of the number of slots. -/
  | resize (t : Table α) (available : Allocator) (adjustment : Adjustment) :
      Step t (t.resize available adjustment).state
  /-- A reservation. -/
  | reserve (t : Table α) (available : Allocator) (additional : ℕ) :
      Step t (t.reserve available additional).state
  /-- A reduction to the slots that fit. -/
  | shrinkToFit (t : Table α) (available : Allocator) : Step t (t.shrinkToFit available)
  /-- A walk that keeps some of the entries. -/
  | retain {σ : Type u} (t : Table α) (visit : α → σ → Verdict α × σ) (state : σ) :
      Step t (t.retain visit state).table
  /-- The removal of all entries. -/
  | clear (t : Table α) : Step t t.clear
  /-- A walk that takes all entries. -/
  | drain (t : Table α) : Step t t.drain.2
  /-- A copy. -/
  | copy (t : Table α) : Step t t.copy
  /-- A walk that rewrites the items it passes. -/
  | mapFirst (t : Table α) (n : ℕ) (f : α → α) : Step t (t.mapFirst n f)

/-- The tables that come about from a new one. -/
inductive Reachable : Table α → Prop where
  /-- A new table of the fewest slots. -/
  | empty : Reachable empty
  /-- A new table on at least `n` slots. -/
  | withCapacity {available : Allocator} {n : ℕ} {t : Table α}
      (h : withCapacity available n = .ok t) : Reachable t
  /-- The table that a call leaves. -/
  | step {t u : Table α} (ht : Reachable t) (h : Step t u) : Reachable u

/-- An insertion keeps a table well formed. -/
theorem WellFormed.insert (hw : t.WellFormed) (available : Allocator) (policy : ResizePolicy)
    (hash : UInt32) (item : α) (eq : α → Bool) :
    (t.insert available policy hash item eq).state.WellFormed := by
  rcases t.exists_selects_or hash eq with ⟨index, slot, hselect⟩ | hnone
  · rw [hselect.insert_eq]
    exact hw.overwrite hselect.get rfl
  · rw [insert_of_search_none hnone]
    rcases insertNew_cases hw available policy hash item with ⟨i, u, hu, hwu, -⟩ |
      ⟨e, u, hu, hre, -⟩
    · rw [hu]
      exact hwu
    · rw [hu]
      exact hre.wellFormed

/-- A removal keeps a table well formed. -/
theorem WellFormed.remove (hw : t.WellFormed) (available : Allocator) (policy : ResizePolicy)
    (hash : UInt32) (eq : α → Bool) : (t.remove available policy hash eq).state.WellFormed := by
  rcases t.exists_selects_or hash eq with ⟨index, slot, hselect⟩ | hnone
  · obtain ⟨u, hu, hwu, -⟩ := hselect.remove_spec hw available policy
    rw [hu]
    exact hwu
  · rw [remove_of_search_none hnone]
    exact hw

/-- A change of the item found keeps a table well formed. -/
theorem WellFormed.update? {β : Type*} (hw : t.WellFormed) (hash : UInt32) (eq : α → Bool)
    (f : α → β × α) : (t.update? hash eq f).2.WellFormed := by
  rcases t.exists_selects_or hash eq with ⟨index, slot, hselect⟩ | hnone
  · rw [hselect.update?_eq]
    exact hw.overwrite hselect.get rfl
  · rw [update?_of_search_none hnone]
    exact hw

/-- Every call keeps a table well formed. -/
theorem Step.wellFormed (h : Step t u) (hw : t.WellFormed) : u.WellFormed := by
  cases h with
  | insert _ available policy hash item eq => exact hw.insert available policy hash item eq
  | update _ hash eq f => exact hw.update? hash eq _
  | remove _ available policy hash eq => exact hw.remove available policy hash eq
  | resize _ available adjustment => exact (rehash_resize hw available adjustment).wellFormed
  | reserve _ available additional => exact (rehash_reserve hw available additional).wellFormed
  | shrinkToFit _ available => exact (rehash_shrinkToFit hw available).wellFormed
  | retain _ visit state => exact (retain_spec hw visit state).wellFormed
  | clear => exact hw.clear
  | drain => exact hw.clear
  | copy => exact hw.with_resizing false
  | mapFirst _ n f => exact hw.mapFirst n f

/-- Every table that comes about is well formed. -/
theorem Reachable.wellFormed (h : t.Reachable) : t.WellFormed := by
  induction h with
  | empty => exact wellFormed_empty
  | withCapacity h => exact wellFormed_withCapacity h
  | step _ h ih => exact h.wellFormed ih

/-! ## The order, slot by slot -/

/-- The layout of a robin-hood table, slot by slot. The slot before `i` is the one `capacity - 1`
slots on. -/
structure RobinHood (t : Table α) : Prop where
  /-- The number of slots is a power of two. -/
  capacity_eq : ∃ k, t.capacity = 2 ^ k
  /-- There are at least four slots. -/
  four_le : 4 ≤ t.capacity
  /-- The size is the number of slots taken. -/
  size_eq : t.size = (List.range t.capacity).countP fun i => (t.slots.get i).isSome
  /-- An entry away from its home bucket follows another that is displaced by one less at least. -/
  follows : ∀ i slot, t.slots.get i = some slot → 0 < displacement slot.hash i t.capacity →
    ∃ before, t.slots.get (i + (t.capacity - 1)) = some before ∧
      displacement slot.hash i t.capacity - 1
        ≤ displacement before.hash (i + (t.capacity - 1)) t.capacity
  /-- No slot from the home bucket of an entry to the entry is vacant. -/
  taken : ∀ i slot, t.slots.get i = some slot → ∀ k ≤ displacement slot.hash i t.capacity,
    t.slots.get (home slot.hash t.capacity + k) ≠ none
  /-- Some slot is vacant or holds an entry at its home bucket. -/
  start : ∃ i < t.capacity, t.slots.get i = none ∨
    ∃ slot, t.slots.get i = some slot ∧ displacement slot.hash i t.capacity = 0

/-- Every table that comes about, completely full ones included, has the robin-hood layout. -/
theorem robinHood_of_reachable (h : t.Reachable) : t.RobinHood := by
  have hw := h.wellFormed
  have hc := hw.capacity_pos
  refine ⟨hw.capacity_eq, hw.minCapacity_le, ?_, ?_, ?_, ?_⟩
  -- The size counts the slots taken.
  · rw [hw.size_eq, entries, Slots.entries_eq_stretch, Slots.stretch,
      List.length_filterMap_eq_countP, List.range_eq_range']
    rfl
  -- The depth rises by at most one from the slot before.
  · intro i slot hget hpos
    have hdepth := Slots.depth_of_get hget
    have hrise := hw.ordered.depth_le_depthBefore hc i
    change 0 < t.slots.displacementAt i slot at hpos
    unfold Slots.depthBefore at hrise
    obtain ⟨before, hbefore, hdbefore⟩ := Slots.exists_get_of_depth_pos
      (show 0 < t.slots.depth (i + (t.slots.capacity - 1)) by omega)
    refine ⟨before, hbefore, ?_⟩
    show t.slots.displacementAt i slot - 1
      ≤ t.slots.displacementAt (i + (t.slots.capacity - 1)) before
    omega
  -- Up to the entry the depths are positive.
  · intro i slot hget k hk hnone
    have hplace := home_add_displacement slot.hash i hc
    have hdepth := Slots.depth_of_get hget
    rw [← Slots.depth_congr t.slots hc hplace] at hdepth
    have htaken := hw.ordered.depth_home_add hdepth hk
    have hzero : t.slots.depth (home slot.hash t.slots.capacity + k) = 0 :=
      Slots.depth_eq_zero_iff.2 hnone
    omega
  -- A run starts somewhere.
  · obtain ⟨i, hi, hstart⟩ := hw.hasRunStart
    refine ⟨i, hi, ?_⟩
    cases hget : t.slots.get i with
    | none => exact Or.inl rfl
    | some slot => exact Or.inr ⟨slot, rfl, hstart slot hget⟩

/-- A full table whose entries go round the end of the ring: none of the hashes 3, 3, 3 and 0 has
its home bucket in the two slots between. -/
theorem robinHood_of_full : ∃ t : Table ℕ, t.Reachable ∧
    (List.range 4).map (fun i => (t.slots.get i).map fun slot => displacement slot.hash i 4)
      = [some 1, some 2, some 2, some 0] ∧ t.RobinHood := by
  have hreach : ([3, 3, 3, 0].foldl
      (fun t hash => (t.insert (fun _ => true) .disabled hash 7 fun _ => false).state)
      (empty : Table ℕ)).Reachable :=
    .step (.step (.step (.step .empty (.insert _ _ _ 3 _ _)) (.insert _ _ _ 3 _ _))
      (.insert _ _ _ 3 _ _)) (.insert _ _ _ 0 _ _)
  exact ⟨_, hreach, by decide, robinHood_of_reachable hreach⟩

end Table

end OpenAddressing
