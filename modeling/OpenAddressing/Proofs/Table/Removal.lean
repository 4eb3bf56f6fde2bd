import OpenAddressing.Proofs.Table.Resizing

/-!
# What a removal does, and whether the table shrinks after it

A removal decides before it takes the entry out whether the table is to shrink: under the policy
that shrinks, above the fewest slots, when the entries that stay are at most a fifth of the slots
(`ShrinkDue`). The entry is taken out in any case, by moving others into its place, and then the
rest may be placed anew on half the slots. These are more than twice the entries, so the change is
never refused for want of room, and when the slots cannot be obtained the table stays as large as it
was (`Selects.shrink_ne_capacity`, `Selects.capacity_remove`).

`RemovesExactly` states the outcome. Whether or not the table has shrunk, each entry that stays is
found by what tells it from the others of its hash, since in a well-formed table a search misses
nothing.
-/

namespace OpenAddressing

universe u

namespace Table

variable {α : Type u} {t : Table α} {available : Allocator} {policy : ResizePolicy}
  {hash : UInt32} {eq : α → Bool}

/-- The table may shrink, and without one of its entries the rest are at most a fifth of its
slots. -/
def ShrinkDue (t : Table α) (policy : ResizePolicy) : Prop :=
  policy = .growAndShrink ∧ 4 < t.capacity ∧ 5 * (t.size - 1) ≤ t.capacity

/-- A removal shrinks the table exactly when that is due. -/
theorem adjustment_eq_shrink_iff (hw : t.WellFormed) (hlimit : t.capacity < Count.limit) :
    t.adjustment (t.size - 1) policy = .shrink ↔ t.ShrinkDue policy := by
  have hshrinks : policy.shrinks = true ↔ policy = .growAndShrink := by cases policy <;> decide
  have hlargest := Count.lt_largest hw.capacity_eq hlimit
  rw [adjustment, adjustmentFor_eq_shrink_iff hlargest, hshrinks]
  rfl

namespace Selects

variable {index : ℕ} {slot : Slot α}

/-- When the table is to shrink, half its slots are gone to if they can be obtained. -/
theorem capacity_shrink (h : t.Selects hash eq index slot) (hw : t.WellFormed)
    (hdue : t.ShrinkDue policy) (available : Allocator) :
    ((t.eraseAt index).2.resize available .shrink).state.capacity
      = if available (t.capacity / 2) then t.capacity / 2 else t.capacity := by
  obtain ⟨-, hmin, hload⟩ := hdue
  obtain ⟨hwv, hcap, hsize⟩ := h.eraseAt_sizes hw
  rw [← hcap] at hmin hload ⊢
  exact capacity_resize_shrink hwv available hmin (by omega)

/-- That is never refused for want of room, since the entries that stay leave one of them vacant. -/
theorem shrink_ne_capacity (h : t.Selects hash eq index slot) (hw : t.WellFormed)
    (hdue : t.ShrinkDue policy) (available : Allocator) (n : ℕ) :
    ((t.eraseAt index).2.resize available .shrink).answer ≠ .error (.capacity n) := by
  obtain ⟨-, hmin, hload⟩ := hdue
  obtain ⟨hwv, hcap, hsize⟩ := h.eraseAt_sizes hw
  generalize (t.eraseAt index).2 = v at hwv hcap hsize ⊢
  have hroom : v.size < v.shrunken := by
    unfold shrunken
    omega
  -- Of the four outcomes only the second is such a refusal, and there is room.
  intro hrefused
  rcases resize_shrink_cases hwv available with ⟨-, heq⟩ | ⟨-, hfull, -⟩ | ⟨-, -, -, heq⟩ |
    ⟨-, u, heq, -⟩
  · rw [heq] at hrefused
    cases hrefused
  · omega
  · rw [heq] at hrefused
    cases hrefused
  · rw [heq] at hrefused
    cases hrefused

/-- A removal halves the slots when that is due and they can be obtained, and leaves them
otherwise. -/
theorem capacity_remove (h : t.Selects hash eq index slot) (hw : t.WellFormed)
    (hlimit : t.capacity < Count.limit) (available : Allocator) (policy : ResizePolicy) :
    (t.ShrinkDue policy → available (t.capacity / 2) = true →
      2 * (t.remove available policy hash eq).state.capacity = t.capacity) ∧
    (¬ (t.ShrinkDue policy ∧ available (t.capacity / 2) = true) →
      (t.remove available policy hash eq).state.capacity = t.capacity) := by
  have hiff : t.adjustment (t.size - 1) policy = .shrink ↔ t.ShrinkDue policy :=
    adjustment_eq_shrink_iff hw hlimit
  rw [h.remove_eq hw]
  by_cases hdue : t.ShrinkDue policy
  · have hshrink := h.capacity_shrink hw hdue available
    obtain ⟨-, -, htwice⟩ := half_spec hw.capacity_eq hdue.2.1
    rw [if_pos (hiff.2 hdue)]
    dsimp only
    rw [hshrink]
    refine ⟨fun _ hyes => ?_, fun hnot => if_neg fun hyes => hnot ⟨hdue, hyes⟩⟩
    rw [if_pos hyes]
    omega
  · -- Nothing is done after the entry has been taken out, which leaves the slots.
    obtain ⟨-, hcap, -⟩ := h.eraseAt_sizes hw
    rw [if_neg (mt hiff.1 hdue)]
    exact ⟨fun h => absurd h hdue, fun _ => hcap⟩

end Selects

/-- What a removal with a match owes a table. -/
structure RemovesExactly (t : Table α) (available : Allocator) (policy : ResizePolicy)
    (hash : UInt32) (eq : α → Bool) : Prop where
  /-- It answers the item that looking up finds, which is accepted, and its entry is taken out and
  nothing else. -/
  removed : ∃ item, (t.remove available policy hash eq).answer = .ok item ∧
    t.find? hash eq = some item ∧ eq item = true ∧
    ⟨hash, item⟩ ::ₘ (t.remove available policy hash eq).state.contents = t.contents
  /-- There is one entry fewer. -/
  size : (t.remove available policy hash eq).state.size + 1 = t.size
  /-- The slots are halved when that is due and they can be obtained. -/
  halved : t.ShrinkDue policy → available (t.capacity / 2) = true →
    2 * (t.remove available policy hash eq).state.capacity = t.capacity
  /-- Otherwise they stay. -/
  kept : ¬ (t.ShrinkDue policy ∧ available (t.capacity / 2) = true) →
    (t.remove available policy hash eq).state.capacity = t.capacity
  /-- The change of the slots that is made when it is due is never refused for want of room. -/
  room : ∀ index slot, t.Selects hash eq index slot → t.ShrinkDue policy →
    (t.remove available policy hash eq).state
        = ((t.eraseAt index).2.resize available .shrink).state ∧
      ∀ n, ((t.eraseAt index).2.resize available .shrink).answer ≠ .error (.capacity n)
  /-- Each entry that stays is found by its hash and a predicate that holds for it and for no other
  entry of that hash. -/
  survivors : ∀ slot ∈ (t.remove available policy hash eq).state.contents, ∀ accept : α → Bool,
    accept slot.item = true →
    (∀ other ∈ (t.remove available policy hash eq).state.contents, other.hash = slot.hash →
      accept other.item = true → other = slot) →
    (t.remove available policy hash eq).state.find? slot.hash accept = some slot.item

/-- A removal with a match takes one entry out of a table that comes about, completely full ones
included, and every other entry is still found, whatever becomes of the slots. -/
theorem removesExactly_of_reachable (h : t.Reachable) (hmatch : t.Matches hash eq)
    (available : Allocator) (policy : ResizePolicy) :
    t.RemovesExactly available policy hash eq := by
  have hw := h.wellFormed
  have hlimit := h.capacity_lt_limit
  obtain ⟨index, slot, hselect⟩ := hmatch.exists_selects hw
  obtain ⟨u, hu, hwu, hcontents⟩ := hselect.remove_spec hw available policy
  have hslot : (⟨hash, slot.item⟩ : Slot α) = slot := by rw [← hselect.hash_eq]
  have hcapacity := hselect.capacity_remove hw hlimit available policy
  constructor
  case removed =>
    rw [hu]
    exact ⟨slot.item, rfl, hselect.find?_eq, hselect.accepted, by rw [hslot, hcontents]⟩
  case size =>
    rw [hu, hw.size_eq_card, ← hcontents, Multiset.card_cons, ← hwu.size_eq_card]
  case halved => exact hcapacity.1
  case kept => exact hcapacity.2
  case room =>
    -- The slots are changed on the table that is left when the entry has been taken out.
    intro index slot hselect hdue
    refine ⟨?_, hselect.shrink_ne_capacity hw hdue available⟩
    rw [hselect.remove_eq hw, if_pos ((adjustment_eq_shrink_iff hw hlimit).2 hdue)]
  case survivors =>
    rw [hu]
    exact fun slot hmem accept haccept honly => find?_eq_some_of_mem hwu hmem haccept honly

/-- In a full table whose last entry lies round the end of the ring, and in one of eight slots with
two entries of one hash, of which the second lies round the end: after the removal of the first the
slots are halved, or stay if four of them cannot be obtained. -/
theorem removesExactly_of_wrapped : ∃ t u : Table ℕ, t.Reachable ∧ t.size = t.capacity ∧
    t.Matches 3 (· == 10) ∧ t.RemovesExactly (fun _ => true) .growAndShrink 3 (· == 10) ∧
    u.Reachable ∧ u.capacity = 8 ∧ u.ShrinkDue .growAndShrink ∧ u.Matches 7 (· == 10) ∧
    u.RemovesExactly (fun _ => true) .growAndShrink 7 (· == 10) ∧
    (u.remove (fun _ => true) .growAndShrink 7 (· == 10)).state.capacity = 4 ∧
    (u.remove (fun _ => true) .growAndShrink 7 (· == 10)).state.find? 7 (· == 11) = some 11 ∧
    u.RemovesExactly (fun _ => false) .growAndShrink 7 (· == 10) ∧
    (u.remove (fun _ => false) .growAndShrink 7 (· == 10)).answer = .ok 10 ∧
    (u.remove (fun _ => false) .growAndShrink 7 (· == 10)).state.capacity = 8 := by
  have ht : ([(3, 10), (3, 11), (3, 12), (0, 13)].foldl (fun t p =>
      (t.insert (fun _ => true) .disabled p.1 p.2 (· == p.2)).state) (empty : Table ℕ)).Reachable :=
    .step (.step (.step (.step .empty (.insert _ _ _ 3 _ _)) (.insert _ _ _ 3 _ _))
      (.insert _ _ _ 3 _ _)) (.insert _ _ _ 0 _ _)
  have hu : ([(7, 10), (7, 11)].foldl (fun t p =>
      (t.insert (fun _ => true) .growOnly p.1 p.2 (· == p.2)).state)
      ((empty : Table ℕ).reserve (fun _ => true) 5).state).Reachable :=
    .step (.step (.step .empty (.reserve _ _ 5)) (.insert _ _ _ 7 _ _)) (.insert _ _ _ 7 _ _)
  have hfirst : Matches _ 3 (· == 10) := (isSome_find?_iff ht.wellFormed).1 (by decide)
  have hsecond : Matches _ 7 (· == 10) := (isSome_find?_iff hu.wellFormed).1 (by decide)
  exact ⟨_, _, ht, by decide, hfirst, removesExactly_of_reachable ht hfirst _ _, hu, by decide,
    ⟨rfl, by decide, by decide⟩, hsecond, removesExactly_of_reachable hu hsecond _ _,
    by decide +kernel, by decide +kernel, removesExactly_of_reachable hu hsecond _ _, by decide,
    by decide⟩

end Table

end OpenAddressing
