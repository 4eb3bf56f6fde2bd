import OpenAddressing.Proofs.Table.Reachable

/-!
# Looking up misses nothing, and an update touches one entry

A stored entry matches a hash and a predicate when it has the hash and its item is accepted. The
predicate is any at all: it may accept many items or none, and need not agree with the hash.
`OneEntry` says what the four operations that take a hash and a predicate owe a table: looking up
finds an entry exactly when one matches, the others act on the very entry that looking up finds, and
nothing else changes. `oneEntry_of_reachable` shows it of every table that comes about.
-/

namespace OpenAddressing

universe u v

namespace Table

variable {α : Type u} {t : Table α} {hash : UInt32} {eq : α → Bool}

/-- An entry with this hash that `eq` accepts is stored. -/
def Matches (t : Table α) (hash : UInt32) (eq : α → Bool) : Prop :=
  ∃ slot ∈ t.contents, slot.hash = hash ∧ eq slot.item = true

/-- What looking up, replacing, inserting and removing owe a table. -/
structure OneEntry (t : Table α) (hash : UInt32) (eq : α → Bool) : Prop where
  /-- Looking up finds an item exactly when an entry matches. -/
  find_isSome : (t.find? hash eq).isSome ↔ t.Matches hash eq
  /-- What it finds is the item of such an entry. -/
  find_mem : ∀ x, t.find? hash eq = some x → ⟨hash, x⟩ ∈ t.contents ∧ eq x = true
  /-- When looking up finds an item, that item lies in a slot that all other operations choose:
  replacing and inserting rewrite that slot and leave size and other slots alone, and removing
  takes the entry out of it, before the table shrinks if it is to. -/
  same_slot : ∀ x, t.find? hash eq = some x → ∃ i < t.capacity, t.slots.get i = some ⟨hash, x⟩ ∧
    (∀ {β : Type v} (f : α → β × α), t.update? hash eq f = (some (f x).1,
      { t with slots := t.slots.set i (some ⟨hash, (f x).2⟩) })) ∧
    (∀ available policy item, t.insert available policy hash item eq
      = ⟨.ok (some x), { t with slots := t.slots.set i (some ⟨hash, item⟩) }⟩) ∧
    (∀ new, (t.slots.set i (some new)).capacity = t.capacity ∧
      (t.slots.set i (some new)).get i = some new ∧
      ∀ j < t.capacity, j ≠ i → (t.slots.set i (some new)).get j = t.slots.get j) ∧
    ∀ available policy, ∃ u, t.eraseAt i = (some ⟨hash, x⟩, u) ∧
      t.remove available policy hash eq = ⟨.ok x, if t.adjustment (t.size - 1) policy = .shrink
        then (u.resize available .shrink).state else u⟩
  /-- Replacing does nothing when no entry matches. -/
  update_none : ∀ {β : Type v} (f : α → β × α), ¬ t.Matches hash eq →
    t.update? hash eq f = (none, t)
  /-- Inserting replaces exactly when an entry matches. -/
  insert_some : ∀ available policy item,
    (∃ old, (t.insert available policy hash item eq).answer = .ok (some old)) ↔ t.Matches hash eq
  /-- Inserting a new entry adds it to the contents and nothing else. -/
  insert_none : ∀ available policy item,
    (t.insert available policy hash item eq).answer = .ok none →
      (t.insert available policy hash item eq).state.contents = ⟨hash, item⟩ ::ₘ t.contents
  /-- Removing is refused exactly when no entry matches. -/
  remove_error : ∀ available policy,
    (t.remove available policy hash eq).answer = .error .notFound ↔ ¬ t.Matches hash eq
  /-- A removal that is refused does nothing. -/
  remove_none : ∀ available policy, ¬ t.Matches hash eq →
    t.remove available policy hash eq = ⟨.error .notFound, t⟩
  /-- Removing otherwise answers an item and takes its entry from the contents and nothing else. -/
  remove_ok : ∀ available policy, t.Matches hash eq →
    ∃ x, (t.remove available policy hash eq).answer = .ok x ∧
      ⟨hash, x⟩ ::ₘ (t.remove available policy hash eq).state.contents = t.contents

/-- An entry is selected when one matches. -/
theorem Matches.exists_selects (h : t.Matches hash eq) (hw : t.WellFormed) :
    ∃ index slot, t.Selects hash eq index slot :=
  (exists_selects_iff hw).2 h

/-- No search ends anywhere when no entry matches. -/
theorem search_eq_none_of_not_matches (hw : t.WellFormed) (h : ¬ t.Matches hash eq) :
    t.slots.search hash eq = none := by
  refine (search_eq_none_iff hw).2 fun slot hmem hhash => ?_
  exact Bool.eq_false_iff.2 fun heq => h ⟨slot, hmem, hhash, heq⟩

/-- What looking up finds is selected. -/
theorem exists_selects_of_find? {x : α} (h : t.find? hash eq = some x) :
    ∃ index slot, t.Selects hash eq index slot ∧ slot = ⟨hash, x⟩ := by
  rcases t.exists_selects_or hash eq with ⟨index, slot, hselect⟩ | hnone
  · rw [hselect.find?_eq] at h
    obtain rfl := Option.some.inj h
    obtain rfl := hselect.hash_eq
    exact ⟨index, slot, hselect, rfl⟩
  · rw [find?_of_search_none hnone] at h
    cases h

/-- Looking up finds an item exactly when an entry matches. -/
theorem isSome_find?_iff (hw : t.WellFormed) : (t.find? hash eq).isSome ↔ t.Matches hash eq := by
  constructor
  · intro hsome
    obtain ⟨x, hx⟩ := Option.isSome_iff_exists.1 hsome
    obtain ⟨index, slot, hselect, -⟩ := exists_selects_of_find? hx
    exact ⟨slot, hselect.mem_contents hw, hselect.hash_eq, hselect.accepted⟩
  · intro hmatch
    obtain ⟨index, slot, hselect⟩ := hmatch.exists_selects hw
    rw [hselect.find?_eq]
    rfl

/-- A stored entry is found by its hash and any predicate that holds for it and for no other entry
of that hash. -/
theorem find?_eq_some_of_mem (hw : t.WellFormed) {slot : Slot α} (hmem : slot ∈ t.contents)
    (heq : eq slot.item = true)
    (honly : ∀ other ∈ t.contents, other.hash = slot.hash → eq other.item = true → other = slot) :
    t.find? slot.hash eq = some slot.item := by
  have hmatch : t.Matches slot.hash eq := ⟨slot, hmem, rfl, heq⟩
  obtain ⟨index, other, hselect⟩ := hmatch.exists_selects hw
  rw [hselect.find?_eq, honly other (hselect.mem_contents hw) hselect.hash_eq hselect.accepted]

/-- Inserting answers an old item exactly when an entry matches. -/
theorem insert_replaces_iff (hw : t.WellFormed) (available : Allocator) (policy : ResizePolicy)
    (item : α) : (∃ old, (t.insert available policy hash item eq).answer = .ok (some old)) ↔
      t.Matches hash eq := by
  constructor
  · rintro ⟨old, hold⟩
    by_contra hmatch
    -- A new entry answers no item, whether it is added or refused.
    rw [insert_of_search_none (search_eq_none_of_not_matches hw hmatch)] at hold
    rcases insertNew_cases hw available policy hash item with ⟨i, u, hu, -⟩ | ⟨e, u, hu, -⟩
    · rw [hu] at hold
      cases hold
    · rw [hu] at hold
      cases hold
  · intro hmatch
    obtain ⟨index, slot, hselect⟩ := hmatch.exists_selects hw
    exact ⟨slot.item, by rw [hselect.insert_eq]⟩

/-- Removing is refused exactly when no entry matches. -/
theorem remove_refused_iff (hw : t.WellFormed) (available : Allocator) (policy : ResizePolicy) :
    (t.remove available policy hash eq).answer = .error .notFound ↔ ¬ t.Matches hash eq := by
  constructor
  · intro hrefused hmatch
    obtain ⟨index, slot, hselect⟩ := hmatch.exists_selects hw
    rw [hselect.remove_eq hw] at hrefused
    cases hrefused
  · intro hmatch
    rw [remove_of_search_none (search_eq_none_of_not_matches hw hmatch)]

/-- Looking up in a table that comes about misses no match, completely full tables included, and
every update of it touches the entry that looking up finds, or adds one, and nothing else. -/
theorem oneEntry_of_reachable (h : t.Reachable) (hash : UInt32) (eq : α → Bool) :
    OneEntry.{u, v} t hash eq := by
  have hw := h.wellFormed
  refine ⟨isSome_find?_iff hw, ?_, ?_, ?_, insert_replaces_iff hw, ?_, remove_refused_iff hw, ?_,
    ?_⟩
  -- What looking up finds.
  · intro x hx
    obtain ⟨index, slot, hselect, rfl⟩ := exists_selects_of_find? hx
    exact ⟨hselect.mem_contents hw, hselect.accepted⟩
  -- The slot that all operations choose.
  · intro x hx
    obtain ⟨index, slot, hselect, rfl⟩ := exists_selects_of_find? hx
    refine ⟨index, hselect.lt hw, hselect.get, fun f => hselect.update?_eq f,
      fun available policy item => hselect.insert_eq available policy item, fun new => ?_,
      fun available policy => ?_⟩
    · -- Rewriting the slot leaves the others of the round alone.
      refine ⟨Slots.capacity_set .., Slots.get_set_self _ hw.capacity_pos _ _, fun j hj hne => ?_⟩
      apply Slots.get_set_of_ne
      have hlt := hselect.lt hw
      unfold capacity at hj hlt
      rw [Nat.mod_eq_of_lt hj, Nat.mod_eq_of_lt hlt]
      exact Ne.symm hne
    · obtain ⟨u, herase, -, -, -⟩ := hw.eraseAt hselect.get
      refine ⟨u, herase, ?_⟩
      rw [hselect.remove_eq hw, herase]
  -- Replacing without a match.
  · intro β f hmatch
    exact update?_of_search_none (search_eq_none_of_not_matches hw hmatch) f
  -- Inserting a new entry.
  · intro available policy item hnone
    cases hres : t.insert available policy hash item eq with
    | mk answer u =>
      rw [hres] at hnone
      obtain rfl : answer = .ok none := hnone
      exact hw.contents_of_insert hres
  -- Removing, without a match and with one.
  · intro available policy hmatch
    exact remove_of_search_none (search_eq_none_of_not_matches hw hmatch) available policy
  · intro available policy hmatch
    obtain ⟨index, slot, hselect⟩ := hmatch.exists_selects hw
    obtain ⟨u, hu, -, hcont⟩ := hselect.remove_spec hw available policy
    obtain rfl := hselect.hash_eq
    exact ⟨slot.item, by rw [hu], by rw [hu]; exact hcont⟩

/-- In a full table where the entry sought has been displaced round the end of the ring, and where
two others have its hash. -/
theorem oneEntry_of_full : ∃ t : Table ℕ, t.Reachable ∧ t.size = t.capacity ∧
    t.find? 3 (· == 12) = some 12 ∧ OneEntry.{0, 0} t 3 (· == 12) := by
  have hreach : ([(3, 10), (3, 11), (3, 12), (0, 13)].foldl (fun t p =>
      (t.insert (fun _ => true) .disabled p.1 p.2 (· == p.2)).state) (empty : Table ℕ)).Reachable :=
    .step (.step (.step (.step .empty (.insert _ _ _ 3 _ _)) (.insert _ _ _ 3 _ _))
      (.insert _ _ _ 3 _ _)) (.insert _ _ _ 0 _ _)
  exact ⟨_, hreach, by decide, by decide, oneEntry_of_reachable hreach 3 _⟩

end Table

end OpenAddressing
