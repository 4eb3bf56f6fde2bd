import OpenAddressing.Proofs.Slots.BackwardShift
import OpenAddressing.Proofs.Slots.Search
import OpenAddressing.Proofs.Table.Rehash
import OpenAddressing.Table.Update

/-!
# What an update does to a table

`Selects` names the entry that a search comes to, with its index. Looking it up, replacing its item,
inserting over it and removing it all go by the same search, so each is described by the entry that
is selected, or by there being none (`Selects.find?_eq` and its neighbours, `insert_of_search_none`,
`remove_of_search_none`). In a well-formed table an entry is selected exactly when one is stored
that has the hash and is accepted (`exists_selects_iff`).

A new entry is placed after the table has grown as its policy asks. Growth keeps the entries whether
it succeeds or not, and leaves a vacant slot when it succeeds, so an insertion fails only when slots
cannot be obtained, or when the table is full and may not grow (`insertNew_cases`).
-/

namespace OpenAddressing

universe u v

namespace Table

variable {α : Type u} {β : Type v} {t : Table α} {hash : UInt32} {eq : α → Bool}

/-! ## The entry selected -/

/-- A search comes to `slot` at `index`. -/
structure Selects (t : Table α) (hash : UInt32) (eq : α → Bool) (index : ℕ) (slot : Slot α) :
    Prop where
  /-- The search ends there. -/
  search : t.slots.search hash eq = some index
  /-- The entry is the one stored there. -/
  get : t.slots.get index = some slot
  /-- It has the hash sought. -/
  hash_eq : slot.hash = hash
  /-- It is accepted. -/
  accepted : eq slot.item = true

/-- A search that ends at an index selects what is stored there. -/
theorem exists_selects_of_search {index : ℕ} (h : t.slots.search hash eq = some index) :
    ∃ slot, t.Selects hash eq index slot := by
  obtain ⟨slot, hget, hhash, heq⟩ := Slots.get_of_search h
  exact ⟨slot, h, hget, hhash, heq⟩

/-- A search comes to an entry or to nothing. -/
theorem exists_selects_or (t : Table α) (hash : UInt32) (eq : α → Bool) :
    (∃ index slot, t.Selects hash eq index slot) ∨ t.slots.search hash eq = none := by
  cases hsearch : t.slots.search hash eq with
  | none => exact Or.inr rfl
  | some index => exact Or.inl ⟨index, exists_selects_of_search hsearch⟩

/-- An entry is selected exactly when one is stored that has the hash and is accepted. -/
theorem exists_selects_iff (hw : t.WellFormed) :
    (∃ index slot, t.Selects hash eq index slot) ↔
      ∃ slot ∈ t.contents, slot.hash = hash ∧ eq slot.item = true := by
  have hc := hw.capacity_pos
  constructor
  · rintro ⟨index, slot, h⟩
    exact ⟨slot, Slots.mem_contents_of_get hc h.get, h.hash_eq, h.accepted⟩
  · intro h
    have hsome := (Slots.search_isSome_iff hw.ordered hc).2 h
    obtain ⟨index, hindex⟩ := Option.isSome_iff_exists.1 hsome
    exact ⟨index, exists_selects_of_search hindex⟩

/-- A search ends nowhere exactly when no entry is stored that has the hash and is accepted. -/
theorem search_eq_none_iff (hw : t.WellFormed) :
    t.slots.search hash eq = none ↔
      ∀ slot ∈ t.contents, slot.hash = hash → eq slot.item = false := by
  have hc := hw.capacity_pos
  have hsome : (t.slots.search hash eq).isSome ↔ _ := Slots.search_isSome_iff hw.ordered hc
  rw [← Option.not_isSome_iff_eq_none, hsome]
  constructor
  · intro h slot hmem hhash
    exact Bool.eq_false_iff.2 fun heq => h ⟨slot, hmem, hhash, heq⟩
  · rintro h ⟨slot, hmem, hhash, heq⟩
    rw [h slot hmem hhash] at heq
    cases heq

namespace Selects

variable {index : ℕ} {slot : Slot α}

/-- The entry selected is stored. -/
theorem mem_contents (h : t.Selects hash eq index slot) (hw : t.WellFormed) : slot ∈ t.contents :=
  Slots.mem_contents_of_get hw.capacity_pos h.get

/-- The index selected is one of the table's. -/
theorem lt (h : t.Selects hash eq index slot) (hw : t.WellFormed) : index < t.capacity :=
  Slots.lt_of_search hw.capacity_pos h.search

/-- Looking up answers the item selected. -/
theorem find?_eq (h : t.Selects hash eq index slot) : t.find? hash eq = some slot.item := by
  simp only [find?, h.search, h.get, Option.map_some]

/-- Replacing rewrites the item selected, in its slot and under its hash. -/
theorem update?_eq (h : t.Selects hash eq index slot) (f : α → β × α) :
    t.update? hash eq f = (some (f slot.item).1,
      { t with slots := t.slots.set index (some ⟨slot.hash, (f slot.item).2⟩) }) := by
  simp only [update?, h.search, h.get]

/-- Inserting over an entry replaces the item selected and answers the old one. -/
theorem insert_eq (h : t.Selects hash eq index slot) (available : Allocator)
    (policy : ResizePolicy) (item : α) :
    t.insert available policy hash item eq = ⟨.ok (some slot.item),
      { t with slots := t.slots.set index (some ⟨slot.hash, item⟩) }⟩ := by
  simp only [insert, h.update?_eq]

end Selects

/-- Without an entry to select, looking up answers nothing. -/
theorem find?_of_search_none (h : t.slots.search hash eq = none) : t.find? hash eq = none := by
  simp only [find?, h]

/-- Without an entry to select, replacing does nothing. -/
theorem update?_of_search_none (h : t.slots.search hash eq = none) (f : α → β × α) :
    t.update? hash eq f = (none, t) := by
  simp only [update?, h]

/-- Without an entry to select, inserting adds one. -/
theorem insert_of_search_none (h : t.slots.search hash eq = none) (available : Allocator)
    (policy : ResizePolicy) (item : α) :
    t.insert available policy hash item eq
      = (t.insertNew available policy hash item).andThen fun _ t => ⟨.ok none, t⟩ := by
  simp only [insert, update?_of_search_none h]

/-- Without an entry to select, removing is refused. -/
theorem remove_of_search_none (h : t.slots.search hash eq = none) (available : Allocator)
    (policy : ResizePolicy) : t.remove available policy hash eq = ⟨.error .notFound, t⟩ := by
  simp only [remove, h]

/-! ## Overwriting and taking out -/

/-- Rewriting items under their hashes keeps a table well formed. -/
theorem WellFormed.of_sameHashes (hw : t.WellFormed) {s : Slots α}
    (h : Slots.SameHashes t.slots s) : ({ t with slots := s } : Table α).WellFormed := by
  have hsize : t.size = s.contents.card := by
    rw [h.card_contents]
    exact hw.size_eq
  exact hw.of_capacity_eq h.capacity hsize (h.ordered hw.ordered) (h.hasRunStart hw.hasRunStart)

/-- Overwriting an entry by one with the same hash keeps a table well formed. -/
theorem WellFormed.overwrite (hw : t.WellFormed) {index : ℕ} {old slot : Slot α}
    (hold : t.slots.get index = some old) (hhash : slot.hash = old.hash) :
    ({ t with slots := t.slots.set index (some slot) } : Table α).WellFormed :=
  hw.of_sameHashes (Slots.sameHashes_set hw.capacity_pos hold hhash)

/-- Overwriting an entry exchanges it for the other. -/
theorem WellFormed.cons_contents_overwrite (hw : t.WellFormed) {index : ℕ} {old : Slot α}
    (hold : t.slots.get index = some old) (slot : Slot α) :
    old ::ₘ ({ t with slots := t.slots.set index (some slot) } : Table α).contents
      = slot ::ₘ t.contents :=
  Slots.cons_contents_set hw.capacity_pos hold slot

/-- Taking out an entry answers it, keeps the table well formed and loses nothing else. -/
theorem WellFormed.eraseAt (hw : t.WellFormed) {index : ℕ} {slot : Slot α}
    (h : t.slots.get index = some slot) :
    ∃ u, t.eraseAt index = (some slot, u) ∧ u.WellFormed ∧ u.slots = t.slots.erase index ∧
      slot ::ₘ u.contents = t.contents := by
  have hc := hw.capacity_pos
  have hcont : slot ::ₘ (t.slots.erase index).contents = t.contents :=
    Slots.cons_contents_erase hw.two_le h
  have hsize : t.size - 1 = (t.slots.erase index).contents.card := by
    rw [hw.size_eq_card, ← hcont, Multiset.card_cons, Nat.add_sub_cancel]
  refine ⟨⟨t.slots.erase index, t.size - 1, t.resizing⟩, by simp only [Table.eraseAt, h], ?_, rfl,
    hcont⟩
  exact hw.of_capacity_eq (Slots.capacity_erase ..) hsize (hw.ordered.erase hc hw.hasRunStart index)
    (Slots.hasRunStart_erase hc index)

/-- Removing takes the entry selected out of its slot, and then shrinks the table if it is to. -/
theorem Selects.remove_eq {index : ℕ} {slot : Slot α} (h : t.Selects hash eq index slot)
    (hw : t.WellFormed) (available : Allocator) (policy : ResizePolicy) :
    t.remove available policy hash eq = ⟨.ok slot.item,
      if t.adjustment (t.size - 1) policy = .shrink
      then ((t.eraseAt index).2.resize available .shrink).state else (t.eraseAt index).2⟩ := by
  obtain ⟨u, herase, -, -, -⟩ := hw.eraseAt h.get
  simp only [remove, h.search, herase]

/-- Removing answers the item selected and takes its entry out, whether or not the table can
shrink. -/
theorem Selects.remove_spec {index : ℕ} {slot : Slot α} (h : t.Selects hash eq index slot)
    (hw : t.WellFormed) (available : Allocator) (policy : ResizePolicy) :
    ∃ u, t.remove available policy hash eq = ⟨.ok slot.item, u⟩ ∧ u.WellFormed ∧
      slot ::ₘ u.contents = t.contents := by
  obtain ⟨u, herase, hwu, -, hcont⟩ := hw.eraseAt h.get
  rw [h.remove_eq hw, herase]
  split
  · have hshrink := rehash_resize hwu available .shrink
    exact ⟨_, rfl, hshrink.wellFormed, by rw [hshrink.contents, hcont]⟩
  · exact ⟨u, rfl, hwu, hcont⟩

/-! ## Making room -/

/-- Doubling the slots succeeds, or fails because the doubled number cannot be obtained or is no
count. The entries stay. -/
theorem resize_grow_cases (hw : t.WellFormed) (available : Allocator) :
    (∃ u, t.resize available .grow = ⟨.ok (), u⟩ ∧ Rehash t u ∧ u.capacity = t.capacity * 2 ∧
      t.capacity * 2 < Count.limit) ∨
    ∃ u e, t.resize available .grow = ⟨.error e, u⟩ ∧ Rehash t u ∧
      ((e = .allocation (t.capacity * 2) ∧ t.capacity * 2 < Count.limit ∧
          available (t.capacity * 2) = false) ∨
        (e = .allocation Count.largest ∧ Count.limit ≤ t.capacity * 2)) := by
  rw [resize]
  cases hdouble : Count.mul? t.capacity 2 with
  | none =>
    have hlimit : Count.limit ≤ t.capacity * 2 := by
      unfold Count.mul? at hdouble
      split at hdouble
      · cases hdouble
      · omega
    exact Or.inr ⟨t, _, rfl, Rehash.refl hw, Or.inr ⟨rfl, hlimit⟩⟩
  | some capacity =>
    obtain ⟨hlimit, rfl⟩ := Count.mul?_eq_some_iff.1 hdouble
    have hmin := hw.minCapacity_le
    have hsize := hw.size_le
    have hpow : (t.capacity * 2).isPowerOfTwo :=
      Nat.isPowerOfTwo_mul_two_of_isPowerOfTwo hw.capacity_eq
    unfold minCapacity at hmin
    dsimp only
    rcases resizeTo_cases hw available hpow with ⟨hsame, -⟩ | ⟨-, hfew, -⟩ | ⟨-, -, -, hno, h⟩ |
      ⟨-, -, -, -, u, h, hwu, hcap, hcont, -⟩
    -- Twice the slots are more than before, and enough.
    · omega
    · unfold minCapacity at hfew
      omega
    · exact Or.inr ⟨_, _, h, ⟨hw.with_resizing false, rfl⟩, Or.inl ⟨rfl, hlimit, hno⟩⟩
    · exact Or.inl ⟨u, h, ⟨hwu, hcont⟩, hcap, hlimit⟩

/-- A table that has just doubled its slots needs to do so again only if the saturated products are
equal, and then twice as many slots are no count. -/
theorem limit_le_of_grow_again (hw : t.WellFormed) {projected : ℕ} {policy : ResizePolicy}
    (hprojected : projected ≤ t.capacity + 1)
    (hgrow : adjustmentFor (t.capacity * 2) projected policy = .grow) :
    Count.limit ≤ t.capacity * 4 := by
  obtain ⟨k, hk⟩ := hw.capacity_eq
  have hmin := hw.minCapacity_le
  have hsat : Count.satMul (t.capacity * 2) 3 ≤ Count.satMul projected 4 := by
    unfold adjustmentFor at hgrow
    split at hgrow
    · cases hgrow
    · split at hgrow
      · assumption
      · split at hgrow <;> cases hgrow
  unfold minCapacity at hmin
  unfold Count.satMul Count.largest at hsat
  unfold Count.limit
  have hsize : UInt64.size = 2 ^ 64 := by decide
  have hbig : 2 ^ 64 ≤ t.capacity * 2 * 3 := by omega
  -- No power of two of slots lies between a sixth and a fourth of the limit.
  rw [hk] at hbig ⊢
  have hpow : 62 ≤ k := by
    by_contra hlt
    have hle : 2 ^ k ≤ 2 ^ 61 := Nat.pow_le_pow_right (by decide) (by omega)
    omega
  calc UInt64.size = 2 ^ 62 * 4 := by decide
    _ ≤ 2 ^ k * 4 := Nat.mul_le_mul_right _ (Nat.pow_le_pow_right (by decide) hpow)

/-- The slots that a new entry finds when room can be made for it. -/
def slotsFor (capacity projected : ℕ) (policy : ResizePolicy) : ℕ :=
  if adjustmentFor capacity projected policy = .grow then capacity * 2 else capacity

/-- Why room cannot be made for one more entry: twice the slots cannot be obtained, or are no count,
or are so many that the products that decide on growth saturate. -/
def NoRoom (available : Allocator) (policy : ResizePolicy) (size capacity : ℕ) (e : Error) : Prop :=
  adjustmentFor capacity (size + 1) policy = .grow ∧
    ((e = .allocation (capacity * 2) ∧ available (capacity * 2) = false) ∨
      (e = .allocation Count.largest ∧ Count.limit ≤ capacity * 4))

/-- Making room for one more entry doubles the slots if it is to and fails if it cannot. The entries
stay. -/
theorem makeRoom_cases (hw : t.WellFormed) (available : Allocator) (policy : ResizePolicy) :
    (∃ u, t.makeRoom available policy = ⟨.ok (), u⟩ ∧ Rehash t u ∧
      u.capacity = slotsFor t.capacity (t.size + 1) policy ∧
      u.adjustment (u.size + 1) policy ≠ .grow) ∨
    ∃ e u, t.makeRoom available policy = ⟨.error e, u⟩ ∧ Rehash t u ∧
      NoRoom available policy t.size t.capacity e := by
  unfold makeRoom
  rw [growFrom]
  by_cases hgrow : t.adjustment (t.size + 1) policy = .grow
  · rw [if_pos hgrow]
    rcases resize_grow_cases hw available with ⟨u, hu, hre, hcap, -⟩ | ⟨u, e, hu, hre, he⟩
    · rw [hu, Outcome.andThen_ok, growFrom]
      by_cases hagain : u.adjustment (u.size + 1) policy = .grow
      · -- The second growth fails, since four times the slots are no count.
        rw [if_pos hagain]
        have hlimit : Count.limit ≤ t.capacity * 4 := by
          have hsize := hw.size_le
          unfold adjustment at hagain
          rw [hcap, hre.size_eq hw] at hagain
          exact limit_le_of_grow_again hw (by omega) hagain
        rcases resize_grow_cases hre.wellFormed available with ⟨v, -, -, -, hlt⟩ |
          ⟨v, e, hv, hrev, he⟩
        · omega
        · rw [hv, Outcome.andThen_error]
          refine Or.inr ⟨e, v, rfl, hre.trans hrev, hgrow, Or.inr ⟨?_, hlimit⟩⟩
          rcases he with ⟨-, hlt, -⟩ | ⟨rfl, -⟩
          · omega
          · rfl
      · rw [if_neg hagain]
        refine Or.inl ⟨u, rfl, hre, ?_, hagain⟩
        rw [hcap]
        exact (if_pos hgrow).symm
    · rw [hu, Outcome.andThen_error]
      refine Or.inr ⟨e, u, rfl, hre, hgrow, ?_⟩
      rcases he with ⟨rfl, -, hno⟩ | ⟨rfl, hlimit⟩
      · exact Or.inl ⟨rfl, hno⟩
      · exact Or.inr ⟨rfl, by omega⟩
  · rw [if_neg hgrow]
    exact Or.inl ⟨t, rfl, Rehash.refl hw, (if_neg hgrow).symm, hgrow⟩

/-- A table that need not grow for one more entry under a policy that grows has a vacant slot. -/
theorem lt_of_adjustment_ne_grow {policy : ResizePolicy} (hgrows : policy.grows = true)
    (h : t.adjustment (t.size + 1) policy ≠ .grow) : t.size + 1 < t.capacity := by
  unfold adjustment adjustmentFor at h
  rw [hgrows] at h
  unfold Count.satMul at h
  split at h
  · simp at *
  · split at h
    · simp at h
    · omega

/-! ## Adding an entry -/

/-- Why a new entry can be refused by a table of `size` entries on `capacity` slots: room cannot be
made for it, or all slots are taken and the table may not grow. -/
def Refusal (available : Allocator) (policy : ResizePolicy) (size capacity : ℕ) (e : Error) :
    Prop :=
  NoRoom available policy size capacity e ∨
    (policy = .disabled ∧ size = capacity ∧ e = .capacity capacity)

/-- Putting a new entry into a table with a vacant slot adds it. -/
theorem put_spec (hw : t.WellFormed) (hroom : t.size < t.capacity) (slot : Slot α) :
    ∃ i u, t.put slot = ⟨.ok i, u⟩ ∧ u.WellFormed ∧ u.capacity = t.capacity ∧
      u.contents = slot ::ₘ t.contents := by
  obtain ⟨s, i, hplace, hcap, hplaced⟩ := hw.place hroom slot
  obtain ⟨hwf, hcont⟩ := hplaced t.resizing
  refine ⟨i, _, ?_, hwf, hcap, hcont⟩
  have hnot : ¬ t.slots.capacity < t.size + 1 := Nat.not_lt.2 hroom
  simp only [put, hplace, if_neg hnot]

/-- A new entry is added, or it is refused and the entries stay. -/
theorem insertNew_cases (hw : t.WellFormed) (available : Allocator) (policy : ResizePolicy)
    (hash : UInt32) (item : α) :
    (∃ i u, t.insertNew available policy hash item = ⟨.ok i, u⟩ ∧ u.WellFormed ∧
      u.capacity = slotsFor t.capacity (t.size + 1) policy ∧
      u.contents = ⟨hash, item⟩ ::ₘ t.contents) ∨
    ∃ e u, t.insertNew available policy hash item = ⟨.error e, u⟩ ∧ Rehash t u ∧
      Refusal available policy t.size t.capacity e := by
  unfold insertNew
  rcases makeRoom_cases hw available policy with ⟨u, hu, hre, hcap, hkeep⟩ | ⟨e, u, hu, hre, hno⟩
  · rw [hu, Outcome.andThen_ok]
    rcases Nat.lt_or_ge u.size u.capacity with hlt | hge
    · obtain ⟨i, v, hput, hwv, hcapv, hcont⟩ := put_spec hre.wellFormed hlt ⟨hash, item⟩
      exact Or.inl ⟨i, v, hput, hwv, by rw [hcapv, hcap], by rw [hcont, hre.contents]⟩
    · -- A table that may grow would have done so before all its slots were taken.
      have hpolicy : policy = .disabled := by
        by_contra hne
        have hgrows : policy.grows = true := by
          cases policy with
          | disabled => exact absurd rfl hne
          | growOnly => rfl
          | growAndShrink => rfl
        have hroom := lt_of_adjustment_ne_grow hgrows hkeep
        omega
      subst hpolicy
      have hsize := hre.size_eq hw
      have hstay : u.capacity = t.capacity := hcap
      have hle := hre.wellFormed.size_le
      have hfull : u.slots.capacity < u.size + 1 := Nat.lt_succ_of_le hge
      refine Or.inr ⟨.capacity t.capacity, u, ?_, hre, Or.inr ⟨rfl, by omega, rfl⟩⟩
      simp only [put, if_pos hfull]
      rw [← hstay]
      rfl
  · rw [hu, Outcome.andThen_error]
    exact Or.inr ⟨e, u, rfl, hre, Or.inl hno⟩

/-- An insertion that replaced nothing added the entry and nothing else. -/
theorem WellFormed.contents_of_insert (hw : t.WellFormed) {available : Allocator}
    {policy : ResizePolicy} {item : α} {u : Table α}
    (h : t.insert available policy hash item eq = ⟨.ok none, u⟩) :
    u.contents = ⟨hash, item⟩ ::ₘ t.contents := by
  rcases t.exists_selects_or hash eq with ⟨index, slot, hselect⟩ | hnone
  · rw [hselect.insert_eq] at h
    cases h
  · rw [insert_of_search_none hnone] at h
    rcases insertNew_cases hw available policy hash item with ⟨i, v, hv, -, -, hcont⟩ |
      ⟨e, v, hv, -, -⟩
    · rw [hv, Outcome.andThen_ok] at h
      obtain rfl := (Outcome.mk.inj h).2
      exact hcont
    · rw [hv, Outcome.andThen_error] at h
      cases h

/-- A removal that was not refused took out the entry of the item it answers and nothing else. -/
theorem WellFormed.contents_of_remove (hw : t.WellFormed) {available : Allocator}
    {policy : ResizePolicy} {item : α} {u : Table α}
    (h : t.remove available policy hash eq = ⟨.ok item, u⟩) :
    ⟨hash, item⟩ ::ₘ u.contents = t.contents := by
  rcases t.exists_selects_or hash eq with ⟨index, slot, hselect⟩ | hnone
  · obtain ⟨v, hv, -, hcont⟩ := hselect.remove_spec hw available policy
    rw [hv] at h
    obtain ⟨hitem, rfl⟩ := Outcome.mk.inj h
    obtain rfl := Except.ok.inj hitem
    rw [← hselect.hash_eq]
    exact hcont
  · rw [remove_of_search_none hnone] at h
    cases h

end Table

end OpenAddressing
