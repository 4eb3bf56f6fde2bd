import OpenAddressing.Proofs.Checked.Dict

/-!
# No operation breaks off

`Table.Faultless` says of a table, and `Dict.Faultless` of a dictionary, that each operation
computed with machine words comes to what it comes to on unbounded numbers, for all arguments: no
index is beyond the last slot, no key is cut beyond its end, no assertion fails, no difference is
below zero and no sum beyond the words. A number of slots that is no word comes up only where it is
asked for: growing and making room then answer that the slots cannot be obtained, and going down to
the slots that fit passes over it. Neither changes anything.

Every table and every dictionary that comes about is so (`faultless_of_reachable`), since its slots
are a ring that can be counted and its size counts its entries.
-/

namespace OpenAddressing

universe u v w

namespace Table

variable {α : Type u} {t : Table α}

/-- A table none of whose operations breaks off. -/
structure Faultless (t : Table α) : Prop where
  /-- The displacement at each of its slots. -/
  distance : ∀ (hash : UInt32) {index : ℕ}, index < t.capacity →
    checkedDisplacement hash index t.capacity = .ok (displacement hash index t.capacity)
  /-- A lookup. -/
  find : ∀ (hash : UInt32) (eq : α → Bool),
    t.checkedFind? hash (fun item => .ok (eq item)) = .ok (t.find? hash eq)
  /-- A change of the item found. -/
  update : ∀ {β : Type w} (hash : UInt32) (eq : α → Bool) (f : α → β × α),
    t.checkedUpdate? hash (fun item => .ok (eq item)) f = .ok (t.update? hash eq f)
  /-- An insertion. -/
  insert : ∀ (available : Allocator) (policy : ResizePolicy) (hash : UInt32) (item : α)
    (eq : α → Bool), t.checkedInsert available policy hash item (fun item => .ok (eq item))
      = .ok (t.insert available policy hash item eq)
  /-- An insertion of an entry that no stored entry matches. -/
  insertNew : ∀ (available : Allocator) (policy : ResizePolicy) (hash : UInt32) (item : α),
    t.checkedInsertNew available policy hash item = .ok (t.insertNew available policy hash item)
  /-- A removal. -/
  remove : ∀ (available : Allocator) (policy : ResizePolicy) (hash : UInt32) (eq : α → Bool),
    t.checkedRemove available policy hash (fun item => .ok (eq item))
      = .ok (t.remove available policy hash eq)
  /-- A change of the number of slots. -/
  resize : ∀ (available : Allocator) (adjustment : Adjustment),
    t.checkedResize available adjustment = .ok (t.resize available adjustment)
  /-- A reservation. -/
  reserve : ∀ (available : Allocator) (additional : ℕ),
    t.checkedReserve available additional = .ok (t.reserve available additional)
  /-- A reduction to the slots that fit. -/
  shrinkToFit : ∀ available : Allocator,
    t.checkedShrinkToFit available = .ok (t.shrinkToFit available)
  /-- A walk that keeps some of the entries. -/
  retain : ∀ {σ : Type w} (visit : α → σ → Verdict α × σ) (state : σ),
    t.checkedRetain visit state = .ok (t.retain visit state)
  /-- A walk over the first `n` entries, or over all, which may be taken out on the way. -/
  walk : ∀ n : ℕ, t.cursor.checkedTakeFrom n [] = .ok (t.cursor.take n)
  /-- A walk that rewrites items. -/
  rewrite : ∀ fs : List (α → α), t.checkedMapEach fs = .ok (t.mapEach fs)
  /-- The histogram of displacements. -/
  histogram : t.checkedHistogram = .ok t.histogram
  /-- Twice as many slots as can be counted are reported. -/
  resize_of_le : ∀ available : Allocator, Count.limit ≤ t.capacity * 2 →
    t.resize available .grow = ⟨.error (.allocation Count.largest), t⟩
  /-- So is room for more entries than can be counted in four times their number. -/
  reserve_of_le : ∀ (available : Allocator) (additional : ℕ),
    Count.limit ≤ (t.size + additional) * 4 →
    t.reserve available additional = ⟨.error (.allocation Count.largest), t⟩
  /-- Where there are so many entries, the slots that fit them are not gone down to. -/
  shrinkToFit_of_le : ∀ available : Allocator, Count.limit ≤ t.size * 4 →
    t.shrinkToFit available = t

/-- A table that can be counted has no operation that breaks off. -/
theorem Counted.faultless (hc : t.Counted) : Faultless.{u, w} t where
  distance hash index hindex := by
    have hmod : index % t.slots.capacity = index := Nat.mod_eq_of_lt hindex
    have h := checkedDisplacement_eq hc.ringSize hash index
    rwa [hmod] at h
  find _ _ := checkedFind?_eq hc fun _ => rfl
  update _ _ f := checkedUpdate?_eq hc (fun _ => rfl) f
  insert available policy _ item _ := checkedInsert_eq hc available policy item fun _ => rfl
  insertNew := checkedInsertNew_eq hc
  remove available policy _ _ := checkedRemove_eq hc available policy fun _ => rfl
  resize := checkedResize_eq hc
  reserve := checkedReserve_eq hc
  shrinkToFit := checkedShrinkToFit_eq hc
  retain := checkedRetain_eq hc
  walk n := Cursor.checkedTakeFrom_eq hc.cursor n []
  rewrite := checkedMapEach_eq hc
  histogram := checkedHistogram_eq hc
  resize_of_le available hle := by
    have hnone : Count.mul? t.capacity 2 = none := if_neg (Nat.not_lt.2 hle)
    rw [Table.resize, hnone]
  reserve_of_le available additional hle := by
    have hnone : (Count.add? t.size additional).bind fittingCapacity? = none := by
      unfold Count.add?
      split
      · exact fittingCapacity?_of_le hle
      · rfl
    rw [Table.reserve, hnone]
  shrinkToFit_of_le available hle := by
    rw [Table.shrinkToFit, fittingCapacity?_of_le hle]

end Table

namespace Dict

variable {ρ : Type v} {α : Type u} {d : Dict ρ α}

/-- A dictionary none of whose operations breaks off. -/
structure Faultless (d : Dict ρ α) : Prop where
  /-- No operation of its table does. -/
  table : Table.Faultless.{u, w} d.table
  /-- A key is cut within its bytes, whatever its measure. -/
  sized : ∀ key : Bytes, d.config.rules.checkedSized key = .ok (d.config.rules.sized key)
  /-- The hash of a key. -/
  hashKey : ∀ key : Bytes, d.checkedHashKey key = .ok (d.hashKey key)
  /-- A call. -/
  perform : ∀ {σ : Type w} (call : Call ρ σ α), d.checkedPerform call = .ok (d.perform call)

/-- No operation breaks off of any table or dictionary that comes about. -/
theorem faultless_of_reachable :
    (∀ t : Table α, t.Reachable → Table.Faultless.{u, w} t) ∧
      ∀ d : Dict ρ α, d.Reachable → Faultless.{u, v, w} d := by
  refine ⟨fun t ht => ht.counted.faultless, fun d hd => ?_⟩
  exact ⟨hd.counted.faultless, d.config.rules.checkedSized_eq, d.checkedHashKey_eq,
    checkedPerform_eq hd.counted⟩

/-- A run of three entries over the end of a table of four slots, a full table, and a dictionary
whose keys all measure more than they have bytes and have the last slot as home bucket. A removal
shifts entries back over the end, a rebuild starts from no entries, and room for the most entries
that a word can count is refused. -/
theorem faultless_of_wrapped_and_full : ∃ (t u : Table ℕ) (d : Dict ℕ ℕ),
    t.slots.cells.toList.map (·.map Slot.item) = [some 6, some 7, none, some 5] ∧
      (t.checkedRemove (fun _ => true) .growAndShrink 3 fun item => .ok (item == 5)).map
        (fun removed => removed.state.slots.cells.toList.map (·.map Slot.item))
          = .ok [some 7, none, none, some 6] ∧
      u.size = u.capacity ∧ u.checkedHistogram = .ok #[1, 1, 1, 1] ∧
      (u.checkedRetain (fun item (_ : Unit) => (⟨item != 6, item⟩, ())) ()).map
        (fun swept => swept.table.items) = .ok [8, 5, 7] ∧
      (u.reserve (fun _ => true) Count.largest).answer = .error (.allocation Count.largest) ∧
      d.config.rules.size [97] = Count.largest ∧ d.checkedGet? [98] = .ok (some 6) ∧
      Table.Faultless.{0, 0} t ∧ Table.Faultless.{0, 0} u ∧ Faultless.{0, 0, 0} d := by
  have ht : ([5, 6, 7].foldl
      (fun t item => (t.insert (fun _ => true) .disabled 3 item fun _ => false).state)
      (.empty : Table ℕ)).Reachable :=
    .step (.step (.step .empty (.insert _ _ _ _ _ _)) (.insert _ _ _ _ _ _)) (.insert _ _ _ _ _ _)
  have hd : ([([97], 5), ([98], 6), ([99], 7)].foldl
      (fun d pair => (d.perform (.request (.insert (fun _ => true) pair.1 pair.2) :
        Call ℕ ℕ ℕ)).dict)
      (((empty ⟨false, .value, .disabled⟩ : Dict ℕ ℕ).perform
        (.setHash fun _ => 7 : Call ℕ ℕ ℕ)).dict.perform (.setSize (fun _ => Count.largest) :
          Call ℕ ℕ ℕ)).dict).Reachable :=
    .call (.call (.call (.call (.call (.empty _) _) _) _) _) _
  have hu := Table.Reachable.step ht (.insert _ (fun _ => true) .disabled 3 8 fun _ => false)
  obtain ⟨htable, hdict⟩ := faultless_of_reachable (ρ := ℕ) (α := ℕ)
  exact ⟨_, _, _, by decide +kernel, by decide +kernel, by decide +kernel, by decide +kernel,
    by decide +kernel, by decide +kernel, by decide +kernel, by decide +kernel,
    htable _ ht, htable _ hu, hdict _ hd⟩

end Dict

end OpenAddressing
