import OpenAddressing.Proofs.Dict.Departures
import OpenAddressing.Proofs.Table.Band

/-!
# A dictionary that may grow is never full

Under a policy that grows throughout, fewer than three quarters of the slots of a dictionary are
taken, after any calls and whichever slots can be obtained (`Growing.belowCeiling`). So there is
always a slot for one more entry, or the dictionary asks for more slots, and no call is refused for
want of a vacant slot among those there are (`ne_capacity_perform`).

An insertion or removal by key either is refused because the key has no bytes or goes to the table
(`insertKey_or`, `remove_or`). Insertions in a row are followed step by step, since each of them may
be the one that is refused.
-/

namespace OpenAddressing

universe u v w

namespace Dict

variable {ρ : Type v} {σ : Type w} {α : Type u} {d : Dict ρ α}

/-! ## The table of a dictionary -/

/-- An insertion by key is refused for want of bytes, or goes to the table. -/
theorem insertKey_or (d : Dict ρ α) (available : Allocator) (key : Key) (value : α) :
    d.insertKey available key value = ⟨.error emptyKey, d, []⟩ ∨
    ∃ (hash : UInt32) (entry : Entry α) (eq : Entry α → Bool),
      (d.insertKey available key value).answer
        = (d.table.insert available d.config.settings.resize hash entry eq).answer.map
          (·.bind fun old => d.config.givenBack old.value) ∧
      (d.insertKey available key value).dict
        = ⟨(d.table.insert available d.config.settings.resize hash entry eq).state, d.config⟩ := by
  cases hkey : key.bytes.isEmpty with
  | true => exact Or.inl (insertKey_of_isEmpty hkey available value)
  | false =>
    refine Or.inr ⟨d.hashKey key.bytes, ⟨key, value⟩, d.config.accepts key.bytes, ?_⟩
    rw [insertKey_eq_insert hkey]
    generalize d.table.insert available d.config.settings.resize (d.hashKey key.bytes)
      ⟨key, value⟩ (d.config.accepts key.bytes) = outcome
    obtain ⟨_ | _ | _, u⟩ := outcome <;> exact ⟨rfl, rfl⟩

/-- A removal by key is refused for want of bytes, or goes to the table. -/
theorem remove_or (d : Dict ρ α) (available : Allocator) (key : Bytes) :
    d.remove available key = ⟨.error emptyKey, d, []⟩ ∨
    ∃ (hash : UInt32) (eq : Entry α → Bool),
      (d.remove available key).answer
        = (d.table.remove available d.config.settings.resize hash eq).answer.map Entry.value ∧
      (d.remove available key).dict
        = ⟨(d.table.remove available d.config.settings.resize hash eq).state, d.config⟩ := by
  cases hkey : key.isEmpty with
  | true => exact Or.inl (remove_of_isEmpty hkey available)
  | false =>
    refine Or.inr ⟨d.hashKey key, d.config.accepts key, ?_⟩
    rw [remove_eq_remove hkey]
    generalize d.table.remove available d.config.settings.resize (d.hashKey key)
      (d.config.accepts key) = outcome
    obtain ⟨_ | _, u⟩ := outcome <;> exact ⟨rfl, rfl⟩

/-- Rewriting a value leaves as many entries and slots, and the configuration. -/
theorem sizes_modify (d : Dict ρ α) (key : Bytes) (f : α → α) :
    (d.modify key f).2.table.size = d.table.size ∧
      (d.modify key f).2.table.capacity = d.table.capacity ∧
      (d.modify key f).2.config = d.config := by
  rcases d.table.exists_selects_or (d.hashKey key) (d.config.accepts key) with
    ⟨index, slot, hselect⟩ | hmiss
  · rw [Selects.modify_eq hselect]
    exact ⟨rfl, Slots.capacity_set .., rfl⟩
  · rw [modify_of_misses hmiss]
    exact ⟨rfl, rfl, rfl⟩

/-- In every dictionary that comes about the number of slots is a count. -/
theorem Reachable.capacity_lt_limit (h : d.Reachable) : d.table.capacity < Count.limit := by
  have hboth : d.table.WellFormed ∧ d.table.capacity < Count.limit := by
    refine h.table_induction ?_ ?_ ?_
      (P := fun t : Table (Entry α) => t.WellFormed ∧ t.capacity < Count.limit)
    · exact ⟨Table.wellFormed_empty, Table.Reachable.empty.capacity_lt_limit⟩
    · exact fun hnew => ⟨Table.wellFormed_withCapacity hnew, Table.capacity_withCapacity_lt hnew⟩
    · -- Rewriting items is no call to the table, but it leaves the ring as it is.
      rintro t u hturn ⟨hw, hlt⟩
      refine ⟨hturn.wellFormed hw, ?_⟩
      rcases hturn with hstep | ⟨fs, rfl⟩
      · exact hstep.capacity_lt_limit hw hlt
      · exact (Table.sameHashes_mapEach t fs).capacity.trans_lt hlt
  exact hboth.2

/-! ## Calls that are not refused for want of a vacant slot -/

/-- A removal is not refused for want of a vacant slot. -/
theorem ne_capacity_remove (hw : d.table.WellFormed) (available : Allocator) (key : Bytes)
    (slots : ℕ) : (d.remove available key).answer ≠ .error (.capacity slots) := by
  intro herror
  cases hkey : key.isEmpty with
  | true =>
    rw [remove_of_isEmpty hkey] at herror
    cases herror
  | false =>
    rcases d.table.exists_selects_or (d.hashKey key) (d.config.accepts key) with
      ⟨index, slot, hselect⟩ | hmiss
    · obtain ⟨u, heq, -, -⟩ := Selects.remove_spec hselect hkey hw available
      rw [heq] at herror
      cases herror
    · rw [remove_of_misses hmiss hkey] at herror
      cases herror

/-- Making room is not refused for want of a vacant slot. -/
theorem ne_capacity_reserve (hw : d.table.WellFormed) (available : Allocator) (additional : ℕ)
    (slots : ℕ) : (d.reserve available additional).answer ≠ .error (.capacity slots) := by
  intro herror
  rw [reserve_eq_reserve] at herror
  rcases Table.reserve_sizes hw available additional with ⟨u, heq, -⟩ | ⟨n, u, heq, -⟩
  · rw [heq] at herror
    cases herror
  · rw [heq] at herror
    cases herror

/-- Replacing a rule is not refused for want of a vacant slot. -/
theorem ne_capacity_replaceRule (d : Dict ρ α) (what : String) (change : KeyRules → KeyRules)
    (slots : ℕ) : (d.replaceRule what change).answer ≠ .error (.capacity slots) := by
  unfold replaceRule
  dsimp only
  intro herror
  split at herror <;> cases herror

/-- Looking up an entry is not refused for want of a vacant slot. -/
theorem ne_capacity_locate (d : Dict ρ α) (key : Bytes) (slots : ℕ) :
    d.locate key ≠ .error (.capacity slots) := by
  unfold locate
  intro herror
  split at herror
  · cases herror
  · split at herror <;> cases herror

/-! ## Insertions under a policy that grows -/

/-- What an insertion needs in order not to fill the table, and keeps: the configuration, with a
policy that grows, and a well-formed table below three quarters. -/
structure Spacious (c : Config ρ) (d : Dict ρ α) : Prop where
  /-- The table is well formed. -/
  wellFormed : d.table.WellFormed
  /-- The configuration is this one. -/
  config_eq : d.config = c
  /-- Its policy grows. -/
  grows : c.settings.resize.grows = true
  /-- Fewer than three quarters of the slots are taken. -/
  ceiling : d.table.BelowCeiling

namespace Spacious

variable {c : Config ρ}

/-- An insertion keeps a dictionary spacious. -/
theorem insertKey (h : Spacious c d) (available : Allocator) (key : Key) (value : α) :
    Spacious c (d.insertKey available key value).dict := by
  obtain ⟨hw, rfl, hgrows, hceiling⟩ := h
  rcases d.insertKey_or available key value with heq | ⟨hash, entry, eq, -, heq⟩
  · rw [heq]
    exact ⟨hw, rfl, hgrows, hceiling⟩
  · rw [heq]
    exact ⟨hw.insert available _ hash entry eq, rfl, hgrows,
      hceiling.insert hw hgrows available hash entry eq⟩

/-- Making room for entries and inserting in a row keeps a dictionary spacious. -/
theorem extendBy (h : Spacious c d) (available : Allocator) (expected : ℕ)
    (pairs : List (Bytes × α)) : Spacious c (d.extendBy available expected pairs).dict := by
  refine extendBy_induction (fun key value hnext => hnext.insertKey available _ value) ?_ pairs
  rw [reserve_eq_reserve]
  exact ⟨(Table.rehash_reserve h.wellFormed available expected).wellFormed, h.config_eq,
    h.grows, h.ceiling.reserve h.wellFormed available expected⟩

/-- An insertion is not refused for want of a vacant slot. -/
theorem ne_capacity_insertKey (h : Spacious c d) (available : Allocator) (key : Key) (value : α)
    (slots : ℕ) : (d.insertKey available key value).answer ≠ .error (.capacity slots) := by
  obtain ⟨hw, rfl, hgrows, -⟩ := h
  intro herror
  rcases d.insertKey_or available key value with heq | ⟨hash, entry, eq, hanswer, -⟩
  · rw [heq] at herror
    cases herror
  · rw [hanswer] at herror
    obtain ⟨n, hn⟩ :=
      Table.exists_eq_allocation_of_insert hw hgrows (eq_error_of_map_eq_error herror)
    cases hn

/-- Nor is making room for entries and inserting in a row. -/
theorem ne_capacity_extendBy (h : Spacious c d) (available : Allocator) (expected : ℕ)
    (pairs : List (Bytes × α)) (slots : ℕ) :
    (d.extendBy available expected pairs).answer ≠ .error (.capacity slots) := by
  intro herror
  rcases extendBy_of_error h.wellFormed herror with ⟨hreserve, -⟩ |
    ⟨done, pair, rest, -, -, hinsert, -⟩
  · exact ne_capacity_reserve h.wellFormed available expected slots hreserve
  · -- The pairs before the one that is refused leave a spacious dictionary.
    exact (h.extendBy available expected done).ne_capacity_insertKey available _ _ _ hinsert

end Spacious

/-! ## Every call -/

/-- A call under a policy that grows keeps the table below three quarters. -/
theorem belowCeiling_perform (hd : d.Reachable) (hgrows : d.config.settings.resize.grows = true)
    (h : d.table.BelowCeiling) (call : Call ρ σ α) : (d.perform call).dict.table.BelowCeiling := by
  have hw := hd.wellFormed
  have hspacious : Spacious d.config d := ⟨hw, rfl, hgrows, h⟩
  have hremove : ∀ available key, (d.remove available key).dict.table.BelowCeiling := by
    intro available key
    rcases d.remove_or available key with heq | ⟨hash, eq, -, heq⟩
    · rw [heq]
      exact h
    · rw [heq]
      exact h.remove hw hd.capacity_lt_limit available _ hash eq
  cases call with
  | request request =>
    cases request with
    | insert available key value => exact (hspacious.insertKey available _ value).ceiling
    | insertKey available key value =>
      exact (hspacious.insertKey available key value).ceiling
    | modify key f =>
      obtain ⟨hsize, hcap, -⟩ := d.sizes_modify key f
      show (d.modify key f).2.table.BelowCeiling
      rw [Table.BelowCeiling, hsize, hcap]
      exact h
    | delete available key =>
      have hdict := (d.delete_eq available key).2
      show (d.delete available key).dict.table.BelowCeiling
      rw [hdict]
      exact hremove available key
    | remove available key => exact hremove available key
    | reserve available additional => exact h.reserve hw available additional
    | shrinkToFit available => exact h.shrinkToFit hw available
    | retain visit state => exact h.retain hw (visitEntry visit) state
    | clear => exact Table.belowCeiling_of_size_eq_zero hw.clear rfl
    | drain => exact Table.belowCeiling_of_size_eq_zero hw.clear rfl
    | extend available expected pairs =>
      exact (hspacious.extendBy available expected pairs).ceiling
    | _ => exact h
  | rewrite fs =>
    have hcap := (Table.sameHashes_mapEach d.table (fs.map Entry.onValue)).capacity
    exact h.trans_eq (congrArg (3 * ·) hcap.symm)
  | setRelease => exact h
  | setHash hash =>
    show (d.setHash hash).state.table.BelowCeiling
    rw [setHash, table_replaceRule]
    exact h
  | setSize size =>
    show (d.setSize size).state.table.BelowCeiling
    rw [setSize, table_replaceRule]
    exact h
  | setEqual equal =>
    show (d.setEqual equal).state.table.BelowCeiling
    rw [setEqual, table_replaceRule]
    exact h

/-- No call under a policy that grows is refused for want of a vacant slot. -/
theorem ne_capacity_perform (hd : d.Reachable) (hgrows : d.config.settings.resize.grows = true)
    (h : d.table.BelowCeiling) (call : Call ρ σ α) (slots : ℕ) :
    (d.perform call).answer ≠ .error (.capacity slots) := by
  have hw := hd.wellFormed
  have hspacious : Spacious d.config d := ⟨hw, rfl, hgrows, h⟩
  intro herror
  cases call with
  | request request =>
    cases request with
    | insert available key value =>
      exact hspacious.ne_capacity_insertKey available _ value slots
        (eq_error_of_map_eq_error herror)
    | insertKey available key value =>
      exact hspacious.ne_capacity_insertKey available key value slots
        (eq_error_of_map_eq_error herror)
    | locate key => exact d.ne_capacity_locate key slots (eq_error_of_map_eq_error herror)
    | delete available key =>
      have hdelete := eq_error_of_map_eq_error herror
      rw [(d.delete_eq available key).1] at hdelete
      exact ne_capacity_remove hw available key slots (eq_error_of_map_eq_error hdelete)
    | remove available key =>
      exact ne_capacity_remove hw available key slots (eq_error_of_map_eq_error herror)
    | reserve available additional =>
      exact ne_capacity_reserve hw available additional slots (eq_error_of_map_eq_error herror)
    | extend available expected pairs =>
      exact hspacious.ne_capacity_extendBy available expected pairs slots
        (eq_error_of_map_eq_error herror)
    | _ => cases herror
  | setHash hash => exact d.ne_capacity_replaceRule _ _ slots (eq_error_of_map_eq_error herror)
  | setSize size => exact d.ne_capacity_replaceRule _ _ slots (eq_error_of_map_eq_error herror)
  | setEqual equal => exact d.ne_capacity_replaceRule _ _ slots (eq_error_of_map_eq_error herror)
  | _ => cases herror

/-! ## Runs -/

/-- The dictionaries that come about from a new one while the policy grows at all times. -/
inductive Growing : Dict ρ α → Prop where
  /-- A new dictionary of the fewest slots. -/
  | empty {settings : Settings} (hgrows : settings.resize.grows = true) : Growing (empty settings)
  /-- A new dictionary on at least `n` slots. -/
  | withCapacity {available : Allocator} {n : ℕ} {settings : Settings} {d : Dict ρ α}
      (hgrows : settings.resize.grows = true) (h : withCapacity available n settings = .ok d) :
      Growing d
  /-- A copy. -/
  | copy {d : Dict ρ α} (hd : Growing d) : Growing d.copy
  /-- The dictionary that a call leaves, if its policy still grows. -/
  | call {σ : Type u} {d : Dict ρ α} (hd : Growing d) (call : Call ρ σ α)
      (hgrows : (d.perform call).dict.config.settings.resize.grows = true) :
      Growing (d.perform call).dict

namespace Growing

/-- Such a dictionary comes about. -/
theorem reachable (h : d.Growing) : d.Reachable := by
  induction h with
  | empty => exact .empty _
  | withCapacity _ h => exact .withCapacity h
  | copy _ ih => exact .copy ih
  | call _ call _ ih => exact .call ih call

/-- Its policy grows. -/
theorem grows (h : d.Growing) : d.config.settings.resize.grows = true := by
  induction h with
  | empty hgrows => exact hgrows
  | withCapacity hgrows h =>
    obtain ⟨t, -, rfl⟩ := exists_table_of_withCapacity h
    exact hgrows
  | copy _ ih => exact ih
  | call _ _ hgrows _ => exact hgrows

/-- Fewer than three quarters of its slots are taken. -/
theorem belowCeiling (h : d.Growing) : d.table.BelowCeiling := by
  induction h with
  | empty => exact Table.belowCeiling_of_size_eq_zero Table.wellFormed_empty rfl
  | withCapacity _ h =>
    obtain ⟨t, ht, rfl⟩ := exists_table_of_withCapacity h
    exact Table.belowCeiling_of_size_eq_zero (Table.wellFormed_withCapacity ht)
      (Table.size_withCapacity ht)
  | copy _ ih => exact ih
  | call hd call _ ih => exact belowCeiling_perform hd.reachable hd.grows ih call

end Growing

/-- While the policy grows at all times, fewer than three quarters of the slots of a dictionary are
taken and no call is refused for want of a vacant slot, whichever slots can be obtained; nor is the
making of a dictionary. Whatever has happened to a table, an insertion that adds an entry under a
policy that grows leaves fewer than three quarters of its slots taken. -/
theorem belowCeiling_of_growing :
    (∀ d : Dict ρ α, d.Growing → 4 * d.size < 3 * d.capacity ∧
      ∀ {σ : Type u} (call : Call ρ σ α) (slots : ℕ),
        (d.perform call).answer ≠ .error (.capacity slots)) ∧
    (∀ (available : Allocator) (n : ℕ) (settings : Settings) (slots : ℕ),
      (withCapacity available n settings : Except Error (Dict ρ α)) ≠ .error (.capacity slots)) ∧
    ∀ t : Table α, t.Reachable → ∀ (available : Allocator) (policy : ResizePolicy) (hash : UInt32)
      (item : α) (eq : α → Bool), policy.grows = true →
      (t.insert available policy hash item eq).answer = .ok none →
        4 * (t.insert available policy hash item eq).state.size
          < 3 * (t.insert available policy hash item eq).state.capacity := by
  refine ⟨fun d hd => ⟨hd.belowCeiling, ?_⟩, ?_, ?_⟩
  · intro σ call slots
    exact ne_capacity_perform hd.reachable hd.grows hd.belowCeiling call slots
  · intro available n settings slots herror
    have htable := eq_error_of_map_eq_error herror
    unfold Table.withCapacity at htable
    split at htable
    · cases htable
    · split at htable <;> cases htable
  · intro t ht available policy hash item eq hgrows hadded
    exact Table.belowCeiling_of_insert ht.wellFormed hgrows hadded

/-- A dictionary whose policy is switched, and which is filled up to the ceiling, is refused sixteen
slots for a sixth entry; a table that was filled completely takes one more. -/
theorem belowCeiling_of_refused_and_full :
    (∃ d : Dict ℕ ℕ, d.Growing ∧ d.size = 5 ∧ d.capacity = 8 ∧ 4 * d.size < 3 * d.capacity ∧
      (d.insert (fun _ => false) [102] 6).answer = .error (.allocation 16) ∧
      ∀ (call : Call ℕ ℕ ℕ) (slots : ℕ), (d.perform call).answer ≠ .error (.capacity slots)) ∧
    ∃ t u : Table ℕ, t.Reachable ∧ t.size = t.capacity ∧
      t.insert (fun _ => true) .growOnly 9 9 (· == 9) = ⟨.ok none, u⟩ ∧
      4 * u.size < 3 * u.capacity := by
  obtain ⟨hdict, -, htable⟩ := belowCeiling_of_growing (ρ := ℕ) (α := ℕ)
  constructor
  · let calls : List (Call ℕ ℕ ℕ) :=
      [.request (.insert (fun _ => true) [97] 1), .request (.insert (fun _ => true) [98] 2),
        .request (.insert (fun _ => true) [99] 3), .request (.setSettings { resize := .growOnly }),
        .request (.extend (fun _ => false) 1 [([100], 4), ([101], 5), ([102], 6)])]
    have hd : (calls.foldl (fun d call => (d.perform call).dict)
        (.empty { resize := .growAndShrink } : Dict ℕ ℕ)).Growing :=
      .call (.call (.call (.call (.call (.empty rfl) _ (by decide +kernel)) _ (by decide +kernel)) _
        (by decide +kernel)) _ (by decide +kernel)) _ (by decide +kernel)
    obtain ⟨hceiling, hanswer⟩ := hdict _ hd
    exact ⟨_, hd, by decide +kernel, by decide +kernel, hceiling, by decide +kernel, hanswer⟩
  · have ht : ((.empty : Table ℕ).after ([3, 3, 3, 0].map fun hash =>
        .insert (fun _ => true) .disabled hash 7 fun _ => false)).Reachable :=
      Table.Reachable.empty.after _
    exact ⟨_, _, ht, by decide, rfl,
      htable _ ht (fun _ => true) .growOnly 9 9 (· == 9) rfl (by decide +kernel)⟩

end Dict

end OpenAddressing
