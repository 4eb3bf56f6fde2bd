import Mathlib.Logic.Relation
import OpenAddressing.Proofs.Dict.Requests
import OpenAddressing.Proofs.Dict.Update
import OpenAddressing.Proofs.Table.Reachable

/-!
# Calls to a dictionary and the dictionaries that come about

A call is a request, a walk that rewrites values, or a change of the rules on keys or of the
disposal of values; `Dict.perform` is what a dictionary makes of it. `Dict.Reachable` is every
dictionary that comes about from a new one by any calls and copies.

Insertion and removal by key are insertion and removal on the table (`insertKey_eq_insert`,
`remove_eq_remove`), and every other call is a series of turns of the table as well
(`series_perform`). What the table's own calls keep is therefore kept by every call to a dictionary
(`Reachable.table_induction`); well-formedness is the first case (`Reachable.wellFormed`).
`insertKey_cases` and `remove_cases` say what the two make of the entries, whatever the rules on
keys are.
-/

namespace OpenAddressing

universe u v w

/-- A call to a dictionary, also one that changes how it is configured. -/
inductive Call (ρ : Type v) (σ : Type w) (α : Type u) where
  /-- Serve a request. -/
  | request (request : Request σ α)
  /-- Rewrite the first values in slot order, each by a function of its own. -/
  | rewrite (fs : List (α → α))
  /-- Put another disposal of values in place. -/
  | setRelease (release : Release ρ)
  /-- Replace the hash. -/
  | setHash (hash : Bytes → UInt32)
  /-- Replace the measure. -/
  | setSize (size : Bytes → ℕ)
  /-- Replace the comparison. -/
  | setEqual (equal : Bytes → Bytes → Bool)

namespace Table

/-- A turn of a table: a call, or a walk that rewrites each item by a function of its own. -/
def Turn {α : Type u} (t u : Table α) : Prop := Step t u ∨ ∃ fs, u = t.mapEach fs

/-- Turns of a table, one after another. -/
abbrev Series {α : Type u} : Table α → Table α → Prop := Relation.ReflTransGen Turn

/-- One call is a series. -/
theorem series_of_step {α : Type u} {t u : Table α} (h : Step t u) : Series t u :=
  Relation.ReflTransGen.single (Or.inl h)

/-- A turn keeps a table well formed. -/
theorem Turn.wellFormed {α : Type u} {t u : Table α} (h : Turn t u) (hw : t.WellFormed) :
    u.WellFormed := by
  obtain hstep | ⟨fs, rfl⟩ := h
  · exact hstep.wellFormed hw
  · exact hw.mapEach fs

/-- What every turn keeps, a series keeps. -/
theorem Series.induction {α : Type u} {P : Table α → Prop} {t u : Table α}
    (hturn : ∀ {t u}, Turn t u → P t → P u) (h : Series t u) (ht : P t) : P u := by
  induction h with
  | refl => exact ht
  | tail _ hlast ih => exact hturn hlast ih

end Table

/-- The entry with its value rewritten. -/
def Entry.onValue {α : Type u} (f : α → α) (entry : Entry α) : Entry α :=
  ⟨entry.key, f entry.value⟩

namespace Dict

variable {ρ : Type v} {σ : Type w} {α : Type u} {d : Dict ρ α} {key : Bytes}

/-- Rewrites the first values in slot order, each by a function of its own. -/
def rewriteValues (d : Dict ρ α) (fs : List (α → α)) : Dict ρ α :=
  ⟨d.table.mapEach (fs.map Entry.onValue), d.config⟩

/-- Rewriting the first `n` values by one function is rewriting each by it. -/
theorem mapFirstValues_eq_rewriteValues (d : Dict ρ α) (n : ℕ) (f : α → α) :
    d.mapFirstValues n f = d.rewriteValues (List.replicate n f) := by
  show (⟨d.table.mapFirst n (Entry.onValue f), d.config⟩ : Dict ρ α) = _
  rw [Table.mapFirst_eq_mapEach, rewriteValues, List.map_replicate]

/-- Performs a call. -/
def perform (d : Dict ρ α) : Call ρ σ α → Effect ρ α (Answer σ α)
  | .request request => d.serve request
  | .rewrite fs => ⟨.ok .done, d.rewriteValues fs, []⟩
  | .setRelease release => ⟨.ok .done, d.setRelease release, []⟩
  | .setHash hash => ⟨(d.setHash hash).answer.map fun _ => .done, (d.setHash hash).state, []⟩
  | .setSize size => ⟨(d.setSize size).answer.map fun _ => .done, (d.setSize size).state, []⟩
  | .setEqual equal =>
    ⟨(d.setEqual equal).answer.map fun _ => .done, (d.setEqual equal).state, []⟩

/-- The dictionaries that come about from a new one. -/
inductive Reachable : Dict ρ α → Prop where
  /-- A new dictionary of the fewest slots. -/
  | empty (settings : Settings) : Reachable (empty settings)
  /-- A new dictionary on at least `n` slots. -/
  | withCapacity {available : Allocator} {n : ℕ} {settings : Settings} {d : Dict ρ α}
      (h : withCapacity available n settings = .ok d) : Reachable d
  /-- A copy. -/
  | copy {d : Dict ρ α} (hd : Reachable d) : Reachable d.copy
  /-- The dictionary that a call leaves. -/
  | call {σ : Type u} {d : Dict ρ α} (hd : Reachable d) (call : Call ρ σ α) :
      Reachable (d.perform call).dict

/-- A new dictionary has a new table. -/
theorem exists_table_of_withCapacity {available : Allocator} {n : ℕ} {settings : Settings}
    (h : withCapacity available n settings = .ok d) :
    ∃ t, Table.withCapacity available n = .ok t ∧ d = ⟨t, { settings }⟩ := by
  unfold withCapacity at h
  cases htable : Table.withCapacity (α := Entry α) available n with
  | error e =>
    rw [htable] at h
    cases h
  | ok t =>
    rw [htable] at h
    exact ⟨t, rfl, (Except.ok.inj h).symm⟩

/-! ## Calls by key are calls to the table -/

/-- An insertion for a key with bytes is the table's, and gives up the value replaced. -/
theorem insertKey_eq_insert {key : Key} (hkey : key.bytes.isEmpty = false) (available : Allocator)
    (value : α) :
    d.insertKey available key value =
      match d.table.insert available d.config.settings.resize (d.hashKey key.bytes) ⟨key, value⟩
        (d.config.accepts key.bytes) with
      | ⟨.ok (some old), u⟩ =>
        ⟨.ok (d.config.givenBack old.value), ⟨u, d.config⟩, [d.config.givenUp old.value]⟩
      | ⟨.ok none, u⟩ => ⟨.ok none, ⟨u, d.config⟩, []⟩
      | ⟨.error e, u⟩ => ⟨.error e, ⟨u, d.config⟩, []⟩ := by
  rcases d.table.exists_selects_or (d.hashKey key.bytes) (d.config.accepts key.bytes) with
    ⟨index, slot, hselect⟩ | hmiss
  · rw [Selects.insertKey_eq hselect hkey, hselect.insert_eq]
    rfl
  · rw [insertKey_of_misses hmiss hkey, Table.insert_of_search_none hmiss]
    generalize d.table.insertNew available d.config.settings.resize (d.hashKey key.bytes)
      ⟨key, value⟩ = outcome
    obtain ⟨_ | _, u⟩ := outcome <;> rfl

/-- Making room is the table's. -/
theorem reserve_eq_reserve (d : Dict ρ α) (available : Allocator) (additional : ℕ) :
    d.reserve available additional = ⟨(d.table.reserve available additional).answer,
      ⟨(d.table.reserve available additional).state, d.config⟩⟩ := rfl

/-- A removal for a key with bytes is the table's, and gives the value to the caller. -/
theorem remove_eq_remove (hkey : key.isEmpty = false) (available : Allocator) :
    d.remove available key =
      match d.table.remove available d.config.settings.resize (d.hashKey key)
        (d.config.accepts key) with
      | ⟨.ok entry, u⟩ => ⟨.ok entry.value, ⟨u, d.config⟩, [⟨entry.value, none⟩]⟩
      | ⟨.error e, u⟩ => ⟨.error e, ⟨u, d.config⟩, []⟩ := by
  rw [remove, hkey]
  rfl

/-- An insertion stores the bytes of the key in one way or the other. -/
theorem exists_insert_eq_insertKey (d : Dict ρ α) (available : Allocator) (key : Bytes)
    (value : α) :
    ∃ stored : Key, stored.bytes = key ∧
      d.insert available key value = d.insertKey available stored value := by
  unfold insert
  split
  · exact ⟨.owned key, rfl, rfl⟩
  · exact ⟨.borrowed key, rfl, rfl⟩

/-- A deletion does what a removal does, except that it gives up the value by itself. -/
theorem delete_eq_remove (d : Dict ρ α) (available : Allocator) (key : Bytes) :
    d.delete available key =
      match d.remove available key with
      | ⟨.ok value, d, _⟩ => ⟨.ok (d.config.givenBack value), d, [d.config.givenUp value]⟩
      | ⟨.error e, d, departed⟩ => ⟨.error e, d, departed⟩ := rfl

/-! ## What becomes of the entries -/

/-- An insertion is refused, adds the entry under the hash of its key, or puts it in the place of
one that lies under that hash. -/
theorem insertKey_cases (hw : d.table.WellFormed) (available : Allocator) (key : Key) (value : α) :
    (∃ e u, d.insertKey available key value = ⟨.error e, ⟨u, d.config⟩, []⟩ ∧
      Table.Rehash d.table u) ∨
    (∃ u, d.insertKey available key value = ⟨.ok none, ⟨u, d.config⟩, []⟩ ∧
      u.contents = ⟨d.hashKey key.bytes, ⟨key, value⟩⟩ ::ₘ d.table.contents) ∨
    ∃ old u, d.insertKey available key value
        = ⟨.ok (d.config.givenBack old.value), ⟨u, d.config⟩, [d.config.givenUp old.value]⟩ ∧
      ⟨d.hashKey key.bytes, old⟩ ::ₘ u.contents
        = ⟨d.hashKey key.bytes, ⟨key, value⟩⟩ ::ₘ d.table.contents := by
  cases hkey : key.bytes.isEmpty with
  | true => exact Or.inl ⟨emptyKey, d.table, insertKey_of_isEmpty hkey .., .refl hw⟩
  | false =>
    rcases d.table.exists_selects_or (d.hashKey key.bytes) (d.config.accepts key.bytes) with
      ⟨index, ⟨hash, old⟩, hselect⟩ | hmiss
    · -- The entry found keeps its hash, which is that of the new key.
      obtain rfl : hash = d.hashKey key.bytes := hselect.hash_eq
      exact Or.inr (Or.inr ⟨old, _, Selects.insertKey_eq hselect hkey available value,
        hw.cons_contents_overwrite hselect.get _⟩)
    · rw [insertKey_of_misses hmiss hkey]
      rcases Table.insertNew_cases hw available d.config.settings.resize (d.hashKey key.bytes)
        ⟨key, value⟩ with ⟨i, u, hu, -, -, hcontents⟩ | ⟨e, u, hu, hre, -⟩
      · rw [hu]
        exact Or.inr (Or.inl ⟨u, rfl, hcontents⟩)
      · rw [hu]
        exact Or.inl ⟨e, u, rfl, hre⟩

/-- A removal is refused and changes nothing, or takes an entry out. -/
theorem remove_cases (hw : d.table.WellFormed) (available : Allocator) (key : Bytes) :
    (∃ e, d.remove available key = ⟨.error e, d, []⟩) ∨
    ∃ slot u, d.remove available key
        = ⟨.ok slot.item.value, ⟨u, d.config⟩, [⟨slot.item.value, none⟩]⟩ ∧
      slot ::ₘ u.contents = d.table.contents := by
  cases hkey : key.isEmpty with
  | true => exact Or.inl ⟨emptyKey, remove_of_isEmpty hkey available⟩
  | false =>
    rcases d.table.exists_selects_or (d.hashKey key) (d.config.accepts key) with
      ⟨index, slot, hselect⟩ | hmiss
    · obtain ⟨u, hremove, -, hcontents⟩ := Selects.remove_spec hselect hkey hw available
      exact Or.inr ⟨slot, u, hremove, hcontents⟩
    · exact Or.inl ⟨.notFound, remove_of_misses hmiss hkey available⟩

/-- Rewriting the value of a key rewrites that of one entry in its slot, or nothing. -/
theorem modify_cases (hw : d.table.WellFormed) (key : Bytes) (f : α → α) :
    (d.get? key = none ∧ d.modify key f = (none, d)) ∨
    ∃ slot ∈ d.table.contents, ∃ u, d.get? key = some slot.item.value ∧
      d.modify key f = (some (f slot.item.value), ⟨u, d.config⟩) ∧
      slot ::ₘ u.contents = ⟨slot.hash, slot.item.onValue f⟩ ::ₘ d.table.contents := by
  rcases d.table.exists_selects_or (d.hashKey key) (d.config.accepts key) with
    ⟨index, slot, hselect⟩ | hmiss
  · have hget : d.get? key = some slot.item.value := by
      rw [get?, find?, hselect.find?_eq]
      rfl
    exact Or.inr ⟨slot, hselect.mem_contents hw, _, hget, Selects.modify_eq hselect f,
      hw.cons_contents_overwrite hselect.get _⟩
  · have hget : d.get? key = none := by
      rw [get?, find?, Table.find?_of_search_none hmiss]
      rfl
    exact Or.inl ⟨hget, modify_of_misses hmiss f⟩

/-! ## A call is a series of turns of the table -/

/-- An insertion is a series of turns. -/
theorem series_insertKey (d : Dict ρ α) (available : Allocator) (key : Key) (value : α) :
    Table.Series d.table (d.insertKey available key value).dict.table := by
  cases hkey : key.bytes.isEmpty with
  | true =>
    rw [insertKey_of_isEmpty hkey]
  | false =>
    have hstep := Table.Step.insert d.table available d.config.settings.resize
      (d.hashKey key.bytes) ⟨key, value⟩ (d.config.accepts key.bytes)
    rw [insertKey_eq_insert hkey]
    generalize d.table.insert available d.config.settings.resize (d.hashKey key.bytes)
      ⟨key, value⟩ (d.config.accepts key.bytes) = outcome at hstep
    obtain ⟨_ | _ | _, u⟩ := outcome <;> exact Table.series_of_step hstep

/-- So is one that stores the key as the settings say. -/
theorem series_insert (d : Dict ρ α) (available : Allocator) (key : Bytes) (value : α) :
    Table.Series d.table (d.insert available key value).dict.table := by
  obtain ⟨stored, -, hinsert⟩ := d.exists_insert_eq_insertKey available key value
  rw [hinsert]
  exact d.series_insertKey available stored value

/-- Making room is a series of turns. -/
theorem series_reserve (d : Dict ρ α) (available : Allocator) (additional : ℕ) :
    Table.Series d.table (d.reserve available additional).state.table :=
  Table.series_of_step (.reserve d.table available additional)

/-- What every insertion keeps, insertions in a row keep. -/
theorem insertAll_induction {P : Dict ρ α → Prop} {available : Allocator}
    (hinsert : ∀ {d} key value, P d → P (d.insert available key value).dict) (h : P d)
    (pairs : List (Bytes × α)) : P (d.insertAll available pairs).dict := by
  induction pairs generalizing d with
  | nil => exact h
  | cons pair rest ih =>
    have hfirst := hinsert pair.1 pair.2 h
    rw [insertAll]
    generalize d.insert available pair.1 pair.2 = effect at hfirst
    obtain ⟨_ | _, next, departed⟩ := effect
    · exact hfirst
    · exact ih hfirst

/-- What holds once room is made and every insertion keeps, holds after insertions in a row. -/
theorem extendBy_induction {P : Dict ρ α → Prop} {available : Allocator} {expected : ℕ}
    (hinsert : ∀ {d} key value, P d → P (d.insert available key value).dict)
    (h : P (d.reserve available expected).state) (pairs : List (Bytes × α)) :
    P (d.extendBy available expected pairs).dict := by
  rw [extendBy]
  generalize d.reserve available expected = outcome at h
  obtain ⟨_ | _, next⟩ := outcome
  · exact h
  · exact insertAll_induction hinsert h pairs

/-- Making room and inserting in a row is a series of turns. -/
theorem series_extendBy (d : Dict ρ α) (available : Allocator) (expected : ℕ)
    (pairs : List (Bytes × α)) :
    Table.Series d.table (d.extendBy available expected pairs).dict.table :=
  extendBy_induction (P := fun next => Table.Series d.table next.table)
    (fun key value h => h.trans (series_insert _ available key value))
    (d.series_reserve available expected) pairs

/-- A removal is a series of turns. -/
theorem series_remove (d : Dict ρ α) (available : Allocator) (key : Bytes) :
    Table.Series d.table (d.remove available key).dict.table := by
  cases hkey : key.isEmpty with
  | true =>
    rw [remove_of_isEmpty hkey]
  | false =>
    have hstep := Table.Step.remove d.table available d.config.settings.resize (d.hashKey key)
      (d.config.accepts key)
    rw [remove_eq_remove hkey]
    generalize d.table.remove available d.config.settings.resize (d.hashKey key)
      (d.config.accepts key) = outcome at hstep
    obtain ⟨_ | _, u⟩ := outcome <;> exact Table.series_of_step hstep

/-- Rewriting the value of a key is a series of turns. -/
theorem series_modify (d : Dict ρ α) (key : Bytes) (f : α → α) :
    Table.Series d.table (d.modify key f).2.table := by
  have hstep := Table.Step.update d.table (d.hashKey key) (d.config.accepts key) (Entry.onValue f)
  rcases d.table.exists_selects_or (d.hashKey key) (d.config.accepts key) with
    ⟨index, slot, hselect⟩ | hmiss
  · rw [hselect.update?_eq] at hstep
    rw [Selects.modify_eq hselect]
    exact Table.series_of_step hstep
  · rw [modify_of_misses hmiss]

/-- Replacing a rule leaves the table alone. -/
theorem table_replaceRule (d : Dict ρ α) (what : String) (change : KeyRules → KeyRules) :
    (d.replaceRule what change).state.table = d.table := by
  unfold replaceRule
  dsimp only
  split <;> rfl

/-- A request is a series of turns. -/
theorem series_serve {σ : Type u} (d : Dict ρ α) (request : Request σ α) :
    Table.Series d.table (d.serve request).dict.table := by
  cases request with
  | insert available key value => exact d.series_insert available key value
  | insertKey available key value => exact d.series_insertKey available key value
  | get => exact .refl
  | modify key f => exact d.series_modify key f
  | contains => exact .refl
  | locate => exact .refl
  | delete available key =>
    have hdict := (d.delete_eq available key).2
    show Table.Series d.table (d.delete available key).dict.table
    rw [hdict]
    exact d.series_remove available key
  | remove available key => exact d.series_remove available key
  | reserve available additional => exact d.series_reserve available additional
  | shrinkToFit available => exact Table.series_of_step (.shrinkToFit d.table available)
  | retain visit state => exact Table.series_of_step (.retain d.table (visitEntry visit) state)
  | clear => exact Table.series_of_step (.clear d.table)
  | drain => exact Table.series_of_step (.drain d.table)
  | extend available expected pairs => exact d.series_extendBy available expected pairs
  | setSettings => exact .refl

/-- Every call is a series of turns. -/
theorem series_perform {σ : Type u} (d : Dict ρ α) (call : Call ρ σ α) :
    Table.Series d.table (d.perform call).dict.table := by
  cases call with
  | request request => exact d.series_serve request
  | rewrite fs => exact .single (Or.inr ⟨_, rfl⟩)
  | setRelease => exact .refl
  | setHash hash =>
    show Table.Series d.table (d.setHash hash).state.table
    rw [setHash, table_replaceRule]
  | setSize size =>
    show Table.Series d.table (d.setSize size).state.table
    rw [setSize, table_replaceRule]
  | setEqual equal =>
    show Table.Series d.table (d.setEqual equal).state.table
    rw [setEqual, table_replaceRule]

/-- An insertion keeps the table well formed. -/
theorem wellFormed_insert (hw : d.table.WellFormed) (available : Allocator) (key : Bytes)
    (value : α) : (d.insert available key value).dict.table.WellFormed :=
  (d.series_insert available key value).induction Table.Turn.wellFormed hw

/-- Every call keeps the table well formed. -/
theorem wellFormed_perform {σ : Type u} (hw : d.table.WellFormed) (call : Call ρ σ α) :
    (d.perform call).dict.table.WellFormed :=
  (d.series_perform call).induction Table.Turn.wellFormed hw

/-- What new tables have and what the turns of a table keep, the table of every dictionary has that
comes about. -/
theorem Reachable.table_induction {P : Table (Entry α) → Prop} (hempty : P .empty)
    (hnew : ∀ {available n t}, Table.withCapacity available n = .ok t → P t)
    (hturn : ∀ {t u}, Table.Turn t u → P t → P u) (h : d.Reachable) : P d.table := by
  induction h with
  | empty => exact hempty
  | withCapacity h =>
    obtain ⟨t, ht, rfl⟩ := exists_table_of_withCapacity h
    exact hnew ht
  | copy _ ih => exact hturn (Or.inl (.copy _)) ih
  | call _ call ih => exact (series_perform _ call).induction hturn ih

/-- The table of every dictionary that comes about is well formed. -/
theorem Reachable.wellFormed (h : d.Reachable) : d.table.WellFormed :=
  h.table_induction Table.wellFormed_empty Table.wellFormed_withCapacity Table.Turn.wellFormed

end Dict

end OpenAddressing
