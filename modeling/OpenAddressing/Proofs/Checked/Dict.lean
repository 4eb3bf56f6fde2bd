import OpenAddressing.Proofs.Checked.Walks
import OpenAddressing.Proofs.Dict.Ceiling

/-!
# Computing with machine words, by call

The calls to a dictionary, computed with machine words. A call cuts keys to size before it hashes or
compares them, and a cut beyond the end of a key is a fault as well; all else is left to the table.
A key is cut to its measure, or to its length where the measure is more, so every cut stays within
the key whatever the measure answers (`checkedSized_eq`).

Every call to a dictionary whose table can be counted comes to its effect without a fault
(`checkedPerform_eq`). Insertions in a row go by induction: each is a series of turns of the table,
and those keep it so (`Counted.series`).
-/

namespace OpenAddressing

universe u v w

/-! ## Keys -/

/-- The first `n` bytes of a key, which must have so many. -/
def Checked.slice (key : Bytes) (n : ℕ) : Checked Bytes :=
  if n ≤ key.length then .ok (key.take n) else .error .slice

namespace KeyRules

/-- The key cut to its size, and no longer than it is. -/
def checkedSized (r : KeyRules) (key : Bytes) : Checked Bytes :=
  Checked.slice key (min (r.size key) key.length)

/-- The hash under which a key is stored and sought. -/
def checkedHashOf (r : KeyRules) (ignoreCase : Bool) (key : Bytes) : Checked UInt32 :=
  (r.checkedSized key).andThen fun sized =>
  .ok (if ignoreCase then hashLowered r.hash sized else r.hash sized)

/-- Whether the key sought is the stored one. -/
def checkedSame (r : KeyRules) (ignoreCase : Bool) (stored sought : Bytes) : Checked Bool :=
  (r.checkedSized stored).andThen fun stored =>
  (r.checkedSized sought).andThen fun sought =>
  match r.equal with
  | some equal => .ok (equal stored sought)
  | none =>
    .ok (if ignoreCase then Bytes.equalIgnoringCase stored sought else Bytes.equal stored sought)

/-- A key is cut within its bytes, also where its measure is beyond them. -/
theorem checkedSized_eq (r : KeyRules) (key : Bytes) : r.checkedSized key = .ok (r.sized key) := by
  rw [checkedSized, Checked.slice, if_pos (min_le_right _ _), sized, ← List.take_eq_take_min]

theorem checkedHashOf_eq (r : KeyRules) (ignoreCase : Bool) (key : Bytes) :
    r.checkedHashOf ignoreCase key = .ok (r.hashOf ignoreCase key) := by
  rw [checkedHashOf, checkedSized_eq, Checked.andThen_ok, hashOf]

theorem checkedSame_eq (r : KeyRules) (ignoreCase : Bool) (stored sought : Bytes) :
    r.checkedSame ignoreCase stored sought = .ok (r.same ignoreCase stored sought) := by
  rw [checkedSame, checkedSized_eq, checkedSized_eq, Checked.andThen_ok, Checked.andThen_ok, same]
  cases r.equal <;> rfl

end KeyRules

/-- Whether an entry is the one for the key sought. -/
def Config.checkedAccepts {ρ : Type v} {α : Type u} (c : Config ρ) (sought : Bytes)
    (entry : Entry α) : Checked Bool :=
  c.rules.checkedSame c.settings.ignoreCase entry.key.bytes sought

theorem Config.checkedAccepts_eq {ρ : Type v} {α : Type u} (c : Config ρ) (sought : Bytes)
    (entry : Entry α) : c.checkedAccepts sought entry = .ok (c.accepts sought entry) :=
  c.rules.checkedSame_eq c.settings.ignoreCase entry.key.bytes sought

/-- A series of turns keeps a table on slots that can be counted. -/
theorem Table.Counted.series {α : Type u} {t u : Table α} (hc : t.Counted) (h : Series t u) :
    u.Counted := by
  refine h.induction (fun {t u} hturn hc => ?_) hc
  obtain hstep | ⟨fs, rfl⟩ := hturn
  · exact hc.step hstep
  · exact hc.mapEach fs

namespace Dict

variable {ρ : Type v} {σ : Type w} {α : Type u} {d : Dict ρ α}

/-- The table of every dictionary that comes about can be counted. -/
theorem Reachable.counted (h : d.Reachable) : d.table.Counted :=
  ⟨h.wellFormed, h.capacity_lt_limit⟩

/-! ## Lookup -/

/-- The hash the dictionary uses for a key. -/
def checkedHashKey (d : Dict ρ α) (key : Bytes) : Checked UInt32 :=
  d.config.rules.checkedHashOf d.config.settings.ignoreCase key

/-- The entry stored for a key. -/
def checkedFind? (d : Dict ρ α) (key : Bytes) : Checked (Option (Entry α)) :=
  (d.checkedHashKey key).andThen fun hash => d.table.checkedFind? hash (d.config.checkedAccepts key)

/-- The value stored for a key. -/
def checkedGet? (d : Dict ρ α) (key : Bytes) : Checked (Option α) :=
  (d.checkedFind? key).andThen fun found => .ok (found.map Entry.value)

/-- Whether a value is stored for a key. -/
def checkedContains (d : Dict ρ α) (key : Bytes) : Checked Bool :=
  (d.checkedGet? key).andThen fun value => .ok value.isSome

/-- The entry stored for a key, which must not be empty. -/
def checkedLocate (d : Dict ρ α) (key : Bytes) : Checked (Except Error (Located α)) :=
  if key.isEmpty then .ok (.error emptyKey)
  else
    (d.checkedHashKey key).andThen fun hash =>
    (d.table.checkedFind? hash (d.config.checkedAccepts key)).andThen fun found =>
    match found with
    | none => .ok (.error .notFound)
    | some entry => .ok (.ok ⟨entry, hash⟩)

/-- Rewrites the value stored for a key by `f`, and answers the new value. -/
def checkedModify (d : Dict ρ α) (key : Bytes) (f : α → α) : Checked (Option α × Dict ρ α) :=
  (d.checkedHashKey key).andThen fun hash =>
  (d.table.checkedUpdate? hash (d.config.checkedAccepts key) fun entry =>
    (f entry.value, ⟨entry.key, f entry.value⟩)).andThen fun updated =>
  .ok (updated.1, ⟨updated.2, d.config⟩)

theorem checkedHashKey_eq (d : Dict ρ α) (key : Bytes) :
    d.checkedHashKey key = .ok (d.hashKey key) :=
  d.config.rules.checkedHashOf_eq d.config.settings.ignoreCase key

theorem checkedFind?_eq (hc : d.table.Counted) (key : Bytes) :
    d.checkedFind? key = .ok (d.find? key) := by
  rw [checkedFind?, checkedHashKey_eq, Checked.andThen_ok]
  exact Table.checkedFind?_eq hc (d.config.checkedAccepts_eq key)

theorem checkedGet?_eq (hc : d.table.Counted) (key : Bytes) :
    d.checkedGet? key = .ok (d.get? key) := by
  rw [checkedGet?, checkedFind?_eq hc, Checked.andThen_ok, get?]

theorem checkedContains_eq (hc : d.table.Counted) (key : Bytes) :
    d.checkedContains key = .ok (d.contains key) := by
  rw [checkedContains, checkedGet?_eq hc, Checked.andThen_ok, contains]

theorem checkedLocate_eq (hc : d.table.Counted) (key : Bytes) :
    d.checkedLocate key = .ok (d.locate key) := by
  rw [checkedLocate, locate]
  split
  · rfl
  · have hfind : d.table.checkedFind? (d.hashKey key) (d.config.checkedAccepts key)
        = .ok (d.find? key) := Table.checkedFind?_eq hc (d.config.checkedAccepts_eq key)
    rw [checkedHashKey_eq, Checked.andThen_ok, hfind, Checked.andThen_ok]
    cases d.find? key <;> rfl

theorem checkedModify_eq (hc : d.table.Counted) (key : Bytes) (f : α → α) :
    d.checkedModify key f = .ok (d.modify key f) := by
  rw [checkedModify, checkedHashKey_eq, Checked.andThen_ok,
    Table.checkedUpdate?_eq hc (d.config.checkedAccepts_eq key), Checked.andThen_ok]
  rfl

/-! ## Insertion and removal by key -/

/-- Inserts a value for a key stored as given, and answers the value replaced, unless the dictionary
owned it. -/
def checkedInsertKey (d : Dict ρ α) (available : Allocator) (key : Key) (value : α) :
    Checked (Effect ρ α (Option α)) :=
  if key.bytes.isEmpty then .ok ⟨.error emptyKey, d, []⟩
  else
    (d.checkedHashKey key.bytes).andThen fun hash =>
    (d.table.checkedUpdate? hash (d.config.checkedAccepts key.bytes) fun old =>
      (old, ⟨key, value⟩)).andThen fun updated =>
    match updated with
    | (some old, table) =>
      .ok ⟨.ok (d.config.givenBack old.value), ⟨table, d.config⟩, [d.config.givenUp old.value]⟩
    | (none, table) =>
      (table.checkedInsertNew available d.config.settings.resize hash ⟨key, value⟩).andThen
        fun inserted =>
      match inserted with
      | ⟨.ok _, table⟩ => .ok ⟨.ok none, ⟨table, d.config⟩, []⟩
      | ⟨.error e, table⟩ => .ok ⟨.error e, ⟨table, d.config⟩, []⟩

/-- Inserts a value for a key, of which the dictionary keeps a copy if it owns keys. -/
def checkedInsert (d : Dict ρ α) (available : Allocator) (key : Bytes) (value : α) :
    Checked (Effect ρ α (Option α)) :=
  d.checkedInsertKey available
    (if d.config.settings.ownership.ownsKeys then .owned key else .borrowed key) value

/-- Takes out the value stored for a key and gives it to the caller. -/
def checkedRemove (d : Dict ρ α) (available : Allocator) (key : Bytes) :
    Checked (Effect ρ α α) :=
  if key.isEmpty then .ok ⟨.error emptyKey, d, []⟩
  else
    (d.checkedHashKey key).andThen fun hash =>
    (d.table.checkedRemove available d.config.settings.resize hash
      (d.config.checkedAccepts key)).andThen fun removed =>
    match removed with
    | ⟨.ok entry, table⟩ => .ok ⟨.ok entry.value, ⟨table, d.config⟩, [⟨entry.value, none⟩]⟩
    | ⟨.error e, table⟩ => .ok ⟨.error e, ⟨table, d.config⟩, []⟩

/-- Deletes the value stored for a key, and answers it, unless the dictionary owned it. -/
def checkedDelete (d : Dict ρ α) (available : Allocator) (key : Bytes) :
    Checked (Effect ρ α (Option α)) :=
  (d.checkedRemove available key).andThen fun removed =>
  match removed with
  | ⟨.ok value, d, _⟩ => .ok ⟨.ok (d.config.givenBack value), d, [d.config.givenUp value]⟩
  | ⟨.error e, d, departed⟩ => .ok ⟨.error e, d, departed⟩

theorem checkedInsertKey_eq (hc : d.table.Counted) (available : Allocator) (key : Key)
    (value : α) : d.checkedInsertKey available key value
      = .ok (d.insertKey available key value) := by
  have hupdate : d.table.checkedUpdate? (d.hashKey key.bytes)
      (d.config.checkedAccepts key.bytes) (fun old => (old, (⟨key, value⟩ : Entry α)))
        = .ok (d.table.update? (d.hashKey key.bytes) (d.config.accepts key.bytes)
          fun old => (old, ⟨key, value⟩)) :=
    Table.checkedUpdate?_eq hc (d.config.checkedAccepts_eq key.bytes) _
  rw [checkedInsertKey]
  cases hkey : key.bytes.isEmpty with
  | true =>
    rw [if_pos rfl, insertKey_of_isEmpty hkey]
  | false =>
    rw [if_neg Bool.false_ne_true, checkedHashKey_eq, Checked.andThen_ok, hupdate,
      Checked.andThen_ok]
    rcases d.table.exists_selects_or (d.hashKey key.bytes) (d.config.accepts key.bytes) with
      ⟨index, slot, hselect⟩ | hmiss
    · rw [hselect.update?_eq, Selects.insertKey_eq hselect hkey]
      rfl
    · -- Nothing was found, so the table that takes the entry is the one that was searched.
      rw [Table.update?_of_search_none hmiss, insertKey_of_misses hmiss hkey]
      dsimp only
      rw [Table.checkedInsertNew_eq hc, Checked.andThen_ok]
      rcases d.table.insertNew available d.config.settings.resize (d.hashKey key.bytes)
        ⟨key, value⟩ with ⟨_ | _, u⟩ <;> rfl

theorem checkedInsert_eq (hc : d.table.Counted) (available : Allocator) (key : Bytes) (value : α) :
    d.checkedInsert available key value = .ok (d.insert available key value) :=
  checkedInsertKey_eq hc available _ value

theorem checkedRemove_eq (hc : d.table.Counted) (available : Allocator) (key : Bytes) :
    d.checkedRemove available key = .ok (d.remove available key) := by
  rw [checkedRemove]
  cases hkey : key.isEmpty with
  | true =>
    rw [if_pos rfl, remove_of_isEmpty hkey]
  | false =>
    rw [if_neg Bool.false_ne_true, checkedHashKey_eq, Checked.andThen_ok,
      Table.checkedRemove_eq hc available _ (d.config.checkedAccepts_eq key), Checked.andThen_ok,
      remove_eq_remove hkey]
    rcases d.table.remove available d.config.settings.resize (d.hashKey key)
      (d.config.accepts key) with ⟨_ | _, u⟩ <;> rfl

theorem checkedDelete_eq (hc : d.table.Counted) (available : Allocator) (key : Bytes) :
    d.checkedDelete available key = .ok (d.delete available key) := by
  rw [checkedDelete, checkedRemove_eq hc, Checked.andThen_ok, delete]
  rcases d.remove available key with ⟨_ | _, _, _⟩ <;> rfl

/-! ## Operations on the whole dictionary -/

/-- Makes room for `additional` more entries. -/
def checkedReserve (d : Dict ρ α) (available : Allocator) (additional : ℕ) :
    Checked (Outcome (Dict ρ α) Unit) :=
  (d.table.checkedReserve available additional).andThen fun reserved =>
  .ok ⟨reserved.answer, ⟨reserved.state, d.config⟩⟩

/-- Goes down to the slots that fit the entries, if they are fewer and can be obtained. -/
def checkedShrinkToFit (d : Dict ρ α) (available : Allocator) : Checked (Dict ρ α) :=
  (d.table.checkedShrinkToFit available).andThen fun table => .ok ⟨table, d.config⟩

/-- Inserts pairs one after another, up to the first that fails. -/
def checkedInsertAll (d : Dict ρ α) (available : Allocator) :
    List (Bytes × α) → Checked (Effect ρ α Unit)
  | [] => .ok ⟨.ok (), d, []⟩
  | (key, value) :: rest =>
    (d.checkedInsert available key value).andThen fun inserted =>
    match inserted with
    | ⟨.error e, d, departed⟩ => .ok ⟨.error e, d, departed⟩
    | ⟨.ok _, d, departed⟩ =>
      (d.checkedInsertAll available rest).andThen fun later =>
      .ok ⟨later.answer, later.dict, departed ++ later.departed⟩

/-- Makes room for as many pairs as are expected and then inserts the pairs one after another, up to
the first that fails. -/
def checkedExtendBy (d : Dict ρ α) (available : Allocator) (expected : ℕ)
    (pairs : List (Bytes × α)) : Checked (Effect ρ α Unit) :=
  (d.checkedReserve available expected).andThen fun reserved =>
  match reserved with
  | ⟨.error e, d⟩ => .ok ⟨.error e, d, []⟩
  | ⟨.ok _, d⟩ => d.checkedInsertAll available pairs

/-- Visits every entry once, keeps those the visits keep and gives up the values of the others. -/
def checkedRetain (d : Dict ρ α) (visit : Bytes → α → σ → Verdict α × σ) (state : σ) :
    Checked (Sweep ρ σ α) :=
  (d.table.checkedRetain (visitEntry visit) state).andThen fun swept =>
  .ok ⟨⟨swept.table, d.config⟩, swept.removed.map fun entry => d.config.givenUp entry.value,
    swept.state⟩

/-- Removes every entry, keeps the slots and gives up the values: those it owns on a walk that ends
where nothing is to come, after as many steps as there are entries and one more. -/
def checkedClear (d : Dict ρ α) : Checked (Dict ρ α × List (Departure ρ α)) :=
  if d.config.ownsValues then
    (d.table.cursor.checkedTakeFrom (d.table.size + 1) []).andThen fun walked =>
    .ok (⟨d.table.clear, d.config⟩, walked.1.map fun entry => d.config.givenUp entry.value)
  else .ok (⟨d.table.clear, d.config⟩, d.values.map d.config.givenUp)

/-- Rewrites the first values in slot order, each by a function of its own. -/
def checkedRewriteValues (d : Dict ρ α) (fs : List (α → α)) : Checked (Dict ρ α) :=
  (d.table.checkedMapEach (fs.map Entry.onValue)).andThen fun table => .ok ⟨table, d.config⟩

theorem checkedReserve_eq (hc : d.table.Counted) (available : Allocator) (additional : ℕ) :
    d.checkedReserve available additional = .ok (d.reserve available additional) := by
  rw [checkedReserve, Table.checkedReserve_eq hc, Checked.andThen_ok, reserve_eq_reserve]

theorem checkedShrinkToFit_eq (hc : d.table.Counted) (available : Allocator) :
    d.checkedShrinkToFit available = .ok (d.shrinkToFit available) := by
  rw [checkedShrinkToFit, Table.checkedShrinkToFit_eq hc, Checked.andThen_ok, shrinkToFit]

theorem checkedInsertAll_eq (hc : d.table.Counted) (available : Allocator)
    (pairs : List (Bytes × α)) :
    d.checkedInsertAll available pairs = .ok (d.insertAll available pairs) := by
  induction pairs generalizing d with
  | nil => rfl
  | cons pair rest ih =>
    obtain ⟨key, value⟩ := pair
    -- The rest is inserted into what this insertion leaves, whether it is refused or not.
    have hnext := hc.series (d.series_insert available key value)
    rw [checkedInsertAll, insertAll, checkedInsert_eq hc, Checked.andThen_ok]
    generalize d.insert available key value = inserted at hnext
    obtain ⟨_ | _, next, departed⟩ := inserted
    · rfl
    · dsimp only
      rw [ih hnext, Checked.andThen_ok]

theorem checkedExtendBy_eq (hc : d.table.Counted) (available : Allocator) (expected : ℕ)
    (pairs : List (Bytes × α)) :
    d.checkedExtendBy available expected pairs = .ok (d.extendBy available expected pairs) := by
  have hnext := hc.series (d.series_reserve available expected)
  rw [checkedExtendBy, extendBy, checkedReserve_eq hc, Checked.andThen_ok]
  generalize d.reserve available expected = reserved at hnext
  obtain ⟨_ | _, next⟩ := reserved
  · rfl
  · exact checkedInsertAll_eq hnext available pairs

theorem checkedRetain_eq (hc : d.table.Counted) (visit : Bytes → α → σ → Verdict α × σ)
    (state : σ) : d.checkedRetain visit state = .ok (d.retain visit state) := by
  rw [checkedRetain, Table.checkedRetain_eq hc, Checked.andThen_ok]
  rfl

theorem checkedClear_eq (hc : d.table.Counted) : d.checkedClear = .ok d.clear := by
  have hwalked : (Cursor.takeFrom (d.table.size + 1) [] d.table.cursor).1 = d.table.items := by
    have hlength : d.table.items.length ≤ d.table.size + 1 := by
      rw [Table.items, List.length_map, ← hc.wellFormed.size_eq]
      exact Nat.le_succ _
    have htake := Cursor.fst_take (d.table.size + 1) d.table.cursor
    rwa [Cursor.items_cursor, List.take_of_length_le hlength] at htake
  rw [checkedClear, clear]
  split
  · rw [Cursor.checkedTakeFrom_eq hc.cursor, Checked.andThen_ok, hwalked, values, List.map_map]
    rfl
  · rfl

theorem checkedRewriteValues_eq (hc : d.table.Counted) (fs : List (α → α)) :
    d.checkedRewriteValues fs = .ok (d.rewriteValues fs) := by
  rw [checkedRewriteValues, Table.checkedMapEach_eq hc, Checked.andThen_ok, rewriteValues]

/-! ## Calls -/

/-- Serves a request. -/
def checkedServe (d : Dict ρ α) : Request σ α → Checked (Effect ρ α (Answer σ α))
  | .insert available key value =>
    (d.checkedInsert available key value).andThen fun e => .ok (e.map .value)
  | .insertKey available key value =>
    (d.checkedInsertKey available key value).andThen fun e => .ok (e.map .value)
  | .get key => (d.checkedGet? key).andThen fun value => .ok ⟨.ok (.value value), d, []⟩
  | .modify key f =>
    (d.checkedModify key f).andThen fun modified => .ok ⟨.ok (.value modified.1), modified.2, []⟩
  | .contains key => (d.checkedContains key).andThen fun flag => .ok ⟨.ok (.flag flag), d, []⟩
  | .locate key =>
    (d.checkedLocate key).andThen fun located =>
    .ok ⟨located.map fun l => .located l.entry l.hash, d, []⟩
  | .delete available key => (d.checkedDelete available key).andThen fun e => .ok (e.map .value)
  | .remove available key =>
    (d.checkedRemove available key).andThen fun e => .ok (e.map fun value => .value (some value))
  | .reserve available additional =>
    (d.checkedReserve available additional).andThen fun reserved =>
    .ok ⟨reserved.answer.map fun _ => .done, reserved.state, []⟩
  | .shrinkToFit available =>
    (d.checkedShrinkToFit available).andThen fun d => .ok ⟨.ok .done, d, []⟩
  | .retain visit state =>
    (d.checkedRetain visit state).andThen fun swept =>
    .ok ⟨.ok (.visited swept.state), swept.dict, swept.departed⟩
  | .clear => d.checkedClear.andThen fun cleared => .ok ⟨.ok .done, cleared.1, cleared.2⟩
  | .drain n =>
    (d.drain.1.checkedTakeFrom n []).andThen fun taken =>
    .ok ⟨.ok (.entries taken.1), d.drain.2.1, d.drain.2.2⟩
  | .extend available expected pairs =>
    (d.checkedExtendBy available expected pairs).andThen fun e => .ok (e.map fun _ => .done)
  | .setSettings settings => .ok ⟨.ok .done, d.setSettings settings, []⟩

/-- Performs a call. -/
def checkedPerform (d : Dict ρ α) : Call ρ σ α → Checked (Effect ρ α (Answer σ α))
  | .request request => d.checkedServe request
  | .rewrite fs => (d.checkedRewriteValues fs).andThen fun d => .ok ⟨.ok .done, d, []⟩
  | .setRelease release => .ok (d.perform (.setRelease release))
  | .setHash hash => .ok (d.perform (.setHash hash))
  | .setSize size => .ok (d.perform (.setSize size))
  | .setEqual equal => .ok (d.perform (.setEqual equal))

theorem checkedServe_eq (hc : d.table.Counted) (request : Request σ α) :
    d.checkedServe request = .ok (d.serve request) := by
  cases request with
  | insert available key value => rw [checkedServe, checkedInsert_eq hc, Checked.andThen_ok, serve]
  | insertKey available key value =>
    rw [checkedServe, checkedInsertKey_eq hc, Checked.andThen_ok, serve]
  | get key => rw [checkedServe, checkedGet?_eq hc, Checked.andThen_ok, serve]
  | modify key f => rw [checkedServe, checkedModify_eq hc, Checked.andThen_ok, serve]
  | contains key => rw [checkedServe, checkedContains_eq hc, Checked.andThen_ok, serve]
  | locate key => rw [checkedServe, checkedLocate_eq hc, Checked.andThen_ok, serve]
  | delete available key => rw [checkedServe, checkedDelete_eq hc, Checked.andThen_ok, serve]
  | remove available key => rw [checkedServe, checkedRemove_eq hc, Checked.andThen_ok, serve]
  | reserve available additional =>
    rw [checkedServe, checkedReserve_eq hc, Checked.andThen_ok, serve]
  | shrinkToFit available =>
    rw [checkedServe, checkedShrinkToFit_eq hc, Checked.andThen_ok, serve]
  | retain visit state => rw [checkedServe, checkedRetain_eq hc, Checked.andThen_ok, serve]
  | clear => rw [checkedServe, checkedClear_eq hc, Checked.andThen_ok, serve]
  | drain n =>
    have hwalk := Cursor.checkedTakeFrom_eq hc.cursor n []
    rw [checkedServe, serve]
    exact congrArg (Checked.andThen · _) hwalk
  | extend available expected pairs =>
    rw [checkedServe, checkedExtendBy_eq hc, Checked.andThen_ok, serve]
  | setSettings settings => rfl

theorem checkedPerform_eq (hc : d.table.Counted) (call : Call ρ σ α) :
    d.checkedPerform call = .ok (d.perform call) := by
  cases call with
  | request request => exact checkedServe_eq hc request
  | rewrite fs => rw [checkedPerform, checkedRewriteValues_eq hc, Checked.andThen_ok, perform]
  | setRelease release => rfl
  | setHash hash => rfl
  | setSize size => rfl
  | setEqual equal => rfl

end Dict

end OpenAddressing
