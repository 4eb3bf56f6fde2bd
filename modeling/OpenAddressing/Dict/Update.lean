import OpenAddressing.Dict.Basic

/-!
# Insertion and removal by key

An insertion for a key already present replaces the whole entry, key and value, in its slot. The
value replaced, and the value deleted, is given up: it goes to the caller or, when the dictionary
owns it, to the receiver. `remove` takes a value out for the caller in any case. Keys without bytes
are refused by every operation here.
-/

namespace OpenAddressing

universe u v

namespace Dict

variable {ρ : Type v} {α : Type u}

/-- Inserts a value for a key stored as given, and answers the value replaced, unless the dictionary
owned it. -/
def insertKey (d : Dict ρ α) (available : Allocator) (key : Key) (value : α) :
    Effect ρ α (Option α) :=
  if key.bytes.isEmpty then ⟨.error emptyKey, d, []⟩
  else
    match d with
    | ⟨table, config⟩ =>
      let hash := config.hashKey key.bytes
      match table.update? hash (config.accepts key.bytes) fun old => (old, ⟨key, value⟩) with
      | (some old, table) =>
        ⟨.ok (config.givenBack old.value), ⟨table, config⟩, [config.givenUp old.value]⟩
      | (none, table) =>
        match table.insertNew available config.settings.resize hash ⟨key, value⟩ with
        | ⟨.ok _, table⟩ => ⟨.ok none, ⟨table, config⟩, []⟩
        | ⟨.error e, table⟩ => ⟨.error e, ⟨table, config⟩, []⟩

/-- Inserts a value for a key, of which the dictionary keeps a copy if it owns keys. -/
def insert (d : Dict ρ α) (available : Allocator) (key : Bytes) (value : α) :
    Effect ρ α (Option α) :=
  d.insertKey available
    (if d.config.settings.ownership.ownsKeys then .owned key else .borrowed key) value

/-- Takes out the value stored for a key and gives it to the caller. -/
def remove (d : Dict ρ α) (available : Allocator) (key : Bytes) : Effect ρ α α :=
  if key.isEmpty then ⟨.error emptyKey, d, []⟩
  else
    match d with
    | ⟨table, config⟩ =>
      match table.remove available config.settings.resize (config.hashKey key)
          (config.accepts key) with
      | ⟨.ok entry, table⟩ => ⟨.ok entry.value, ⟨table, config⟩, [⟨entry.value, none⟩]⟩
      | ⟨.error e, table⟩ => ⟨.error e, ⟨table, config⟩, []⟩

/-- Deletes the value stored for a key, and answers it, unless the dictionary owned it. -/
def delete (d : Dict ρ α) (available : Allocator) (key : Bytes) : Effect ρ α (Option α) :=
  match d.remove available key with
  | ⟨.ok value, d, _⟩ => ⟨.ok (d.config.givenBack value), d, [d.config.givenUp value]⟩
  | ⟨.error e, d, departed⟩ => ⟨.error e, d, departed⟩

/-- Makes room for `additional` more entries, so that none of them makes the table grow. -/
def reserve (d : Dict ρ α) (available : Allocator) (additional : Nat) :
    Outcome (Dict ρ α) Unit :=
  match d with
  | ⟨table, config⟩ =>
    match table.reserve available additional with
    | ⟨answer, table⟩ => ⟨answer, ⟨table, config⟩⟩

/-- Goes down to the slots that fit the entries, if they are fewer and can be obtained. -/
def shrinkToFit (d : Dict ρ α) (available : Allocator) : Dict ρ α :=
  match d with
  | ⟨table, config⟩ => ⟨table.shrinkToFit available, config⟩

/-- Inserts pairs one after another, up to the first that fails. -/
def insertAll (d : Dict ρ α) (available : Allocator) : List (Bytes × α) → Effect ρ α Unit
  | [] => ⟨.ok (), d, []⟩
  | (key, value) :: rest =>
    match d.insert available key value with
    | ⟨.error e, d, departed⟩ => ⟨.error e, d, departed⟩
    | ⟨.ok _, d, departed⟩ =>
      match d.insertAll available rest with
      | ⟨answer, d, later⟩ => ⟨answer, d, departed ++ later⟩

/-- Makes room for as many pairs as are expected and then inserts the pairs one after another, up to
the first that fails. -/
def extendBy (d : Dict ρ α) (available : Allocator) (expected : Nat) (pairs : List (Bytes × α)) :
    Effect ρ α Unit :=
  match d.reserve available expected with
  | ⟨.error e, d⟩ => ⟨.error e, d, []⟩
  | ⟨.ok _, d⟩ => d.insertAll available pairs

/-- Makes room for all pairs and then inserts them one after another, up to the first that fails. -/
def extend (d : Dict ρ α) (available : Allocator) (pairs : List (Bytes × α)) : Effect ρ α Unit :=
  d.extendBy available pairs.length pairs

end Dict

end OpenAddressing
