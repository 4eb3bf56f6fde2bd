import OpenAddressing.Key.Basic
import OpenAddressing.Settings
import OpenAddressing.Table.Cursor
import OpenAddressing.Table.Update

/-!
# Dictionaries

A dictionary is a table of entries, each a key with a value, under a configuration: the rules on
keys, the disposal of values it owns, and its settings.

A value that leaves the dictionary departs. Every operation lists the values that depart, in order,
each with the receiver it is handed to. A value is handed over when the dictionary owns it, gives it
up by itself and has a receiver; a value that the caller takes out or owns has none.
-/

namespace OpenAddressing

universe u v w

/-- A key with the value stored for it. -/
structure Entry (α : Type u) where
  /-- The key as it was given. -/
  key : Key
  /-- The value. -/
  value : α
deriving DecidableEq

/-- What becomes of a value that the dictionary owns and gives up. -/
inductive Release (ρ : Type v) where
  /-- It is dropped. -/
  | drop
  /-- It is handed to a receiver. -/
  | handTo (receiver : ρ)
deriving DecidableEq

/-- The receiver of released values, if there is one. -/
def Release.receiver? {ρ : Type v} : Release ρ → Option ρ
  | .drop => none
  | .handTo receiver => some receiver

/-- A value that left a dictionary. -/
structure Departure (ρ : Type v) (α : Type u) where
  /-- The value. -/
  value : α
  /-- The receiver it was handed to, if any. -/
  receiver : Option ρ
deriving DecidableEq

/-- What a dictionary does with its keys and values. -/
structure Config (ρ : Type v) where
  /-- The rules on keys. -/
  rules : KeyRules := .standard
  /-- What becomes of values it gives up. -/
  release : Release ρ := .drop
  /-- Its settings. -/
  settings : Settings := {}

namespace Config

variable {ρ : Type v} {α : Type u}

/-- The hash of a key. -/
def hashKey (c : Config ρ) (key : Bytes) : UInt32 := c.rules.hashOf c.settings.ignoreCase key

/-- Whether an entry is the one for the key sought. -/
def accepts (c : Config ρ) (sought : Bytes) (entry : Entry α) : Bool :=
  c.rules.same c.settings.ignoreCase entry.key.bytes sought

/-- Whether the dictionary owns its values. -/
def ownsValues (c : Config ρ) : Bool := c.settings.ownership.ownsValues

/-- How a value departs that the dictionary gives up by itself. -/
def givenUp (c : Config ρ) (value : α) : Departure ρ α :=
  ⟨value, if c.ownsValues then c.release.receiver? else none⟩

/-- What the caller gets back of a value that is given up: nothing, if the dictionary owned it. -/
def givenBack (c : Config ρ) (value : α) : Option α :=
  if c.ownsValues then none else some value

end Config

/-- A dictionary from byte strings to values. -/
structure Dict (ρ : Type v) (α : Type u) where
  /-- The entries. -/
  table : Table (Entry α)
  /-- What is done with them. -/
  config : Config ρ

/-- What an operation on a dictionary answers, what it leaves, and which values departed. -/
structure Dict.Effect (ρ : Type v) (α : Type u) (β : Type w) where
  /-- The answer, or why there is none. -/
  answer : Except Error β
  /-- The dictionary afterwards. -/
  dict : Dict ρ α
  /-- The values that left it, in order. -/
  departed : List (Departure ρ α)

namespace Dict

variable {ρ : Type v} {α : Type u} {β : Type w}

/-- The empty dictionary of the fewest slots under these settings. -/
def empty (settings : Settings) : Dict ρ α := ⟨.empty, { settings }⟩

/-- The empty dictionary on at least `n` slots under these settings. -/
def withCapacity (available : Allocator) (n : Nat) (settings : Settings) :
    Except Error (Dict ρ α) :=
  (Table.withCapacity available n).map fun table => ⟨table, { settings }⟩

instance : Inhabited (Dict ρ α) := ⟨empty {}⟩

/-- The number of entries. -/
def size (d : Dict ρ α) : Nat := d.table.size

/-- Whether there is no entry. -/
def isEmpty (d : Dict ρ α) : Bool := d.table.isEmpty

/-- The number of slots. -/
def capacity (d : Dict ρ α) : Nat := d.table.capacity

/-- The dictionary with the same entries and rules that drops the values it gives up. -/
def copy (d : Dict ρ α) : Dict ρ α := ⟨d.table.copy, { d.config with release := .drop }⟩

/-! ## Configuration -/

/-- Puts other settings in place, whatever is stored. -/
def setSettings (d : Dict ρ α) (settings : Settings) : Dict ρ α :=
  match d with
  | ⟨table, config⟩ => ⟨table, { config with settings }⟩

/-- Puts another disposal of values in place. -/
def setRelease (d : Dict ρ α) (release : Release ρ) : Dict ρ α :=
  match d with
  | ⟨table, config⟩ => ⟨table, { config with release }⟩

/-- Replaces a rule on keys, named by `what`. It is refused while any entry is stored. -/
def replaceRule (d : Dict ρ α) (what : String) (change : KeyRules → KeyRules) :
    Outcome (Dict ρ α) Unit :=
  match d with
  | ⟨table, config⟩ =>
    if table.isEmpty then ⟨.ok (), ⟨table, { config with rules := change config.rules }⟩⟩
    else
      ⟨.error (.generic ("cannot replace the " ++ what ++ " of a map holding "
        ++ toString table.size ++ " entries")), ⟨table, config⟩⟩

/-- Replaces the hash. -/
def setHash (d : Dict ρ α) (hash : Bytes → UInt32) : Outcome (Dict ρ α) Unit :=
  d.replaceRule "hash function" fun rules => { rules with hash }

/-- Replaces the measure. -/
def setSize (d : Dict ρ α) (size : Bytes → Nat) : Outcome (Dict ρ α) Unit :=
  d.replaceRule "key size function" fun rules => { rules with size }

/-- Replaces the comparison. -/
def setEqual (d : Dict ρ α) (equal : Bytes → Bytes → Bool) : Outcome (Dict ρ α) Unit :=
  d.replaceRule "key comparison function" fun rules => { rules with equal := some equal }

/-! ## Lookup -/

/-- The hash the dictionary uses for a key. -/
def hashKey (d : Dict ρ α) (key : Bytes) : UInt32 := d.config.hashKey key

/-- The entry stored for a key. -/
def find? (d : Dict ρ α) (key : Bytes) : Option (Entry α) :=
  d.table.find? (d.hashKey key) (d.config.accepts key)

/-- The value stored for a key. -/
def get? (d : Dict ρ α) (key : Bytes) : Option α := (d.find? key).map Entry.value

/-- Whether a value is stored for a key. -/
def contains (d : Dict ρ α) (key : Bytes) : Bool := (d.get? key).isSome

/-- The refusal of a key without bytes. -/
def emptyKey : Error := .invalidInput "empty key"

/-- An entry with the hash of the key it was found by. -/
structure Located (α : Type u) where
  /-- The entry. -/
  entry : Entry α
  /-- The hash of the key sought. -/
  hash : UInt32

/-- The entry stored for a key, which must not be empty. -/
def locate (d : Dict ρ α) (key : Bytes) : Except Error (Located α) :=
  if key.isEmpty then .error emptyKey
  else
    match d.find? key with
    | none => .error .notFound
    | some entry => .ok ⟨entry, d.hashKey key⟩

/-- Rewrites the value stored for a key by `f`, and answers the new value. -/
def modify (d : Dict ρ α) (key : Bytes) (f : α → α) : Option α × Dict ρ α :=
  match d with
  | ⟨table, config⟩ =>
    match table.update? (config.hashKey key) (config.accepts key) fun entry =>
        (f entry.value, ⟨entry.key, f entry.value⟩) with
    | (answer, table) => (answer, ⟨table, config⟩)

end Dict

end OpenAddressing
