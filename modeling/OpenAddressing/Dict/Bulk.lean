import OpenAddressing.Dict.Update
import OpenAddressing.Table.Retain
import OpenAddressing.Table.Stats

/-!
# Operations on the whole dictionary

Clearing and disposing give up every value, in slot order; keeping some of the entries gives up the
others, in the order of the visits. A draining walk gives every key and value to the caller, who
also has those that the walk does not reach.
-/

namespace OpenAddressing

universe u v w

/-- What a walk over the entries of a dictionary leaves. -/
structure Dict.Sweep (ρ : Type v) (σ : Type w) (α : Type u) where
  /-- The dictionary with the entries that stay. -/
  dict : Dict ρ α
  /-- The values of the others, in the order of the visits. -/
  departed : List (Departure ρ α)
  /-- The running state after the last visit. -/
  state : σ

namespace Dict

variable {ρ : Type v} {σ : Type w} {α : Type u}

/-- The entries in slot order. -/
def entries (d : Dict ρ α) : List (Entry α) := d.table.items

/-- The keys in slot order. -/
def keys (d : Dict ρ α) : List Bytes := d.entries.map fun entry => entry.key.bytes

/-- The values in slot order. -/
def values (d : Dict ρ α) : List α := d.entries.map Entry.value

/-- Removes every entry, keeps the slots and gives up the values. -/
def clear (d : Dict ρ α) : Dict ρ α × List (Departure ρ α) :=
  (⟨d.table.clear, d.config⟩, d.values.map d.config.givenUp)

/-- Ends the dictionary and gives up the values. -/
def dispose (d : Dict ρ α) : List (Departure ρ α) := d.values.map d.config.givenUp

/-- Visits every entry once, keeps those the visits keep and gives up the values of the others. -/
def retain (d : Dict ρ α) (visit : Bytes → α → σ → Verdict α × σ) (state : σ) :
    Sweep ρ σ α :=
  match d with
  | ⟨table, config⟩ =>
    let visitEntry (entry : Entry α) (state : σ) : Verdict (Entry α) × σ :=
      match visit entry.key.bytes entry.value state with
      | (verdict, state) => (⟨verdict.keep, ⟨entry.key, verdict.item⟩⟩, state)
    match table.retain visitEntry state with
    | ⟨table, removed, state⟩ =>
      ⟨⟨table, config⟩, removed.map fun entry => config.givenUp entry.value, state⟩

/-- The walk over the entries. -/
def cursor (d : Dict ρ α) : Cursor (Entry α) := d.table.cursor

/-- Rewrites the first `n` values in slot order. -/
def mapFirstValues (d : Dict ρ α) (n : Nat) (f : α → α) : Dict ρ α :=
  match d with
  | ⟨table, config⟩ =>
    ⟨table.mapFirst n fun entry => ⟨entry.key, f entry.value⟩, config⟩

/-- Empties the dictionary and hands its entries to a walk. -/
def drain (d : Dict ρ α) : Cursor (Entry α) × Dict ρ α × List (Departure ρ α) :=
  let (cursor, table) := d.table.drain
  (cursor, ⟨table, d.config⟩, d.values.map fun value => ⟨value, none⟩)

/-- How many entries have each displacement, up to the largest. -/
def histogram (d : Dict ρ α) : Array Nat := d.table.histogram

/-- The statistics of the table. -/
def stats (d : Dict ρ α) : Stats := d.table.stats

end Dict

end OpenAddressing
