import OpenAddressing.Dict.Bulk
import OpenAddressing.Proofs.Dict.AssocMap
import OpenAddressing.Proofs.Table.SlotCount

/-!
# Requests to a dictionary

A request is one call with its arguments, together with the slots that can be obtained during it,
and `Dict.serve` is what a dictionary makes of it. `AssocMap.serve` is what an association map makes
of it, without hashes or places: only the order in which a walk comes to the entries is left open.
The slots of the map are those of the dictionary after every request. They follow from the numbers
of slots and entries (`SlotCount`), and with them whether a new key is refused: for want of slots
that could not be obtained, or because the map is full and may not grow.

A run is a list of exchanges, and an exchange is a request with its answer and the numbers of
entries and slots after it.
-/

namespace OpenAddressing

universe u v w

/-- A call to a dictionary. The walks that keep some of the entries have a running state in `σ`. -/
inductive Request (σ : Type w) (α : Type u) where
  /-- Insert a value for a key, stored as the settings say. -/
  | insert (available : Allocator) (key : Bytes) (value : α)
  /-- Insert a value for a key stored as given. -/
  | insertKey (available : Allocator) (key : Key) (value : α)
  /-- Look up a value. -/
  | get (key : Bytes)
  /-- Rewrite a value. -/
  | modify (key : Bytes) (f : α → α)
  /-- Ask whether a value is stored. -/
  | contains (key : Bytes)
  /-- Look up an entry. -/
  | locate (key : Bytes)
  /-- Give up a value. -/
  | delete (available : Allocator) (key : Bytes)
  /-- Take out a value. -/
  | remove (available : Allocator) (key : Bytes)
  /-- Make room for further entries. -/
  | reserve (available : Allocator) (additional : ℕ)
  /-- Go down to the slots that fit. -/
  | shrinkToFit (available : Allocator)
  /-- Keep some of the entries. -/
  | retain (visit : Bytes → α → σ → Verdict α × σ) (state : σ)
  /-- Remove all entries. -/
  | clear
  /-- Remove all entries and walk over the first `n` of them. -/
  | drain (n : ℕ)
  /-- Insert pairs one after another, with so many expected. -/
  | extend (available : Allocator) (expected : ℕ) (pairs : List (Bytes × α))
  /-- Put other settings in place. -/
  | setSettings (settings : Settings)

/-- What a call that does not fail answers. -/
inductive Answer (σ : Type w) (α : Type u) where
  /-- Nothing. -/
  | done
  /-- A value, if there is one to give. -/
  | value (value : Option α)
  /-- Yes or no. -/
  | flag (flag : Bool)
  /-- An entry and the hash of the key sought. -/
  | located (entry : Entry α) (hash : UInt32)
  /-- The running state of a walk. -/
  | visited (state : σ)
  /-- The entries a walk came to. -/
  | entries (entries : List (Entry α))
deriving DecidableEq

/-- A request with what is seen of it. -/
structure Exchange (σ : Type w) (α : Type u) where
  /-- The request. -/
  request : Request σ α
  /-- The answer to it. -/
  answer : Except Error (Answer σ α)
  /-- The number of entries afterwards. -/
  size : ℕ
  /-- The number of slots afterwards. -/
  slots : ℕ

/-- An outcome with another answer. -/
def Outcome.map {τ : Type v} {β : Type*} {γ : Type*} (f : β → γ) (o : Outcome τ β) : Outcome τ γ :=
  ⟨o.answer.map f, o.state⟩

/-! ## The dictionary -/

namespace Dict

variable {ρ : Type v} {σ : Type w} {α : Type u}

/-- An effect with another answer. -/
def Effect.map {β γ : Type*} (f : β → γ) (e : Effect ρ α β) : Effect ρ α γ :=
  ⟨e.answer.map f, e.dict, e.departed⟩

/-- Serves a request. -/
def serve (d : Dict ρ α) : Request σ α → Effect ρ α (Answer σ α)
  | .insert available key value => (d.insert available key value).map .value
  | .insertKey available key value => (d.insertKey available key value).map .value
  | .get key => ⟨.ok (.value (d.get? key)), d, []⟩
  | .modify key f => ⟨.ok (.value (d.modify key f).1), (d.modify key f).2, []⟩
  | .contains key => ⟨.ok (.flag (d.contains key)), d, []⟩
  | .locate key => ⟨(d.locate key).map fun l => .located l.entry l.hash, d, []⟩
  | .delete available key => (d.delete available key).map .value
  | .remove available key => (d.remove available key).map fun value => .value (some value)
  | .reserve available additional =>
    ⟨(d.reserve available additional).answer.map fun _ => .done,
      (d.reserve available additional).state, []⟩
  | .shrinkToFit available => ⟨.ok .done, d.shrinkToFit available, []⟩
  | .retain visit state =>
    ⟨.ok (.visited (d.retain visit state).state), (d.retain visit state).dict,
      (d.retain visit state).departed⟩
  | .clear => ⟨.ok .done, d.clear.1, d.clear.2⟩
  | .drain n => ⟨.ok (.entries (d.drain.1.take n).1), d.drain.2.1, d.drain.2.2⟩
  | .extend available expected pairs => (d.extendBy available expected pairs).map fun _ => .done
  | .setSettings settings => ⟨.ok .done, d.setSettings settings, []⟩

/-- Only an empty dictionary may come to ignore case or cease to, and only if its rules make classes
of keys also then. -/
def Allows (d : Dict ρ α) : Request σ α → Prop
  | .setSettings settings => settings.ignoreCase = d.config.settings.ignoreCase ∨
    (d.isEmpty = true ∧ d.config.rules.Lawful settings.ignoreCase)
  | _ => True

/-- A dictionary serves one request after another. -/
inductive Run : Dict ρ α → List (Exchange σ α) → Dict ρ α → Prop where
  /-- No request. -/
  | nil (d : Dict ρ α) : Run d [] d
  /-- A request, and further ones. -/
  | cons {d d' : Dict ρ α} (request : Request σ α) {trace : List (Exchange σ α)}
      (hallows : d.Allows request) (hrest : Run (d.serve request).dict trace d') :
      Run d (⟨request, (d.serve request).answer, (d.serve request).dict.size,
        (d.serve request).dict.capacity⟩ :: trace) d'

end Dict

/-! ## The association map -/

/-- The visit to an entry that a visit to its key and value makes. -/
def visitEntry {σ : Type w} {α : Type u} (visit : Bytes → α → σ → Verdict α × σ) (entry : Entry α)
    (state : σ) : Verdict (Entry α) × σ :=
  let visited := visit entry.key.bytes entry.value state
  (⟨visited.1.keep, ⟨entry.key, visited.1.item⟩⟩, visited.2)

/-- Visits entries one after another and keeps those that the visits keep. -/
def visitEntries {σ : Type w} {α : Type u} (visit : Bytes → α → σ → Verdict α × σ) :
    List (Entry α) → σ → List (Entry α) × σ
  | [], state => ([], state)
  | e :: rest, state =>
    let visited := visitEntry visit e state
    let after := visitEntries visit rest visited.2
    (if visited.1.keep then visited.1.item :: after.1 else after.1, after.2)

namespace AssocMap

variable {ρ : Type v} {σ : Type w} {α : Type u}

/-- The map on so many slots. -/
def withSlots (m : AssocMap ρ α) (slots : ℕ) : AssocMap ρ α := { m with slots }

/-- The policy under which the map changes its size. -/
def policy (m : AssocMap ρ α) : ResizePolicy := m.config.settings.resize

/-- The key as it is stored when the settings say how. -/
def stored (m : AssocMap ρ α) (key : Bytes) : Key :=
  if m.config.settings.ownership.ownsKeys then .owned key else .borrowed key

/-- Inserts an entry for the class of its key. If there is none in its place, the map makes room for
one more first. -/
def insertKey (m : AssocMap ρ α) (available : Allocator) (key : Key) (value : α) :
    Outcome (AssocMap ρ α) (Option α) :=
  if key.bytes.isEmpty then ⟨.error Dict.emptyKey, m⟩
  else
    match m.find? key.bytes with
    | some old => ⟨.ok (m.config.givenBack old.value), m.put key.bytes ⟨key, value⟩⟩
    | none =>
      match SlotCount.insert available m.policy m.slots m.entries.length with
      | ⟨.ok _, slots⟩ => ⟨.ok none, (m.put key.bytes ⟨key, value⟩).withSlots slots⟩
      | ⟨.error e, slots⟩ => ⟨.error e, m.withSlots slots⟩

/-- Inserts pairs in a row, up to the first that fails. -/
def insertAll (m : AssocMap ρ α) (available : Allocator) :
    List (Bytes × α) → Outcome (AssocMap ρ α) Unit
  | [] => ⟨.ok (), m⟩
  | (key, value) :: rest =>
    (m.insertKey available (m.stored key) value).andThen fun _ next => next.insertAll available rest

/-- Makes room for further entries. -/
def reserve (m : AssocMap ρ α) (available : Allocator) (additional : ℕ) :
    Outcome (AssocMap ρ α) Unit :=
  match SlotCount.reserve available m.slots m.entries.length additional with
  | ⟨answer, slots⟩ => ⟨answer, m.withSlots slots⟩

/-- Makes room for so many entries and then inserts pairs in a row. -/
def extendBy (m : AssocMap ρ α) (available : Allocator) (expected : ℕ) (pairs : List (Bytes × α)) :
    Outcome (AssocMap ρ α) Unit :=
  (m.reserve available expected).andThen fun _ next => next.insertAll available pairs

/-- Takes out the entry for the class of a key and answers its value. -/
def remove (m : AssocMap ρ α) (available : Allocator) (key : Bytes) : Outcome (AssocMap ρ α) α :=
  if key.isEmpty then ⟨.error Dict.emptyKey, m⟩
  else
    match m.find? key with
    | some old => ⟨.ok old.value, (m.erase key).withSlots
        (SlotCount.afterRemoval available m.policy m.slots (m.others key).length)⟩
    | none => ⟨.error .notFound, m⟩

/-- Takes out the entry for the class of a key and answers its value if the caller owns it. -/
def delete (m : AssocMap ρ α) (available : Allocator) (key : Bytes) :
    Outcome (AssocMap ρ α) (Option α) :=
  (m.remove available key).map m.config.givenBack

/-- Rewrites the value for the class of a key. -/
def modify (m : AssocMap ρ α) (key : Bytes) (f : α → α) : AssocMap ρ α :=
  match m.find? key with
  | some e => m.put key ⟨e.key, f e.value⟩
  | none => m

/-- Looks up the entry for the class of a key. -/
def locate (m : AssocMap ρ α) (key : Bytes) : Except Error (Entry α) :=
  if key.isEmpty then .error Dict.emptyKey
  else
    match m.find? key with
    | some e => .ok e
    | none => .error .notFound

/-- Serves a request. A walk comes to the entries in this order. -/
def serve (m : AssocMap ρ α) (order : List (Entry α)) :
    Request σ α → Outcome (AssocMap ρ α) (Answer σ α)
  | .insert available key value => (m.insertKey available (m.stored key) value).map .value
  | .insertKey available key value => (m.insertKey available key value).map .value
  | .get key => ⟨.ok (.value ((m.find? key).map Entry.value)), m⟩
  | .modify key f => ⟨.ok (.value ((m.find? key).map fun e => f e.value)), m.modify key f⟩
  | .contains key => ⟨.ok (.flag (m.find? key).isSome), m⟩
  | .locate key => ⟨(m.locate key).map fun e => .located e (m.config.hashKey key), m⟩
  | .delete available key => (m.delete available key).map .value
  | .remove available key => (m.remove available key).map fun value => .value (some value)
  | .reserve available additional => (m.reserve available additional).map fun _ => .done
  | .shrinkToFit available =>
    ⟨.ok .done, m.withSlots (SlotCount.toFit available m.slots m.entries.length)⟩
  | .retain visit state =>
    ⟨.ok (.visited (visitEntries visit order state).2),
      { m with entries := (visitEntries visit order state).1 }⟩
  | .clear => ⟨.ok .done, { m with entries := [] }⟩
  | .drain n => ⟨.ok (.entries (order.take n)), { m with entries := [] }⟩
  | .extend available expected pairs => (m.extendBy available expected pairs).map fun _ => .done
  | .setSettings settings => ⟨.ok .done, { m with config := { m.config with settings } }⟩

/-- The map serves one request after another, and walks come to its entries in any order. -/
inductive Run : AssocMap ρ α → List (Exchange σ α) → AssocMap ρ α → Prop where
  /-- No request. -/
  | nil (m : AssocMap ρ α) : Run m [] m
  /-- A request, and further ones. -/
  | cons {m m' : AssocMap ρ α} (request : Request σ α) {order : List (Entry α)}
      {trace : List (Exchange σ α)} (horder : order.Perm m.entries)
      (hrest : Run (m.serve order request).state trace m') :
      Run m (⟨request, (m.serve order request).answer,
        (m.serve order request).state.entries.length, (m.serve order request).state.slots⟩ :: trace)
        m'

end AssocMap

end OpenAddressing
