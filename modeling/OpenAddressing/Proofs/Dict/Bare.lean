import OpenAddressing.Proofs.Dict.Calls
import OpenAddressing.Proofs.Table.Mapping

/-!
# Calls do not look at the owners of keys

`Key.bare` reads a key as one that the caller keeps, and `bare` does so for everything a key occurs
in: entries, answers, dictionaries and calls. The settings lose what says that keys are copied, and
keep what says who owns the values. Keys are hashed and compared by their bytes, so a bare call to a
bare dictionary is the call to the dictionary, read bare (`perform_bare`). Each operation of the
table commutes with the reading (`Table.insertNew_map` and so on), and here it is followed through
the operations by key.
-/

namespace OpenAddressing

universe u v w

/-! ## Reading away the owners -/

/-- The key as one that the caller keeps. -/
def Key.bare (k : Key) : Key := .borrowed k.bytes

/-- The entry with its key read so. -/
def Entry.bare {α : Type u} (entry : Entry α) : Entry α := ⟨entry.key.bare, entry.value⟩

/-- The ownership of the values alone. -/
def Ownership.bare : Ownership → Ownership
  | .keyAndValue => .value
  | o => o

/-- The settings with the ownership of the values alone. -/
def Settings.bare (s : Settings) : Settings := { s with ownership := s.ownership.bare }

/-- The configuration with its settings read so. -/
def Config.bare {ρ : Type v} (c : Config ρ) : Config ρ := { c with settings := c.settings.bare }

/-- The request with every key as one that the caller keeps. -/
def Request.bare {σ : Type w} {α : Type u} : Request σ α → Request σ α
  | .insert available key value => .insertKey available (.borrowed key) value
  | .insertKey available key value => .insertKey available key.bare value
  | .setSettings settings => .setSettings settings.bare
  | other => other

/-- The call with its request read so. -/
def Call.bare {ρ : Type v} {σ : Type w} {α : Type u} : Call ρ σ α → Call ρ σ α
  | .request r => .request r.bare
  | other => other

/-- The answer with every key as one that the caller keeps. -/
def Answer.bare {σ : Type w} {α : Type u} : Answer σ α → Answer σ α
  | .located entry hash => .located entry.bare hash
  | .entries es => .entries (es.map Entry.bare)
  | other => other

namespace Config

variable {ρ : Type v} {α : Type u}

/-- The values are owned as before. -/
@[simp] theorem ownsValues_bare (c : Config ρ) : c.bare.ownsValues = c.ownsValues := by
  unfold ownsValues bare Settings.bare
  cases c.settings.ownership <;> rfl

/-- No key is. -/
theorem ownsKeys_bare (c : Config ρ) : c.bare.settings.ownership.ownsKeys = false := by
  unfold bare Settings.bare
  cases c.settings.ownership <;> rfl

@[simp] theorem givenUp_bare (c : Config ρ) : (c.bare.givenUp : α → _) = c.givenUp := by
  funext value
  rw [givenUp, givenUp, ownsValues_bare]
  rfl

@[simp] theorem givenBack_bare (c : Config ρ) : (c.bare.givenBack : α → _) = c.givenBack := by
  funext value
  rw [givenBack, givenBack, ownsValues_bare]

end Config

namespace Dict

variable {ρ : Type v} {σ : Type w} {α : Type u} {β : Type*}

/-- The dictionary with every key as one that the caller keeps. -/
def bare (d : Dict ρ α) : Dict ρ α := ⟨d.table.map Entry.bare, d.config.bare⟩

/-- The effect with the dictionary it leaves read so. -/
def Effect.bareDict (e : Effect ρ α β) : Effect ρ α β := ⟨e.answer, e.dict.bare, e.departed⟩

/-- The effect with its answer and the dictionary it leaves read so. -/
def Effect.bare (e : Effect ρ α (Answer σ α)) : Effect ρ α (Answer σ α) :=
  ⟨e.answer.map Answer.bare, e.dict.bare, e.departed⟩

/-- An answer without keys is as it is. -/
theorem Effect.bare_map {f : β → Answer σ α} (hf : ∀ b, (f b).bare = f b) (e : Effect ρ α β) :
    (e.map f).bare = e.bareDict.map f := by
  obtain ⟨_ | b, d, departed⟩ := e
  · rfl
  · simp [map, bare, bareDict, Except.map, hf]

/-! ## Lookup -/

theorem find?_bare (d : Dict ρ α) (key : Bytes) : d.bare.find? key = (d.find? key).map Entry.bare :=
  Table.find?_map Entry.bare d.table (d.hashKey key) (d.config.bare.accepts key)

theorem get?_bare (d : Dict ρ α) (key : Bytes) : d.bare.get? key = d.get? key := by
  rw [get?, get?, find?_bare, Option.map_map]
  rfl

theorem locate_bare (d : Dict ρ α) (key : Bytes) :
    d.bare.locate key
      = (d.locate key).map fun located => ⟨located.entry.bare, located.hash⟩ := by
  rw [locate, locate, find?_bare]
  split
  · rfl
  · cases d.find? key <;> rfl

theorem modify_bare (d : Dict ρ α) (key : Bytes) (f : α → α) :
    d.bare.modify key f = ((d.modify key f).1, (d.modify key f).2.bare) := by
  have hupdate : (d.table.map Entry.bare).update? (d.config.bare.hashKey key)
        (d.config.bare.accepts key) (fun entry => (f entry.value, ⟨entry.key, f entry.value⟩))
      = ((d.table.update? (d.config.hashKey key) (d.config.accepts key)
          fun entry => (f entry.value, ⟨entry.key, f entry.value⟩)).1.map id,
        (d.table.update? (d.config.hashKey key) (d.config.accepts key)
          fun entry => (f entry.value, ⟨entry.key, f entry.value⟩)).2.map Entry.bare) :=
    Table.update?_map (fun _ => rfl) d.table _ _
  rw [Option.map_id, id] at hupdate
  simp only [modify, bare, hupdate]

/-! ## Insertion and removal -/

/-- An insertion by a bare key does what it does by the key. -/
theorem insertKey_bare (d : Dict ρ α) (available : Allocator) (key : Key) (value : α) :
    d.bare.insertKey available key.bare value = (d.insertKey available key value).bareDict := by
  have hupdate : (d.table.map Entry.bare).update? (d.config.bare.hashKey key.bare.bytes)
        (d.config.bare.accepts key.bare.bytes) (fun old => (old, ⟨key.bare, value⟩))
      = ((d.table.update? (d.config.hashKey key.bytes) (d.config.accepts key.bytes)
          fun old => (old, ⟨key, value⟩)).1.map Entry.bare,
        (d.table.update? (d.config.hashKey key.bytes) (d.config.accepts key.bytes)
          fun old => (old, ⟨key, value⟩)).2.map Entry.bare) :=
    Table.update?_map (fun _ => rfl) d.table _ _
  have hinsert (u : Table (Entry α)) :
      (u.map Entry.bare).insertNew available d.config.bare.settings.resize
        (d.config.bare.hashKey key.bare.bytes) ⟨key.bare, value⟩
      = (u.insertNew available d.config.settings.resize (d.config.hashKey key.bytes)
        ⟨key, value⟩).onState (Table.map Entry.bare) :=
    Table.insertNew_map Entry.bare u available _ _ ⟨key, value⟩
  cases hkey : key.bytes.isEmpty with
  | true =>
    have hbare : key.bare.bytes.isEmpty = true := hkey
    rw [insertKey_of_isEmpty hkey, insertKey_of_isEmpty hbare]
    rfl
  | false =>
    rw [insertKey, insertKey, if_neg (ne_true_of_eq_false hkey),
      if_neg (ne_true_of_eq_false (b := key.bare.bytes.isEmpty) hkey)]
    -- Both search by the same bytes, so both replace or both insert.
    simp only [bare, hupdate]
    rcases d.table.update? _ _ _ with ⟨_ | old, u⟩
    · simp only [Option.map_none, hinsert]
      rcases u.insertNew _ _ _ _ with ⟨_ | index, u⟩ <;> rfl
    · simp only [Option.map_some, Config.givenBack_bare, Config.givenUp_bare]
      rfl

/-- An insertion stores the key in one way or the other, and bare it is the same. -/
theorem insert_bare (d : Dict ρ α) (available : Allocator) (key : Bytes) (value : α) :
    d.bare.insertKey available (.borrowed key) value = (d.insert available key value).bareDict := by
  obtain ⟨stored, rfl, hinsert⟩ := d.exists_insert_eq_insertKey available key value
  rw [hinsert]
  exact d.insertKey_bare available stored value

/-- A bare dictionary stores bare keys. -/
theorem insert_eq_insertKey_bare (d : Dict ρ α) (available : Allocator) (key : Bytes) (value : α) :
    d.bare.insert available key value = (d.insert available key value).bareDict := by
  rw [← insert_bare, insert, bare, Config.ownsKeys_bare]
  rfl

theorem remove_bare (d : Dict ρ α) (available : Allocator) (key : Bytes) :
    d.bare.remove available key = (d.remove available key).bareDict := by
  have hremove : (d.table.map Entry.bare).remove available d.config.bare.settings.resize
        (d.config.bare.hashKey key) (d.config.bare.accepts key)
      = ⟨(d.table.remove available d.config.settings.resize (d.config.hashKey key)
          (d.config.accepts key)).answer.map Entry.bare,
        (d.table.remove available d.config.settings.resize (d.config.hashKey key)
          (d.config.accepts key)).state.map Entry.bare⟩ :=
    Table.remove_map Entry.bare d.table available _ _ _
  rw [remove, remove]
  split
  · rfl
  · simp only [bare, hremove]
    rcases d.table.remove _ _ _ _ with ⟨_ | entry, u⟩ <;> rfl

theorem delete_bare (d : Dict ρ α) (available : Allocator) (key : Bytes) :
    d.bare.delete available key = (d.delete available key).bareDict := by
  rw [delete, delete, remove_bare]
  rcases d.remove available key with ⟨_ | value, d, departed⟩
  · rfl
  · simp [Effect.bareDict, bare]

theorem reserve_bare (d : Dict ρ α) (available : Allocator) (additional : ℕ) :
    d.bare.reserve available additional = (d.reserve available additional).onState bare := by
  simp only [reserve, bare, Table.reserve_map]
  rfl

theorem insertAll_bare (d : Dict ρ α) (available : Allocator) (pairs : List (Bytes × α)) :
    d.bare.insertAll available pairs = (d.insertAll available pairs).bareDict := by
  induction pairs generalizing d with
  | nil => rfl
  | cons pair rest ih =>
    rw [insertAll, insertAll, insert_eq_insertKey_bare]
    rcases d.insert available pair.1 pair.2 with ⟨_ | old, next, departed⟩
    · rfl
    · simp only [Effect.bareDict, ih next]

theorem extendBy_bare (d : Dict ρ α) (available : Allocator) (expected : ℕ)
    (pairs : List (Bytes × α)) :
    d.bare.extendBy available expected pairs
      = (d.extendBy available expected pairs).bareDict := by
  rw [extendBy, extendBy, reserve_bare]
  rcases d.reserve available expected with ⟨_ | _, next⟩
  · rfl
  · exact next.insertAll_bare available pairs

theorem shrinkToFit_bare (d : Dict ρ α) (available : Allocator) :
    d.bare.shrinkToFit available = (d.shrinkToFit available).bare := by
  simp only [shrinkToFit, bare, Table.shrinkToFit_map]

/-! ## Operations on the whole dictionary -/

theorem values_bare (d : Dict ρ α) : d.bare.values = d.values := by
  simp only [values, entries, bare, Table.items_map, List.map_map]
  rfl

theorem clear_bare (d : Dict ρ α) : d.bare.clear = (d.clear.1.bare, d.clear.2) := by
  rw [clear, values_bare, bare, Config.givenUp_bare, Table.clear_map]
  rfl

theorem snd_drain_bare (d : Dict ρ α) : d.bare.drain.2 = (d.drain.2.1.bare, d.drain.2.2) := by
  show ((⟨d.bare.table.clear, _⟩, _) : Dict ρ α × _) = _
  rw [values_bare, bare, Table.clear_map]
  rfl

/-- A draining walk comes to the same entries, their keys read bare. -/
theorem take_drain_bare (d : Dict ρ α) (n : ℕ) :
    (d.bare.drain.1.take n).1 = (d.drain.1.take n).1.map Entry.bare := by
  show (d.bare.table.cursor.take n).1 = (d.table.cursor.take n).1.map Entry.bare
  rw [Cursor.fst_take, Cursor.fst_take, Cursor.items_cursor, Cursor.items_cursor, bare,
    Table.items_map, List.map_take]

theorem retain_bare (d : Dict ρ α) (visit : Bytes → α → σ → Verdict α × σ) (state : σ) :
    d.bare.retain visit state = ⟨(d.retain visit state).dict.bare,
      (d.retain visit state).departed, (d.retain visit state).state⟩ := by
  have hretain : (d.table.map Entry.bare).retain (visitEntry visit) (id state)
      = (d.table.retain (visitEntry visit) state).map Entry.bare id :=
    Table.retain_map (fun _ _ => rfl) d.table state
  have hdict (d : Dict ρ α) : d.retain visit state
      = ⟨⟨(d.table.retain (visitEntry visit) state).table, d.config⟩,
        (d.table.retain (visitEntry visit) state).removed.map fun entry =>
          d.config.givenUp entry.value,
        (d.table.retain (visitEntry visit) state).state⟩ := rfl
  have hdeparted : (fun entry : Entry α => d.config.bare.givenUp entry.value) ∘ Entry.bare
      = fun entry => d.config.givenUp entry.value := by
    rw [Config.givenUp_bare]
    rfl
  rw [id] at hretain
  rw [hdict, hdict, bare, hretain, Sweep.map, List.map_map, hdeparted]
  rfl

theorem rewriteValues_bare (d : Dict ρ α) (fs : List (α → α)) :
    d.bare.rewriteValues fs = (d.rewriteValues fs).bare := by
  have hvalue : ∀ (f : α → α) (entry : Entry α), entry.bare.onValue f = (entry.onValue f).bare :=
    fun _ _ => rfl
  rw [rewriteValues, bare, Table.mapEach_map hvalue]
  rfl

theorem replaceRule_bare (d : Dict ρ α) (what : String) (change : KeyRules → KeyRules) :
    d.bare.replaceRule what change = (d.replaceRule what change).onState bare := by
  have hempty : (d.table.map Entry.bare).isEmpty = d.table.isEmpty := rfl
  simp only [replaceRule, bare, hempty]
  split <;> rfl

/-! ## Every call -/

/-- Serving a bare request to a bare dictionary is serving the request, read bare. -/
theorem serve_bare (d : Dict ρ α) (request : Request σ α) :
    d.bare.serve request.bare = (d.serve request).bare := by
  cases request with
  | insert available key value =>
    simp only [Request.bare, serve, insert_bare]
    exact (Effect.bare_map (fun _ => rfl) _).symm
  | insertKey available key value =>
    simp only [Request.bare, serve, insertKey_bare]
    exact (Effect.bare_map (fun _ => rfl) _).symm
  | get key =>
    simp only [Request.bare, serve, get?_bare]
    rfl
  | modify key f =>
    simp only [Request.bare, serve, modify_bare]
    rfl
  | contains key =>
    simp only [Request.bare, serve, contains, get?_bare]
    rfl
  | locate key =>
    simp only [Request.bare, serve, locate_bare, Effect.bare]
    cases d.locate key <;> rfl
  | delete available key =>
    simp only [Request.bare, serve, delete_bare]
    exact (Effect.bare_map (fun _ => rfl) _).symm
  | remove available key =>
    simp only [Request.bare, serve, remove_bare]
    exact (Effect.bare_map (fun _ => rfl) _).symm
  | reserve available additional =>
    simp only [Request.bare, serve, reserve_bare, Effect.bare, Outcome.onState]
    cases (d.reserve available additional).answer <;> rfl
  | shrinkToFit available =>
    simp only [Request.bare, serve, shrinkToFit_bare]
    rfl
  | retain visit state =>
    simp only [Request.bare, serve, retain_bare]
    rfl
  | clear =>
    simp only [Request.bare, serve, clear_bare]
    rfl
  | drain n =>
    simp only [Request.bare, serve, take_drain_bare, snd_drain_bare]
    rfl
  | extend available expected pairs =>
    simp only [Request.bare, serve, extendBy_bare]
    exact (Effect.bare_map (fun _ => rfl) _).symm
  | setSettings settings => rfl

/-- So is performing a call. -/
theorem perform_bare (d : Dict ρ α) (call : Call ρ σ α) :
    d.bare.perform call.bare = (d.perform call).bare := by
  have hrule (what : String) (change : KeyRules → KeyRules) :
      (⟨(d.bare.replaceRule what change).answer.map fun _ => .done,
        (d.bare.replaceRule what change).state, []⟩ : Effect ρ α (Answer σ α))
      = Effect.bare ⟨(d.replaceRule what change).answer.map fun _ => .done,
        (d.replaceRule what change).state, []⟩ := by
    rw [replaceRule_bare]
    simp only [Outcome.onState, Effect.bare]
    cases (d.replaceRule what change).answer <;> rfl
  cases call with
  | request request => exact d.serve_bare request
  | rewrite fs =>
    simp only [Call.bare, perform, rewriteValues_bare]
    rfl
  | setRelease release => rfl
  | setHash hash => exact hrule _ _
  | setSize size => exact hrule _ _
  | setEqual equal => exact hrule _ _

end Dict

end OpenAddressing
