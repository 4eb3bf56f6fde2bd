import OpenAddressing.Proofs.Dict.Requests
import OpenAddressing.Proofs.Dict.Update
import OpenAddressing.Proofs.Table.Cursor
import OpenAddressing.Proofs.Table.Retain

/-!
# A dictionary is an association map

`Dict.Represents` ties a dictionary to an association map: the table is well formed, every entry
lies under the hash of its own key, the entries are those of the map, no two of them in one class of
keys, and there are as many slots. Then a search for a key comes to the entry of its class
(`Represents.exists_rest`), since keys that are the same have the same hash. Each call answers as it
does on the map, and what it leaves stands for the map that is left (`Refines`); what becomes of the
slots is the table's part of this (`Table.onSlots_insertNew` and its neighbours). So it is with
every request (`Represents.serve`), if the map's walks come to the entries in the order in which
those of the dictionary do, and with every run (`Represents.run`).
-/

namespace OpenAddressing

universe u v w

namespace Dict

variable {ρ : Type v} {σ : Type w} {α : Type u} {d d' : Dict ρ α} {m : AssocMap ρ α} {key : Bytes}

/-- The dictionary stands for the map. -/
structure Represents (d : Dict ρ α) (m : AssocMap ρ α) : Prop where
  /-- The table is well formed. -/
  wellFormed : d.table.WellFormed
  /-- The rules and settings are those of the map. -/
  config : m.config = d.config
  /-- There are as many slots. -/
  slots : m.slots = d.capacity
  /-- The rules make classes of keys. -/
  lawful : m.Lawful
  /-- Every entry is stored under the hash of its key. -/
  hashed : ∀ slot ∈ d.table.contents, slot.hash = d.hashKey slot.item.key.bytes
  /-- The entries are those of the map. -/
  items : d.table.contents.map Slot.item = m.entries
  /-- No two entries are in one class. -/
  distinct : m.Distinct

/-- What a table stores beside the entry of a key. -/
structure Rest (d : Dict ρ α) (m : AssocMap ρ α) (key : Bytes) (rest : Multiset (Slot (Entry α))) :
    Prop where
  /-- They are the entries of the other classes. -/
  items : rest.map Slot.item = m.others key
  /-- Each is stored under the hash of its key. -/
  hashed : ∀ slot ∈ rest, slot.hash = d.hashKey slot.item.key.bytes

/-- A call to a dictionary does what one to a map does: this is its answer, and this the dictionary
it leaves. -/
structure Refines {β : Type*} (answer : Except Error β) (d : Dict ρ α)
    (o : Outcome (AssocMap ρ α) β) : Prop where
  /-- The answers are the same. -/
  answer_eq : answer = o.answer
  /-- The dictionary left stands for the map left. -/
  represents : d.Represents o.state

/-- It still does with another answer made of the one. -/
theorem Refines.map {β γ : Type*} {answer : Except Error β} {o : Outcome (AssocMap ρ α) β}
    (h : Refines answer d o) (f : β → γ) : Refines (answer.map f) d (o.map f) :=
  ⟨congrArg (Except.map f) h.answer_eq, h.represents⟩

namespace Represents

/-- The map has as many slots as the table. -/
theorem slots_eq (h : d.Represents m) : m.slots = d.table.capacity := h.slots

/-- The map holds as many entries as the dictionary. -/
theorem length_entries (h : d.Represents m) : m.entries.length = d.table.size := by
  rw [h.wellFormed.size_eq_card, ← Multiset.coe_card, ← h.items, Multiset.card_map]

/-- The map finds the entry that a search comes to. -/
theorem find?_of_selects (h : d.Represents m) {index : ℕ} {e : Entry α}
    (hselect : d.Selects key index ⟨d.hashKey key, e⟩) : m.find? key = some e := by
  have haccept : m.config.accepts key e = true := by
    rw [h.config]
    exact hselect.accepted
  have hmem : e ∈ m.entries := by
    rw [← Multiset.mem_coe, ← h.items]
    exact Multiset.mem_map_of_mem Slot.item (hselect.mem_contents h.wellFormed)
  cases hfind : m.find? key with
  | none => exact absurd haccept (List.find?_eq_none.1 hfind e hmem)
  | some found =>
    -- The class of the key has no entry beside the one that the map finds.
    have hcons := AssocMap.cons_others_of_find? h.distinct h.lawful hfind
    rw [← Multiset.mem_coe, ← hcons, Multiset.mem_cons] at hmem
    rcases hmem with rfl | hother
    · rfl
    · obtain ⟨-, hnot⟩ := List.mem_filter.1 (Multiset.mem_coe.1 hother)
      rw [haccept] at hnot
      cases hnot

/-- The map finds nothing when a search comes to nothing: an entry of the class would lie under the
hash sought. -/
theorem find?_of_misses (h : d.Represents m) (hmiss : d.Misses key) : m.find? key = none := by
  have hnone := (Table.search_eq_none_iff h.wellFormed).1 hmiss
  have hlawful : d.config.rules.Lawful d.config.settings.ignoreCase := by
    rw [← h.config]
    exact h.lawful
  refine List.find?_eq_none.2 fun e he haccept => ?_
  rw [← Multiset.mem_coe, ← h.items, Multiset.mem_map] at he
  obtain ⟨slot, hslot, rfl⟩ := he
  rw [h.config] at haccept
  have hhash : slot.hash = d.hashKey key :=
    (h.hashed slot hslot).trans (hlawful.hashOf_eq haccept)
  rw [hnone slot hslot hhash] at haccept
  cases haccept

/-- A search for a key comes to the entry of its class, or to none if there is none. -/
theorem exists_rest (h : d.Represents m) (key : Bytes) : ∃ rest, d.Rest m key rest ∧
    ((∃ index e, d.Selects key index ⟨d.hashKey key, e⟩ ∧ m.find? key = some e ∧
        d.table.contents = ⟨d.hashKey key, e⟩ ::ₘ rest) ∨
      (d.Misses key ∧ m.find? key = none ∧ d.table.contents = rest)) := by
  rcases d.table.exists_selects_or (d.hashKey key) (d.config.accepts key) with
    ⟨index, ⟨hash, e⟩, hselect⟩ | hmiss
  · obtain rfl : hash = d.hashKey key := hselect.hash_eq
    have hfind := h.find?_of_selects hselect
    have hothers := AssocMap.cons_others_of_find? h.distinct h.lawful hfind
    obtain ⟨rest, hrest⟩ := Multiset.exists_cons_of_mem (hselect.mem_contents h.wellFormed)
    have hitems := h.items
    rw [hrest, Multiset.map_cons] at hitems
    refine ⟨rest, ⟨?_, fun slot hslot => h.hashed slot ?_⟩,
      Or.inl ⟨index, e, hselect, hfind, hrest⟩⟩
    · exact (Multiset.cons_inj_right e).1 (hitems.trans hothers.symm)
    · rw [hrest]
      exact Multiset.mem_cons_of_mem hslot
  · have hfind := h.find?_of_misses hmiss
    refine ⟨_, ⟨?_, h.hashed⟩, Or.inr ⟨hmiss, hfind, rfl⟩⟩
    rw [h.items, AssocMap.others_of_find?_eq_none hfind]

/-- Another table with the same entries stands for the same map. -/
theorem of_rehash (h : d.Represents m) {u : Table (Entry α)} (hre : Table.Rehash d.table u) :
    Represents ⟨u, d.config⟩ (m.withSlots u.capacity) := by
  refine ⟨hre.wellFormed, h.config, rfl, h.lawful, fun slot hslot => h.hashed slot ?_, ?_,
    h.distinct⟩
  · rwa [← hre.contents]
  · show u.contents.map Slot.item = m.entries
    rw [hre.contents, h.items]

/-- A table with another entry for a key stands for the map with that entry. -/
theorem of_put (h : d.Represents m) {rest : Multiset (Slot (Entry α))} (hrest : d.Rest m key rest)
    {u : Table (Entry α)} {e : Entry α} (hwu : u.WellFormed)
    (hcontents : u.contents = ⟨d.hashKey key, e⟩ ::ₘ rest)
    (haccept : m.config.accepts key e = true) :
    Represents ⟨u, d.config⟩ ((m.put key e).withSlots u.capacity) := by
  refine ⟨hwu, h.config, rfl, h.lawful, fun slot hslot => ?_, ?_, h.distinct.put h.lawful haccept⟩
  · rw [show (⟨u, d.config⟩ : Dict ρ α).table.contents = ⟨d.hashKey key, e⟩ ::ₘ rest from hcontents,
      Multiset.mem_cons] at hslot
    rcases hslot with rfl | hslot
    · have hhash := h.lawful.hashOf_eq haccept
      unfold Dict.hashKey
      rw [← h.config]
      exact hhash.symm
    · exact hrest.hashed slot hslot
  · show u.contents.map Slot.item = ((m.put key e).entries : Multiset (Entry α))
    rw [hcontents, Multiset.map_cons, hrest.items, Multiset.cons_coe]
    rfl

/-- A table without an entry for a key stands for the map without one. -/
theorem of_erase (h : d.Represents m) {rest : Multiset (Slot (Entry α))} (hrest : d.Rest m key rest)
    {u : Table (Entry α)} (hwu : u.WellFormed) (hcontents : u.contents = rest) :
    Represents ⟨u, d.config⟩ ((m.erase key).withSlots u.capacity) := by
  refine ⟨hwu, h.config, rfl, h.lawful, fun slot hslot => hrest.hashed slot ?_, ?_,
    h.distinct.erase key⟩
  · rwa [← hcontents]
  · show u.contents.map Slot.item = m.others key
    rw [hcontents, hrest.items]

/-- A table with an entry overwritten stands for the map with the new entry in its place. -/
theorem of_overwrite (h : d.Represents m) {rest : Multiset (Slot (Entry α))}
    (hrest : d.Rest m key rest) {index : ℕ} {old new : Entry α}
    (hselect : d.Selects key index ⟨d.hashKey key, old⟩)
    (hcontents : d.table.contents = ⟨d.hashKey key, old⟩ ::ₘ rest)
    (haccept : m.config.accepts key new = true) :
    (d.overwrite index (d.hashKey key) new).Represents (m.put key new) := by
  have hexchange := h.wellFormed.cons_contents_overwrite hselect.get ⟨d.hashKey key, new⟩
  rw [hcontents, Multiset.cons_swap] at hexchange
  have hhash : (⟨d.hashKey key, new⟩ : Slot (Entry α)).hash = d.hashKey key := rfl
  have hput := h.of_put hrest (h.wellFormed.overwrite hselect.get hhash)
    ((Multiset.cons_inj_right _).1 hexchange) haccept
  have hslots : ({ d.table with
      slots := d.table.slots.set index (some ⟨d.hashKey key, new⟩) } : Table (Entry α)).capacity
      = m.slots := (Slots.capacity_set ..).trans h.slots.symm
  rw [hslots] at hput
  exact hput

/-! ## Lookup -/

/-- The entry found for a key is that of the map. -/
theorem find?_eq (h : d.Represents m) (key : Bytes) : d.find? key = m.find? key := by
  obtain ⟨rest, -, ⟨index, e, hselect, hfind, -⟩ | ⟨hsearch, hfind, -⟩⟩ := h.exists_rest key
  · rw [hfind]
    exact hselect.find?_eq
  · rw [hfind]
    exact Table.find?_of_search_none hsearch

/-- Rewriting a value answers the new one and rewrites the entry of the map. -/
theorem modify (h : d.Represents m) (key : Bytes) (f : α → α) :
    (d.modify key f).1 = ((m.find? key).map fun e => f e.value) ∧
      (d.modify key f).2.Represents (m.modify key f) := by
  unfold AssocMap.modify
  obtain ⟨rest, hrest, ⟨index, e, hselect, hfind, hcontents⟩ | ⟨hmiss, hfind, -⟩⟩ :=
    h.exists_rest key
  · rw [hselect.modify_eq, hfind]
    exact ⟨rfl, h.of_overwrite hrest hselect hcontents (AssocMap.accepts_of_find? hfind).2⟩
  · rw [modify_of_misses hmiss, hfind]
    exact ⟨rfl, h⟩

/-- Looking up an entry answers that of the map, with the hash of the key. -/
theorem locate (h : d.Represents m) (key : Bytes) :
    ((d.locate key).map fun l => (.located l.entry l.hash : Answer σ α))
      = (m.locate key).map fun e => .located e (m.config.hashKey key) := by
  unfold Dict.locate AssocMap.locate
  rw [← h.find?_eq, h.config]
  split
  · rfl
  · cases d.find? key <;> rfl

/-! ## Insertion and removal -/

/-- An insertion does what it does to the map. -/
theorem insertKey (h : d.Represents m) (available : Allocator) (key : Key) (value : α) :
    Refines (d.insertKey available key value).answer (d.insertKey available key value).dict
      (m.insertKey available key value) := by
  unfold AssocMap.insertKey
  cases hkey : key.bytes.isEmpty with
  | true =>
    rw [insertKey_of_isEmpty hkey]
    exact ⟨rfl, h⟩
  | false =>
    have haccept : m.config.accepts key.bytes (⟨key, value⟩ : Entry α) = true :=
      h.lawful.same_refl _
    obtain ⟨rest, hrest, ⟨index, e, hselect, hfind, hcontents⟩ | ⟨hmiss, hfind, hcontents⟩⟩ :=
      h.exists_rest key.bytes
    -- The key is replaced along with the value, by one of the same class.
    · rw [hselect.insertKey_eq hkey, hfind, h.config]
      exact ⟨rfl, h.of_overwrite hrest hselect hcontents haccept⟩
    · have hslots := Table.onSlots_insertNew h.wellFormed available d.config.settings.resize
        (d.hashKey key.bytes) (⟨key, value⟩ : Entry α)
      rw [insertKey_of_misses hmiss hkey, hfind, AssocMap.policy, h.config, h.slots_eq,
        h.length_entries, ← hslots]
      rcases Table.insertNew_cases h.wellFormed available d.config.settings.resize
        (d.hashKey key.bytes) ⟨key, value⟩ with ⟨i, u, hu, hwu, -, hcont⟩ | ⟨e, u, hu, hre, -⟩
      · rw [hcontents] at hcont
        rw [hu]
        exact ⟨rfl, h.of_put hrest hwu hcont haccept⟩
      · rw [hu]
        exact ⟨rfl, h.of_rehash hre⟩

/-- A key is stored as the settings of the map say. -/
theorem insert (h : d.Represents m) (available : Allocator) (key : Bytes) (value : α) :
    Refines (d.insert available key value).answer (d.insert available key value).dict
      (m.insertKey available (m.stored key) value) := by
  have hstored : d.insert available key value = d.insertKey available (m.stored key) value := by
    unfold Dict.insert AssocMap.stored
    rw [h.config]
  rw [hstored]
  exact h.insertKey available (m.stored key) value

/-- Insertions in a row do what they do to the map. -/
theorem insertAll (h : d.Represents m) (available : Allocator) (pairs : List (Bytes × α)) :
    Refines (d.insertAll available pairs).answer (d.insertAll available pairs).dict
      (m.insertAll available pairs) := by
  induction pairs generalizing d m with
  | nil => exact ⟨rfl, h⟩
  | cons pair rest ih =>
    obtain ⟨key, value⟩ := pair
    obtain ⟨hanswer, hnext⟩ := h.insert available key value
    rw [Dict.insertAll, AssocMap.insertAll]
    generalize d.insert available key value = effect at hanswer hnext
    generalize m.insertKey available (m.stored key) value = outcome at hanswer hnext
    obtain ⟨answer, d', departed⟩ := effect
    obtain ⟨answer', next⟩ := outcome
    obtain rfl : answer = answer' := hanswer
    cases answer with
    | error e => exact ⟨rfl, hnext⟩
    | ok old => exact ih hnext

/-- Making room does what it does to the map. -/
theorem reserve (h : d.Represents m) (available : Allocator) (additional : ℕ) :
    Refines (d.reserve available additional).answer (d.reserve available additional).state
      (m.reserve available additional) := by
  have hreserve : d.reserve available additional
      = ⟨(d.table.reserve available additional).answer,
        ⟨(d.table.reserve available additional).state, d.config⟩⟩ := rfl
  have hslots := Table.onSlots_reserve h.wellFormed available additional
  have hre := Table.rehash_reserve h.wellFormed available additional
  rw [hreserve, AssocMap.reserve, h.length_entries, h.slots_eq, ← hslots]
  generalize d.table.reserve available additional = outcome at hre
  obtain ⟨_ | _, u⟩ := outcome <;> exact ⟨rfl, h.of_rehash hre⟩

/-- Making room and inserting pairs in a row does what it does to the map. -/
theorem extendBy (h : d.Represents m) (available : Allocator) (expected : ℕ)
    (pairs : List (Bytes × α)) :
    Refines (d.extendBy available expected pairs).answer (d.extendBy available expected pairs).dict
      (m.extendBy available expected pairs) := by
  obtain ⟨hanswer, hnext⟩ := h.reserve available expected
  unfold Dict.extendBy AssocMap.extendBy
  generalize d.reserve available expected = outcome at hanswer hnext
  generalize m.reserve available expected = outcome' at hanswer hnext
  obtain ⟨answer, d'⟩ := outcome
  obtain ⟨answer', next⟩ := outcome'
  obtain rfl : answer = answer' := hanswer
  cases answer with
  | error e => exact ⟨rfl, hnext⟩
  | ok _ => exact Represents.insertAll hnext available pairs

/-- A removal does what it does to the map. -/
theorem remove (h : d.Represents m) (available : Allocator) (key : Bytes) :
    Refines (d.remove available key).answer (d.remove available key).dict
      (m.remove available key) := by
  unfold AssocMap.remove
  cases hkey : key.isEmpty with
  | true =>
    rw [remove_of_isEmpty hkey]
    exact ⟨rfl, h⟩
  | false =>
    obtain ⟨rest, hrest, ⟨index, e, hselect, hfind, hcontents⟩ | ⟨hmiss, hfind, -⟩⟩ :=
      h.exists_rest key
    · have hcap := Table.Selects.capacity_remove_eq hselect h.wellFormed available
        d.config.settings.resize
      obtain ⟨u, hu, hwu, hcont⟩ :=
        Table.Selects.remove_spec hselect h.wellFormed available d.config.settings.resize
      rw [hu] at hcap
      rw [hcontents] at hcont
      rw [hselect.remove_eq hkey h.wellFormed, hu, hfind, AssocMap.policy, h.config, h.slots_eq,
        AssocMap.length_others_of_find? h.distinct h.lawful hfind, h.length_entries, ← hcap]
      exact ⟨rfl, h.of_erase hrest hwu ((Multiset.cons_inj_right _).1 hcont)⟩
    · rw [remove_of_misses hmiss hkey, hfind]
      exact ⟨rfl, h⟩

/-- A deletion does what it does to the map. -/
theorem delete (h : d.Represents m) (available : Allocator) (key : Bytes) :
    Refines (d.delete available key).answer (d.delete available key).dict
      (m.delete available key) := by
  obtain ⟨hanswer, hdict⟩ := d.delete_eq available key
  rw [hanswer, hdict, AssocMap.delete, h.config]
  exact (h.remove available key).map d.config.givenBack

/-! ## The whole dictionary -/

/-- A dictionary without its entries stands for the empty map. -/
theorem clear (h : d.Represents m) :
    Represents ⟨d.table.clear, d.config⟩ { m with entries := [] } := by
  have hnothing : d.table.clear.contents = 0 := Slots.contents_vacant _
  refine ⟨h.wellFormed.clear, h.config, ?_, h.lawful, fun slot hslot => ?_, ?_, List.Pairwise.nil⟩
  · rw [h.slots]
    exact (Table.capacity_clear d.table).symm
  · rw [show (⟨d.table.clear, d.config⟩ : Dict ρ α).table.contents = 0 from hnothing] at hslot
    cases hslot
  · show d.table.clear.contents.map Slot.item = 0
    rw [hnothing, Multiset.map_zero]

/-- Other settings keep the relation, as long as they leave the classes of keys alone or there is no
entry. -/
theorem setSettings (h : d.Represents m) {settings : Settings}
    (hallows : d.Allows (.setSettings settings : Request σ α)) :
    (d.setSettings settings).Represents { m with config := { m.config with settings } } := by
  have hset : d.setSettings settings = ⟨d.table, { d.config with settings }⟩ := rfl
  rw [hset]
  rcases hallows with hcase | ⟨hempty, hlawful⟩
  -- The classes and hashes are those there were.
  · refine ⟨h.wellFormed, by rw [h.config], h.slots, ?_, fun slot hslot => ?_, h.items, ?_⟩
    · show m.config.rules.Lawful settings.ignoreCase
      rw [hcase, ← h.config]
      exact h.lawful
    · show slot.hash = d.config.rules.hashOf settings.ignoreCase slot.item.key.bytes
      rw [hcase]
      exact h.hashed slot hslot
    · have hdistinct := h.distinct
      unfold AssocMap.Distinct AssocMap.Apart at hdistinct ⊢
      dsimp only
      rwa [hcase, ← h.config]
  -- There are other classes, but no entries.
  · have hsize : d.table.size = 0 := beq_iff_eq.1 hempty
    have hnone : d.table.contents = 0 := by
      rw [← Multiset.card_eq_zero, ← h.wellFormed.size_eq_card, hsize]
    have hentries : m.entries = [] := by
      rw [← List.length_eq_zero_iff, h.length_entries, hsize]
    refine ⟨h.wellFormed, by rw [h.config], h.slots, ?_, fun slot hslot => ?_, h.items, ?_⟩
    · show m.config.rules.Lawful settings.ignoreCase
      rwa [h.config]
    · rw [show (⟨d.table, { d.config with settings }⟩ : Dict ρ α).table.contents = 0 from hnone]
        at hslot
      cases hslot
    · unfold AssocMap.Distinct
      dsimp only
      rw [hentries]
      exact List.Pairwise.nil

/-- The entries in slot order are those of the map. -/
theorem perm_entries (h : d.Represents m) : d.entries.Perm m.entries := by
  rw [← Multiset.coe_eq_coe, ← h.items]
  rfl

end Represents

/-- Visits leave the entries that they keep under their hashes and keys. -/
theorem visitAll_visitEntry (visit : Bytes → α → σ → Verdict α × σ) (slots : List (Slot (Entry α)))
    (state : σ) :
    visitEntries visit (slots.map Slot.item) state
        = ((visitAll (visitEntry visit) slots state).kept.map Slot.item,
          (visitAll (visitEntry visit) slots state).state) ∧
      ((visitAll (visitEntry visit) slots state).kept.map fun s => (s.hash, s.item.key)).Sublist
        (slots.map fun s => (s.hash, s.item.key)) := by
  induction slots generalizing state with
  | nil => exact ⟨rfl, List.Sublist.slnil⟩
  | cons slot rest ih =>
    obtain ⟨hentries, hsub⟩ := ih (visitEntry visit slot.item state).2
    rw [List.map_cons, visitEntries, hentries]
    cases hkeep : (visitEntry visit slot.item state).1.keep with
    | true =>
      rw [visitAll_cons_of_keep hkeep, if_pos rfl]
      exact ⟨rfl, hsub.cons_cons _⟩
    | false =>
      rw [visitAll_cons_of_not_keep hkeep, if_neg Bool.false_ne_true]
      exact ⟨rfl, hsub.cons _⟩

/-- Keeping some of the entries visits those of the map in some order and leaves what the visits
keep. -/
theorem Represents.retain (h : d.Represents m) (visit : Bytes → α → σ → Verdict α × σ) (state : σ) :
    ∃ order : List (Entry α), order.Perm m.entries ∧
      (d.retain visit state).state = (visitEntries visit order state).2 ∧
      (d.retain visit state).dict.Represents
        { m with entries := (visitEntries visit order state).1 } := by
  have hvisits := Table.retain_spec h.wellFormed (visitEntry visit) state
  have hretain : d.retain visit state
      = ⟨⟨(d.table.retain (visitEntry visit) state).table, d.config⟩,
        (d.table.retain (visitEntry visit) state).removed.map fun e => d.config.givenUp e.value,
        (d.table.retain (visitEntry visit) state).state⟩ := rfl
  obtain ⟨hentries, hsub⟩ := visitAll_visitEntry visit d.table.visitOrder state
  -- The visits come to every entry of the map once.
  have hround := Table.coe_visitOrder h.wellFormed
  have hperm : (d.table.visitOrder.map Slot.item).Perm m.entries := by
    rw [← Multiset.coe_eq_coe, ← Multiset.map_coe, hround, h.items]
  have hcontents := hvisits.contents
  rw [zero_add] at hcontents
  rw [hretain]
  refine ⟨_, hperm, by rw [hvisits.state_eq, hentries], hvisits.wellFormed, h.config, ?_, h.lawful,
    fun slot hslot => ?_, ?_, h.distinct.of_keys h.lawful hperm ?_⟩
  · exact h.slots.trans hvisits.capacity_eq.symm
  · -- The hash and key of an entry kept are those of an entry there was.
    rw [show (⟨(d.table.retain (visitEntry visit) state).table, d.config⟩ : Dict ρ α).table.contents
      = _ from hcontents, Multiset.mem_coe] at hslot
    obtain ⟨old, hold, heq⟩ :=
      List.mem_map.1 (hsub.subset (List.mem_map_of_mem hslot))
    obtain ⟨hhash, hkey⟩ := Prod.mk.inj heq
    have hin : old ∈ d.table.contents := by
      rw [← hround]
      exact hold
    rw [← hhash, h.hashed old hin, hkey]
    rfl
  · show (d.table.retain (visitEntry visit) state).table.contents.map Slot.item = _
    rw [hcontents, hentries, Multiset.map_coe]
  · rw [hentries]
    have hkeys := hsub.map Prod.snd
    rw [List.map_map, List.map_map] at hkeys
    rw [List.map_map, List.map_map]
    exact hkeys

/-! ## Every call and every run -/

/-- Every request is answered as by the map, whose walks come to the entries in some order, and what
it leaves stands for what the map then is. -/
theorem Represents.serve (h : d.Represents m) {request : Request σ α} (hallows : d.Allows request) :
    ∃ order, order.Perm m.entries ∧
      Refines (d.serve request).answer (d.serve request).dict (m.serve order request) := by
  have hany : m.entries.Perm m.entries := List.Perm.refl _
  cases request with
  | insert available key value => exact ⟨_, hany, (h.insert available key value).map _⟩
  | insertKey available key value => exact ⟨_, hany, (h.insertKey available key value).map _⟩
  | get key =>
    refine ⟨_, hany, ?_, h⟩
    show Except.ok (Answer.value ((d.find? key).map Entry.value)) = _
    rw [h.find?_eq]
    rfl
  | modify key f =>
    obtain ⟨hanswer, hd⟩ := h.modify key f
    refine ⟨_, hany, ?_, hd⟩
    show Except.ok (Answer.value (d.modify key f).1) = _
    rw [hanswer]
    rfl
  | contains key =>
    refine ⟨_, hany, ?_, h⟩
    show Except.ok (Answer.flag ((d.find? key).map Entry.value).isSome) = _
    rw [h.find?_eq, Option.isSome_map]
    rfl
  | locate key => exact ⟨_, hany, h.locate key, h⟩
  | delete available key => exact ⟨_, hany, (h.delete available key).map _⟩
  | remove available key => exact ⟨_, hany, (h.remove available key).map _⟩
  | reserve available additional => exact ⟨_, hany, (h.reserve available additional).map _⟩
  | shrinkToFit available =>
    have hd := h.of_rehash (Table.rehash_shrinkToFit h.wellFormed available)
    rw [Table.capacity_shrinkToFit h.wellFormed, ← h.length_entries, ← h.slots_eq] at hd
    exact ⟨_, hany, rfl, hd⟩
  | retain visit state =>
    obtain ⟨order, hperm, hstate, hd⟩ := h.retain visit state
    refine ⟨order, hperm, ?_, hd⟩
    show Except.ok (Answer.visited (d.retain visit state).state) = _
    rw [hstate]
    rfl
  | clear => exact ⟨_, hany, rfl, h.clear⟩
  | drain n =>
    refine ⟨d.entries, h.perm_entries, ?_, h.clear⟩
    show Except.ok (Answer.entries (d.table.cursor.take n).1) = _
    rw [Cursor.fst_take, Cursor.items_cursor]
    rfl
  | extend available expected pairs => exact ⟨_, hany, (h.extendBy available expected pairs).map _⟩
  | setSettings settings => exact ⟨_, hany, rfl, h.setSettings hallows⟩

end Dict

end OpenAddressing
