import OpenAddressing.Proofs.Dict.Presence
import OpenAddressing.Proofs.Dict.Refinement

/-!
# Entries stay within reach when case comes to be ignored or ceases to be

An entry is filed under the hash its key had when the key was stored, and a dictionary may come to
ignore case or cease to while entries are stored. The relation that every call keeps is `Filed`:
each entry lies under the hash that its own key has under one of the two settings. An insertion that
overwrites keeps the slot and its hash, but it found the slot by the hash of the new key; a rehash
goes by the stored hash only; and the rules on keys change only while nothing is stored. So an entry
is found again under the setting it is filed for, and under both if its key has no capitals
(`withinReach_of_reachable`).
-/

namespace OpenAddressing

universe u v

/-- Lowering leaves bytes alone that are no capitals. -/
theorem Bytes.lower_eq_self {b : Bytes} (h : ∀ c ∈ b, ¬ (65 ≤ c ∧ c ≤ 90)) : b.lower = b := by
  refine (List.map_congr_left fun c hc => ?_).trans (List.map_id b)
  exact if_neg (h c hc)

/-- A key without capitals has the same hash whether or not case is ignored. -/
theorem KeyRules.hashOf_eq_of_lower {r : KeyRules} {key : Bytes}
    (h : (r.sized key).lower = r.sized key) (ignoreCase ignoreCase' : Bool) :
    r.hashOf ignoreCase key = r.hashOf ignoreCase' key := by
  have hboth : r.hashOf true key = r.hashOf false key := congrArg r.hash h
  cases ignoreCase <;> cases ignoreCase' <;> simp only [hboth]

namespace Dict

variable {ρ : Type v} {α : Type u} {d : Dict ρ α}

/-- Every entry lies under the hash that its key has under one of the two settings. -/
def Filed (d : Dict ρ α) : Prop :=
  ∀ slot ∈ d.table.contents,
    ∃ ignoreCase, slot.hash = d.config.rules.hashOf ignoreCase slot.item.key.bytes

namespace Filed

/-- A table whose entries have the hashes and keys of entries there were is filed as before. -/
theorem of_keys (h : d.Filed) {u : Table (Entry α)}
    (hkeys : ∀ slot ∈ u.contents,
      ∃ old ∈ d.table.contents, slot.hash = old.hash ∧ slot.item.key = old.item.key) :
    Filed ⟨u, d.config⟩ := by
  intro slot hslot
  obtain ⟨old, hold, hhash, hkey⟩ := hkeys slot hslot
  rw [hhash, hkey]
  exact h old hold

/-- So is a table with no other entries than there were. -/
theorem of_subset (h : d.Filed) {u : Table (Entry α)}
    (hsub : ∀ slot ∈ u.contents, slot ∈ d.table.contents) : Filed ⟨u, d.config⟩ :=
  h.of_keys fun slot hslot => ⟨slot, hsub slot hslot, rfl, rfl⟩

/-- A rehash keeps the filing. -/
theorem of_rehash (h : d.Filed) {u : Table (Entry α)} (hre : Table.Rehash d.table u) :
    Filed ⟨u, d.config⟩ :=
  h.of_subset fun slot hslot => by rwa [← hre.contents]

/-- An insertion files the entry under the hash of its own key. -/
theorem insertKey (h : d.Filed) (hw : d.table.WellFormed) (available : Allocator) (key : Key)
    (value : α) : (d.insertKey available key value).dict.Filed := by
  have hnew : ∃ ignoreCase, d.hashKey key.bytes = d.config.rules.hashOf ignoreCase key.bytes :=
    ⟨d.config.settings.ignoreCase, rfl⟩
  rcases insertKey_cases hw available key value with ⟨e, u, heq, hre⟩ | ⟨u, heq, hcontents⟩ |
    ⟨old, u, heq, hcontents⟩
  · rw [heq]
    exact h.of_rehash hre
  · rw [heq]
    intro slot hslot
    rw [show (⟨u, d.config⟩ : Dict ρ α).table.contents = _ from hcontents,
      Multiset.mem_cons] at hslot
    rcases hslot with rfl | hslot
    · exact hnew
    · exact h slot hslot
  · -- The slot was found by the hash of the new key.
    rw [heq]
    intro slot hslot
    have hmem : slot
        ∈ (⟨d.hashKey key.bytes, ⟨key, value⟩⟩ : Slot (Entry α)) ::ₘ d.table.contents := by
      rw [← hcontents]
      exact Multiset.mem_cons_of_mem hslot
    rcases Multiset.mem_cons.1 hmem with rfl | hslot
    · exact hnew
    · exact h slot hslot

/-- So does one that stores the key as the settings say. -/
theorem insert (h : d.Filed) (hw : d.table.WellFormed) (available : Allocator) (key : Bytes)
    (value : α) : (d.insert available key value).dict.Filed := by
  obtain ⟨stored, -, hinsert⟩ := d.exists_insert_eq_insertKey available key value
  rw [hinsert]
  exact h.insertKey hw available stored value

/-- Insertions in a row keep the filing. -/
theorem extendBy (h : d.Filed) (hw : d.table.WellFormed) (available : Allocator) (expected : ℕ)
    (pairs : List (Bytes × α)) : (d.extendBy available expected pairs).dict.Filed := by
  have hroom := Table.rehash_reserve hw available expected
  refine (extendBy_induction (P := fun next => next.table.WellFormed ∧ next.Filed) ?_
    ⟨hroom.wellFormed, h.of_rehash hroom⟩ pairs).2
  rintro next key value ⟨hwnext, hnext⟩
  exact ⟨wellFormed_insert hwnext available key value, hnext.insert hwnext available key value⟩

/-- A removal keeps the filing. -/
theorem remove (h : d.Filed) (hw : d.table.WellFormed) (available : Allocator) (key : Bytes) :
    (d.remove available key).dict.Filed := by
  rcases remove_cases hw available key with ⟨e, heq⟩ | ⟨slot, u, heq, hcontents⟩
  · rw [heq]
    exact h
  · rw [heq]
    refine h.of_subset fun other hother => ?_
    rw [← hcontents]
    exact Multiset.mem_cons_of_mem hother

/-- Rewriting the value of a key keeps the filing. -/
theorem modify (h : d.Filed) (hw : d.table.WellFormed) (key : Bytes) (f : α → α) :
    (d.modify key f).2.Filed := by
  rcases modify_cases hw key f with ⟨-, heq⟩ | ⟨slot, hslot, u, -, heq, hcontents⟩
  · rw [heq]
    exact h
  · rw [heq]
    refine h.of_keys fun other hother => ?_
    have hmem : other
        ∈ (⟨slot.hash, slot.item.onValue f⟩ : Slot (Entry α)) ::ₘ d.table.contents := by
      rw [← hcontents]
      exact Multiset.mem_cons_of_mem hother
    -- The entry rewritten has the hash and key of the one found.
    rcases Multiset.mem_cons.1 hmem with rfl | hmem
    · exact ⟨slot, hslot, rfl, rfl⟩
    · exact ⟨other, hmem, rfl, rfl⟩

/-- Keeping some of the entries keeps the filing: those that stay have their hashes and keys. -/
theorem retain {σ : Type*} (h : d.Filed) (hw : d.table.WellFormed)
    (visit : Bytes → α → σ → Verdict α × σ) (state : σ) :
    (d.retain visit state).dict.Filed := by
  obtain ⟨-, hsub⟩ := visitAll_visitEntry visit d.table.visitOrder state
  refine h.of_keys (u := (d.table.retain (visitEntry visit) state).table) fun slot hslot => ?_
  rw [(Table.retain_spec hw (visitEntry visit) state).contents, zero_add, Multiset.mem_coe] at hslot
  obtain ⟨old, hold, heq⟩ := List.mem_map.1 (hsub.subset (List.mem_map_of_mem hslot))
  obtain ⟨hhash, hkey⟩ := Prod.mk.inj heq
  refine ⟨old, ?_, hhash.symm, hkey.symm⟩
  rw [← Table.coe_visitOrder hw]
  exact hold

/-- A walk that rewrites values keeps the filing. -/
theorem rewriteValues (h : d.Filed) (fs : List (α → α)) : (d.rewriteValues fs).Filed := by
  refine h.of_keys (u := d.table.mapEach (fs.map Entry.onValue)) fun slot hslot => ?_
  have hpairs : (d.table.mapEach (fs.map Entry.onValue)).entries.map (fun s => (s.hash, s.item.key))
      = d.table.entries.map fun s => (s.hash, s.item.key) := by
    rw [Table.entries_mapEach, List.map_map]
    refine map_rewriteEach_of_eq (fun f hf s => ?_) d.table.entries
    obtain ⟨g, -, rfl⟩ := List.mem_map.1 hf
    rfl
  have hmem : (slot.hash, slot.item.key) ∈ d.table.entries.map fun s => (s.hash, s.item.key) := by
    rw [← hpairs]
    exact List.mem_map_of_mem (f := fun s : Slot (Entry α) => (s.hash, s.item.key)) hslot
  obtain ⟨old, hold, heq⟩ := List.mem_map.1 hmem
  obtain ⟨hhash, hkey⟩ := Prod.mk.inj heq
  exact ⟨old, hold, hhash.symm, hkey.symm⟩

/-- A dictionary without entries is filed, under whatever rules. -/
theorem of_contents_eq_zero (h : d.table.contents = 0) : d.Filed := by
  intro slot hslot
  rw [h] at hslot
  cases hslot

/-- Replacing a rule keeps the filing: it is refused while an entry is stored. -/
theorem replaceRule (h : d.Filed) (hw : d.table.WellFormed) (what : String)
    (change : KeyRules → KeyRules) : (d.replaceRule what change).state.Filed := by
  unfold Dict.replaceRule
  dsimp only
  split
  · rename_i hempty
    refine of_contents_eq_zero ?_
    have hsize : d.table.size = 0 := beq_iff_eq.1 hempty
    show d.table.contents = 0
    rw [← Multiset.card_eq_zero, ← hw.size_eq_card, hsize]
  · exact h

/-- Every request keeps the filing. -/
theorem serve {σ : Type*} (h : d.Filed) (hw : d.table.WellFormed) (request : Request σ α) :
    (d.serve request).dict.Filed := by
  cases request with
  | insert available key value => exact h.insert hw available key value
  | insertKey available key value => exact h.insertKey hw available key value
  | get => exact h
  | modify key f => exact h.modify hw key f
  | contains => exact h
  | locate => exact h
  | delete available key =>
    show (d.delete available key).dict.Filed
    rw [(d.delete_eq available key).2]
    exact h.remove hw available key
  | remove available key => exact h.remove hw available key
  | reserve available additional => exact h.of_rehash (Table.rehash_reserve hw available additional)
  | shrinkToFit available => exact h.of_rehash (Table.rehash_shrinkToFit hw available)
  | retain visit state => exact h.retain hw visit state
  | clear => exact of_contents_eq_zero (Slots.contents_vacant _)
  | drain => exact of_contents_eq_zero (Slots.contents_vacant _)
  | extend available expected pairs => exact h.extendBy hw available expected pairs
  | setSettings => exact h

/-- Every call keeps the filing. -/
theorem perform {σ : Type*} (h : d.Filed) (hw : d.table.WellFormed) (call : Call ρ σ α) :
    (d.perform call).dict.Filed := by
  cases call with
  | request request => exact h.serve hw request
  | rewrite fs => exact h.rewriteValues fs
  | setRelease => exact h
  | setHash => exact h.replaceRule hw _ _
  | setSize => exact h.replaceRule hw _ _
  | setEqual => exact h.replaceRule hw _ _

end Filed

/-- Every dictionary that comes about is filed. -/
theorem Reachable.filed (h : d.Reachable) : d.Filed := by
  induction h with
  | empty => exact Filed.of_contents_eq_zero (Slots.contents_vacant _)
  | withCapacity h =>
    obtain ⟨t, ht, rfl⟩ := exists_table_of_withCapacity h
    exact Filed.of_contents_eq_zero (Table.contents_withCapacity ht)
  | copy _ ih => exact ih
  | call hd call ih => exact ih.perform hd.wellFormed call

/-- The dictionary that ignores case or does not, with its other settings as they are. -/
def withIgnoreCase (d : Dict ρ α) (ignoreCase : Bool) : Dict ρ α :=
  d.setSettings { d.config.settings with ignoreCase }

/-- A key is found under the setting for which an entry of that key is filed. -/
theorem contains_withIgnoreCase (hw : d.table.WellFormed) (hrules : d.config.rules.equal = none)
    {slot : Slot (Entry α)} (hslot : slot ∈ d.table.contents) {ignoreCase : Bool}
    (hhash : slot.hash = d.config.rules.hashOf ignoreCase slot.item.key.bytes) :
    (d.withIgnoreCase ignoreCase).contains slot.item.key.bytes = true := by
  have hsame : d.config.rules.same ignoreCase slot.item.key.bytes slot.item.key.bytes = true := by
    unfold KeyRules.same
    rw [hrules]
    cases ignoreCase <;> exact beq_self_eq_true _
  exact (isSome_get?_iff (d := d.withIgnoreCase ignoreCase) hw).2 ⟨slot, hslot, hhash, hsame⟩

/-- What holds of an entry that is stored in a dictionary with the usual comparison of keys. -/
structure WithinReach (d : Dict ρ α) (slot : Slot (Entry α)) : Prop where
  /-- It lies under the hash of its key, or of its key with the capitals lowered. -/
  filed : slot.hash = d.config.rules.hash (d.config.rules.sized slot.item.key.bytes) ∨
    slot.hash = d.config.rules.hash (d.config.rules.sized slot.item.key.bytes).lower
  /-- Its key is found under one of the two settings. -/
  found : ∃ ignoreCase, (d.withIgnoreCase ignoreCase).contains slot.item.key.bytes = true
  /-- If its key has no capitals, it is found under both. -/
  found_both : (∀ c ∈ d.config.rules.sized slot.item.key.bytes, ¬ (65 ≤ c ∧ c ≤ 90)) →
    ∀ ignoreCase, (d.withIgnoreCase ignoreCase).contains slot.item.key.bytes = true

/-- Whatever the hash and the measure are, and however often and whenever a dictionary comes to
ignore case or ceases to: every entry stays within reach. -/
theorem withinReach_of_reachable (h : d.Reachable) (hrules : d.config.rules.equal = none)
    {slot : Slot (Entry α)} (hslot : slot ∈ d.table.entries) : d.WithinReach slot := by
  have hw := h.wellFormed
  obtain ⟨ignoreCase, hhash⟩ := h.filed slot hslot
  refine ⟨?_, ⟨ignoreCase, contains_withIgnoreCase hw hrules hslot hhash⟩,
    fun hlow ignoreCase' => contains_withIgnoreCase hw hrules hslot ?_⟩
  · cases ignoreCase with
    | false => exact Or.inl hhash
    | true => exact Or.inr hhash
  · rw [hhash]
    exact KeyRules.hashOf_eq_of_lower (Bytes.lower_eq_self hlow) ignoreCase ignoreCase'

/-- An entry for `AB` that took the place of one for `aB` while case was ignored, beside one for
`Ab` that was there before: it is not found now that case counts, but it is when case is ignored. -/
theorem withinReach_of_overwrite : ∃ (d : Dict ℕ ℕ) (slot : Slot (Entry ℕ)), d.Reachable ∧
    d.config.rules.equal = none ∧ d.size = 3 ∧ slot ∈ d.table.entries ∧
    slot.item = ⟨.borrowed [65, 66], 3⟩ ∧ d.contains [65, 66] = false ∧
    (d.withIgnoreCase true).contains [65, 66] = true ∧ d.WithinReach slot := by
  have hd : ([.setHash fun b => b.foldl (fun h c => h * 31 + c.toUInt32) 7,
      .request (.insert (fun _ => true) [65, 98] 1),
      .request (.setSettings { ignoreCase := true }),
      .request (.insert (fun _ => true) [97, 66] 2),
      .request (.insert (fun _ => true) [65, 66] 3),
      .request (.setSettings {}),
      .request (.insert (fun _ => true) [99] 4)].foldl
      (fun d (call : Call ℕ ℕ ℕ) => (d.perform call).dict) (Dict.empty {} : Dict ℕ ℕ)).Reachable :=
    .call (.call (.call (.call (.call (.call (.call (.empty _) _) _) _) _) _) _) _
  exact ⟨_, ⟨9832, ⟨.borrowed [65, 66], 3⟩⟩, hd, rfl, by decide +kernel, by decide +kernel, rfl,
    by decide +kernel, by decide +kernel, withinReach_of_reachable hd rfl (by decide +kernel)⟩

end Dict

end OpenAddressing
