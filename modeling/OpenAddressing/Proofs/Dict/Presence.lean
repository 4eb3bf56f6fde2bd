import OpenAddressing.Dict.Shared
import OpenAddressing.Proofs.Dict.Calls
import OpenAddressing.Proofs.Table.Lookup

/-!
# Which keys the lookups find

All lookups by key search the table for the key cut to its size. Those that read or rewrite a value
do so for every key; those that answer an entry or take one out refuse a key without bytes before
any search. For a key with bytes they all agree (`lookupsAgree_of_ne_nil`). The key without bytes is
refused by every insertion as well, but another key may be cut to nothing: a first byte of zero is
enough under the default measure. Then the first kind finds the entry of that key and the second
kind refuses to look (`lookupsAgree_iff_of_reachable`).
-/

namespace OpenAddressing

universe u v

namespace Dict

variable {ρ : Type v} {α : Type u} {d : Dict ρ α} {key : Bytes}

/-- A value is stored for a key: an entry with the hash of the key that is accepted for it. -/
def Stores (d : Dict ρ α) (key : Bytes) : Prop :=
  d.table.Matches (d.hashKey key) (d.config.accepts key)

/-- All lookups agree on whether a value is stored for a key. -/
structure LookupsAgree (d : Dict ρ α) (key : Bytes) : Prop where
  /-- Rewriting a value finds one exactly when reading does. -/
  modify : ∀ f, (d.modify key f).1.isSome ↔ (d.get? key).isSome
  /-- So does asking for it. -/
  contains : d.contains key = true ↔ (d.get? key).isSome
  /-- So does reading it in a shared dictionary. -/
  withValue : ∀ {β : Type u} (f : α → β),
    ((⟨d⟩ : SharedDict ρ α).withValue? key f).isSome ↔ (d.get? key).isSome
  /-- An entry is found exactly when reading finds a value. -/
  locate : (∃ located, d.locate key = .ok located) ↔ (d.get? key).isSome
  /-- Removing succeeds exactly when reading finds a value. -/
  remove : ∀ available, (∃ value, (d.remove available key).answer = .ok value) ↔
    (d.get? key).isSome
  /-- So does deleting. -/
  delete : ∀ available, (∃ value, (d.delete available key).answer = .ok value) ↔
    (d.get? key).isSome

/-- Reading finds a value exactly when one is stored. -/
theorem isSome_get?_iff (hw : d.table.WellFormed) : (d.get? key).isSome ↔ d.Stores key := by
  rw [get?, Option.isSome_map]
  exact Table.isSome_find?_iff hw

/-- Rewriting finds a value exactly when reading does, whatever the key. -/
theorem isSome_modify_iff (hw : d.table.WellFormed) (f : α → α) :
    (d.modify key f).1.isSome ↔ (d.get? key).isSome := by
  rcases modify_cases hw key f with ⟨hget, h⟩ | ⟨slot, -, u, hget, h, -⟩
  · rw [hget, h]
  · rw [hget, h]
    rfl

/-- What fails has no answer. -/
theorem not_exists_error_eq_ok {β : Type*} (e : Error) : ¬ ∃ b : β, Except.error e = .ok b := by
  rintro ⟨b, h⟩
  cases h

/-- A key with bytes has an entry exactly when reading finds a value. -/
theorem exists_locate_iff (hkey : key.isEmpty = false) :
    (∃ located, d.locate key = .ok located) ↔ (d.get? key).isSome := by
  rw [locate, hkey, get?]
  cases d.find? key with
  | none => exact iff_of_false (not_exists_error_eq_ok .notFound) Bool.false_ne_true
  | some entry => exact iff_of_true ⟨_, rfl⟩ rfl

/-- A key with bytes is removed exactly when reading finds a value. -/
theorem exists_remove_iff (hw : d.table.WellFormed) (hkey : key.isEmpty = false)
    (available : Allocator) :
    (∃ value, (d.remove available key).answer = .ok value) ↔ (d.get? key).isSome := by
  rcases d.table.exists_selects_or (d.hashKey key) (d.config.accepts key) with
    ⟨index, slot, hselect⟩ | hmiss
  · obtain ⟨u, hremove, -⟩ := Selects.remove_spec hselect hkey hw available
    rw [hremove, get?, find?, hselect.find?_eq]
    exact iff_of_true ⟨_, rfl⟩ rfl
  · rw [remove_of_misses hmiss hkey, get?, find?, Table.find?_of_search_none hmiss]
    exact iff_of_false (not_exists_error_eq_ok .notFound) Bool.false_ne_true

/-- A deletion succeeds exactly when a removal does. -/
theorem exists_delete_iff (d : Dict ρ α) (available : Allocator) (key : Bytes) :
    (∃ value, (d.delete available key).answer = .ok value) ↔
      ∃ value, (d.remove available key).answer = .ok value := by
  rw [(d.delete_eq available key).1]
  cases (d.remove available key).answer with
  | error e => exact iff_of_false (not_exists_error_eq_ok e) (not_exists_error_eq_ok e)
  | ok value => exact iff_of_true ⟨_, rfl⟩ ⟨_, rfl⟩

/-- All lookups agree as soon as locating and removing agree with reading. -/
theorem lookupsAgree_of_locate_of_remove (hw : d.table.WellFormed)
    (hlocate : (∃ located, d.locate key = .ok located) ↔ (d.get? key).isSome)
    (hremove : ∀ available, (∃ value, (d.remove available key).answer = .ok value) ↔
      (d.get? key).isSome) : d.LookupsAgree key where
  modify := isSome_modify_iff hw
  contains := Iff.rfl
  withValue f := by rw [SharedDict.withValue?, Option.isSome_map]
  locate := hlocate
  remove := hremove
  delete available := (d.exists_delete_iff available key).trans (hremove available)

/-- All lookups agree on a key with bytes. -/
theorem lookupsAgree_of_ne_nil (hw : d.table.WellFormed) (hkey : key ≠ []) :
    d.LookupsAgree key := by
  have hbytes : key.isEmpty = false := List.isEmpty_eq_false_iff.2 hkey
  exact lookupsAgree_of_locate_of_remove hw (exists_locate_iff hbytes) (exists_remove_iff hw hbytes)

/-- All lookups agree on a key, except for the key without bytes while an entry is stored that is
taken for one of it. -/
theorem lookupsAgree_iff_of_reachable (h : d.Reachable) (key : Bytes) :
    d.LookupsAgree key ↔ (key = [] → ¬ d.Stores []) := by
  have hw := h.wellFormed
  by_cases hkey : key = []
  · subst hkey
    constructor
    · -- The empty key is located nowhere.
      intro hagree _ hstores
      obtain ⟨located, hlocated⟩ := hagree.locate.2 ((isSome_get?_iff hw).2 hstores)
      cases hlocated
    · intro hnot
      have hnone : ¬ (d.get? []).isSome := fun hsome => hnot rfl ((isSome_get?_iff hw).1 hsome)
      refine lookupsAgree_of_locate_of_remove hw
        (iff_of_false (not_exists_error_eq_ok emptyKey) hnone) fun available => ?_
      rw [remove_of_isEmpty rfl]
      exact iff_of_false (not_exists_error_eq_ok emptyKey) hnone
  · exact ⟨fun _ hnil => absurd hnil hkey, fun _ => lookupsAgree_of_ne_nil hw hkey⟩

/-- Under a measure that leaves nothing of any key, one entry is taken for one of every key: the
lookups agree on keys with bytes, and disagree on the key without. -/
theorem lookupsAgree_iff_of_cut : ∃ d : Dict ℕ ℕ, d.Reachable ∧ d.get? [98] = some 1 ∧
    d.LookupsAgree [98] ∧ ¬ d.LookupsAgree [] := by
  have hd : (((Dict.empty {} : Dict ℕ ℕ).perform (.setSize fun _ => 0 : Call ℕ ℕ ℕ)).dict.perform
      (.request (.insert (fun _ => true) [97] 1) : Call ℕ ℕ ℕ)).dict.Reachable :=
    .call (.call (.empty _) _) _
  refine ⟨_, hd, by decide +kernel,
    (lookupsAgree_iff_of_reachable hd [98]).2 (absurd · (by decide)), fun hagree => ?_⟩
  refine (lookupsAgree_iff_of_reachable hd []).1 hagree rfl ?_
  exact (isSome_get?_iff hd.wellFormed).1 (by decide +kernel)

/-- Under the default rules a key that begins with a zero byte is taken for the key without bytes:
its value is read, but the entry is not located, removed or deleted. -/
theorem not_lookupsAgree_of_zero : ∃ d : Dict ℕ ℕ, d.Reachable ∧ d.get? [] = some 1 ∧
    (d.remove (fun _ => true) []).answer = .error emptyKey ∧
    (d.delete (fun _ => true) []).answer = .error emptyKey ∧ ¬ d.LookupsAgree [] := by
  have hd : ((Dict.empty {} : Dict ℕ ℕ).perform
      (.request (.insert (fun _ => true) [0] 1) : Call ℕ ℕ ℕ)).dict.Reachable :=
    .call (.empty _) _
  refine ⟨_, hd, by decide +kernel, rfl, rfl, fun hagree => ?_⟩
  obtain ⟨located, hlocated⟩ := hagree.locate.2 (by decide +kernel)
  cases hlocated

end Dict

end OpenAddressing
