import Mathlib.Data.List.GetD
import OpenAddressing.Proofs.Dict.Atomicity
import OpenAddressing.Proofs.Dict.Posting
import OpenAddressing.Proofs.Table.Iteration

/-!
# Walks over a dictionary are exact

A dictionary leaves its walks to its table, which comes to each entry once and in slot order
(`Table.IteratesExactly`). Its keys and its values are read off the same entries, so that the pair a
walk comes to is that of the key and the value with its number. A walk over the values rewrites
those it has come to, each under its key, and draining leaves the dictionary empty on as many slots.
`iteratesExactly_of_reachable` states this of every table and dictionary that comes about.
-/

namespace OpenAddressing

universe u v

namespace Dict

variable {ρ : Type v} {α : Type u} {d : Dict ρ α}

/-- What a draining walk has handed out after `k` calls, and the dictionary it leaves. -/
def drainFirst (d : Dict ρ α) (k : ℕ) : List (Entry α) × Dict ρ α :=
  ((d.drain.1.take k).1, d.drain.2.1)

/-- Keys and values lie side by side as in the entries. -/
theorem zip_keys_values (d : Dict ρ α) :
    d.keys.zip d.values = d.entries.map fun entry => (entry.key.bytes, entry.value) :=
  List.zip_map' ..

/-- Rewriting values leaves the keys alone. -/
theorem keys_rewriteValues (d : Dict ρ α) (fs : List (α → α)) :
    (d.rewriteValues fs).keys = d.keys := by
  have hread : ∀ e : Dict ρ α, e.keys = e.table.entries.map fun slot => slot.item.key.bytes :=
    fun e => List.map_map
  rw [hread, hread]
  show (d.table.mapEach (fs.map Entry.onValue)).entries.map _ = _
  rw [Table.entries_mapEach]
  refine map_rewriteEach_of_eq (fun g hg slot => ?_) d.table.entries
  obtain ⟨_, hvalue, rfl⟩ := List.mem_map.1 hg
  obtain ⟨f, -, rfl⟩ := List.mem_map.1 hvalue
  rfl

/-- The walks over a dictionary come to each entry once, in slot order, and are in step with its
keys and values; one that rewrites leaves alone what it has not come to, and one that drains leaves
the dictionary empty. -/
structure IteratesExactly (d : Dict ρ α) : Prop where
  /-- The table iterates exactly. -/
  table : d.table.IteratesExactly
  /-- A walk comes to the entries. -/
  cursor : d.cursor.Yields d.entries
  /-- Each call takes the key and the value with its number. -/
  pair_eq : ∀ k, (d.cursor.take k).2.next?.map (fun next => (next.1.key.bytes, next.1.value))
    = (d.keys.zip d.values)[k]?
  /-- There are as many keys as entries. -/
  length_keys : d.keys.length = d.size
  /-- There are as many values. -/
  length_values : d.values.length = d.size
  /-- A rewriting walk rewrites the values it has come to, each under its key, and leaves the other
  slots alone. -/
  rewritten_get : ∀ fs, ∀ i < d.capacity, (d.rewriteValues fs).table.slots.get i
    = (d.table.slots.get i).map (Slot.onItem (Entry.onValue (fs.getD (d.table.rank i) id)))
  /-- It leaves the keys alone. -/
  keys_rewritten : ∀ fs, (d.rewriteValues fs).keys = d.keys
  /-- It rewrites the first values. -/
  values_rewritten : ∀ fs, (d.rewriteValues fs).values = rewriteEach fs d.values
  /-- A draining walk comes to the entries. -/
  drained : d.drain.1.Yields d.entries
  /-- After as many calls as one likes it has handed out the first entries, and the dictionary is
  empty on as many slots, under its configuration. -/
  drainFirst_eq : ∀ k, d.drainFirst k = (d.entries.take k, ⟨Table.vacant d.capacity, d.config⟩)
  /-- Every value departs with the caller. -/
  departed_eq : d.drain.2.2 = d.values.map fun value => ⟨value, none⟩

/-- A dictionary on a table that iterates exactly does so too. -/
theorem iteratesExactly_of_table (h : d.table.IteratesExactly) : d.IteratesExactly where
  table := h
  cursor := h.cursor
  pair_eq k := by
    have hnext : (d.cursor.take k).2.next?.map Prod.fst = d.entries[k]? := h.cursor.next_eq k
    rw [zip_keys_values, List.getElem?_map, ← hnext, Option.map_map]
    rfl
  length_keys := by rw [keys, List.length_map]; exact h.length_eq
  length_values := by rw [values, List.length_map]; exact h.length_eq
  rewritten_get fs i hi := by
    -- A value that stays leaves its entry as it was.
    have hcall : (fs.map Entry.onValue).getD (d.table.rank i) id
        = Entry.onValue (fs.getD (d.table.rank i) id) := List.getD_map fs id Entry.onValue
    rw [rewriteValues, h.edited_get (fs.map Entry.onValue) i hi, hcall]
  keys_rewritten := d.keys_rewriteValues
  values_rewritten := d.values_rewriteValues
  drained := h.drained
  drainFirst_eq k := by
    obtain ⟨hitems, htable⟩ := Prod.mk.inj (h.drainFirst_eq k)
    refine Prod.ext hitems ?_
    show (⟨d.table.drain.2, d.config⟩ : Dict ρ α) = _
    rw [htable]
    rfl
  departed_eq := rfl

/-- Every table and every dictionary that comes about iterates exactly. -/
theorem iteratesExactly_of_reachable :
    (∀ t : Table α, t.Reachable → t.IteratesExactly) ∧
      ∀ d : Dict ρ α, d.Reachable → d.IteratesExactly :=
  ⟨fun _ ht => ht.wellFormed.iteratesExactly ht.resizing_eq,
    fun _ hd => iteratesExactly_of_table (hd.wellFormed.iteratesExactly hd.resizing_eq)⟩

/-- A run of three entries over the end of a table of four slots, and a dictionary with such a
table: two calls are answered and one item is still to come, the entry in the last slot is not
rewritten, and draining one entry leaves the table empty. -/
theorem iteratesExactly_of_wrapped : ∃ (t : Table ℕ) (d : Dict ℕ ℕ),
    t.slots.cells.toList.map (·.map Slot.item) = [some 6, some 7, none, some 5] ∧
      t.items = [6, 7, 5] ∧ (t.cursor.take 2).1 = [6, 7] ∧ (t.cursor.take 2).2.remaining = 1 ∧
      (t.mapEach [(· + 10), (· * 2)]).items = [16, 14, 5] ∧
      t.drainFirst 1 = ([6], Table.vacant 4) ∧
      d.keys.zip d.values = [([98], 6), ([99], 7), ([97], 5)] ∧
      (d.drainFirst 1).1 = [⟨.borrowed [98], 6⟩] ∧
      t.IteratesExactly ∧ d.IteratesExactly := by
  have ht : ([5, 6, 7].foldl
      (fun t item => (t.insert (fun _ => true) .disabled 3 item fun _ => false).state)
      (.empty : Table ℕ)).Reachable :=
    .step (.step (.step .empty (.insert _ _ _ _ _ _)) (.insert _ _ _ _ _ _)) (.insert _ _ _ _ _ _)
  have hd : ([([97], 5), ([98], 6), ([99], 7)].foldl
      (fun d pair => (d.perform (.request (.insert (fun _ => true) pair.1 pair.2) :
        Call ℕ ℕ ℕ)).dict)
      ((empty ⟨false, .caller, .disabled⟩ : Dict ℕ ℕ).perform
        (.setHash fun _ => 7 : Call ℕ ℕ ℕ)).dict).Reachable :=
    .call (.call (.call (.call (.empty _) _) _) _) _
  obtain ⟨htable, hdict⟩ := iteratesExactly_of_reachable (ρ := ℕ) (α := ℕ)
  exact ⟨_, _, by decide +kernel, by decide +kernel, by decide +kernel, by decide +kernel,
    by decide +kernel, by decide +kernel, by decide +kernel, by decide +kernel, htable _ ht,
    hdict _ hd⟩

end Dict

end OpenAddressing
