import OpenAddressing.Proofs.Dict.Calls
import OpenAddressing.Proofs.Table.Filtering

/-!
# A dictionary that keeps some of its entries

A dictionary shows a visit the bytes of a key and its value, and lets it change the value
(`visitEntry`). It leaves the walk to its table, which visits every entry once and filters them by
the visits (`Table.FiltersExactly`), and parts with the values of the entries that go, in the order
of the visits. `filtersExactly_of_reachable` states this of every table and dictionary that comes
about.
-/

namespace OpenAddressing

universe u v w

namespace Dict

variable {ρ : Type v} {α : Type u} {d : Dict ρ α}

/-- Keeping some of the entries visits each of them once, filters them by the visits and parts with
the values of the others. -/
structure FiltersExactly (d : Dict ρ α) : Prop where
  /-- The table visits and filters its entries. -/
  table : Table.FiltersExactly.{u, w} d.table
  /-- The dictionary is left with the entries that the table keeps, under its configuration. -/
  dict_eq : ∀ {σ : Type w} (visit : Bytes → α → σ → Verdict α × σ) (state : σ),
    (d.retain visit state).dict = ⟨(d.table.retain (visitEntry visit) state).table, d.config⟩
  /-- The running state is that of the last visit. -/
  state_eq : ∀ {σ : Type w} (visit : Bytes → α → σ → Verdict α × σ) (state : σ),
    (d.retain visit state).state = (d.table.retain (visitEntry visit) state).state
  /-- The values of the others depart in the order of the visits, to the receiver if the dictionary
  owns its values. -/
  departed_eq : ∀ {σ : Type w} (visit : Bytes → α → σ → Verdict α × σ) (state : σ),
    (d.retain visit state).departed
      = ((visits (visitEntry visit) d.table.round state).filter fun v => !v.verdict.keep).map
        fun v => ⟨v.verdict.item.value,
          if d.config.ownsValues then d.config.release.receiver? else none⟩

/-- A dictionary on a well-formed table filters its entries exactly. -/
theorem filtersExactly_of_wellFormed (hw : d.table.WellFormed) : FiltersExactly.{u, v, w} d where
  table := hw.filtersExactly
  dict_eq _ _ := rfl
  state_eq _ _ := rfl
  departed_eq visit state := by
    show (d.table.retain (visitEntry visit) state).removed.map
      (fun entry => d.config.givenUp entry.value) = _
    rw [hw.filtersExactly.removed_eq, List.map_map]
    rfl

/-- Every table and every dictionary that comes about visits each entry once when it keeps some of
them, and filters them by the visits. -/
theorem filtersExactly_of_reachable :
    (∀ t : Table α, t.Reachable → Table.FiltersExactly.{u, w} t) ∧
      ∀ d : Dict ρ α, d.Reachable → FiltersExactly.{u, v, w} d :=
  ⟨fun _ ht => ht.wellFormed.filtersExactly, fun _ hd => filtersExactly_of_wellFormed hd.wellFormed⟩

/-- A visit that keeps every second item and adds to each ten times the number of visits before. -/
def everySecond (item count : ℕ) : Verdict ℕ × ℕ :=
  (⟨count % 2 == 1, item + 10 * count⟩, count + 1)

/-- A run of three entries over the end of a table of four slots, a full table, and a dictionary
that owns its values: the walks start after the vacant slot and at the first slot, and half of the
entries go. -/
theorem filtersExactly_of_wrapped_and_full : ∃ (t u : Table ℕ) (d : Dict ℕ ℕ),
    t.visitStart = 3 ∧ t.round.map Slot.item = [5, 6, 7] ∧
      (t.retain everySecond 0).removed = [5, 27] ∧ (t.retain everySecond 0).table.items = [16] ∧
      u.visitStart = 0 ∧ u.round.map Slot.item = [6, 7, 8, 5] ∧
      (u.retain everySecond 0).removed = [6, 28] ∧
      (u.retain everySecond 0).table.items = [35, 17] ∧
      (d.retain (fun _ => everySecond) 0).departed = [⟨5, some 9⟩, ⟨27, some 9⟩] ∧
      Table.FiltersExactly.{0, 0} t ∧ Table.FiltersExactly.{0, 0} u ∧
      FiltersExactly.{0, 0, 0} d := by
  have ht : ([5, 6, 7].foldl
      (fun t item => (t.insert (fun _ => true) .disabled 3 item fun _ => false).state)
      (.empty : Table ℕ)).Reachable :=
    .step (.step (.step .empty (.insert _ _ _ _ _ _)) (.insert _ _ _ _ _ _)) (.insert _ _ _ _ _ _)
  have hd : ([([97], 5), ([98], 6), ([99], 7)].foldl
      (fun d pair => (d.perform (.request (.insert (fun _ => true) pair.1 pair.2) :
        Call ℕ ℕ ℕ)).dict)
      (((empty ⟨false, .value, .disabled⟩ : Dict ℕ ℕ).perform
        (.setHash fun _ => 7 : Call ℕ ℕ ℕ)).dict.perform (.setRelease (.handTo 9) :
          Call ℕ ℕ ℕ)).dict).Reachable :=
    .call (.call (.call (.call (.call (.empty _) _) _) _) _) _
  have hu := Table.Reachable.step ht (.insert _ (fun _ => true) .disabled 3 8 fun _ => false)
  obtain ⟨htable, hdict⟩ := filtersExactly_of_reachable (ρ := ℕ) (α := ℕ)
  exact ⟨_, _, _, by decide +kernel, by decide +kernel, by decide +kernel, by decide +kernel,
    by decide +kernel, by decide +kernel, by decide +kernel, by decide +kernel, by decide +kernel,
    htable _ ht, htable _ hu, hdict _ hd⟩

end Dict

end OpenAddressing
