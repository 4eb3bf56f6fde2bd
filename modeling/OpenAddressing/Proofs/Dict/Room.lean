import OpenAddressing.Proofs.Dict.Atomicity
import OpenAddressing.Proofs.Table.Room

/-!
# A reservation keeps its promise

An insertion by key goes to the table, and so finds the room there is: it succeeds on the slots
there are and comes to the same whatever slots can be obtained (`exists_insertKey_eq`). The lookups
by key leave the room as it is, and so do other settings, under which the next calls may have
another policy. What a reservation promises therefore holds of insertions and lookups one after
another, of tables and of dictionaries alike (`steady_of_reserve`): as long as no more new entries
are inserted than room was made for, none of them fails, and the slots stay.
-/

namespace OpenAddressing

universe u v w

/-- A call inserts or looks up by a key that has bytes, or puts other settings in place. -/
def Call.InsertsOrLooksUp {ρ : Type v} {σ : Type w} {α : Type u} : Call ρ σ α → Prop
  | .request (.insert _ key _) => key.isEmpty = false
  | .request (.insertKey _ key _) => key.bytes.isEmpty = false
  | .request (.get _) => True
  | .request (.modify ..) => True
  | .request (.contains _) => True
  | .request (.locate key) => key.isEmpty = false
  | .request (.setSettings _) => True
  | _ => False

namespace Dict

variable {ρ : Type v} {σ : Type w} {α : Type u} {d : Dict ρ α} {rest : ℕ}

/-- How many new entries a call inserts, or is asked to: one if it is an insertion and nothing is
stored for the key, and none otherwise. -/
def fresh (d : Dict ρ α) : Call ρ σ α → ℕ
  | .request (.insert _ key _) => (d.find? key).isNone.toNat
  | .request (.insertKey _ key _) => (d.find? key.bytes).isNone.toNat
  | _ => 0

/-- How many of the calls insert a new entry. -/
def newcomers (d : Dict ρ α) : List (Call ρ σ α) → ℕ
  | [] => 0
  | call :: rest => d.fresh call + (d.perform call).dict.newcomers rest

/-- Each of the calls succeeds, but for the lookup of an entry where there is none, and leaves the
number of slots as it is. -/
def Steady (d : Dict ρ α) : List (Call ρ σ α) → Prop
  | [] => True
  | call :: rest =>
    (∀ e, (d.perform call).answer = .error e →
      ∃ key, call = .request (.locate key) ∧ d.find? key = none ∧ e = .notFound) ∧
    (d.perform call).dict.capacity = d.capacity ∧ (d.perform call).dict.Steady rest

/-- An insertion by key for which there is room succeeds on the slots there are, whatever slots can
be obtained. A new entry uses up room for one. -/
theorem exists_insertKey_eq {key : Key}
    (h : Table.RoomFor ((d.find? key.bytes).isNone.toNat + rest) d.table)
    (hkey : key.bytes.isEmpty = false) (value : α) :
    ∃ old u departed,
      (∀ available, d.insertKey available key value = ⟨.ok old, ⟨u, d.config⟩, departed⟩) ∧
      u.capacity = d.table.capacity ∧ Table.RoomFor rest u := by
  obtain ⟨old, u, hinsert, hcap, hroom⟩ := Table.RoomFor.insert h ⟨key, value⟩
  cases old with
  | none =>
    refine ⟨none, u, [], fun available => ?_, hcap, hroom⟩
    rw [insertKey_eq_insert hkey, hinsert]
  | some old =>
    -- The value replaced is given up.
    refine ⟨d.config.givenBack old.value, u, [d.config.givenUp old.value], fun available => ?_,
      hcap, hroom⟩
    rw [insertKey_eq_insert hkey, hinsert]

/-- So does one that stores the key as the settings say. -/
theorem exists_insert_eq {key : Bytes}
    (h : Table.RoomFor ((d.find? key).isNone.toNat + rest) d.table) (hkey : key.isEmpty = false)
    (value : α) :
    ∃ old u departed,
      (∀ available, d.insert available key value = ⟨.ok old, ⟨u, d.config⟩, departed⟩) ∧
      u.capacity = d.table.capacity ∧ Table.RoomFor rest u := by
  -- The key has the same bytes, whoever owns them.
  have hbytes : (if d.config.settings.ownership.ownsKeys then Key.owned key
      else .borrowed key).bytes = key := by
    split <;> rfl
  exact exists_insertKey_eq (by rwa [hbytes]) (by rwa [hbytes]) value

/-- Rewriting a value leaves the slots and the room. -/
theorem roomFor_modify {count : ℕ} (h : Table.RoomFor count d.table) (key : Bytes) (f : α → α) :
    (d.modify key f).2.capacity = d.capacity ∧ Table.RoomFor count (d.modify key f).2.table :=
  h.update? (d.hashKey key) (d.config.accepts key)
    fun entry => (f entry.value, ⟨entry.key, f entry.value⟩)

/-- Looking up an entry for a key with bytes fails only when there is none. -/
theorem find?_of_locate_error {key : Bytes} (hkey : key.isEmpty = false) {e : Error}
    (h : d.locate key = .error e) : d.find? key = none ∧ e = .notFound := by
  rw [locate, hkey] at h
  cases hfind : d.find? key with
  | none =>
    rw [hfind] at h
    exact ⟨rfl, (Except.error.inj h).symm⟩
  | some entry =>
    rw [hfind] at h
    cases h

/-- A call for which there is room succeeds, but for the lookup of an entry where there is none, on
the slots there are, and uses up no more room than it has new entries. -/
theorem roomFor_perform {call : Call ρ σ α} (hcall : call.InsertsOrLooksUp)
    (h : Table.RoomFor (d.fresh call + rest) d.table) :
    (∀ e, (d.perform call).answer = .error e →
      ∃ key, call = .request (.locate key) ∧ d.find? key = none ∧ e = .notFound) ∧
    (d.perform call).dict.capacity = d.capacity ∧
    Table.RoomFor rest (d.perform call).dict.table := by
  have hrest := h.mono (Nat.le_add_left ..)
  cases call with
  | request request =>
    cases request with
    | insert available key value =>
      obtain ⟨old, u, departed, heq, hcap, hroom⟩ := exists_insert_eq h hcall value
      simp only [perform, serve, heq]
      exact ⟨fun e he => (by cases he), hcap, hroom⟩
    | insertKey available key value =>
      obtain ⟨old, u, departed, heq, hcap, hroom⟩ := exists_insertKey_eq h hcall value
      simp only [perform, serve, heq]
      exact ⟨fun e he => (by cases he), hcap, hroom⟩
    | get => exact ⟨fun e he => (by cases he), rfl, hrest⟩
    | modify key f =>
      obtain ⟨hcap, hroom⟩ := roomFor_modify hrest key f
      exact ⟨fun e he => (by cases he), hcap, hroom⟩
    | contains => exact ⟨fun e he => (by cases he), rfl, hrest⟩
    | locate key =>
      exact ⟨fun e he => ⟨key, rfl, find?_of_locate_error hcall (eq_error_of_map_eq_error he)⟩, rfl,
        hrest⟩
    | setSettings => exact ⟨fun e he => (by cases he), rfl, hrest⟩
    | delete => exact hcall.elim
    | remove => exact hcall.elim
    | reserve => exact hcall.elim
    | shrinkToFit => exact hcall.elim
    | retain => exact hcall.elim
    | clear => exact hcall.elim
    | drain => exact hcall.elim
    | extend => exact hcall.elim
  | rewrite => exact hcall.elim
  | setRelease => exact hcall.elim
  | setHash => exact hcall.elim
  | setSize => exact hcall.elim
  | setEqual => exact hcall.elim

/-- A dictionary with room for the new entries of insertions and lookups is steady under these. -/
theorem steady_of_roomFor {calls : List (Call ρ σ α)}
    (hcalls : ∀ call ∈ calls, call.InsertsOrLooksUp)
    (h : Table.RoomFor (d.newcomers calls) d.table) : d.Steady calls := by
  induction calls generalizing d with
  | nil => trivial
  | cons call rest ih =>
    obtain ⟨hanswer, hcap, hrest⟩ := roomFor_perform (hcalls call List.mem_cons_self) h
    exact ⟨hanswer, hcap, ih (fun c hc => hcalls c (List.mem_cons_of_mem call hc)) hrest⟩

/-- A reservation that succeeds makes room for as many new entries. -/
theorem roomFor_of_reserve (hw : d.table.WellFormed) {available : Allocator} {n : ℕ}
    (h : (d.reserve available n).answer = .ok ()) :
    Table.RoomFor n (d.reserve available n).state.table :=
  Table.roomFor_of_reserve hw h

/-- After a reservation that succeeds, of a table or a dictionary that comes about, insertions and
lookups one after another, of which no more insert a new entry than room was made for, succeed and
leave the slots as they are, under any policies and whatever slots can be obtained. -/
theorem steady_of_reserve :
    (∀ t : Table α, t.Reachable → ∀ available n, (t.reserve available n).answer = .ok () →
      ∀ uses, (t.reserve available n).state.newcomers uses ≤ n →
        (t.reserve available n).state.Steady uses) ∧
    ∀ d : Dict ρ α, d.Reachable → ∀ available n, (d.reserve available n).answer = .ok () →
      ∀ calls : List (Call ρ σ α), (∀ call ∈ calls, call.InsertsOrLooksUp) →
        (d.reserve available n).state.newcomers calls ≤ n →
        (d.reserve available n).state.Steady calls := by
  constructor
  · intro t ht available n hreserve uses hfew
    exact Table.steady_of_roomFor ((Table.roomFor_of_reserve ht.wellFormed hreserve).mono hfew)
  · intro d hd available n hreserve calls hcalls hfew
    exact steady_of_roomFor hcalls ((roomFor_of_reserve hd.wellFormed hreserve).mono hfew)

/-- Room for five entries in a new table, which takes eight slots and leaves the fifth just below
three quarters, and for two more in a dictionary with a completely full table. No further slots can
be obtained, the policies change from call to call, keys come again, and lookups lie in between. -/
theorem steady_of_reserve_of_full : ∃ (t : Table ℕ) (uses : List (Table.Use ℕ)) (d : Dict ℕ ℕ)
    (calls : List (Call ℕ ℕ ℕ)), t.Reachable ∧ d.Reachable ∧ d.table.size = d.table.capacity ∧
    (t.reserve (fun _ => true) 5).answer = .ok () ∧
    (t.reserve (fun _ => true) 5).state.capacity = 8 ∧
    (t.reserve (fun _ => true) 5).state.newcomers uses = 5 ∧
    (t.reserve (fun _ => true) 5).state.Steady uses ∧
    (d.reserve (fun _ => true) 2).answer = .ok () ∧
    (d.reserve (fun _ => true) 2).state.newcomers calls = 2 ∧
    (d.reserve (fun _ => true) 2).state.Steady calls := by
  have hd : ([[97], [98], [99], [100]].foldl
      (fun d key => (d.perform (.request (.insert (fun _ => true) key 5) : Call ℕ ℕ ℕ)).dict)
      ((Dict.empty { resize := .disabled } : Dict ℕ ℕ).perform
        (.setHash fun _ => 7 : Call ℕ ℕ ℕ)).dict).Reachable :=
    .call (.call (.call (.call (.call (.empty _) _) _) _) _) _
  obtain ⟨htable, hdict⟩ := steady_of_reserve (ρ := ℕ) (σ := ℕ) (α := ℕ)
  refine ⟨.empty, [
    .insert (fun _ => false) .disabled 7 10 (· == 10),
    .insert (fun _ => false) .growOnly 7 11 (· == 11),
    .find 7 (· == 11),
    .insert (fun _ => false) .growAndShrink 15 12 (· == 12),
    .insert (fun _ => false) .disabled 7 11 (· == 11),
    .update 7 (· == 10) (· + 10),
    .insert (fun _ => false) .growOnly 0 13 (· == 13),
    .find 0 (· == 99),
    .insert (fun _ => false) .growAndShrink 7 14 (· == 14)], _, [
    .request (.insert (fun _ => false) [101] 6),
    .request (.setSettings { resize := .growAndShrink }),
    .request (.insert (fun _ => false) [97] 7),
    .request (.get [98]),
    .request (.locate [122]),
    .request (.modify [99] (· + 1)),
    .request (.setSettings { resize := .growOnly }),
    .request (.insertKey (fun _ => false) (.owned [102]) 8),
    .request (.contains [102])], .empty, hd, by decide +kernel, by decide +kernel,
    by decide +kernel, by decide +kernel,
    htable _ .empty _ _ (by decide +kernel) _ (by decide +kernel), by decide +kernel,
    by decide +kernel,
    hdict _ hd _ _ (by decide +kernel) _ ?_ (by decide +kernel)⟩
  intro call hcall
  simp only [List.mem_cons, List.not_mem_nil, or_false] at hcall
  rcases hcall with rfl | rfl | rfl | rfl | rfl | rfl | rfl | rfl | rfl <;> trivial

end Dict

end OpenAddressing
