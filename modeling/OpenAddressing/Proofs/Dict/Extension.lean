import OpenAddressing.Proofs.Dict.Ledger
import OpenAddressing.Proofs.Dict.Room

/-!
# Several pairs are a reservation and then insertions

The insertion of several pairs makes room for all of them and then inserts one after another, up to
the first key without bytes. With the room made, each of these insertions succeeds on the slots
there are, whether its key is new or comes again, under any policy and whatever slots can be
obtained; so what is left is only the question whether a key has no bytes
(`answer_insertAll`). `ExtendsExactly` states the outcome against the run of single insertions
of the pairs before that key.
-/

namespace OpenAddressing

universe u v w

namespace Dict

variable {ρ : Type v} {σ : Type w} {α : Type u} {d : Dict ρ α} {available : Allocator}
  {pairs : List (Bytes × α)} {calls : List (Call ρ σ α)}

/-- The pairs before the first whose key has no bytes. -/
def keyed (pairs : List (Bytes × α)) : List (Bytes × α) :=
  pairs.takeWhile fun pair => !pair.1.isEmpty

/-- There are none before a pair whose key has no bytes. -/
theorem keyed_cons_of_isEmpty {pair : Bytes × α} (h : pair.1.isEmpty = true)
    (rest : List (Bytes × α)) : keyed (pair :: rest) = [] :=
  List.takeWhile_cons_of_neg (by simp [h])

/-- A pair whose key has bytes is one of them. -/
theorem keyed_cons_of_not_isEmpty {pair : Bytes × α} (h : pair.1.isEmpty = false)
    (rest : List (Bytes × α)) : keyed (pair :: rest) = pair :: keyed rest :=
  List.takeWhile_cons_of_pos (by simp [h])

/-- All their keys have bytes. -/
theorem isEmpty_of_mem_keyed {pair : Bytes × α} (h : pair ∈ keyed pairs) :
    pair.1.isEmpty = false := by
  have hpair := List.mem_takeWhile_imp h
  simpa using hpair

/-- The calls insert the pairs one by one, each with whatever slots can be obtained. -/
def Inserts (pairs : List (Bytes × α)) (calls : List (Call ρ σ α)) : Prop :=
  List.Forall₂ (fun pair call => ∃ available, call = .request (.insert available pair.1 pair.2))
    pairs calls

/-! ## Insertions one by one -/

/-- A key without bytes is not inserted. -/
theorem insert_of_isEmpty {key : Bytes} (hkey : key.isEmpty = true) (available : Allocator)
    (value : α) : d.insert available key value = ⟨.error emptyKey, d, []⟩ := by
  obtain ⟨stored, rfl, hinsert⟩ := d.exists_insert_eq_insertKey available key value
  rw [hinsert, insertKey_of_isEmpty hkey]

/-- Insertions of pairs whose keys have bytes are calls that insert or look up. -/
theorem Inserts.insertsOrLooksUp (h : Inserts pairs calls)
    (hkeyed : ∀ pair ∈ pairs, pair.1.isEmpty = false) : ∀ call ∈ calls, call.InsertsOrLooksUp := by
  induction h with
  | nil => exact List.forall_mem_nil _
  | @cons pair call pairs calls hcall hrest ih =>
    obtain ⟨available, rfl⟩ := hcall
    refine List.forall_mem_cons.2 ⟨hkeyed pair List.mem_cons_self, ih fun other hother => ?_⟩
    exact hkeyed other (List.mem_cons_of_mem pair hother)

/-- No call inserts more than one new entry. -/
theorem newcomers_le_length (d : Dict ρ α) (calls : List (Call ρ σ α)) :
    d.newcomers calls ≤ calls.length := by
  induction calls generalizing d with
  | nil => exact Nat.le_refl 0
  | cons call rest ih =>
    have hrest := ih (d.perform call).dict
    have hcall : d.fresh call ≤ 1 := by
      unfold fresh
      split
      · exact Bool.toNat_le _
      · exact Bool.toNat_le _
      · exact Nat.zero_le 1
    rw [newcomers, List.length_cons]
    omega

/-- With room for a further entry, the insertion of a pair whose key has bytes succeeds on the
slots there are, whatever slots can be obtained, and leaves the rest of the room. -/
theorem exists_insert_eq_of_succ {key : Bytes} {rest : ℕ} (h : Table.RoomFor (rest + 1) d.table)
    (hkey : key.isEmpty = false) (value : α) :
    ∃ old u departed,
      (∀ available, d.insert available key value = ⟨.ok old, ⟨u, d.config⟩, departed⟩) ∧
      u.capacity = d.table.capacity ∧ Table.RoomFor rest u := by
  have hfresh : (d.find? key).isNone.toNat ≤ 1 := Bool.toNat_le _
  exact exists_insert_eq (h.mono (by omega)) hkey value

/-- With room for all pairs, inserting them in a row leaves the slots and fails only at a key
without bytes. -/
theorem answer_insertAll (available : Allocator) (h : Table.RoomFor pairs.length d.table) :
    ((d.insertAll available pairs).answer
        = if pairs.any fun pair => pair.1.isEmpty then .error emptyKey else .ok ()) ∧
      (d.insertAll available pairs).dict.capacity = d.capacity := by
  induction pairs generalizing d with
  | nil => exact ⟨rfl, rfl⟩
  | cons pair rest ih =>
    obtain ⟨key, value⟩ := pair
    rw [List.any_cons]
    cases hkey : key.isEmpty with
    | true =>
      -- The rest of the pairs is not looked at.
      rw [insertAll, insert_of_isEmpty hkey]
      exact ⟨rfl, rfl⟩
    | false =>
      obtain ⟨old, u, departed, hinsert, hcap, hrest⟩ := exists_insert_eq_of_succ h hkey value
      rw [insertAll, hinsert]
      have hnext : Table.RoomFor rest.length (⟨u, d.config⟩ : Dict ρ α).table := hrest
      obtain ⟨hanswer, hslots⟩ := ih hnext
      exact ⟨hanswer, hslots.trans hcap⟩

/-- It does what single insertions of the pairs before that key do. -/
theorem insertAll_eq_after (available : Allocator) (h : Table.RoomFor pairs.length d.table)
    (hcalls : Inserts (keyed pairs) calls) :
    (d.insertAll available pairs).dict = d.after calls ∧
      (d.insertAll available pairs).departed = d.departures calls := by
  induction pairs generalizing d calls with
  | nil =>
    obtain rfl := List.forall₂_nil_left_iff.1 hcalls
    exact ⟨rfl, rfl⟩
  | cons pair rest ih =>
    obtain ⟨key, value⟩ := pair
    cases hkey : key.isEmpty with
    | true =>
      rw [keyed_cons_of_isEmpty hkey] at hcalls
      obtain rfl := List.forall₂_nil_left_iff.1 hcalls
      rw [insertAll, insert_of_isEmpty hkey]
      exact ⟨rfl, rfl⟩
    | false =>
      rw [keyed_cons_of_not_isEmpty hkey] at hcalls
      obtain ⟨call, later, ⟨other, rfl⟩, hlater, rfl⟩ := List.forall₂_cons_left_iff.1 hcalls
      obtain ⟨old, u, departed, hinsert, -, hrest⟩ := exists_insert_eq_of_succ h hkey value
      -- The single insertion comes to the same, also if other slots can be obtained.
      have hperform : d.perform (.request (.insert other key value) : Call ρ σ α)
          = ⟨.ok (.value old), ⟨u, d.config⟩, departed⟩ := by
        show (d.insert other key value).map Answer.value = _
        rw [hinsert]
        rfl
      -- It leaves room for the rest of the pairs, which carries the induction.
      have hnext : Table.RoomFor rest.length (⟨u, d.config⟩ : Dict ρ α).table := hrest
      obtain ⟨hdict, hdeparted⟩ := ih hnext hlater
      rw [insertAll, hinsert]
      constructor
      · show ((⟨u, d.config⟩ : Dict ρ α).insertAll available rest).dict
          = (d.perform (.request (.insert other key value))).dict.after later
        rw [hperform, hdict]
      · rw [departures, hperform, ← hdeparted]

/-- With room for all pairs, the single insertions of those before a key without bytes succeed on
the slots there are. -/
theorem steady_of_inserts (h : Table.RoomFor pairs.length d.table)
    (hcalls : Inserts (keyed pairs) calls) : d.Steady calls := by
  have hlength : calls.length ≤ pairs.length := by
    rw [← hcalls.length_eq]
    exact (List.takeWhile_sublist _).length_le
  exact steady_of_roomFor (hcalls.insertsOrLooksUp fun pair => isEmpty_of_mem_keyed)
    (h.mono ((newcomers_le_length d calls).trans hlength))

/-! ## The reservation and the insertions -/

/-- When room can be made for all pairs, they are then inserted in a row. -/
theorem extend_of_reserve_ok (h : (d.reserve available pairs.length).answer = .ok ()) :
    d.extend available pairs
      = (d.reserve available pairs.length).state.insertAll available pairs := by
  rw [extend, extendBy]
  generalize d.reserve available pairs.length = outcome at h
  obtain ⟨answer, next⟩ := outcome
  obtain rfl : answer = .ok () := h
  rfl

/-- When it cannot, the slots could not be obtained, and the dictionary is left as it was. -/
theorem extend_of_reserve_error (hw : d.table.WellFormed) (hidle : d.table.resizing = false)
    {e : Error} (h : (d.reserve available pairs.length).answer = .error e) :
    (∃ slots, e = .allocation slots) ∧ d.extend available pairs = ⟨.error e, d, []⟩ := by
  constructor
  · rw [reserve_eq_reserve] at h
    rcases Table.reserve_cases hw available pairs.length with ⟨-, heq⟩ |
      ⟨slots, -, ⟨-, -, heq⟩ | ⟨-, u, heq, -⟩⟩
    · rw [heq] at h
      exact ⟨_, (Except.error.inj h).symm⟩
    · rw [heq] at h
      exact ⟨slots, (Except.error.inj h).symm⟩
    · rw [heq] at h
      cases h
  · have hstate := reserve_of_error hw hidle h
    rw [extend, extendBy]
    generalize d.reserve available pairs.length = outcome at h hstate
    obtain ⟨answer, next⟩ := outcome
    obtain rfl : answer = .error e := h
    obtain rfl : next = d := hstate
    rfl

/-- What the insertion of several pairs owes a dictionary. -/
structure ExtendsExactly (d : Dict ρ α) (available : Allocator) (pairs : List (Bytes × α)) :
    Prop where
  /-- If room cannot be made for all pairs, the answer is that slots could not be obtained, and the
  dictionary is left as it was. -/
  refused : ∀ e, (d.reserve available pairs.length).answer = .error e →
    (∃ slots, e = .allocation slots) ∧ d.extend available pairs = ⟨.error e, d, []⟩
  /-- Otherwise it succeeds if every key has bytes. -/
  done : (d.reserve available pairs.length).answer = .ok () →
    (∀ pair ∈ pairs, pair.1.isEmpty = false) → (d.extend available pairs).answer = .ok ()
  /-- And if there is a key without bytes, that is the answer. -/
  stopped : (d.reserve available pairs.length).answer = .ok () →
    ∀ pair ∈ pairs, pair.1.isEmpty = true →
      (d.extend available pairs).answer = .error (.invalidInput "empty key")
  /-- Either way it leaves what the single insertions of the pairs before that key leave after the
  reservation, the same values depart in the same order, and each of these insertions succeeds,
  whatever slots can be obtained during it. -/
  inserted : (d.reserve available pairs.length).answer = .ok () →
    ∀ {σ : Type w} (calls : List (Call ρ σ α)), Inserts (keyed pairs) calls →
      (d.extend available pairs).dict
          = (d.reserve available pairs.length).state.after calls ∧
        (d.extend available pairs).departed
          = (d.reserve available pairs.length).state.departures calls ∧
        (d.reserve available pairs.length).state.Steady calls
  /-- The slots are those right after the reservation. -/
  capacity_eq : (d.reserve available pairs.length).answer = .ok () →
    (d.extend available pairs).dict.capacity
      = (d.reserve available pairs.length).state.capacity

/-- The insertion of several pairs into a dictionary that comes about, completely full ones
included, is a reservation and then the insertions of the pairs before the first key without
bytes, none of which is refused. -/
theorem extendsExactly_of_reachable (h : d.Reachable) (available : Allocator)
    (pairs : List (Bytes × α)) : ExtendsExactly.{u, v, w} d available pairs := by
  have hw := h.wellFormed
  constructor
  case refused => exact fun e => extend_of_reserve_error hw h.resizing_eq
  case done =>
    intro hok hkeys
    have hnone : (pairs.any fun pair => pair.1.isEmpty) = false := by
      simpa using hkeys
    rw [extend_of_reserve_ok hok, (answer_insertAll available (roomFor_of_reserve hw hok)).1, hnone]
    rfl
  case stopped =>
    intro hok pair hmem hkey
    have hsome : (pairs.any fun pair => pair.1.isEmpty) = true :=
      List.any_eq_true.2 ⟨pair, hmem, hkey⟩
    rw [extend_of_reserve_ok hok, (answer_insertAll available (roomFor_of_reserve hw hok)).1, hsome]
    rfl
  case inserted =>
    intro hok σ calls hcalls
    have hroom := roomFor_of_reserve hw hok
    obtain ⟨hdict, hdeparted⟩ := insertAll_eq_after available hroom hcalls
    rw [extend_of_reserve_ok hok]
    exact ⟨hdict, hdeparted, steady_of_inserts hroom hcalls⟩
  case capacity_eq =>
    intro hok
    rw [extend_of_reserve_ok hok]
    exact (answer_insertAll available (roomFor_of_reserve hw hok)).2

/-- Five pairs for a completely full dictionary that may not grow and owns its values: a key that
is stored, a new one twice, and then one without bytes. Sixteen slots are gone to up front, the
values replaced go to the receiver in order, and the last pair is not inserted. When the slots
cannot be obtained nothing happens. -/
theorem extendsExactly_of_full : ∃ (d : Dict ℕ ℕ) (pairs : List (Bytes × ℕ))
    (calls : List (Call ℕ ℕ ℕ)), d.Reachable ∧ d.table.size = d.table.capacity ∧
    d.config.settings.resize = .disabled ∧
    ExtendsExactly.{0, 0, 0} d (fun _ => true) pairs ∧
    (d.reserve (fun _ => true) pairs.length).answer = .ok () ∧
    Inserts (keyed pairs) calls ∧ calls.length = 3 ∧
    (d.extend (fun _ => true) pairs).answer = .error (.invalidInput "empty key") ∧
    (d.extend (fun _ => true) pairs).departed = [⟨5, some 1⟩, ⟨11, some 1⟩] ∧
    (d.extend (fun _ => true) pairs).dict.capacity = 16 ∧
    (d.extend (fun _ => true) pairs).dict.get? [101] = some 12 ∧
    (d.extend (fun _ => true) pairs).dict.get? [102] = none ∧
    ExtendsExactly.{0, 0, 0} d (fun _ => false) pairs ∧
    (d.extend (fun _ => false) pairs).answer = .error (.allocation 16) := by
  have hd : ([[97], [98], [99], [100]].foldl
      (fun d key => (d.perform (.request (.insert (fun _ => true) key 5) : Call ℕ ℕ ℕ)).dict)
      (((Dict.empty { resize := .disabled, ownership := .value } : Dict ℕ ℕ).perform
        (.setHash fun _ => 7 : Call ℕ ℕ ℕ)).dict.perform
          (.setRelease (.handTo 1) : Call ℕ ℕ ℕ)).dict).Reachable :=
    .call (.call (.call (.call (.call (.call (.empty _) _) _) _) _) _) _
  exact ⟨_, [([97], 10), ([101], 11), ([101], 12), ([], 13), ([102], 14)], [
    .request (.insert (fun _ => false) [97] 10),
    .request (.insert (fun _ => false) [101] 11),
    .request (.insert (fun _ => false) [101] 12)], hd, by decide +kernel, by decide +kernel,
    extendsExactly_of_reachable hd _ _, by decide +kernel,
    .cons ⟨_, rfl⟩ (.cons ⟨_, rfl⟩ (.cons ⟨_, rfl⟩ .nil)), rfl, by decide +kernel,
    by decide +kernel, by decide +kernel, by decide +kernel, by decide +kernel,
    extendsExactly_of_reachable hd _ _, by decide +kernel⟩

end Dict

end OpenAddressing
