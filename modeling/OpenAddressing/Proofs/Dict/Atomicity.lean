import OpenAddressing.Proofs.Dict.Departures
import OpenAddressing.Proofs.Table.Atomicity

/-!
# A dictionary whose operation fails is left as it was

Calls by key and reservations are calls to the table, which are all or nothing
(`Table.WellFormed.allOrNothing`), and a rule is replaced only when nothing stands against it. So a
call that fails leaves the dictionary as it was and parts with no value (`perform_of_error`); only
the insertion of several pairs may have come part of the way. `allOrNothing_of_reachable` states it
of every table and dictionary that comes about.
-/

namespace OpenAddressing

universe u v w

/-- The slots that the call can obtain have addresses, where that matters: in an insertion. -/
def Call.Addressable {ρ : Type v} {σ : Type w} {α : Type u} : Call ρ σ α → Prop
  | .request (.insert available _ _) => available.Addressable
  | .request (.insertKey available _ _) => available.Addressable
  | _ => True

namespace Dict

variable {ρ : Type v} {σ : Type w} {α : Type u} {d : Dict ρ α} {available : Allocator} {e : Error}

/-- An insertion that fails leaves the dictionary as it was. -/
theorem insertKey_of_error (hw : d.table.WellFormed) (hidle : d.table.resizing = false)
    (haddr : available.Addressable) {key : Key} {value : α}
    (h : (d.insertKey available key value).answer = .error e) :
    (d.insertKey available key value).dict = d := by
  cases hkey : key.bytes.isEmpty with
  | true => rw [insertKey_of_isEmpty hkey]
  | false =>
    rw [insertKey_eq_insert hkey] at h ⊢
    rcases Table.insert_of_addressable hw hidle haddr d.config.settings.resize
      (d.hashKey key.bytes) ⟨key, value⟩ (d.config.accepts key.bytes) with
      ⟨_ | old, u, hu⟩ | ⟨e', he, -⟩
    · rw [hu] at h
      cases h
    · rw [hu] at h
      cases h
    · rw [he]

/-- So does one that stores the key as the settings say. -/
theorem insert_of_error (hw : d.table.WellFormed) (hidle : d.table.resizing = false)
    (haddr : available.Addressable) {key : Bytes} {value : α}
    (h : (d.insert available key value).answer = .error e) :
    (d.insert available key value).dict = d := by
  obtain ⟨stored, -, hinsert⟩ := d.exists_insert_eq_insertKey available key value
  rw [hinsert] at h ⊢
  exact insertKey_of_error hw hidle haddr h

/-- So does a removal. -/
theorem remove_of_error (hw : d.table.WellFormed) {key : Bytes}
    (h : (d.remove available key).answer = .error e) : (d.remove available key).dict = d := by
  rcases remove_cases hw available key with ⟨e', heq⟩ | ⟨slot, u, heq, -⟩
  · rw [heq]
  · rw [heq] at h
    cases h

/-- So does a reservation. -/
theorem reserve_of_error (hw : d.table.WellFormed) (hidle : d.table.resizing = false)
    {additional : ℕ} (h : (d.reserve available additional).answer = .error e) :
    (d.reserve available additional).state = d := by
  have htable := Table.reserve_of_error hw hidle h
  show (⟨(d.table.reserve available additional).state, d.config⟩ : Dict ρ α) = d
  rw [htable]

/-- So does the replacement of a rule. -/
theorem replaceRule_of_error {what : String} {change : KeyRules → KeyRules}
    (h : (d.replaceRule what change).answer = .error e) :
    (d.replaceRule what change).state = d := by
  unfold replaceRule at h ⊢
  dsimp only at h ⊢
  split
  · rw [if_pos ‹_›] at h
    cases h
  · rfl

/-- Every call that fails leaves the dictionary as it was and parts with no value, unless it inserts
several pairs. -/
theorem perform_of_error (hw : d.table.WellFormed) (hidle : d.table.resizing = false)
    {call : Call ρ σ α} (hone : call.isExtend = false) (haddr : call.Addressable)
    (h : (d.perform call).answer = .error e) :
    (d.perform call).dict = d ∧ (d.perform call).departed = [] := by
  refine ⟨?_, departed_of_error hw hone h⟩
  cases call with
  | request request =>
    cases request with
    | insert available key value =>
      exact insert_of_error hw hidle haddr (eq_error_of_map_eq_error h)
    | insertKey available key value =>
      exact insertKey_of_error hw hidle haddr (eq_error_of_map_eq_error h)
    | get => rfl
    | modify => cases h
    | contains => rfl
    | locate => rfl
    | delete available key =>
      have hdelete := eq_error_of_map_eq_error h
      obtain ⟨hanswer, hdict⟩ := d.delete_eq available key
      rw [hanswer] at hdelete
      exact hdict.trans (remove_of_error hw (eq_error_of_map_eq_error hdelete))
    | remove available key => exact remove_of_error hw (eq_error_of_map_eq_error h)
    | reserve available additional => exact reserve_of_error hw hidle (eq_error_of_map_eq_error h)
    | shrinkToFit => cases h
    | retain => cases h
    | clear => cases h
    | drain => cases h
    | extend => cases hone
    | setSettings => cases h
  | rewrite => cases h
  | setRelease => cases h
  | setHash => exact replaceRule_of_error (eq_error_of_map_eq_error h)
  | setSize => exact replaceRule_of_error (eq_error_of_map_eq_error h)
  | setEqual => exact replaceRule_of_error (eq_error_of_map_eq_error h)

/-- The table of a dictionary that comes about is not marked as being rehashed. -/
theorem Reachable.resizing_eq (h : d.Reachable) : d.table.resizing = false := by
  refine h.table_induction (P := fun t => t.resizing = false) rfl Table.resizing_withCapacity ?_
  rintro t u (hstep | ⟨fs, rfl⟩) hidle
  · exact hstep.resizing_eq hidle
  · exact hidle

/-- What a dictionary owes that a call fails on. -/
structure AllOrNothing (d : Dict ρ α) : Prop where
  /-- The table is not marked as being rehashed. -/
  idle : d.table.resizing = false
  /-- A call that fails leaves the table, the settings and the rules as they were and parts with no
  value, whichever of the slots that have addresses can be obtained; only the insertion of several
  pairs may have come part of the way. -/
  failed : ∀ {σ : Type u} (call : Call ρ σ α) e, call.isExtend = false → call.Addressable →
    (d.perform call).answer = .error e →
    (d.perform call).dict = d ∧ (d.perform call).departed = []

/-- Every table and every dictionary that comes about, completely full ones included, is left as it
was by an operation that fails. -/
theorem allOrNothing_of_reachable :
    (∀ t : Table α, t.Reachable → t.AllOrNothing) ∧ ∀ d : Dict ρ α, d.Reachable → d.AllOrNothing :=
  ⟨fun _ h => h.wellFormed.allOrNothing h.resizing_eq, fun _ h => ⟨h.resizing_eq,
    fun _ _ hone haddr hfail => perform_of_error h.wellFormed h.resizing_eq hone haddr hfail⟩⟩

/-- A full table, made under a policy that never grows, is asked to grow by an insertion: it fails
and changes nothing, or grows and takes the entry. A full dictionary refuses a further key and
another hash. -/
theorem allOrNothing_of_full : ∃ (t : Table ℕ) (d : Dict ℕ ℕ) (few : Allocator),
    t.Reachable ∧ d.Reachable ∧ t.size = t.capacity ∧
    (t.insert few .growOnly 1 9 fun _ => false).answer = .error (.allocation 8) ∧
    (t.insert few .growOnly 1 9 fun _ => false).state = t ∧
    (∃ old, (t.insert (fun n => n < 64) .growOnly 1 9 fun _ => false).answer = .ok old) ∧
    (d.insert few [101] 9).answer = .error (.capacity 4) ∧ (d.insert few [101] 9).dict = d ∧
    (d.setHash fun _ => 0).answer
      = .error (.generic "cannot replace the hash function of a map holding 4 entries") ∧
    (d.setHash fun _ => 0).state = d := by
  have ht : ([3, 3, 3, 0].foldl
      (fun t hash => (t.insert (fun _ => true) .disabled hash 7 fun _ => false).state)
      (.empty : Table ℕ)).Reachable :=
    .step (.step (.step (.step .empty (.insert _ _ _ 3 _ _)) (.insert _ _ _ 3 _ _))
      (.insert _ _ _ 3 _ _)) (.insert _ _ _ 0 _ _)
  have hd : ([[97], [98], [99], [100]].foldl
      (fun d key => (d.perform (.request (.insert (fun _ => true) key 5) : Call ℕ ℕ ℕ)).dict)
      ((Dict.empty { resize := .disabled } : Dict ℕ ℕ).perform
        (.setHash fun _ => 7 : Call ℕ ℕ ℕ)).dict).Reachable :=
    .call (.call (.call (.call (.call (.empty _) _) _) _) _) _
  have hfew : Allocator.Addressable fun n => n < 8 := fun n hn => by
    have hlt : n < 8 := of_decide_eq_true hn
    omega
  have hmany : Allocator.Addressable fun n => n < 64 := fun n hn => by
    have hlt : n < 64 := of_decide_eq_true hn
    omega
  obtain ⟨htable, hdict⟩ := allOrNothing_of_reachable (ρ := ℕ) (α := ℕ)
  refine ⟨_, _, fun n => n < 8, ht, hd, by decide, by decide +kernel, ?_, ?_, by decide +kernel, ?_,
    by decide +kernel, ?_⟩
  · exact (htable _ ht).insert _ _ _ _ _ (.allocation 8) hfew (by decide +kernel)
  · exact (htable _ ht).grown _ _ _ _ _ hmany (by decide +kernel) (by decide +kernel)
  · exact ((hdict _ hd).failed (.request (.insert _ [101] 9) : Call ℕ ℕ ℕ) (.capacity 4) rfl hfew
      rfl).1
  · exact ((hdict _ hd).failed (.setHash fun _ => 0 : Call ℕ ℕ ℕ) _ rfl trivial rfl).1

end Dict

end OpenAddressing
