import OpenAddressing.Proofs.Dict.Calls

/-!
# The values that depart

Removal and draining take values out for the caller, who has them from the answer (`Dict.taken`);
they go to no receiver (`departed_of_takesOut`). Any other value that departs is given up, to the
receiver there is at that moment if the dictionary owns its values (`givesUp_perform`). A call that
fails parts with none, unless it inserts several pairs (`departed_of_error`).
-/

namespace OpenAddressing

universe u v w

/-- Another answer made of a failure is that failure. -/
theorem eq_error_of_map_eq_error {ε β γ : Type*} {f : β → γ} {a : Except ε β} {e : ε}
    (h : a.map f = .error e) : a = .error e := by
  cases a with
  | error e' => exact congrArg Except.error (Except.error.inj h)
  | ok b => cases h

/-- Whether a call takes values out for the caller. -/
def Call.takesOut {ρ : Type v} {σ : Type w} {α : Type u} : Call ρ σ α → Bool
  | .request (.remove ..) => true
  | .request (.drain _) => true
  | _ => false

/-- Whether a call inserts several pairs. -/
def Call.isExtend {ρ : Type v} {σ : Type w} {α : Type u} : Call ρ σ α → Bool
  | .request (.extend ..) => true
  | _ => false

namespace Dict

variable {ρ : Type v} {σ : Type w} {α : Type u} {d : Dict ρ α}

/-- The values that a call takes out for the caller. -/
def taken (d : Dict ρ α) : Call ρ σ α → List α
  | .request (.remove available key) =>
    match (d.remove available key).answer with
    | .ok value => [value]
    | .error _ => []
  | .request (.drain _) => d.values
  | _ => []

/-- The values that depart are given up under this configuration. -/
def GivesUp (c : Config ρ) (departed : List (Departure ρ α)) : Prop :=
  ∃ given : List α, departed = given.map c.givenUp

/-- What is given up goes to the receiver there is, if the dictionary owns its values. -/
theorem GivesUp.receiver {c : Config ρ} {departed : List (Departure ρ α)} (h : GivesUp c departed) :
    ∀ departure ∈ departed,
      departure.receiver = if c.ownsValues then c.release.receiver? else none := by
  obtain ⟨given, rfl⟩ := h
  intro departure hmem
  obtain ⟨value, -, rfl⟩ := List.mem_map.1 hmem
  rfl

/-- No value is given up. -/
theorem givesUp_nil (c : Config ρ) : GivesUp c ([] : List (Departure ρ α)) := ⟨[], rfl⟩

/-- One value is given up. -/
theorem givesUp_singleton (c : Config ρ) (value : α) : GivesUp c [c.givenUp value] :=
  ⟨[value], rfl⟩

/-- An insertion gives up the value replaced, and keeps the configuration. -/
theorem givesUp_insertKey (hw : d.table.WellFormed) (available : Allocator) (key : Key)
    (value : α) :
    GivesUp d.config (d.insertKey available key value).departed ∧
      (d.insertKey available key value).dict.config = d.config := by
  rcases insertKey_cases hw available key value with ⟨e, u, h, -⟩ | ⟨u, h, -⟩ | ⟨old, u, h, -⟩
  · rw [h]
    exact ⟨givesUp_nil d.config, rfl⟩
  · rw [h]
    exact ⟨givesUp_nil d.config, rfl⟩
  · rw [h]
    exact ⟨givesUp_singleton d.config old.value, rfl⟩

/-- Insertions in a row give up the values replaced. -/
theorem givesUp_insertAll (hw : d.table.WellFormed) (available : Allocator)
    (pairs : List (Bytes × α)) : GivesUp d.config (d.insertAll available pairs).departed := by
  induction pairs generalizing d with
  | nil => exact givesUp_nil d.config
  | cons pair rest ih =>
    have hfirst : GivesUp d.config (d.insert available pair.1 pair.2).departed ∧
        (d.insert available pair.1 pair.2).dict.config = d.config := givesUp_insertKey hw ..
    have hnext := wellFormed_insert hw available pair.1 pair.2
    rw [insertAll]
    generalize d.insert available pair.1 pair.2 = effect at hfirst hnext
    obtain ⟨_ | _, next, departed⟩ := effect
    · exact hfirst.1
    · -- The configuration is that of the start throughout.
      obtain ⟨⟨given, hgiven⟩, hconfig⟩ := hfirst
      obtain ⟨later, hlater⟩ := ih hnext
      refine ⟨given ++ later, ?_⟩
      show departed ++ (next.insertAll available rest).departed = _
      rw [hlater, List.map_append, ← hgiven, show next.config = d.config from hconfig]

/-- What a removal or a draining walk parts with has no receiver, and the caller has it. -/
theorem departed_of_takesOut (hw : d.table.WellFormed) {call : Call ρ σ α}
    (h : call.takesOut = true) :
    (d.perform call).departed = (d.taken call).map (Departure.mk · none) := by
  cases call with
  | request request =>
    cases request with
    | remove available key =>
      show (d.remove available key).departed = _
      rw [taken]
      rcases remove_cases hw available key with ⟨e, heq⟩ | ⟨slot, u, heq, -⟩
      · rw [heq]
        rfl
      · rw [heq]
        rfl
    | drain => rfl
    | _ => cases h
  | _ => cases h

/-- What any other call parts with is given up, to the receiver there is. -/
theorem givesUp_perform (hw : d.table.WellFormed) {call : Call ρ σ α} (h : call.takesOut = false) :
    GivesUp d.config (d.perform call).departed := by
  cases call with
  | request request =>
    cases request with
    | insert available key value => exact (givesUp_insertKey hw ..).1
    | insertKey available key value => exact (givesUp_insertKey hw ..).1
    | delete available key =>
      show GivesUp d.config (d.delete available key).departed
      rw [delete_eq_remove]
      rcases remove_cases hw available key with ⟨e, heq⟩ | ⟨slot, u, heq, -⟩
      · rw [heq]
        exact givesUp_nil d.config
      · rw [heq]
        exact givesUp_singleton d.config slot.item.value
    | remove => cases h
    | retain visit state =>
      refine ⟨(d.table.retain (visitEntry visit) state).removed.map Entry.value, ?_⟩
      show (d.table.retain (visitEntry visit) state).removed.map
        (fun entry => d.config.givenUp entry.value) = _
      rw [List.map_map]
      rfl
    | clear => exact ⟨d.values, rfl⟩
    | drain => cases h
    | extend available expected pairs =>
      have hroom := Table.rehash_reserve hw available expected
      show GivesUp d.config (d.extendBy available expected pairs).departed
      rw [extendBy, reserve_eq_reserve]
      generalize d.table.reserve available expected = outcome at hroom
      obtain ⟨_ | _, u⟩ := outcome
      · exact givesUp_nil d.config
      · exact givesUp_insertAll (d := ⟨u, d.config⟩) hroom.wellFormed available pairs
    | _ => exact givesUp_nil d.config
  | _ => exact givesUp_nil d.config

/-- A call that does not take values out for the caller takes out none. -/
theorem taken_of_not_takesOut {call : Call ρ σ α} (h : call.takesOut = false) :
    d.taken call = [] := by
  cases call with
  | request request =>
    cases request with
    | remove => cases h
    | drain => cases h
    | _ => rfl
  | _ => rfl

/-! ## Calls that fail -/

/-- An insertion that fails parts with no value. -/
theorem departed_insertKey_of_error (hw : d.table.WellFormed) {available : Allocator} {key : Key}
    {value : α} {e : Error} (h : (d.insertKey available key value).answer = .error e) :
    (d.insertKey available key value).departed = [] := by
  rcases insertKey_cases hw available key value with ⟨e', u, heq, -⟩ | ⟨u, heq, -⟩ |
    ⟨old, u, heq, -⟩
  · rw [heq]
  · rw [heq]
  · rw [heq] at h
    cases h

/-- A removal or deletion that fails parts with no value. -/
theorem departed_remove_of_error (hw : d.table.WellFormed) {available : Allocator} {key : Bytes}
    {e : Error} :
    ((d.remove available key).answer = .error e → (d.remove available key).departed = []) ∧
      ((d.delete available key).answer = .error e → (d.delete available key).departed = []) := by
  rw [delete_eq_remove]
  rcases remove_cases hw available key with ⟨e', heq⟩ | ⟨slot, u, heq, -⟩
  · rw [heq]
    exact ⟨fun _ => rfl, fun _ => rfl⟩
  · rw [heq]
    constructor
    · intro h
      cases h
    · intro h
      cases h

/-- Insertions in a row that fail part with what those before the failing one part with. -/
theorem insertAll_of_error (hw : d.table.WellFormed) {available : Allocator}
    {pairs : List (Bytes × α)} {e : Error} (h : (d.insertAll available pairs).answer = .error e) :
    ∃ done pair rest, pairs = done ++ pair :: rest ∧
      (d.insertAll available done).answer = .ok () ∧
      ((d.insertAll available done).dict.insert available pair.1 pair.2).answer = .error e ∧
      (d.insertAll available pairs).departed = (d.insertAll available done).departed := by
  induction pairs generalizing d with
  | nil => cases h
  | cons pair rest ih =>
    have hfirst : ∀ {e}, (d.insert available pair.1 pair.2).answer = .error e →
        (d.insert available pair.1 pair.2).departed = [] := departed_insertKey_of_error hw
    have hnext := wellFormed_insert hw available pair.1 pair.2
    rw [insertAll] at h ⊢
    cases hinsert : d.insert available pair.1 pair.2 with
    | mk answer next departed =>
      rw [hinsert] at h hfirst hnext
      cases answer with
      | error e' =>
        obtain rfl : e' = e := Except.error.inj h
        exact ⟨[], pair, rest, rfl, rfl, by rw [insertAll, hinsert], hfirst rfl⟩
      | ok old =>
        obtain ⟨done, failing, rest', rfl, hdone, hfails, hdeparted⟩ := ih hnext h
        refine ⟨pair :: done, failing, rest', rfl, ?_⟩
        rw [insertAll, hinsert]
        exact ⟨hdone, hfails, congrArg (departed ++ ·) hdeparted⟩

/-- So it is when room is made for the pairs first, unless that fails. -/
theorem extendBy_of_error (hw : d.table.WellFormed) {available : Allocator} {expected : ℕ}
    {pairs : List (Bytes × α)} {e : Error}
    (h : (d.extendBy available expected pairs).answer = .error e) :
    ((d.reserve available expected).answer = .error e ∧
      (d.extendBy available expected pairs).departed = []) ∨
    ∃ done pair rest, pairs = done ++ pair :: rest ∧
      (d.extendBy available expected done).answer = .ok () ∧
      ((d.extendBy available expected done).dict.insert available pair.1 pair.2).answer = .error e ∧
      (d.extendBy available expected pairs).departed
        = (d.extendBy available expected done).departed := by
  have hroom := (Table.rehash_reserve hw available expected).wellFormed
  unfold extendBy at h ⊢
  rw [reserve_eq_reserve] at h ⊢
  generalize d.table.reserve available expected = outcome at h hroom
  obtain ⟨_ | _, u⟩ := outcome
  · exact Or.inl ⟨h, rfl⟩
  · exact Or.inr (insertAll_of_error (d := ⟨u, d.config⟩) hroom h)

/-- A call that fails parts with no value, unless it inserts several pairs. -/
theorem departed_of_error (hw : d.table.WellFormed) {call : Call ρ σ α}
    (hone : call.isExtend = false) {e : Error} (h : (d.perform call).answer = .error e) :
    (d.perform call).departed = [] := by
  cases call with
  | request request =>
    cases request with
    | insert available key value =>
      exact departed_insertKey_of_error hw (eq_error_of_map_eq_error h)
    | insertKey available key value =>
      exact departed_insertKey_of_error hw (eq_error_of_map_eq_error h)
    | delete available key =>
      exact (departed_remove_of_error hw).2 (eq_error_of_map_eq_error h)
    | remove available key =>
      exact (departed_remove_of_error hw).1 (eq_error_of_map_eq_error h)
    | retain => cases h
    | clear => cases h
    | drain => cases h
    | extend => cases hone
    | _ => rfl
  | _ => rfl

end Dict

end OpenAddressing
