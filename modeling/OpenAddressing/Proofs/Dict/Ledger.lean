import OpenAddressing.Proofs.Dict.Departures
import OpenAddressing.Proofs.Dict.Posting

/-!
# Every value that enters is accounted for

Over calls one after another the postings make an account of the values that entered a dictionary
(`Dict.Books`). Since every call balances, the account is at every point what is then stored and
what has left until then (`books_iff`). Ending the dictionary gives up what is stored, so the values
that entered are then those that left.

While the dictionary owns its values under one disposal, all of them that are not taken out by the
caller go to its receiver (`departures_of_throughout`). `Dict.Accounts` puts this together for a run
of calls, and `accounts_of_reachable` proves it of every dictionary that comes about, whatever rules
it has and however they, its settings and its receiver change.
-/

namespace OpenAddressing

universe u v w

namespace Dict

variable {ρ : Type v} {σ : Type w} {α : Type u} {d : Dict ρ α}

/-! ## Runs -/

/-- The dictionary after calls one after another. -/
def after (d : Dict ρ α) (calls : List (Call ρ σ α)) : Dict ρ α :=
  calls.foldl (fun d call => (d.perform call).dict) d

/-- The values that leave during calls one after another, in order. -/
def departures (d : Dict ρ α) : List (Call ρ σ α) → List (Departure ρ α)
  | [] => []
  | call :: rest => (d.perform call).departed ++ (d.perform call).dict.departures rest

/-- The values taken out for the caller during calls one after another, in order. -/
def takenOut (d : Dict ρ α) : List (Call ρ σ α) → List α
  | [] => []
  | call :: rest => d.taken call ++ (d.perform call).dict.takenOut rest

/-- The account that calls one after another make of an account, posting by posting. -/
def Books (d : Dict ρ α) (account : Multiset α) : List (Call ρ σ α) → Multiset α → Prop
  | [], final => final = account
  | call :: rest, final =>
    ∃ next, (d.posting call).Turns account next ∧ (d.perform call).dict.Books next rest final

/-- The configuration satisfies `P` before the calls and after each of them. -/
def Throughout (d : Dict ρ α) (P : Config ρ → Prop) : List (Call ρ σ α) → Prop
  | [] => P d.config
  | call :: rest => P d.config ∧ (d.perform call).dict.Throughout P rest

/-- What holds of the configuration throughout holds of it at the end. -/
theorem Throughout.after {P : Config ρ → Prop} {calls : List (Call ρ σ α)}
    (h : d.Throughout P calls) : P (d.after calls).config := by
  induction calls generalizing d with
  | nil => exact h
  | cons call rest ih => exact ih h.2

/-! ## The account -/

/-- The account of what is stored and what left becomes that of what is stored and what left after
the calls. -/
theorem books_iff {σ : Type u} (hw : d.table.WellFormed) (calls : List (Call ρ σ α))
    (left account : Multiset α) :
    d.Books (d.values + left) calls account ↔
      account = (d.after calls).values + (Departure.values (d.departures calls) + left) := by
  induction calls generalizing d left with
  | nil =>
    rw [departures, Departure.values_nil, zero_add]
    rfl
  | cons call rest ih =>
    have hnext := wellFormed_perform hw call
    have hturns := (balances_perform hw call).turns_iff left
    rw [Books, departures, Departure.values_append]
    simp only [hturns, exists_eq_left]
    rw [ih hnext, add_comm (Departure.values _) (Departure.values _), add_assoc]
    rfl

/-- A run of calls keeps the table well formed. -/
theorem wellFormed_after {σ : Type u} (hw : d.table.WellFormed) (calls : List (Call ρ σ α)) :
    (d.after calls).table.WellFormed := by
  induction calls generalizing d with
  | nil => exact hw
  | cons call rest ih => exact ih (wellFormed_perform hw call)

/-! ## Who has them -/

/-- A dictionary that owns its values gives them up to its receiver. -/
theorem givenUp_of_ownsValues {c : Config ρ} {release : Release ρ} (howns : c.ownsValues = true)
    (hrelease : c.release = release) :
    (c.givenUp : α → Departure ρ α) = (Departure.mk · release.receiver?) := by
  funext value
  rw [Config.givenUp, if_pos howns, hrelease]

/-- While the dictionary owns its values under one disposal, those that leave go to its receiver,
except for those taken out. -/
theorem departures_of_throughout {σ : Type u} (hw : d.table.WellFormed) {release : Release ρ}
    {calls : List (Call ρ σ α)}
    (h : d.Throughout (fun c => c.ownsValues = true ∧ c.release = release) calls) :
    ∃ given : Multiset α, (d.departures calls : Multiset (Departure ρ α))
      = given.map (Departure.mk · release.receiver?)
        + (d.takenOut calls : Multiset α).map (Departure.mk · none) := by
  induction calls generalizing d with
  | nil => exact ⟨0, rfl⟩
  | cons call rest ih =>
    obtain ⟨⟨howns, hrelease⟩, hrest⟩ := h
    obtain ⟨later, hlater⟩ := ih (wellFormed_perform hw call) hrest
    rw [departures, takenOut, ← Multiset.coe_add, ← Multiset.coe_add, hlater, Multiset.map_add]
    -- A call either takes values out or gives them up.
    cases htakes : call.takesOut with
    | true =>
      refine ⟨later, ?_⟩
      rw [departed_of_takesOut hw htakes, ← Multiset.map_coe, add_left_comm]
    | false =>
      obtain ⟨given, hgiven⟩ := givesUp_perform hw htakes
      refine ⟨given + later, ?_⟩
      rw [hgiven, taken_of_not_takesOut htakes, givenUp_of_ownsValues howns hrelease,
        ← Multiset.map_coe, Multiset.map_add, add_assoc]
      rfl

/-- Ending a dictionary parts with the values stored. -/
theorem values_dispose (d : Dict ρ α) : Departure.values d.dispose = d.values := by
  rw [Departure.values, dispose, List.map_map]
  exact congrArg _ (List.map_id _)

/-- What the ledger of a run of calls says, after which the dictionary ends. -/
structure Accounts (d : Dict ρ α) (calls : List (Call ρ σ α)) : Prop where
  /-- The account of the values that entered comes to those that are stored and those that left,
  and to nothing else. -/
  balanced : ∀ account, d.Books d.values calls account ↔
    account = (d.after calls).values + Departure.values (d.departures calls)
  /-- What a further removal or draining walk parts with has no receiver. -/
  taken : ∀ call : Call ρ σ α, call.takesOut = true →
    ((d.after calls).perform call).departed
      = ((d.after calls).taken call).map (Departure.mk · none)
  /-- What any other further call parts with goes to the receiver there is, if the dictionary owns
  its values, and to none otherwise. -/
  given : ∀ call : Call ρ σ α, call.takesOut = false →
    ∀ departure ∈ ((d.after calls).perform call).departed, departure.receiver =
      if (d.after calls).config.ownsValues then (d.after calls).config.release.receiver? else none
  /-- A further call to remove all entries leaves no value stored, and gives up those there were as
  the end of the dictionary would. -/
  cleared : ((d.after calls).perform (.request .clear : Call ρ σ α)).dict.values = [] ∧
    ((d.after calls).perform (.request .clear : Call ρ σ α)).departed = (d.after calls).dispose
  /-- A further call that fails parts with no value, unless it inserts several pairs. -/
  failed : ∀ (call : Call ρ σ α) e, call.isExtend = false →
    ((d.after calls).perform call).answer = .error e →
    ((d.after calls).perform call).departed = []
  /-- The insertion of several pairs, if it fails, parts with nothing for want of room, or with what
  the insertions before the failing one part with. -/
  failedPartWay : ∀ available expected pairs e,
    ((d.after calls).extendBy available expected pairs).answer = .error e →
    (((d.after calls).reserve available expected).answer = .error e ∧
      ((d.after calls).extendBy available expected pairs).departed = []) ∨
    ∃ done pair rest, pairs = done ++ pair :: rest ∧
      ((d.after calls).extendBy available expected done).answer = .ok () ∧
      (((d.after calls).extendBy available expected done).dict.insert available pair.1
        pair.2).answer = .error e ∧
      ((d.after calls).extendBy available expected pairs).departed
        = ((d.after calls).extendBy available expected done).departed
  /-- The end of the dictionary gives up what is stored in the same way, and then every value that
  entered has left, each once. -/
  ended : (∀ departure ∈ (d.after calls).dispose, departure.receiver = if
      (d.after calls).config.ownsValues then (d.after calls).config.release.receiver? else none) ∧
    ∀ account, d.Books d.values calls account →
      account = Departure.values (d.departures calls ++ (d.after calls).dispose)
  /-- If the dictionary owned its values under one disposal throughout, then each value that entered
  went to its receiver, once, or was taken out for the caller. -/
  released : ∀ release, d.Throughout (fun c => c.ownsValues = true ∧ c.release = release) calls →
    ∃ given : Multiset α, d.Books d.values calls (given + d.takenOut calls) ∧
      (↑(d.departures calls ++ (d.after calls).dispose) : Multiset (Departure ρ α))
        = given.map (Departure.mk · release.receiver?)
          + (d.takenOut calls : Multiset α).map (Departure.mk · none)

/-- Whatever the rules on keys are, and however they, the settings and the receiver change: every
value that enters is accounted for, and leaves once. -/
theorem accounts_of_reachable {σ : Type u} (h : d.Reachable) (calls : List (Call ρ σ α)) :
    d.Accounts calls := by
  have hw := h.wellFormed
  have hafter := wellFormed_after hw calls
  have hbooks : ∀ account, d.Books d.values calls account ↔
      account = (d.after calls).values + Departure.values (d.departures calls) := fun account => by
    have hiff := books_iff hw calls 0 account
    rwa [add_zero, add_zero] at hiff
  refine ⟨hbooks, fun _ htakes => departed_of_takesOut hafter htakes,
    fun _ htakes => (givesUp_perform hafter htakes).receiver, ⟨values_clear _, rfl⟩,
    fun _ _ hone => departed_of_error hafter hone,
    fun _ _ _ _ hfail => extendBy_of_error hafter hfail,
    ⟨GivesUp.receiver ⟨_, rfl⟩, fun account haccount => ?_⟩, fun release hthroughout => ?_⟩
  · rw [(hbooks account).1 haccount, Departure.values_append, values_dispose, add_comm]
  · obtain ⟨given, hgiven⟩ := departures_of_throughout hw hthroughout
    obtain ⟨howns, hrelease⟩ := hthroughout.after
    refine ⟨given + (d.after calls).values, (hbooks _).2 ?_, ?_⟩
    · rw [Departure.values_eq_map, hgiven, Multiset.map_add, Multiset.map_map, Multiset.map_map]
      simp only [Function.comp_def, Multiset.map_id']
      rw [← add_assoc, add_comm given]
    · rw [← Multiset.coe_add, hgiven, dispose, givenUp_of_ownsValues howns hrelease,
        Multiset.map_add, ← Multiset.map_coe, add_right_comm]

/-- Keys of one hash, under settings and receivers that change while values are stored: values leave
by overwriting, keeping, removing, deleting under the caller's ownership, draining, clearing and the
end. -/
theorem accounts_of_changes : ∃ (d : Dict ℕ ℕ) (calls : List (Call ℕ ℕ ℕ)),
    d.Reachable ∧ d.values = [] ∧
    d.departures calls = [⟨10, some 1⟩, ⟨1011, some 2⟩, ⟨14, none⟩, ⟨15, none⟩, ⟨16, none⟩,
      ⟨1112, none⟩, ⟨19, some 2⟩, ⟨18, some 2⟩] ∧
    (d.after calls).dispose = [⟨17, some 2⟩] ∧ d.Accounts calls := by
  refine ⟨.empty {}, [
    .setHash fun _ => 7,
    .setRelease (.handTo 1),
    .request (.setSettings { ownership := .value }),
    .request (.insert (fun _ => true) [97] 10),
    .request (.setSettings { ignoreCase := true, ownership := .value }),
    .request (.insert (fun _ => true) [65] 11),
    .request (.setSettings { ownership := .keyAndValue }),
    .request (.insert (fun _ => true) [98] 12),
    .setRelease (.handTo 2),
    .request (.modify [98] (· + 100)),
    .request (.insert (fun _ => true) [] 13),
    .request (.retain (fun key value count => (⟨key != [65], value + 1000⟩, count + 1)) 0),
    .request (.insert (fun _ => true) [99] 14),
    .request (.remove (fun _ => true) [99]),
    .request (.insert (fun _ => true) [100] 15),
    .request (.setSettings {}),
    .request (.delete (fun _ => true) [100]),
    .request (.insert (fun _ => true) [101] 16),
    .request (.drain 1),
    .request (.setSettings { ownership := .value }),
    .request (.insert (fun _ => true) [103] 18),
    .request (.insert (fun _ => true) [104] 19),
    .request .clear,
    .request (.setSettings {}),
    .request (.insert (fun _ => true) [102] 17),
    .setEqual fun _ _ => true,
    .request (.setSettings { ownership := .value })], .empty {}, rfl,
    by decide +kernel, by decide +kernel,
    accounts_of_reachable (.empty {}) _⟩

end Dict

end OpenAddressing
