import OpenAddressing.Proofs.Dict.Calls

/-!
# What a call does to the values

An account is kept of the values that enter a dictionary. `Dict.posting` says what a call enters in
it: the value of an insertion that succeeds, those of several insertions up to the first that fails,
and, where values are changed in place, the new values for the old ones. `Posting.Balances` is what
the call owes in return: the values then stored, those that left and those struck out are together
the values stored before and those entered. Every call balances, whatever the rules on keys are
(`balances_perform`).

In terms of the table an insertion puts one entry in the place of another or adds one, so that the
balance is read off its contents (`coe_values`). A walk that keeps some of the entries visits each
of them once, and what the visits keep and what they remove make up the values they leave
(`coe_visitValues`).
-/

namespace OpenAddressing

universe u v w

/-- What a call enters in the account of the values, and what it strikes out. -/
structure Posting (α : Type u) where
  /-- The values struck out. -/
  struck : Multiset α
  /-- The values entered. -/
  entered : Multiset α

namespace Departure

variable {ρ : Type v} {α : Type u}

/-- The values that left, in no order. -/
def values (departed : List (Departure ρ α)) : Multiset α := (departed.map value : List α)

/-- They are those of the departures in no order. -/
theorem values_eq_map (departed : List (Departure ρ α)) :
    values departed = (departed : Multiset (Departure ρ α)).map value := rfl

@[simp] theorem values_nil : values ([] : List (Departure ρ α)) = 0 := rfl

@[simp] theorem values_singleton (departure : Departure ρ α) :
    values [departure] = {departure.value} := rfl

@[simp] theorem values_append (earlier later : List (Departure ρ α)) :
    values (earlier ++ later) = values earlier + values later := by
  rw [values, List.map_append, ← Multiset.coe_add]
  rfl

end Departure

namespace Posting

variable {ρ : Type v} {α : Type u} {p : Posting α} {before after : Multiset α}
  {departed : List (Departure ρ α)}

/-- Nothing is entered or struck out. -/
def nothing : Posting α := ⟨0, 0⟩

/-- A value is entered if its insertion succeeds. -/
def ofAnswer {β : Type w} (value : α) : Except Error β → Posting α
  | .ok _ => ⟨0, {value}⟩
  | .error _ => nothing

/-- The value found is struck out for what `f` makes of it. -/
def ofFound (f : α → α) : Option α → Posting α
  | some value => ⟨{value}, {f value}⟩
  | none => nothing

/-- The posting turns one account into another. -/
def Turns (p : Posting α) (account account' : Multiset α) : Prop :=
  ∃ rest, account = p.struck + rest ∧ account' = p.entered + rest

/-- What a posting owes the values stored before and after a call and those that left. -/
structure Balances (p : Posting α) (before after : Multiset α) (departed : List (Departure ρ α)) :
    Prop where
  /-- Only values that are stored are struck out. -/
  struck_le : p.struck ≤ before
  /-- What is stored and what left, with what was struck out, is what was stored and what was
  entered. -/
  balance : after + Departure.values departed + p.struck = before + p.entered

/-- A call that neither changes the values nor parts with one owes nothing. -/
theorem balances_nothing (h : after = before) :
    (nothing : Posting α).Balances before after ([] : List (Departure ρ α)) := by
  refine ⟨Multiset.zero_le _, ?_⟩
  rw [h, Departure.values_nil, add_zero]
  rfl

/-- One call after another that only enters values. -/
theorem Balances.trans {middle entered entered' : Multiset α} {departed' : List (Departure ρ α)}
    (h : (⟨0, entered⟩ : Posting α).Balances before middle departed)
    (h' : (⟨0, entered'⟩ : Posting α).Balances middle after departed') :
    (⟨0, entered + entered'⟩ : Posting α).Balances before after (departed ++ departed') := by
  have hfirst : middle + Departure.values departed + 0 = before + entered := h.balance
  have hsecond : after + Departure.values departed' + 0 = middle + entered' := h'.balance
  rw [add_zero] at hfirst hsecond
  refine ⟨Multiset.zero_le _, ?_⟩
  calc after + Departure.values (departed ++ departed') + 0
      = after + Departure.values departed' + Departure.values departed := by
        rw [add_zero, Departure.values_append, add_assoc, add_comm (Departure.values departed')]
    _ = middle + Departure.values departed + entered' := by rw [hsecond, add_right_comm]
    _ = before + (entered + entered') := by rw [hfirst, add_assoc]

/-- An account of what is stored and what left turns into the account of what is then stored and
what has then left, and into no other. -/
theorem Balances.turns_iff (h : p.Balances before after departed) (left account : Multiset α) :
    p.Turns (before + left) account ↔ account = after + (Departure.values departed + left) := by
  obtain ⟨kept, hkept⟩ := Multiset.le_iff_exists_add.1 h.struck_le
  -- Without the values struck out, the balance is that of the values kept.
  have hafter : after + Departure.values departed = kept + p.entered := by
    have hbalance := h.balance
    rw [hkept, add_comm p.struck kept, add_right_comm kept] at hbalance
    exact add_right_cancel hbalance
  have hrest : ∀ rest, before + left = p.struck + rest ↔ rest = kept + left := fun rest => by
    rw [hkept, add_assoc, add_right_inj, eq_comm]
  constructor
  · rintro ⟨rest, haccount, rfl⟩
    rw [(hrest rest).1 haccount, ← add_assoc after, hafter, ← add_assoc, add_comm p.entered]
  · rintro rfl
    refine ⟨kept + left, (hrest _).2 rfl, ?_⟩
    rw [← add_assoc after, hafter, ← add_assoc, add_comm p.entered]

end Posting

/-- The values of entries as visits leave them, whether they keep them or not. -/
def visitValues {σ : Type w} {α : Type u} (visit : Bytes → α → σ → Verdict α × σ) :
    List (Entry α) → σ → List α
  | [], _ => []
  | e :: rest, state =>
    let visited := visitEntry visit e state
    visited.1.item.value :: visitValues visit rest visited.2

/-- Every value visited is kept or removed, as the visit leaves it. -/
theorem coe_visitValues {σ : Type w} {α : Type u} (visit : Bytes → α → σ → Verdict α × σ)
    (slots : List (Slot (Entry α))) (state : σ) :
    ((visitAll (visitEntry visit) slots state).kept.map (fun slot => slot.item.value)
        : Multiset α) + ((visitAll (visitEntry visit) slots state).removed.map Entry.value : List α)
      = visitValues visit (slots.map Slot.item) state := by
  induction slots generalizing state with
  | nil => rfl
  | cons slot rest ih =>
    have hrest := ih (visitEntry visit slot.item state).2
    rw [List.map_cons, visitValues, ← Multiset.cons_coe, ← hrest]
    cases hkeep : (visitEntry visit slot.item state).1.keep with
    | true =>
      rw [visitAll_cons_of_keep hkeep, List.map_cons, ← Multiset.cons_coe, Multiset.cons_add]
    | false =>
      rw [visitAll_cons_of_not_keep hkeep, List.map_cons, ← Multiset.cons_coe, Multiset.add_cons]

namespace Dict

variable {ρ : Type v} {σ : Type w} {α : Type u} {d : Dict ρ α}

/-! ## The postings -/

/-- The values that insertions in a row enter, up to the first that fails. -/
def entersAll (d : Dict ρ α) (available : Allocator) : List (Bytes × α) → Multiset α
  | [] => 0
  | (key, value) :: rest =>
    match d.insert available key value with
    | ⟨.error _, _, _⟩ => 0
    | ⟨.ok _, d, _⟩ => value ::ₘ d.entersAll available rest

/-- What a call enters in the account, and what it strikes out. -/
def posting (d : Dict ρ α) : Call ρ σ α → Posting α
  | .request (.insert available key value) => .ofAnswer value (d.insert available key value).answer
  | .request (.insertKey available key value) =>
    .ofAnswer value (d.insertKey available key value).answer
  | .request (.extend available expected pairs) =>
    match d.reserve available expected with
    | ⟨.error _, _⟩ => .nothing
    | ⟨.ok _, d⟩ => ⟨0, d.entersAll available pairs⟩
  | .request (.modify key f) => .ofFound f (d.get? key)
  | .request (.retain visit state) =>
    ⟨d.values, visitValues visit (d.table.visitOrder.map Slot.item) state⟩
  | .rewrite fs => ⟨d.values.take fs.length, List.zipWith (fun value f => f value) d.values fs⟩
  | _ => .nothing

/-- The values in no order are those of the contents of the table. -/
theorem coe_values (d : Dict ρ α) :
    (d.values : Multiset α) = d.table.contents.map fun slot => slot.item.value := by
  rw [← Table.coe_entries, Multiset.map_coe, values, entries, Table.items, List.map_map]
  rfl

/-- Tables with the same entries hold the same values. -/
theorem coe_values_of_rehash {u : Table (Entry α)} (h : Table.Rehash d.table u) (c : Config ρ) :
    ((⟨u, c⟩ : Dict ρ α).values : Multiset α) = d.values := by
  rw [coe_values, coe_values, h.contents]

/-- Tables that differ by one entry put in the place of another hold the same values but for those
two. -/
theorem coe_values_add_singleton {u : Table (Entry α)} {old new : Slot (Entry α)}
    (h : old ::ₘ u.contents = new ::ₘ d.table.contents) (c : Config ρ) :
    ((⟨u, c⟩ : Dict ρ α).values : Multiset α) + {old.item.value} = d.values + {new.item.value} := by
  have hvalues := congrArg (Multiset.map fun slot => slot.item.value) h
  rw [Multiset.map_cons, Multiset.map_cons] at hvalues
  rw [coe_values, coe_values, add_comm, Multiset.singleton_add, add_comm, Multiset.singleton_add]
  exact hvalues

/-- What an operation leaves and parts with balances the posting. -/
abbrev Effect.Balances {β : Type*} (effect : Effect ρ α β) (d : Dict ρ α) (p : Posting α) : Prop :=
  p.Balances d.values effect.dict.values effect.departed

/-- An insertion balances. -/
theorem balances_insertKey (hw : d.table.WellFormed) (available : Allocator) (key : Key)
    (value : α) :
    (d.insertKey available key value).Balances d
      (.ofAnswer value (d.insertKey available key value).answer) := by
  rcases insertKey_cases hw available key value with ⟨e, u, h, hre⟩ | ⟨u, h, hcontents⟩ |
    ⟨old, u, h, hcontents⟩
  · rw [h]
    exact Posting.balances_nothing (coe_values_of_rehash hre d.config)
  · rw [h]
    refine ⟨Multiset.zero_le _, ?_⟩
    show ((⟨u, d.config⟩ : Dict ρ α).values : Multiset α) + 0 + 0 = d.values + {value}
    rw [add_zero, add_zero, coe_values, coe_values, hcontents, Multiset.map_cons, add_comm,
      Multiset.singleton_add]
  · rw [h]
    refine ⟨Multiset.zero_le _, ?_⟩
    show ((⟨u, d.config⟩ : Dict ρ α).values : Multiset α) + {old.value} + 0 = d.values + {value}
    rw [add_zero]
    exact coe_values_add_singleton hcontents d.config

/-- So does one that stores the key as the settings say. -/
theorem balances_insert (hw : d.table.WellFormed) (available : Allocator) (key : Bytes)
    (value : α) :
    (d.insert available key value).Balances d
      (.ofAnswer value (d.insert available key value).answer) := by
  obtain ⟨stored, -, hinsert⟩ := d.exists_insert_eq_insertKey available key value
  rw [hinsert]
  exact balances_insertKey hw available stored value

/-- Insertions in a row balance. -/
theorem balances_insertAll (hw : d.table.WellFormed) (available : Allocator)
    (pairs : List (Bytes × α)) :
    (d.insertAll available pairs).Balances d ⟨0, d.entersAll available pairs⟩ := by
  induction pairs generalizing d with
  | nil => exact Posting.balances_nothing rfl
  | cons pair rest ih =>
    -- If the first insertion fails, the rest is not tried.
    have hfirst := balances_insert hw available pair.1 pair.2
    have hnext := wellFormed_insert hw available pair.1 pair.2
    rw [insertAll, entersAll]
    generalize d.insert available pair.1 pair.2 = effect at hfirst hnext
    obtain ⟨_ | _, next, departed⟩ := effect
    · exact hfirst
    · exact hfirst.trans (ih hnext)

/-- Making room and inserting in a row balances. -/
theorem balances_extendBy (hw : d.table.WellFormed) (available : Allocator) (expected : ℕ)
    (pairs : List (Bytes × α)) :
    (d.extendBy available expected pairs).Balances d
      (d.posting (.request (.extend available expected pairs) : Call ρ σ α)) := by
  have hroom := Table.rehash_reserve hw available expected
  rw [extendBy, posting, reserve_eq_reserve]
  generalize d.table.reserve available expected = outcome at hroom
  obtain ⟨_ | _, u⟩ := outcome
  · exact Posting.balances_nothing (coe_values_of_rehash hroom d.config)
  · have hall := balances_insertAll (d := ⟨u, d.config⟩) hroom.wellFormed available pairs
    have hvalues := coe_values_of_rehash hroom d.config
    unfold Effect.Balances at hall ⊢
    rwa [hvalues] at hall

/-- A removal balances, and so does a deletion. -/
theorem balances_remove (hw : d.table.WellFormed) (available : Allocator) (key : Bytes) :
    (d.remove available key).Balances d .nothing ∧
      (d.delete available key).Balances d .nothing := by
  rw [delete_eq_remove]
  rcases remove_cases hw available key with ⟨e, h⟩ | ⟨slot, u, h, hcontents⟩
  · rw [h]
    exact ⟨Posting.balances_nothing rfl, Posting.balances_nothing rfl⟩
  · have hbalance : ((⟨u, d.config⟩ : Dict ρ α).values : Multiset α) + {slot.item.value} + 0
        = d.values + 0 := by
      rw [coe_values, coe_values, ← hcontents, Multiset.map_cons, add_zero, add_zero, add_comm,
        Multiset.singleton_add]
    rw [h]
    exact ⟨⟨Multiset.zero_le _, hbalance⟩, Multiset.zero_le _, hbalance⟩

/-- Rewriting the value of a key balances. -/
theorem balances_modify (hw : d.table.WellFormed) (key : Bytes) (f : α → α) :
    (Posting.ofFound f (d.get? key)).Balances d.values (d.modify key f).2.values
      ([] : List (Departure ρ α)) := by
  rcases modify_cases hw key f with ⟨hget, h⟩ | ⟨slot, hslot, u, hget, h, hcontents⟩
  · rw [hget, h]
    exact Posting.balances_nothing rfl
  · rw [hget, h]
    constructor
    -- The value found is stored.
    · rw [coe_values]
      exact Multiset.singleton_le.2 (Multiset.mem_map_of_mem _ hslot)
    · show ((⟨u, d.config⟩ : Dict ρ α).values : Multiset α) + 0 + {slot.item.value}
        = d.values + {f slot.item.value}
      rw [add_zero]
      exact coe_values_add_singleton hcontents d.config

/-- Keeping some of the entries balances: every value is visited once. -/
theorem balances_retain (hw : d.table.WellFormed) (visit : Bytes → α → σ → Verdict α × σ)
    (state : σ) :
    (⟨d.values, visitValues visit (d.table.visitOrder.map Slot.item) state⟩ : Posting α).Balances
      d.values (d.retain visit state).dict.values (d.retain visit state).departed := by
  have hvisits := Table.retain_spec hw (visitEntry visit) state
  have hvalues := coe_visitValues visit d.table.visitOrder state
  have hkept : ((d.retain visit state).dict.values : Multiset α)
      = (visitAll (visitEntry visit) d.table.visitOrder state).kept.map
        fun slot => slot.item.value := by
    rw [coe_values]
    show (d.table.retain (visitEntry visit) state).table.contents.map _ = _
    rw [hvisits.contents, zero_add, Multiset.map_coe]
  have hremoved : Departure.values (d.retain visit state).departed
      = (visitAll (visitEntry visit) d.table.visitOrder state).removed.map Entry.value := by
    show Departure.values ((d.table.retain (visitEntry visit) state).removed.map
      fun entry => d.config.givenUp entry.value) = _
    rw [hvisits.removed_eq, List.nil_append, Departure.values, List.map_map]
    rfl
  refine ⟨le_refl _, ?_⟩
  rw [hkept, hremoved, hvalues]
  exact add_comm ..

/-- A walk that rewrites values rewrites the first ones in slot order. -/
theorem values_rewriteValues (d : Dict ρ α) (fs : List (α → α)) :
    (d.rewriteValues fs).values = rewriteEach fs d.values := by
  have hlift : (fs.map Entry.onValue).map Slot.onItem
      = fs.map fun f => Slot.onItem (Entry.onValue f) := List.map_map
  have hread : ∀ e : Dict ρ α, e.values = e.table.entries.map fun slot => slot.item.value :=
    fun e => List.map_map
  rw [hread, hread]
  show (d.table.mapEach (fs.map Entry.onValue)).entries.map _ = _
  rw [Table.entries_mapEach, hlift]
  exact map_rewriteEach (fun _ _ => rfl) fs d.table.entries

/-- A walk that rewrites values balances. -/
theorem balances_rewriteValues (d : Dict ρ α) (fs : List (α → α)) :
    (d.posting (.rewrite fs : Call ρ σ α)).Balances d.values (d.rewriteValues fs).values
      ([] : List (Departure ρ α)) := by
  have hsplit : (d.values : Multiset α)
      = (d.values.take fs.length : Multiset α) + (d.values.drop fs.length : List α) := by
    rw [Multiset.coe_add, List.take_append_drop]
  constructor
  · rw [hsplit]
    exact Multiset.le_add_right _ _
  · rw [values_rewriteValues, rewriteEach, ← Multiset.coe_add, Departure.values_nil, add_zero]
    show (List.zipWith (fun value f => f value) d.values fs : Multiset α)
      + (d.values.drop fs.length : List α) + (d.values.take fs.length : List α)
        = d.values + (List.zipWith (fun value f => f value) d.values fs : List α)
    rw [add_assoc, add_comm ((d.values.drop fs.length : List α) : Multiset α), ← hsplit, add_comm]

/-- A dictionary without its entries stores no value. -/
theorem values_clear (d : Dict ρ α) : (⟨d.table.clear, d.config⟩ : Dict ρ α).values = [] := by
  show (d.table.clear.entries.map Slot.item).map Entry.value = []
  rw [Table.entries_clear]
  rfl

/-- Giving up or handing over every value balances. -/
theorem balances_clear (d : Dict ρ α) (receiver : α → Option ρ) :
    (Posting.nothing : Posting α).Balances d.values
      (⟨d.table.clear, d.config⟩ : Dict ρ α).values
      (d.values.map fun value => ⟨value, receiver value⟩) := by
  have hleft : (d.values.map fun value => (⟨value, receiver value⟩ : Departure ρ α)).map
      Departure.value = d.values := by
    rw [List.map_map]
    exact List.map_id _
  refine ⟨Multiset.zero_le _, ?_⟩
  rw [values_clear, Departure.values, hleft, Multiset.coe_nil, zero_add]
  rfl

/-- Replacing a rule balances. -/
theorem balances_replaceRule (d : Dict ρ α) (what : String) (change : KeyRules → KeyRules) :
    (Posting.nothing : Posting α).Balances d.values (d.replaceRule what change).state.values
      ([] : List (Departure ρ α)) := by
  refine Posting.balances_nothing ?_
  rw [coe_values, coe_values, table_replaceRule]

/-- Every call balances its posting, whatever the rules on keys are. -/
theorem balances_perform (hw : d.table.WellFormed) (call : Call ρ σ α) :
    (d.perform call).Balances d (d.posting call) := by
  cases call with
  | request request =>
    cases request with
    | insert available key value => exact balances_insert hw available key value
    | insertKey available key value => exact balances_insertKey hw available key value
    | get => exact Posting.balances_nothing rfl
    | modify key f => exact balances_modify hw key f
    | contains => exact Posting.balances_nothing rfl
    | locate => exact Posting.balances_nothing rfl
    | delete available key => exact (balances_remove hw available key).2
    | remove available key => exact (balances_remove hw available key).1
    | reserve available additional =>
      exact Posting.balances_nothing
        (coe_values_of_rehash (Table.rehash_reserve hw available additional) d.config)
    | shrinkToFit available =>
      exact Posting.balances_nothing
        (coe_values_of_rehash (Table.rehash_shrinkToFit hw available) d.config)
    | retain visit state => exact balances_retain hw visit state
    | clear => exact balances_clear d _
    | drain => exact balances_clear d _
    | extend available expected pairs => exact balances_extendBy hw available expected pairs
    | setSettings => exact Posting.balances_nothing rfl
  | rewrite fs => exact balances_rewriteValues d fs
  | setRelease => exact Posting.balances_nothing rfl
  | setHash => exact balances_replaceRule d _ _
  | setSize => exact balances_replaceRule d _ _
  | setEqual => exact balances_replaceRule d _ _

end Dict

end OpenAddressing
