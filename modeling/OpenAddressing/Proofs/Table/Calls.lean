import OpenAddressing.Proofs.Table.Sizes

/-!
# Runs of calls to a table

A call to a table comes with its arguments and with the slots that can be obtained during it.
`Table.perform` is what a table makes of one call, and `Table.after` what it makes of one call after
another. `additions` and `removals` count the entries that a run adds and takes out. Over a run of
insertions and removals the size changes by their difference (`size_after_add_removals`), whatever
is refused and however the table is resized.
-/

namespace OpenAddressing

universe u

namespace Table

variable {α : Type u} {t : Table α}

/-- A call to a table. -/
inductive Call (α : Type u) : Type (u + 1) where
  /-- Insert an item, in the place of one that is accepted. -/
  | insert (available : Allocator) (policy : ResizePolicy) (hash : UInt32) (item : α)
      (eq : α → Bool)
  /-- Look up an item. -/
  | find (hash : UInt32) (eq : α → Bool)
  /-- Take out an item. -/
  | remove (available : Allocator) (policy : ResizePolicy) (hash : UInt32) (eq : α → Bool)
  /-- Make room for further entries. -/
  | reserve (available : Allocator) (additional : ℕ)
  /-- Go down to the slots that fit. -/
  | shrinkToFit (available : Allocator)
  /-- Keep some of the entries. -/
  | retain {σ : Type u} (visit : α → σ → Verdict α × σ) (state : σ)
  /-- Remove all entries. -/
  | clear
  /-- Take out all entries. -/
  | drain

/-- Performs a call, and answers the item found, replaced or taken out, if any. -/
def perform (t : Table α) : Call α → Outcome (Table α) (Option α)
  | .insert available policy hash item eq => t.insert available policy hash item eq
  | .find hash eq => ⟨.ok (t.find? hash eq), t⟩
  | .remove available policy hash eq =>
    ⟨(t.remove available policy hash eq).answer.map some,
      (t.remove available policy hash eq).state⟩
  | .reserve available additional =>
    ⟨(t.reserve available additional).answer.map fun _ => none,
      (t.reserve available additional).state⟩
  | .shrinkToFit available => ⟨.ok none, t.shrinkToFit available⟩
  | .retain visit state => ⟨.ok none, (t.retain visit state).table⟩
  | .clear => ⟨.ok none, t.clear⟩
  | .drain => ⟨.ok none, t.drain.2⟩

/-- The table that one call after another leaves. -/
def after (t : Table α) : List (Call α) → Table α
  | [] => t
  | call :: rest => (t.perform call).state.after rest

/-- Whether a call adds an entry. -/
def adds (t : Table α) : Call α → Bool
  | .insert available policy hash item eq =>
    match (t.insert available policy hash item eq).answer with
    | .ok none => true
    | _ => false
  | _ => false

/-- Whether a call takes one entry out. -/
def takes (t : Table α) : Call α → Bool
  | .remove available policy hash eq =>
    match (t.remove available policy hash eq).answer with
    | .ok _ => true
    | .error _ => false
  | _ => false

/-- How many calls of a run add an entry. -/
def additions (t : Table α) : List (Call α) → ℕ
  | [] => 0
  | call :: rest => (t.adds call).toNat + (t.perform call).state.additions rest

/-- How many calls of a run take one entry out. -/
def removals (t : Table α) : List (Call α) → ℕ
  | [] => 0
  | call :: rest => (t.takes call).toNat + (t.perform call).state.removals rest

/-- A call is an insertion or a removal under this policy. -/
def Call.Updates (policy : ResizePolicy) : Call α → Prop
  | .insert _ policy' _ _ _ => policy' = policy
  | .remove _ policy' _ _ => policy' = policy
  | _ => False

/-! ## What runs keep -/

/-- A call leads to a table that comes about. -/
theorem Reachable.perform (h : t.Reachable) (call : Call α) : (t.perform call).state.Reachable := by
  cases call with
  | insert available policy hash item eq => exact .step h (.insert t available policy hash item eq)
  | find => exact h
  | remove available policy hash eq => exact .step h (.remove t available policy hash eq)
  | reserve available additional => exact .step h (.reserve t available additional)
  | shrinkToFit available => exact .step h (.shrinkToFit t available)
  | retain visit state => exact .step h (.retain t visit state)
  | clear => exact .step h (.clear t)
  | drain => exact .step h (.drain t)

/-- So do calls one after another. -/
theorem Reachable.after (h : t.Reachable) (calls : List (Call α)) : (t.after calls).Reachable := by
  induction calls generalizing t with
  | nil => exact h
  | cons call rest ih => exact ih (h.perform call)

/-- A run and then another are one run. -/
theorem after_append (t : Table α) (calls more : List (Call α)) :
    t.after (calls ++ more) = (t.after calls).after more := by
  induction calls generalizing t with
  | nil => rfl
  | cons call rest ih => exact ih (t.perform call).state

/-- No more entries are added by a run than it has calls. -/
theorem additions_le_length (t : Table α) (calls : List (Call α)) :
    t.additions calls ≤ calls.length := by
  induction calls generalizing t with
  | nil => exact Nat.le_refl 0
  | cons call rest ih =>
    have hrest := ih (t.perform call).state
    have hcall := Bool.toNat_le (t.adds call)
    rw [additions, List.length_cons]
    omega

/-! ## The size over a run -/

/-- An insertion or removal changes the size by the entry it adds or takes out. -/
theorem size_perform_add_takes (h : t.Reachable) {policy : ResizePolicy} {call : Call α}
    (hcall : call.Updates policy) :
    (t.perform call).state.size + (t.takes call).toNat = t.size + (t.adds call).toNat := by
  cases call with
  | insert available policy' hash item eq =>
    simp only [perform, takes, adds]
    rcases insert_sizes h.wellFormed available policy' hash item eq with ⟨old, u, heq, hsize, -⟩ |
      ⟨u, heq, hsize, -⟩ | ⟨e, u, heq, -, hsize, -⟩
    · rw [heq]
      exact hsize
    · rw [heq]
      exact hsize
    · rw [heq]
      exact hsize
  | remove available policy' hash eq =>
    simp only [perform, takes, adds]
    rcases remove_sizes h.wellFormed h.capacity_lt_limit available policy' hash eq with heq |
      ⟨item, u, heq, hsize, -⟩
    · rw [heq]
    · rw [heq]
      exact hsize
  | _ => exact hcall.elim

/-- Over a run of insertions and removals the size changes by the entries added and taken out. -/
theorem size_after_add_removals (h : t.Reachable) {policy : ResizePolicy} {calls : List (Call α)}
    (hcalls : ∀ call ∈ calls, call.Updates policy) :
    (t.after calls).size + t.removals calls = t.size + t.additions calls := by
  induction calls generalizing t with
  | nil => rfl
  | cons call rest ih =>
    obtain ⟨hcall, hrest⟩ := List.forall_mem_cons.1 hcalls
    have hfirst := size_perform_add_takes h hcall
    have hthen := ih (h.perform call) hrest
    calc (t.after (call :: rest)).size + t.removals (call :: rest)
        = ((t.perform call).state.after rest).size + (t.perform call).state.removals rest
          + (t.takes call).toNat := by rw [after, removals]; omega
      _ = (t.perform call).state.size + (t.takes call).toNat
          + (t.perform call).state.additions rest := by rw [hthen]; omega
      _ = t.size + t.additions (call :: rest) := by rw [hfirst, additions]; omega

end Table

end OpenAddressing
