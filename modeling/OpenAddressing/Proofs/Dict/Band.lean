import OpenAddressing.Proofs.Dict.Ceiling

/-!
# The load of a dictionary stays in the band

A dictionary under the policy that grows and shrinks is tended by insertions, lookups, rewriting of
values, deletions, removals and shrinking to fit. Its table then stays in the band of
`Table.Banded`, as long as the halves of the slots that removals ask for can be obtained
(`Tended.inBand`); other slots may be refused.
-/

namespace OpenAddressing

universe u v w

namespace Dict

variable {ρ : Type v} {σ : Type w} {α : Type u} {d : Dict ρ α}

/-- Half of the slots can be obtained, if a removal takes an entry out and the table is to shrink
then. -/
def Spares (d : Dict ρ α) (available : Allocator) (key : Bytes) : Prop :=
  (∃ value, (d.remove available key).answer = .ok value) →
    d.table.adjustment (d.size - 1) .growAndShrink = .shrink → available (d.capacity / 2) = true

/-- A call is one of those that tend a dictionary: an insertion, a lookup, rewriting a value,
shrinking to fit, or a removal or deletion for which half of the slots can be obtained if it asks
for them. -/
def Tends (d : Dict ρ α) : Call ρ σ α → Prop
  | .request (.insert _ _ _) => True
  | .request (.insertKey _ _ _) => True
  | .request (.get _) => True
  | .request (.modify _ _) => True
  | .request (.contains _) => True
  | .request (.locate _) => True
  | .request (.delete available key) => d.Spares available key
  | .request (.remove available key) => d.Spares available key
  | .request (.shrinkToFit _) => True
  | _ => False

/-- The dictionaries that come about from a new one of the fewest slots, under the policy that grows
and shrinks, by calls that tend it. -/
inductive Tended : Dict ρ α → Prop where
  /-- A new dictionary of the fewest slots. -/
  | empty {settings : Settings} (hpolicy : settings.resize = .growAndShrink) :
      Tended (empty settings)
  /-- The dictionary that such a call leaves. -/
  | call {σ : Type u} {d : Dict ρ α} (hd : Tended d) (call : Call ρ σ α) (h : d.Tends call) :
      Tended (d.perform call).dict

/-- A dictionary that is tended comes about. -/
theorem Tended.reachable (h : d.Tended) : d.Reachable := by
  induction h with
  | empty => exact .empty _
  | call _ call _ ih => exact .call ih call

/-- The policy is the one that grows and shrinks, and the table is in the band. -/
structure InBand (d : Dict ρ α) : Prop where
  /-- The table grows and shrinks. -/
  policy : d.config.settings.resize = .growAndShrink
  /-- Its load is in the band. -/
  banded : d.table.Banded

namespace InBand

/-- An insertion keeps the load in the band. -/
theorem insertKey (h : d.InBand) (hd : d.Reachable) (available : Allocator) (key : Key)
    (value : α) : (d.insertKey available key value).dict.InBand := by
  rcases d.insertKey_or available key value with heq | ⟨hash, entry, eq, -, heq⟩
  · rw [heq]
    exact h
  · rw [heq, h.policy]
    exact ⟨h.policy,
      h.banded.insert hd.wellFormed available hash entry eq⟩

/-- So does a removal for which the slots it asks for can be obtained. -/
theorem remove (h : d.InBand) (hd : d.Reachable) {available : Allocator} {key : Bytes}
    (hspares : d.Spares available key) : (d.remove available key).dict.InBand := by
  unfold Spares at hspares
  rcases d.remove_or available key with heq | ⟨hash, eq, hanswer, heq⟩
  · rw [heq]
    exact h
  · rw [hanswer, h.policy] at hspares
    rw [heq, h.policy]
    refine ⟨h.policy, h.banded.remove hd.wellFormed hd.capacity_lt_limit ?_⟩
    rintro ⟨entry, hentry⟩
    rw [hentry] at hspares
    exact hspares ⟨entry.value, rfl⟩

/-- Every call that tends a dictionary keeps the load in the band. -/
theorem perform (h : d.InBand) (hd : d.Reachable) {call : Call ρ σ α} (hcall : d.Tends call) :
    (d.perform call).dict.InBand := by
  cases call with
  | request request =>
    cases request with
    | insert available key value => exact h.insertKey hd available _ value
    | insertKey available key value => exact h.insertKey hd available key value
    | get => exact h
    | modify key f =>
      obtain ⟨hsize, hcap, hconfig⟩ := d.sizes_modify key f
      have hceiling := h.banded.ceiling
      have hfloor := h.banded.floor
      rw [← hsize, ← hcap] at hceiling hfloor
      exact ⟨(congrArg (·.settings.resize) hconfig).trans h.policy, hceiling, hfloor⟩
    | contains => exact h
    | locate => exact h
    | delete available key =>
      have hdict := (d.delete_eq available key).2
      show (d.delete available key).dict.InBand
      rw [hdict]
      exact h.remove hd hcall
    | remove available key => exact h.remove hd hcall
    | shrinkToFit available => exact ⟨h.policy, h.banded.shrinkToFit hd.wellFormed available⟩
    | _ => exact hcall.elim
  | _ => exact hcall.elim

end InBand

/-- The load of a dictionary that is tended is in the band. -/
theorem Tended.inBand (h : d.Tended) : d.InBand := by
  induction h with
  | empty hpolicy => exact ⟨hpolicy, Table.banded_empty⟩
  | call hd call hcall ih => exact ih.perform hd.reachable hcall

/-- The load of a table or a dictionary that is tended is in the band: fewer than three quarters of
the slots are taken, and there are four slots or fewer than five for each entry. So neither is to
shrink further. -/
theorem banded_of_tended :
    (∀ t : Table α, t.Tended → t.Banded ∧ t.adjustment t.size .growAndShrink ≠ .shrink) ∧
    ∀ d : Dict ρ α, d.Tended →
      d.table.Banded ∧ d.table.adjustment d.size .growAndShrink ≠ .shrink := by
  constructor
  · intro t ht
    have hreach := ht.reachable
    exact ⟨ht.banded,
      ht.banded.adjustment_ne_shrink hreach.wellFormed hreach.capacity_lt_limit⟩
  · intro d hd
    have hreach := hd.reachable
    have hbanded := hd.inBand.banded
    exact ⟨hbanded, hbanded.adjustment_ne_shrink hreach.wellFormed hreach.capacity_lt_limit⟩

/-- A table that has grown to eight slots and is back at four, and a dictionary that has grown to
eight slots with one entry fewer. -/
theorem banded_of_grown_and_shrunk :
    (∃ t : Table ℕ, t.Tended ∧ t.size = 1 ∧ t.capacity = 4 ∧ t.Banded) ∧
    ∃ d : Dict ℕ ℕ, d.Tended ∧ d.size = 2 ∧ d.capacity = 8 ∧ d.table.Banded := by
  obtain ⟨htable, hdict⟩ := banded_of_tended (ρ := ℕ) (α := ℕ)
  constructor
  · have hadd : ∀ {t : Table ℕ} (n : ℕ), t.Tended →
        (t.insert (fun _ => true) .growAndShrink (UInt32.ofNat n) n (· == n)).state.Tended :=
      fun n ht => .call ht (.insert _ _ _ n _) rfl
    have htake : ∀ {t : Table ℕ} (n : ℕ), t.Tended →
        (t.remove (fun _ => true) .growAndShrink (UInt32.ofNat n) (· == n)).state.Tended :=
      fun n ht => .call ht (.remove _ _ _ _) ⟨rfl, fun _ _ => rfl⟩
    have ht := htake 1 (htake 2 (hadd 3 (hadd 2 (hadd 1 .empty))))
    exact ⟨_, ht, by decide +kernel, by decide +kernel, (htable _ ht).1⟩
  · have hadd : ∀ {d : Dict ℕ ℕ} (key : Bytes), d.Tended →
        (d.insert (fun _ => true) key 7).dict.Tended :=
      fun {d} key hd => .call hd (.request (.insert _ key 7) : Call ℕ ℕ ℕ) trivial
    have hnew : (.empty { resize := .growAndShrink } : Dict ℕ ℕ).Tended := .empty rfl
    have hd := hadd [99] (hadd [98] (hadd [97] hnew))
    have hgone := Tended.call hd (.request (.delete (fun _ => true) [98]) : Call ℕ ℕ ℕ)
      fun _ _ => rfl
    exact ⟨_, hgone, by decide +kernel, by decide +kernel, (hdict _ hgone).1⟩

end Dict

end OpenAddressing
