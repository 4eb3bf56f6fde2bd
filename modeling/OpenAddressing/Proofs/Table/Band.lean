import OpenAddressing.Proofs.Table.Calls

/-!
# The load of a table stays in a band

Under a policy that grows, fewer than three quarters of the slots are taken (`BelowCeiling`): growth
comes before the entry that would reach that load, and shrinking, reserving and shrinking to fit go
to slots that stay below it. An insertion that adds an entry brings any table below, even a full one
(`belowCeiling_of_insert`).

Under a policy that also shrinks, more than a fifth of the slots are taken as well, or there are
only the fewest (`Banded`). A removal halves the slots at most once. That is enough, because before
it more than a fifth was taken: one entry fewer leaves at least `capacity - 4` in five times the
entries, more than half the slots unless those are the fewest (`Banded.remove`). Each call of a
table that is tended keeps it in the band, as long as the halves that removals ask for can be
obtained (`Tended.banded`).
-/

namespace OpenAddressing

universe u v

namespace Table

variable {α : Type u} {t : Table α} {policy : ResizePolicy}

/-! ## Below three quarters -/

/-- Fewer than three quarters of the slots are taken. -/
def BelowCeiling (t : Table α) : Prop := 4 * t.size < 3 * t.capacity

/-- A table that an insertion has doubled for one more entry is below three quarters. -/
theorem Doubled.belowCeiling {u : Table α} (h : Doubled t u) (hw : t.WellFormed)
    (hsize : u.size ≤ t.size + 1) : u.BelowCeiling := by
  have hfull := hw.size_le
  have hmin := hw.four_le
  calc 4 * u.size ≤ 4 * t.capacity + 4 := by omega
    _ < 3 * (2 * t.capacity) := by omega
    _ = 3 * u.capacity := by rw [h.capacity_eq]

/-- An insertion that adds an entry under a policy that grows leaves the table below three quarters,
whatever it was before. -/
theorem belowCeiling_of_insert (hw : t.WellFormed) (hgrows : policy.grows = true)
    {available : Allocator} {hash : UInt32} {item : α} {eq : α → Bool}
    (h : (t.insert available policy hash item eq).answer = .ok none) :
    (t.insert available policy hash item eq).state.BelowCeiling := by
  rcases insert_sizes hw available policy hash item eq with ⟨old, u, heq, -⟩ |
    ⟨u, heq, hsize, ⟨-, hkept⟩ | hdouble⟩ | ⟨e, u, heq, -⟩
  · rw [heq] at h
    cases h
  · rw [heq]
    exact hkept hgrows
  · rw [heq]
    exact hdouble.belowCeiling hw hsize.le
  · rw [heq] at h
    cases h

/-- Under a policy that grows an insertion is refused only for want of slots. -/
theorem exists_eq_allocation_of_insert (hw : t.WellFormed) (hgrows : policy.grows = true)
    {available : Allocator} {hash : UInt32} {item : α} {eq : α → Bool} {e : Error}
    (h : (t.insert available policy hash item eq).answer = .error e) :
    ∃ slots, e = .allocation slots := by
  rcases insert_sizes hw available policy hash item eq with ⟨old, u, heq, -⟩ | ⟨u, heq, -⟩ |
    ⟨e', u, heq, hrefusal, -⟩
  · rw [heq] at h
    cases h
  · rw [heq] at h
    cases h
  · rw [heq] at h
    obtain rfl := Except.error.inj h
    rcases hrefusal with ⟨-, ⟨rfl, -⟩ | ⟨rfl, -⟩⟩ | ⟨rfl, -⟩
    · exact ⟨_, rfl⟩
    · exact ⟨_, rfl⟩
    · cases hgrows

/-- A table without entries is below three quarters. -/
theorem belowCeiling_of_size_eq_zero (hw : t.WellFormed) (h : t.size = 0) : t.BelowCeiling := by
  have hmin := hw.four_le
  rw [BelowCeiling, h]
  omega

namespace BelowCeiling

/-- Every insertion under a policy that grows keeps a table below three quarters. -/
theorem insert (h : t.BelowCeiling) (hw : t.WellFormed) (hgrows : policy.grows = true)
    (available : Allocator) (hash : UInt32) (item : α) (eq : α → Bool) :
    (t.insert available policy hash item eq).state.BelowCeiling := by
  rcases insert_sizes hw available policy hash item eq with ⟨old, u, heq, hsize, hcap⟩ |
    ⟨u, heq, -⟩ | ⟨e, u, heq, -, hsize, hcap | hdouble⟩
  · rw [heq, BelowCeiling, hsize, hcap]
    exact h
  · exact belowCeiling_of_insert hw hgrows (congrArg Outcome.answer heq)
  · rw [heq, BelowCeiling, hsize, hcap]
    exact h
  · rw [heq]
    exact hdouble.belowCeiling hw (by omega)

/-- Every removal keeps a table below three quarters. -/
theorem remove (h : t.BelowCeiling) (hw : t.WellFormed) (hlimit : t.capacity < Count.limit)
    (available : Allocator) (policy : ResizePolicy) (hash : UInt32) (eq : α → Bool) :
    (t.remove available policy hash eq).state.BelowCeiling := by
  rcases remove_sizes hw hlimit available policy hash eq with heq |
    ⟨item, u, heq, hsize, ⟨hcap, -⟩ | ⟨-, hhalve⟩⟩
  · rw [heq]
    exact h
  · rw [heq]
    unfold BelowCeiling at h ⊢
    dsimp only
    omega
  · -- Two fifths are less than three quarters.
    have hload := hhalve.load
    have hmin := hhalve.four_le
    rw [heq]
    unfold BelowCeiling
    dsimp only
    omega

/-- Reserving keeps a table below three quarters. -/
theorem reserve (h : t.BelowCeiling) (hw : t.WellFormed) (available : Allocator)
    (additional : ℕ) : (t.reserve available additional).state.BelowCeiling := by
  unfold BelowCeiling at h ⊢
  rcases reserve_sizes hw available additional with ⟨u, heq, hsize, hcap, -⟩ |
    ⟨n, u, heq, hsize, hcap⟩
  · have hmore : t.capacity ≤ u.capacity := hcap ▸ Nat.le_max_left ..
    rw [heq]
    dsimp only
    omega
  · rw [heq, hsize, hcap]
    exact h

/-- Shrinking to fit keeps a table below three quarters. -/
theorem shrinkToFit (h : t.BelowCeiling) (hw : t.WellFormed) (available : Allocator) :
    (t.shrinkToFit available).BelowCeiling := by
  obtain ⟨hsize, hcap⟩ := shrinkToFit_sizes hw available
  unfold BelowCeiling at h ⊢
  rcases hcap with hcap | ⟨hcap, -⟩
  · rw [hsize, hcap]
    exact h
  · rw [hsize, hcap]
    exact (fits_fitting t.size).load

/-- Keeping some of the entries keeps a table below three quarters. -/
theorem retain {σ : Type v} (h : t.BelowCeiling) (hw : t.WellFormed)
    (visit : α → σ → Verdict α × σ) (state : σ) :
    (t.retain visit state).table.BelowCeiling := by
  have hsize := size_retain_le hw visit state
  have hcap := (retain_spec hw visit state).capacity_eq
  unfold BelowCeiling at h ⊢
  omega

end BelowCeiling

/-! ## The band -/

/-- Fewer than three quarters of the slots are taken and more than a fifth, unless there are only
four slots. -/
structure Banded (t : Table α) : Prop where
  /-- Fewer than three quarters of the slots are taken. -/
  ceiling : 4 * t.size < 3 * t.capacity
  /-- There are four slots, or fewer than five for each entry. -/
  floor : t.capacity = 4 ∨ t.capacity < 5 * t.size

/-- The empty table of the fewest slots is in the band. -/
theorem banded_empty : (empty : Table α).Banded :=
  ⟨belowCeiling_of_size_eq_zero wellFormed_empty rfl, Or.inl (capacity_vacant minCapacity)⟩

/-- A table that an insertion has doubled has more than a fifth of its slots taken. -/
theorem Doubled.capacity_lt {u : Table α} (h : Doubled t u) (hw : t.WellFormed) :
    u.capacity < 5 * u.size := by
  have hload := h.load
  have htwice := h.capacity_eq
  have hmin := hw.four_le
  omega

namespace Banded

/-- A table in the band is not to shrink. -/
theorem adjustment_ne_shrink (h : t.Banded) (hw : t.WellFormed)
    (hlimit : t.capacity < Count.limit) : t.adjustment t.size policy ≠ .shrink := by
  intro hshrink
  obtain ⟨-, hmin, hload⟩ :=
    (adjustmentFor_eq_shrink_iff (Count.lt_largest hw.capacity_eq hlimit)).1 hshrink
  have hfloor := h.floor
  unfold minCapacity at hmin
  omega

/-- An insertion keeps a table in the band. -/
theorem insert (h : t.Banded) (hw : t.WellFormed) (available : Allocator) (hash : UInt32) (item : α)
    (eq : α → Bool) : (t.insert available .growAndShrink hash item eq).state.Banded := by
  have hceiling : (t.insert available .growAndShrink hash item eq).state.BelowCeiling :=
    BelowCeiling.insert h.ceiling hw rfl available hash item eq
  have hfloor := h.floor
  refine ⟨hceiling, ?_⟩
  rcases insert_sizes hw available .growAndShrink hash item eq with ⟨old, u, heq, hsize, hcap⟩ |
    ⟨u, heq, hsize, ⟨hcap, -⟩ | hdouble⟩ | ⟨e, u, heq, -, hsize, hcap | hdouble⟩
  · rw [heq, hsize, hcap]
    exact hfloor
  · rw [heq, hsize, hcap]
    omega
  · rw [heq]
    exact Or.inr (hdouble.capacity_lt hw)
  · rw [heq, hsize, hcap]
    exact hfloor
  · rw [heq]
    exact Or.inr (hdouble.capacity_lt hw)

/-- A removal keeps a table in the band, if half of the slots can be obtained in case it takes an
entry out and asks for them. -/
theorem remove (h : t.Banded) (hw : t.WellFormed) (hlimit : t.capacity < Count.limit)
    {available : Allocator} {hash : UInt32} {eq : α → Bool}
    (hspares : (∃ item, (t.remove available .growAndShrink hash eq).answer = .ok item) →
      t.adjustment (t.size - 1) .growAndShrink = .shrink → available (t.capacity / 2) = true) :
    (t.remove available .growAndShrink hash eq).state.Banded := by
  have hceiling : (t.remove available .growAndShrink hash eq).state.BelowCeiling :=
    BelowCeiling.remove h.ceiling hw hlimit available .growAndShrink hash eq
  have hfloor := h.floor
  refine ⟨hceiling, ?_⟩
  rcases remove_sizes hw hlimit available .growAndShrink hash eq with heq |
    ⟨item, u, heq, hsize, ⟨hcap, hrefused⟩ | ⟨-, hhalve⟩⟩
  · rw [heq]
    exact hfloor
  · -- The slots were not refused, so the table was not to shrink.
    rw [heq] at hspares ⊢
    have hkeep : ¬ t.adjustment (t.size - 1) .growAndShrink = .shrink := fun hshrink => by
      have hgranted := hspares ⟨item, rfl⟩ hshrink
      rw [hrefused hshrink] at hgranted
      cases hgranted
    have hload : ¬ (minCapacity < t.capacity ∧ 5 * (t.size - 1) ≤ t.capacity) := fun hlow =>
      hkeep ((adjustmentFor_eq_shrink_iff (Count.lt_largest hw.capacity_eq hlimit)).2 ⟨rfl, hlow⟩)
    have hmin := hw.four_le
    unfold minCapacity at hload
    dsimp only
    omega
  · -- One halving is enough: more than a fifth of the slots was taken before.
    have htwice := hhalve.capacity_eq
    have hmin := hhalve.four_le
    rw [heq]
    dsimp only
    have hleft : 2 * u.capacity - 4 ≤ 5 * u.size := by omega
    omega

/-- Shrinking to fit keeps a table in the band. -/
theorem shrinkToFit (h : t.Banded) (hw : t.WellFormed) (available : Allocator) :
    (t.shrinkToFit available).Banded := by
  have hceiling : (t.shrinkToFit available).BelowCeiling :=
    BelowCeiling.shrinkToFit h.ceiling hw available
  have hfloor := h.floor
  obtain ⟨hsize, hcap⟩ := shrinkToFit_sizes hw available
  refine ⟨hceiling, ?_⟩
  rw [hsize]
  rcases hcap with hcap | ⟨hcap, -⟩
  · rw [hcap]
    exact hfloor
  · rw [hcap]
    have hmin := (fits_fitting t.size).four_le
    rcases Nat.lt_or_ge minCapacity (fitting t.size) with hlt | hge
    · have htight := three_mul_fitting_le hlt
      unfold minCapacity at hlt
      omega
    · exact Or.inl (Nat.le_antisymm hge hmin)

end Banded

/-! ## Tables that are tended -/

/-- A call is one of those that tend a table: an insertion or removal under the policy that grows
and shrinks, a lookup, or shrinking to fit. Half of the slots can be obtained if the removal takes an
entry out and asks for them. -/
def Tends (t : Table α) : Call α → Prop
  | .insert _ policy _ _ _ => policy = .growAndShrink
  | .find _ _ => True
  | .remove available policy hash eq => policy = .growAndShrink ∧
    ((∃ item, (t.remove available policy hash eq).answer = .ok item) →
      t.adjustment (t.size - 1) policy = .shrink → available (t.capacity / 2) = true)
  | .shrinkToFit _ => True
  | _ => False

/-- The tables that come about from a new one of the fewest slots by calls that tend it. -/
inductive Tended : Table α → Prop where
  /-- A new table of the fewest slots. -/
  | empty : Tended empty
  /-- The table that such a call leaves. -/
  | call {t : Table α} (ht : Tended t) (call : Call α) (h : t.Tends call) :
      Tended (t.perform call).state

/-- A table that is tended comes about. -/
theorem Tended.reachable (h : t.Tended) : t.Reachable := by
  induction h with
  | empty => exact .empty
  | call _ call _ ih => exact ih.perform call

/-- A call that tends a table keeps it in the band. -/
theorem Banded.perform (h : t.Banded) (hreach : t.Reachable) {call : Call α} (hcall : t.Tends call) :
    (t.perform call).state.Banded := by
  have hw := hreach.wellFormed
  have hlimit := hreach.capacity_lt_limit
  cases call with
  | insert available policy hash item eq =>
    obtain rfl : policy = .growAndShrink := hcall
    exact h.insert hw available hash item eq
  | find => exact h
  | remove available policy hash eq =>
    obtain ⟨rfl, hspares⟩ := hcall
    exact h.remove hw hlimit hspares
  | shrinkToFit available => exact h.shrinkToFit hw available
  | _ => exact hcall.elim

/-- A table that is tended is in the band. -/
theorem Tended.banded (h : t.Tended) : t.Banded := by
  induction h with
  | empty => exact banded_empty
  | call ht call hcall ih => exact ih.perform ht.reachable hcall

end Table

end OpenAddressing
