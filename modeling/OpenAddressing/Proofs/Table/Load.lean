import Mathlib.Algebra.Order.Field.Rat
import Mathlib.Tactic.NormNum
import OpenAddressing.Proofs.Table.Thresholds

/-!
# The decision on the slots goes by the exact load

The rule for growing and shrinking is about the load, the quotient of entries and slots
(`adjustmentByLoad`). A table has no quotients: it compares products of counts, each of which stays
at the largest count when it would exceed it. Up to `2^62` slots the two agree for every number of
entries (`adjustmentFor_eq_adjustmentByLoad`). Three times the slots are a count there, so a product
of the entries that saturates is on the same side of it as the exact one, and five times the entries
are compared with the slots themselves.

Adjustments are ordered by the slots that they leave. More entries never call for fewer slots
(`monotone_adjustmentFor`), so with the number of entries rising a table shrinks, then stays, and
then grows.
-/

namespace OpenAddressing

universe u

/-- A quarter of the limit is below the largest count. -/
theorem Count.lt_largest_of_mul_four_le {n : ℕ} (h : n * 4 ≤ limit) : n < largest := by
  rw [limit_eq] at h
  rw [largest_eq]
  omega

/-! ## The order of the adjustments -/

namespace Adjustment

/-- The place of an adjustment among the three. -/
def rank : Adjustment → ℕ
  | .shrink => 0
  | .keep => 1
  | .grow => 2

/-- No two adjustments have the same place. -/
theorem rank_injective : Function.Injective rank := by
  intro a b h
  cases a <;> cases b <;> simp_all [rank]

/-- Shrinking comes before staying, and staying before growing. -/
instance : PartialOrder Adjustment := PartialOrder.lift rank rank_injective

/-- One adjustment comes no later than another when the first grows only if the second does, and the
second shrinks only if the first does. -/
theorem le_iff {a b : Adjustment} :
    a ≤ b ↔ (a = .grow → b = .grow) ∧ (b = .shrink → a = .shrink) := by
  change a.rank ≤ b.rank ↔ _
  cases a <;> cases b <;> simp [rank]

end Adjustment

namespace Table

variable {α : Type u} {capacity count projected : ℕ} {policy : ResizePolicy}

/-! ## Loads -/

/-- The load of `capacity` slots that hold `count` entries. -/
def load (capacity count : ℕ) : ℚ := count / capacity

/-- How `capacity` slots should change to hold `projected` entries, by the load that these would
make: they should grow from three quarters on, and shrink up to one fifth if there are more than the
fewest. -/
def adjustmentByLoad (capacity projected : ℕ) (policy : ResizePolicy) : Adjustment :=
  if policy.grows ∧ 3 / 4 ≤ load capacity projected then .grow
  else if policy.shrinks ∧ minCapacity < capacity ∧ load capacity projected ≤ 1 / 5 then .shrink
  else .keep

/-- A load of three quarters, without quotients. -/
theorem three_quarters_le_load_iff (hpos : 0 < capacity) :
    3 / 4 ≤ load capacity count ↔ 3 * capacity ≤ 4 * count := by
  have hslots : (0 : ℚ) < capacity := Nat.cast_pos.2 hpos
  rw [load, div_le_div_iff₀ (by norm_num) hslots, mul_comm (count : ℚ)]
  exact_mod_cast Iff.rfl

/-- A load of one fifth, without quotients. -/
theorem load_le_one_fifth_iff (hpos : 0 < capacity) :
    load capacity count ≤ 1 / 5 ↔ 5 * count ≤ capacity := by
  have hslots : (0 : ℚ) < capacity := Nat.cast_pos.2 hpos
  rw [load, div_le_div_iff₀ hslots (by norm_num), mul_comm (count : ℚ), one_mul]
  exact_mod_cast Iff.rfl

/-! ## The decision -/

/-- Up to a quarter of the limit, the saturated products decide as the exact load does. -/
theorem adjustmentFor_eq_adjustmentByLoad (hpos : 0 < capacity)
    (hmax : capacity * 4 ≤ Count.limit) :
    adjustmentFor capacity projected policy = adjustmentByLoad capacity projected policy := by
  have hlargest := Count.lt_largest_of_mul_four_le hmax
  have hgrow : adjustmentFor capacity projected policy = .grow ↔
      policy.grows = true ∧ 3 / 4 ≤ load capacity projected := by
    rw [adjustmentFor_eq_grow_iff hmax, three_quarters_le_load_iff hpos]
  have hshrink : adjustmentFor capacity projected policy = .shrink ↔
      policy.shrinks = true ∧ minCapacity < capacity ∧ load capacity projected ≤ 1 / 5 := by
    rw [adjustmentFor_eq_shrink_iff hlargest, load_le_one_fifth_iff hpos]
  unfold adjustmentByLoad
  split
  · rename_i hhigh
    exact hgrow.2 hhigh
  · rename_i hnotHigh
    split
    · rename_i hlow
      exact hshrink.2 hlow
    · rename_i hnotLow
      -- Each of the two changes would need the load that is ruled out.
      cases hadjust : adjustmentFor capacity projected policy with
      | grow => exact absurd (hgrow.1 hadjust) hnotHigh
      | shrink => exact absurd (hshrink.1 hadjust) hnotLow
      | keep => rfl

/-- Up to a quarter of the limit, more entries never call for fewer slots. -/
theorem monotone_adjustmentFor (hmax : capacity * 4 ≤ Count.limit) (policy : ResizePolicy) :
    Monotone fun projected => adjustmentFor capacity projected policy := by
  have hlargest := Count.lt_largest_of_mul_four_le hmax
  intro few many hle
  dsimp only
  rw [Adjustment.le_iff, adjustmentFor_eq_grow_iff hmax, adjustmentFor_eq_grow_iff hmax,
    adjustmentFor_eq_shrink_iff hlargest, adjustmentFor_eq_shrink_iff hlargest]
  constructor
  · rintro ⟨hgrows, hhigh⟩
    exact ⟨hgrows, hhigh.trans (Nat.mul_le_mul_left 4 hle)⟩
  · rintro ⟨hshrinks, hmin, hlow⟩
    exact ⟨hshrinks, hmin, (Nat.mul_le_mul_left 5 hle).trans hlow⟩

/-- What the decision on the slots of a table owes the load, for every number of entries. -/
structure DecidesByLoad (t : Table α) (policy : ResizePolicy) : Prop where
  /-- It is the one by the exact load. -/
  adjustment_eq : ∀ projected,
    t.adjustment projected policy = adjustmentByLoad t.capacity projected policy
  /-- With the entries rising, it is first to shrink, then to stay and then to grow. -/
  monotone : Monotone fun projected => t.adjustment projected policy

/-- Up to `2^62` slots, a power of two or not, a table decides by the exact load. -/
theorem decidesByLoad_of_capacity_le {t : Table α} (hpos : 0 < t.capacity)
    (hmax : t.capacity ≤ 2 ^ 62) (policy : ResizePolicy) : t.DecidesByLoad policy := by
  have hlimit : t.capacity * 4 ≤ Count.limit := by
    rw [Count.limit_eq]
    omega
  exact ⟨fun _ => adjustmentFor_eq_adjustmentByLoad hpos hlimit,
    monotone_adjustmentFor hlimit policy⟩

/-- On `2^62` slots, where four and five times the entries may saturate: the least number that calls
for growth, the one before it, the greatest that calls for shrinking, the one after it, and the
largest count. -/
theorem decidesByLoad_of_largest : ∃ t : Table ℕ, t.WellFormed ∧ t.capacity = 2 ^ 62 ∧
    [3 * 2 ^ 60, 3 * 2 ^ 60 - 1, 2 ^ 62 / 5, 2 ^ 62 / 5 + 1, Count.largest].map
        (t.adjustment · .growAndShrink)
      = [.grow, .keep, .shrink, .keep, .grow] ∧ t.DecidesByLoad .growAndShrink := by
  have hcapacity : (vacant (2 ^ 62) : Table ℕ).capacity = 2 ^ 62 := capacity_vacant _
  refine ⟨vacant (2 ^ 62), wellFormed_vacant ⟨62, rfl⟩ (by decide), hcapacity, ?_,
    decidesByLoad_of_capacity_le (by rw [hcapacity]; decide) hcapacity.le _⟩
  unfold adjustment
  rw [hcapacity]
  decide

/-- With twice as many slots their product saturates, and half of them taken would count as three
quarters. -/
example : adjustmentFor (2 ^ 63) (2 ^ 62) .growOnly = .grow := by decide

end Table

end OpenAddressing
