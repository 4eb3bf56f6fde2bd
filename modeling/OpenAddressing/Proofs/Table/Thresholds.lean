import Mathlib.Order.Bounds.Basic
import OpenAddressing.Proofs.Table.Rehash

/-!
# The loads at which a table changes its size

The products that decide on growing and shrinking saturate at the largest count. For the numbers of
slots that a table can have the decision is that of the exact products all the same: it grows from
three quarters on (`adjustmentFor_eq_grow_iff`) and shrinks up to one fifth
(`adjustmentFor_eq_shrink_iff`). What is not to grow is below three quarters without any condition
on the slots (`four_mul_lt_of_ne_grow`).

`Fits` says that so many slots keep a number of entries below three quarters. The slots that
reserving and shrinking to fit go to are the least of these (`isLeast_fitting`).
-/

namespace OpenAddressing

/-! ## Powers of two among the counts -/

namespace Count

/-- The limit of the counts. -/
theorem limit_eq : limit = 2 ^ 64 := rfl

/-- The largest count. -/
theorem largest_eq : largest = 2 ^ 64 - 1 := rfl

/-- Of two powers of two the smaller is at most half the larger. -/
theorem mul_two_le_of_lt {m n : ℕ} (hm : m.isPowerOfTwo) (hn : n.isPowerOfTwo) (h : m < n) :
    m * 2 ≤ n := by
  obtain ⟨j, rfl⟩ := hm
  obtain ⟨k, rfl⟩ := hn
  have hjk : j < k := (Nat.pow_lt_pow_iff_right (by decide)).1 h
  calc 2 ^ j * 2 = 2 ^ (j + 1) := (Nat.pow_succ 2 j).symm
    _ ≤ 2 ^ k := Nat.pow_le_pow_right (by decide) hjk

/-- A power of two that is a count is at most half the limit. -/
theorem mul_two_le_limit {n : ℕ} (hpow : n.isPowerOfTwo) (h : n < limit) : n * 2 ≤ limit :=
  mul_two_le_of_lt hpow ⟨64, limit_eq⟩ h

/-- A power of two that is a count is below the largest count. -/
theorem lt_largest {n : ℕ} (hpow : n.isPowerOfTwo) (h : n < limit) : n < largest := by
  have htwice := mul_two_le_limit hpow h
  rw [limit_eq] at htwice
  rw [largest_eq]
  omega

/-- A power of two that can be doubled is at most a quarter of the limit. -/
theorem mul_four_le_limit {n : ℕ} (hpow : n.isPowerOfTwo) (h : n * 2 < limit) :
    n * 4 ≤ limit := by
  have htwice := mul_two_le_limit (Nat.isPowerOfTwo_mul_two_of_isPowerOfTwo hpow) h
  omega

end Count

namespace Table

variable {capacity projected : ℕ} {policy : ResizePolicy}

/-- A power of two above the fewest slots is twice one that is not below them. -/
theorem half_spec {n : ℕ} (hpow : n.isPowerOfTwo) (h : minCapacity < n) :
    (n / 2).isPowerOfTwo ∧ minCapacity ≤ n / 2 ∧ n / 2 * 2 = n := by
  obtain ⟨k, rfl⟩ := hpow
  unfold minCapacity at h ⊢
  have hk : 2 < k := (Nat.pow_lt_pow_iff_right (by decide)).1 (show 2 ^ 2 < 2 ^ k from h)
  obtain ⟨j, rfl⟩ : ∃ j, k = j + 1 := ⟨k - 1, by omega⟩
  have hhalf : 2 ^ (j + 1) / 2 = 2 ^ j := by
    rw [Nat.pow_succ, Nat.mul_div_cancel _ (by decide)]
  have hfour : 2 ^ 2 ≤ 2 ^ j := Nat.pow_le_pow_right (by decide) (by omega)
  rw [hhalf]
  exact ⟨⟨j, rfl⟩, hfour, (Nat.pow_succ 2 j).symm⟩

/-! ## Growing and shrinking -/

/-- What is to grow has as many entries to come, by the saturated products. -/
theorem satMul_le_of_grow (h : adjustmentFor capacity projected policy = .grow) :
    policy.grows = true ∧ Count.satMul capacity 3 ≤ Count.satMul projected 4 := by
  unfold adjustmentFor at h
  split at h
  · cases h
  · rename_i hgrows
    split at h
    · exact ⟨by simpa using hgrows, by assumption⟩
    · split at h <;> cases h

/-- What may grow and is not to is below three quarters, also where the products saturate. -/
theorem four_mul_lt_of_ne_grow (hgrows : policy.grows = true)
    (h : adjustmentFor capacity projected policy ≠ .grow) : 4 * projected < 3 * capacity := by
  have hsat : ¬ Count.satMul capacity 3 ≤ Count.satMul projected 4 := fun hle => by
    refine h ?_
    unfold adjustmentFor
    rw [hgrows, if_neg (by decide), if_pos hle]
  unfold Count.satMul at hsat
  omega

/-- Up to a quarter of the limit, a policy that grows does so exactly from three quarters on. -/
theorem adjustmentFor_eq_grow_iff (hcapacity : capacity * 4 ≤ Count.limit) :
    adjustmentFor capacity projected policy = .grow ↔
      policy.grows = true ∧ 3 * capacity ≤ 4 * projected := by
  constructor
  · intro h
    obtain ⟨hgrows, hsat⟩ := satMul_le_of_grow h
    refine ⟨hgrows, ?_⟩
    -- Three times the slots are a count, so that product does not saturate.
    rw [Count.limit_eq] at hcapacity
    unfold Count.satMul at hsat
    rw [Count.largest_eq] at hsat
    omega
  · rintro ⟨hgrows, hload⟩
    by_contra h
    have hbelow := four_mul_lt_of_ne_grow hgrows h
    omega

/-- Below the largest count, a policy that shrinks does so exactly up to one fifth, as long as there
are more than the fewest slots. -/
theorem adjustmentFor_eq_shrink_iff (hcapacity : capacity < Count.largest) :
    adjustmentFor capacity projected policy = .shrink ↔
      policy.shrinks = true ∧ minCapacity < capacity ∧ 5 * projected ≤ capacity := by
  have hfifth : Count.satMul projected 5 ≤ capacity ↔ 5 * projected ≤ capacity := by
    unfold Count.satMul
    omega
  constructor
  · intro h
    unfold adjustmentFor at h
    split at h
    · cases h
    · split at h
      · cases h
      · split at h
        · rename_i hshrinks
          exact ⟨hshrinks.1, hshrinks.2.1, hfifth.1 hshrinks.2.2⟩
        · cases h
  · rintro ⟨hshrinks, hmin, hload⟩
    have hgrows := ResizePolicy.grows_of_shrinks hshrinks
    have hnot : ¬ Count.satMul capacity 3 ≤ Count.satMul projected 4 := by
      unfold Count.satMul
      omega
    unfold adjustmentFor
    rw [hgrows, if_neg (by decide), if_neg hnot, if_pos ⟨hshrinks, hmin, hfifth.2 hload⟩]

/-- What is to shrink keeps fewer entries than half the slots, also where the products saturate. -/
theorem lt_half_of_shrink (h : adjustmentFor capacity projected policy = .shrink) :
    minCapacity < capacity ∧ projected < capacity / 2 := by
  unfold adjustmentFor at h
  split at h
  · cases h
  · split at h
    · cases h
    · rename_i hbelow
      split at h
      · rename_i hshrinks
        obtain ⟨-, hmin, hfifth⟩ := hshrinks
        refine ⟨hmin, ?_⟩
        -- Four times the entries are below the largest count, so they are far fewer than that.
        unfold minCapacity at hmin
        unfold Count.satMul at hbelow hfifth
        rw [Count.largest_eq] at hbelow hfifth
        omega
      · cases h

/-! ## The slots that fit -/

/-- So many slots fit a number of entries: they are a power of two and no fewer than the fewest
slots, and the entries stay below three quarters of them. -/
structure Fits (count capacity : ℕ) : Prop where
  /-- The number of slots is a power of two. -/
  isPowerOfTwo : capacity.isPowerOfTwo
  /-- There are at least four slots. -/
  four_le : 4 ≤ capacity
  /-- The entries stay below three quarters. -/
  load : 4 * count < 3 * capacity

/-- The fewest slots that fit a number of entries. -/
def fitting (count : ℕ) : ℕ := max (Count.ceilPowerOfTwo (count * 4 / 3 + 1)) minCapacity

/-- Among the slots that fit there are none fewer. -/
theorem isLeast_fitting (count : ℕ) : IsLeast {capacity | Fits count capacity} (fitting count) := by
  constructor
  · have hround := Count.le_ceilPowerOfTwo (count * 4 / 3 + 1)
    have hload : 4 * count < 3 * fitting count := by
      unfold fitting
      omega
    exact ⟨isPowerOfTwo_max_minCapacity (Count.isPowerOfTwo_ceilPowerOfTwo _),
      Nat.le_max_right .., hload⟩
  · intro capacity hfits
    have hload := hfits.load
    have hround : Count.ceilPowerOfTwo (count * 4 / 3 + 1) ≤ capacity :=
      Count.ceilPowerOfTwo_le (by omega) hfits.isPowerOfTwo
    exact Nat.max_le.2 ⟨hround, hfits.four_le⟩

/-- The fewest slots that fit do fit. -/
theorem fits_fitting (count : ℕ) : Fits count (fitting count) := (isLeast_fitting count).1

/-- Slots that fit are no fewer than the fewest. -/
theorem Fits.fitting_le {count capacity : ℕ} (h : Fits count capacity) : fitting count ≤ capacity :=
  (isLeast_fitting count).2 h

/-- More entries need no fewer slots. -/
theorem monotone_fitting : Monotone fitting := by
  intro m n hmn
  have hfits := fits_fitting n
  have hload := hfits.load
  exact Fits.fitting_le ⟨hfits.isPowerOfTwo, hfits.four_le, by omega⟩

/-- The slots that fit are at most eight thirds of the entries, unless they are the fewest a table has. -/
theorem three_mul_fitting_le {count : ℕ} (h : minCapacity < fitting count) :
    3 * fitting count ≤ 8 * count := by
  obtain ⟨hpow, hmin, htwice⟩ := half_spec (fits_fitting count).isPowerOfTwo h
  by_contra hroom
  -- Otherwise half of them would fit as well, and they are the fewest.
  have hle : fitting count ≤ fitting count / 2 := Fits.fitting_le ⟨hpow, hmin, by omega⟩
  omega

/-- The slots that reserving and shrinking to fit go to are the fewest that fit, and a count. -/
theorem eq_fitting_of_fittingCapacity {count : ℕ} (h : fittingCapacity? count = some capacity) :
    capacity = fitting count ∧ capacity < Count.limit := by
  unfold fittingCapacity? at h
  split at h
  · cases h
  · rename_i quadruple hquadruple
    obtain ⟨-, rfl⟩ := Count.mul?_eq_some_iff.1 hquadruple
    obtain ⟨rounded, hrounded, rfl⟩ := Option.map_eq_some_iff.1 h
    unfold Count.ceilPowerOfTwo? at hrounded
    split at hrounded
    · rename_i hlt
      obtain rfl := Option.some.inj hrounded
      have hmin : minCapacity < Count.limit := by decide
      exact ⟨rfl, Nat.max_lt.2 ⟨hlt, hmin⟩⟩
    · cases hrounded

/-- They are a count as long as four times the entries are. -/
theorem fittingCapacity?_of_lt {count : ℕ} (h : count * 4 < Count.limit) :
    fittingCapacity? count = some (fitting count) := by
  have hround : Count.ceilPowerOfTwo (count * 4 / 3 + 1) ≤ 2 ^ 63 := by
    rw [Count.limit_eq] at h
    exact Count.ceilPowerOfTwo_le (by omega) ⟨63, rfl⟩
  have hlt : Count.ceilPowerOfTwo (count * 4 / 3 + 1) < Count.limit :=
    hround.trans_lt (by rw [Count.limit_eq]; omega)
  simp only [fittingCapacity?, Count.mul?, if_pos h, Count.ceilPowerOfTwo?, if_pos hlt]
  rfl

/-- Otherwise no slots are given. -/
theorem fittingCapacity?_of_le {count : ℕ} (h : Count.limit ≤ count * 4) :
    fittingCapacity? count = none := by
  simp only [fittingCapacity?, Count.mul?, if_neg (Nat.not_lt.2 h)]

end Table

end OpenAddressing
