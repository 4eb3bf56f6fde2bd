/-!
# Counts that fit a machine word

Counts of slots and entries are natural numbers below `2^64`. The operations here are the ones that
can leave that range: a saturating product stays at the largest count, and the checked sum, product
and power of two answer `none` instead. `ceilPowerOfTwo` is the least power of two at or above its
argument.
-/

namespace OpenAddressing.Count

/-- One more than the largest count. -/
def limit : Nat := UInt64.size

/-- The largest count. -/
def largest : Nat := UInt64.size - 1

/-- The product, or the largest count when the product is no count. -/
def satMul (a b : Nat) : Nat := min (a * b) largest

/-- The sum, if it is a count. -/
def add? (a b : Nat) : Option Nat := if a + b < limit then some (a + b) else none

/-- The product, if it is a count. -/
def mul? (a b : Nat) : Option Nat := if a * b < limit then some (a * b) else none

/-- The least power of two at or above `n`. -/
def ceilPowerOfTwo (n : Nat) : Nat := if n ≤ 1 then 1 else 1 <<< ((n - 1).log2 + 1)

/-- The least power of two at or above `n`, if it is a count. -/
def ceilPowerOfTwo? (n : Nat) : Option Nat :=
  if ceilPowerOfTwo n < limit then some (ceilPowerOfTwo n) else none

/-- A sum is a count exactly when it is below the limit. -/
theorem add?_eq_some_iff {a b c : Nat} : add? a b = some c ↔ a + b < limit ∧ c = a + b := by
  unfold add?
  split <;> simp <;> omega

/-- A product is a count exactly when it is below the limit. -/
theorem mul?_eq_some_iff {a b c : Nat} : mul? a b = some c ↔ a * b < limit ∧ c = a * b := by
  unfold mul?
  split <;> simp <;> omega

/-- Rounding up to a power of two never goes below the number. -/
theorem le_ceilPowerOfTwo (n : Nat) : n ≤ ceilPowerOfTwo n := by
  unfold ceilPowerOfTwo
  split
  · assumption
  · have := @Nat.lt_log2_self (n - 1)
    rw [Nat.one_shiftLeft]
    omega

/-- The rounded number is a power of two. -/
theorem isPowerOfTwo_ceilPowerOfTwo (n : Nat) : (ceilPowerOfTwo n).isPowerOfTwo := by
  unfold ceilPowerOfTwo
  split
  · exact Nat.isPowerOfTwo_one
  · exact ⟨_, Nat.one_shiftLeft _⟩

/-- No smaller power of two is at or above the number. -/
theorem ceilPowerOfTwo_le {n p : Nat} (h : n ≤ p) (hp : p.isPowerOfTwo) :
    ceilPowerOfTwo n ≤ p := by
  obtain ⟨k, rfl⟩ := hp
  unfold ceilPowerOfTwo
  split
  · exact Nat.one_le_two_pow
  · have hne : n - 1 ≠ 0 := by omega
    have hlt : (n - 1).log2 < k := (Nat.log2_lt hne).2 (by omega)
    rw [Nat.one_shiftLeft]
    exact Nat.pow_le_pow_right (by decide) hlt

end OpenAddressing.Count
