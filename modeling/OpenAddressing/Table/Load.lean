import OpenAddressing.Count
import OpenAddressing.Settings
import OpenAddressing.Table.Basic

/-!
# How full a table may be

A table that may grow does so before its load, entries over slots, reaches three quarters; a table
that may shrink does so at a load of one fifth, as long as it is above the fewest slots. The products
saturate at the largest count, so that the comparison is defined for every projected number of
entries. `fittingCapacity?` is the least power of two of slots, and no fewer than four, on which a
number of entries stays below three quarters.
-/

namespace OpenAddressing

universe u

/-- How the number of slots should change. -/
inductive Adjustment where
  /-- It should double. -/
  | grow
  /-- It should halve. -/
  | shrink
  /-- It should stay. -/
  | keep
deriving DecidableEq

namespace Table

variable {α : Type u}

/-- How `capacity` slots should change to hold `projected` entries. -/
def adjustmentFor (capacity projected : Nat) (policy : ResizePolicy) : Adjustment :=
  if !policy.grows then .keep
  else if Count.satMul capacity 3 ≤ Count.satMul projected 4 then .grow
  else if policy.shrinks ∧ minCapacity < capacity ∧ Count.satMul projected 5 ≤ capacity then .shrink
  else .keep

/-- How the number of slots should change for the table to hold `projected` entries. -/
def adjustment (t : Table α) (projected : Nat) (policy : ResizePolicy) : Adjustment :=
  adjustmentFor t.capacity projected policy

/-- The slots that keep `count` entries below the load at which a table grows, if that is a
count. -/
def fittingCapacity? (count : Nat) : Option Nat :=
  match Count.mul? count 4 with
  | none => none
  | some quadruple => (Count.ceilPowerOfTwo? (quadruple / 3 + 1)).map (max · minCapacity)

end Table

end OpenAddressing
