import OpenAddressing.Table.Basic

/-!
# Displacement statistics

The histogram of a table counts its entries by displacement. The statistics add the load and the
largest and mean displacement. Ratios are double-precision quotients of counts.
-/

namespace OpenAddressing

universe u

/-- The statistics of a table. -/
structure Stats where
  /-- The number of entries. -/
  size : Nat
  /-- The number of slots. -/
  capacity : Nat
  /-- Entries over slots. -/
  loadFactor : Float
  /-- The largest displacement of an entry, 0 if there is none. -/
  maxDisplacement : Nat
  /-- The mean displacement of the entries, 0 if there is none. -/
  meanDisplacement : Float

/-- Counts one more occurrence of `value`, extending the counts by zeros as far as needed. -/
def tally (counts : Array Nat) (value : Nat) : Array Nat :=
  (counts ++ Array.replicate (value + 1 - counts.size) 0).modify value (· + 1)

namespace Table

variable {α : Type u}

/-- The displacements of the entries in slot order. -/
def displacements (t : Table α) : List Nat :=
  t.slots.cells.toList.zipIdx.filterMap fun (slot, index) =>
    slot.map fun slot => displacement slot.hash index t.capacity

/-- How many entries have each displacement, up to the largest. -/
def histogram (t : Table α) : Array Nat := t.displacements.foldl tally #[]

/-- Entries over slots. -/
def loadFactor (t : Table α) : Float := Float.ofNat t.size / Float.ofNat t.capacity

/-- The statistics of the table, from its histogram. -/
def stats (t : Table α) : Stats :=
  let counts := t.histogram
  let total := counts.toList.zipIdx.foldl (fun sum (count, value) => sum + value * count) 0
  { size := t.size
    capacity := t.capacity
    loadFactor := t.loadFactor
    maxDisplacement := counts.size - 1
    meanDisplacement := if t.size = 0 then 0 else Float.ofNat total / Float.ofNat t.size }

end Table

end OpenAddressing
