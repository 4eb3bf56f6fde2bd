import OpenAddressing.Dict.Shared
import OpenAddressing.Text.Escape
import OpenAddressing.Text.Outline

/-!
# How values are shown

The outlines of failures, settings, keys, tables and dictionaries. A table shows its slots and not
its items: a taken slot is the hash in eight hexadecimal digits and the displacement, a vacant one
is two points. A dictionary shows its entries in slot order.
-/

namespace OpenAddressing

open Text (Outline)

universe u v

/-- A failure and what it reports. -/
def Error.outline : Error → Outline
  | .allocation slots => .record "Allocation" [("capacity", .nat slots)]
  | .notFound => .leaf "NotFound"
  | .capacity slots => .record "Capacity" [("capacity", .nat slots)]
  | .invalidInput reason => .wrapped "InvalidInput" (.leaf (Text.quote reason))
  | .generic text => .wrapped "Generic" (.leaf (Text.quote text))

/-- The name of a policy. -/
def ResizePolicy.name : ResizePolicy → String
  | .disabled => "Disabled"
  | .growOnly => "GrowOnly"
  | .growAndShrink => "GrowAndShrink"

/-- The name of an ownership. -/
def Ownership.name : Ownership → String
  | .caller => "Caller"
  | .value => "Value"
  | .keyAndValue => "KeyAndValue"

/-- The name of an adjustment. -/
def Adjustment.name : Adjustment → String
  | .grow => "Grow"
  | .shrink => "Shrink"
  | .keep => "None"

/-- The settings by name. -/
def Settings.outline (s : Settings) : Outline :=
  .record "Settings"
    [("ignore_case", .leaf (if s.ignoreCase then "true" else "false")),
      ("ownership", .leaf s.ownership.name), ("resize", .leaf s.resize.name)]

/-- Whether released values are dropped or handed over. -/
def Release.shown {ρ : Type v} : Release ρ → String
  | .drop => "Drop"
  | .handTo _ => "With(..)"

/-- The bytes of a key; their owner is not shown. -/
def Key.shown (k : Key) : String := Text.quoteBytes k.bytes

/-- The slots of a table from index 0 up. -/
def Table.shownSlots {α : Type u} (t : Table α) : List String :=
  t.slots.cells.toList.zipIdx.map fun (slot, index) =>
    match slot with
    | none => ".."
    | some slot =>
      Text.hex 8 slot.hash.toNat ++ "+" ++ toString (displacement slot.hash index t.capacity)

/-- A table by its slots and counts. -/
def Table.outline {α : Type u} (t : Table α) : Outline :=
  .record "HashTable"
    [("slots", .list (t.shownSlots.map fun slot => .leaf (Text.quote slot))),
      ("populated", .nat t.size), ("capacity", .nat t.capacity)]

/-- A dictionary by its entries, their values as `showValue` shows them. -/
def Dict.outline {ρ : Type v} {α : Type u} (d : Dict ρ α) (showValue : α → String) : Outline :=
  .pairs (d.entries.map fun entry => (entry.key.shown, .leaf (showValue entry.value)))

/-- A shared dictionary by the one within. -/
def SharedDict.outline {ρ : Type v} {α : Type u} (d : SharedDict ρ α) (showValue : α → String) :
    Outline :=
  .record "SharedByteMap" [("inner", d.inner.outline showValue)]

end OpenAddressing
