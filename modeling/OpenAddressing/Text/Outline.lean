/-!
# Outlines of values

An outline is a value as nested groups of items, to be shown on one line or spread over several. On
one line the items are separated by commas. Spread out, each item has a line of its own, four spaces
deeper than the line its group began on, and every item is followed by a comma. A group without items
is its brackets alone in both forms.
-/

namespace OpenAddressing.Text

/-- A value as nested groups of items. -/
inductive Outline where
  /-- A text without items. -/
  | leaf (text : String)
  /-- An item with something in front of it. -/
  | labelled (label : String) (body : Outline)
  /-- Items between brackets; `padding` stands inside the brackets on one line. -/
  | group (opening padding closing : String) (items : List Outline)

namespace Outline

mutual

/-- The outline on one line. -/
def line : Outline → String
  | .leaf text => text
  | .labelled label body => label ++ body.line
  | .group opening padding closing items =>
    if items.isEmpty then opening ++ closing
    else opening ++ padding ++ ", ".intercalate (lines items) ++ padding ++ closing

/-- Each outline on one line. -/
def lines : List Outline → List String
  | [] => []
  | item :: rest => item.line :: lines rest

end

/-- The spaces at the start of a line `depth` groups deep. -/
def margin (depth : Nat) : String := String.ofList (List.replicate (4 * depth) ' ')

mutual

/-- The outline spread over lines, begun on a line `depth` groups deep. -/
def spread (depth : Nat) : Outline → String
  | .leaf text => text
  | .labelled label body => label ++ body.spread depth
  | .group opening _ closing items =>
    if items.isEmpty then opening ++ closing
    else
      opening ++ "\n" ++ String.join (spreadItems (depth + 1) items) ++ margin depth ++ closing

/-- Each outline on lines of its own, `depth` groups deep. -/
def spreadItems (depth : Nat) : List Outline → List String
  | [] => []
  | item :: rest => (margin depth ++ item.spread depth ++ ",\n") :: spreadItems depth rest

end

/-- A number. -/
def nat (n : Nat) : Outline := .leaf (toString n)

/-- The items of a list. -/
def list (items : List Outline) : Outline := .group "[" "" "]" items

/-- Pairs of a shown key and a value. -/
def pairs (items : List (String × Outline)) : Outline :=
  .group "\x7b" "" "\x7d" (items.map fun (key, value) => .labelled (key ++ ": ") value)

/-- A name with named fields. -/
def record (name : String) (fields : List (String × Outline)) : Outline :=
  .group (name ++ " \x7b") " " "\x7d" (fields.map fun (field, value) =>
    .labelled (field ++ ": ") value)

/-- A name with one unnamed field. -/
def wrapped (name : String) (body : Outline) : Outline := .group (name ++ "(") "" ")" [body]

/-- The outline on one line or spread over lines. -/
def render (o : Outline) (overLines : Bool) : String :=
  if overLines then o.spread 0 else o.line

end Outline

end OpenAddressing.Text
