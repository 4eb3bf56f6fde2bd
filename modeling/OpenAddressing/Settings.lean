/-!
# Settings

When a table may change its size, who owns what a dictionary stores, and the settings of a
dictionary. The defaults are case-sensitive keys, entries owned by the caller and growth without
shrinking.
-/

namespace OpenAddressing

/-- When a table changes its size by itself. -/
inductive ResizePolicy where
  /-- Never. -/
  | disabled
  /-- It grows before an insertion that would load it too much. -/
  | growOnly
  /-- It also shrinks after a removal that leaves it nearly empty. -/
  | growAndShrink
deriving DecidableEq

namespace ResizePolicy

/-- Whether the table grows. -/
def grows : ResizePolicy → Bool
  | .disabled => false
  | .growOnly | .growAndShrink => true

/-- Whether the table shrinks. -/
def shrinks : ResizePolicy → Bool
  | .growAndShrink => true
  | .disabled | .growOnly => false

/-- A policy that shrinks also grows. -/
theorem grows_of_shrinks {p : ResizePolicy} (h : p.shrinks) : p.grows := by
  cases p <;> simp_all [shrinks, grows]

end ResizePolicy

/-- Who owns the keys and values of a dictionary. -/
inductive Ownership where
  /-- The caller owns both. -/
  | caller
  /-- The dictionary owns the values. -/
  | value
  /-- The dictionary owns the keys and the values. -/
  | keyAndValue
deriving DecidableEq

namespace Ownership

/-- Whether the dictionary owns the values it stores. -/
def ownsValues : Ownership → Bool
  | .caller => false
  | .value | .keyAndValue => true

/-- Whether the dictionary owns the keys it stores. -/
def ownsKeys : Ownership → Bool
  | .keyAndValue => true
  | .caller | .value => false

/-- Keys are never owned without the values. -/
theorem ownsValues_of_ownsKeys {o : Ownership} (h : o.ownsKeys) : o.ownsValues := by
  cases o <;> simp_all [ownsKeys, ownsValues]

end Ownership

/-- The settings of a dictionary. -/
structure Settings where
  /-- Whether keys that differ only in the case of ASCII letters are the same key. -/
  ignoreCase : Bool := false
  /-- Who owns the keys and values. -/
  ownership : Ownership := .caller
  /-- When the table changes its size. -/
  resize : ResizePolicy := .growOnly
deriving DecidableEq

end OpenAddressing
