import OpenAddressing.Key.Murmur3

/-!
# Keys and the rules on them

A stored key is the caller's bytes or a copy that the dictionary owns. The rules of a dictionary cut
a key to its measured size, hash what is left and compare it with what is left of another key. They
can be replaced one by one; a comparison of one's own is used as it is, also when case is ignored.
-/

namespace OpenAddressing

/-- The bytes of a stored key, with their owner. -/
inductive Key where
  /-- Bytes that the caller keeps. -/
  | borrowed (bytes : Bytes)
  /-- A copy that the dictionary owns. -/
  | owned (bytes : Bytes)
deriving DecidableEq

namespace Key

/-- The bytes as they were given. -/
def bytes : Key → Bytes
  | .borrowed b | .owned b => b

/-- Whether the dictionary owns the bytes. -/
def isOwned : Key → Bool
  | .borrowed _ => false
  | .owned _ => true

/-- A key is its bytes and their owner. -/
theorem ext_iff {a b : Key} : a = b ↔ a.bytes = b.bytes ∧ a.isOwned = b.isOwned := by
  cases a <;> cases b <;> simp [bytes, isOwned]

end Key

/-- How a dictionary measures, hashes and compares keys. -/
structure KeyRules where
  /-- The hash of a key cut to size. -/
  hash : Bytes → UInt32
  /-- The size a key is cut to. -/
  size : Bytes → Nat
  /-- A comparison of a stored key with the one sought, both cut to size, in place of the usual. -/
  equal : Option (Bytes → Bytes → Bool)

namespace KeyRules

/-- The default hash: Murmur3 under the default seed. -/
def defaultHash (b : Bytes) : UInt32 := Murmur3.hash b Murmur3.defaultSeed

/-- The default rules: keys end before a zero byte. -/
def standard : KeyRules := ⟨defaultHash, Bytes.lengthToZero, none⟩

/-- The key cut to its size, and no longer than it is. -/
def sized (r : KeyRules) (key : Bytes) : Bytes := key.take (r.size key)

/-- What is left of a key has its measured size, or its length if that is less. -/
theorem length_sized (r : KeyRules) (key : Bytes) :
    (r.sized key).length = min (r.size key) key.length :=
  List.length_take

/-- A hash of the bytes after the ASCII capitals are lowered. -/
def hashLowered (hash : Bytes → UInt32) (b : Bytes) : UInt32 := hash b.lower

/-- The hash under which a key is stored and sought. -/
def hashOf (r : KeyRules) (ignoreCase : Bool) (key : Bytes) : UInt32 :=
  if ignoreCase then hashLowered r.hash (r.sized key) else r.hash (r.sized key)

/-- Whether the key sought is the stored one. -/
def same (r : KeyRules) (ignoreCase : Bool) (stored sought : Bytes) : Bool :=
  match r.equal with
  | some equal => equal (r.sized stored) (r.sized sought)
  | none =>
    if ignoreCase then Bytes.equalIgnoringCase (r.sized stored) (r.sized sought)
    else Bytes.equal (r.sized stored) (r.sized sought)

/-- Without a comparison of one's own, keys that are the same have the same hash. -/
theorem hashOf_eq_of_same {r : KeyRules} (hr : r.equal = none) {ignoreCase : Bool}
    {a b : Bytes} (h : r.same ignoreCase a b = true) :
    r.hashOf ignoreCase a = r.hashOf ignoreCase b := by
  unfold same at h
  rw [hr] at h
  unfold hashOf
  cases ignoreCase
  · simp only [Bytes.equal, beq_iff_eq, Bool.false_eq_true, if_false] at h ⊢
    rw [h]
  · simp only [Bytes.equalIgnoringCase, beq_iff_eq, if_true, hashLowered] at h ⊢
    rw [h]

end KeyRules

end OpenAddressing
