/-!
# Byte strings as keys

The measures and comparisons a dictionary uses by default. A key ends before its first zero byte;
keys are compared byte by byte, or after the ASCII capitals are lowered.
-/

namespace OpenAddressing

/-- A string of bytes. -/
abbrev Bytes := List UInt8

namespace Bytes

/-- The number of bytes before the first zero byte. -/
def lengthToZero (b : Bytes) : Nat := (b.takeWhile (· ≠ 0)).length

/-- The lower-case form of an ASCII capital, and any other byte as it is. -/
def lowerByte (c : UInt8) : UInt8 := if 65 ≤ c ∧ c ≤ 90 then c + 32 else c

/-- The bytes with the ASCII capitals lowered. -/
def lower (b : Bytes) : Bytes := b.map lowerByte

/-- Whether two byte strings are equal. -/
def equal (a b : Bytes) : Bool := a == b

/-- Whether two byte strings differ at most in the case of ASCII letters. -/
def equalIgnoringCase (a b : Bytes) : Bool := a.lower == b.lower

/-- The measured length never exceeds the length. -/
theorem lengthToZero_le (b : Bytes) : lengthToZero b ≤ b.length :=
  (List.takeWhile_sublist _).length_le

/-- Lowering a byte twice is lowering it once. -/
theorem lowerByte_lowerByte (c : UInt8) : lowerByte (lowerByte c) = lowerByte c := by
  unfold lowerByte
  split
  · rename_i h
    simp only [UInt8.le_iff_toNat_le] at h ⊢
    have : (c + 32).toNat = c.toNat + 32 := by
      rw [UInt8.toNat_add]
      have h2 : c.toNat ≤ 90 := h.2
      simp
      omega
    simp only [this]
    split
    · rename_i h3
      have h1 : 65 ≤ c.toNat := h.1
      have h4 : c.toNat + 32 ≤ 90 := h3.2
      omega
    · rfl
  · rfl

/-- Lowering twice is lowering once. -/
@[simp] theorem lower_lower (b : Bytes) : b.lower.lower = b.lower := by
  simp [lower, Function.comp_def, lowerByte_lowerByte]

end Bytes

end OpenAddressing
