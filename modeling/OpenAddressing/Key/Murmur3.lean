import OpenAddressing.Key.Bytes

/-!
# Murmur3 on 32-bit words

The 32-bit Murmur3 hash. The bytes are read in little-endian blocks of four; each block is scrambled
and absorbed into the state, which starts as the seed. The one to three bytes left over are
scrambled and added to the state without a further turn, then the length is added, and a final mix
spreads every bit of the state over the whole word.
-/

namespace OpenAddressing.Murmur3

/-- The word turned left by `n` bits, for `0 < n < 32`. -/
def rotateLeft (x n : UInt32) : UInt32 := (x <<< n) ||| (x >>> (32 - n))

/-- The block scrambled before it meets the state. -/
def scramble (k : UInt32) : UInt32 := rotateLeft (k * 0xcc9e2d51) 15 * 0x1b873593

/-- The state after a whole block. -/
def absorb (h k : UInt32) : UInt32 := rotateLeft (h ^^^ scramble k) 13 * 5 + 0xe6546b64

/-- The little-endian word of four bytes. -/
def word (a b c d : UInt8) : UInt32 :=
  a.toUInt32 ||| (b.toUInt32 <<< 8) ||| (c.toUInt32 <<< 16) ||| (d.toUInt32 <<< 24)

/-- The state after all bytes, the last incomplete block included. -/
def absorbAll (h : UInt32) : Bytes → UInt32
  | a :: b :: c :: d :: rest => absorbAll (absorb h (word a b c d)) rest
  | [a, b, c] => h ^^^ scramble (word a b c 0)
  | [a, b] => h ^^^ scramble (word a b 0 0)
  | [a] => h ^^^ scramble (word a 0 0 0)
  | [] => h

/-- The exclusive or of a word with itself shifted right. -/
def foldRight (h n : UInt32) : UInt32 := h ^^^ (h >>> n)

/-- The final mix. -/
def finish (h : UInt32) : UInt32 :=
  foldRight (foldRight (foldRight h 16 * 0x85ebca6b) 13 * 0xc2b2ae35) 16

/-- The hash of a byte string under a seed. -/
def hash (bytes : Bytes) (seed : UInt32) : UInt32 :=
  finish (absorbAll seed bytes ^^^ UInt32.ofNat bytes.length)

/-- The seed of the default hash. -/
def defaultSeed : UInt32 := 0x9747b28c

end OpenAddressing.Murmur3
