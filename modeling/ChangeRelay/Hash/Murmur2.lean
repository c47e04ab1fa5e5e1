/-!
# The murmur2 hash

A hash of byte sequences: four bytes at a time are mixed into a word, the bytes that are left over
follow, and a last mixing spreads them over the word.
-/

namespace ChangeRelay.Murmur2

/-- What the hash starts from. -/
def seed : UInt32 :=
  0x9747b28c

/-- The factor of every mixing step. -/
def factor : UInt32 :=
  0x5bd1e995

/-- The little-endian word of four bytes. -/
def word (a b c d : UInt8) : UInt32 :=
  a.toUInt32 ||| (b.toUInt32 <<< 8) ||| (c.toUInt32 <<< 16) ||| (d.toUInt32 <<< 24)

/-- Mixes a word into the hash. -/
def mix (h k : UInt32) : UInt32 :=
  let k := k * factor
  let k := k ^^^ (k >>> 24)
  h * factor ^^^ k * factor

/-- Mixes in bytes, four at a time; the last one to three have no word of their own. -/
def mixBytes (h : UInt32) : List UInt8 → UInt32
  | a :: b :: c :: d :: rest => mixBytes (mix h (word a b c d)) rest
  | [a, b, c] =>
    (h ^^^ (c.toUInt32 <<< 16) ^^^ (b.toUInt32 <<< 8) ^^^ a.toUInt32) * factor
  | [a, b] => (h ^^^ (b.toUInt32 <<< 8) ^^^ a.toUInt32) * factor
  | [a] => (h ^^^ a.toUInt32) * factor
  | [] => h

/-- Spreads the last bytes over the word. -/
def finish (h : UInt32) : UInt32 :=
  let h := (h ^^^ (h >>> 13)) * factor
  h ^^^ (h >>> 15)

/-- The hash of a byte sequence. -/
def hash (bytes : List UInt8) : UInt32 :=
  finish (mixBytes (seed ^^^ UInt32.ofNat bytes.length) bytes)

end ChangeRelay.Murmur2
