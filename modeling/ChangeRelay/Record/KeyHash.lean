import ChangeRelay.Hash.Murmur2
import ChangeRelay.Shape.Basic
import ChangeRelay.Text.Utf16
/-!
# Partitions of keys

A key is hashed, and the hash is cut down to the number of partitions, so a key always lands on the
same partition of a topic as long as the topic keeps its partitions.
-/

namespace ChangeRelay

/-- The hash that decides the partition of a key. -/
inductive KeyHash
  /-- The polynomial hash of the UTF-16 code units. -/
  | polynomial
  /-- The hash of the UTF-8 bytes that Kafka clients use. -/
  | murmur2
deriving DecidableEq, Repr, Inhabited

namespace KeyHash

/-- The names of the hashes in documents. -/
def names : Enumeration KeyHash where
  title := "HashFunction"
  values := [("default", .polynomial), ("murmur2", .murmur2)]
  name
    | .polynomial => "default"
    | .murmur2 => "murmur2"

/-- The base of the polynomial. -/
def base : Int32 :=
  31

/-- The polynomial hash of a text, in 32 bits with sign. -/
def ofText (text : String) : Int32 :=
  (Utf16.units text).foldl (fun h u => h * base + Int32.ofNat u) 0

/-- The bits of a hash below the sign. -/
def magnitudeMask : UInt32 :=
  0x7fffffff

/-- The partition of a key among `count` partitions; the only one when there are none to choose
from. -/
def partition (hash : KeyHash) (key : String) (count : Int32) : Int32 :=
  if count ≤ 1 then 0
  else
    match hash with
    | .polynomial => (ofText key % count).abs
    | .murmur2 =>
      let h := Murmur2.hash key.toUTF8.toList
      ((h &&& magnitudeMask) % count.toUInt32).toInt32

end KeyHash

end ChangeRelay
