/-!
# UTF-16 units

The units of a text: one for a character of the basic plane, a pair of surrogates for any other.
-/

namespace ChangeRelay.Utf16

/-- The units of one character. -/
def unitsOf (c : Char) : List Nat :=
  let n := c.toNat
  if n < 0x10000 then [n]
  else [0xD800 + (n - 0x10000) / 0x400, 0xDC00 + (n - 0x10000) % 0x400]

/-- The units of a text. -/
def units (s : String) : List Nat :=
  s.toList.flatMap unitsOf

end ChangeRelay.Utf16
