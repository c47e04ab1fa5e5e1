/-!
# Blank characters

The characters with the Unicode property White_Space, and what is left of a text without those at
its start.
-/

namespace ChangeRelay

/-- The code points with the property White_Space, as closed ranges. -/
def blankRanges : List (Nat × Nat) :=
  [(0x09, 0x0D), (0x20, 0x20), (0x85, 0x85), (0xA0, 0xA0), (0x1680, 0x1680), (0x2000, 0x200A),
    (0x2028, 0x2029), (0x202F, 0x202F), (0x205F, 0x205F), (0x3000, 0x3000)]

/-- Whether `c` is white space. -/
def isBlank (c : Char) : Bool :=
  blankRanges.any fun (low, high) => low ≤ c.toNat && c.toNat ≤ high

/-- Whether a text holds white space only. -/
def isBlankText (cs : List Char) : Bool :=
  cs.all isBlank

/-- A text without the white space at its start. -/
def skipBlank (cs : List Char) : List Char :=
  cs.dropWhile isBlank

end ChangeRelay
