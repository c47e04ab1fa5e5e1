/-!
# Binary64 numbers

A binary64 number as its bit pattern, taken apart into sign, integer significand and power of two,
and the number nearest to a decimal that is scaled by powers of ten in one or two roundings.
-/

namespace ChangeRelay

/-- A binary64 number, by its bits: two numbers are the same when their bits are. -/
structure Binary64 where
  bits : UInt64
deriving DecidableEq, Repr, Inhabited

namespace Binary64

/-- The number that `x` computes with. -/
def toFloat (x : Binary64) : Float :=
  Float.ofBits x.bits

/-- The bits of a computed number. -/
def ofFloat (x : Float) : Binary64 :=
  ⟨x.toBits⟩

/-- Whether the sign bit is set. -/
def isNegative (x : Binary64) : Bool :=
  x.bits >>> 63 != 0

/-- The eleven exponent bits. -/
def exponentBits (x : Binary64) : Nat :=
  ((x.bits >>> 52) &&& 0x7FF).toNat

/-- The fifty-two fraction bits. -/
def fractionBits (x : Binary64) : Nat :=
  (x.bits &&& 0xFFFFFFFFFFFFF).toNat

/-- Whether the number is neither infinite nor a NaN. -/
def isFinite (x : Binary64) : Bool :=
  x.exponentBits < 0x7FF

/-- Whether the number is a NaN. -/
def isNaN (x : Binary64) : Bool :=
  !x.isFinite && x.fractionBits != 0

/-- The significand `m` of a finite number: its magnitude is `m * 2 ^ power`. -/
def significand (x : Binary64) : Nat :=
  if x.exponentBits = 0 then x.fractionBits else 0x10000000000000 + x.fractionBits

/-- The power of two that scales the significand. -/
def power (x : Binary64) : Int :=
  (Nat.max x.exponentBits 1 : Nat) - 1075

/-- Whether the number is a zero of either sign. -/
def isZero (x : Binary64) : Bool :=
  x.exponentBits = 0 && x.fractionBits = 0

/-- The other sign. -/
def neg (x : Binary64) : Binary64 :=
  ⟨x.bits ^^^ 0x8000000000000000⟩

/-- Ten to the power `n`, rounded to nearest; exact up to `n = 22`. -/
def powerOfTen (n : Nat) : Float :=
  Float.ofScientific 1 false n

/-- Multiplies or divides `x` by powers of ten until `exponent` is used up, at most 308 at a time.
`none` when the magnitude leaves the range of finite numbers. -/
def scaleFloat (x : Float) (exponent : Int) : Option Float :=
  if exponent.natAbs ≤ 308 then
    if 0 ≤ exponent then
      let y := x * powerOfTen exponent.natAbs
      if y.isInf then none else some y
    else some (x / powerOfTen exponent.natAbs)
  else if x == 0 then some x
  else if 0 ≤ exponent then none
  else scaleFloat (x / powerOfTen 308) (exponent + 308)
termination_by exponent.natAbs

/-- The number `significand * 10 ^ exponent`, the significand rounded first and every scaling step
after it. `none` when it is out of range. -/
def ofDecimal (negative : Bool) (significand : UInt64) (exponent : Int) : Option Binary64 :=
  (scaleFloat significand.toFloat exponent).map fun x => ofFloat (if negative then -x else x)

/-- The infinite number above all others. -/
def infinity : Binary64 :=
  ⟨0x7FF0000000000000⟩

/-- A number that is none. -/
def notANumber : Binary64 :=
  ⟨0x7FF8000000000000⟩

/-- The number nearest to `significand * 10 ^ exponent`, in one rounding; infinite above the range
of finite numbers. A decimal far outside that range is not worked out. -/
def nearest (significand : Nat) (exponent : Int) : Binary64 :=
  let top := (Nat.toDigits 10 significand).length + exponent
  if significand = 0 || top < -330 then ⟨0⟩
  else if 310 < top then infinity
  else ofFloat (Float.ofScientific significand (exponent < 0) exponent.natAbs)

/-- The whole number nearest to the magnitude of a finite number; of two, the larger. -/
def roundedMagnitude (x : Binary64) : Nat :=
  let scale := Nat.pow 2 (-x.power).toNat
  (2 * (x.significand * Nat.pow 2 x.power.toNat) + scale) / (2 * scale)

/-- The whole number nearest to `n`. -/
def ofNat (n : Nat) : Binary64 :=
  ofFloat (Float.ofNat n)

end Binary64

end ChangeRelay
