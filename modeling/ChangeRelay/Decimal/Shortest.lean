import ChangeRelay.Decimal.Binary64
/-!
# Shortest decimals

The decimal with the fewest digits that reads back as a given binary64 number, the nearest of them
when there are several. All arithmetic is on whole numbers: a number is compared with a decimal by
cross-multiplying.
-/

namespace ChangeRelay.Decimal

/-- A positive decimal `digits * 10 ^ exponent`, or zero. -/
structure Digits where
  digits : Nat
  exponent : Int
deriving DecidableEq, Repr

/-- How many decimal digits `n` has; one for zero. -/
def digitCount (n : Nat) : Nat :=
  (Nat.toDigits 10 n).length

/-- The exponent `e` with `10 ^ e ≤ num / den < 10 ^ (e + 1)`, for positive `num` and `den`. -/
def decimalExponent (num den : Nat) : Int :=
  if den ≤ num then (digitCount (num / den) : Int) - 1
  else -(digitCount ((den + num - 1) / num - 1) : Int)

/-- A magnitude `m * 2 ^ q` together with the numbers that round to it: from `low` to `high`
quarter units, ends included when `closed`. -/
structure Interval where
  m : Nat
  q : Int
  low : Nat
  high : Nat
  closed : Bool

/-- The interval of a positive finite number. The number below is half as far away when the
significand is the least of its binade. -/
def Interval.of (x : Binary64) : Interval where
  m := x.significand
  q := x.power
  low := 4 * x.significand - (if x.fractionBits = 0 && 1 < x.exponentBits then 1 else 2)
  high := 4 * x.significand + 2
  closed := x.significand % 2 = 0

/-- `n * 2 ^ q` over `d * 10 ^ k` as a fraction of whole numbers. -/
def ratio (n : Nat) (q : Int) (d : Nat) (k : Int) : Nat × Nat :=
  (n * Nat.pow 2 q.toNat * Nat.pow 10 (-k).toNat,
    d * Nat.pow 2 (-q).toNat * Nat.pow 10 k.toNat)

/-- Whether `d * 10 ^ k` rounds to the number of the interval. -/
def Interval.contains (i : Interval) (d : Nat) (k : Int) : Bool :=
  let (low, unit) := ratio i.low i.q 4 k
  let (high, _) := ratio i.high i.q 4 k
  if i.closed then low ≤ d * unit && d * unit ≤ high else low < d * unit && d * unit < high

/-- The decimal of the grid `10 ^ k` nearest to the number, among those that round to it; an exact
tie goes to the even digit. -/
def Interval.onGrid (i : Interval) (k : Int) : Option Nat :=
  let (num, den) := ratio i.m i.q 1 k
  let below := num / den
  match i.contains below k, i.contains (below + 1) k with
  | true, true =>
    let rest := num - below * den
    some (if 2 * rest < den then below
      else if den < 2 * rest then below + 1
      else if below % 2 = 0 then below else below + 1)
  | true, false => some below
  | false, true => some (below + 1)
  | false, false => none

/-- The first grid with a hit, of `fuel` grids from `10 ^ k` downwards. -/
def Interval.search (i : Interval) (k : Int) : Nat → Digits
  | 0 => ⟨i.m, k⟩
  | fuel + 1 =>
    match i.onGrid k with
    | some d => ⟨d, k⟩
    | none => i.search (k - 1) fuel

/-- Moves the zeros at the end of the digits into the exponent. -/
def Digits.normalize (d : Digits) : Nat → Digits
  | 0 => d
  | fuel + 1 =>
    if d.digits ≠ 0 && d.digits % 10 = 0 then
      Digits.normalize ⟨d.digits / 10, d.exponent + 1⟩ fuel
    else d

/-- The shortest decimal that reads back as the magnitude of a finite number. Seventeen digits
always suffice. -/
def shortest (x : Binary64) : Digits :=
  if x.isZero then ⟨0, 0⟩
  else
    let i := Interval.of x
    let (num, den) := ratio i.m i.q 1 0
    (i.search (decimalExponent num den) 17).normalize 20

/-- The decimal digits of a number. -/
def digitsOf (n : Nat) : List Char :=
  Nat.toDigits 10 n

/-- `n` zeros. -/
def zeros (n : Nat) : List Char :=
  List.replicate n '0'

/-- Digits with the point `point` places from the left, zeros filled in on either side; no point
when nothing stands behind it. -/
def placed (digits : List Char) (point : Int) : List Char :=
  if point ≤ 0 then '0' :: '.' :: zeros (-point).toNat ++ digits
  else if point.toNat < digits.length then
    digits.take point.toNat ++ '.' :: digits.drop point.toNat
  else digits ++ zeros (point.toNat - digits.length)

/-- The number without an exponent, and without a fraction when it is whole. -/
def positional (x : Binary64) : String :=
  if x.isNaN then "NaN"
  else
    let sign := if x.isNegative then ['-'] else []
    if !x.isFinite then String.ofList (sign ++ "inf".toList)
    else
      let d := shortest x
      let digits := digitsOf d.digits
      String.ofList (sign ++ placed digits (digits.length + d.exponent))

/-- The number without an exponent and with at least one decimal. -/
def positionalWithPoint (x : Binary64) : String :=
  let s := positional x
  if x.isFinite && !s.toList.contains '.' then s ++ ".0" else s

end ChangeRelay.Decimal
