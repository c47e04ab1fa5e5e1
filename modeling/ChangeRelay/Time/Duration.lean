import ChangeRelay.Decimal.Shortest
/-!
# Spans of time

A span of time is shown in the largest unit of which it has a whole one, with the decimals it
needs.
-/

namespace ChangeRelay

/-- A span of time. -/
structure Duration where
  nanos : Nat
deriving DecidableEq, Repr, Inhabited

namespace Duration

/-- A span of microseconds. -/
def ofMicros (n : Nat) : Duration :=
  ⟨1000 * n⟩

/-- A span of milliseconds. -/
def ofMillis (n : Nat) : Duration :=
  ⟨1000000 * n⟩

/-- `n` units of `10 ^ digits` parts each, as a decimal number without zeros at its end. -/
def decimal (n digits : Nat) : String :=
  let part := Decimal.digitsOf (n % Nat.pow 10 digits)
  let part := List.replicate (digits - part.length) '0' ++ part
  let part := (part.reverse.dropWhile (· = '0')).reverse
  String.ofList
    (Decimal.digitsOf (n / Nat.pow 10 digits) ++ if part.isEmpty then [] else '.' :: part)

/-- The text of a span. -/
def shown (d : Duration) : String :=
  if 1000000000 ≤ d.nanos then decimal d.nanos 9 ++ "s"
  else if 1000000 ≤ d.nanos then decimal d.nanos 6 ++ "ms"
  else if 1000 ≤ d.nanos then decimal d.nanos 3 ++ "µs"
  else decimal d.nanos 0 ++ "ns"

end Duration

end ChangeRelay
