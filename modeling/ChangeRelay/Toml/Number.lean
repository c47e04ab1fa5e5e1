import ChangeRelay.Text.Hex
import ChangeRelay.Time.Timestamp
import ChangeRelay.Toml.Basic
/-!
# Numbers and times of TOML

A number is an integer of 64 bits or a binary64 number. Digits may be grouped by single underscores.
Times are checked and kept as text.
-/

namespace ChangeRelay.Toml

/-! ## Digits -/

/-- Whether `c` is a decimal digit. -/
def isDecimal (c : Char) : Bool :=
  (Timestamp.digit? c).isSome

/-- Reads one or more digits of a base, single underscores between them. -/
def readDigits (isDigit : Char → Bool) : List Char → Option (List Char × List Char)
  | [] => none
  | c :: rest =>
    if isDigit c then
      match rest with
      | '_' :: more => (readDigits isDigit more).map fun (ds, rest) => (c :: ds, rest)
      | [] => some ([c], [])
      | d :: more =>
        if isDigit d then
          (readDigits isDigit (d :: more)).map fun (ds, rest) => (c :: ds, rest)
        else some ([c], d :: more)
    else none

/-- The number that digits stand for. -/
def valueOf (base : Nat) (digits : List Char) : Nat :=
  digits.foldl (fun n c => base * n + (Hex.digit? c).getD 0) 0

/-- Reads the sign of a number: whether it is negative. -/
def readSign : List Char → Bool × List Char
  | '-' :: rest => (true, rest)
  | '+' :: rest => (false, rest)
  | cs => (false, cs)

/-- Reads the digits of a whole number, which does not start with a zero unless it is one. -/
def readWhole : List Char → Option (List Char × List Char)
  | '0' :: rest => some (['0'], rest)
  | cs => readDigits isDecimal cs

/-- An integer of 64 bits. -/
def integer? (n : Int) : Option Toml :=
  if Int64.minValue.toInt ≤ n && n ≤ Int64.maxValue.toInt then some (.int n) else none

/-! ## Integers -/

/-- Reads the digits of another base than ten. -/
def readBased (base : Nat) (cs : List Char) : Option (Toml × List Char) := do
  let isDigit (c : Char) : Bool := (Hex.digit? c).any (· < base)
  let (digits, rest) ← readDigits isDigit cs
  let n ← integer? (valueOf base digits)
  some (n, rest)

/-- Reads an integer. -/
def readInteger : List Char → Option (Toml × List Char)
  | '0' :: 'x' :: rest => readBased 16 rest
  | '0' :: 'o' :: rest => readBased 8 rest
  | '0' :: 'b' :: rest => readBased 2 rest
  | cs => do
    let (negative, cs) := readSign cs
    let (digits, rest) ← readWhole cs
    let n := valueOf 10 digits
    let v ← integer? (if negative then -(n : Int) else n)
    some (v, rest)

/-! ## Floats -/

/-- Reads an exponent, if there is one. -/
def readExponent : List Char → Option (Int × List Char)
  | c :: rest =>
    if c = 'e' || c = 'E' then do
      let (negative, cs) := readSign rest
      let (digits, rest) ← readDigits isDecimal cs
      let n := valueOf 10 digits
      some (if negative then -(n : Int) else n, rest)
    else some (0, c :: rest)
  | [] => some (0, [])

/-- Reads the fraction after its point, if there is one. -/
def readFraction : List Char → Option (List Char × List Char)
  | '.' :: rest => readDigits isDecimal rest
  | cs => some ([], cs)

/-- Whether the text goes on as no integer would. -/
def hasFraction : List Char → Bool
  | c :: _ => c = '.' || c = 'e' || c = 'E'
  | [] => false

/-- The number with a sign. -/
def signed (negative : Bool) (x : Binary64) : Binary64 :=
  if negative then x.neg else x

/-- Reads a number with a fraction or an exponent after its whole part. Only below zero may it lie
outside the finite numbers. -/
def readFloat (negative : Bool) (whole cs : List Char) : Option (Toml × List Char) := do
  let (fraction, cs) ← readFraction cs
  let (exponent, rest) ← readExponent cs
  let x := signed negative
    (.nearest (valueOf 10 (whole ++ fraction)) (exponent - fraction.length))
  if x = .infinity then none else some (.float x, rest)

/-- Reads an infinite number or the one that is none. -/
def readSpecial (cs : List Char) : Option (Toml × List Char) :=
  let (negative, cs) := readSign cs
  match cs with
  | 'i' :: 'n' :: 'f' :: rest => some (.float (signed negative .infinity), rest)
  | 'n' :: 'a' :: 'n' :: rest => some (.float (signed negative .notANumber), rest)
  | _ => none

/-! ## Times -/

/-- Reads just so many digits. -/
def readWidth (width : Nat) (cs : List Char) : Option (Nat × List Char) :=
  let digits := cs.take width
  if digits.length = width && digits.all isDecimal then
    some (valueOf 10 digits, cs.drop width)
  else none

/-- Reads two digits with a value up to a limit. -/
def readTwo (limit : Nat) (cs : List Char) : Option (Nat × List Char) := do
  let (n, rest) ← readWidth 2 cs
  if n ≤ limit then some (n, rest) else none

/-- Reads the character `c`. -/
def readChar (c : Char) : List Char → Option (List Char)
  | d :: rest => if d = c then some rest else none
  | [] => none

/-- Reads a date. -/
def readDate (cs : List Char) : Option (List Char × List Char) := do
  let (year, rest) ← readWidth 4 cs
  let rest ← readChar '-' rest
  let (month, rest) ← readTwo 12 rest
  let rest ← readChar '-' rest
  let (day, rest) ← readTwo 31 rest
  if Timestamp.isDate year month day then some (cs.take 10, rest) else none

/-- Reads the fraction of a second, if there is one: its first nine digits, without the zeros at
their end. -/
def readSubsecond : List Char → Option (List Char × List Char)
  | '.' :: rest =>
    let digits := rest.takeWhile isDecimal
    let kept := ((digits.take 9).reverse.dropWhile (· = '0')).reverse
    if digits.isEmpty then none
    else some (if kept.isEmpty then [] else '.' :: kept, rest.dropWhile isDecimal)
  | cs => some ([], cs)

/-- Reads a time of day. -/
def readClock (cs : List Char) : Option (List Char × List Char) := do
  let (_, rest) ← readTwo 23 cs
  let rest ← readChar ':' rest
  let (_, rest) ← readTwo 59 rest
  let rest ← readChar ':' rest
  let (_, rest) ← readTwo 60 rest
  let (fraction, rest) ← readSubsecond rest
  some (cs.take 8 ++ fraction, rest)

/-- Reads a zone, if there is one. No offset is west of none. -/
def readZone : List Char → Option (List Char × List Char)
  | [] => some ([], [])
  | c :: cs =>
    if c = 'Z' || c = 'z' then some (['Z'], cs)
    else if c = '+' || c = '-' then do
      let (hours, rest) ← readTwo 23 cs
      let rest ← readChar ':' rest
      let (minutes, rest) ← readTwo 59 rest
      some ((if hours + minutes = 0 then '+' else c) :: cs.take 5, rest)
    else some ([], c :: cs)

/-- Whether a character stands between date and time. -/
def isDateEnd (c : Char) : Bool :=
  c = 'T' || c = 't' || c = ' '

/-- Whether a text starts as a time of day does. -/
def looksClock (cs : List Char) : Bool :=
  (cs.take 2).all isDecimal && (cs.drop 2).head? = some ':'

/-- Reads the time after a date, if there is one. -/
def readAfterDate (cs : List Char) : Option (List Char × List Char) :=
  match cs with
  | c :: rest =>
    if isDateEnd c && looksClock rest then do
      let (clock, rest) ← readClock rest
      let (zone, rest) ← readZone rest
      some ('T' :: clock ++ zone, rest)
    else some ([], cs)
  | [] => some ([], [])

/-- Reads a date, a date with a time, or a time. -/
def readInstant (cs : List Char) : Option (Toml × List Char) := do
  let (written, rest) ←
    if looksClock cs then readClock cs
    else do
      let (date, rest) ← readDate cs
      let (time, rest) ← readAfterDate rest
      some (date ++ time, rest)
  some (.instant (String.ofList written), rest)

/-! ## Any of them -/

/-- Whether a text starts as a date or a time does. -/
def looksTimed (cs : List Char) : Bool :=
  looksClock cs || (cs.take 4).all isDecimal && (cs.drop 4).head? = some '-'

/-- Reads a time or a number. -/
def readNumeric (cs : List Char) : Option (Toml × List Char) :=
  if looksTimed cs then readInstant cs
  else
    let (negative, unsigned) := readSign cs
    match readWhole unsigned with
    | none => readSpecial cs
    | some (whole, rest) =>
      if hasFraction rest then readFloat negative whole rest else readInteger cs

end ChangeRelay.Toml
