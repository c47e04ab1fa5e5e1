import ChangeRelay.Decimal.Shortest
import ChangeRelay.Text.Blank
import ChangeRelay.Text.Utf8
/-!
# Timestamps

A point of time in UTC by its calendar fields, in the profile of ISO 8601 that RFC 3339 describes.
`text` writes one form only; `read` is lenient: it takes one-digit fields, white space between the
fields, any number of fraction digits and any zone offset below a day.
-/

namespace ChangeRelay

/-- A point of time in UTC. A leap second has the number 60. -/
structure Timestamp where
  year : Int
  month : Nat
  day : Nat
  hour : Nat
  minute : Nat
  second : Nat
  nanos : Nat
deriving DecidableEq, Repr, Inhabited

namespace Timestamp

/-- Why a text is no timestamp. -/
inductive Fault
  | outOfRange
  | impossible
  | invalid
  | tooShort
  | tooLong
deriving DecidableEq, Repr

/-- The text of a fault. -/
def Fault.message : Fault → String
  | .outOfRange => "input is out of range"
  | .impossible => "no possible date and time matching input"
  | .invalid => "input contains invalid characters"
  | .tooShort => "premature end of input"
  | .tooLong => "trailing input"

/-! ## Calendar -/

/-- The first and the last year of the calendar. -/
def yearRange : Int × Int :=
  (-262143, 262142)

/-- Whether the year has a 29 February. -/
def isLeapYear (year : Int) : Bool :=
  year % 4 = 0 && (year % 100 ≠ 0 || year % 400 = 0)

/-- The length of a month. -/
def daysInMonth (year : Int) (month : Nat) : Nat :=
  if month = 2 then (if isLeapYear year then 29 else 28)
  else if month = 4 || month = 6 || month = 9 || month = 11 then 30
  else 31

/-- Whether there is such a day. -/
def isDate (year : Int) (month day : Nat) : Bool :=
  yearRange.1 ≤ year && year ≤ yearRange.2 && 1 ≤ month && month ≤ 12
    && 1 ≤ day && day ≤ daysInMonth year month

/-- The same time of the next day. -/
def nextDay (t : Timestamp) : Timestamp :=
  if t.day < daysInMonth t.year t.month then { t with day := t.day + 1 }
  else if t.month < 12 then { t with month := t.month + 1, day := 1 }
  else { t with year := t.year + 1, month := 1, day := 1 }

/-- The same time of the day before. -/
def previousDay (t : Timestamp) : Timestamp :=
  if 1 < t.day then { t with day := t.day - 1 }
  else if 1 < t.month then
    { t with month := t.month - 1, day := daysInMonth t.year (t.month - 1) }
  else { t with year := t.year - 1, month := 12, day := 31 }

/-- The point of time whose local fields, in a zone `offset` minutes ahead of UTC, are those of
`t`; the offset is less than a day. -/
def ofLocal (t : Timestamp) (offset : Int) : Timestamp :=
  let minutes : Int := (60 * t.hour + t.minute : Nat) - offset
  let inDay := (minutes % 1440).toNat
  let moved := { t with hour := inDay / 60, minute := inDay % 60 }
  if minutes < 0 then moved.previousDay
  else if 1440 ≤ minutes then moved.nextDay
  else moved

/-! ## Reading -/

/-- A character as a decimal digit. -/
def digit? (c : Char) : Option Nat :=
  if '0' ≤ c && c ≤ '9' then some (c.toNat - '0'.toNat) else none

/-- The value of decimal digits. -/
def valueOf (digits : List Char) : Nat :=
  digits.foldl (fun n c => 10 * n + (c.toNat - '0'.toNat)) 0

/-- Reads one to `width` digits. -/
def number (width : Nat) (cs : List Char) : Except Fault (Nat × List Char) :=
  let digits := (cs.take width).takeWhile (fun c => (digit? c).isSome)
  match cs, digits with
  | [], _ => .error .tooShort
  | _, [] => .error .invalid
  | cs, digits => .ok (valueOf digits, cs.drop digits.length)

/-- Reads a number of at most `width` digits that lies between `low` and `high`, white space before
it skipped. -/
def field (width low high : Nat) (cs : List Char) : Except Fault (Nat × List Char) := do
  let (n, rest) ← number width (skipBlank cs)
  if low ≤ n && n ≤ high then .ok (n, rest) else .error .outOfRange

/-- The magnitude that a year with a sign may have. -/
def yearLimit : Nat :=
  UInt32.size / 2

/-- Reads a year: four digits at most, or a sign and any number of digits. -/
def yearField (cs : List Char) : Except Fault (Int × List Char) :=
  match skipBlank cs with
  | '-' :: rest => do
    let (n, rest) ← number rest.length rest
    if n ≤ yearLimit then .ok (-(n : Int), rest) else .error .outOfRange
  | '+' :: rest => do
    let (n, rest) ← number rest.length rest
    if n < yearLimit then .ok ((n : Int), rest) else .error .outOfRange
  | cs => do
    let (n, rest) ← number 4 cs
    .ok ((n : Int), rest)

/-- Reads the character `c`. -/
def literal (c : Char) : List Char → Except Fault (List Char)
  | [] => .error .tooShort
  | d :: rest => if d = c then .ok rest else .error .invalid

/-- Reads the fraction of a second, if there is one; digits after the ninth do not count. -/
def fraction (cs : List Char) : Except Fault (Nat × List Char) :=
  match cs with
  | '.' :: cs => do
    let (n, rest) ← number 9 cs
    let digits := cs.length - rest.length
    .ok (n * Nat.pow 10 (9 - digits), rest.dropWhile (fun c => (digit? c).isSome))
  | cs => .ok (0, cs)

/-- Reads two digits. -/
def twoDigits : List Char → Except Fault (Nat × List Char)
  | [] => .error .tooShort
  | [c] => if c.utf8Size < 2 then .error .tooShort else .error .invalid
  | a :: b :: rest =>
    match digit? a, digit? b with
    | some a, some b => .ok (10 * a + b, rest)
    | _, _ => .error .invalid

/-- Reads hours and minutes of a zone after its sign, as minutes. -/
def offsetMinutes (cs : List Char) : Except Fault (Nat × List Char) := do
  let (hours, rest) ← twoDigits cs
  let (minutes, rest) ← twoDigits (rest.dropWhile fun c => c = ':' || isBlank c)
  if minutes < 60 then .ok (60 * hours + minutes, rest) else .error .outOfRange

/-- Reads a zone as its minutes ahead of UTC. -/
def zone (cs : List Char) : Except Fault (Int × List Char) :=
  if (cs.take 3).map Char.toLower = ['u', 't', 'c'] then .ok (0, cs.drop 3)
  else
    match cs with
    | [] => .error .tooShort
    | c :: rest =>
      if c = 'Z' || c = 'z' then .ok (0, rest)
      else if c = '+' then (offsetMinutes rest).map fun (n, rest) => ((n : Int), rest)
      else if c = '-' || c = '−' then
        (offsetMinutes rest).map fun (n, rest) => (-(n : Int), rest)
      else .error .invalid

/-- Reads the character between date and time. -/
def separator : List Char → Except Fault (List Char)
  | [] => .error .tooShort
  | c :: rest => if c = 'T' || c = 't' || c = ' ' then .ok rest else .error .invalid

/-- The point of time that a text tells. -/
def read (cs : List Char) : Except Fault Timestamp := do
  let (year, cs) ← yearField cs
  let cs ← literal '-' (skipBlank cs)
  let (month, cs) ← field 2 1 12 cs
  let cs ← literal '-' (skipBlank cs)
  let (day, cs) ← field 2 1 31 cs
  let cs ← separator cs
  let (hour, cs) ← field 2 0 23 cs
  let cs ← literal ':' (skipBlank cs)
  let (minute, cs) ← field 2 0 59 cs
  let cs ← literal ':' (skipBlank cs)
  let (second, cs) ← field 2 0 60 cs
  let (nanos, cs) ← fraction cs
  let (offset, cs) ← zone (skipBlank cs)
  if !(skipBlank cs).isEmpty then .error .tooLong
  else if !isDate year month day then .error .outOfRange
  else if 1440 ≤ offset.natAbs then .error .outOfRange
  else
    let t := ofLocal ⟨year, month, day, hour, minute, second, nanos⟩ offset
    if yearRange.1 ≤ t.year && t.year ≤ yearRange.2 then .ok t else .error .impossible

/-! ## Writing -/

/-- A number in at least `width` digits. -/
def padded (width n : Nat) : List Char :=
  let digits := Decimal.digitsOf n
  List.replicate (width - digits.length) '0' ++ digits

/-- A year: four digits, with a sign when it does not fit them. -/
def yearChars (year : Int) : List Char :=
  if 0 ≤ year && year ≤ 9999 then padded 4 year.natAbs
  else (if year < 0 then '-' else '+') :: padded 4 year.natAbs

/-- The fraction of a second in none, three, six or nine digits, as many as it needs. -/
def fractionChars (nanos : Nat) : List Char :=
  if nanos = 0 then []
  else if nanos % 1000000 = 0 then '.' :: padded 3 (nanos / 1000000)
  else if nanos % 1000 = 0 then '.' :: padded 6 (nanos / 1000)
  else '.' :: padded 9 nanos

/-- Date and time without the zone. -/
def civilChars (t : Timestamp) : List Char :=
  yearChars t.year ++ '-' :: padded 2 t.month ++ '-' :: padded 2 t.day
    ++ 'T' :: padded 2 t.hour ++ ':' :: padded 2 t.minute ++ ':' :: padded 2 t.second
    ++ fractionChars t.nanos

/-- The text of a point of time, the zone written as the letter for UTC. -/
def text (t : Timestamp) : String :=
  String.ofList (t.civilChars ++ ['Z'])

/-- The text of a point of time, the zone written as an offset. -/
def textWithOffset (t : Timestamp) : String :=
  String.ofList (t.civilChars ++ "+00:00".toList)

end Timestamp

end ChangeRelay
