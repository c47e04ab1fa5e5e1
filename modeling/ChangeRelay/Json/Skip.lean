import ChangeRelay.Json.Scalar
/-!
# Skipping values

A value that nobody asked for is passed over without being built, so it may be nested as deep as it
likes; its numbers and strings are only checked for their form.
-/

namespace ChangeRelay.Json

/-- The kinds of brackets. -/
inductive Bracket
  | array
  | object
deriving DecidableEq, Repr

/-- The closing bracket. -/
def Bracket.close : Bracket → Char
  | .array => ']'
  | .object => '\x7d'

/-- The complaint about a text that ends inside the brackets. -/
def Bracket.unfinished : Bracket → Complaint
  | .array => .unfinishedList
  | .object => .unfinishedObject

/-- The complaint about a character that follows an item and is neither comma nor bracket. -/
def Bracket.expectedComma : Bracket → Complaint
  | .array => .expectedCommaOrBracket
  | .object => .expectedCommaOrBrace

/-- Reads the colon after a name. -/
def readColon (cs : List Char) : Except Failure (List Char) :=
  match skipSpace cs with
  | ':' :: rest => .ok rest
  | [] => .error (.before .unfinishedObject [])
  | cs => .error (.onByte .expectedColon cs)

/-- Passes over the digits of an exponent. -/
def skipExponent (cs : List Char) : Except Failure (List Char) :=
  let cs :=
    match cs with
    | '+' :: rest => rest
    | '-' :: rest => rest
    | cs => cs
  match cs.takeWhile isDigit with
  | [] => .error (.onByte .invalidNumber cs)
  | _ => .ok (cs.dropWhile isDigit)

/-- Passes over what may follow the digits of a number. -/
def skipAfterDigits (cs : List Char) : Except Failure (List Char) :=
  match cs with
  | 'e' :: rest => skipExponent rest
  | 'E' :: rest => skipExponent rest
  | cs => .ok cs

/-- Passes over a number after its sign. -/
def skipUnsigned (cs : List Char) : Except Failure (List Char) :=
  let tail (cs : List Char) : Except Failure (List Char) :=
    match cs with
    | '.' :: rest =>
      match rest.takeWhile isDigit with
      | [] => .error (.onByte .invalidNumber rest)
      | _ => skipAfterDigits (rest.dropWhile isDigit)
    | cs => skipAfterDigits cs
  match cs with
  | '0' :: rest =>
    if (rest.head?.map isDigit).getD false then .error (.onByte .invalidNumber rest) else tail rest
  | cs =>
    match cs.takeWhile isDigit with
    | [] => .error (.onByte .invalidNumber cs)
    | _ => tail (cs.dropWhile isDigit)

/-- Passes over the rest of a string. -/
def skipString (cs : List Char) : Except Failure (List Char) :=
  match cs with
  | [] => .error (.before .unfinishedString [])
  | '"' :: rest => .ok rest
  | ['\\'] => .error (.before .unfinishedString [])
  | '\\' :: 'u' :: rest =>
    match h : readUnit rest with
    | .error f => .error f
    | .ok (_, rest') =>
      have := length_lt_of_readUnit h
      skipString rest'
  | '\\' :: c :: rest =>
    if (shortEscape? c).isSome then skipString rest
    else .error (.onByte .invalidEscape (c :: rest))
  | c :: rest =>
    if c.toNat < 0x20 then .error (.before .controlCharacter (c :: rest)) else skipString rest
termination_by cs.length

/-- Passes over a scalar. -/
def skipScalar (cs : List Char) : Except Failure (List Char) :=
  match cs with
  | 'n' :: rest => readWord "ull".toList rest
  | 't' :: rest => readWord "rue".toList rest
  | 'f' :: rest => readWord "alse".toList rest
  | '"' :: rest => skipString rest
  | '-' :: rest => skipUnsigned rest
  | c :: rest =>
    if isDigit c then skipUnsigned (c :: rest) else .error (.onByte .expectedValue (c :: rest))
  | [] => .error (.before .unfinishedValue [])

/-- Passes over a name and its colon. -/
def skipName (cs : List Char) : Except Failure (List Char) :=
  match skipSpace cs with
  | '"' :: rest => skipString rest >>= readColon
  | [] => .error (.before .unfinishedObject [])
  | cs => .error (.onByte .expectedKey cs)

/-- What comes next while values are passed over. -/
inductive Expecting
  /-- A value. -/
  | value
  /-- The first item after an opening bracket, or the closing one. -/
  | firstItem
  /-- What follows a value. -/
  | afterValue

/-- Passes over a value inside the given open brackets, innermost first. Of two steps one takes a
character, so `fuel` need not exceed twice the length of the text by more than two. -/
def skipFrom : (fuel : Nat) → Expecting → List Bracket → List Char → Except Failure (List Char)
  | 0, _, _, _ => .error (.before .unfinishedValue [])
  | fuel + 1, .value, stack, cs =>
    match skipSpace cs with
    | [] => .error (.before .unfinishedValue [])
    | '[' :: rest => skipFrom fuel .firstItem (.array :: stack) rest
    | '\x7b' :: rest => skipFrom fuel .firstItem (.object :: stack) rest
    | cs => skipScalar cs >>= skipFrom fuel .afterValue stack
  | _ + 1, _, [], cs => .ok cs
  | fuel + 1, .firstItem, b :: stack, cs =>
    match skipSpace cs with
    | [] => .error (.before b.unfinished [])
    | c :: rest =>
      if c = b.close then skipFrom fuel .afterValue stack rest
      else
        match b with
        | .array => skipFrom fuel .value (b :: stack) (c :: rest)
        | .object => skipName (c :: rest) >>= skipFrom fuel .value (b :: stack)
  | fuel + 1, .afterValue, b :: stack, cs =>
    match skipSpace cs with
    | [] => .error (.before b.unfinished [])
    | c :: rest =>
      if c = b.close then skipFrom fuel .afterValue stack rest
      else if c = ',' then
        match b with
        | .array => skipFrom fuel .value (b :: stack) rest
        | .object => skipName rest >>= skipFrom fuel .value (b :: stack)
      else .error (.onByte b.expectedComma (c :: rest))

/-- Passes over a value. -/
def skipValue (cs : List Char) : Except Failure (List Char) :=
  skipFrom (2 * cs.length + 2) .value [] cs

end ChangeRelay.Json
