import ChangeRelay.Json.Failure
import ChangeRelay.Text.Hex
import ChangeRelay.Text.Utf16
/-!
# Reading scalars

White space, words, numbers and strings of a JSON text. Every reader takes the text from where the
scalar starts and returns what is left of it.
-/

namespace ChangeRelay.Json

/-- The white space of JSON. -/
def isSpace (c : Char) : Bool :=
  c = ' ' || c = '\n' || c = '\t' || c = '\r'

/-- A text without the white space at its start. -/
def skipSpace (cs : List Char) : List Char :=
  cs.dropWhile isSpace

/-- Reads the characters of `word`. -/
def readWord : List Char → List Char → Except Failure (List Char)
  | [], cs => .ok cs
  | _ :: _, [] => .error (.before .unfinishedValue [])
  | w :: word, c :: cs =>
    if c = w then readWord word cs else .error (.onByte .expectedWord (c :: cs))

/-! ## Numbers -/

/-- Whether `c` is a decimal digit. -/
def isDigit (c : Char) : Bool :=
  '0' ≤ c && c ≤ '9'

/-- The bound on a significand. -/
def significandLimit : Nat :=
  UInt64.size

/-- Appends digits to a significand as long as it stays below the limit; the second part are the
digits from the first one that does not fit. -/
def absorb (significand : Nat) : List Char → Nat × List Char
  | [] => (significand, [])
  | d :: digits =>
    let next := 10 * significand + (d.toNat - '0'.toNat)
    if next < significandLimit then absorb next digits else (significand, d :: digits)

/-- A decimal `significand * 10 ^ exponent`. -/
structure Decimal where
  significand : Nat
  exponent : Int

/-- The binary64 number of a decimal with a sign. -/
def Decimal.toNumber (d : Decimal) (negative : Bool) (rest : List Char) :
    Except Failure (Number × List Char) :=
  match Binary64.ofDecimal negative d.significand.toUInt64 d.exponent with
  | some x => .ok (.float x, rest)
  | none => .error (.before .numberOutOfRange rest)

/-- The bound on a written exponent; one that reaches it counts as infinite. -/
def exponentLimit : Nat :=
  UInt32.size / 2

/-- The digits of an exponent up to the one with which it reaches the limit, and whether it does. -/
def absorbExponent (e : Nat) : List Char → Option Nat × List Char
  | [] => (some e, [])
  | d :: digits =>
    let next := 10 * e + (d.toNat - '0'.toNat)
    if next < exponentLimit then absorbExponent next digits else (none, digits)

/-- Reads an exponent after its letter. -/
def readExponent (negative : Bool) (d : Decimal) (cs : List Char) :
    Except Failure (Number × List Char) :=
  let (down, cs) :=
    match cs with
    | '+' :: rest => (false, rest)
    | '-' :: rest => (true, rest)
    | cs => (false, cs)
  let digits := cs.takeWhile isDigit
  let rest := cs.dropWhile isDigit
  if cs.isEmpty then .error (.before .unfinishedValue [])
  else if digits.isEmpty then .error (.onByte .invalidNumber cs)
  else
    match absorbExponent 0 digits with
    | (some e, _) => { d with exponent := if down then d.exponent - e else d.exponent + e }.toNumber
        negative rest
    | (none, unread) =>
      if d.significand ≠ 0 && !down then .error (.before .numberOutOfRange (unread ++ rest))
      else { significand := 0, exponent := 0 : Decimal }.toNumber negative rest

/-- Reads what follows the digits of a fraction. -/
def readAfterFraction (negative : Bool) (d : Decimal) (cs : List Char) :
    Except Failure (Number × List Char) :=
  match cs with
  | 'e' :: rest => readExponent negative d rest
  | 'E' :: rest => readExponent negative d rest
  | cs => d.toNumber negative cs

/-- Reads a fraction after its point. -/
def readFraction (negative : Bool) (d : Decimal) (cs : List Char) :
    Except Failure (Number × List Char) :=
  let digits := cs.takeWhile isDigit
  let rest := cs.dropWhile isDigit
  if digits.isEmpty then
    .error (.onByte (if rest.isEmpty then .unfinishedValue else .invalidNumber) rest)
  else
    let (significand, dropped) := absorb d.significand digits
    readAfterFraction negative
      ⟨significand, d.exponent - ((digits.length - dropped.length : Nat) : Int)⟩ rest

/-- The least integer. -/
def leastInteger : Int :=
  Int64.minValue.toInt

/-- Reads what follows the digits of the whole part. -/
def readAfterWhole (negative : Bool) (digits cs : List Char) :
    Except Failure (Number × List Char) :=
  let (significand, dropped) := absorb 0 digits
  let d : Decimal := ⟨significand, dropped.length⟩
  match cs with
  | '.' :: rest => readFraction negative d rest
  | 'e' :: rest => readExponent negative d rest
  | 'E' :: rest => readExponent negative d rest
  | rest =>
    let n : Int := if negative then -significand else significand
    if dropped.isEmpty && leastInteger ≤ n && !(negative && significand = 0) then
      .ok (.int n, rest)
    else d.toNumber negative rest

/-- Reads a number after its sign. -/
def readUnsigned (negative : Bool) (cs : List Char) : Except Failure (Number × List Char) :=
  match cs with
  | [] => .error (.before .unfinishedValue [])
  | '0' :: rest =>
    if (rest.head?.map isDigit).getD false then .error (.onByte .invalidNumber rest)
    else readAfterWhole negative ['0'] rest
  | c :: rest =>
    if isDigit c then
      readAfterWhole negative ((c :: rest).takeWhile isDigit) ((c :: rest).dropWhile isDigit)
    else .error (.onByte .invalidNumber (c :: rest))

/-- Reads a number. -/
def readNumber (cs : List Char) : Except Failure (Number × List Char) :=
  match cs with
  | '-' :: rest => readUnsigned true rest
  | cs => readUnsigned false cs

/-! ## Strings -/

/-- Reads the four digits of a code unit. The next four bytes are read before they are looked
at. -/
def readUnit (cs : List Char) : Except Failure (Nat × List Char) :=
  let left := Utf8.byteLength cs
  if left < 4 then .error ⟨.unfinishedString, 0⟩
  else
    match cs with
    | a :: b :: c :: d :: rest =>
      match Hex.digit? a, Hex.digit? b, Hex.digit? c, Hex.digit? d with
      | some a, some b, some c, some d => .ok (((16 * a + b) * 16 + c) * 16 + d, rest)
      | _, _, _, _ => .error ⟨.invalidEscape, left - 4⟩
    | _ => .error ⟨.invalidEscape, left - 4⟩

/-- Whether a code unit is the first of a surrogate pair. -/
def isLeading (u : Nat) : Bool :=
  0xD800 ≤ u && u ≤ 0xDBFF

/-- Whether a code unit is the second of a surrogate pair. -/
def isTrailing (u : Nat) : Bool :=
  0xDC00 ≤ u && u ≤ 0xDFFF

/-- Reads one given character inside a surrogate pair. -/
def readPairMark (mark : Char) (cs : List Char) : Except Failure (List Char) :=
  match cs with
  | [] => .error (.before .unfinishedString [])
  | c :: rest =>
    if c = mark then .ok rest else .error (.onByte .unfinishedSurrogatePair (c :: rest))

/-- Reads a character that is written by its code units, after the first backslash and letter. -/
def readCodePoint (cs : List Char) : Except Failure (Char × List Char) := do
  let (u, rest) ← readUnit cs
  if isTrailing u then .error (.before .loneSurrogate rest)
  else if isLeading u then
    let rest ← readPairMark '\\' rest
    let rest ← readPairMark 'u' rest
    let (v, rest) ← readUnit rest
    if isTrailing v then
      .ok (Char.ofNat (0x10000 + (u - 0xD800) * 0x400 + (v - 0xDC00)), rest)
    else .error (.before .loneSurrogate rest)
  else .ok (Char.ofNat u, rest)

/-- The character that a letter after a backslash stands for. -/
def shortEscape? : Char → Option Char
  | '"' => some '"'
  | '\\' => some '\\'
  | '/' => some '/'
  | 'b' => some '\x08'
  | 'f' => some '\x0c'
  | 'n' => some '\n'
  | 'r' => some '\r'
  | 't' => some '\t'
  | _ => none

/-- Reads an escape after its backslash. -/
def readEscape (cs : List Char) : Except Failure (Char × List Char) :=
  match cs with
  | [] => .error (.before .unfinishedString [])
  | c :: rest =>
    if c = 'u' then readCodePoint rest
    else
      match shortEscape? c with
      | some d => .ok (d, rest)
      | none => .error (.onByte .invalidEscape (c :: rest))

theorem length_lt_of_readUnit {cs rest : List Char} {u : Nat} (h : readUnit cs = .ok (u, rest)) :
    rest.length < cs.length := by
  simp only [readUnit] at h
  split at h
  · simp at h
  · split at h
    · split at h
      · simp at h
        simp [h.2]
        omega
      · simp at h
    · simp at h

theorem length_lt_of_readPairMark {mark : Char} {cs rest : List Char}
    (h : readPairMark mark cs = .ok rest) : rest.length < cs.length := by
  unfold readPairMark at h
  repeat' split at h
  all_goals simp at h
  simp [h]

theorem length_lt_of_readCodePoint {cs rest : List Char} {c : Char}
    (h : readCodePoint cs = .ok (c, rest)) : rest.length < cs.length := by
  simp only [readCodePoint, bind, Except.bind] at h
  repeat' split at h
  all_goals simp at h
  case _ u hu _ _ _ mark₁ h₁ _ mark₂ h₂ _ v hv _ =>
    have := length_lt_of_readUnit hu
    have := length_lt_of_readPairMark h₁
    have := length_lt_of_readPairMark h₂
    have := length_lt_of_readUnit hv
    grind
  case _ u hu _ _ =>
    have := length_lt_of_readUnit hu
    grind

theorem length_lt_of_readEscape {cs rest : List Char} {c : Char}
    (h : readEscape cs = .ok (c, rest)) : rest.length < cs.length := by
  unfold readEscape at h
  split at h
  · simp at h
  · split at h
    · have := length_lt_of_readCodePoint h
      grind
    · split at h <;> simp at h
      simp [h.2]

/-- Reads a string after its opening quote. -/
def readStringBody (cs : List Char) : Except Failure (List Char × List Char) :=
  match cs with
  | [] => .error (.before .unfinishedString [])
  | '"' :: rest => .ok ([], rest)
  | '\\' :: rest =>
    match h : readEscape rest with
    | .error f => .error f
    | .ok (c, rest') =>
      have := length_lt_of_readEscape h
      (readStringBody rest').map fun (s, rest) => (c :: s, rest)
  | c :: rest =>
    if c.toNat < 0x20 then .error (.onByte .controlCharacter (c :: rest))
    else (readStringBody rest).map fun (s, rest) => (c :: s, rest)
termination_by cs.length

/-- Reads a string after its opening quote. -/
def readString (cs : List Char) : Except Failure (String × List Char) :=
  (readStringBody cs).map fun (s, rest) => (String.ofList s, rest)

/-! ## Scalars -/

/-- Reads a scalar from its first character on; `none` when no scalar starts there. -/
def readScalar? (cs : List Char) : Option (Except Failure (Scalar × List Char)) :=
  match cs with
  | 'n' :: rest => some ((readWord "ull".toList rest).map fun rest => (.null, rest))
  | 't' :: rest => some ((readWord "rue".toList rest).map fun rest => (.flag true, rest))
  | 'f' :: rest => some ((readWord "alse".toList rest).map fun rest => (.flag false, rest))
  | '"' :: rest => some ((readString rest).map fun (s, rest) => (.text s, rest))
  | c :: rest =>
    if c = '-' || isDigit c then
      some ((readNumber (c :: rest)).map fun (n, rest) => (.number n, rest))
    else none
  | [] => none

end ChangeRelay.Json
