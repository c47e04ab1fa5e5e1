import ChangeRelay.Shape.Mismatch
import ChangeRelay.Text.Utf8
/-!
# Faults of a JSON text

A reader that fails says what is wrong and how many bytes it had not read by then; the line and the
column follow from that number and the whole text.
-/

namespace ChangeRelay.Json

/-- What is wrong with a text. -/
inductive Complaint
  | unfinishedValue
  | unfinishedObject
  | unfinishedList
  | unfinishedString
  | expectedValue
  | expectedColon
  | expectedCommaOrBrace
  | expectedCommaOrBracket
  | expectedWord
  | expectedKey
  | trailingComma
  | trailingCharacters
  | tooDeep
  | invalidNumber
  | numberOutOfRange
  | controlCharacter
  | invalidEscape
  | unfinishedSurrogatePair
  | loneSurrogate
  | mismatch (m : Mismatch)
deriving DecidableEq, Repr

/-- The text of a complaint. -/
def Complaint.message : Complaint → String
  | .unfinishedValue => "EOF while parsing a value"
  | .unfinishedObject => "EOF while parsing an object"
  | .unfinishedList => "EOF while parsing a list"
  | .unfinishedString => "EOF while parsing a string"
  | .expectedValue => "expected value"
  | .expectedColon => "expected `:`"
  | .expectedCommaOrBrace => "expected `,` or `\x7d`"
  | .expectedCommaOrBracket => "expected `,` or `]`"
  | .expectedWord => "expected ident"
  | .expectedKey => "key must be a string"
  | .trailingComma => "trailing comma"
  | .trailingCharacters => "trailing characters"
  | .tooDeep => "recursion limit exceeded"
  | .invalidNumber => "invalid number"
  | .numberOutOfRange => "number out of range"
  | .controlCharacter => "control character (\\u0000-\\u001F) found while parsing a string"
  | .invalidEscape => "invalid escape"
  | .unfinishedSurrogatePair => "unexpected end of hex escape"
  | .loneSurrogate => "lone leading surrogate in hex escape"
  | .mismatch m => m.message .json

/-- A complaint and the number of bytes behind the place it concerns. -/
structure Failure where
  complaint : Complaint
  left : Nat
deriving DecidableEq, Repr

/-- A complaint about what ends before `rest`. -/
def Failure.before (complaint : Complaint) (rest : List Char) : Failure :=
  ⟨complaint, Utf8.byteLength rest⟩

/-- A complaint about the first byte of `rest`. -/
def Failure.onByte (complaint : Complaint) (rest : List Char) : Failure :=
  ⟨complaint, Utf8.byteLength rest - 1⟩

/-- The line and the column after the first `bytes` bytes of a text, where `line` and `column`
count what stands before the text. -/
def placeFrom (line column bytes : Nat) : List Char → Nat × Nat
  | [] => (line, column)
  | c :: rest =>
    if bytes = 0 then (line, column)
    else if c = '\n' then placeFrom (line + 1) 0 (bytes - 1) rest
    else placeFrom line (column + min bytes c.utf8Size) (bytes - c.utf8Size) rest

/-- A complaint and its place in the text, lines counted from one. -/
structure Fault where
  complaint : Complaint
  line : Nat
  column : Nat
deriving DecidableEq, Repr

/-- The fault that a failure to read `text` is. -/
def Failure.inText (f : Failure) (text : List Char) : Fault :=
  let (line, column) := placeFrom 1 0 (Utf8.byteLength text - f.left) text
  ⟨f.complaint, line, column⟩

/-- The text of a fault. -/
def Fault.message (f : Fault) : String :=
  s!"{f.complaint.message} at line {f.line} column {f.column}"

end ChangeRelay.Json
