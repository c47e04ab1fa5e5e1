import ChangeRelay.Decimal.Shortest
import ChangeRelay.Json.Value
import ChangeRelay.Text.Hex
/-!
# JSON text

A value is written in a layout: what stands between the brackets, names and values of an array or
object. The compact layout has nothing there; the indented layout puts every item on a line of its
own.
-/

namespace ChangeRelay.Json

/-- One character of a string: quotes, backslashes and the controls with a short form get it, other
characters below the space their code, and nothing else is escaped. -/
def escape (c : Char) : List Char :=
  match c with
  | '"' => ['\\', '"']
  | '\\' => ['\\', '\\']
  | '\x08' => ['\\', 'b']
  | '\x0c' => ['\\', 'f']
  | '\n' => ['\\', 'n']
  | '\r' => ['\\', 'r']
  | '\t' => ['\\', 't']
  | c =>
    if c.toNat < 0x20 then
      ['\\', 'u', '0', '0', Hex.digit (c.toNat / 16), Hex.digit (c.toNat % 16)]
    else [c]

/-- A string in quotes. -/
def quoted (s : String) : List Char :=
  '"' :: s.toList.flatMap escape ++ ['"']

/-- The digits of an integer after its sign. -/
def integerChars : Int → List Char
  | .ofNat n => Decimal.digitsOf n
  | .negSucc n => '-' :: Decimal.digitsOf (n + 1)

/-- The decimal exponents that are written without an exponent part. -/
def positionalExponents : Int × Int :=
  (-5, 15)

/-- The exponent part: its sign is always written. -/
def exponentChars (e : Int) : List Char :=
  'e' :: (if 0 ≤ e then '+' else '-') :: Decimal.digitsOf e.natAbs

/-- A finite number in the fewest digits that read back, with at least one decimal unless it has
an exponent part. -/
def floatChars (x : Binary64) : List Char :=
  let sign := if x.isNegative then ['-'] else []
  let d := Decimal.shortest x
  let digits := Decimal.digitsOf d.digits
  let point : Int := digits.length + d.exponent
  let e := point - 1
  if positionalExponents.1 ≤ e && e ≤ positionalExponents.2 then
    let body := Decimal.placed digits point
    sign ++ if body.contains '.' then body else body ++ ['.', '0']
  else
    match digits with
    | [one] => sign ++ one :: exponentChars e
    | first :: more => sign ++ first :: '.' :: more ++ exponentChars e
    | [] => sign

/-- A number. -/
def numberChars : Number → List Char
  | .int n => integerChars n
  | .float x => if x.isFinite then floatChars x else "null".toList

/-- What stands between the parts of an array or object. -/
structure Layout where
  /-- Before an item that is nested `depth` deep, and before the bracket that closes that level. -/
  gap : Nat → List Char
  /-- Between a name and its value. -/
  colon : List Char

/-- Nothing between the parts. -/
def Layout.compact : Layout where
  gap _ := []
  colon := [':']

/-- Every item on its own line, indented by two spaces a level. -/
def Layout.indented : Layout where
  gap depth := '\n' :: List.replicate (2 * depth) ' '
  colon := [':', ' ']

mutual

/-- The text of a value that is nested `depth` deep. -/
def chars (l : Layout) (depth : Nat) : Json → List Char
  | .null => "null".toList
  | .bool true => "true".toList
  | .bool false => "false".toList
  | .num n => numberChars n
  | .str s => quoted s
  | .arr [] => ['[', ']']
  | .arr (v :: rest) =>
    '[' :: l.gap (depth + 1) ++ chars l (depth + 1) v ++ itemChars l (depth + 1) rest
      ++ l.gap depth ++ [']']
  | .obj [] => ['{', '}']
  | .obj ((name, v) :: rest) =>
    '{' :: l.gap (depth + 1) ++ quoted name ++ l.colon ++ chars l (depth + 1) v
      ++ memberChars l (depth + 1) rest ++ l.gap depth ++ ['}']

/-- The items of an array after the first. -/
def itemChars (l : Layout) (depth : Nat) : List Json → List Char
  | [] => []
  | v :: rest => ',' :: l.gap depth ++ chars l depth v ++ itemChars l depth rest

/-- The members of an object after the first. -/
def memberChars (l : Layout) (depth : Nat) : List (String × Json) → List Char
  | [] => []
  | (name, v) :: rest =>
    ',' :: l.gap depth ++ quoted name ++ l.colon ++ chars l depth v ++ memberChars l depth rest

end

/-- The text of a value without any white space. -/
def compact (v : Json) : String :=
  String.ofList (v.chars .compact 0)

/-- The text of a value with every item on its own line. -/
def indented (v : Json) : String :=
  String.ofList (v.chars .indented 0)

end ChangeRelay.Json
