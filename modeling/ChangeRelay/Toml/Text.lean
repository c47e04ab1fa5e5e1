import ChangeRelay.Text.Hex
import ChangeRelay.Toml.Basic
/-!
# Space, strings and keys of TOML

Every reader takes the text from where its piece starts and returns what is left of it; `none` is a
piece that no document has.
-/

namespace ChangeRelay.Toml

/-! ## Space -/

/-- The space within a line. -/
def isSpace (c : Char) : Bool :=
  c = ' ' || c = '\t'

/-- A text without the space at its start. -/
def skipSpace (cs : List Char) : List Char :=
  cs.dropWhile isSpace

/-- Whether a character may stand in a comment or, the delimiter and the backslash apart, in a
string: no control character but the tab. -/
def isPlain (c : Char) : Bool :=
  c = '\t' || 0x20 ≤ c.toNat && c.toNat ≠ 0x7F

/-- Reads the end of a line. -/
def newline? : List Char → Option (List Char)
  | '\n' :: rest => some rest
  | '\r' :: '\n' :: rest => some rest
  | _ => none

/-- Reads the end of a line, or stands at the end of the document. -/
def lineEnd? : List Char → Option (List Char)
  | [] => some []
  | cs => newline? cs

/-- A text without the comment at its start. -/
def skipComment : List Char → List Char
  | '#' :: rest => rest.dropWhile isPlain
  | cs => cs

/-- Reads what may follow the content of a line. -/
def endLine (cs : List Char) : Option (List Char) :=
  lineEnd? (skipComment (skipSpace cs))

/-- A text without the space and the ends of lines at its start. -/
def skipLines : (fuel : Nat) → List Char → List Char
  | 0, cs => cs
  | fuel + 1, cs =>
    match newline? (skipSpace cs) with
    | some rest => skipLines fuel rest
    | none => skipSpace cs

/-- Reads the space, the ends of lines and the comments between the items of an array; a comment
ends with its line. -/
def skipBetween : (fuel : Nat) → List Char → Option (List Char)
  | 0, cs => some cs
  | fuel + 1, cs =>
    match skipSpace cs with
    | '#' :: rest => newline? (skipComment ('#' :: rest)) >>= skipBetween fuel
    | '\n' :: rest => skipBetween fuel rest
    | '\r' :: rest => newline? ('\r' :: rest) >>= skipBetween fuel
    | rest => some rest

/-! ## Strings -/

/-- The character of a code point given by just so many hexadecimal digits. -/
def codePoint? (width : Nat) (cs : List Char) : Option (Char × List Char) := do
  let digits ← (cs.take width).mapM Hex.digit?
  if digits.length < width then none
  let n := digits.foldl (fun n d => 16 * n + d) 0
  if n.isValidChar then some (Char.ofNat n, cs.drop width) else none

/-- Reads what follows a backslash. -/
def escape? : List Char → Option (Char × List Char)
  | 'b' :: rest => some ('\x08', rest)
  | 'f' :: rest => some ('\x0C', rest)
  | 'n' :: rest => some ('\n', rest)
  | 'r' :: rest => some ('\r', rest)
  | 't' :: rest => some ('\t', rest)
  | '\\' :: rest => some ('\\', rest)
  | '"' :: rest => some ('"', rest)
  | 'u' :: rest => codePoint? 4 rest
  | 'U' :: rest => codePoint? 8 rest
  | _ => none

/-- Reads a string of one line up to its delimiter; `escapes` says whether a backslash is more than
itself. -/
def readLine (delimiter : Char) (escapes : Bool) : (fuel : Nat) → List Char →
    Option (List Char × List Char)
  | 0, _ => none
  | _ + 1, [] => none
  | fuel + 1, c :: rest =>
    if c = delimiter then some ([], rest)
    else if escapes && c = '\\' then do
      let (c, rest) ← escape? rest
      let (cs, rest) ← readLine delimiter escapes fuel rest
      some (c :: cs, rest)
    else if isPlain c then do
      let (cs, rest) ← readLine delimiter escapes fuel rest
      some (c :: cs, rest)
    else none

/-- Reads a string of many lines up to its three delimiters. Two more may stand before them, and up
to two anywhere else. A backslash at the end of a line takes the space and the ends of lines after
it away. -/
def readBlock (delimiter : Char) (escapes : Bool) : (fuel : Nat) → List Char →
    Option (List Char × List Char)
  | 0, _ => none
  | _ + 1, [] => none
  | fuel + 1, c :: rest =>
    if c = delimiter then
      let count := ((c :: rest).takeWhile (· = delimiter)).length
      let more := (c :: rest).drop count
      if 3 ≤ count then
        if count ≤ 5 then some (List.replicate (count - 3) delimiter, more) else none
      else do
        let (cs, rest) ← readBlock delimiter escapes fuel more
        some (List.replicate count delimiter ++ cs, rest)
    else if escapes && c = '\\' then
      match newline? (skipSpace rest) with
      | some more => readBlock delimiter escapes fuel (skipLines fuel more)
      | none => do
        let (c, rest) ← escape? rest
        let (cs, rest) ← readBlock delimiter escapes fuel rest
        some (c :: cs, rest)
    else if isPlain c then do
      let (cs, rest) ← readBlock delimiter escapes fuel rest
      some (c :: cs, rest)
    else do
      let more ← newline? (c :: rest)
      let (cs, rest) ← readBlock delimiter escapes fuel more
      some ('\n' :: cs, rest)

/-- Reads a string of many lines after its three delimiters; an end of line right there is not part
of it. -/
def readBlockAfter (delimiter : Char) (escapes : Bool) (cs : List Char) :
    Option (List Char × List Char) :=
  readBlock delimiter escapes (cs.length + 1) ((newline? cs).getD cs)

/-- Reads a string after its first delimiter. -/
def readString (delimiter : Char) (cs : List Char) : Option (List Char × List Char) :=
  let escapes := delimiter = '"'
  match cs with
  | a :: b :: rest =>
    if a = delimiter && b = delimiter then readBlockAfter delimiter escapes rest
    else readLine delimiter escapes (cs.length + 1) cs
  | cs => readLine delimiter escapes (cs.length + 1) cs

/-! ## Keys -/

/-- The characters of a key without quotes. -/
def isBareKey (c : Char) : Bool :=
  c.isAlphanum || c = '_' || c = '-'

/-- Reads one key, quoted or not. -/
def readSimpleKey (cs : List Char) : Option (String × List Char) :=
  match cs with
  | [] => none
  | c :: rest =>
    if c = '"' || c = '\'' then
      (readLine c (c = '"') (rest.length + 1) rest).map fun (name, rest) =>
        (String.ofList name, rest)
    else
      let name := cs.takeWhile isBareKey
      if name.isEmpty then none else some (String.ofList name, cs.dropWhile isBareKey)

/-- Reads keys with dots between them, space around each. -/
def readKeys : (fuel : Nat) → List Char → Option (List String × List Char)
  | 0, _ => none
  | fuel + 1, cs => do
    let (key, rest) ← readSimpleKey (skipSpace cs)
    match skipSpace rest with
    | '.' :: rest => do
      let (keys, rest) ← readKeys fuel rest
      some (key :: keys, rest)
    | rest => some ([key], rest)

/-- How deep values may be nested, and how many keys may stand between dots. -/
def depthLimit : Nat :=
  79

/-- Reads a key: the way to the table it belongs to, and its name there. -/
def readKey (cs : List Char) : Option ((List String × String) × List Char) := do
  let (keys, rest) ← readKeys (cs.length + 1) cs
  let name ← keys.getLast?
  if keys.length ≤ depthLimit then some ((keys.dropLast, name), rest) else none

end ChangeRelay.Toml
