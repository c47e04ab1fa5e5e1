import ChangeRelay.Toml.Number
import ChangeRelay.Toml.Text
/-!
# Reading TOML documents

A document is read line by line. Each line adds to the document read so far: a header opens a
table, an entry goes into the table opened last.
-/

namespace ChangeRelay.Toml

/-- Reads the item of an array, and what stands around it. -/
def readItem (read : List Char → Option (Toml × List Char)) (cs : List Char) :
    Option (Toml × List Char) := do
  let cs ← skipBetween (cs.length + 1) cs
  let (v, cs) ← read cs
  let cs ← skipBetween (cs.length + 1) cs
  some (v, cs)

/-- Reads the items of an array up to its closing bracket. A comma may follow the last one. -/
def readItems (read : List Char → Option (Toml × List Char)) : (fuel : Nat) → List Char →
    Option (List Toml × List Char)
  | 0, _ => none
  | fuel + 1, cs => do
    match ← skipBetween (cs.length + 1) cs with
    | ']' :: rest => some ([], rest)
    | cs => do
      let (v, cs) ← readItem read cs
      match cs with
      | ',' :: cs => do
        let (vs, cs) ← readItems read fuel cs
        some (v :: vs, cs)
      | ']' :: cs => some ([v], cs)
      | _ => none

/-- Reads a key and the value after the equals sign. -/
def readEntry (read : List Char → Option (Toml × List Char)) (cs : List Char) :
    Option ((List String × String × Toml) × List Char) := do
  let ((path, name), cs) ← readKey cs
  match cs with
  | '=' :: cs => do
    let (v, cs) ← read (skipSpace cs)
    some ((path, name, v), cs)
  | _ => none

/-- Reads the entries of an inline table up to its closing brace. No comma follows the last one. -/
def readEntries (read : List Char → Option (Toml × List Char)) : (fuel : Nat) → Toml →
    List Char → Option (Toml × List Char)
  | 0, _, _ => none
  | fuel + 1, t, cs => do
    let ((path, name, v), cs) ← readEntry read cs
    let t ← define path name v t
    match skipSpace cs with
    | ',' :: cs => readEntries read fuel t cs
    | '\x7d' :: cs => some (t, cs)
    | _ => none

/-- Reads an inline table after its opening brace. -/
def readInline (read : List Char → Option (Toml × List Char)) (cs : List Char) :
    Option (Toml × List Char) :=
  match skipSpace cs with
  | '\x7d' :: rest => some (.table .inline [], rest)
  | cs => readEntries read (cs.length + 1) (.table .inline []) cs

/-- Reads a value in which arrays and inline tables are nested at most `depth` deep. -/
def readValue : (depth : Nat) → List Char → Option (Toml × List Char)
  | _, '"' :: rest => (readString '"' rest).map fun (s, rest) => (.text (String.ofList s), rest)
  | _, '\'' :: rest => (readString '\'' rest).map fun (s, rest) => (.text (String.ofList s), rest)
  | _, 't' :: 'r' :: 'u' :: 'e' :: rest => some (.flag true, rest)
  | _, 'f' :: 'a' :: 'l' :: 's' :: 'e' :: rest => some (.flag false, rest)
  | 0, cs => readNumeric cs
  | depth + 1, '[' :: rest =>
    (readItems (readValue depth) (rest.length + 1) rest).map fun (vs, rest) => (.array vs, rest)
  | depth + 1, '\x7b' :: rest => readInline (readValue depth) rest
  | _, cs => readNumeric cs

/-- What the lines read so far have made: the document, and the way to the table opened last. -/
structure Draft where
  document : Toml
  current : List String

/-- Reads the name of a table between brackets. -/
def readHeader (closing : List Char) (cs : List Char) :
    Option ((List String × String) × List Char) := do
  let (key, cs) ← readKey cs
  if closing.isPrefixOf cs then some (key, cs.drop closing.length) else none

/-- Reads a line that starts with neither space nor a comment, up to its end. -/
def readStatement (d : Draft) (cs : List Char) : Option (Draft × List Char) :=
  match cs with
  | '[' :: '[' :: cs => do
    let ((path, name), cs) ← readHeader [']', ']'] cs
    let document ← within false (openElement name) path d.document
    some (⟨document, path ++ [name]⟩, cs)
  | '[' :: cs => do
    let ((path, name), cs) ← readHeader [']'] cs
    let document ← within false (openTable name) path d.document
    some (⟨document, path ++ [name]⟩, cs)
  | cs => do
    let ((path, name, v), cs) ← readEntry (readValue depthLimit) cs
    let document ← within false (define path name v) d.current d.document
    some (⟨document, d.current⟩, cs)

/-- Whether a line holds something before its comment and its end. -/
def hasStatement (cs : List Char) : Bool :=
  match cs with
  | [] => false
  | c :: _ => c ≠ '#' && c ≠ '\n' && c ≠ '\r'

/-- Reads the lines of a document. Every line takes a character, so `fuel` need not exceed the
length of the text. -/
def readLines : (fuel : Nat) → Draft → List Char → Option Toml
  | 0, d, _ => some d.document
  | fuel + 1, d, cs =>
    match skipSpace cs with
    | [] => some d.document
    | cs => do
      let (d, cs) ← if hasStatement cs then readStatement d cs else some (d, cs)
      let cs ← endLine cs
      readLines fuel d cs

/-- A text without a byte order mark at its start. -/
def skipMark (cs : List Char) : List Char :=
  match cs with
  | c :: rest => if c.toNat = 0xFEFF then rest else cs
  | [] => []

/-- The document that a text holds. -/
def read (cs : List Char) : Option Toml :=
  let cs := skipMark cs
  readLines (cs.length + 1) ⟨opened, []⟩ cs

end ChangeRelay.Toml
