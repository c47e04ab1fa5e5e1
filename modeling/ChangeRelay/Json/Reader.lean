import ChangeRelay.Json.Container
/-!
# Reading JSON values

A text is read into a value; an object lists its members by name, and of members with one name the
last counts. Arrays and objects may be nested `depthLimit` deep.
-/

namespace ChangeRelay.Json

/-- How deep arrays and objects may be nested. -/
def depthLimit : Nat :=
  127

/-- The value of a scalar. -/
def ofScalar : Scalar → Json
  | .null => .null
  | .flag b => .bool b
  | .number n => .num n
  | .text s => .str s

/-- Reads a value whose arrays and objects are nested at most `depth` deep. -/
def readValue (depth : Nat) (cs : List Char) : Except Failure (Json × List Char) :=
  let readMember (read : List Char → Except Failure (Json × List Char))
      (members : List (String × Json)) (name : String) (cs : List Char) :
      Except Trouble (List (String × Json) × List Char) := do
    let (v, cs) ← lift (readColon cs >>= read)
    .ok (insertMember name v members, cs)
  match skipSpace cs with
  | [] => .error (.before .unfinishedValue [])
  | '[' :: rest =>
    match depth with
    | 0 => .error (.onByte .tooDeep ('[' :: rest))
    | depth + 1 => (readArray (readValue depth) rest).map fun (vs, rest) => (.arr vs, rest)
  | '\x7b' :: rest =>
    match depth with
    | 0 => .error (.onByte .tooDeep ('\x7b' :: rest))
    | depth + 1 => readObject (readMember (readValue depth)) [] (fun ms => .ok (.obj ms)) rest
  | c :: rest =>
    match readScalar? (c :: rest) with
    | some r => r.map fun (s, rest) => (ofScalar s, rest)
    | none => .error (.onByte .expectedValue (c :: rest))

/-- Checks that nothing but white space is left. -/
def atEnd (r : Except Failure (α × List Char)) : Except Failure α := do
  let (a, cs) ← r
  match skipSpace cs with
  | [] => .ok a
  | rest => .error (.onByte .trailingCharacters rest)

/-- The whole text, read from its start to its end by `read`. -/
def readText (read : List Char → Except Failure (α × List Char)) (text : List Char) :
    Except Fault α :=
  (atEnd (read text)).mapError fun f => f.inText text

/-- The value of a text. -/
def parse (text : List Char) : Except Fault Json :=
  readText (readValue depthLimit) text

end ChangeRelay.Json
