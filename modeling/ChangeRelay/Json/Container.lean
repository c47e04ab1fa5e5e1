import ChangeRelay.Json.Skip
/-!
# Reading arrays and objects

The walk over the items of an array or the members of an object, whatever is read from them. A
complaint about the container as a whole has its place behind the closing bracket, so it travels
without a place until the container is closed.
-/

namespace ChangeRelay.Json

/-- Why the inside of a container could not be read. -/
inductive Trouble
  /-- A fault of the text, at its place. -/
  | placed (f : Failure)
  /-- A container of the wrong shape, and the text after what was read of it. -/
  | loose (m : Mismatch) (rest : List Char)

/-- A reading that only fails at a place. -/
def lift (r : Except Failure α) : Except Trouble α :=
  r.mapError .placed

/-- Moves to the next item of an array: `false` stands before the closing bracket. -/
def nextItem (first : Bool) (cs : List Char) : Except Failure (Bool × List Char) :=
  match skipSpace cs with
  | [] => .error (.before .unfinishedList [])
  | c :: rest =>
    if c = ']' then .ok (false, c :: rest)
    else if first then .ok (true, c :: rest)
    else if c = ',' then
      match skipSpace rest with
      | [] => .error (.before .unfinishedValue [])
      | d :: rest =>
        if d = ']' then .error (.onByte .trailingComma (d :: rest)) else .ok (true, d :: rest)
    else .error (.onByte .expectedCommaOrBracket (c :: rest))

/-- Moves to the next member of an object, behind the opening quote of its name: `false` stands
before the closing bracket. -/
def nextMember (first : Bool) (cs : List Char) : Except Failure (Bool × List Char) :=
  match skipSpace cs with
  | [] => .error (.before .unfinishedObject [])
  | c :: rest =>
    if c = '\x7d' then .ok (false, c :: rest)
    else if first then
      if c = '"' then .ok (true, rest) else .error (.onByte .expectedKey (c :: rest))
    else if c = ',' then
      match skipSpace rest with
      | [] => .error (.before .unfinishedValue [])
      | d :: rest =>
        if d = '"' then .ok (true, rest)
        else if d = '\x7d' then .error (.onByte .trailingComma (d :: rest))
        else .error (.onByte .expectedKey (d :: rest))
    else .error (.onByte .expectedCommaOrBrace (c :: rest))

/-- Reads the items of an array up to its closing bracket. Every item takes a character, so `fuel`
need not exceed the length of the text. -/
def readItems (read : List Char → Except Failure (α × List Char)) :
    (fuel : Nat) → (first : Bool) → List Char → Except Failure (List α × List Char)
  | 0, _, _ => .error (.before .unfinishedList [])
  | fuel + 1, first, cs => do
    let (more, cs) ← nextItem first cs
    if more then
      let (a, cs) ← read cs
      let (as, cs) ← readItems read fuel false cs
      .ok (a :: as, cs)
    else .ok ([], cs)

/-- Reads the members of an object up to its closing bracket: `step` gets what the members before
gave, the name of the next and the text after it. -/
def readMembers (step : σ → String → List Char → Except Trouble (σ × List Char)) :
    (fuel : Nat) → (first : Bool) → σ → List Char → Except Trouble (σ × List Char)
  | 0, _, _, _ => .error (.placed (.before .unfinishedObject []))
  | fuel + 1, first, s, cs => do
    let (more, cs) ← lift (nextMember first cs)
    if more then
      let (name, cs) ← lift (readString cs)
      let (s, cs) ← step s name cs
      readMembers step fuel false s cs
    else .ok (s, cs)

/-- What is read at the end of a container, and what is wrong there. -/
structure Closing where
  rest : List Char
  failure : Option Failure

/-- Reads the closing bracket of an array. -/
def closeArray (cs : List Char) : Closing :=
  match skipSpace cs with
  | [] => ⟨[], some (.before .unfinishedList [])⟩
  | c :: rest =>
    if c = ']' then ⟨rest, none⟩
    else if c = ',' then
      match skipSpace rest with
      | ']' :: more => ⟨']' :: more, some (.onByte .trailingComma (']' :: more))⟩
      | more => ⟨more, some (.onByte .trailingCharacters more)⟩
    else ⟨c :: rest, some (.onByte .trailingCharacters (c :: rest))⟩

/-- Reads the closing bracket of an object. -/
def closeObject (cs : List Char) : Closing :=
  match skipSpace cs with
  | [] => ⟨[], some (.before .unfinishedObject [])⟩
  | c :: rest =>
    if c = '\x7d' then ⟨rest, none⟩
    else if c = ',' then ⟨c :: rest, some (.onByte .trailingComma (c :: rest))⟩
    else ⟨c :: rest, some (.onByte .trailingCharacters (c :: rest))⟩

/-- A container whose inside was read: its end is read too, and a loose complaint gets its place
there. -/
def closed (close : List Char → Closing) :
    Except Trouble (α × List Char) → Except Failure (α × List Char)
  | .ok (a, cs) =>
    match (close cs).failure with
    | none => .ok (a, (close cs).rest)
    | some f => .error f
  | .error (.placed f) => .error f
  | .error (.loose m cs) => .error (.before (.mismatch m) (close cs).rest)

/-- Reads an array with `read` for every item, after its opening bracket. -/
def readArray (read : List Char → Except Failure (α × List Char)) (cs : List Char) :
    Except Failure (List α × List Char) :=
  closed closeArray (lift (readItems read (cs.length + 1) true cs))

/-- Reads an object member by member, after its opening bracket, and gives what `finish` makes
of the members. -/
def readObject (step : σ → String → List Char → Except Trouble (σ × List Char)) (start : σ)
    (finish : σ → Except Mismatch α) (cs : List Char) : Except Failure (α × List Char) :=
  closed closeObject do
    let (s, rest) ← readMembers step (cs.length + 1) true start cs
    match finish s with
    | .ok a => .ok (a, rest)
    | .error m => .error (.loose m rest)

end ChangeRelay.Json
