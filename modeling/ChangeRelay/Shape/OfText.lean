import ChangeRelay.Json.Reader
import ChangeRelay.Shape.Basic
/-!
# Reading by shape from JSON text

The text is read once from left to right, without building a JSON value first, so that the first
thing that is wrong is the one that is reported, and with its place.
-/

namespace ChangeRelay

open Json (Failure Trouble Closing)

/-- Reads a scalar that `accept` judges; arrays and objects are of the wrong type. -/
def Json.readScalarAs (expected : String) (accept : Scalar → Except Mismatch α) (cs : List Char) :
    Except Failure (α × List Char) :=
  match Json.skipSpace cs with
  | [] => .error (.before .unfinishedValue [])
  | '[' :: rest => .error (.before (.mismatch (.invalidType .sequence expected)) ('[' :: rest))
  | '\x7b' :: rest => .error (.before (.mismatch (.invalidType .map expected)) ('\x7b' :: rest))
  | c :: rest =>
    match Json.readScalar? (c :: rest) with
    | none => .error (.onByte .expectedValue (c :: rest))
    | some r => do
      let (s, rest) ← r
      match accept s with
      | .ok a => .ok (a, rest)
      | .error m => .error (.before (.mismatch m) rest)

/-- Refuses every scalar. -/
def refuseScalar (expected : String) (s : Scalar) : Except Mismatch α :=
  .error (.invalidType (.scalar s) expected)

/-- The value of an enumeration that a scalar names. -/
def Enumeration.accept (e : Enumeration α) : Scalar → Except Mismatch α
  | .text name => e.ofName name
  | s => refuseScalar "string or map" s

mutual

/-- Reads a value whose arrays and objects are nested at most `depth` deep. -/
def Shape.readText : {α : Type} → Shape α → (depth : Nat) → List Char →
    Except Failure (α × List Char)
  | _, .leaf l, _, cs => Json.readScalarAs l.expected l.accept cs
  | _, .json, depth, cs => Json.readValue depth cs
  | _, .enumeration e, _, cs => Json.readScalarAs "string or map" e.accept cs
  | _, .optional s, depth, cs =>
    match Json.skipSpace cs with
    | 'n' :: rest => (Json.readWord "ull".toList rest).map fun rest => (none, rest)
    | cs => (s.readText depth cs).map fun (a, rest) => (some a, rest)
  | _, .list s, depth, cs =>
    match Json.skipSpace cs with
    | '[' :: rest =>
      match depth with
      | 0 => .error (.onByte .tooDeep ('[' :: rest))
      | depth + 1 => Json.readArray (s.readText depth) rest
    | cs => Json.readScalarAs "a sequence" (refuseScalar "a sequence") cs
  | _, .table s, depth, cs =>
    match Json.skipSpace cs with
    | '\x7b' :: rest =>
      match depth with
      | 0 => .error (.onByte .tooDeep ('\x7b' :: rest))
      | depth + 1 =>
        Json.readObject (fun found name cs => do
          let (a, cs) ← Json.lift (Json.readColon cs >>= s.readText depth)
          .ok (Json.insertMember name a found, cs)) [] .ok rest
    | cs => Json.readScalarAs "a map" (refuseScalar "a map") cs
  | _, .record title fields build _, depth, cs =>
    match Json.skipSpace cs with
    | '[' :: rest =>
      match depth with
      | 0 => .error (.onByte .tooDeep ('[' :: rest))
      | depth + 1 =>
        (Json.closed Json.closeArray
          (fields.readItems depth (recordTitle title fields.size) 0 rest)).map
          fun (b, rest) => (build b, rest)
    | '\x7b' :: rest =>
      match depth with
      | 0 => .error (.onByte .tooDeep ('\x7b' :: rest))
      | depth + 1 =>
        Json.readObject (fields.readNamed depth) fields.empty
          (fun slots => (fields.collect slots).map build) rest
    | cs => Json.readScalarAs s!"struct {title}" (refuseScalar s!"struct {title}") cs

/-- Reads the fields at the start of an array, the first of them item number `index`. -/
def Fields.readItems : {β : Type} → Fields β → (depth : Nat) → (title : String) →
    (index : Nat) → List Char → Except Trouble (β × List Char)
  | _, .nil, _, _, _, cs => .ok ((), cs)
  | _, .cons _ s absent rest, depth, title, index, cs => do
    let (more, cs) ← Json.lift (Json.nextItem (index = 0) cs)
    let (a, cs) ←
      if more then Json.lift (s.readText depth cs)
      else
        match absent with
        | some a => .ok (a, cs)
        | none => .error (.loose (.invalidLength index title) cs)
    let (b, cs) ← rest.readItems depth title (index + 1) cs
    .ok ((a, b), cs)

/-- Reads a member of a record after its name: the field of that name, once; a value of any other
name is passed over. -/
def Fields.readNamed : {β : Type} → (fs : Fields β) → (depth : Nat) → fs.Slots →
    (name : String) → List Char → Except Trouble (fs.Slots × List Char)
  | _, .nil, _, slots, _, cs => do
    let cs ← Json.lift (Json.readColon cs >>= Json.skipValue)
    .ok (slots, cs)
  | _, .cons (α := α) field s _ rest, depth, slots, name, cs =>
    let slots : Option α × rest.Slots := slots
    if name = field then
      if slots.1.isSome then .error (.loose (.duplicateField name) cs)
      else do
        let (a, cs) ← Json.lift (Json.readColon cs >>= s.readText depth)
        .ok ((some a, slots.2), cs)
    else do
      let (more, cs) ← rest.readNamed depth slots.2 name cs
      .ok ((slots.1, more), cs)

end

/-- The value that a whole text gives. -/
def Shape.ofText (s : Shape α) (text : String) : Except Json.Fault α :=
  Json.readText (s.readText Json.depthLimit) text.toList

end ChangeRelay
