import ChangeRelay.Shape.Mismatch
import ChangeRelay.Text.Lowercase
import ChangeRelay.Toml.Basic
/-!
# Settings

The settings that several sources give together. A setting is put at a place of the tree, which
grows the tables and lists on the way there; a table that is put where one is already merges into
it, every other setting replaces what was there. Names are kept in lower case.
-/

namespace ChangeRelay

/-- A setting, and where it came from. -/
inductive Setting
  | scalar (origin : Option String) (s : Scalar)
  | list (origin : Option String) (items : List Setting)
  | table (origin : Option String) (entries : List (String × Setting))
deriving Repr, Inhabited

namespace Setting

/-- A setting that nothing has given. -/
def null : Setting :=
  .scalar none .null

/-- A table that nothing has been put into. -/
def emptyTable : Setting :=
  .table none []

/-- The setting as a table; anything else gives way to an empty one. -/
def asTable : Setting → Option String × List (String × Setting)
  | .table origin entries => (origin, entries)
  | _ => (none, [])

/-- The setting as a list; anything else gives way to an empty one. -/
def asList : Setting → Option String × List Setting
  | .list origin items => (origin, items)
  | _ => (none, [])

/-- Changes the setting of a name in a table. -/
def atName (name : String) (change : Option Setting → Setting) (s : Setting) : Setting :=
  let (origin, entries) := s.asTable
  let name := lowercase name
  .table origin (Json.insertMember name (change (entries.lookup name)) entries)

mutual

/-- Puts a setting under a name. -/
def put (name : String) : Setting → Setting → Setting
  | .table _ incoming => atName name fun old => putAll incoming (old.getD emptyTable)
  | value => atName name fun _ => value

/-- Puts settings under their names, one after the other. -/
def putAll : List (String × Setting) → Setting → Setting
  | [], s => s
  | (name, value) :: rest, s => putAll rest (put name value s)

end

/-! ## Places -/

/-- A step towards a place in the tree. -/
inductive Step
  | name (name : String)
  /-- An item of a list; a negative number counts from the end. -/
  | item (index : Int)
deriving DecidableEq, Repr

/-- The position of an item in a list, which may lie behind its end. -/
def itemPosition (index : Int) (length : Nat) : Nat :=
  if 0 ≤ index then index.toNat else length - index.natAbs

/-- A list made long enough to have an item at a position. -/
def extend (position : Nat) (items : List Setting) : List Setting :=
  items ++ List.replicate (position + 1 - items.length) null

/-- Changes the item of a list, which grows to have one. -/
def atItem (index : Int) (change : Setting → Setting) (s : Setting) : Setting :=
  let (origin, items) := s.asList
  let position := itemPosition index items.length
  .list origin ((extend position items).modify position change)

/-- Puts a setting at the place that steps lead to. -/
def putAt (value : Setting) : List Step → Setting → Setting
  | [], _ => value
  | [.name name], s => put name value s
  | .name name :: steps, s => atName name (fun old => putAt value steps (old.getD null)) s
  | .item index :: steps, s => atItem index (putAt value steps) s

/-- The characters of a name in the text of a place. -/
def isNameChar (c : Char) : Bool :=
  c.isAlphanum || c = ' ' || c = '_' || c = '-'

/-- Whether a character may stand around the number of an item. -/
def isMargin (c : Char) : Bool :=
  c = ' ' || c = '\t'

/-- The bounds of the number of an item. -/
def indexRange : Int × Int :=
  (Int64.minValue.toInt, Int64.maxValue.toInt)

/-- Reads the number of an item and its closing bracket. -/
def readIndex (cs : List Char) : Option (Int × List Char) := do
  let cs := cs.dropWhile isMargin
  let (negative, cs) := match cs with
    | '-' :: rest => (true, rest)
    | cs => (false, cs)
  let digits := cs.takeWhile Char.isDigit
  let magnitude := digits.foldl (fun n c => 10 * n + (c.toNat - '0'.toNat)) 0
  let index : Int := if negative then -(magnitude : Int) else magnitude
  if digits.isEmpty || index < indexRange.1 || indexRange.2 < index then none
  match (cs.drop digits.length).dropWhile isMargin with
  | ']' :: rest => some (index, rest)
  | _ => none

/-- Reads a name. -/
def readName (cs : List Char) : Option (String × List Char) :=
  let name := cs.takeWhile isNameChar
  if name.isEmpty then none else some (String.ofList name, cs.drop name.length)

/-- Reads the steps after the first one. -/
def readSteps : (fuel : Nat) → List Char → Option (List Step)
  | _, [] => some []
  | 0, _ => none
  | fuel + 1, '.' :: cs => do
    let (name, cs) ← readName cs
    let steps ← readSteps fuel cs
    some (.name name :: steps)
  | fuel + 1, '[' :: cs => do
    let (index, cs) ← readIndex cs
    let steps ← readSteps fuel cs
    some (.item index :: steps)
  | _, _ => none

/-- The place that a text means: names with dots between them and numbers of items in brackets.
Any other text is a name as it stands. -/
def place (text : String) : List Step :=
  let steps : Option (List Step) := do
    let (name, cs) ← readName text.toList
    let steps ← readSteps cs.length cs
    some (.name name :: steps)
  steps.getD [.name text]

/-! ## Sources -/

mutual

/-- The setting of a TOML value. -/
def ofToml (origin : String) : Toml → Setting
  | .text s => .scalar origin (.text s)
  | .int n => .scalar origin (.number (.int n))
  | .float x => .scalar origin (.number (.float x))
  | .flag b => .scalar origin (.flag b)
  | .instant s => .scalar origin (.text s)
  | .array items => .list origin (ofItems origin items)
  | .tables items => .list origin (ofItems origin items)
  | .table _ entries => .table origin (ofEntries origin entries)

/-- The settings of the items of an array. -/
def ofItems (origin : String) : List Toml → List Setting
  | [] => []
  | v :: rest => ofToml origin v :: ofItems origin rest

/-- The settings of the entries of a table, by name. -/
def ofEntries (origin : String) : List (String × Toml) → List (String × Setting)
  | [] => []
  | (key, v) :: rest => Json.insertMember key (ofToml origin v) (ofEntries origin rest)

end

/-- Puts settings at the places that their names mean, one after the other. -/
def overlay (s : Setting) (settings : List (String × Setting)) : Setting :=
  settings.foldl (fun s (text, value) => putAt value (place text) s) s

end Setting

end ChangeRelay
