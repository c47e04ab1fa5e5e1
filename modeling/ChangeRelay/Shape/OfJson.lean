import ChangeRelay.Shape.Basic
/-!
# Reading by shape from a JSON value

A record may stand as an object or as an array of its fields in order. The fields of an object are
looked at in the order the object lists them; missing ones are noticed after all that are there.
-/

namespace ChangeRelay

/-- What stands where a value was expected. -/
def Json.found : Json → Found
  | .null => .scalar .null
  | .bool b => .scalar (.flag b)
  | .num n => .scalar (.number n)
  | .str s => .scalar (.text s)
  | .arr _ => .sequence
  | .obj _ => .map

/-- The value a leaf has in a JSON value. -/
def Leaf.ofJson (l : Leaf α) (v : Json) : Except Mismatch α :=
  match v.found with
  | .scalar s => l.accept s
  | found => .error (.invalidType found l.expected)

/-- An enumeration's value by its name, or as the name of an object's only member, which is
null. -/
def Enumeration.ofJson (e : Enumeration α) : Json → Except Mismatch α
  | .str name => e.ofName name
  | .obj [(name, content)] => do
    let a ← e.ofName name
    match content with
    | .null => .ok a
    | content => .error (.invalidType content.found "unit")
  | .obj _ => .error (.invalidValue .map "map with a single key")
  | v => .error (.invalidType v.found "string or map")

mutual

/-- The value that a document of the shape gives. -/
def Shape.ofJson : {α : Type} → Shape α → Json → Except Mismatch α
  | _, .leaf l, v => l.ofJson v
  | _, .json, v => .ok v
  | _, .enumeration e, v => e.ofJson v
  | _, .optional _, .null => .ok none
  | _, .optional s, v => (s.ofJson v).map some
  | _, .list s, .arr vs => vs.mapM s.ofJson
  | _, .list _, v => .error (.invalidType v.found "a sequence")
  | _, .table s, .obj members =>
    members.foldlM (fun found (name, v) => (s.ofJson v).map (Json.insertMember name · found)) []
  | _, .table _, v => .error (.invalidType v.found "a map")
  | _, .record title fields build _, .arr vs => do
    let (b, extra) ← fields.ofItems (recordTitle title fields.size) 0 vs
    if extra.isEmpty then .ok (build b)
    else .error (.invalidLength vs.length "fewer elements in array")
  | _, .record _ fields build _, .obj members => do
    let slots ← members.foldlM (fun slots (name, v) => fields.setNamed name v slots) fields.empty
    (fields.collect slots).map build
  | _, .record title _ _ _, v => .error (.invalidType v.found s!"struct {title}")

/-- The fields at the start of an array, the first of them item number `index`, and the items
after them. -/
def Fields.ofItems : {β : Type} → Fields β → (title : String) → (index : Nat) → List Json →
    Except Mismatch (β × List Json)
  | _, .nil, _, _, vs => .ok ((), vs)
  | _, .cons _ s absent rest, title, index, vs => do
    let (a, vs) ← match vs, absent with
      | v :: vs, _ => (s.ofJson v).map fun a => (a, vs)
      | [], some a => .ok (a, [])
      | [], none => .error (.invalidLength index title)
    let (b, vs) ← rest.ofItems title (index + 1) vs
    .ok ((a, b), vs)

/-- Fills the field of a name; other names are ignored. -/
def Fields.setNamed : {β : Type} → (fs : Fields β) → (name : String) → Json → fs.Slots →
    Except Mismatch fs.Slots
  | _, .nil, _, _, slots => .ok slots
  | _, .cons (α := α) field s _ rest, name, v, slots =>
    let slots : Option α × rest.Slots := slots
    if name = field then (s.ofJson v).map fun a => (some a, slots.2)
    else (rest.setNamed name v slots.2).map fun more => (slots.1, more)

end

end ChangeRelay
