import ChangeRelay.Shape.Mismatch
import ChangeRelay.Time.Timestamp
/-!
# Shapes of documents

A shape says how values of a type stand in a document: which fields a record has, which of them may
be missing, which names stand for the values of an enumeration. Reading from text, reading from a
JSON value, reading from settings and writing all follow the one shape of a type.
-/

namespace ChangeRelay

/-- The types of values without parts. -/
inductive Leaf : Type → Type
  | text : Leaf String
  | path : Leaf String
  | flag : Leaf Bool
  /-- A number of 64 bits, and how messages name it. -/
  | word (name : String) : Leaf UInt64
  | halfWord : Leaf UInt32
  | signed : Leaf Int32
  | instant : Leaf Timestamp

/-- What messages say is expected where the leaf stands. -/
def Leaf.expected : Leaf α → String
  | .text => "a string"
  | .path => "path string"
  | .flag => "a boolean"
  | .word name => name
  | .halfWord => "u32"
  | .signed => "i32"
  | .instant => "an RFC 3339 formatted date and time string"

/-- An integer in a closed range. -/
def integerIn (low high : Int) (expected : String) (n : Int) : Except Mismatch Int :=
  if low ≤ n && n ≤ high then .ok n
  else .error (.invalidValue (.scalar (.number (.int n))) expected)

/-- The value that a scalar gives. -/
def Leaf.accept (l : Leaf α) (s : Scalar) : Except Mismatch α :=
  match l, s with
  | .text, .text s => .ok s
  | .path, .text s => .ok s
  | .flag, .flag b => .ok b
  | .word name, .number (.int n) =>
    (integerIn 0 (UInt64.size - 1) name n).map fun n => UInt64.ofNat n.toNat
  | .halfWord, .number (.int n) =>
    (integerIn 0 (UInt32.size - 1) "u32" n).map fun n => UInt32.ofNat n.toNat
  | .signed, .number (.int n) =>
    (integerIn Int32.minValue.toInt Int32.maxValue.toInt "i32" n).map Int32.ofInt
  | .instant, .text s => (Timestamp.read s.toList).mapError fun f => .custom f.message
  | l, s => .error (.invalidType (.scalar s) l.expected)

/-- The value as it is written. -/
def Leaf.write : Leaf α → α → Json
  | .text, s => .str s
  | .path, s => .str s
  | .flag, b => .bool b
  | .word _, n => Json.ofNat n.toNat
  | .halfWord, n => Json.ofNat n.toNat
  | .signed, n => Json.ofInt n.toInt
  | .instant, t => .str t.text

/-- An enumeration: the name of every value. -/
structure Enumeration (α : Type) where
  title : String
  values : List (String × α)
  name : α → String

/-- The value of a name. -/
def Enumeration.find? (e : Enumeration α) (name : String) : Option α :=
  e.values.lookup name

/-- The value of a name, or that there is none. -/
def Enumeration.ofName (e : Enumeration α) (name : String) : Except Mismatch α :=
  match e.find? name with
  | some a => .ok a
  | none => .error (.unknownVariant name (e.values.map (·.1)))

mutual

/-- How the values of a type stand in a document. -/
inductive Shape : Type → Type 1
  | leaf {α : Type} (l : Leaf α) : Shape α
  | json : Shape Json
  | enumeration {α : Type} (e : Enumeration α) : Shape α
  /-- Null, or a value. -/
  | optional {α : Type} (s : Shape α) : Shape (Option α)
  | list {α : Type} (s : Shape α) : Shape (List α)
  /-- Values by name, in the order of the names. -/
  | table {α : Type} (s : Shape α) : Shape (List (String × α))
  /-- The fields of a record, which `build` makes a value and `parts` takes apart. -/
  | record {α β : Type} (title : String) (fields : Fields β) (build : β → α) (parts : α → β) :
      Shape α

/-- The fields of a record in order. -/
inductive Fields : Type → Type 1
  | nil : Fields Unit
  /-- A field, what it is when it is missing, and the fields after it. -/
  | cons {α β : Type} (name : String) (s : Shape α) (absent : Option α) (rest : Fields β) :
      Fields (α × β)

end

/-- The number of fields. -/
def Fields.size : Fields β → Nat
  | .nil => 0
  | .cons _ _ _ rest => rest.size + 1

/-- The values of the fields found so far. -/
def Fields.Slots : {β : Type} → Fields β → Type
  | _, .nil => Unit
  | _, .cons (α := α) _ _ _ rest => Option α × rest.Slots

/-- No field found. -/
def Fields.empty : {β : Type} → (fs : Fields β) → fs.Slots
  | _, .nil => ()
  | _, .cons _ _ _ rest => (none, rest.empty)

/-- The value of a field, found or absent by right. -/
def fieldValue (name : String) (absent slot : Option α) : Except Mismatch α :=
  match slot, absent with
  | some a, _ => .ok a
  | none, some a => .ok a
  | none, none => .error (.missingField name)

/-- The record; the first field that is neither found nor absent by right is missing. -/
def Fields.collect : {β : Type} → (fs : Fields β) → fs.Slots → Except Mismatch β
  | _, .nil, _ => .ok ()
  | _, .cons (α := α) name _ absent rest, slots => do
    let slots : Option α × rest.Slots := slots
    let a ← fieldValue name absent slots.1
    let b ← rest.collect slots.2
    .ok (a, b)

/-- How messages name a record with so many fields. -/
def recordTitle (title : String) (size : Nat) : String :=
  s!"struct {title} with {size} elements"

end ChangeRelay
