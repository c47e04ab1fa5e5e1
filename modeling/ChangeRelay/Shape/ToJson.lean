import ChangeRelay.Shape.Basic
/-!
# Writing by shape

Records become objects that list their fields in order.
-/

namespace ChangeRelay

mutual

/-- The value of a document. -/
def Shape.write : {α : Type} → Shape α → α → Json
  | _, .leaf l, a => l.write a
  | _, .json, v => v
  | _, .enumeration e, a => .str (e.name a)
  | _, .optional _, none => .null
  | _, .optional s, some a => s.write a
  | _, .list s, as => .arr (as.map s.write)
  | _, .table s, as => Json.object (as.map fun (name, a) => (name, s.write a))
  | _, .record _ fields _ parts, a => .obj (fields.write (parts a))

/-- The members for the fields of a record. -/
def Fields.write : {β : Type} → Fields β → β → List (String × Json)
  | _, .nil, () => []
  | _, .cons name s _ rest, (a, b) => (name, s.write a) :: rest.write b

end

end ChangeRelay
