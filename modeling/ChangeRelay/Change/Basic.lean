import ChangeRelay.Change.Position
import ChangeRelay.Change.RowId
import ChangeRelay.Shape.OfText
import ChangeRelay.Shape.ToJson
/-!
# Changes

A captured change of a row or of a schema, as the replication reader hands it on. In text a change
is one JSON document on one line.
-/

namespace ChangeRelay

/-- A captured change. -/
structure Change where
  position : Position
  row : RowId
  /-- What the record carries. -/
  payload : String
  isSchemaChange : Bool
  /-- The topic that a row change asks for instead of the configured one. -/
  topic : Option String
deriving Repr, Inhabited

namespace Change

/-- A change as a record. -/
def shape : Shape Change :=
  .record "ChangeEvent"
    (.cons "position" Position.shape none <|
      .cons "identity" RowId.shape none <|
      .cons "payload" (.leaf .text) none <|
      .cons "schema_change" (.leaf .flag) (some false) <|
      .cons "topic" (.optional (.leaf .text)) (some none) .nil)
    (fun (position, row, payload, isSchemaChange, topic, ()) =>
      ⟨position, row, payload, isSchemaChange, topic⟩)
    (fun c => (c.position, c.row, c.payload, c.isSchemaChange, c.topic, ()))

/-- The change that a text holds. -/
def ofText (text : String) : Except Json.Fault Change :=
  shape.ofText text

/-- The text of a change. -/
def text (c : Change) : String :=
  (shape.write c).compact

end Change

end ChangeRelay
