import ChangeRelay.Record.KeyEncoding
import ChangeRelay.Record.Placement
import ChangeRelay.Record.TopicPattern
/-!
# Records

What the broker gets: a change becomes a record on a partition of a topic, and a row whose record
could not be delivered becomes a redirected record that the broker's client places.
-/

namespace ChangeRelay

/-- A record for the broker. -/
structure Record where
  topic : String
  /-- `none` leaves the placement to the client. -/
  partition : Option Int32
  key : String
  value : String
deriving DecidableEq, Repr, Inhabited

/-- The turns that come next: each placement counts its own. -/
structure Turns where
  row : UInt64 := 0
  schema : UInt64 := 0
deriving DecidableEq, Repr, Inhabited

namespace Turns

/-- The turn for a change. -/
def of (turns : Turns) (c : Change) : UInt64 :=
  if c.isSchemaChange then turns.schema else turns.row

/-- The turns when that for a change has become `next`. -/
def set (turns : Turns) (c : Change) (next : UInt64) : Turns :=
  if c.isSchemaChange then { turns with schema := next } else { turns with row := next }

variable {c : Change}

theorem of_row (h : c.isSchemaChange = false) (turns : Turns) : turns.of c = turns.row := by
  simp [of, h]

theorem row_set_row (h : c.isSchemaChange = false) (turns : Turns) (next : UInt64) :
    (turns.set c next).row = next := by
  simp [set, h]

/-- A schema change leaves the turns of rows. -/
theorem row_set_schema (h : c.isSchemaChange = true) (turns : Turns) (next : UInt64) :
    (turns.set c next).row = turns.row := by
  simp [set, h]

end Turns

/-- How changes become records. -/
structure RecordPlan where
  rowTopic : TopicPattern
  schemaTopic : TopicPattern
  rowPlacement : Placement
  schemaPlacement : Placement
  keyEncoding : KeyEncoding
deriving DecidableEq, Repr, Inhabited

namespace RecordPlan

/-- The topic of a change. Only a row change may ask for one of its own. -/
def topic (plan : RecordPlan) (c : Change) : String :=
  if c.isSchemaChange then plan.schemaTopic.topic c.row
  else c.topic.getD (plan.rowTopic.topic c.row)

/-- The placement of a change. -/
def placement (plan : RecordPlan) (c : Change) : Placement :=
  if c.isSchemaChange then plan.schemaPlacement else plan.rowPlacement

/-- The record of a change whose topic has `count` partitions, and the turns after it. -/
def record (plan : RecordPlan) (turns : Turns) (c : Change) (count : Int32) : Record × Turns :=
  let (partition, next) := (plan.placement c).place (turns.of c) c.row count
  ({ topic := plan.topic c
     partition := some partition
     key := plan.keyEncoding.key c.row
     value := c.payload }, turns.set c next)

/-- The record that tells `topic` of a row that could not be delivered for `reason`. -/
def redirected (plan : RecordPlan) (topic : TopicPattern) (row : RowId) (reason : String) :
    Record where
  topic := topic.topic row
  partition := none
  key := plan.keyEncoding.key row
  value := redirectedValue row reason

end RecordPlan

end ChangeRelay
