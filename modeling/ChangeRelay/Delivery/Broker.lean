import ChangeRelay.Error.Basic
import ChangeRelay.Log
import ChangeRelay.Record.Basic
/-!
# The broker

A broker whose behaviour is laid down beforehand: how many partitions its topics have, and what
becomes of each record it is offered. Every record comes with an attempt, which says what the
record was made of and who has to hear of its outcome.
-/

namespace ChangeRelay

/-- Where a delivered record was put. -/
structure Receipt where
  partition : Int32
  offset : Int
deriving DecidableEq, Repr, Inhabited

/-- What becomes of a record that is offered. -/
inductive Outcome
  /-- It is delivered at once. -/
  | deliver
  /-- It is taken, and its outcome is reported later. -/
  | hold
  /-- It is taken, and it fails at once. -/
  | fail (e : DeliveryError)
  /-- It is not taken. -/
  | reject (e : DeliveryError)
deriving DecidableEq, Repr, Inhabited

/-- An attempt to deliver an event, in a record of its own or in a redirected one. -/
structure Attempt where
  /-- The number of the event. -/
  ticket : Nat
  position : Position
  row : RowId
  key : String
  /-- The record's value, as long as it may be logged. -/
  value : Option String
  /-- Where the event goes when the attempt fails and the failure is not fatal. -/
  redirectTopic : Option TopicPattern
deriving Repr, Inhabited

/-- A broker. -/
structure Broker where
  /-- What becomes of the next records; after that every record is delivered. -/
  script : List Outcome := []
  /-- The partitions of topics that have more or less than one. -/
  partitions : List (String × Int32) := []
  /-- Why no topic's partitions can be told. -/
  metadataError : Option String := none
  /-- Whether there is no room for records. -/
  queueFull : Bool := false
  closed : Bool := false
  /-- How many records were offered. -/
  attempts : Nat := 0
  /-- The attempts whose outcome has not been reported. -/
  held : List Attempt := []
  /-- The records that were taken. -/
  sent : List Record := []
  /-- The topics whose partitions were asked for. -/
  lookups : List String := []
  closeCalls : Nat := 0
deriving Repr, Inhabited

/-- What a broker says about a record at once. -/
inductive Reply
  | rejected (e : DeliveryError)
  | pending
  | failed (e : DeliveryError)
  | delivered (receipt : Receipt)
deriving DecidableEq, Repr, Inhabited

namespace Broker

/-- A broker that nobody can reach: it tells no partitions. -/
def unreachable : Broker where
  metadataError := some (ClientError.metadata .brokerTransportFailure).message

/-- The number of partitions of a topic. -/
def partitionsOf (b : Broker) (topic : String) : Int32 :=
  (b.partitions.lookup topic).getD 1

/-- Asks for the number of partitions of a topic. -/
def lookUp (b : Broker) (topic : String) : Except Error Int32 × Broker :=
  let answer := match b.metadataError with
    | some message => .error (.metadata topic message)
    | none => .ok (b.partitionsOf topic)
  (answer, { b with lookups := b.lookups ++ [topic] })

/-- The broker after it has taken a record. -/
def take (b : Broker) (r : Record) : Broker :=
  { b with sent := b.sent ++ [r] }

/-- Where the next record is put. -/
def receipt (b : Broker) (r : Record) : Receipt :=
  ⟨r.partition.getD 0, b.sent.length⟩

/-- Offers a record. -/
def offer (b : Broker) (r : Record) (a : Attempt) : Reply × Broker :=
  let b := { b with attempts := b.attempts + 1 }
  if b.closed then (.rejected .closed, b)
  else if b.queueFull then (.rejected (.client (.production .queueFull)), b)
  else
    let outcome := b.script.headD .deliver
    let b := { b with script := b.script.drop 1 }
    match outcome with
    | .reject e => (.rejected e, b)
    | .hold => (.pending, { b.take r with held := b.held ++ [a] })
    | .fail e => (.failed e, b.take r)
    | .deliver => (.delivered (b.receipt r), b.take r)

/-- Closes the broker; it takes no more records. -/
def close (b : Broker) : Broker :=
  { b with closed := true, closeCalls := b.closeCalls + 1 }

end Broker

namespace RecordPlan

/-- Asks for the partitions of a change's topic and makes its record, together with the turns after
it. -/
def build (plan : RecordPlan) (b : Broker) (turns : Turns) (c : Change) :
    Except Error (Record × Turns) × Broker :=
  let (count, b) := b.lookUp (plan.topic c)
  (count.map (plan.record turns c), b)

/-- What making a record is logged as: a column that should have been part of the placement key. -/
def buildLog (plan : RecordPlan) (c : Change) : List LogLine :=
  match (plan.placement c).key.missingColumn? c.row with
  | none => []
  | some column =>
    [{ level := .debug
       message := s!"Missing column '{column}' for partition key of {c.row.shown}" }]

end RecordPlan

end ChangeRelay
