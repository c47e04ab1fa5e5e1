import ChangeRelay.Config.Basic
import ChangeRelay.Delivery.Broker
/-!
# The client of a cluster out of reach

What a client can tell by itself when no broker answers: that it is closed, that a record is too
large to be sent at all, and otherwise, after a while, that nothing came of it.
-/

namespace ChangeRelay

/-- A client that reaches no broker. -/
structure Client where
  broker : Broker := .unreachable
  /-- The most bytes that key and value of a record may have together. -/
  sizeLimit : Nat
deriving Repr, Inhabited

namespace Client

/-- The setting for the size of records. -/
def sizeProperty : String :=
  "message.max.bytes"

/-- The client of a configuration. -/
def ofBrokers (b : Config.Brokers) : Client where
  sizeLimit := ((b.clientProperties.lookup sizeProperty).bind String.toNat?).getD 0

/-- Asks for the number of partitions of a topic. -/
def partitionCount (c : Client) (topic : String) : Except Error Int32 :=
  if c.broker.closed then .error (.metadata topic "producer is closed")
  else (c.broker.lookUp topic).1

/-- The bytes of a record that count for its size. -/
def sizeOf (r : Record) : Nat :=
  r.key.utf8ByteSize + r.value.utf8ByteSize

/-- Offers a record. -/
def offer (c : Client) (r : Record) : Reply :=
  if c.broker.closed then .rejected .closed
  else if c.sizeLimit < sizeOf r then .rejected (.client (.production .messageSizeTooLarge))
  else .failed (.client (.production .messageTimedOut))

/-- Closes the client. -/
def close (c : Client) : Client :=
  { c with broker := c.broker.close }

/-- A rejected record with its parts named. -/
def structuredRejection (topic : String) (e : DeliveryError) : String :=
  s!"Rejected \x7b error: {e.structured}, topic: {Quoted.encode topic} \x7d"

end Client

end ChangeRelay
