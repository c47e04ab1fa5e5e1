import ChangeRelay.Error.Client
/-!
# Failed deliveries

Why a record was not delivered, and how much that matters: a record that is too large for the
broker is never fatal, and any other failure is fatal unless failures are to be ignored.
-/

namespace ChangeRelay

/-- Why a record was not delivered. -/
inductive DeliveryError
  | tooLarge (text : String)
  | closed
  | client (e : ClientError)
  | broker (kind message : String)
deriving DecidableEq, Repr

/-- How a failed delivery is treated. -/
inductive Severity
  /-- The record exceeds the size limit of the broker. -/
  | oversized
  /-- Any other failure, when failures are to be ignored. -/
  | ignorable
  | fatal
deriving DecidableEq, Repr

namespace DeliveryError

/-- The kind of an error, as it is told to the consumers of redirected records. -/
def kind : DeliveryError → String
  | .tooLarge _ => "RecordTooLarge"
  | .closed => "ProducerClosed"
  | .client e => (e.code?.map ClientCode.name).getD "KafkaError"
  | .broker kind _ => kind

/-- Whether the record exceeds the size limit. -/
def isTooLarge : DeliveryError → Bool
  | .tooLarge _ => true
  | .client e => e.code? == some .messageSizeTooLarge
  | _ => false

/-- Whether the client had no room for the record. -/
def isQueueFull : DeliveryError → Bool
  | .client e => e.code? == some .queueFull
  | _ => false

/-- How the error is treated. -/
def severity (ignoreErrors : Bool) (e : DeliveryError) : Severity :=
  if e.isTooLarge then .oversized else if ignoreErrors then .ignorable else .fatal

/-- The text of an error. -/
def message : DeliveryError → String
  | .tooLarge text => s!"Record too large: {text}"
  | .closed => "Producer is closed"
  | .client e => e.message
  | .broker kind message => s!"{kind}: {message}"

/-- The error with its parts named. -/
def structured : DeliveryError → String
  | .tooLarge text => s!"RecordTooLarge({Quoted.encode text})"
  | .closed => "Closed"
  | .client e => s!"Kafka({e.structured})"
  | .broker kind message =>
    s!"Broker \x7b kind: {Quoted.encode kind}, message: {Quoted.encode message} \x7d"

end DeliveryError

end ChangeRelay
