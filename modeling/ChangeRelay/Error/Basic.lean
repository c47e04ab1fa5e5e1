import ChangeRelay.Error.Delivery
import ChangeRelay.Error.Storage
/-!
# Errors

Everything that can stop the relay, and its text.
-/

namespace ChangeRelay

/-- Why the relay cannot go on. -/
inductive Error
  | config (text : String)
  | client (e : ClientError)
  | serialization (text : String)
  | storage (e : StorageError)
  /-- The broker did not tell the partitions of a topic. -/
  | metadata (topic message : String)
  | delivery (e : DeliveryError)
  /-- The worker does not take events any more. -/
  | interrupted
  | invalidEvent (message : String)
  | timeout (message : String)
  | shutdown
deriving DecidableEq, Repr

namespace Error

/-- The text of an error. -/
def message : Error → String
  | .config text => s!"Configuration error: {text}"
  | .client e => s!"Kafka error: {e.message}"
  | .serialization text => s!"Serialization error: {text}"
  | .storage e => s!"IO error: {e.message}"
  | .metadata topic message => s!"Metadata lookup for topic '{topic}' failed: {message}"
  | .delivery e => s!"Send error: {e.message}"
  | .interrupted => "Publishing queue interrupted"
  | .invalidEvent message => s!"Invalid change event: {message}"
  | .timeout message => s!"Timeout error: {message}"
  | .shutdown => "Shutdown requested"

/-- The error with its parts named. -/
def structured : Error → String
  | .config text => s!"Config({Quoted.encode text})"
  | .client e => s!"Kafka({e.structured})"
  | .serialization text => s!"Serialization({Quoted.encode text})"
  | .storage e => s!"Io({e.structured})"
  | .metadata topic message =>
    s!"BrokerMetadata \x7b topic: {Quoted.encode topic}, message: {Quoted.encode message} \x7d"
  | .delivery e => s!"Send({e.structured})"
  | .interrupted => "QueueInterrupted"
  | .invalidEvent message => s!"InvalidEvent \x7b message: {Quoted.encode message} \x7d"
  | .timeout message => s!"Timeout \x7b message: {Quoted.encode message} \x7d"
  | .shutdown => "Shutdown"

end Error

end ChangeRelay
