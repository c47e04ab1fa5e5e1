import ChangeRelay.Text.Quoted
/-!
# Errors of the broker client

The codes that a client reports and the operations it reports them for. A failed production, a
global failure, a failed metadata fetch and a failed flush come with a code.
-/

namespace ChangeRelay

/-- The codes of a broker and its client. Those that nothing here asks for go by their name and
their description. -/
inductive ClientCode
  | noError
  | unknown
  | queueFull
  | messageSizeTooLarge
  | messageTimedOut
  | brokerTransportFailure
  | allBrokersDown
  | unknownTopic
  | unknownPartition
  | invalidMessageSize
  | notLeaderForPartition
  | requestTimedOut
  | notEnoughReplicas
  | purgeQueue
  | fatal
  | other (name description : String)
deriving DecidableEq, Repr

namespace ClientCode

/-- The codes with a constructor of their own. -/
def all : List ClientCode :=
  [.noError, .unknown, .queueFull, .messageSizeTooLarge, .messageTimedOut, .brokerTransportFailure,
    .allBrokersDown, .unknownTopic, .unknownPartition, .invalidMessageSize, .notLeaderForPartition,
    .requestTimedOut, .notEnoughReplicas, .purgeQueue, .fatal]

/-- The name of a code. -/
def name : ClientCode → String
  | .noError => "NoError"
  | .unknown => "Unknown"
  | .queueFull => "QueueFull"
  | .messageSizeTooLarge => "MessageSizeTooLarge"
  | .messageTimedOut => "MessageTimedOut"
  | .brokerTransportFailure => "BrokerTransportFailure"
  | .allBrokersDown => "AllBrokersDown"
  | .unknownTopic => "UnknownTopic"
  | .unknownPartition => "UnknownPartition"
  | .invalidMessageSize => "InvalidMessageSize"
  | .notLeaderForPartition => "NotLeaderForPartition"
  | .requestTimedOut => "RequestTimedOut"
  | .notEnoughReplicas => "NotEnoughReplicas"
  | .purgeQueue => "PurgeQueue"
  | .fatal => "Fatal"
  | .other name _ => name

/-- What a code says. -/
def description : ClientCode → String
  | .noError => "Success"
  | .unknown => "Unknown broker error"
  | .queueFull => "Local: Queue full"
  | .messageSizeTooLarge => "Broker: Message size too large"
  | .messageTimedOut => "Local: Message timed out"
  | .brokerTransportFailure => "Local: Broker transport failure"
  | .allBrokersDown => "Local: All broker connections are down"
  | .unknownTopic => "Local: Unknown topic"
  | .unknownPartition => "Local: Unknown partition"
  | .invalidMessageSize => "Broker: Invalid message size"
  | .notLeaderForPartition => "Broker: Not leader for partition"
  | .requestTimedOut => "Broker: Request timed out"
  | .notEnoughReplicas => "Broker: Not enough in-sync replicas"
  | .purgeQueue => "Local: Purged in queue"
  | .fatal => "Local: Fatal error"
  | .other _ description => description

/-- Name and description. -/
def message (c : ClientCode) : String :=
  s!"{c.name} ({c.description})"

end ClientCode

/-- An error that the broker client reports. One of any other kind may come with a code; its text,
and its text inside that of another error, are those of the client. -/
inductive ClientError
  | production (code : ClientCode)
  | global (code : ClientCode)
  | metadata (code : ClientCode)
  | flush (code : ClientCode)
  | dropped
  | noMessage
  | creation (text : String)
  | subscription (text : String)
  | partitionEnd (partition : Int32)
  | other (code : Option ClientCode) (text structured : String)
deriving DecidableEq, Repr

namespace ClientError

/-- The code that an error comes with. -/
def code? : ClientError → Option ClientCode
  | .production c => some c
  | .global c => some c
  | .metadata c => some c
  | .flush c => some c
  | .other c _ _ => c
  | _ => none

/-- The text of an error. -/
def message : ClientError → String
  | .production c => s!"Message production error: {c.message}"
  | .global c => s!"Global error: {c.message}"
  | .metadata c => s!"Meta data fetch error: {c.message}"
  | .flush c => s!"Flush error: {c.message}"
  | .dropped => "KafkaError (Client dropped)"
  | .noMessage => "No message received within the given poll interval"
  | .creation text => s!"Client creation error: {text}"
  | .subscription text => s!"Subscription error: {text}"
  | .partitionEnd p => s!"Partition EOF: {p}"
  | .other _ text _ => text

/-- The error as it stands inside the structured text of another. -/
def structured : ClientError → String
  | .metadata c => s!"KafkaError (Metadata fetch error: {c.message})"
  | .dropped => "KafkaError (Client dropped)"
  | .noMessage => "No message received within the given poll interval"
  | .other _ _ structured => structured
  | e => s!"KafkaError ({e.message})"

end ClientError

end ChangeRelay
