import ChangeRelay.Delivery.Broker
import ChangeRelay.Run.Counts
import ChangeRelay.Run.Progress
/-!
# The exchange with the broker

What becomes of an event after its record was offered. A delivered event is completed. An event
that failed is fatal, or it is redirected once to another topic, or it is completed as it is: a
redirected event cannot be redirected again.
-/

namespace ChangeRelay

/-- What holds for all deliveries. -/
structure Terms where
  plan : RecordPlan
  /-- Where events go whose delivery failed. -/
  redirectTopic : Option TopicPattern := none
  ignoreErrors : Bool := false
  /-- Whether values are kept for the log. -/
  keepsValues : Bool := false
deriving Repr, Inhabited

/-- One thing that happened to an event. -/
inductive Note
  | submitted (ticket : Nat) (p : Position)
  /-- A record of it was delivered. -/
  | delivered (ticket : Nat) (receipt : Receipt)
  /-- A record of it was not delivered. -/
  | failed (ticket : Nat) (e : DeliveryError)
  | completed (ticket : Nat) (p : Position)
  /-- Its failure raised an alarm. -/
  | fatal (ticket : Nat) (e : DeliveryError)
  | redirected (ticket : Nat) (r : Record)
  /-- It was given up because the broker was closed while the relay was stopping. -/
  | abandoned (ticket : Nat) (p : Position)
  /-- The relay failed, and that raised an alarm. -/
  | broken (e : Error)
deriving Repr, Inhabited

/-- The state of all deliveries. -/
structure Exchange where
  terms : Terms
  broker : Broker := {}
  progress : Progress := {}
  counts : Counts := {}
  turns : Turns := {}
  /-- The number of the next event. -/
  ticket : Nat := 0
  /-- What happened, in order. -/
  history : List Note := []
  log : List LogLine := []
deriving Repr, Inhabited

namespace Exchange

/-- Appends lines to the log. -/
def logs (x : Exchange) (lines : List LogLine) : Exchange :=
  { x with log := x.log ++ lines }

/-- Appends a note to the history. -/
def notes (x : Exchange) (n : Note) : Exchange :=
  { x with history := x.history ++ [n] }

/-- An event gets its position tracked. -/
def submit (x : Exchange) (a : Attempt) : Exchange :=
  { x with progress := x.progress.submit a.position }.notes (.submitted a.ticket a.position)

/-- An event is completed. -/
def complete (x : Exchange) (a : Attempt) : Exchange :=
  ({ x with progress := x.progress.complete a.position }.logs
    (x.progress.completeLog a.position)).notes (.completed a.ticket a.position)

/-- What a delivery is logged as. -/
def deliveryLog (a : Attempt) (r : Receipt) : List LogLine :=
  { level := .debug
    message := "-> record delivered"
    fields := [("key", a.key), ("partition", toString r.partition.toInt),
      ("offset", toString r.offset), ("position", a.position.shown)] }
  :: (a.value.map fun value => { level := .debug, message := s!"   {value}" }).toList

/-- An attempt was delivered. -/
def succeed (x : Exchange) (a : Attempt) (r : Receipt) : Exchange :=
  (({ x with counts := x.counts.success }.logs (deliveryLog a r)).notes
    (.delivered a.ticket r)).complete a

/-- What a failed delivery is logged as. -/
def failureLog (a : Attempt) (e : DeliveryError) : List LogLine :=
  [{ level := .error
     message := "Failed to publish record"
     fields := [("kind", e.kind), ("position", a.position.shown), ("row", a.row.shown)] },
   { level := .error, message := e.message }]

/-- A failure is counted and logged. -/
def noteFailure (x : Exchange) (a : Attempt) (e : DeliveryError) : Exchange :=
  ({ x with counts := x.counts.failure }.logs (failureLog a e)).notes (.failed a.ticket e)

/-- An attempt failed that cannot be redirected. -/
def failFinally (x : Exchange) (a : Attempt) (e : DeliveryError) : Exchange :=
  let x := x.noteFailure a e
  match e.severity x.terms.ignoreErrors with
  | .fatal => x.notes (.fatal a.ticket e)
  | .oversized => x.complete a
  | .ignorable => x.complete a

/-- What a redirection is logged as. -/
def redirectLog (a : Attempt) (r : Record) : List LogLine :=
  [{ level := .debug
     message := "Publishing dead-letter record"
     fields := [("topic", r.topic), ("row", a.row.shown)] }]

/-- Offers the redirected record of an attempt that failed with `e`. -/
def redirect (x : Exchange) (a : Attempt) (topic : TopicPattern) (e : DeliveryError) : Exchange :=
  let a := { a with redirectTopic := none }
  let r := x.terms.plan.redirected topic a.row e.kind
  let x := (x.logs (redirectLog a r)).notes (.redirected a.ticket r)
  let (reply, broker) := x.broker.offer r a
  let x := { x with broker }
  match reply with
  | .rejected e => x.failFinally a e
  | .pending => x
  | .failed e => x.failFinally a e
  | .delivered receipt => x.succeed a receipt

/-- An attempt failed. -/
def fail (x : Exchange) (a : Attempt) (e : DeliveryError) : Exchange :=
  match a.redirectTopic with
  | none => x.failFinally a e
  | some topic =>
    match e.severity x.terms.ignoreErrors with
    | .fatal => x.failFinally a e
    | .oversized => (x.noteFailure a e).redirect a topic e
    | .ignorable => (x.noteFailure a e).redirect a topic e

/-- The outcome of an attempt is reported. -/
def report (x : Exchange) (a : Attempt) : Except DeliveryError Receipt → Exchange
  | .ok receipt => x.succeed a receipt
  | .error e => x.fail a e

/-- The outcome of a held attempt is reported; `none` when there is no such attempt. -/
def release (x : Exchange) (index : Nat) (outcome : Except DeliveryError Receipt) :
    Option Exchange := do
  let a ← x.broker.held[index]?
  let broker := { x.broker with held := x.broker.held.eraseIdx index }
  some ({ x with broker }.report a outcome)

end Exchange

end ChangeRelay
