import ChangeRelay.Config.Basic
import ChangeRelay.Delivery.Exchange
import ChangeRelay.Run.Lifecycle
/-!
# The relay

Events are pushed into a queue, and a worker takes them from it, makes their records and offers
these to the broker, one event after the other and without waiting for outcomes. After a stop is
requested the worker goes on until the queue is empty; then, or when it fails, it closes the queue
and the broker and stops.
-/

namespace ChangeRelay

/-- A record on its way to the broker. -/
structure Job where
  record : Record
  attempt : Attempt
deriving Repr, Inhabited

/-- What the worker is about to do. -/
inductive Phase
  /-- To start. -/
  | unstarted
  /-- To take an event from the queue. -/
  | taking
  /-- To offer a record. -/
  | offering (job : Job)
  /-- To offer a record again at a given time. -/
  | pausing (job : Job) (wake : Nat)
  /-- To report that it failed. -/
  | failing (cause : Error)
  /-- To close the queue. -/
  | leaving
  /-- To close the broker. -/
  | closing
  /-- To stop, once the broker has flushed what it holds. -/
  | flushing
  /-- Nothing more. -/
  | finished
deriving Repr, Inhabited

/-- The state of a relay. -/
structure Relay where
  exchange : Exchange
  queue : List Change := []
  /-- How many events the queue holds at most. -/
  capacity : Nat
  queueOpen : Bool := true
  /-- Whether someone may still push events. -/
  hasPublisher : Bool := true
  lifecycle : Lifecycle
  /-- The position of the last event that was submitted. -/
  lastPosition : Option Position := none
  phase : Phase := .unstarted
  /-- The time in milliseconds. -/
  clock : Nat := 0
deriving Repr, Inhabited

/-- Why a relay could not be started. -/
inductive StartFailure
  | error (e : Error)
  /-- The queue cannot hold so many events. -/
  | capacityTooLarge
deriving DecidableEq, Repr, Inhabited

/-- What holds for all deliveries of a configuration. -/
def Config.Publishing.terms (config : Config.Publishing) (keepsValues : Bool) :
    Except Error Terms := do
  let plan ← config.plan
  .ok {
    plan
    redirectTopic := config.redirectTopic.map TopicPattern.mk
    ignoreErrors := config.ignoreErrors
    keepsValues }

namespace Relay

/-- The most events that a queue can hold. -/
def capacityLimit : Nat :=
  UInt64.size / 8 - 1

/-- How long a record waits that the broker had no room for, in milliseconds. -/
def retryPause : Nat :=
  10

/-- The name of the worker. -/
def workerName : String :=
  "kafka-producer-worker"

/-- A relay that has not run. -/
def start (config : Config.Publishing) (broker : Broker) (resume : Option Position)
    (keepsValues : Bool) : Except StartFailure Relay := do
  config.checkCapacity.mapError .error
  let terms ← (config.terms keepsValues).mapError .error
  if capacityLimit < config.queueCapacity.toNat then .error .capacityTooLarge
  .ok {
    exchange := { terms, broker, progress := .resumed resume }
    capacity := config.queueCapacity.toNat
    lifecycle := { name := workerName } }

/-- Appends lines to the log. -/
def logs (r : Relay) (lines : List LogLine) : Relay :=
  { r with exchange := r.exchange.logs lines }

/-! ## The worker -/

/-- Makes the record of an event, and announces the event before its record is offered. -/
def take (r : Relay) (c : Change) (rest : List Change) : Relay :=
  let x := r.exchange
  let r := { r with queue := rest }
  match x.terms.plan.build x.broker x.turns c with
  | (.error e, broker) => { r with exchange := { x with broker }, phase := .failing e }
  | (.ok (record, turns), broker) =>
    let a : Attempt := {
      ticket := x.ticket
      position := c.position
      row := c.row
      key := record.key
      value := if x.terms.keepsValues then some record.value else none
      redirectTopic := x.terms.redirectTopic }
    let x := { x with broker, turns, ticket := x.ticket + 1 }.logs (x.terms.plan.buildLog c)
    { r with
      exchange := x.submit a
      lastPosition := some c.position
      phase := .offering ⟨record, a⟩ }

/-- Offers a record. A record that the broker has no room for is offered again later, and one that
it refuses because it is closed is given up when the relay is stopping. -/
def offer (r : Relay) (job : Job) : Relay :=
  let (reply, broker) := r.exchange.broker.offer job.record job.attempt
  let x := { r.exchange with broker }
  match reply with
  | .pending => { r with exchange := x, phase := .taking }
  | .failed e => { r with exchange := x.report job.attempt (.error e), phase := .taking }
  | .delivered receipt =>
    { r with exchange := x.report job.attempt (.ok receipt), phase := .taking }
  | .rejected e =>
    if e.isQueueFull then
      { r with
        exchange := x.logs [{ level := .debug
                              message := "Producer queue full, retrying in 10ms" }]
        phase := .pausing job (r.clock + retryPause) }
    else if e = .closed && r.lifecycle.stage ≠ .running then
      let line : LogLine := {
        level := .warn
        message :=
          s!"Producer closed during shutdown, abandoning event at {job.attempt.position.shown}" }
      { r with
        exchange := (x.logs [line]).notes (.abandoned job.attempt.ticket job.attempt.position)
        phase := .taking }
    else { r with exchange := x.fail job.attempt e, phase := .taking }

/-- The worker's next step; `none` when it has to wait. -/
def step (r : Relay) : Option Relay :=
  match r.phase with
  | .unstarted =>
    let r := { r with lifecycle := r.lifecycle.start, phase := .taking }
    some (r.logs [{ level := .info, message := s!"{r.lifecycle.name} started" }])
  | .taking =>
    match r.queue with
    | c :: rest => some (r.take c rest)
    | [] =>
      if r.lifecycle.stage = .stopRequested then
        some ({ r with phase := .leaving }.logs
          [{ level := .debug, message := "Queue drained after stop request" }])
      else if r.hasPublisher then none
      else some { r with phase := .failing .interrupted }
  | .offering job => some (r.offer job)
  | .pausing job wake =>
    if wake ≤ r.clock then some { r with phase := .offering job } else none
  | .failing cause =>
    let r := r.logs [{ level := .error
                       message := s!"{r.lifecycle.name} failed: {cause.message}" }]
    some { r with exchange := r.exchange.notes (.broken cause), phase := .leaving }
  | .leaving => some { r with queueOpen := false, phase := .closing }
  | .closing =>
    some { r with
      exchange := { r.exchange with broker := r.exchange.broker.close }
      phase := .flushing }
  | .flushing =>
    let line : LogLine := { level := .info, message := s!"{r.lifecycle.name} stopped" }
    let r := r.logs (line :: r.lifecycle.stopLog)
    some { r with lifecycle := r.lifecycle.stop, queue := [], phase := .finished }
  | .finished => none

/-- The worker's steps until it waits, at most `fuel` of them. -/
def settleWithin : (fuel : Nat) → Relay → Relay
  | 0, r => r
  | fuel + 1, r =>
    match r.step with
    | none => r
    | some r => settleWithin fuel r

/-- The worker's steps until it waits: two for an event and a few at the start and at the end. -/
def settle (r : Relay) : Relay :=
  settleWithin (2 * r.queue.length + 8) r

/-! ## The publisher -/

/-- Whether an event can be pushed at once. -/
def hasRoom (r : Relay) : Bool :=
  r.queue.length < r.capacity

/-- A stop is requested. -/
def requestStop (r : Relay) : Relay :=
  { r.logs r.lifecycle.requestStopLog with lifecycle := r.lifecycle.requestStop }

/-- The broker is closed without waiting for the worker. -/
def closeBroker (r : Relay) : Relay :=
  { r with exchange := { r.exchange with broker := r.exchange.broker.close } }

/-- Nobody can push events any more. -/
def dropPublisher (r : Relay) : Relay :=
  { r with hasPublisher := false }

/-- The time at which the worker goes on. -/
def nextWake (r : Relay) : Option Nat :=
  match r.phase with
  | .pausing _ wake => some wake
  | _ => none

/-- Lets the worker run until the given time, its steps taking none. `within` bounds the number of
times it wakes. -/
def runUntilWithin (finished : Relay → Bool) (deadline : Nat) : (within : Nat) → Relay → Relay
  | 0, r => r
  | within + 1, r =>
    let r := r.settle
    if finished r then r
    else
      match r.nextWake with
      | some wake =>
        if wake ≤ deadline then
          runUntilWithin finished deadline within { r with clock := max wake r.clock }
        else { r with clock := max deadline r.clock }
      | none => { r with clock := max deadline r.clock }

/-- Lets the worker run until `finished` holds where it waits, or the given time has come. -/
def runUntil (r : Relay) (finished : Relay → Bool) (deadline : Nat) : Relay :=
  runUntilWithin finished deadline (deadline - r.clock + 2) r

/-- What became of an event that was pushed. -/
inductive Pushed
  | ok
  /-- There was no room in time. -/
  | blocked
  | interrupted
deriving DecidableEq, Repr, Inhabited

/-- Pushes an event if the queue takes it or is closed. -/
def tryPush (r : Relay) (c : Change) : Option (Pushed × Relay) :=
  if !r.queueOpen then some (.interrupted, r)
  else if r.hasRoom then some (.ok, { r with queue := r.queue ++ [c] })
  else none

/-- Pushes an event, waiting up to `limit` milliseconds while the queue is full. -/
def push (r : Relay) (c : Change) (limit : Nat) : Pushed × Relay :=
  match r.tryPush c with
  | some result => result
  | none =>
    let r := r.runUntil (fun r => (r.tryPush c).isSome) (r.clock + limit)
    (r.tryPush c).getD (.blocked, r)

/-- Lets time pass. -/
def sleep (r : Relay) (millis : Nat) : Relay :=
  r.runUntil (fun _ => false) (r.clock + millis)

/-- Whether the worker has stopped. -/
def isStopped (r : Relay) : Bool :=
  r.lifecycle.stage = .stopped

/-- Waits for the worker to stop, at most for `limit` milliseconds. -/
def awaitStop (r : Relay) (limit : Nat) : Except Error Unit × Relay :=
  if r.isStopped then (.ok (), r)
  else
    let r := r.runUntil isStopped (r.clock + limit)
    if r.isStopped then (.ok (), r)
    else (.error (r.lifecycle.timeout (.ofMillis limit)), r)

end Relay

end ChangeRelay
