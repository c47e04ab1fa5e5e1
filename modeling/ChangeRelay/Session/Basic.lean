import ChangeRelay.Checkpoint.File
import ChangeRelay.Config.Load
import ChangeRelay.Run.Alarm
import ChangeRelay.Run.Diagnostic
import ChangeRelay.Session.Arguments
import ChangeRelay.Source.Basic
/-!
# Sessions

One run of the program: it loads its configuration, opens its input, resumes after its checkpoint,
relays the changes of the input until there are no more, or until something goes wrong, and leaves a
checkpoint behind.

The reader of the input is always faster than the worker: the worker goes on only when the reader
has to wait for it.
-/

namespace ChangeRelay

/-- The causes of alarm among the things that happened, the first of them kept. -/
def Exchange.alarm (x : Exchange) : Alarm :=
  x.history.foldl (fun alarm note =>
    match note with
    | .fatal _ e => alarm.raise (.delivery e)
    | .broken e => alarm.raise e
    | _ => alarm) {}

namespace Session

/-- The relay and the input that it is fed from. -/
structure Feed where
  relay : Relay
  source : Source

/-- The input as it was opened. A directory can be opened too, but not read. -/
inductive Input
  | bytes (content : List UInt8)
  | unreadable (e : StorageError)
deriving DecidableEq, Repr

/-- What a session tells at its end. -/
structure Summary where
  diagnostic : Diagnostic
  inFlight : Nat
  skipped : UInt64
deriving DecidableEq, Repr, Inhabited

/-- How a session ends. -/
structure Ending where
  files : FileTree
  /-- `none` when the relay was never started. -/
  summary : Option Summary := none
  failure : Option StartFailure := none
  log : List LogLine := []
deriving Repr, Inhabited

/-- The exit code of the process. -/
def Ending.exitCode (e : Ending) : Nat :=
  match e.failure with
  | none => 0
  | some (.error _) => 1
  | some .capacityTooLarge => 101

/-- The line that tells why the process failed. -/
def Ending.errorLine (e : Ending) : Option String :=
  match e.failure with
  | some (.error cause) => some s!"Error: {cause.structured}"
  | _ => none

/-! ## Feeding the relay -/

/-- The worker's next step, after its pause if it makes one. -/
def advance (r : Relay) : Option Relay :=
  match r.step, r.nextWake with
  | some r, _ => some r
  | none, some wake => { r with clock := max wake r.clock }.step
  | none, none => none

/-- Pushes a change, letting the worker take at most `patience` steps until there is room. -/
def push : (patience : Nat) → Relay → Change → Relay.Pushed × Relay
  | 0, r, c => (r.tryPush c).getD (.blocked, r)
  | patience + 1, r, c =>
    match r.tryPush c, advance r with
    | some result, _ => result
    | none, some r => push patience r c
    | none, none => (.blocked, r)

/-- How many steps of the worker a push waits for. Unless the broker has no room for records, a
handful of them makes room in the queue or closes it. -/
def patience : Nat :=
  1000

/-- Pushes the changes of the input until it ends, a line cannot be read, or the relay takes no
more. Every change takes a byte, so `fuel` need not exceed the length of the input. -/
def pump : (fuel : Nat) → Feed → Except Error Unit × Feed
  | 0, f => (.ok (), f)
  | fuel + 1, f =>
    match f.source.next with
    | (.error e, source) => (.error e, { f with source })
    | (.ok none, source) => (.ok (), { f with source })
    | (.ok (some c), source) =>
      match push patience f.relay c with
      | (.ok, relay) => pump fuel ⟨relay, source⟩
      | (_, relay) => (.error .interrupted, ⟨relay, source⟩)

/-- Feeds the relay from the whole input. -/
def relayAll (relay : Relay) (input : Input) (resume : Option Position) :
    Except Error Unit × Feed :=
  match input with
  | .bytes content => pump (content.length + 1) ⟨relay, .start content resume⟩
  | .unreadable e => (.error (.storage e), ⟨relay, .start [] resume⟩)

/-- How long the worker may take to stop beyond the time its broker may take to flush, in
milliseconds. -/
def stopGrace : Nat :=
  5000

/-- Stops the relay, or at least closes its broker. -/
def stop (r : Relay) (closeMillis : Nat) : Relay :=
  match r.requestStop.awaitStop (closeMillis + stopGrace) with
  | (.ok (), r) => r
  | (.error _, r) => r.closeBroker

/-- What comes of a session: the first cause of alarm, if there is one, and else what came of the
reading. -/
def verdict (alarm : Alarm) (outcome : Except Error Unit) : Option Error :=
  match alarm.take.1, outcome with
  | some cause, _ => some cause
  | none, .error e => some e
  | none, .ok () => none

/-! ## The whole session -/

/-- Opens the input of a session. -/
def openInput (files : FileTree) (path : Option String) (standard : List UInt8) :
    Except StorageError Input :=
  match path with
  | none => .ok (.bytes standard)
  | some path => do
    let n ← files.find path
    if files.isDirectory n then .ok (.unreadable (.path .isADirectory))
    else (files.read path).map .bytes

/-- Leaves a checkpoint behind if a position is safe; one that cannot be saved changes nothing
else. -/
def saveCheckpoint (files : FileTree) (path : String) (p : Progress) (now : Timestamp) :
    FileTree :=
  match p.safe with
  | none => files
  | some position => (Checkpoint.save files path ⟨position, now, p.completed⟩).2

/-- What a session works with. -/
structure Setup where
  config : Config
  input : Input
  resume : Option Position

/-- Prepares a session. The environment gives settings too, and `working` names the working
directory in messages. -/
def prepare (files : FileTree) (working : String) (environment : List (String × String))
    (a : Arguments) (standard : List UInt8) : Except Error Setup := do
  let config ← Config.load files working environment a.configPath
  let input ← (openInput files a.inputPath standard).mapError .storage
  let checkpoint ← Checkpoint.load files config.checkpointing.file
  .ok ⟨config, input, checkpoint.map Checkpoint.position⟩

/-- Runs a prepared session with a broker; `now` is the time of its checkpoint. -/
def relay (files : FileTree) (s : Setup) (broker : Broker) (now : Timestamp) : Ending :=
  match Relay.start s.config.publishing broker s.resume false with
  | .error failure => { files, failure := some failure }
  | .ok start =>
    let (outcome, feed) := relayAll start s.input s.resume
    let r := stop feed.relay s.config.brokers.closeMillis.toNat
    let progress := r.exchange.progress
    { files := saveCheckpoint files s.config.checkpointing.file progress now
      summary := some ⟨r.diagnostic, progress.inFlight, feed.source.skipped⟩
      failure := (verdict r.exchange.alarm outcome).map .error
      log := r.exchange.log }

/-- Runs a session whose brokers nobody can reach. -/
def run (files : FileTree) (working : String) (environment : List (String × String))
    (a : Arguments) (standard : List UInt8) (now : Timestamp) : Ending :=
  match prepare files working environment a standard with
  | .error e => { files, failure := some (.error e) }
  | .ok s => relay files s .unreachable now

end Session

end ChangeRelay
