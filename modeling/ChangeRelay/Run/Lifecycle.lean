import ChangeRelay.Error.Basic
import ChangeRelay.Log
import ChangeRelay.Time.Duration
/-!
# The life of a task

A task is created, runs, is asked to stop and stops. It may be asked to stop before it runs, and it
may stop without being asked.
-/

namespace ChangeRelay

/-- How far a task has come. -/
inductive Stage
  | created
  | running
  | stopRequested
  | stopped
deriving DecidableEq, Repr, Inhabited

namespace Stage

/-- The name of a stage. -/
def name : Stage → String
  | .created => "created"
  | .running => "running"
  | .stopRequested => "stop_requested"
  | .stopped => "stopped"

/-- The stage after the task has started: a stop requested before is kept. -/
def started : Stage → Stage
  | .created => .running
  | s => s

/-- The stage after a stop is requested. -/
def stopRequest : Stage → Stage
  | .created => .stopRequested
  | .running => .stopRequested
  | s => s

end Stage

/-- A task with a name. -/
structure Lifecycle where
  name : String
  stage : Stage := .created
deriving DecidableEq, Repr, Inhabited

namespace Lifecycle

/-- The task starts. -/
def start (t : Lifecycle) : Lifecycle :=
  { t with stage := t.stage.started }

/-- A stop is requested. -/
def requestStop (t : Lifecycle) : Lifecycle :=
  { t with stage := t.stage.stopRequest }

/-- What a request to stop is logged as: the first one only. -/
def requestStopLog (t : Lifecycle) : List LogLine :=
  if t.requestStop = t then [] else [{ level := .info, message := s!"{t.name}: stop requested" }]

/-- The task stops. -/
def stop (t : Lifecycle) : Lifecycle :=
  { t with stage := .stopped }

/-- What the end of a task is logged as. -/
def stopLog (t : Lifecycle) : List LogLine :=
  [{ level := .debug, message := s!"{t.name}: stopped" }]

/-- Waiting for a task for too long. -/
def timeout (t : Lifecycle) (limit : Duration) : Error :=
  .timeout s!"{t.name} did not stop within {limit.shown}"

end Lifecycle

end ChangeRelay
