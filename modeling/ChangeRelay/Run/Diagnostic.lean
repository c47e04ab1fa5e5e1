import ChangeRelay.Run.Relay
import ChangeRelay.Shape.ToJson
/-!
# Diagnostics

What a relay tells of itself.
-/

namespace ChangeRelay

/-- The state of a relay as it is told. -/
structure Diagnostic where
  queueDepth : Nat
  lastPosition : Option Position
  stage : Stage
  counts : Counts
deriving DecidableEq, Repr, Inhabited

/-- What a relay tells of itself. -/
def Relay.diagnostic (r : Relay) : Diagnostic where
  queueDepth := r.queue.length
  lastPosition := r.lastPosition
  stage := r.lifecycle.stage
  counts := r.exchange.counts

namespace Diagnostic

/-- The counters by name. -/
def counters (d : Diagnostic) : List (String × Json) :=
  [("produced", Json.ofNat d.counts.produced.toNat), ("failed", Json.ofNat d.counts.failed.toNat)]

/-- All but the counters, by name. -/
def states (d : Diagnostic) : List (String × Json) :=
  [("queue_depth", Json.ofNat d.queueDepth),
    ("last_position", Json.ofOption Position.shape.write d.lastPosition),
    ("worker_state", .str d.stage.name)]

/-- The diagnostic as a JSON value. -/
def json (d : Diagnostic) : Json :=
  .obj (d.states ++ [("metrics", .obj d.counters)])

end Diagnostic

end ChangeRelay
