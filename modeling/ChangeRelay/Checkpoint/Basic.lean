import ChangeRelay.Change.Position
import ChangeRelay.Shape.OfText
import ChangeRelay.Shape.ToJson
/-!
# Checkpoints

What the relay remembers of its work from one run to the next.
-/

namespace ChangeRelay

/-- A position to resume after. -/
structure Checkpoint where
  position : Position
  time : Timestamp
  /-- How many events were completed in the run that made the checkpoint. -/
  count : UInt64
deriving DecidableEq, Repr, Inhabited

namespace Checkpoint

/-- A checkpoint as a record. -/
def shape : Shape Checkpoint :=
  .record "Checkpoint"
    (.cons "position" Position.shape none <|
      .cons "timestamp" (.leaf .instant) none <|
      .cons "message_count" (.leaf (.word "u64")) none .nil)
    (fun (position, time, count, ()) => ⟨position, time, count⟩)
    (fun c => (c.position, c.time, c.count, ()))

/-- The text that is kept of a checkpoint. -/
def text (c : Checkpoint) : String :=
  (shape.write c).indented

end Checkpoint

end ChangeRelay
