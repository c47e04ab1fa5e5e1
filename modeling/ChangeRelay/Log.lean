/-!
# Log lines

What the relay tells about its work: a level, a message and named values.
-/

namespace ChangeRelay

/-- How much a line matters, the least detailed level first. -/
inductive LogLevel
  | error
  | warn
  | info
  | debug
deriving DecidableEq, Repr, Inhabited

/-- The number of levels that matter more. -/
def LogLevel.detail : LogLevel → Nat
  | .error => 0
  | .warn => 1
  | .info => 2
  | .debug => 3

/-- The name of a level. -/
def LogLevel.name : LogLevel → String
  | .error => "ERROR"
  | .warn => "WARN"
  | .info => "INFO"
  | .debug => "DEBUG"

/-- One line. -/
structure LogLine where
  level : LogLevel
  message : String
  fields : List (String × String) := []
deriving DecidableEq, Repr, Inhabited

/-- The lines that a log of the given level shows; no level, no lines. -/
def visibleLines (level : Option LogLevel) (lines : List LogLine) : List LogLine :=
  match level with
  | none => []
  | some level => lines.filter fun line => line.level.detail ≤ level.detail

end ChangeRelay
