import ChangeRelay.Error.Basic
import ChangeRelay.Log
/-!
# The alarm

An error that the relay cannot live with is raised as an alarm, and the process ends. Of several
causes the first one is kept.
-/

namespace ChangeRelay

/-- An alarm, and the cause that has not been taken from it. -/
structure Alarm where
  cause : Option Error := none
  raised : Bool := false
deriving DecidableEq, Repr, Inhabited

namespace Alarm

/-- The alarm is raised. -/
def raise (a : Alarm) (cause : Error) : Alarm where
  cause := a.cause <|> some cause
  raised := true

/-- What an alarm is logged as. -/
def raiseLog (cause : Error) : List LogLine :=
  [{ level := .error, message := s!"Fatal error, terminating: {cause.message}" }]

/-- Takes the cause away. -/
def take (a : Alarm) : Option Error × Alarm :=
  (a.cause, { a with cause := none })

end Alarm

end ChangeRelay
