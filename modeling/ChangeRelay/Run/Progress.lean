import ChangeRelay.Change.Position
import ChangeRelay.Log
import ChangeRelay.Text.Quoted
/-!
# Progress

Positions are submitted in order and completed in any order. A position is safe to resume after
when everything submitted up to it is completed, so the safe position only moves over a completed
start of the submissions.
-/

namespace ChangeRelay

/-- A submitted position that has not been passed. -/
structure Pending where
  position : Position
  done : Bool
deriving DecidableEq, Repr, Inhabited

/-- What has been submitted and completed. -/
structure Progress where
  /-- In the order of submission. -/
  pending : List Pending := []
  /-- The position to resume after. -/
  safe : Option Position := none
  /-- How many completions there were. -/
  completed : UInt64 := 0
deriving DecidableEq, Repr, Inhabited

namespace Progress

/-- Nothing submitted since `position`. -/
def resumed (position : Option Position) : Progress where
  safe := position

/-- A position is submitted. -/
def submit (t : Progress) (p : Position) : Progress :=
  { t with pending := t.pending ++ [⟨p, false⟩] }

/-- Marks the first unfinished entry of a position, if there is one. -/
def mark? (p : Position) : List Pending → Option (List Pending)
  | [] => none
  | e :: rest =>
    if !e.done && e.position = p then some ({ e with done := true } :: rest)
    else (mark? p rest).map (e :: ·)

/-- Passes over the finished entries at the start. A position is safe only when no entry behind
it has the same one. -/
def pass (safe : Option Position) : List Pending → Option Position × List Pending
  | [] => (safe, [])
  | e :: rest =>
    if e.done then
      pass (if (rest.head?.map (·.position)) = some e.position then safe else some e.position) rest
    else (safe, e :: rest)

/-- A position is completed. One that is not pending is only counted. -/
def complete (t : Progress) (p : Position) : Progress :=
  match mark? p t.pending with
  | none => { t with completed := t.completed + 1 }
  | some marked =>
    let (safe, pending) := pass t.safe marked
    { pending, safe, completed := t.completed + 1 }

/-- What a completion is logged as: only one without a pending entry is. -/
def completeLog (t : Progress) (p : Position) : List LogLine :=
  if (mark? p t.pending).isSome then []
  else [{ level := .warn, message := s!"Completion for untracked position {p.shown}" }]

/-- How many submissions have not been passed. -/
def inFlight (t : Progress) : Nat :=
  t.pending.length

end Progress

/-- A position with its parts named. -/
def Position.structured (p : Position) : String :=
  s!"Position \x7b file: {Quoted.encode p.file}, offset: {p.offset} \x7d"

/-- The right to complete one event, with its parts named. -/
def Progress.ticketText (p : Position) : String :=
  s!"Completer \x7b position: {p.structured} \x7d"

end ChangeRelay
