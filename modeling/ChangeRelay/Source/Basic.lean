import ChangeRelay.Change.Basic
import ChangeRelay.Error.Basic
import ChangeRelay.Text.Blank
import ChangeRelay.Text.Utf8
/-!
# The source of changes

A byte stream with one change on each line. Blank lines mean nothing, and when the relay resumes
after a position, the changes at that position or before it are passed over.
-/

namespace ChangeRelay

/-- A stream of changes, read up to some line. -/
structure Source where
  /-- What has not been read. -/
  bytes : List UInt8
  resumeAfter : Option Position
  /-- How many lines have been read. -/
  lineNumber : UInt64
  /-- How many changes have been passed over. -/
  skipped : UInt64

namespace Source

/-- A stream from its start. -/
def start (bytes : List UInt8) (resumeAfter : Option Position) : Source :=
  ⟨bytes, resumeAfter, 0, 0⟩

/-- The byte that ends a line. -/
def lineFeed : UInt8 :=
  0x0A

/-- The first line of a stream with its end, and what follows it; the last line needs no end. -/
def splitLine (bytes : List UInt8) : List UInt8 × List UInt8 :=
  let line := bytes.takeWhile (· ≠ lineFeed)
  match bytes.dropWhile (· ≠ lineFeed) with
  | [] => (line, [])
  | b :: rest => (line ++ [b], rest)

theorem length_splitLine_lt {bytes : List UInt8} (h : bytes ≠ []) :
    (splitLine bytes).2.length < bytes.length := by
  have hlen := congrArg List.length (List.takeWhile_append_dropWhile (p := (· ≠ lineFeed))
    (l := bytes))
  simp only [List.length_append] at hlen
  unfold splitLine
  split
  · simpa using List.length_pos_iff.2 h
  · next h' =>
    rw [h'] at hlen
    simp at hlen ⊢
    omega

/-- A line without its end: a line feed, or a carriage return and a line feed. -/
def withoutEnd (line : List Char) : List Char :=
  if line.getLast? = some '\n' then
    let line := line.dropLast
    if line.getLast? = some '\r' then line.dropLast else line
  else line

/-- What a line holds. -/
inductive Line
  | blank
  | change (c : Change)
  | invalid (fault : Json.Fault)
  | notText (fault : Utf8.Fault)

/-- Reads a line with its end. -/
def Line.ofBytes (line : List UInt8) : Line :=
  match Utf8.decode line with
  | .error fault => .notText fault
  | .ok cs =>
    let text := withoutEnd cs
    if isBlankText text then .blank
    else
      match Change.ofText (String.ofList text) with
      | .ok c => .change c
      | .error fault => .invalid fault

/-- Whether a change is passed over. -/
def passesOver (resumeAfter : Option Position) (c : Change) : Bool :=
  resumeAfter.any fun p => c.position.atOrBefore p

/-- The next change, or `none` at the end of the stream. A line that is not a change is an error,
but the stream goes on behind it. -/
def next (s : Source) : Except Error (Option Change) × Source :=
  if h : s.bytes = [] then (.ok none, s)
  else
    let rest := (splitLine s.bytes).2
    have : rest.length < s.bytes.length := length_splitLine_lt h
    let number := s.lineNumber + 1
    match Line.ofBytes (splitLine s.bytes).1 with
    | .blank => next { s with bytes := rest, lineNumber := number }
    | .notText fault =>
      (.error (.storage (.badLine fault)), { s with bytes := rest })
    | .invalid fault =>
      (.error (.invalidEvent s!"line {number}: {fault.message}"),
        { s with bytes := rest, lineNumber := number })
    | .change c =>
      if passesOver s.resumeAfter c then
        next { s with bytes := rest, lineNumber := number, skipped := s.skipped + 1 }
      else (.ok (some c), { s with bytes := rest, lineNumber := number })
termination_by s.bytes.length

end Source

end ChangeRelay
