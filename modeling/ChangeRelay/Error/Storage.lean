import ChangeRelay.Text.Quoted
import ChangeRelay.Text.Utf8
/-!
# Errors of files and streams
-/

namespace ChangeRelay

/-- What the operating system says about a path. -/
inductive PathError
  | notFound
  | alreadyExists
  | notADirectory
  | isADirectory
  | nameTooLong
deriving DecidableEq, Repr

namespace PathError

/-- The number of the error. -/
def code : PathError → Nat
  | .notFound => 2
  | .alreadyExists => 17
  | .notADirectory => 20
  | .isADirectory => 21
  | .nameTooLong => 36

/-- The name of the kind of error. -/
def kind : PathError → String
  | .notFound => "NotFound"
  | .alreadyExists => "AlreadyExists"
  | .notADirectory => "NotADirectory"
  | .isADirectory => "IsADirectory"
  | .nameTooLong => "InvalidFilename"

/-- What the error says. -/
def description : PathError → String
  | .notFound => "No such file or directory"
  | .alreadyExists => "File exists"
  | .notADirectory => "Not a directory"
  | .isADirectory => "Is a directory"
  | .nameTooLong => "File name too long"

end PathError

/-- Why a file or a stream could not be used. -/
inductive StorageError
  | path (e : PathError)
  /-- Anything else that the operating system says. -/
  | system (code : Nat) (kind description : String)
  /-- The path has a character that no path has. -/
  | unusablePath
  /-- The file is to be read as a whole and is no text. -/
  | notText
  /-- A line of the stream is no text. -/
  | badLine (fault : Utf8.Fault)
  | other (text : String)
deriving DecidableEq, Repr

namespace StorageError

/-- The text of an error. -/
def message : StorageError → String
  | .path e => s!"{e.description} (os error {e.code})"
  | .system code _ description => s!"{description} (os error {code})"
  | .unusablePath => "file name contained an unexpected NUL byte"
  | .notText => "stream did not contain valid UTF-8"
  | .badLine f => f.message
  | .other text => text

/-- The error with its parts named. -/
def structured : StorageError → String
  | .path e =>
    s!"Os \x7b code: {e.code}, kind: {e.kind}, message: {Quoted.encode e.description} \x7d"
  | .system code kind description =>
    s!"Os \x7b code: {code}, kind: {kind}, message: {Quoted.encode description} \x7d"
  | .unusablePath =>
    "Error \x7b kind: InvalidInput, message: \"file name contained an unexpected NUL byte\" \x7d"
  | .notText =>
    "Error \x7b kind: InvalidData, message: \"stream did not contain valid UTF-8\" \x7d"
  | .badLine f =>
    let length := (f.badLength.map fun n => s!"Some({n})").getD "None"
    let fault := s!"Utf8Error \x7b valid_up_to: {f.validUpTo}, error_len: {length} \x7d"
    s!"Custom \x7b kind: InvalidData, error: {fault} \x7d"
  | .other text => s!"Custom \x7b kind: Other, error: {Quoted.encode text} \x7d"

end StorageError

end ChangeRelay
