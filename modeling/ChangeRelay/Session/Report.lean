import ChangeRelay.Session.Basic
/-!
# Reports of a session

The lines that a session writes to its log, and how the program is used.
-/

namespace ChangeRelay

/-- A line as text. -/
def LogLine.text (line : LogLine) : String :=
  " ".intercalate (line.level.name :: line.message :: line.fields.map fun (n, v) => s!"{n}={v}")

/-- A line as a JSON object. -/
def LogLine.json (line : LogLine) : Json :=
  .obj (("level", .str line.level.name) :: ("message", .str line.message)
    :: line.fields.map fun (n, v) => (n, .str v))

namespace Session

/-- The last line of a session's log. -/
def Summary.line (s : Summary) : LogLine where
  level := .info
  message := s!"cdc-publisher stopped: {s.diagnostic.json.compact}"
  fields := [("inflight", toString s.inFlight), ("skipped", toString s.skipped)]

/-- The level of a session's log. -/
def logLevel (a : Arguments) : LogLevel :=
  if a.verbose then .debug else .info

/-- The lines that a session writes to its log. -/
def Ending.lines (e : Ending) (a : Arguments) : List String :=
  let all := e.log ++ (e.summary.map Summary.line).toList
  (visibleLines (logLevel a) all).map fun line =>
    if a.jsonLogs then line.json.compact else line.text

/-- How the program is used. -/
def usage : String :=
  "Publishes captured change events to Kafka

Usage: cdc-publisher [OPTIONS]

Options:
  -c, --config <FILE>  [default: config.toml]
  -i, --input <FILE>   Change events as JSON lines (default: stdin)
  -j, --json-logs      Enable JSON output for logs
  -v, --verbose        Verbose logging
  -h, --help           Print help"

end Session

end ChangeRelay
