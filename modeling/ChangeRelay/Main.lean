import ChangeRelay.Session.Report
import ChangeRelay.Time.Unix
import Std.Time.DateTime.Timestamp
/-!
# The command line

Copies what a session needs from the disk, runs it, and puts its checkpoint back.
-/

open ChangeRelay

/-- What is at a path of the disk: a file's content, or `none` inside for a directory. -/
def readNode (path : String) : IO (Option (Option (List UInt8))) := do
  try
    let bytes ← IO.FS.readBinFile path
    return some (some bytes.toList)
  catch
    | .noFileOrDirectory .. => return none
    | .permissionDenied file code details => throw (.permissionDenied file code details)
    | _ => return some none

/-- Copies a path of the disk into a tree, and the directories on the way to it. -/
def copyIn (t : FileTree) (path : String) : IO FileTree :=
  (Path.stations path.toList).foldlM (fun t station => do
    let station := String.ofList station
    match ← readNode station with
    | some node => return t.plant station node
    | none => return t) t

/-- Puts a file of a tree onto the disk in one move, if it has changed. -/
def copyOut (before after : FileTree) (path : String) : IO Unit := do
  match after.read path with
  | .error _ => return
  | .ok bytes =>
    if (before.read path).toOption ≠ some bytes then
      let side := String.ofList (Path.withExtension path.toList "tmp".toList)
      IO.FS.writeBinFile side ⟨bytes.toArray⟩
      IO.FS.rename side path

/-- Reads a stream to its end. -/
partial def readAll (stream : IO.FS.Stream) (done : ByteArray) : IO ByteArray := do
  let chunk ← stream.read 65536
  if chunk.isEmpty then return done
  readAll stream (done ++ chunk)

/-- The variables of the environment that are settings. -/
def readEnvironment : IO (List (String × String)) :=
  Config.variableNames.filterMapM fun name => do
    return (← IO.getEnv name).map fun value => (name, value)

/-- The time of day. -/
def now : IO Timestamp := do
  let t ← Std.Time.Timestamp.now
  return .ofUnix t.val.second.val t.val.nano.val.toNat

/-- Runs a session. -/
def runSession (a : Arguments) : IO UInt32 := do
  let working := (← IO.currentDir).toString
  let environment ← readEnvironment
  let extended := String.ofList (Config.withFileExtension a.configPath.toList)
  let withConfig ← [a.configPath, extended].foldlM copyIn FileTree.empty
  let withInput ← a.inputPath.toList.foldlM copyIn withConfig
  let checkpoint := match Config.load withConfig working environment a.configPath with
    | .ok config => some config.checkpointing.file
    | .error _ => none
  let files ← checkpoint.toList.foldlM copyIn withInput
  let input ← if a.inputPath.isSome then pure .empty else readAll (← IO.getStdin) .empty
  let ending := Session.run files working environment a input.toList (← now)
  for line in ending.lines a do
    if a.jsonLogs then IO.println line else IO.eprintln line
  checkpoint.forM (copyOut files ending.files)
  ending.errorLine.forM (IO.eprintln ·)
  return ending.exitCode.toUInt32

/-- Runs the program with the words of its command line. -/
def main (words : List String) : IO UInt32 :=
  match Arguments.read words with
  | .run a => runSession a
  | .help => do
    IO.println Session.usage
    return 0
  | .misuse => do
    IO.eprintln Session.usage
    return 2
