import ChangeRelay.Config.Basic
import ChangeRelay.Setting.Decode
import ChangeRelay.Storage.FileTree
import ChangeRelay.Toml.Reader
/-!
# Loading a configuration

A configuration is a TOML file, and variables of the environment that win over it. The name of a
variable is the text of a place, with two underscores for each dot, after a fixed beginning.
-/

namespace ChangeRelay.Config

/-! ## The file -/

/-- The extension of configuration files. -/
def fileExtension : List Char :=
  "toml".toList

/-- A path with the extension of configuration files after its whole last name. -/
def withFileExtension (path : List Char) : List Char :=
  if Path.hasFileName path then
    let (before, name) := Path.splitLast path
    before ++ name ++ '.' :: fileExtension
  else path

/-- Whether there is a file at a path. -/
def isFile (t : FileTree) (path : List Char) : Bool :=
  match t.find (String.ofList path) with
  | .ok n => !t.isDirectory n
  | .error _ => false

/-- A path as seen from the root, when the working directory has the name `working`. -/
def absolute (working : String) (path : String) : String :=
  if Path.isAbsolute path.toList then path else s!"{working}/{path}"

/-- The configuration file that a path means: the one there, or else the one with the extension
added. -/
def locate (t : FileTree) (working path : String) : Except Error (List Char) :=
  let cs := path.toList
  if isFile t cs then
    if Path.extension? cs = some fileExtension then .ok cs
    else
      let whole := absolute working path
      .error (.config s!"configuration file \"{whole}\" is not of a registered file format")
  else if isFile t (withFileExtension cs) then .ok (withFileExtension cs)
  else .error (.config s!"configuration file \"{path}\" not found")

/-- The path of a file as messages show it. -/
def shownPath (path : List Char) : String :=
  String.ofList (['/'].intercalate ((Path.names path).filter (· ≠ ['.'])))

/-- The settings in the bytes of a file. -/
def readFile (path : List Char) (bytes : List UInt8) : Except Error (List (String × Setting)) :=
  match Toml.read (Toml.skipMark (Utf8.decodeLossy bytes)) with
  | some (.table _ entries) => .ok (Setting.ofEntries (shownPath path) entries)
  | _ => .error (.config "TOML parse error")

/-! ## The environment -/

/-- What the names of the variables begin with. -/
def variableStart : List Char :=
  "cdc_publisher_".toList

/-- The text with a dot for every two underscores. -/
def withDots : List Char → List Char
  | '_' :: '_' :: rest => '.' :: withDots rest
  | c :: rest => c :: withDots rest
  | [] => []

/-- The setting that a variable gives, if it is one of the configuration. -/
def ofVariable (name value : String) : Option (String × Setting) :=
  let cs := (lowercase name).toList
  if variableStart.isPrefixOf cs then
    let text := withDots (cs.drop variableStart.length)
    some (String.ofList text, .scalar "the environment" (.text value))
  else none

/-- The names of the fields, each with the record it belongs to. -/
def fieldNames : {β : Type} → Fields β → List (List String)
  | _, .nil => []
  | _, .cons name s _ rest =>
    (match s with
      | .record _ fields _ _ => (sectionNames fields).map fun inner => [name, inner]
      | _ => [[name]]) ++ fieldNames rest
where
  /-- The names of the fields of a section. -/
  sectionNames : {β : Type} → Fields β → List String
    | _, .nil => []
    | _, .cons name _ _ rest => name :: sectionNames rest

/-- The variables for all settings, in capital letters. -/
def variableNames : List String :=
  match shape with
  | .record _ fields _ _ => (fieldNames fields).map fun names =>
    (String.ofList variableStart ++ "__".intercalate names).toUpper
  | _ => []

/-! ## Both -/

/-- The configuration that settings give. -/
def ofSettings (s : Setting) : Except Error Config := do
  let c ← (shape.ofSetting s).mapError fun f => .config f.message
  c.validate
  .ok c

/-- Loads the configuration at a path. Messages call the working directory by the name `working`. -/
def load (t : FileTree) (working : String) (environment : List (String × String)) (path : String) :
    Except Error Config := do
  let file ← locate t working path
  let bytes ← (t.read (String.ofList file)).mapError fun e => .config e.message
  let settings ← readFile file bytes
  let overrides := environment.filterMap fun (name, value) => ofVariable name value
  ofSettings (.overlay .emptyTable (settings ++ overrides))

end ChangeRelay.Config
