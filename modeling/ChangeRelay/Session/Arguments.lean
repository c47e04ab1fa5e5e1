/-!
# Arguments

The words of the command line. Options are read from left to right, each at most once; the first
word that is wrong ends the reading, and so does a request for help.
-/

namespace ChangeRelay

/-- What a run is asked to do. -/
structure Arguments where
  configPath : String := "config.toml"
  /-- The file with the changes; `none` is the standard input. -/
  inputPath : Option String := none
  jsonLogs : Bool := false
  verbose : Bool := false
deriving DecidableEq, Repr, Inhabited

/-- What the words of a command line ask for. -/
inductive Invocation
  | run (a : Arguments)
  | help
  | misuse
deriving DecidableEq, Repr, Inhabited

namespace Arguments

/-- The options. -/
inductive Flag
  | config
  | input
  | jsonLogs
  | verbose
  | help
deriving DecidableEq, Repr

namespace Flag

/-- The option of a letter. -/
def ofLetter? : Char → Option Flag
  | 'c' => some .config
  | 'i' => some .input
  | 'j' => some .jsonLogs
  | 'v' => some .verbose
  | 'h' => some .help
  | _ => none

/-- The option of a name. -/
def ofName? : String → Option Flag
  | "config" => some .config
  | "input" => some .input
  | "json-logs" => some .jsonLogs
  | "verbose" => some .verbose
  | "help" => some .help
  | _ => none

/-- Whether the option comes with a path. -/
def takesPath : Flag → Bool
  | .config => true
  | .input => true
  | _ => false

/-- The arguments after a switch is set. -/
def switch (a : Arguments) : Flag → Arguments
  | .jsonLogs => { a with jsonLogs := true }
  | .verbose => { a with verbose := true }
  | _ => a

/-- The arguments after a path is set. -/
def setPath (a : Arguments) (path : String) : Flag → Arguments
  | .config => { a with configPath := path }
  | .input => { a with inputPath := some path }
  | _ => a

end Flag

/-- What has been read, and which options. -/
structure Draft where
  arguments : Arguments := {}
  given : List Flag := []
deriving Repr, Inhabited

/-- Where the reading stands after a word. -/
inductive Progress
  | more (d : Draft)
  /-- The option wants the next word. -/
  | wantsPath (f : Flag) (d : Draft)
  | over (i : Invocation)

namespace Draft

/-- Sets a switch, once. -/
def switch (d : Draft) (f : Flag) : Progress :=
  if f = .help then .over .help
  else if f ∈ d.given then .over .misuse
  else .more ⟨f.switch d.arguments, f :: d.given⟩

/-- Gives an option its path, once; no path is empty. -/
def setPath (d : Draft) (f : Flag) (path : String) : Progress :=
  if f ∈ d.given || path.isEmpty then .over .misuse
  else .more ⟨f.setPath d.arguments path, f :: d.given⟩

/-- Reads the letters after a hyphen. A path may follow its letter at once, or after an equals
sign. -/
def letters (d : Draft) : List Char → Progress
  | [] => .more d
  | c :: rest =>
    match Flag.ofLetter? c with
    | none => .over .misuse
    | some f =>
      if f.takesPath then
        match rest with
        | [] => .wantsPath f d
        | '=' :: path => d.setPath f (String.ofList path)
        | path => d.setPath f (String.ofList path)
      else
        match d.switch f with
        | .more d => d.letters rest
        | p => p

/-- Reads a name after two hyphens, and what follows its equals sign. -/
def name (d : Draft) (cs : List Char) : Progress :=
  let title := cs.takeWhile (· ≠ '=')
  let attached := (cs.dropWhile (· ≠ '=')).tail?
  match Flag.ofName? (String.ofList title), attached with
  | none, _ => .over .misuse
  | some f, none => if f.takesPath then .wantsPath f d else d.switch f
  | some f, some path => if f.takesPath then d.setPath f (String.ofList path) else .over .misuse

/-- Reads a word. No word stands without an option. -/
def word (d : Draft) (w : String) : Progress :=
  match w.toList with
  | '-' :: '-' :: cs => d.name cs
  | '-' :: c :: cs => d.letters (c :: cs)
  | _ => .over .misuse

end Draft

/-- Whether a word can be the path of an option that stands before it. -/
def isPath (w : String) : Bool :=
  w = "-" || !"-".isPrefixOf w

/-- Reads the words from where the reading stands. Two hyphens end the options, and nothing may
follow them. -/
def readFrom : Progress → List String → Invocation
  | .over i, _ => i
  | .more d, [] => .run d.arguments
  | .wantsPath _ _, [] => .misuse
  | .wantsPath f d, w :: rest => if isPath w then readFrom (d.setPath f w) rest else .misuse
  | .more d, w :: rest =>
    if w = "--" then if rest.isEmpty then .run d.arguments else .misuse
    else readFrom (d.word w) rest

/-- What the words of a command line ask for. -/
def read (words : List String) : Invocation :=
  readFrom (.more {}) words

end Arguments

end ChangeRelay
