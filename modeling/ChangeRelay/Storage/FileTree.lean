import ChangeRelay.Error.Storage
import ChangeRelay.Storage.Path
/-!
# File trees

Files and directories, as far as the relay uses them. A name in a directory leads to a node by its
number, and an opened file is known by that number, so it can still be written after its name is
gone or leads elsewhere.
-/

namespace ChangeRelay

/-- A file or a directory. -/
inductive Node
  | file (content : List UInt8)
  | directory (parent : Nat) (entries : List (String × Nat))
deriving DecidableEq, Repr, Inhabited

/-- Nodes by number; the first is the root. -/
structure FileTree where
  nodes : List Node
  /-- The directory where paths start. -/
  working : Nat
deriving DecidableEq, Repr, Inhabited

namespace FileTree

/-- An empty working directory below the root. -/
def empty : FileTree where
  nodes := [.directory 0 [("work", 1)], .directory 0 []]
  working := 1

/-- The node of a number. -/
def node? (t : FileTree) (n : Nat) : Option Node :=
  t.nodes[n]?

/-- Replaces a node. -/
def setNode (t : FileTree) (n : Nat) (node : Node) : FileTree :=
  { t with nodes := t.nodes.set n node }

/-- The node that a name in a directory leads to. -/
def child (t : FileTree) (dir : Nat) (name : List Char) : Except PathError Nat :=
  match t.node? dir with
  | some (.directory parent entries) =>
    if name = ['.'] then .ok dir
    else if name = ['.', '.'] then .ok parent
    else if Path.nameLimit < Utf8.byteLength name then .error .nameTooLong
    else
      match entries.lookup (String.ofList name) with
      | some n => .ok n
      | none => .error .notFound
  | _ => .error .notADirectory

/-- The node that names lead to, one after the other. -/
def walk (t : FileTree) (dir : Nat) : List (List Char) → Except PathError Nat
  | [] => .ok dir
  | name :: rest => do
    let next ← t.child dir name
    t.walk next rest

/-- Whether a node is a directory. -/
def isDirectory (t : FileTree) (n : Nat) : Bool :=
  match t.node? n with
  | some (.directory _ _) => true
  | _ => false

/-- Checks what no path may be, and gives the directory where it starts and its names. -/
def route (t : FileTree) (path : String) : Except StorageError (Nat × List (List Char)) :=
  let cs := path.toList
  if cs.contains '\x00' then .error .unusablePath
  else if cs = [] then .error (.path .notFound)
  else if Path.pathLimit < Utf8.byteLength cs then .error (.path .nameTooLong)
  else .ok (if Path.isAbsolute cs then 0 else t.working, Path.names cs)

/-- The node of a path. -/
def find (t : FileTree) (path : String) : Except StorageError Nat := do
  let (start, names) ← t.route path
  let n ← (t.walk start names).mapError .path
  if Path.endsInSlash path.toList && !t.isDirectory n then .error (.path .notADirectory)
  else .ok n

/-- Whether there is something at a path. -/
def exists? (t : FileTree) (path : String) : Bool :=
  (t.find path).isOk

/-- Where a path puts its last name: the directory, and the name, if it is one of its own. -/
def place (t : FileTree) (path : String) :
    Except StorageError (Nat × Option (List Char)) := do
  let (start, names) ← t.route path
  match names.getLast? with
  | none => .ok (start, none)
  | some name =>
    let dir ← (t.walk start names.dropLast).mapError .path
    if !t.isDirectory dir then .error (.path .notADirectory)
    else .ok (dir, if Path.isDots name then none else some name)

/-- Lets a name in a directory lead to a node. -/
def link (t : FileTree) (dir : Nat) (name : String) (n : Nat) : FileTree :=
  match t.node? dir with
  | some (.directory parent entries) =>
    t.setNode dir (.directory parent ((entries.filter (·.1 ≠ name)) ++ [(name, n)]))
  | _ => t

/-- Takes a name out of a directory. -/
def unlink (t : FileTree) (dir : Nat) (name : String) : FileTree :=
  match t.node? dir with
  | some (.directory parent entries) =>
    t.setNode dir (.directory parent (entries.filter (·.1 ≠ name)))
  | _ => t

/-- Adds a node under a name. -/
def add (t : FileTree) (dir : Nat) (name : String) (node : Node) : Nat × FileTree :=
  let n := t.nodes.length
  (n, { t with nodes := t.nodes ++ [node] }.link dir name n)

/-- Opens an empty file at a path: a new one, or the one that is there with its content cut
off. -/
def create (t : FileTree) (path : String) : Except StorageError (Nat × FileTree) := do
  let (dir, name) ← t.place path
  match name with
  | none => .error (.path .isADirectory)
  | some name =>
    if Path.endsInSlash path.toList then .error (.path .isADirectory)
    else
      match t.child dir name with
      | .ok n =>
        if t.isDirectory n then .error (.path .isADirectory) else .ok (n, t.setNode n (.file []))
      | .error .notFound => .ok (t.add dir (String.ofList name) (.file []))
      | .error e => .error (.path e)

/-- Bytes with others written over them from the start. -/
def overwrite (old new : List UInt8) : List UInt8 :=
  new ++ old.drop new.length

/-- Writes to an opened file from its start. -/
def write (t : FileTree) (n : Nat) (bytes : List UInt8) : FileTree :=
  match t.node? n with
  | some (.file old) => t.setNode n (.file (overwrite old bytes))
  | _ => t

/-- The content of the file at a path. -/
def read (t : FileTree) (path : String) : Except StorageError (List UInt8) := do
  let n ← t.find path
  match t.node? n with
  | some (.file content) => .ok content
  | _ => .error (.path .isADirectory)

/-- The text of the file at a path. -/
def readText (t : FileTree) (path : String) : Except StorageError (List Char) := do
  let bytes ← t.read path
  (Utf8.decode bytes).mapError fun _ => .notText

/-- Gives a file another path; a file that had the path before loses it. -/
def rename (t : FileTree) (old new : String) : Except StorageError FileTree := do
  let (oldDir, oldName) ← t.place old
  let (newDir, newName) ← t.place new
  let n ← t.find old
  match oldName, newName with
  | some oldName, some newName =>
    if Path.endsInSlash new.toList && !t.isDirectory n then .error (.path .notADirectory)
    else
      let moved := (t.unlink oldDir (String.ofList oldName)).link newDir (String.ofList newName) n
      match t.child newDir newName with
      | .ok target =>
        if target = n then .ok t
        else if t.isDirectory target then .error (.path .isADirectory)
        else .ok moved
      | .error .notFound => .ok moved
      | .error e => .error (.path e)
  | _, _ => .error (.path .isADirectory)

/-- Takes away the file at a path. -/
def remove (t : FileTree) (path : String) : Except StorageError FileTree := do
  let (dir, name) ← t.place path
  let n ← t.find path
  match name with
  | none => .error (.path .isADirectory)
  | some name =>
    if t.isDirectory n then .error (.path .isADirectory)
    else .ok (t.unlink dir (String.ofList name))

/-- Makes a directory. -/
def makeDirectory (t : FileTree) (path : String) : Except StorageError FileTree := do
  let (dir, name) ← t.place path
  match name with
  | none => .error (.path .alreadyExists)
  | some name =>
    match t.child dir name with
    | .ok _ => .error (.path .alreadyExists)
    | .error .notFound => .ok (t.add dir (String.ofList name) (.directory dir [])).2
    | .error e => .error (.path e)

/-- Puts a file at a path. -/
def writeFile (t : FileTree) (path : String) (bytes : List UInt8) :
    Except StorageError FileTree := do
  let (n, t) ← t.create path
  .ok (t.write n bytes)

/-- Puts a node at a path as far as there is a place for it: a file with its content, or a
directory when there is none. -/
def plant (t : FileTree) (path : String) (content : Option (List UInt8)) : FileTree :=
  let planted := match content with
    | some bytes => t.writeFile path bytes
    | none => t.makeDirectory path
  match planted with
  | .ok t => t
  | .error _ => t

/-- The names in the working directory, in order. -/
def list (t : FileTree) : List String :=
  match t.node? t.working with
  | some (.directory _ entries) => (entries.map (·.1)).mergeSort (fun a b => a ≤ b)
  | _ => []

end FileTree

end ChangeRelay
