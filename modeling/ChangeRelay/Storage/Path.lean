import ChangeRelay.Text.Utf8
/-!
# Paths

A path is a text of names between slashes. The name before the last dot of the last name is its
stem, and what follows the dot its extension; a dot at the start of a name begins no extension.
-/

namespace ChangeRelay.Path

/-- The names between the slashes; what stands between two slashes in a row is no name. -/
def names (path : List Char) : List (List Char) :=
  (path.splitOn '/').filter (· ≠ [])

/-- Whether a path starts at the root. -/
def isAbsolute (path : List Char) : Bool :=
  path.head? = some '/'

/-- Whether a path ends in a slash, and so names a directory. -/
def endsInSlash (path : List Char) : Bool :=
  path.getLast? = some '/'

/-- The paths that lead to a path, from the start on, and the path itself. -/
def stations (path : List Char) : List (List Char) :=
  let parts := names path
  let start := if isAbsolute path then ['/'] else []
  (List.range parts.length).map fun n => start ++ ['/'].intercalate (parts.take (n + 1))

/-- Whether a name stands for the directory itself or for the one above. -/
def isDots (name : List Char) : Bool :=
  name = ['.'] || name = ['.', '.']

/-- A path up to the end of its last name: slashes at the end, and names of the directory itself
after a slash, do not count. The characters are given in reverse. -/
def trimReversed : List Char → List Char
  | '/' :: rest => trimReversed rest
  | '.' :: '/' :: rest => trimReversed ('/' :: rest)
  | cs => cs

/-- The last name of a path, and the path before it, up to a slash. -/
def splitLast (path : List Char) : List Char × List Char :=
  let reversed := trimReversed path.reverse
  let name := reversed.takeWhile (· ≠ '/')
  ((reversed.drop name.length).reverse, name.reverse)

/-- A name split at its last dot, if it has one that is not at its start. -/
def splitDot (name : List Char) : List Char × Option (List Char) :=
  let extension := (name.reverse.takeWhile (· ≠ '.')).reverse
  let stem := name.take (name.length - extension.length - 1)
  if extension.length = name.length || stem = [] then (name, none) else (stem, some extension)

/-- Whether a path has a last name of its own. -/
def hasFileName (path : List Char) : Bool :=
  let name := (splitLast path).2
  name ≠ [] && !isDots name

/-- The extension of the last name. -/
def extension? (path : List Char) : Option (List Char) :=
  if hasFileName path then (splitDot (splitLast path).2).2 else none

/-- The path with another extension of its last name; a path without a last name stays as it
is. -/
def withExtension (path extension : List Char) : List Char :=
  let (before, name) := splitLast path
  if hasFileName path then before ++ (splitDot name).1 ++ '.' :: extension else path

/-- The longest name, in bytes. -/
def nameLimit : Nat :=
  255

/-- The longest path, in bytes. -/
def pathLimit : Nat :=
  4095

end ChangeRelay.Path
