import ChangeRelay.Change.RowId
/-!
# Topic patterns

The name of a topic may hold places for the database and the table of a row. A pattern without the
start of a place is the topic as it stands.
-/

namespace ChangeRelay

/-- Replaces every occurrence of `old`, from left to right, after passing over `skip` characters. -/
def replaceFrom (old new : List Char) : (skip : Nat) → List Char → List Char
  | _, [] => []
  | skip + 1, _ :: rest => replaceFrom old new skip rest
  | 0, c :: rest =>
    if old.isPrefixOf (c :: rest) then new ++ replaceFrom old new (old.length - 1) rest
    else c :: replaceFrom old new 0 rest

/-- Replaces every occurrence of `old`, which is not empty. -/
def replaceAll (old new cs : List Char) : List Char :=
  replaceFrom old new 0 cs

/-- Whether `part` occurs in a text. -/
def occurs (part : List Char) : List Char → Bool
  | [] => part.isEmpty
  | c :: rest => part.isPrefixOf (c :: rest) || occurs part rest

/-- The name of a topic, with places for the names of a row. -/
structure TopicPattern where
  text : String
deriving DecidableEq, Repr, Inhabited

namespace TopicPattern

/-- How a place starts. -/
def placeStart : List Char :=
  "%\x7b".toList

/-- The place of the database. -/
def databasePlace : List Char :=
  "%\x7bdatabase\x7d".toList

/-- The place of the table. -/
def tablePlace : List Char :=
  "%\x7btable\x7d".toList

/-- Whether the pattern has anything that starts like a place. -/
def hasPlaces (p : TopicPattern) : Bool :=
  occurs placeStart p.text.toList

/-- The topic of a row: the database is put in its places first, then the table. -/
def topic (p : TopicPattern) (row : RowId) : String :=
  if p.hasPlaces then
    let withDatabase := replaceAll databasePlace row.database.toList p.text.toList
    String.ofList (replaceAll tablePlace row.tableName.toList withDatabase)
  else p.text

end TopicPattern

end ChangeRelay
