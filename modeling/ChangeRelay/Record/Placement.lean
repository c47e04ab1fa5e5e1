import ChangeRelay.Change.Basic
import ChangeRelay.Record.KeyHash
/-!
# Placement on partitions

Which partition of its topic a row goes to: the partition of a key made of parts of the row, or,
when the row has no such key, a place that does not depend on it.
-/

namespace ChangeRelay

/-- The part of a row that decides its partition. -/
inductive PlacementKey
  | database
  | table
  /-- All values of the primary key. -/
  | primaryKey
  /-- The values of the given key columns. -/
  | columns (names : List String)
deriving DecidableEq, Repr, Inhabited

/-- Where rows without a placement key go. -/
inductive Keyless
  /-- To the first partition. -/
  | first
  /-- Where their database's name goes. -/
  | database
  /-- Where their table's name goes. -/
  | table
  /-- To one partition after the other. -/
  | inTurn
deriving DecidableEq, Repr, Inhabited

/-- The names of the places for rows without a key. -/
def Keyless.names : Enumeration Keyless where
  title := "PartitionFallback"
  values := [("zero", .first), ("database", .database), ("table", .table), ("round_robin", .inTurn)]
  name
    | .first => "zero"
    | .database => "database"
    | .table => "table"
    | .inTurn => "round_robin"

/-- A value as a part of a placement key: a string as it is, any other value as its text, and no
part for null. -/
def Json.keyPart? : Json → Option String
  | .null => none
  | .str s => some s
  | v => some v.compact

/-- The key parts in the given columns, or the first column that gives none. -/
def RowId.keyParts (row : RowId) (columns : List String) : Except String (List String) :=
  columns.mapM fun column =>
    match (row.value? column).bind Json.keyPart? with
    | some part => .ok part
    | none => .error column

/-- A key is made of the parts of several columns. -/
def joinParts (parts : List String) : String :=
  ":".intercalate parts

namespace PlacementKey

/-- The columns whose values make the key. -/
def columnsOf (k : PlacementKey) (row : RowId) : Option (List String) :=
  match k with
  | .primaryKey => some (row.key.map (·.column))
  | .columns names => some names
  | _ => none

/-- The text of the key before it is known not to be empty. -/
def rawText? (k : PlacementKey) (row : RowId) : Option String :=
  match k with
  | .database => some row.database
  | .table => row.table
  | .primaryKey => ((row.keyParts (row.key.map (·.column))).toOption).map joinParts
  | .columns names => ((row.keyParts names).toOption).map joinParts

/-- The text of the key; an empty key is none. -/
def text? (k : PlacementKey) (row : RowId) : Option String :=
  (k.rawText? row).filter fun text => !text.isEmpty

/-- The first column that should give a part of the key and gives none. -/
def missingColumn? (k : PlacementKey) (row : RowId) : Option String := do
  let columns ← k.columnsOf row
  match row.keyParts columns with
  | .error column => some column
  | .ok _ => none

end PlacementKey

/-- How rows are placed on the partitions of their topic. -/
structure Placement where
  hash : KeyHash
  key : PlacementKey
  keyless : Keyless
deriving DecidableEq, Repr, Inhabited

namespace Placement

/-- The placement of schema changes: by table, and by database for those without a table. -/
def ofSchemaChanges (hash : KeyHash) : Placement :=
  ⟨hash, .table, .database⟩

/-- The partition of a row without a key, and the turn after it; only a row that is placed in turn
uses up a turn. -/
def placeKeyless (p : Placement) (turn : UInt64) (row : RowId) (count : Int32) :
    Int32 × UInt64 :=
  match p.keyless with
  | .first => (0, turn)
  | .database => (p.hash.partition row.database count, turn)
  | .table => (p.hash.partition row.tableName count, turn)
  | .inTurn =>
    if count ≤ 1 then (0, turn)
    else (Int32.ofNat (turn.toNat % count.toNatClampNeg), turn + 1)

/-- The partition of a row among `count`, and the turn after it. -/
def place (p : Placement) (turn : UInt64) (row : RowId) (count : Int32) : Int32 × UInt64 :=
  match p.key.text? row with
  | some key => (p.hash.partition key count, turn)
  | none => p.placeKeyless turn row count

end Placement

end ChangeRelay
