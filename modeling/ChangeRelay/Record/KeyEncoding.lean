import ChangeRelay.Change.RowId
import ChangeRelay.Hash.Sha256
import ChangeRelay.Text.Hex
/-!
# Record keys and redirected values

What a record says about its row: the key, and the value that stands for the payload when the
record had to be redirected.
-/

namespace ChangeRelay

/-- How a row becomes the key of its records. -/
inductive KeyEncoding
  /-- The digest of database, table and key values. -/
  | digest
  /-- An array of database, table and key cells. -/
  | array
deriving DecidableEq, Repr, Inhabited

namespace KeyEncoding

/-- The names of the encodings in documents. -/
def names : Enumeration KeyEncoding where
  title := "KeyFormat"
  values := [("hash", .digest), ("array", .array)]
  name
    | .digest => "hash"
    | .array => "array"

/-- The bytes whose digest is the key: database, table and key values, a zero byte between any
two. -/
def digestInput (row : RowId) : List UInt8 :=
  row.database.toUTF8.toList ++ 0 :: row.tableName.toUTF8.toList
    ++ row.key.flatMap fun c => 0 :: c.value.compact.toUTF8.toList

/-- The document of database, table and key cells. -/
def document (row : RowId) : Json :=
  .arr [.str row.database, Json.ofOption .str row.table,
    .arr (row.key.map fun c => .obj [(c.column, c.value)])]

/-- The key of a row. -/
def key (e : KeyEncoding) (row : RowId) : String :=
  match e with
  | .digest => Hex.encode (Sha256.digest (digestInput row))
  | .array => (document row).compact

end KeyEncoding

/-- The value of a redirected record: the row, and why the record was redirected. -/
def redirectedValue (row : RowId) (reason : String) : String :=
  (Json.object [
    ("database", .str row.database),
    ("table", Json.ofOption .str row.table),
    ("data", Json.object (row.key.map fun c => (c.column, c.value))),
    ("fallback_reason", .str reason)]).compact

end ChangeRelay
