import ChangeRelay.Shape.Basic
/-!
# Row identities

A row is named by its database, its table and the cells of its primary key, in key order. What
concerns a whole database has no table.
-/

namespace ChangeRelay

/-- A column of a primary key and its value in one row. -/
structure KeyCell where
  column : String
  value : Json
deriving Repr, Inhabited

/-- What names a row. -/
structure RowId where
  database : String
  table : Option String
  key : List KeyCell
deriving Repr, Inhabited

/-- A cell as a record of a column name and a value. -/
def KeyCell.shape : Shape KeyCell :=
  .record "KeyColumn"
    (.cons "name" (.leaf .text) none <|
      .cons "value" .json none .nil)
    (fun (column, value, ()) => ⟨column, value⟩)
    (fun c => (c.column, c.value, ()))

namespace RowId

/-- A row identity as a record; only the database has to be there. -/
def shape : Shape RowId :=
  .record "RowIdentity"
    (.cons "database" (.leaf .text) none <|
      .cons "table" (.optional (.leaf .text)) (some none) <|
      .cons "primary_key" (.list KeyCell.shape) (some []) .nil)
    (fun (database, table, key, ()) => ⟨database, table, key⟩)
    (fun r => (r.database, r.table, r.key, ()))

/-- The table's name, empty when there is no table. -/
def tableName (r : RowId) : String :=
  r.table.getD ""

/-- The value in a column: that of the first cell with the column's name. -/
def value? (r : RowId) (column : String) : Option Json :=
  (r.key.find? (·.column = column)).map (·.value)

/-- Database, table and key cells. -/
def shown (r : RowId) : String :=
  let cells := r.key.map fun c => s!"{c.column}={c.value.compact}"
  let key := if cells.isEmpty then "" else " [" ++ ", ".intercalate cells ++ "]"
  s!"{r.database}.{r.tableName}{key}"

end RowId

end ChangeRelay
