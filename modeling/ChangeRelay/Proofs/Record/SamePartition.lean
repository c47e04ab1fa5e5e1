import ChangeRelay.Delivery.Broker
import ChangeRelay.Proofs.Record.KeyText
/-!
# Records with the same key

The key of a record and its partition are made of the same row by different code. With keys that
are arrays the key determines the partition. A digest says nothing of the columns, so it determines
the partition only where the columns that place the rows stand at the same places of both keys.
-/

namespace ChangeRelay

/-! ## Placement keys -/

/-- Values with the same text give the same part of a placement key. -/
theorem Json.keyPart?_congr {v w : Json} (hv : v.isWritable = true) (hw : w.isWritable = true)
    (h : v.compact = w.compact) : v.keyPart? = w.keyPart? := by
  have hstring {s : String} {w : Json} (h : w.compact = (Json.str s).compact) : w = .str s := by
    obtain ⟨t, rfl⟩ := Json.eq_str_of_head (h ▸ Json.head?_compact_str s)
    rw [Json.compact_str_inj h]
  have hnull {w : Json} (hw : w.isWritable = true) (h : w.compact = Json.null.compact) :
      w = .null :=
    Json.eq_null_of_compact hw h
  have hother {v : Json} (hnull : v ≠ .null) (hstr : ∀ s, v ≠ .str s) :
      v.keyPart? = some v.compact := by
    cases v with
    | null => exact absurd rfl hnull
    | str s => exact absurd rfl (hstr s)
    | bool | num | arr | obj => rfl
  by_cases hv' : v = .null
  · rw [hv', hnull hw (hv' ▸ h.symm)]
  by_cases hw' : w = .null
  · rw [hw', hnull hv (hw' ▸ h)]
  -- neither is null; a string is told from the others by its text
  by_cases hs : ∃ s, v = .str s
  · obtain ⟨s, rfl⟩ := hs
    rw [hstring h.symm]
  · have hs' : ¬ ∃ s, w = .str s := by
      rintro ⟨s, rfl⟩
      exact hs ⟨s, hstring h⟩
    rw [hother hv' fun s hs₁ => hs ⟨s, hs₁⟩, hother hw' fun s hs₁ => hs' ⟨s, hs₁⟩, h]

/-- Where a column stands in the key of a row. -/
def RowId.slot (row : RowId) (column : String) : Option ℕ :=
  row.key.findIdx? (·.column = column)

/-- The parts that the cells of a key give. -/
def RowId.cellParts (row : RowId) : List (Option String) :=
  row.key.map (·.value.keyPart?)

theorem RowId.cellParts_congr {row row' : RowId}
    (hrow : ∀ cell ∈ row.key, cell.value.isWritable = true)
    (hrow' : ∀ cell ∈ row'.key, cell.value.isWritable = true)
    (h : row.key.map (·.value.compact) = row'.key.map (·.value.compact)) :
    row.cellParts = row'.cellParts := by
  unfold cellParts
  generalize row.key = cells at h hrow
  generalize row'.key = cells' at h hrow'
  induction cells generalizing cells' with
  | nil =>
    cases cells' with
    | nil => rfl
    | cons cell' cells' => simp at h
  | cons cell cells ih =>
    cases cells' with
    | nil => simp at h
    | cons cell' cells' =>
      obtain ⟨hcell, hcells⟩ := List.forall_mem_cons.mp hrow
      obtain ⟨hcell', hcells'⟩ := List.forall_mem_cons.mp hrow'
      rw [List.map_cons, List.map_cons, List.cons.injEq] at h
      rw [List.map_cons, List.map_cons, Json.keyPart?_congr hcell hcell' h.1,
        ih hcells cells' h.2 hcells']

theorem RowId.keyPart?_value? (row : RowId) (column : String) :
    (row.value? column).bind Json.keyPart? =
      (row.slot column).bind fun i => (row.cellParts[i]?).join := by
  rw [RowId.value?, List.find?_eq_bind_findIdx?_getElem?, RowId.slot, RowId.cellParts]
  cases row.key.findIdx? (·.column = column) with
  | none => rfl
  | some i =>
    rw [Option.bind_some, Option.bind_some, List.getElem?_map]
    cases row.key[i]? <;> rfl

theorem RowId.keyParts_cons (row : RowId) (column : String) (columns : List String) :
    row.keyParts (column :: columns) =
      match (row.value? column).bind Json.keyPart? with
      | some part => (row.keyParts columns).map (part :: ·)
      | none => .error column := by
  rw [RowId.keyParts, List.mapM_cons, ← RowId.keyParts]
  cases (row.value? column).bind Json.keyPart? with
  | none => rfl
  | some part => cases row.keyParts columns <;> rfl

/-- The parts in some columns depend on their places only. -/
theorem RowId.toOption_keyParts (row : RowId) (columns : List String) :
    (row.keyParts columns).toOption =
      (columns.map row.slot).mapM fun slot => slot.bind fun i => (row.cellParts[i]?).join := by
  induction columns with
  | nil => rfl
  | cons column columns ih =>
    rw [RowId.keyParts_cons, List.map_cons, List.mapM_cons, ← ih, ← RowId.keyPart?_value?]
    cases (row.value? column).bind Json.keyPart? with
    | none => rfl
    | some part => cases row.keyParts columns <;> rfl

namespace PlacementKey

/-- Where the columns that make the key stand in the key of a row. -/
def slots (k : PlacementKey) (row : RowId) : Option (List (Option ℕ)) :=
  (k.columnsOf row).map fun columns => columns.map row.slot

variable {row row' : RowId}

theorem slots_congr (k : PlacementKey)
    (h : row.key.map (·.column) = row'.key.map (·.column)) : k.slots row = k.slots row' := by
  have hslot (row : RowId) (column : String) :
      row.slot column = (row.key.map (·.column)).findIdx? (· = column) := by
    rw [RowId.slot, List.findIdx?_map]
    rfl
  have hsame : row.slot = row'.slot := by
    funext column
    rw [hslot, hslot, h]
  cases k with
  | database => rfl
  | table => rfl
  | primaryKey => simp only [slots, columnsOf, h, hsame]
  | columns names => simp only [slots, columnsOf, hsame]

/-- The text of the key depends on the names of the row, on its values and on where the columns
stand. -/
theorem text?_congr (k : PlacementKey) (hdatabase : row.database = row'.database)
    (htable : row.tableName = row'.tableName) (hparts : row.cellParts = row'.cellParts)
    (hslots : k.slots row = k.slots row') : k.text? row = k.text? row' := by
  have hcolumns {columns columns' : List String}
      (hsame : columns.map row.slot = columns'.map row'.slot) :
      (row.keyParts columns).toOption = (row'.keyParts columns').toOption := by
    rw [RowId.toOption_keyParts, RowId.toOption_keyParts, hsame, hparts]
  cases k with
  | database => rw [text?, text?, rawText?, rawText?, hdatabase]
  | table =>
    -- an empty table gives no key, and neither does the lack of one
    have hname (row : RowId) :
        text? .table row = if row.tableName.isEmpty then none else some row.tableName := by
      rw [text?, rawText?, RowId.tableName]
      cases row.table with
      | none => rfl
      | some t => simp [Option.filter_some]
    rw [hname, hname, htable]
  | primaryKey =>
    have hsame := hcolumns (Option.some.inj hslots)
    rw [text?, text?, rawText?, rawText?, hsame]
  | columns names =>
    have hsame := hcolumns (Option.some.inj hslots)
    rw [text?, text?, rawText?, rawText?, hsame]

end PlacementKey

/-- Rows with the same names, values and places of the columns are placed alike, unless they are
placed in turn. -/
theorem Placement.place_congr {p : Placement} (hturn : p.keyless ≠ .inTurn) {row row' : RowId}
    (hdatabase : row.database = row'.database) (htable : row.tableName = row'.tableName)
    (hparts : row.cellParts = row'.cellParts) (hslots : p.key.slots row = p.key.slots row')
    (turn turn' : UInt64) (count : Int32) :
    (p.place turn row count).1 = (p.place turn' row' count).1 := by
  rw [place, place, p.key.text?_congr hdatabase htable hparts hslots]
  cases p.key.text? row' with
  | some key => rfl
  | none =>
    simp only [placeKeyless]
    cases hkeyless : p.keyless with
    | first => rfl
    | database => simp only [hdatabase]
    | table => simp only [htable]
    | inTurn => exact absurd hkeyless hturn

/-! ## Records -/

namespace RecordPlan

open KeyEncoding

variable {plan : RecordPlan} {b b' : Broker} {turns next : Turns} {c : Change} {r : Record}

/-- What a record that was built has in it. -/
theorem build_ok (h : plan.build b turns c = (.ok (r, next), b')) :
    r.topic = plan.topic c ∧ r.key = plan.keyEncoding.key c.row ∧
      r.partition =
        some ((plan.placement c).place (turns.of c) c.row (b.partitionsOf (plan.topic c))).1 := by
  unfold build Broker.lookUp at h
  cases hmetadata : b.metadataError with
  | some message => simp [hmetadata, Except.map] at h
  | none =>
    simp only [hmetadata, Except.map, Prod.mk.injEq, Except.ok.injEq] at h
    obtain ⟨hr, -⟩ := h
    have hrecord := (congrArg Prod.fst hr).symm
    simp only [record] at hrecord
    rw [hrecord]
    exact ⟨rfl, rfl, rfl⟩

end RecordPlan

section SameKey

open KeyEncoding

variable {plan : RecordPlan} {c₁ c₂ : Change} {b₁ b₂ b₁' b₂' : Broker}
  {turns₁ turns₂ next₁ next₂ : Turns} {r₁ r₂ : Record}

/-- Two rows that are not placed in turn and whose records have the same key get the same partition
of a topic that keeps its partitions, or of two topics with as many. Where keys are digests this
needs more: the digests do not collide, the names of both rows hold as many zero bytes, and the
columns that place the rows stand at the same places of both keys. -/
theorem partition_eq_of_key_eq (hturn : plan.rowPlacement.keyless ≠ .inTurn)
    (hrow₁ : c₁.isSchemaChange = false) (hrow₂ : c₂.isSchemaChange = false)
    (hvalues₁ : ∀ cell ∈ c₁.row.key, cell.value.isWritable = true)
    (hvalues₂ : ∀ cell ∈ c₂.row.key, cell.value.isWritable = true)
    (hbuild₁ : plan.build b₁ turns₁ c₁ = (.ok (r₁, next₁), b₁'))
    (hbuild₂ : plan.build b₂ turns₂ c₂ = (.ok (r₂, next₂), b₂'))
    (hkey : r₁.key = r₂.key)
    (hcount : b₁.partitionsOf r₁.topic = b₂.partitionsOf r₂.topic)
    (hcollision : plan.keyEncoding = .digest →
      Sha256.digest (digestInput c₁.row) = Sha256.digest (digestInput c₂.row) →
      digestInput c₁.row = digestInput c₂.row)
    (hzeros : plan.keyEncoding = .digest → zeros c₁.row = zeros c₂.row)
    (hslots : plan.keyEncoding = .digest →
      plan.rowPlacement.key.slots c₁.row = plan.rowPlacement.key.slots c₂.row) :
    r₁.partition = r₂.partition := by
  obtain ⟨htopic₁, hkey₁, hpartition₁⟩ := RecordPlan.build_ok hbuild₁
  obtain ⟨htopic₂, hkey₂, hpartition₂⟩ := RecordPlan.build_ok hbuild₂
  have hplacement₁ : plan.placement c₁ = plan.rowPlacement := by simp [RecordPlan.placement, hrow₁]
  have hplacement₂ : plan.placement c₂ = plan.rowPlacement := by simp [RecordPlan.placement, hrow₂]
  -- both encodings tell the names and the texts of the values
  obtain ⟨hdatabase, htable, htexts, hplaces⟩ : c₁.row.database = c₂.row.database ∧
      c₁.row.tableName = c₂.row.tableName ∧
      c₁.row.key.map (·.value.compact) = c₂.row.key.map (·.value.compact) ∧
      plan.rowPlacement.key.slots c₁.row = plan.rowPlacement.key.slots c₂.row := by
    rw [hkey₁, hkey₂] at hkey
    cases hencoding : plan.keyEncoding with
    | digest =>
      rw [hencoding] at hkey
      have hsame := hcollision hencoding (Hex.encode_injective hkey)
      obtain ⟨hdatabase, htable, htexts⟩ := sameSpelling_of_digestInput (hzeros hencoding) hsame
      exact ⟨hdatabase, htable, htexts, hslots hencoding⟩
    | array =>
      rw [hencoding] at hkey
      obtain ⟨hdatabase, htable, hcells⟩ := row_of_document hkey
      have hcolumns := congrArg (List.map Prod.fst) hcells
      have htexts := congrArg (List.map Prod.snd) hcells
      rw [List.map_map, List.map_map] at hcolumns htexts
      refine ⟨hdatabase, ?_, htexts, PlacementKey.slots_congr _ hcolumns⟩
      rw [RowId.tableName, RowId.tableName, htable]
  have hparts : c₁.row.cellParts = c₂.row.cellParts :=
    RowId.cellParts_congr hvalues₁ hvalues₂ htexts
  rw [hpartition₁, hpartition₂, hplacement₁, hplacement₂, ← htopic₁, ← htopic₂, hcount,
    Placement.place_congr hturn hdatabase htable hparts hplaces (turns₁.of c₁) (turns₂.of c₂)]

end SameKey

open KeyEncoding

/-- A plan with digests as keys that places rows by the given part of them, and on the first
partition without it. -/
def RecordPlan.placedBy (key : PlacementKey) : RecordPlan where
  rowTopic := ⟨"rows"⟩
  schemaTopic := ⟨"rows"⟩
  rowPlacement := ⟨.polynomial, key, .first⟩
  schemaPlacement := .ofSchemaChanges .polynomial
  keyEncoding := .digest

/-- A change of the row whose only key column holds the number 7. -/
def Change.ofSeven (database table column : String) : Change where
  position := ⟨"log", 1⟩
  row := ⟨database, some table, [⟨column, Json.ofNat 7⟩]⟩
  payload := ""
  isSchemaChange := false
  topic := none

/-- A broker with four partitions for rows. -/
def Broker.ofFour : Broker where
  partitions := [("rows", 4)]

/-- The key column is renamed, and rows that are placed by their whole key stay where they are. -/
theorem partition_eq_of_renamed_column :
    ∃ r₁ r₂ next₁ next₂ b₁ b₂,
      (RecordPlan.placedBy .primaryKey).build .ofFour {} (.ofSeven "shop" "users" "id") =
        (.ok (r₁, next₁), b₁) ∧
      (RecordPlan.placedBy .primaryKey).build .ofFour {} (.ofSeven "shop" "users" "user_id") =
        (.ok (r₂, next₂), b₂) ∧ r₁.partition = r₂.partition := by
  obtain ⟨r₁, next₁, b₁, hbuild₁⟩ : ∃ r₁ next₁ b₁,
      (RecordPlan.placedBy .primaryKey).build .ofFour {} (.ofSeven "shop" "users" "id") =
        (.ok (r₁, next₁), b₁) := ⟨_, _, _, rfl⟩
  obtain ⟨r₂, next₂, b₂, hbuild₂⟩ : ∃ r₂ next₂ b₂,
      (RecordPlan.placedBy .primaryKey).build .ofFour {} (.ofSeven "shop" "users" "user_id") =
        (.ok (r₂, next₂), b₂) := ⟨_, _, _, rfl⟩
  have hinput : digestInput (Change.ofSeven "shop" "users" "id").row =
      digestInput (Change.ofSeven "shop" "users" "user_id").row := rfl
  obtain ⟨htopic₁, hkey₁, -⟩ := RecordPlan.build_ok hbuild₁
  obtain ⟨htopic₂, hkey₂, -⟩ := RecordPlan.build_ok hbuild₂
  have hkey : r₁.key = r₂.key := by
    rw [hkey₁, hkey₂]
    exact congrArg (fun bytes => Hex.encode (Sha256.digest bytes)) hinput
  have hcount : Broker.ofFour.partitionsOf r₁.topic = Broker.ofFour.partitionsOf r₂.topic := by
    rw [htopic₁, htopic₂]
    rfl
  refine ⟨r₁, r₂, next₁, next₂, b₁, b₂, hbuild₁, hbuild₂, ?_⟩
  exact partition_eq_of_key_eq (by decide) rfl rfl (by decide) (by decide) hbuild₁ hbuild₂ hkey
    hcount (fun _ _ => hinput) (fun _ => rfl) (fun _ => rfl)

/-- Whether two records have the same topic and the same key and lie on different partitions. -/
def Record.Separated (r₁ r₂ : Record) : Prop :=
  r₁.topic = r₂.topic ∧ r₁.key = r₂.key ∧ r₁.partition ≠ r₂.partition

/-- The column that places the rows is renamed, or a name holds the zero character: the digest does
not tell the rows apart, and their partitions differ. -/
theorem separated_of_digest :
    (∃ r₁ r₂ next₁ next₂ b₁ b₂,
      (RecordPlan.placedBy (.columns ["id"])).build .ofFour {} (.ofSeven "shop" "users" "id") =
        (.ok (r₁, next₁), b₁) ∧
      (RecordPlan.placedBy (.columns ["id"])).build .ofFour {} (.ofSeven "shop" "users" "user_id") =
        (.ok (r₂, next₂), b₂) ∧ r₁.Separated r₂) ∧
    (∃ r₁ r₂ next₁ next₂ b₁ b₂,
      (RecordPlan.placedBy .database).build .ofFour {} (.ofSeven "shop\x00a" "users" "id") =
        (.ok (r₁, next₁), b₁) ∧
      (RecordPlan.placedBy .database).build .ofFour {} (.ofSeven "shop" "a\x00users" "id") =
        (.ok (r₂, next₂), b₂) ∧ r₁.Separated r₂) := by
  have hzero : digestInput (Change.ofSeven "shop\x00a" "users" "id").row =
      digestInput (Change.ofSeven "shop" "a\x00users" "id").row := by
    simp only [digestInput, Utf8.toList_toUTF8]
    rfl
  refine ⟨⟨_, _, _, _, _, _, rfl, rfl, rfl, ?_, ?_⟩, ⟨_, _, _, _, _, _, rfl, rfl, rfl, ?_, ?_⟩⟩
  · exact congrArg (fun bytes => Hex.encode (Sha256.digest bytes)) rfl
  · decide
  · exact congrArg (fun bytes => Hex.encode (Sha256.digest bytes)) hzero
  · decide

end ChangeRelay
