import ChangeRelay.Proofs.Json.Reread
import ChangeRelay.Record.KeyEncoding
import Mathlib.Data.List.Nodup
/-!
# What a redirected value tells

The value of a redirected record is read as a document of the database, the table, the key cells
and the reason. Of several cells of one column the last one is told, while the row answers with the
first.
-/

namespace ChangeRelay

/-! ## Members by name -/

namespace Json

variable {ms done data : List (String × Json)} {f : Json → Option Json}

theorem lookup_cons_eq (name other : String) (v : Json) (ms : List (String × Json)) :
    ((name, v) :: ms).lookup other = if other = name then some v else ms.lookup other := by
  rw [List.lookup_cons]
  split
  · next h => rw [if_pos (eq_of_beq h)]
  · next h => rw [if_neg (ne_of_beq_false h)]

theorem lookup_insertMember (name other : String) (v : Json) (ms : List (String × Json)) :
    (insertMember name v ms).lookup other = if other = name then some v else ms.lookup other := by
  induction ms with
  | nil => exact lookup_cons_eq name other v []
  | cons m ms ih =>
    obtain ⟨n, w⟩ := m
    rw [insertMember]
    split
    · exact lookup_cons_eq name other v _
    · split
      · next heq =>
        subst heq
        rw [lookup_cons_eq, lookup_cons_eq]
        by_cases h : other = name <;> simp [h]
      · next hne =>
        rw [lookup_cons_eq, lookup_cons_eq, ih]
        by_cases h : other = n
        · have hname : ¬n = name := fun heq => hne heq.symm
          simp [h, hname]
        · simp [h]

/-- Of the members with one name the last counts. -/
theorem lookup_stored (done ms : List (String × Json)) (name : String) :
    (stored done ms).lookup name = (ms.reverse.lookup name).or (done.lookup name) := by
  induction ms generalizing done with
  | nil => rfl
  | cons m ms ih =>
    obtain ⟨n, v⟩ := m
    show (stored (insertMember n v done) ms).lookup name = _
    rw [ih, lookup_insertMember, List.reverse_cons, List.lookup_append, lookup_cons_eq,
      List.lookup_nil, Option.or_assoc]
    by_cases h : name = n <;> simp [h]

theorem Listed.stored (h : Listed done) (ms : List (String × Json)) : Listed (stored done ms) := by
  induction ms generalizing done with
  | nil => exact h
  | cons m ms ih => exact ih h.insertMember

/-! ## Members as they are read -/

theorem map_fst_membersAsRead (h : membersAsRead f ms = some data) :
    data.map Prod.fst = ms.map Prod.fst := by
  induction ms generalizing data with
  | nil =>
    obtain rfl := Option.some.inj h
    rfl
  | cons m ms ih =>
    obtain ⟨name, v⟩ := m
    rw [membersAsRead_cons] at h
    obtain ⟨w, -, h⟩ := Option.bind_eq_some_iff.mp h
    obtain ⟨data', hdata', rfl⟩ := Option.map_eq_some_iff.mp h
    rw [List.map_cons, List.map_cons, ih hdata']

theorem lookup_membersAsRead (h : membersAsRead f ms = some data) (name : String) :
    data.lookup name = (ms.lookup name).bind f := by
  induction ms generalizing data with
  | nil =>
    obtain rfl := Option.some.inj h
    rfl
  | cons m ms ih =>
    obtain ⟨n, v⟩ := m
    rw [membersAsRead_cons] at h
    obtain ⟨w, hw, h⟩ := Option.bind_eq_some_iff.mp h
    obtain ⟨data', hdata', rfl⟩ := Option.map_eq_some_iff.mp h
    rw [lookup_cons_eq, lookup_cons_eq]
    split
    · exact hw.symm
    · exact ih hdata'

theorem exists_membersAsRead (h : ∀ m ∈ ms, (f m.2).isSome = true) :
    ∃ data, membersAsRead f ms = some data := by
  induction ms with
  | nil => exact ⟨[], rfl⟩
  | cons m ms ih =>
    obtain ⟨name, v⟩ := m
    obtain ⟨hv, hms⟩ := List.forall_mem_cons.mp h
    obtain ⟨w, hw⟩ := Option.isSome_iff_exists.mp hv
    obtain ⟨data, hdata⟩ := ih hms
    exact ⟨(name, w) :: data, by rw [membersAsRead_cons, hw, hdata]; rfl⟩

theorem Listed.lookup_of_mem (h : Listed ms) {m : String × Json} (hm : m ∈ ms) :
    ms.lookup m.1 = some m.2 := by
  induction ms with
  | nil => simp at hm
  | cons a ms ih =>
    obtain ⟨name, v⟩ := a
    obtain ⟨hhead, htail⟩ := List.pairwise_cons.mp h
    rw [lookup_cons_eq]
    rcases List.mem_cons.mp hm with rfl | hm
    · rw [if_pos rfl]
    · rw [if_neg (ne_of_gt (hhead m hm)), ih htail hm]

theorem mem_map_fst_iff (ms : List (String × Json)) (name : String) :
    name ∈ ms.map Prod.fst ↔ (ms.lookup name).isSome = true := by
  induction ms with
  | nil => simp
  | cons m ms ih =>
    obtain ⟨n, v⟩ := m
    rw [List.map_cons, List.mem_cons, ih, lookup_cons_eq]
    by_cases h : name = n <;> simp [h]

theorem Listed.membersAsRead (h : Listed ms) (hread : membersAsRead f ms = some data) :
    Listed data := by
  have hnames : (data.map Prod.fst).Pairwise (· < ·) := by
    rw [map_fst_membersAsRead hread]
    exact List.pairwise_map.mpr h
  exact List.pairwise_map.mp hnames

end Json

/-! ## The cells of a row -/

namespace RowId

variable (row : RowId) (column : String)

/-- The value of the last cell with the column's name. -/
def lastValue? : Option Json :=
  (row.key.reverse.find? (·.column = column)).map (·.value)

/-- The cells as the members of an object. -/
def cells : List (String × Json) :=
  Json.stored [] (row.key.map fun c => (c.column, c.value))

theorem listed_cells : Json.Listed row.cells :=
  Json.Listed.stored (by exact List.Pairwise.nil) _

theorem lookup_map_cells (key : List KeyCell) (column : String) :
    (key.map fun c => (c.column, c.value)).lookup column =
      (key.find? (·.column = column)).map (·.value) := by
  induction key with
  | nil => rfl
  | cons c key ih =>
    rw [List.map_cons, Json.lookup_cons_eq, ih, List.find?_cons]
    by_cases h : column = c.column
    · simp [h]
    · have h' : ¬c.column = column := fun heq => h heq.symm
      simp [h, h']

theorem lookup_cells : row.cells.lookup column = row.lastValue? column := by
  rw [cells, Json.lookup_stored, List.lookup_nil, Option.or_none, ← List.map_reverse,
    lookup_map_cells, lastValue?]

theorem isSome_value?_iff :
    (row.value? column).isSome = true ↔ column ∈ row.key.map (·.column) := by
  simp [value?]

theorem isSome_lastValue?_iff :
    (row.lastValue? column).isSome = true ↔ column ∈ row.key.map (·.column) := by
  simp [lastValue?]

/-- A row whose columns have different names has one value in each. -/
theorem lastValue?_eq_value? (h : (row.key.map (·.column)).Nodup) :
    row.lastValue? column = row.value? column := by
  have hsome : (row.lastValue? column).isSome = (row.value? column).isSome := by
    rw [Bool.eq_iff_iff, isSome_lastValue?_iff, isSome_value?_iff]
  cases hfirst : row.value? column with
  | none =>
    rw [hfirst] at hsome
    exact Option.isNone_iff_eq_none.mp (by simpa using hsome)
  | some v =>
    rw [hfirst] at hsome
    obtain ⟨w, hlast⟩ := Option.isSome_iff_exists.mp hsome
    obtain ⟨c, hc, rfl⟩ := Option.map_eq_some_iff.mp hfirst
    obtain ⟨d, hd, rfl⟩ := Option.map_eq_some_iff.mp hlast
    -- the first and the last cell of the column are the same cell
    have hcolumn : d.column = c.column := by
      have hc' : c.column = column := by simpa using List.find?_some hc
      have hd' : d.column = column := by simpa using List.find?_some hd
      rw [hc', hd']
    have hsame : d = c := List.inj_on_of_nodup_map h
      (List.mem_reverse.mp (List.mem_of_find?_eq_some hd)) (List.mem_of_find?_eq_some hc) hcolumn
    rw [hlast, hsame]

theorem exists_of_mem_cells {m : String × Json} (h : m ∈ row.cells) :
    ∃ c ∈ row.key, c.column = m.1 ∧ c.value = m.2 := by
  have hlookup := row.listed_cells.lookup_of_mem h
  rw [lookup_cells, lastValue?] at hlookup
  obtain ⟨c, hc, hvalue⟩ := Option.map_eq_some_iff.mp hlookup
  exact ⟨c, List.mem_reverse.mp (List.mem_of_find?_eq_some hc), by simpa using List.find?_some hc,
    hvalue⟩

end RowId

/-! ## The document -/

/-- What the value of a redirected record says: the row, its cells and the reason. -/
def redirectedDocument (row : RowId) (reason : String) (data : List (String × Json)) : Json :=
  .obj [("data", .obj data), ("database", .str row.database), ("fallback_reason", .str reason),
    ("table", Json.ofOption .str row.table)]

/-- How deep the value of a cell may be nested: it stands in two objects. -/
def cellDepth : ℕ :=
  Json.depthLimit - 2

theorem listed_redirectedDocument (v w x y : Json) :
    Json.Listed [("data", v), ("database", w), ("fallback_reason", x), ("table", y)] := by
  simp only [Json.Listed, List.pairwise_cons, List.forall_mem_cons, List.Pairwise.nil,
    List.not_mem_nil, false_implies, implies_true, and_true]
  decide

theorem redirectedValue_eq (row : RowId) (reason : String) :
    redirectedValue row reason = (redirectedDocument row reason row.cells).compact :=
  rfl

/-- The document is read with its cells as they are read, and not at all when one of them is
not. -/
theorem toOption_parse_redirectedValue (row : RowId) (reason : String) :
    (Json.parse (redirectedValue row reason).toList).toOption =
      (Json.membersAsRead (Json.asRead cellDepth) row.cells).map
        (redirectedDocument row reason) := by
  have htable : Json.asRead 126 (Json.ofOption .str row.table) =
      some (Json.ofOption .str row.table) := by
    cases row.table <;> rfl
  have hdata : Json.asRead 126 (.obj row.cells) =
      (Json.membersAsRead (Json.asRead cellDepth) row.cells).map Json.obj := by
    show (Json.membersAsRead (Json.asRead cellDepth) row.cells).map Json.object = _
    refine Option.map_congr fun data h => ?_
    exact Json.object_of_listed (row.listed_cells.membersAsRead h)
  rw [redirectedValue_eq, Json.toOption_parse_compact]
  show (Json.membersAsRead (Json.asRead 126) [("data", .obj row.cells),
    ("database", .str row.database), ("fallback_reason", .str reason),
    ("table", Json.ofOption .str row.table)]).map Json.object = _
  simp only [Json.membersAsRead_cons, hdata, htable]
  cases Json.membersAsRead (Json.asRead cellDepth) row.cells with
  | none => rfl
  | some data =>
    exact congrArg some (Json.object_of_listed (listed_redirectedDocument _ _ _ _))

/-- The value is read as a document of the row and the reason whose cells are those of the row: one
for each column, with the value that the row has in it. -/
def TellsRow (row : RowId) (reason : String) : Prop :=
  ∃ data, Json.parse (redirectedValue row reason).toList =
    .ok (redirectedDocument row reason data) ∧
    Json.Listed data ∧ (∀ column, column ∈ data.map Prod.fst ↔ column ∈ row.key.map (·.column)) ∧
    ∀ column, data.lookup column = row.value? column

theorem tellsRow_iff (row : RowId) (reason : String) :
    TellsRow row reason ↔
      ∀ column, (row.lastValue? column).bind (Json.asRead cellDepth) = row.value? column := by
  have hparse := toOption_parse_redirectedValue row reason
  constructor
  · rintro ⟨data, hread, -, -, hvalues⟩ column
    rw [hread] at hparse
    obtain ⟨data', hdata', hsame⟩ := Option.map_eq_some_iff.mp hparse.symm
    obtain rfl : data' = data := by simpa [redirectedDocument] using hsame
    rw [← hvalues column, Json.lookup_membersAsRead hdata', RowId.lookup_cells]
  · intro h
    have hall : ∀ m ∈ row.cells, (Json.asRead cellDepth m.2).isSome = true := by
      intro m hm
      have hlookup := row.listed_cells.lookup_of_mem hm
      obtain ⟨c, hc, hcolumn, -⟩ := row.exists_of_mem_cells hm
      have hsome : (row.value? m.1).isSome = true := by
        rw [RowId.isSome_value?_iff, ← hcolumn]
        exact List.mem_map_of_mem hc
      rw [← h, ← RowId.lookup_cells, hlookup] at hsome
      exact hsome
    obtain ⟨data, hdata⟩ := Json.exists_membersAsRead hall
    rw [hdata] at hparse
    refine ⟨data, Json.toOption_eq_some.mp hparse, row.listed_cells.membersAsRead hdata,
      fun column => ?_, fun column => ?_⟩
    · rw [Json.map_fst_membersAsRead hdata, Json.mem_map_fst_iff, RowId.lookup_cells,
        RowId.isSome_lastValue?_iff]
    · rw [Json.lookup_membersAsRead hdata, RowId.lookup_cells, h]

/-- The value of a redirected record is read as the document of the row and the reason, with the
cells as they are read. It tells the row as the row itself answers if and only if the last cell of
every column is read as the value of the first one; where the values fit a text and none is a
floating-point number, if and only if the first and the last cell of every column agree. -/
theorem redirectedValue_tells_row_iff (row : RowId) (reason : String) :
    (Json.parse (redirectedValue row reason).toList).toOption =
        (Json.membersAsRead (Json.asRead cellDepth) row.cells).map
          (redirectedDocument row reason) ∧
    (TellsRow row reason ↔
      ∀ column, (row.lastValue? column).bind (Json.asRead cellDepth) = row.value? column) ∧
    ((∀ c ∈ row.key, c.value.Fits cellDepth ∧ c.value.isFloatFree = true) →
      (TellsRow row reason ↔ ∀ column, row.lastValue? column = row.value? column)) := by
  refine ⟨toOption_parse_redirectedValue row reason, tellsRow_iff row reason, fun hfits => ?_⟩
  rw [tellsRow_iff]
  have hread (column : String) :
      (row.lastValue? column).bind (Json.asRead cellDepth) = row.lastValue? column := by
    cases hlast : row.lastValue? column with
    | none => rfl
    | some v =>
      obtain ⟨c, hc, rfl⟩ := Option.map_eq_some_iff.mp hlast
      obtain ⟨hv, hfloat⟩ := hfits c (List.mem_reverse.mp (List.mem_of_find?_eq_some hc))
      exact Json.asRead_of_fits hv hfloat
  exact forall_congr' fun column => by rw [hread]

/-- A row with two columns is told as it is. -/
theorem tellsRow_of_order : TellsRow
    ⟨"shop", some "orders", [⟨"id", .ofNat 5⟩, ⟨"region", .str "eu"⟩]⟩ "RecordTooLarge" := by
  have hcells : ∀ c ∈ [(⟨"id", .ofNat 5⟩ : KeyCell), ⟨"region", .str "eu"⟩],
      c.value.Fits cellDepth ∧ c.value.isFloatFree = true := by
    simp only [List.forall_mem_cons]
    refine ⟨⟨.int (Json.keepable_iff.mpr (by decide)), rfl⟩, ⟨.str "eu", rfl⟩, by simp⟩
  have hcolumns : ([(⟨"id", .ofNat 5⟩ : KeyCell), ⟨"region", .str "eu"⟩].map (·.column)).Nodup := by
    decide
  obtain ⟨-, -, htells⟩ := redirectedValue_tells_row_iff
    ⟨"shop", some "orders", [⟨"id", .ofNat 5⟩, ⟨"region", .str "eu"⟩]⟩ "RecordTooLarge"
  exact (htells hcells).mpr fun column => RowId.lastValue?_eq_value? _ column hcolumns

/-- A column that is listed twice is told with its second value, while the row answers with the
first. -/
theorem not_tellsRow_of_repeated : ¬TellsRow
    ⟨"shop", some "users", [⟨"id", .ofNat 1⟩, ⟨"id", .ofNat 2⟩]⟩ "RecordTooLarge" := by
  intro h
  have hid := (tellsRow_iff _ _).mp h "id"
  have hread : Json.asRead cellDepth (.ofNat 2) = some (.ofNat 2) :=
    Json.asRead_of_fits (.int (Json.keepable_iff.mpr (by decide))) rfl
  have hlast : RowId.lastValue? ⟨"shop", some "users", [⟨"id", .ofNat 1⟩, ⟨"id", .ofNat 2⟩]⟩ "id" =
      some (.ofNat 2) := rfl
  rw [hlast, Option.bind_some, hread] at hid
  simp [RowId.value?, Json.ofNat] at hid

end ChangeRelay
