import ChangeRelay.Change.Basic
import ChangeRelay.Proofs.Shape.Given
import ChangeRelay.Proofs.Text.Utf8
/-!
# Changes read back

The text of a change is one line, and it is read as the change that it was written of, whatever the
text looked like from which the change came.
-/

namespace ChangeRelay

variable {depth : ℕ}

/-! ## The parts of a change -/

theorem readsBack_position (depth : ℕ) (p : Position) : Position.shape.ReadsBack (depth + 1) p := by
  have hnames : ["file", "offset"].Nodup := by decide
  exact readsBack_record hnames ⟨readsBack_text p.file, readsBack_word "u64" p.offset, trivial⟩ rfl

theorem readsBack_cell {cell : KeyCell} (hvalue : Shape.json.ReadsBack depth cell.value) :
    KeyCell.shape.ReadsBack (depth + 1) cell := by
  have hnames : ["name", "value"].Nodup := by decide
  exact readsBack_record hnames ⟨readsBack_text cell.column, hvalue, trivial⟩ rfl

/-- A name that may be missing is read back. -/
theorem readsBack_name (name : Option String) :
    (Shape.optional (.leaf .text)).ReadsBack depth name := by
  cases name with
  | none => exact readsBack_none
  | some name =>
    refine readsBack_some (readsBack_text name) fun l k => ?_
    rw [Shape.write, Leaf.write, Json.chars, Json.quoted]
    simp

theorem readsBack_row {row : RowId}
    (hvalues : ∀ cell ∈ row.key, Shape.json.ReadsBack depth cell.value) :
    RowId.shape.ReadsBack (depth + 3) row := by
  have hnames : ["database", "table", "primary_key"].Nodup := by decide
  have hkey : (Shape.list KeyCell.shape).ReadsBack (depth + 2) row.key :=
    readsBack_list fun cell hcell => readsBack_cell (hvalues cell hcell)
  exact readsBack_record hnames
    ⟨readsBack_text row.database, readsBack_name row.table, hkey, trivial⟩ rfl

theorem readsBack_change {c : Change}
    (hvalues : ∀ cell ∈ c.row.key, Shape.json.ReadsBack depth cell.value) :
    Change.shape.ReadsBack (depth + 4) c := by
  have hnames : ["position", "identity", "payload", "schema_change", "topic"].Nodup := by decide
  exact readsBack_record hnames
    ⟨readsBack_position (depth + 2) c.position, readsBack_row hvalues, readsBack_text c.payload,
      readsBack_flag c.isSchemaChange, readsBack_name c.topic, trivial⟩ rfl

/-! ## Changes that came from a text -/

/-- The values of a row that a text gives fit what the row leaves of the depth. -/
theorem fits_of_gives_row {row : RowId} (h : RowId.shape.Gives (depth + 3) row) :
    ∀ cell ∈ row.key, cell.value.Fits depth := by
  obtain ⟨d, ⟨database, table, key, _⟩, hd, rfl, _, _, hkey, _⟩ := gives_of_record h
  obtain rfl : d = depth + 2 := by omega
  rcases hkey with hnone | hkey
  · obtain rfl := Option.some.inj hnone
    simp
  · obtain ⟨d, hd, hcells⟩ := gives_of_list hkey
    obtain rfl : d = depth + 1 := by omega
    intro cell hcell
    obtain ⟨d, ⟨column, value, _⟩, hd, rfl, _, hvalue, _⟩ := gives_of_record (hcells cell hcell)
    obtain rfl : d = depth := by omega
    exact fits_of_gives (hvalue.resolve_left (by simp))

theorem fits_of_gives_change {c : Change} (h : Change.shape.Gives (depth + 4) c) :
    ∀ cell ∈ c.row.key, cell.value.Fits depth := by
  obtain ⟨d, ⟨position, row, payload, isSchemaChange, topic, _⟩, hd, rfl, _, hrow, _⟩ :=
    gives_of_record h
  obtain rfl : d = depth + 3 := by omega
  exact fits_of_gives_row (hrow.resolve_left (by simp))

namespace Change

/-- The bytes of a change's text are no control characters. -/
theorem le_toNat_text (c : Change) : ∀ b ∈ c.text.toUTF8.toList, 32 ≤ b.toNat := by
  intro b hb
  by_contra hlow
  rw [Utf8.toList_toUTF8] at hb
  obtain ⟨ch, hmem, hcode⟩ := Utf8.exists_mem_of_mem_encode hb (by omega)
  have hprinted := Json.le_toNat_compact (shape.write c) ch hmem
  omega

/-- A change that was read from a text, with no floating-point number among its key values, is
written on one line, read back as itself, and written as the same line again. -/
theorem one_line_round_trip {text : String} {c : Change} (h : ofText text = .ok c)
    (hvalues : ∀ cell ∈ c.row.key, cell.value.isFloatFree = true) :
    (0x0A ∉ c.text.toUTF8.toList ∧ 0x0D ∉ c.text.toUTF8.toList) ∧
      ∃ c', ofText c.text = .ok c' ∧ c' = c ∧ c'.text = c.text := by
  have hgives : shape.Gives (123 + 4) c := ⟨text.toList, Shape.readText_of_ofText h⟩
  have hfits := fits_of_gives_change hgives
  have hreadsBack : shape.ReadsBack Json.depthLimit c :=
    readsBack_change fun cell hcell => readsBack_json (hfits cell hcell) (hvalues cell hcell)
  have hread : ofText c.text = .ok c := Shape.ofText_chars hreadsBack Json.spaced_compact
  have hline := c.le_toNat_text
  refine ⟨⟨fun hmem => ?_, fun hmem => ?_⟩, c, hread, rfl, rfl⟩
  · exact absurd (hline _ hmem) (by decide)
  · exact absurd (hline _ hmem) (by decide)

/-- A text with its fields in another order, an array for a record, an unknown field, a name given
twice and characters written by their codes. -/
def scattered : List Char :=
  "\x7b \"payload\" : \"a\\nb\\ud83d\\ude00\", \"extra\": [1.5, \x7b\x7d],\r\n".toList ++
    "\"identity\": \x7b\"primary_key\": [[\"id\", \x7b\"b\": 1,".toList ++
    " \"a\": [-1, null], \"b\": 18446744073709551615\x7d]],".toList ++
    " \"database\": \"shop\"\x7d, \"position\": [\"log.1\", 42]\x7d".toList

/-- The same change on one line. -/
def gathered : List Char :=
  "\x7b\"position\":\x7b\"file\":\"log.1\",\"offset\":42\x7d,".toList ++
    "\"identity\":\x7b\"database\":\"shop\",\"table\":null,".toList ++
    "\"primary_key\":[\x7b\"name\":\"id\",\"value\":\x7b\"a\":[-1,null],".toList ++
    "\"b\":18446744073709551615\x7d\x7d]\x7d,\"payload\":\"a\\nb😀\",".toList ++
    "\"schema_change\":false,\"topic\":null\x7d".toList

theorem round_trip_of_scattered : ∃ c, (ofText (String.ofList scattered) = .ok c ∧
    ∀ cell ∈ c.row.key, cell.value.isFloatFree = true) ∧ c.text = String.ofList gathered ∧
    (0x0A ∉ c.text.toUTF8.toList ∧ 0x0D ∉ c.text.toUTF8.toList) ∧
      ∃ c', ofText c.text = .ok c' ∧ c' = c ∧ c'.text = c.text := by
  have hrun : (Json.readText (shape.readText Json.depthLimit) scattered).toOption.map (fun c =>
      ((shape.write c).chars .compact 0, c.row.key.all fun cell => cell.value.isFloatFree)) =
        some (gathered, true) := by
    decide +kernel
  obtain ⟨c, hc, hfacts⟩ := Option.map_eq_some_iff.mp hrun
  obtain ⟨hchars, hall⟩ := Prod.mk.inj hfacts
  have hread : ofText (String.ofList scattered) = .ok c := by
    rw [ofText, Shape.ofText, String.toList_ofList]
    cases hof : Json.readText (shape.readText Json.depthLimit) scattered with
    | error e => simp [hof, Except.toOption] at hc
    | ok c' =>
      rw [hof] at hc
      rw [Option.some.inj hc]
  have hvalues := List.all_eq_true.mp hall
  exact ⟨c, ⟨hread, hvalues⟩, congrArg String.ofList hchars, one_line_round_trip hread hvalues⟩

end Change

end ChangeRelay
