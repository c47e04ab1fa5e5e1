import ChangeRelay.Proofs.Record.SamePartition
import Mathlib.Data.List.Nodup
/-!
# Placement by all values of the key

A row that is placed by its primary key has the texts of all key values, in key order, as its
placement key. The values are not taken from the cells, though: each column is looked up again by
its name, and a row answers with the first cell of a name. So the cells of a column that is listed
twice count with the first value each time.
-/

namespace ChangeRelay

/-! ## Keys of values -/

/-- Whether a value is null. -/
def Json.isNull : Json → Bool
  | .null => true
  | _ => false

/-- A value in a placement key: a string as it is, and any other value as its text. -/
def Json.keyText : Json → String
  | .str s => s
  | v => v.compact

theorem Json.any_isNull_iff (values : List Json) :
    values.any Json.isNull = true ↔ .null ∈ values := by
  rw [List.any_eq_true]
  constructor
  · rintro ⟨v, hv, hnull⟩
    cases v with
    | null => exact hv
    | bool | num | str | arr | obj => simp [Json.isNull] at hnull
  · exact fun hv => ⟨.null, hv, rfl⟩

theorem Json.keyPart?_of_ne {v : Json} (h : v ≠ .null) : v.keyPart? = some v.keyText := by
  cases v with
  | null => exact absurd rfl h
  | bool | num | str | arr | obj => rfl

namespace PlacementKey

/-- The key of values in order: their texts between colons. There is none without values or with a
null among them, and an empty text is none. -/
def ofValues? (values : List Json) : Option String :=
  let text := joinParts (values.map Json.keyText)
  if values.isEmpty || values.any Json.isNull || text.isEmpty then none else some text

/-- The key of values that are gathered in one pass, which ends at a value without a part. -/
def gathered? (values : List Json) : Option String :=
  ((values.mapM Json.keyPart?).map joinParts).filter fun text => !text.isEmpty

variable {values others : List Json}

theorem ofValues?_eq_none (h : .null ∈ values) : ofValues? values = none := by
  simp [ofValues?, (Json.any_isNull_iff values).mpr h]

/-- Without a null, only an empty text is no key. -/
theorem ofValues?_of_notMem (h : .null ∉ values) : ofValues? values =
    (some (joinParts (values.map Json.keyText))).filter fun text => !text.isEmpty := by
  have hany : values.any Json.isNull = false := by
    rw [← Bool.not_eq_true, Json.any_isNull_iff]
    exact h
  cases values with
  | nil => rfl
  | cons v values =>
    rw [ofValues?, hany, Option.filter_some]
    simp only [List.isEmpty_cons, Bool.or_self, Bool.false_or]
    by_cases htext : (joinParts ((v :: values).map Json.keyText)).isEmpty = true
    · rw [if_pos htext, if_neg (by simpa using htext)]
    · rw [if_neg htext, if_pos (by simpa using htext)]

theorem mapM_keyPart?_of_mem (h : .null ∈ values) : values.mapM Json.keyPart? = none := by
  induction values with
  | nil => simp at h
  | cons v values ih =>
    rw [List.mapM_cons]
    by_cases hv : v = .null
    · rw [hv]
      rfl
    · rw [Json.keyPart?_of_ne hv, ih ((List.mem_cons.mp h).resolve_left (Ne.symm hv))]
      rfl

theorem mapM_keyPart?_of_notMem (h : .null ∉ values) :
    values.mapM Json.keyPart? = some (values.map Json.keyText) := by
  induction values with
  | nil => rfl
  | cons v values ih =>
    obtain ⟨hv, hvalues⟩ := not_or.mp (mt List.mem_cons.mpr h)
    rw [List.mapM_cons, Json.keyPart?_of_ne (Ne.symm hv), ih hvalues]
    rfl

/-- One pass over the values gives their key. -/
theorem gathered?_eq (values : List Json) : gathered? values = ofValues? values := by
  by_cases hnull : .null ∈ values
  · rw [gathered?, mapM_keyPart?_of_mem hnull, ofValues?_eq_none hnull]
    rfl
  · rw [gathered?, mapM_keyPart?_of_notMem hnull, ofValues?_of_notMem hnull]
    rfl

/-- Two or more parts have a colon between them. -/
theorem joinParts_ne_empty (a b : String) (parts : List String) :
    joinParts (a :: b :: parts) ≠ "" := by
  intro h
  have hlength := congrArg String.length h
  rw [joinParts, String.intercalate_cons_cons] at hlength
  simp only [String.length_append] at hlength
  have hcolon : ":".length = 1 := rfl
  have hempty : "".length = 0 := rfl
  omega

theorem filter_nonempty_inj {s t : String}
    (h : (some s).filter (fun text => !text.isEmpty) = (some t).filter fun text => !text.isEmpty) :
    s = t := by
  rw [Option.filter_some, Option.filter_some] at h
  by_cases hs : s = ""
  · by_cases ht : t = ""
    · rw [hs, ht]
    · simp [hs, ht] at h
  · by_cases ht : t = ""
    · simp [hs, ht] at h
    · simpa [hs, ht] using h

/-- Two lists of values of one length, the second of which has a null if the first has one, and
which are the same when they have one value only. They have the same key just when the first has a
null or neither has one and the texts are the same. -/
theorem ofValues?_eq_iff (hlength : values.length = others.length)
    (hnull : .null ∈ values → .null ∈ others) (hsingle : values.length = 1 → values = others) :
    ofValues? values = ofValues? others ↔ .null ∈ values ∨ .null ∉ others ∧
      joinParts (values.map Json.keyText) = joinParts (others.map Json.keyText) := by
  by_cases hvalues : .null ∈ values
  · simp [hvalues, ofValues?_eq_none hvalues, ofValues?_eq_none (hnull hvalues)]
  by_cases hothers : .null ∈ others
  · -- a list with a null beside one without has two values or more, so there is a text
    have htext : joinParts (values.map Json.keyText) ≠ "" := by
      match values, hlength, hsingle, hvalues with
      | [], hlength, _, _ =>
        rw [List.eq_nil_of_length_eq_zero hlength.symm] at hothers
        simp at hothers
      | [v], _, hsingle, hvalues => exact absurd (hsingle rfl ▸ hothers) hvalues
      | v :: w :: values, _, _, _ => exact joinParts_ne_empty _ _ _
    rw [ofValues?_eq_none hothers, ofValues?_of_notMem hvalues]
    simp [hvalues, hothers, Option.filter_some, htext]
  · rw [ofValues?_of_notMem hvalues, ofValues?_of_notMem hothers]
    simp only [hvalues, hothers, false_or, not_false_eq_true, true_and]
    exact ⟨filter_nonempty_inj, fun h => by rw [h]⟩

end PlacementKey

/-! ## Rows -/

namespace RowId

/-- The values of the key cells, in key order. -/
def values (row : RowId) : List Json :=
  row.key.map (·.value)

/-- What the row answers for the columns of the key cells, in key order. -/
def answers (row : RowId) : List Json :=
  row.key.map fun cell => (row.value? cell.column).getD .null

variable (row : RowId)

/-- A row answers for a column of its key with the value of a cell of it. -/
theorem exists_cell_of_answer {cell : KeyCell} (h : cell ∈ row.key) :
    ∃ found ∈ row.key, found.column = cell.column ∧ row.value? cell.column = some found.value := by
  have hfound : (row.key.find? (·.column = cell.column)).isSome = true := by
    rw [List.find?_isSome]
    exact ⟨cell, h, by simp⟩
  obtain ⟨found, hfind⟩ := Option.isSome_iff_exists.mp hfound
  refine ⟨found, List.mem_of_find?_eq_some hfind, by simpa using List.find?_some hfind, ?_⟩
  rw [value?, hfind, Option.map_some]

theorem mem_values_of_mem_answers {v : Json} (h : v ∈ row.answers) : v ∈ row.values := by
  obtain ⟨cell, hcell, rfl⟩ := List.mem_map.mp h
  obtain ⟨found, hmem, -, hvalue⟩ := row.exists_cell_of_answer hcell
  rw [hvalue]
  exact List.mem_map_of_mem hmem

/-- Where every column is answered with the value of its cell, all values count. -/
theorem answers_eq_values (h : ∀ cell ∈ row.key, row.value? cell.column = some cell.value) :
    row.answers = row.values := by
  refine List.map_congr_left fun cell hcell => ?_
  rw [h cell hcell]
  rfl

theorem value?_of_nodup (hnodup : (row.key.map (·.column)).Nodup) {cell : KeyCell}
    (h : cell ∈ row.key) : row.value? cell.column = some cell.value := by
  obtain ⟨found, hmem, hcolumn, hvalue⟩ := row.exists_cell_of_answer h
  rw [hvalue, List.inj_on_of_nodup_map hnodup hmem h hcolumn]

/-- The parts that the columns of some cells give are those of the row's answers. -/
theorem toOption_keyParts_columns (cells : List KeyCell) :
    (row.keyParts (cells.map (·.column))).toOption =
      (cells.map fun cell => (row.value? cell.column).getD .null).mapM Json.keyPart? := by
  induction cells with
  | nil => rfl
  | cons cell cells ih =>
    have hpart : (row.value? cell.column).bind Json.keyPart? =
        ((row.value? cell.column).getD .null).keyPart? := by
      cases row.value? cell.column with
      | none => rfl
      | some v => rfl
    rw [List.map_cons, keyParts_cons, hpart, List.map_cons, List.mapM_cons, ← ih]
    cases ((row.value? cell.column).getD .null).keyPart? with
    | none => rfl
    | some part => cases row.keyParts (cells.map (·.column)) <;> rfl

end RowId

namespace PlacementKey

/-- A row that is placed by its primary key is placed by its answers for the columns. -/
theorem text?_primaryKey (row : RowId) : text? .primaryKey row = ofValues? row.answers := by
  rw [← gathered?_eq, gathered?, text?, rawText?, row.toOption_keyParts_columns]
  rfl

/-- One pass over the values of a primary key gives their key. A row is placed by this key if and
only if it answers for a column with null, or no value is null and the texts of its answers, joined,
are those of its values. With a name of its own for every column it always is. -/
theorem text?_primaryKey_eq_iff (row : RowId) :
    gathered? row.values = ofValues? row.values ∧
    (text? .primaryKey row = ofValues? row.values ↔ .null ∈ row.answers ∨ .null ∉ row.values ∧
      joinParts (row.answers.map Json.keyText) = joinParts (row.values.map Json.keyText)) ∧
    ((row.key.map (·.column)).Nodup → text? .primaryKey row = ofValues? row.values) := by
  refine ⟨gathered?_eq _, ?_, fun hnodup => ?_⟩
  · rw [text?_primaryKey]
    refine ofValues?_eq_iff ?_ row.mem_values_of_mem_answers fun hlength => ?_
    · rw [RowId.answers, RowId.values, List.length_map, List.length_map]
    · -- the only cell is the first of its column
      rw [RowId.answers, List.length_map] at hlength
      obtain ⟨cell, hcell⟩ := List.length_eq_one_iff.mp hlength
      refine row.answers_eq_values fun cell' hcell' => row.value?_of_nodup ?_ hcell'
      rw [hcell]
      exact List.nodup_singleton _
  · rw [text?_primaryKey, row.answers_eq_values fun cell => row.value?_of_nodup hnodup]

/-- An order is placed by both values of its key. -/
theorem text?_primaryKey_of_order :
    ([(⟨"org_id", .ofNat 456⟩ : KeyCell), ⟨"order_id", .str "A-789"⟩].map (·.column)).Nodup ∧
      text? .primaryKey
        ⟨"shop", some "orders", [⟨"org_id", .ofNat 456⟩, ⟨"order_id", .str "A-789"⟩]⟩ =
          some "456:A-789" := by
  have hnodup :
      ([(⟨"org_id", .ofNat 456⟩ : KeyCell), ⟨"order_id", .str "A-789"⟩].map (·.column)).Nodup := by
    decide
  obtain ⟨-, -, htext⟩ := text?_primaryKey_eq_iff
    ⟨"shop", some "orders", [⟨"org_id", .ofNat 456⟩, ⟨"order_id", .str "A-789"⟩]⟩
  exact ⟨hnodup, (htext hnodup).trans (by decide)⟩

/-- A column that is listed twice counts with its first value both times. -/
theorem first_value_counts_twice :
    text? .primaryKey ⟨"shop", some "users", [⟨"id", .ofNat 1⟩, ⟨"id", .ofNat 2⟩]⟩ = some "1:1" ∧
      ofValues? [.ofNat 1, .ofNat 2] = some "1:2" := by
  decide

end PlacementKey

end ChangeRelay
