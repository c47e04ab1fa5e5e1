import ChangeRelay.Proofs.Json.Compact
import ChangeRelay.Proofs.Text.Utf8
import ChangeRelay.Record.KeyEncoding
/-!
# What a key tells of its row

The array of a row determines its names and, cell by cell, the columns and the texts of the values.
The bytes of a digest leave the columns out, and they determine the rest as long as no name holds
the zero character that stands between the parts.
-/

namespace ChangeRelay

/-! ## Hexadecimal text -/

namespace Hex

theorem decode?_flatMap (bytes : List UInt8) : decode? (bytes.flatMap ofByte) = some bytes := by
  induction bytes with
  | nil => rfl
  | cons b bytes ih =>
    have hb : b.toNat < 256 := b.toNat_lt
    have hhigh : digit? (digit (b.toNat / 16)) = some (b.toNat / 16) :=
      Json.digit?_digit _ (by omega)
    have hlow : digit? (digit (b.toNat % 16)) = some (b.toNat % 16) :=
      Json.digit?_digit _ (by omega)
    have hsame : (16 * (b.toNat / 16) + b.toNat % 16).toUInt8 = b := by
      rw [Nat.div_add_mod]
      exact UInt8.ofNat_toNat
    rw [List.flatMap_cons, ofByte, List.cons_append, List.singleton_append, decode?, hhigh, hlow,
      ih]
    show some ((16 * (b.toNat / 16) + b.toNat % 16).toUInt8 :: bytes) = some (b :: bytes)
    rw [hsame]

theorem encode_injective : Function.Injective encode := by
  intro a b h
  have hdigits : a.flatMap ofByte = b.flatMap ofByte := String.ofList_injective h
  have hbytes := congrArg decode? hdigits
  rw [decode?_flatMap, decode?_flatMap] at hbytes
  exact Option.some.inj hbytes

end Hex

namespace KeyEncoding

variable {row row' : RowId}

/-! ## The array -/

/-- A table and the lack of one have different texts. -/
theorem table_of_compact {a b : Option String}
    (h : (Json.ofOption .str a).compact = (Json.ofOption .str b).compact) : a = b := by
  have hnull (s : String) : (Json.str s).compact ≠ Json.null.compact := by
    intro hsame
    have hhead := Json.head?_compact_str s
    rw [hsame] at hhead
    obtain ⟨t, ht⟩ := Json.eq_str_of_head hhead
    simp at ht
  cases a with
  | none =>
    cases b with
    | none => rfl
    | some t => exact absurd h.symm (hnull t)
  | some s =>
    cases b with
    | none => exact absurd h (hnull s)
    | some t => rw [Json.compact_str_inj h]

/-- The cells of a row, each as its column and the text of its value. -/
def cellTexts (row : RowId) : List (String × String) :=
  row.key.map fun c => (c.column, c.value.compact)

theorem map_compact_cells_eq_iff {cells cells' : List KeyCell} :
    cells.map (fun c => (Json.obj [(c.column, c.value)]).compact) =
        cells'.map (fun c => (Json.obj [(c.column, c.value)]).compact) ↔
      cells.map (fun c => (c.column, c.value.compact)) =
        cells'.map (fun c => (c.column, c.value.compact)) := by
  induction cells generalizing cells' with
  | nil =>
    cases cells' with
    | nil => exact iff_of_true rfl rfl
    | cons c' cells' => simp
  | cons c cells ih =>
    cases cells' with
    | nil => simp
    | cons c' cells' =>
      -- two objects with one member each have equal texts only if name and value have
      rw [List.map_cons, List.map_cons, List.map_cons, List.map_cons, List.cons.injEq,
        List.cons.injEq, Json.compact_obj_singleton_eq_iff, ih, Prod.mk.injEq]

/-- The array determines the row up to the spelling of the values, and nothing but that. -/
theorem compact_document_eq_iff : (document row).compact = (document row').compact ↔
    row.database = row'.database ∧ row.table = row'.table ∧ cellTexts row = cellTexts row' := by
  have hdatabase : (Json.str row.database).compact = (Json.str row'.database).compact ↔
      row.database = row'.database := ⟨Json.compact_str_inj, fun h => by rw [h]⟩
  have htable : (Json.ofOption .str row.table).compact = (Json.ofOption .str row'.table).compact ↔
      row.table = row'.table := ⟨table_of_compact, fun h => by rw [h]⟩
  rw [document, document, Json.compact_arr_eq_iff]
  simp only [List.map_cons, List.map_nil, List.cons.injEq, and_true]
  rw [hdatabase, htable, Json.compact_arr_eq_iff, List.map_map, List.map_map]
  exact and_congr_right fun _ => and_congr_right fun _ => map_compact_cells_eq_iff

theorem row_of_document (h : (document row).compact = (document row').compact) :
    row.database = row'.database ∧ row.table = row'.table ∧
      row.key.map (fun c => (c.column, c.value.compact)) =
        row'.key.map (fun c => (c.column, c.value.compact)) :=
  compact_document_eq_iff.mp h

/-! ## The digest -/

theorem zero_notMem_bytes {s : String} (h : '\x00' ∉ s.toList) : 0 ∉ s.toUTF8.toList := by
  rw [Utf8.toList_toUTF8]
  exact fun hzero => h (Utf8.zero_mem_encode hzero)

theorem zero_notMem_compact (v : Json) : 0 ∉ v.compact.toUTF8.toList := by
  refine zero_notMem_bytes fun hzero => ?_
  have hcontrol := Json.le_toNat_compact v '\x00' hzero
  simp at hcontrol

theorem bytes_injective {s t : String} (h : s.toUTF8.toList = t.toUTF8.toList) : s = t := by
  rw [Utf8.toList_toUTF8, Utf8.toList_toUTF8] at h
  exact String.toList_inj.mp (Utf8.encode_injective h)

/-- A part ends where it does, whatever follows, if it is known how many zero bytes it holds. -/
theorem split_at_zero {a b rest rest' : List UInt8} (hcount : a.count 0 = b.count 0)
    (h : a ++ 0 :: rest = b ++ 0 :: rest') : a = b ∧ rest = rest' := by
  induction a generalizing b with
  | nil =>
    cases b with
    | nil => exact ⟨rfl, (List.cons.inj h).2⟩
    | cons y b =>
      rw [← (List.cons.inj h).1, List.count_nil, List.count_cons_self] at hcount
      exact absurd hcount (Nat.succ_ne_zero _).symm
  | cons x a ih =>
    cases b with
    | nil =>
      rw [(List.cons.inj h).1, List.count_nil, List.count_cons_self] at hcount
      exact absurd hcount (Nat.succ_ne_zero _)
    | cons y b =>
      obtain ⟨rfl, hrest⟩ := List.cons.inj h
      rw [List.count_cons, List.count_cons, Nat.add_right_cancel_iff] at hcount
      obtain ⟨rfl, hsame⟩ := ih hcount hrest
      exact ⟨rfl, hsame⟩

/-- Parts with a zero byte after each of them. -/
def terminated (parts : List (List UInt8)) : List UInt8 :=
  parts.flatMap fun part => part ++ [0]

theorem terminated_cons (part : List UInt8) (parts : List (List UInt8)) :
    terminated (part :: parts) = part ++ 0 :: terminated parts := by
  rw [terminated, List.flatMap_cons, List.append_assoc]
  rfl

theorem terminated_injective {parts parts' : List (List UInt8)} (h : ∀ part ∈ parts, 0 ∉ part)
    (h' : ∀ part ∈ parts', 0 ∉ part) (hsame : terminated parts = terminated parts') :
    parts = parts' := by
  induction parts generalizing parts' with
  | nil =>
    cases parts' with
    | nil => rfl
    | cons part' parts' => simp [terminated] at hsame
  | cons part parts ih =>
    cases parts' with
    | nil => simp [terminated] at hsame
    | cons part' parts' =>
      obtain ⟨hpart, hparts⟩ := List.forall_mem_cons.mp h
      obtain ⟨hpart', hparts'⟩ := List.forall_mem_cons.mp h'
      rw [terminated_cons, terminated_cons] at hsame
      have hcount : part.count 0 = part'.count 0 := by
        rw [List.count_eq_zero.mpr hpart, List.count_eq_zero.mpr hpart']
      obtain ⟨rfl, hrest⟩ := split_at_zero hcount hsame
      rw [ih hparts hparts' hrest]

/-- The parts of a digest's bytes that are values. -/
def valueParts (row : RowId) : List (List UInt8) :=
  row.key.map fun c => c.value.compact.toUTF8.toList

theorem zero_notMem_valueParts (row : RowId) : ∀ part ∈ valueParts row, 0 ∉ part := by
  intro part hpart
  obtain ⟨c, -, rfl⟩ := List.mem_map.mp hpart
  exact zero_notMem_compact c.value

/-- A zero byte between any two parts and one at the end is a zero byte after each of them. -/
theorem digestInput_append (row : RowId) :
    digestInput row ++ [0] =
      row.database.toUTF8.toList ++ 0 :: (row.tableName.toUTF8.toList ++ 0 ::
        terminated (valueParts row)) := by
  have hvalues (parts : List (List UInt8)) :
      (parts.flatMap fun part => 0 :: part) ++ [0] = 0 :: terminated parts := by
    induction parts with
    | nil => rfl
    | cons part parts ih =>
      rw [List.flatMap_cons, List.append_assoc, ih, terminated_cons]
      rfl
  have hkey := hvalues (valueParts row)
  rw [valueParts, List.flatMap_map] at hkey
  rw [digestInput, List.append_assoc, hkey, valueParts, List.append_assoc, List.cons_append]

/-- How many zero bytes the names of a row hold. -/
def zeros (row : RowId) : ℕ × ℕ :=
  (row.database.toUTF8.toList.count 0, row.tableName.toUTF8.toList.count 0)

/-- Two rows with the same names and, one after the other, the same texts of the values. -/
def SameSpelling (row row' : RowId) : Prop :=
  row.database = row'.database ∧ row.tableName = row'.tableName ∧
    row.key.map (·.value.compact) = row'.key.map (·.value.compact)

/-- As long as it is known how many zero bytes the names hold, the bytes of a digest determine them
and the spelling of the values. -/
theorem sameSpelling_of_digestInput (hzeros : zeros row = zeros row')
    (h : digestInput row = digestInput row') : SameSpelling row row' := by
  obtain ⟨hcount, hcount'⟩ := Prod.mk.inj hzeros
  have hparts := congrArg (· ++ [0]) h
  simp only [digestInput_append] at hparts
  obtain ⟨hdatabase, hrest⟩ := split_at_zero hcount hparts
  obtain ⟨htable, hrest⟩ := split_at_zero hcount' hrest
  have hvalues :=
    terminated_injective (zero_notMem_valueParts row) (zero_notMem_valueParts row') hrest
  refine ⟨bytes_injective hdatabase, bytes_injective htable, ?_⟩
  have hinjective : Function.Injective fun s : String => s.toUTF8.toList :=
    fun s t => bytes_injective
  refine List.map_injective_iff.mpr hinjective ?_
  rw [List.map_map, List.map_map]
  exact hvalues

end KeyEncoding

end ChangeRelay
