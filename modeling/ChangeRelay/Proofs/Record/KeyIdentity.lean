import ChangeRelay.Proofs.Record.KeyText
import Mathlib.Data.List.Forall2
/-!
# Rows with the same key

Two rows have the same array as key exactly when they have the same names and the same cells, as far
as these can be told by their texts. The bytes of a digest say as much, but for the columns and the
difference between an empty table and none, as long as the names of both rows hold the zero byte
equally often. A name with a zero byte in it can pass for two parts, so rows of two tables can have
the same key.
-/

namespace ChangeRelay

/-- Whether two messages have the same digest without being the same. -/
def Sha256.Collide (message message' : List UInt8) : Prop :=
  message ≠ message' ∧ Sha256.digest message = Sha256.digest message'

namespace KeyEncoding

variable {row row' : RowId}

/-! ## The array -/

/-- Whether two cells have the same column and the same text of the value. -/
def SameCell (c c' : KeyCell) : Prop :=
  c.column = c'.column ∧ c.value.compact = c'.value.compact

theorem cellTexts_eq_iff :
    cellTexts row = cellTexts row' ↔ List.Forall₂ SameCell row.key row'.key := by
  have hcell (c c' : KeyCell) :
      (c.column, c.value.compact) = (c'.column, c'.value.compact) ↔ SameCell c c' := by
    rw [Prod.mk.injEq, SameCell]
  rw [cellTexts, cellTexts, ← List.forall₂_eq_eq_eq, List.forall₂_map_left_iff,
    List.forall₂_map_right_iff]
  simp only [hcell]

/-- Two rows have the same array as key exactly when they have the same database and the same table,
if any, and as many cells, which have one after the other the same column and the same text of the
value. -/
theorem array_key_eq_iff (row row' : RowId) :
    KeyEncoding.array.key row = KeyEncoding.array.key row' ↔
      row.database = row'.database ∧ row.table = row'.table ∧
        List.Forall₂ SameCell row.key row'.key := by
  rw [← cellTexts_eq_iff]
  exact compact_document_eq_iff

/-! ## The digest -/

/-- Two rows have the same digest as key exactly when its bytes are the same or collide. -/
theorem digest_key_eq_iff (row row' : RowId) :
    KeyEncoding.digest.key row = KeyEncoding.digest.key row' ↔
      digestInput row = digestInput row' ∨ Sha256.Collide (digestInput row) (digestInput row') := by
  have hdigest : KeyEncoding.digest.key row = KeyEncoding.digest.key row' ↔
      Sha256.digest (digestInput row) = Sha256.digest (digestInput row') :=
    ⟨fun h => Hex.encode_injective h, fun h => congrArg Hex.encode h⟩
  rw [hdigest]
  by_cases hinput : digestInput row = digestInput row'
  · exact iff_of_true (by rw [hinput]) (.inl hinput)
  · simp only [hinput, false_or, Sha256.Collide, ne_eq, not_false_iff, true_and]

theorem SameSpelling.digestInput_eq (h : SameSpelling row row') :
    digestInput row = digestInput row' := by
  obtain ⟨hdatabase, htable, hvalues⟩ := h
  have hparts : (row.key.map (·.value.compact)).flatMap (fun text => 0 :: text.toUTF8.toList) =
      (row'.key.map (·.value.compact)).flatMap (fun text => 0 :: text.toUTF8.toList) := by
    rw [hvalues]
  rw [List.flatMap_map, List.flatMap_map] at hparts
  rw [digestInput, digestInput, hdatabase, htable, hparts]

theorem SameSpelling.zeros_eq (h : SameSpelling row row') : zeros row = zeros row' := by
  rw [zeros, zeros, h.1, h.2.1]

/-- The bytes of two digests are the same and the names hold the zero byte equally often, exactly
when the rows have the same names and the same texts of the values. -/
theorem digestInput_eq_iff :
    (digestInput row = digestInput row' ∧ zeros row = zeros row') ↔ SameSpelling row row' :=
  ⟨fun h => sameSpelling_of_digestInput h.2 h.1, fun h => ⟨h.digestInput_eq, h.zeros_eq⟩⟩

/-- Rows with the same bytes for their digests have the same names and the same texts of the values,
unless their names hold the zero byte a different number of times; and these bytes are the same for
all rows that do. So the same goes for digests that do not collide. Two rows of one table are told
apart whatever its name is. -/
theorem digest_tells_spelling (row row' : RowId) :
    ((digestInput row = digestInput row' ∧ zeros row = zeros row') ↔ SameSpelling row row') ∧
      ((KeyEncoding.digest.key row = KeyEncoding.digest.key row' ∧ zeros row = zeros row' ∧
          ¬ Sha256.Collide (digestInput row) (digestInput row')) ↔ SameSpelling row row') ∧
      ((KeyEncoding.digest.key row = KeyEncoding.digest.key row' ∧
          row.database = row'.database ∧ row.tableName = row'.tableName ∧
          ¬ Sha256.Collide (digestInput row) (digestInput row')) ↔ SameSpelling row row') := by
  have hsame (h : SameSpelling row row') :
      KeyEncoding.digest.key row = KeyEncoding.digest.key row' ∧
        ¬ Sha256.Collide (digestInput row) (digestInput row') :=
    ⟨(digest_key_eq_iff row row').mpr (.inl h.digestInput_eq),
      fun hcollide => hcollide.1 h.digestInput_eq⟩
  have hinput (hkey : KeyEncoding.digest.key row = KeyEncoding.digest.key row')
      (hcollide : ¬ Sha256.Collide (digestInput row) (digestInput row')) :
      digestInput row = digestInput row' :=
    ((digest_key_eq_iff row row').mp hkey).resolve_right hcollide
  refine ⟨digestInput_eq_iff, ⟨?_, fun h => ?_⟩, ⟨?_, fun h => ?_⟩⟩
  · rintro ⟨hkey, hzeros, hcollide⟩
    exact sameSpelling_of_digestInput hzeros (hinput hkey hcollide)
  · obtain ⟨hkey, hcollide⟩ := hsame h
    exact ⟨hkey, h.zeros_eq, hcollide⟩
  · rintro ⟨hkey, hdatabase, htable, hcollide⟩
    have hzeros : zeros row = zeros row' := by rw [zeros, zeros, hdatabase, htable]
    exact sameSpelling_of_digestInput hzeros (hinput hkey hcollide)
  · obtain ⟨hkey, hcollide⟩ := hsame h
    exact ⟨hkey, h.1, h.2.1, hcollide⟩

/-- A row of one table and a row without a key of another table, whose name goes on with the zero
character and the text of the first row's value. -/
theorem digest_shared_by_tables :
    ∃ row row' : RowId, row = ⟨"shop", some "users", [⟨"id", Json.ofNat 7⟩]⟩ ∧
      row' = ⟨"shop", some "users\x007", []⟩ ∧ ¬ SameSpelling row row' ∧
      digestInput row = digestInput row' ∧
      KeyEncoding.digest.key row = KeyEncoding.digest.key row' := by
  have hinput : digestInput ⟨"shop", some "users", [⟨"id", Json.ofNat 7⟩]⟩ =
      digestInput ⟨"shop", some "users\x007", []⟩ := by
    simp only [digestInput, Utf8.toList_toUTF8]
    rfl
  refine ⟨_, _, rfl, rfl, fun h => ?_, hinput, (digest_key_eq_iff _ _).mpr (.inl hinput)⟩
  exact absurd h.2.1 (by decide)

end KeyEncoding

end ChangeRelay
