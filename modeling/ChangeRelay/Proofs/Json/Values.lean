import ChangeRelay.Proofs.Json.Compact
import ChangeRelay.Proofs.Json.Readable
/-!
# The text of a value before the reader

Where the text of a value starts, how the reader comes from one item of an array to the next, and
how it reads a value by its first character.
-/

namespace ChangeRelay.Json

variable {l : Layout} {k : ℕ} {space rest : List Char}

/-! ## Where a value starts -/

/-- A text that starts with something, which is neither white space nor the end of an array. -/
def StartsItem (cs : List Char) : Prop :=
  ∃ c rest, cs = c :: rest ∧ isSpace c = false ∧ c ≠ ']'

theorem startsItem_cons {c : Char} (h : (isSpace c || c = ']') = false) (rest : List Char) :
    StartsItem (c :: rest) := by
  rw [Bool.or_eq_false_iff, decide_eq_false_iff_not] at h
  exact ⟨c, rest, rfl, h⟩

theorem StartsItem.append {cs : List Char} (h : StartsItem cs) (rest : List Char) :
    StartsItem (cs ++ rest) := by
  obtain ⟨c, cs, rfl, hc⟩ := h
  exact ⟨c, cs ++ rest, rfl, hc⟩

theorem startsItem_chars (l : Layout) (k : ℕ) (v : Json) : StartsItem (chars l k v) := by
  cases v with
  | null => exact startsItem_cons (by decide) _
  | bool b => cases b <;> exact startsItem_cons (by decide) _
  | num n =>
    obtain ⟨c, cs, hcs⟩ := List.exists_cons_of_ne_nil (numberChars_ne_nil n)
    have hbare : isBare c = true := isBare_numberChars n c (hcs ▸ List.mem_cons_self)
    -- neither white space nor a bracket is bare
    have hne (d : Char) (hd : isBare d = false) : c ≠ d := by
      rintro rfl
      simp [hd] at hbare
    rw [chars, hcs]
    refine startsItem_cons ?_ cs
    simp [isSpace, hne ' ' rfl, hne '\n' rfl, hne '\t' rfl, hne '\r' rfl, hne ']' rfl]
  | str s => exact startsItem_cons (by decide) _
  | arr vs => cases vs <;> exact startsItem_cons (by decide) _
  | obj ms => cases ms <;> exact startsItem_cons (by decide) _

/-! ## Arrays -/

theorem nextItem_close (hspace : ∀ c ∈ space, isSpace c = true) (first : Bool)
    (rest : List Char) : nextItem first (space ++ ']' :: rest) = .ok (false, ']' :: rest) := by
  rw [nextItem, skipSpace_append hspace, skipSpace_cons (by decide)]
  rfl

theorem nextItem_first (hspace : ∀ c ∈ space, isSpace c = true) {cs : List Char}
    (hcs : StartsItem cs) : nextItem true (space ++ cs) = .ok (true, cs) := by
  obtain ⟨c, rest, rfl, hblank, hclose⟩ := hcs
  rw [nextItem, skipSpace_append hspace, skipSpace_cons hblank]
  simp [hclose]

theorem nextItem_comma (hspace : ∀ c ∈ space, isSpace c = true) {cs : List Char}
    (hcs : StartsItem cs) : nextItem false (',' :: (space ++ cs)) = .ok (true, cs) := by
  obtain ⟨c, rest, rfl, hblank, hclose⟩ := hcs
  rw [nextItem, skipSpace_cons (by decide)]
  simp [skipSpace_append hspace, skipSpace_cons hblank, hclose]

theorem endsValue_items (hspace : ∀ c ∈ space, isSpace c = true) (vs : List Json)
    (rest : List Char) : EndsValue (itemChars l k vs ++ space ++ ']' :: rest) := by
  cases vs with
  | nil =>
    rw [itemChars, List.nil_append]
    refine EndsValue.spaces hspace fun c hc => ?_
    obtain rfl : ']' = c := Option.some.inj hc
    exact .inr (.inl rfl)
  | cons v vs =>
    intro c hc
    obtain rfl : ',' = c := by simpa [itemChars] using hc
    exact .inl rfl

theorem length_le_itemChars (vs : List Json) : vs.length ≤ (itemChars l k vs).length := by
  induction vs with
  | nil => exact Nat.zero_le _
  | cons v vs ih =>
    rw [itemChars]
    simp only [List.length_cons, List.length_append]
    omega

theorem closeArray_bracket (rest : List Char) : closeArray (']' :: rest) = ⟨rest, none⟩ := by
  rw [closeArray, skipSpace_cons (by decide)]
  rfl

/-! ## Values without floating-point numbers -/

mutual

/-- Whether no number in a value is a floating-point number. -/
def isFloatFree : Json → Bool
  | .null | .bool _ | .str _ => true
  | .num (.int _) => true
  | .num (.float _) => false
  | .arr vs => areFloatFree vs
  | .obj ms => haveFloatFree ms

/-- Whether no number in the items is a floating-point number. -/
def areFloatFree : List Json → Bool
  | [] => true
  | v :: vs => v.isFloatFree && areFloatFree vs

/-- Whether no number in the members is a floating-point number. -/
def haveFloatFree : List (String × Json) → Bool
  | [] => true
  | (_, v) :: ms => v.isFloatFree && haveFloatFree ms

end

theorem areFloatFree_iff {vs : List Json} :
    areFloatFree vs = true ↔ ∀ v ∈ vs, v.isFloatFree = true := by
  induction vs with
  | nil => simp [areFloatFree]
  | cons v vs ih => simp [areFloatFree, ih]

theorem haveFloatFree_iff {ms : List (String × Json)} :
    haveFloatFree ms = true ↔ ∀ m ∈ ms, m.2.isFloatFree = true := by
  induction ms with
  | nil => simp [haveFloatFree]
  | cons m ms ih =>
    obtain ⟨name, v⟩ := m
    simp only [haveFloatFree, Bool.and_eq_true, ih, List.forall_mem_cons]

/-! ## Reading a value -/

variable {depth : ℕ}

/-- Adds a member to those read before. -/
def storeMember (read : List Char → Except Failure (Json × List Char))
    (members : List (String × Json)) (name : String) (cs : List Char) :
    Except Trouble (List (String × Json) × List Char) := do
  let (v, cs) ← lift (readColon cs >>= read)
  .ok (insertMember name v members, cs)

/-- The object of the members read. -/
def finishObject (members : List (String × Json)) : Except Mismatch Json :=
  .ok (.obj members)

theorem readValue_of_readScalar? {cs : List Char} {r : Except Failure (Scalar × List Char)}
    (hspace : ∀ c ∈ space, isSpace c = true) (h : readScalar? cs = some r) :
    readValue depth (space ++ cs) = r.map fun (s, rest) => (ofScalar s, rest) := by
  obtain ⟨c, cs, rfl, hblank, harray, hobject⟩ := exists_head_of_readScalar? h
  unfold readValue
  rw [skipSpace_append hspace, skipSpace_cons hblank]
  split
  · next heq => simp at heq
  · next heq => exact absurd (List.cons.inj heq).1 harray
  · next heq => exact absurd (List.cons.inj heq).1 hobject
  · next heq =>
    rw [← heq, h]

theorem readValue_scalar {cs : List Char} {s : Scalar} (hspace : ∀ c ∈ space, isSpace c = true)
    (h : readScalar? cs = some (.ok (s, rest))) :
    readValue depth (space ++ cs) = .ok (ofScalar s, rest) :=
  readValue_of_readScalar? hspace h

theorem readValue_array (hspace : ∀ c ∈ space, isSpace c = true) (cs : List Char) :
    readValue (depth + 1) (space ++ '[' :: cs) =
      (readArray (readValue depth) cs).map fun (vs, rest) => (.arr vs, rest) := by
  rw [readValue, skipSpace_append hspace, skipSpace_cons (by decide)]
  rfl

theorem readValue_object (hspace : ∀ c ∈ space, isSpace c = true) (cs : List Char) :
    readValue (depth + 1) (space ++ '\x7b' :: cs) =
      readObject (storeMember (readValue depth)) [] finishObject cs := by
  rw [readValue, skipSpace_append hspace, skipSpace_cons (by decide)]
  rfl

end ChangeRelay.Json
