import ChangeRelay.Record.TopicPattern
import Mathlib.Data.List.Basic
/-!
# Substitution in topic patterns

A pattern is made of parts: the places of the database and of the table, and single characters.
Putting the names of a row into its places at once gives its literal topic. The topic of a row is
made in two passes instead, and the second one also finds places that the first one has made out of
the database's name. `topic_eq_literal_iff` says when this makes a difference.
-/

namespace ChangeRelay

/-! ## Replacing -/

theorem replaceFrom_eq_drop (old new : List Char) (skip : ℕ) (cs : List Char) :
    replaceFrom old new skip cs = replaceAll old new (cs.drop skip) := by
  induction skip generalizing cs with
  | zero => rfl
  | succ skip ih =>
    cases cs with
    | nil => rfl
    | cons c cs => exact ih cs

/-- A text that starts with what is replaced. -/
theorem replaceAll_append {old : List Char} (hold : old ≠ []) (new cs : List Char) :
    replaceAll old new (old ++ cs) = new ++ replaceAll old new cs := by
  obtain ⟨o, os, rfl⟩ := List.exists_cons_of_ne_nil hold
  have hprefix : (o :: os).isPrefixOf (o :: (os ++ cs)) = true :=
    List.isPrefixOf_iff_prefix.mpr (List.prefix_append (o :: os) cs)
  rw [replaceAll, List.cons_append, replaceFrom, if_pos hprefix, replaceFrom_eq_drop]
  show new ++ replaceAll (o :: os) new ((os ++ cs).drop os.length) = _
  rw [List.drop_left]

/-- A text that does not start with what is replaced keeps its first character. -/
theorem replaceAll_cons {old : List Char} {c : Char} {cs : List Char} (h : ¬ old <+: c :: cs)
    (new : List Char) : replaceAll old new (c :: cs) = c :: replaceAll old new cs := by
  rw [replaceAll, replaceFrom, if_neg (mt List.isPrefixOf_iff_prefix.mp h)]
  rfl

/-- The search for a text finds it wherever it stands. -/
theorem occurs_iff (part cs : List Char) : occurs part cs = true ↔ part <:+: cs := by
  induction cs with
  | nil => rw [occurs, List.isEmpty_iff, List.infix_nil]
  | cons c cs ih =>
    rw [occurs, Bool.or_eq_true, List.isPrefixOf_iff_prefix, ih, List.infix_cons_iff]

/-- What stands nowhere, not even with its first characters, is not replaced. -/
theorem replaceAll_eq_self {part old cs : List Char} (hpart : part <+: old)
    (h : ¬ part <:+: cs) (new : List Char) : replaceAll old new cs = cs := by
  induction cs with
  | nil => rfl
  | cons c cs ih =>
    rw [List.infix_cons_iff, not_or] at h
    obtain ⟨hstart, hrest⟩ := h
    rw [replaceAll_cons (fun hold => hstart (hpart.trans hold)), ih hrest]

/-- How often `part` occurs in a text. -/
def occurrences (part : List Char) : List Char → ℕ
  | [] => 0
  | c :: rest => occurrences part rest + if part.isPrefixOf (c :: rest) then 1 else 0

theorem occurrences_cons {part : List Char} {c : Char} {cs : List Char}
    (h : ¬ part <+: c :: cs) : occurrences part (c :: cs) = occurrences part cs := by
  rw [occurrences, if_neg (mt List.isPrefixOf_iff_prefix.mp h), Nat.add_zero]

namespace TopicPattern

/-! ## Parts -/

/-- A part of a pattern. -/
inductive Part
  | char (c : Char)
  | database
  | table
deriving DecidableEq, Repr

/-- The parts of a pattern from left to right, after passing over `skip` characters. -/
def partsFrom : (skip : ℕ) → List Char → List Part
  | _, [] => []
  | skip + 1, _ :: rest => partsFrom skip rest
  | 0, c :: rest =>
    if databasePlace.isPrefixOf (c :: rest) then
      .database :: partsFrom (databasePlace.length - 1) rest
    else if tablePlace.isPrefixOf (c :: rest) then .table :: partsFrom (tablePlace.length - 1) rest
    else .char c :: partsFrom 0 rest

/-- The parts of a text. -/
def parts (cs : List Char) : List Part :=
  partsFrom 0 cs

/-- What stands in a topic for a part of its pattern. -/
def Part.fill (database table : List Char) : Part → List Char
  | .char c => [c]
  | .database => database
  | .table => table

/-- The topic of a row, its names put into their places all at once. -/
def literal (p : TopicPattern) (row : RowId) : String :=
  String.ofList ((parts p.text.toList).flatMap
    (Part.fill row.database.toList row.tableName.toList))

theorem partsFrom_eq_drop (skip : ℕ) (cs : List Char) :
    partsFrom skip cs = parts (cs.drop skip) := by
  induction skip generalizing cs with
  | zero => rfl
  | succ skip ih =>
    cases cs with
    | nil => rfl
    | cons c cs => exact ih cs

@[simp] theorem parts_nil : parts [] = [] := rfl

@[simp] theorem parts_databasePlace (cs : List Char) :
    parts (databasePlace ++ cs) = .database :: parts cs := by
  show Part.database :: partsFrom 10 ("\x7bdatabase\x7d".toList ++ cs) = _
  rw [partsFrom_eq_drop]
  rfl

@[simp] theorem parts_tablePlace (cs : List Char) :
    parts (tablePlace ++ cs) = .table :: parts cs := by
  show Part.table :: partsFrom 7 ("\x7btable\x7d".toList ++ cs) = _
  rw [partsFrom_eq_drop]
  rfl

theorem parts_cons {c : Char} {cs : List Char} (hdatabase : ¬ databasePlace <+: c :: cs)
    (htable : ¬ tablePlace <+: c :: cs) : parts (c :: cs) = .char c :: parts cs := by
  rw [parts, partsFrom, if_neg (mt List.isPrefixOf_iff_prefix.mp hdatabase),
    if_neg (mt List.isPrefixOf_iff_prefix.mp htable)]
  rfl

/-- Every text is made of places and of characters that start no place. -/
@[elab_as_elim] theorem parts_induction {motive : List Char → Prop} (nil : motive [])
    (database : ∀ cs, motive cs → motive (databasePlace ++ cs))
    (table : ∀ cs, motive cs → motive (tablePlace ++ cs))
    (char : ∀ c cs, ¬ databasePlace <+: c :: cs → ¬ tablePlace <+: c :: cs → motive cs →
      motive (c :: cs)) (cs : List Char) : motive cs := by
  induction hlength : cs.length using Nat.strongRecOn generalizing cs with
  | ind n ih =>
    have hshorter {place rest : List Char} (hplace : place ≠ []) (h : place ++ rest = cs) :
        motive rest := by
      refine ih rest.length ?_ rest rfl
      have hpos := List.length_pos_of_ne_nil hplace
      rw [← hlength, ← h, List.length_append]
      omega
    cases cs with
    | nil => exact nil
    | cons c cs =>
      by_cases hdatabase : databasePlace <+: c :: cs
      · obtain ⟨rest, h⟩ := hdatabase
        rw [← h]
        exact database rest (hshorter (by decide) h)
      · by_cases htable : tablePlace <+: c :: cs
        · obtain ⟨rest, h⟩ := htable
          rw [← h]
          exact table rest (hshorter (by decide) h)
        · exact char c cs hdatabase htable (ih cs.length (by simp [← hlength]) cs rfl)

/-! ## The first pass -/

/-- The first pass fills the places of the database and leaves those of the table. -/
theorem replaceAll_databasePlace (database cs : List Char) :
    replaceAll databasePlace database cs = (parts cs).flatMap (Part.fill database tablePlace) := by
  induction cs using parts_induction with
  | nil => rfl
  | database cs ih =>
    rw [replaceAll_append (by decide), ih, parts_databasePlace]
    rfl
  | table cs ih =>
    -- a place of the table has no other place inside
    have hkeep : replaceAll databasePlace database (tablePlace ++ cs) =
        tablePlace ++ replaceAll databasePlace database cs := rfl
    rw [hkeep, ih, parts_tablePlace]
    rfl
  | char c cs hdatabase htable ih =>
    rw [replaceAll_cons hdatabase, ih, parts_cons hdatabase htable]
    rfl

/-- A place of the table has no part of another one inside. -/
@[simp] theorem occurrences_tablePlace_append (cs : List Char) :
    occurrences tablePlace (tablePlace ++ cs) = occurrences tablePlace cs + 1 := rfl

/-- The places of the table are where the text of such a place occurs. -/
theorem occurrences_tablePlace (cs : List Char) :
    occurrences tablePlace cs = (parts cs).count .table := by
  induction cs using parts_induction with
  | nil => rfl
  | database cs ih =>
    have hskip : occurrences tablePlace (databasePlace ++ cs) = occurrences tablePlace cs := rfl
    rw [hskip, ih, parts_databasePlace, List.count_cons_of_ne (by decide)]
  | table cs ih =>
    rw [occurrences_tablePlace_append, ih, parts_tablePlace, List.count_cons_self]
  | char c cs hdatabase htable ih =>
    rw [occurrences_cons htable, ih, parts_cons hdatabase htable,
      List.count_cons_of_ne (by simp)]

/-! ## The second pass

The text that the second pass reads is taken with its places of the table marked: `none` is a place
of the pattern itself, and `some c` a character of the pattern or of the database's name. -/

/-- What the first pass makes of a part. -/
def Part.marked (database : List Char) : Part → List (Option Char)
  | .char c => [some c]
  | .database => database.map some
  | .table => [none]

/-- A marked text with its places filled. -/
def fillMarks (table : List Char) (marks : List (Option Char)) : List Char :=
  marks.flatMap fun mark => mark.elim table fun c => [c]

@[simp] theorem fillMarks_nil (table : List Char) : fillMarks table [] = [] := rfl

@[simp] theorem fillMarks_some (table : List Char) (c : Char) (marks : List (Option Char)) :
    fillMarks table (some c :: marks) = c :: fillMarks table marks := rfl

@[simp] theorem fillMarks_none (table : List Char) (marks : List (Option Char)) :
    fillMarks table (none :: marks) = table ++ fillMarks table marks := rfl

theorem fillMarks_map_append (table cs : List Char) (marks : List (Option Char)) :
    fillMarks table (cs.map some ++ marks) = cs ++ fillMarks table marks := by
  induction cs with
  | nil => rfl
  | cons c cs ih => rw [List.map_cons, List.cons_append, fillMarks_some, ih, List.cons_append]

theorem flatMap_fill (database table : List Char) (ps : List Part) :
    ps.flatMap (Part.fill database table) =
      fillMarks table (ps.flatMap (Part.marked database)) := by
  induction ps with
  | nil => rfl
  | cons p ps ih =>
    rw [List.flatMap_cons, List.flatMap_cons, ih]
    cases p with
    | char c => rfl
    | database => exact (fillMarks_map_append table database _).symm
    | table => rfl

/-- The marks of the pattern's own places. -/
theorem count_marked (database : List Char) (ps : List Part) :
    (ps.flatMap (Part.marked database)).count none = ps.count .table := by
  induction ps with
  | nil => rfl
  | cons p ps ih =>
    rw [List.flatMap_cons, List.count_append, ih, Nat.add_comm, List.count_cons]
    cases p with
    | char c => rfl
    | database =>
      have hnone : (database.map some).count none = 0 := List.count_eq_zero.mpr (by simp)
      rw [Part.marked, hnone]
      rfl
    | table => rfl

/-- The second pass finds the places that are marked, and `n` more. -/
inductive Finds : (n : ℕ) → (found marks : List (Option Char)) → Prop
  | nil : Finds 0 [] []
  | keep {n : ℕ} {found marks : List (Option Char)} (mark : Option Char)
      (h : Finds n found marks) : Finds n (mark :: found) (mark :: marks)
  | new {n : ℕ} {found marks : List (Option Char)} (h : Finds n found marks) :
    Finds (n + 1) (none :: found) (tablePlace.map some ++ marks)

namespace Finds

variable {n : ℕ} {found marks : List (Option Char)} {table : List Char}

theorem eq_of_zero (h : Finds n found marks) (hzero : n = 0) : found = marks := by
  induction h with
  | nil => rfl
  | keep mark _ ih => rw [ih hzero]
  | new => omega

/-- Every further place is one more text of the table in place of the eight characters of a place.
-/
theorem length_fillMarks (h : Finds n found marks) (table : List Char) :
    (fillMarks table found).length + 8 * n = (fillMarks table marks).length + table.length * n := by
  induction h with
  | nil => rfl
  | keep mark _ ih =>
    cases mark with
    | none =>
      rw [fillMarks_none, fillMarks_none, List.length_append, List.length_append]
      omega
    | some c =>
      rw [fillMarks_some, fillMarks_some, List.length_cons, List.length_cons]
      omega
  | new _ ih =>
    have hplace : tablePlace.length = 8 := rfl
    rw [fillMarks_none, fillMarks_map_append, List.length_append, List.length_append, hplace,
      Nat.mul_succ table.length]
    omega

/-- A place that is filled with the text of a place looks as if it had not been found. -/
theorem fillMarks_tablePlace (h : Finds n found marks) :
    fillMarks tablePlace found = fillMarks tablePlace marks := by
  induction h with
  | nil => rfl
  | keep mark _ ih => cases mark <;> simp [ih]
  | new _ ih => rw [fillMarks_none, fillMarks_map_append, ih]

/-- Any other text shows that a further place was found. -/
theorem eq_zero_of_fillMarks_eq (h : Finds n found marks) (htable : table ≠ tablePlace)
    (heq : fillMarks table found = fillMarks table marks) : n = 0 := by
  have hlength := h.length_fillMarks table
  rw [heq, Nat.add_left_cancel_iff] at hlength
  -- a text of another length shows in the whole; one of the same length stands at the same place
  by_cases height : table.length = 8
  · induction h with
    | nil => rfl
    | keep mark h ih =>
      refine ih ?_ (by rw [height])
      cases mark with
      | none => exact List.append_cancel_left heq
      | some c => exact (List.cons.inj heq).2
    | new h _ =>
      rw [fillMarks_none, fillMarks_map_append] at heq
      exact absurd (List.append_inj_left heq height) htable
  · by_contra hne
    exact height (Nat.eq_of_mul_eq_mul_right (Nat.pos_of_ne_zero hne) hlength.symm)

/-- Where no character of the text can start a place, nothing more is found. -/
theorem eq_zero_of_not_mem (h : Finds n found marks) (hpercent : some '%' ∉ marks) : n = 0 := by
  induction h with
  | nil => rfl
  | keep mark _ ih => exact ih fun hmem => hpercent (List.mem_cons_of_mem mark hmem)
  | new => exact absurd (List.mem_append_left _ (by decide)) hpercent

end Finds

/-- The place of the table after its first character. -/
def placeRest : List Char :=
  "\x7btable\x7d".toList

/-- Characters of a marked text, none of which starts a place, are not part of a mark. -/
theorem exists_of_prefix_fillMarks {piece : List Char} (hpiece : '%' ∉ piece)
    {marks : List (Option Char)} (h : piece <+: fillMarks tablePlace marks) :
    ∃ rest, marks = piece.map some ++ rest := by
  induction piece generalizing marks with
  | nil => exact ⟨marks, rfl⟩
  | cons c piece ih =>
    rw [List.mem_cons, not_or] at hpiece
    cases marks with
    | nil => simp at h
    | cons mark marks =>
      cases mark with
      | none =>
        -- a mark would start with the one character that is not there
        have hstart : c :: piece <+: '%' :: (placeRest ++ fillMarks tablePlace marks) := h
        exact absurd (List.cons_prefix_cons.mp hstart).1.symm hpiece.1
      | some d =>
        obtain ⟨rfl, hrest⟩ := List.cons_prefix_cons.mp h
        obtain ⟨rest, rfl⟩ := ih hpiece.2 hrest
        exact ⟨rest, rfl⟩

/-- What the second pass makes of a marked text. -/
theorem exists_finds (table : List Char) (marks : List (Option Char)) :
    ∃ n found, Finds n found marks ∧
      replaceAll tablePlace table (fillMarks tablePlace marks) = fillMarks table found ∧
      occurrences tablePlace (fillMarks tablePlace marks) = marks.count none + n := by
  induction hlength : marks.length using Nat.strongRecOn generalizing marks with
  | ind length ih =>
    cases marks with
    | nil => exact ⟨0, [], .nil, rfl, rfl⟩
    | cons mark marks =>
      have hshorter : marks.length < length := by simp [← hlength]
      cases mark with
      | none =>
        obtain ⟨n, found, hfinds, hreplace, hcount⟩ := ih _ hshorter marks rfl
        refine ⟨n, none :: found, .keep none hfinds, ?_, ?_⟩
        · rw [fillMarks_none, replaceAll_append (by decide), hreplace, fillMarks_none]
        · rw [fillMarks_none, occurrences_tablePlace_append, hcount, List.count_cons_self]
          omega
      | some c =>
        by_cases hplace : tablePlace <+: c :: fillMarks tablePlace marks
        · -- the rest of the place is made of characters too, and the search goes on behind it
          have hstart : '%' :: placeRest <+: c :: fillMarks tablePlace marks := hplace
          obtain ⟨rfl, hrest⟩ := List.cons_prefix_cons.mp hstart
          obtain ⟨marks, rfl⟩ := exists_of_prefix_fillMarks (by decide) hrest
          rw [List.length_append] at hshorter
          obtain ⟨n, found, hfinds, hreplace, hcount⟩ := ih marks.length (by omega) marks rfl
          have hmarks : some '%' :: (placeRest.map some ++ marks) = tablePlace.map some ++ marks :=
            rfl
          refine ⟨n + 1, none :: found, ?_, ?_, ?_⟩
          · rw [hmarks]
            exact .new hfinds
          · rw [hmarks, fillMarks_map_append, replaceAll_append (by decide), hreplace,
              fillMarks_none]
          · have hnone : (tablePlace.map some).count none = 0 := rfl
            rw [hmarks, fillMarks_map_append, occurrences_tablePlace_append, hcount,
              List.count_append, hnone]
            omega
        · obtain ⟨n, found, hfinds, hreplace, hcount⟩ := ih _ hshorter marks rfl
          refine ⟨n, some c :: found, .keep (some c) hfinds, ?_, ?_⟩
          · rw [fillMarks_some, replaceAll_cons hplace, hreplace, fillMarks_some]
          · rw [fillMarks_some, occurrences_cons hplace, hcount, List.count_cons_of_ne (by simp)]

/-! ## Topics -/

/-- A pattern in which nothing starts like a place is no exception. -/
theorem topic_eq_replaceAll (p : TopicPattern) (row : RowId) :
    p.topic row = String.ofList (replaceAll tablePlace row.tableName.toList
      (replaceAll databasePlace row.database.toList p.text.toList)) := by
  unfold topic
  split
  · rfl
  · next hplaces =>
    have hnone : ¬ placeStart <:+: p.text.toList := by
      intro hmem
      exact hplaces ((occurs_iff _ _).mpr hmem)
    rw [replaceAll_eq_self (by decide) hnone, replaceAll_eq_self (by decide) hnone,
      String.ofList_toList]

/-- A topic is made literally, each place of the pattern filled once and nothing else touched,
exactly if the database's name makes no new place of the table where it is put in, or the table's
own name is the text of such a place. So it is whenever neither the database's name has the
character that starts a place, nor the pattern has it outside its places. -/
theorem topic_eq_literal_iff (p : TopicPattern) (row : RowId) :
    (p.topic row = p.literal row ↔
      occurrences tablePlace (replaceAll databasePlace row.database.toList p.text.toList) =
          occurrences tablePlace p.text.toList ∨
        row.tableName.toList = tablePlace) ∧
    ('%' ∉ row.database.toList → .char '%' ∉ parts p.text.toList →
      p.topic row = p.literal row) := by
  set marks := (parts p.text.toList).flatMap (Part.marked row.database.toList) with hmarks
  have hfirst : replaceAll databasePlace row.database.toList p.text.toList =
      fillMarks tablePlace marks := by
    rw [replaceAll_databasePlace, flatMap_fill]
  obtain ⟨n, found, hfinds, hreplace, hcount⟩ := exists_finds row.tableName.toList marks
  have htopic : p.topic row = String.ofList (fillMarks row.tableName.toList found) := by
    rw [topic_eq_replaceAll, hfirst, hreplace]
  have hliteral : p.literal row = String.ofList (fillMarks row.tableName.toList marks) := by
    rw [literal, flatMap_fill]
  rw [htopic, hliteral, hfirst, hcount, occurrences_tablePlace, hmarks, count_marked,
    Nat.add_eq_left, String.ofList_inj]
  refine ⟨⟨fun heq => ?_, fun h => ?_⟩, fun hdatabase hpattern => ?_⟩
  · by_cases htable : row.tableName.toList = tablePlace
    · exact .inr htable
    · exact .inl (hfinds.eq_zero_of_fillMarks_eq htable heq)
  · rcases h with hzero | htable
    · rw [hfinds.eq_of_zero hzero]
    · rw [htable]
      exact hfinds.fillMarks_tablePlace
  · refine congrArg _ (hfinds.eq_of_zero (hfinds.eq_zero_of_not_mem fun hmem => ?_))
    obtain ⟨part, hpart, hmem⟩ := List.mem_flatMap.mp hmem
    cases part with
    | char c =>
      obtain rfl : '%' = c := by simpa [Part.marked] using hmem
      exact hpattern hpart
    | database => exact hdatabase (by simpa [Part.marked] using hmem)
    | table => simp [Part.marked] at hmem

/-- A pattern with both places, and a row with ordinary names. -/
theorem topic_eq_literal_of_orders :
    (⟨"cdc.%\x7bdatabase\x7d.%\x7btable\x7d"⟩ : TopicPattern).literal ⟨"shop", some "orders", []⟩ =
        "cdc.shop.orders" ∧
      (⟨"cdc.%\x7bdatabase\x7d.%\x7btable\x7d"⟩ : TopicPattern).topic ⟨"shop", some "orders", []⟩ =
        (⟨"cdc.%\x7bdatabase\x7d.%\x7btable\x7d"⟩ : TopicPattern).literal
          ⟨"shop", some "orders", []⟩ :=
  ⟨by decide, (topic_eq_literal_iff _ _).2 (by decide) (by decide)⟩

/-- The name of a database that reads like the place of the table is filled again. -/
theorem database_filled_again :
    (⟨"%\x7bdatabase\x7d"⟩ : TopicPattern).literal ⟨"%\x7btable\x7d", some "orders", []⟩ =
        "%\x7btable\x7d" ∧
      (⟨"%\x7bdatabase\x7d"⟩ : TopicPattern).topic ⟨"%\x7btable\x7d", some "orders", []⟩ =
        "orders" := by
  decide

end TopicPattern

end ChangeRelay
