import ChangeRelay.Proofs.Record.Substitution
/-!
# Topics of patterns without places

A pattern in which nothing starts like a place is its own topic at once; any other one is passed
over twice, also when what starts like a place is none. This makes no difference: the topic is
always what both passes lead to, which `Replaced` tells without a search, and a pattern is its own
topic for every row exactly if it holds neither place.
-/

namespace ChangeRelay

/-! ## Replaced texts -/

/-- A text and what it becomes when `new` is put for `old`, from left to right, wherever `old`
stands. -/
inductive Replaced (old new : List Char) : List Char → List Char → Prop
  | nil : Replaced old new [] []
  | put {cs filled : List Char} (h : Replaced old new cs filled) :
    Replaced old new (old ++ cs) (new ++ filled)
  | keep {c : Char} {cs filled : List Char} (hstart : ¬ old <+: c :: cs)
      (h : Replaced old new cs filled) : Replaced old new (c :: cs) (c :: filled)

theorem exists_replaced {old : List Char} (hold : old ≠ []) (new cs : List Char) :
    ∃ filled, Replaced old new cs filled := by
  induction hlength : cs.length using Nat.strongRecOn generalizing cs with
  | ind n ih =>
    cases cs with
    | nil => exact ⟨[], .nil⟩
    | cons c cs =>
      rw [List.length_cons] at hlength
      by_cases hstart : old <+: c :: cs
      · obtain ⟨rest, hrest⟩ := hstart
        have hpos := List.length_pos_of_ne_nil hold
        have hsum := congrArg List.length hrest
        rw [List.length_append, List.length_cons] at hsum
        obtain ⟨filled, h⟩ := ih rest.length (by omega) rest rfl
        rw [← hrest]
        exact ⟨new ++ filled, .put h⟩
      · obtain ⟨filled, h⟩ := ih cs.length (by omega) cs rfl
        exact ⟨c :: filled, .keep hstart h⟩

/-- Replacing leads to what the text becomes, and to nothing else. -/
theorem replaceAll_eq_iff {old : List Char} (hold : old ≠ []) (new cs filled : List Char) :
    replaceAll old new cs = filled ↔ Replaced old new cs filled := by
  have hresult {filled : List Char} (h : Replaced old new cs filled) :
      replaceAll old new cs = filled := by
    induction h with
    | nil => rfl
    | put _ ih => rw [replaceAll_append hold, ih]
    | keep hstart _ ih => rw [replaceAll_cons hstart, ih]
  constructor
  · intro heq
    obtain ⟨found, h⟩ := exists_replaced hold new cs
    rw [← heq, hresult h]
    exact h
  · exact hresult

namespace Replaced

variable {old cs filled : List Char}

/-- Taking something out makes no text longer. -/
theorem length_le (h : Replaced old [] cs filled) : filled.length ≤ cs.length := by
  induction h with
  | nil => exact Nat.le_refl 0
  | put _ ih =>
    rw [List.nil_append, List.length_append]
    omega
  | keep _ _ ih =>
    rw [List.length_cons, List.length_cons]
    omega

/-- Taking out what stands somewhere makes the text shorter. -/
theorem length_lt (hold : old ≠ []) (h : Replaced old [] cs filled) (hmem : old <:+: cs) :
    filled.length < cs.length := by
  induction h with
  | nil => exact absurd (List.infix_nil.mp hmem) hold
  | put h _ =>
    have hpos := List.length_pos_of_ne_nil hold
    have hle := h.length_le
    rw [List.nil_append, List.length_append]
    omega
  | keep hstart _ ih =>
    have hrest := (List.infix_cons_iff.mp hmem).resolve_left hstart
    have hlt := ih hrest
    rw [List.length_cons, List.length_cons]
    omega

end Replaced

namespace TopicPattern

/-! ## Topics -/

/-- A pattern that holds a place is not the topic of a row without names. -/
theorem not_infix_of_topic_eq {p : TopicPattern} (h : p.topic ⟨"", none, []⟩ = p.text) :
    ¬ databasePlace <:+: p.text.toList ∧ ¬ tablePlace <:+: p.text.toList := by
  set withDatabase := replaceAll databasePlace [] p.text.toList with hpass
  have hfirst : Replaced databasePlace [] p.text.toList withDatabase :=
    (replaceAll_eq_iff (by decide) _ _ _).mp hpass.symm
  have hsecond : Replaced tablePlace [] withDatabase p.text.toList := by
    have htext := congrArg String.toList h
    rw [topic_eq_replaceAll, String.toList_ofList] at htext
    exact (replaceAll_eq_iff (by decide) _ _ _).mp htext
  have hdatabase : ¬ databasePlace <:+: p.text.toList := by
    intro hmem
    have hlt := hfirst.length_lt (by decide) hmem
    have hle := hsecond.length_le
    omega
  refine ⟨hdatabase, ?_⟩
  intro hmem
  rw [hpass, replaceAll_eq_self (List.prefix_refl _) hdatabase] at hsecond
  have hlt := hsecond.length_lt (by decide) hmem
  omega

/-- The topic of a row is what both passes lead to, also for a pattern that is not passed over: the
database is put in its places, and then the table in those that are there. A pattern is the topic of
every row exactly if it holds neither place, whatever else in it starts like one. -/
theorem topic_in_two_passes (p : TopicPattern) :
    (∀ row, p.topic row = String.ofList (replaceAll tablePlace row.tableName.toList
        (replaceAll databasePlace row.database.toList p.text.toList)) ∧
      ∃ withDatabase, Replaced databasePlace row.database.toList p.text.toList withDatabase ∧
        Replaced tablePlace row.tableName.toList withDatabase (p.topic row).toList) ∧
      ((∀ row, p.topic row = p.text) ↔
        ¬ databasePlace <:+: p.text.toList ∧ ¬ tablePlace <:+: p.text.toList) := by
  refine ⟨fun row => ⟨topic_eq_replaceAll p row, ?_⟩, fun h => not_infix_of_topic_eq (h _), ?_⟩
  · refine ⟨replaceAll databasePlace row.database.toList p.text.toList, ?_, ?_⟩
    · exact (replaceAll_eq_iff (by decide) _ _ _).mp rfl
    · apply (replaceAll_eq_iff (by decide) _ _ _).mp
      rw [topic_eq_replaceAll, String.toList_ofList]
  · rintro ⟨hdatabase, htable⟩ row
    rw [topic_eq_replaceAll, replaceAll_eq_self (List.prefix_refl _) hdatabase,
      replaceAll_eq_self (List.prefix_refl _) htable, String.ofList_toList]

-- what starts like a place without being one is searched and kept
example : (⟨"cdc.%\x7btables\x7d"⟩ : TopicPattern).hasPlaces = true ∧
    (⟨"cdc.%\x7btables\x7d"⟩ : TopicPattern).topic ⟨"shop", some "orders", []⟩ =
      "cdc.%\x7btables\x7d" := by
  decide

end TopicPattern

end ChangeRelay
