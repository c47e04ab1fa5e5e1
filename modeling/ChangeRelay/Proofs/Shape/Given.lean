import ChangeRelay.Proofs.Json.Reread
import ChangeRelay.Proofs.Shape.ReadBack
/-!
# What a shape gives

A value that some text gives was put together from parts that texts give: the items of a list, and
the fields of a record that are not absent by right. With the laws of reading back this bounds what
can come out of a text, whatever the text looks like.
-/

namespace ChangeRelay

open Json (EndsValue Failure Layout Trouble bind_eq_ok lift_eq_ok map_eq_ok of_closed)

variable {α β γ : Type} {depth : ℕ} {cs rest : List Char}

/-- Some text gives the value. -/
def Shape.Gives (s : Shape α) (depth : ℕ) (a : α) : Prop :=
  ∃ cs rest, s.readText depth cs = .ok (a, rest)

/-- Every field is given by a text, or it is what it is when it is missing. -/
def Fields.Given : {β : Type} → Fields β → ℕ → β → Prop
  | _, .nil, _, _ => True
  | _, .cons _ s absent rest, depth, (a, b) =>
    (absent = some a ∨ s.Gives depth a) ∧ rest.Given depth b

/-- Every field found so far is given by a text. -/
def Fields.Found : {β : Type} → (fs : Fields β) → ℕ → fs.Slots → Prop
  | _, .nil, _, _ => True
  | _, .cons (α := α) _ s _ rest, depth, slots =>
    let slots : Option α × rest.Slots := slots
    (∀ a, slots.1 = some a → s.Gives depth a) ∧ rest.Found depth slots.2

/-! ## Values of one part -/

theorem fits_of_gives {v : Json} (h : Shape.json.Gives depth v) : v.Fits depth := by
  obtain ⟨cs, rest, hread⟩ := h
  exact Json.fits_of_readValue hread

/-- No scalar stands where none is wanted. -/
theorem readScalarAs_refuseScalar (expected expected' : String) (a : α) :
    Json.readScalarAs expected (refuseScalar expected') cs ≠ .ok (a, rest) := by
  intro h
  unfold Json.readScalarAs at h
  split at h
  · simp at h
  · simp at h
  · simp at h
  · split at h
    · simp at h
    · obtain ⟨⟨s, cs'⟩, -, h⟩ := bind_eq_ok.mp h
      simp [refuseScalar] at h

theorem gives_of_list {s : Shape α} {as : List α} (h : (Shape.list s).Gives depth as) :
    ∃ d, depth = d + 1 ∧ ∀ a ∈ as, s.Gives d a := by
  obtain ⟨cs, rest, hread⟩ := h
  unfold Shape.readText at hread
  split at hread
  · cases depth with
    | zero => simp at hread
    | succ d => exact ⟨d, rfl, Json.read_of_mem_readArray hread⟩
  · exact absurd hread (readScalarAs_refuseScalar _ _ as)

/-! ## Records -/

theorem Fields.given_of_collect : {β : Type} → (fs : Fields β) → {slots : fs.Slots} → {b : β} →
    fs.Found depth slots → fs.collect slots = .ok b → fs.Given depth b
  | _, .nil, _, _, _, _ => trivial
  | _, .cons (α := α) name s absent rest, slots, (a, b), hfound, h => by
    obtain ⟨hfirst, hrest⟩ := hfound
    obtain ⟨a', hvalue, h⟩ := bind_eq_ok.mp h
    obtain ⟨b', hcollect, h⟩ := bind_eq_ok.mp h
    obtain ⟨rfl, rfl⟩ := Prod.mk.inj (Except.ok.inj h)
    refine ⟨?_, rest.given_of_collect hrest hcollect⟩
    unfold fieldValue at hvalue
    split at hvalue
    · next hslot =>
      obtain rfl := Except.ok.inj hvalue
      exact .inr (hfirst _ hslot)
    · obtain rfl := Except.ok.inj hvalue
      exact .inl rfl
    · simp at hvalue

theorem Fields.found_empty : {β : Type} → (fs : Fields β) → fs.Found depth fs.empty
  | _, .nil => trivial
  | _, .cons _ _ _ rest => ⟨by simp [Fields.empty], rest.found_empty⟩

theorem Fields.found_readNamed : {β : Type} → (fs : Fields β) → {slots slots' : fs.Slots} →
    {name : String} → {cs rest : List Char} → fs.Found depth slots →
    fs.readNamed depth slots name cs = .ok (slots', rest) → fs.Found depth slots'
  | _, .nil, _, _, _, _, _, _, _ => trivial
  | _, .cons (α := α) field s absent rest, slots, slots', name, cs, cs', hfound, h => by
    obtain ⟨hfirst, hrest⟩ := hfound
    unfold Fields.readNamed at h
    dsimp only at h
    split at h
    · split at h
      · simp at h
      · obtain ⟨⟨a, cs₁⟩, hread, h⟩ := bind_eq_ok.mp h
        obtain ⟨rfl, rfl⟩ := Prod.mk.inj (Except.ok.inj h)
        obtain ⟨cs₂, -, hread⟩ := bind_eq_ok.mp (lift_eq_ok.mp hread)
        refine ⟨fun a' ha' => ?_, hrest⟩
        obtain rfl : a = a' := Option.some.inj ha'
        exact ⟨cs₂, _, hread⟩
    · obtain ⟨⟨more, cs₁⟩, hread, h⟩ := bind_eq_ok.mp h
      obtain ⟨rfl, rfl⟩ := Prod.mk.inj (Except.ok.inj h)
      exact ⟨hfirst, rest.found_readNamed hrest hread⟩

theorem Fields.given_of_readItems : {β : Type} → (fs : Fields β) → {title : String} →
    {index : ℕ} → {cs rest : List Char} → {b : β} →
    fs.readItems depth title index cs = .ok (b, rest) → fs.Given depth b
  | _, .nil, _, _, _, _, _, _ => trivial
  | _, .cons _ s absent rest, title, index, cs, cs', (a, b), h => by
    obtain ⟨⟨more, cs₁⟩, -, h⟩ := bind_eq_ok.mp h
    -- whatever the first field is, the fields after it are read
    suffices hfirst : ∃ a' cs₂, (absent = some a' ∨ s.Gives depth a') ∧
        (rest.readItems depth title (index + 1) cs₂ >>=
          fun r => .ok ((a', r.1), r.2)) = .ok ((a, b), cs') by
      obtain ⟨a', cs₂, hvalue, h⟩ := hfirst
      obtain ⟨⟨b', cs₃⟩, hitems, h⟩ := bind_eq_ok.mp h
      obtain ⟨rfl, rfl⟩ := Prod.mk.inj (Prod.mk.inj (Except.ok.inj h)).1
      exact ⟨hvalue, rest.given_of_readItems hitems⟩
    dsimp only at h
    split at h
    · obtain ⟨⟨a', cs₂⟩, hread, h⟩ := bind_eq_ok.mp h
      exact ⟨a', cs₂, .inr ⟨_, _, lift_eq_ok.mp hread⟩, h⟩
    · split at h
      · exact ⟨_, cs₁, .inl rfl, h⟩
      · simp [bind, Except.bind] at h

/-- A record that a text gives is built from fields that the text gives. -/
theorem gives_of_record {title : String} {fields : Fields β} {build : β → α} {parts : α → β} {a : α}
    (h : (Shape.record title fields build parts).Gives depth a) :
    ∃ d b, depth = d + 1 ∧ a = build b ∧ fields.Given d b := by
  obtain ⟨cs, rest, hread⟩ := h
  unfold Shape.readText at hread
  split at hread
  · cases depth with
    | zero => simp at hread
    | succ d =>
      obtain ⟨⟨b, rest'⟩, hclosed, hbuild⟩ := map_eq_ok.mp hread
      obtain ⟨_, hitems⟩ := of_closed hclosed
      exact ⟨d, b, rfl, (Prod.mk.inj hbuild).1.symm, fields.given_of_readItems hitems⟩
  · cases depth with
    | zero => simp at hread
    | succ d =>
      obtain ⟨slots, hfound, hfinish⟩ := Json.readObject_induction
        (fun _ _ _ _ _ hslots hstep => fields.found_readNamed hslots hstep) fields.found_empty hread
      obtain ⟨b, hcollect, rfl⟩ := map_eq_ok.mp hfinish
      exact ⟨d, b, rfl, rfl, fields.given_of_collect hfound hcollect⟩
  · exact absurd hread (readScalarAs_refuseScalar _ _ a)

/-- A record is given by a text with an opening bracket. -/
theorem mem_of_readText_record {title : String} {fields : Fields β} {build : β → α} {parts : α → β}
    {a : α} (h : (Shape.record title fields build parts).readText depth cs = .ok (a, rest)) :
    '[' ∈ cs ∨ '\x7b' ∈ cs := by
  unfold Shape.readText at h
  have hmem {c : Char} {cs' : List Char} (hskip : Json.skipSpace cs = c :: cs') : c ∈ cs :=
    (List.dropWhile_sublist _).mem (hskip ▸ List.mem_cons_self)
  split at h
  · next hskip => exact .inl (hmem hskip)
  · next hskip => exact .inr (hmem hskip)
  · exact absurd h (readScalarAs_refuseScalar _ _ a)

/-- What a whole text gives, its reader gives at the start of it. -/
theorem Shape.readText_of_ofText {s : Shape α} {text : String} {a : α} (h : s.ofText text = .ok a) :
    ∃ rest, s.readText Json.depthLimit text.toList = .ok (a, rest) := by
  unfold Shape.ofText Json.readText Json.atEnd at h
  cases hread : s.readText Json.depthLimit text.toList with
  | error e => simp [hread, bind, Except.bind, Except.mapError] at h
  | ok r =>
    obtain ⟨a', rest⟩ := r
    simp only [hread, bind, Except.bind] at h
    split at h
    · obtain rfl : a' = a := Except.ok.inj h
      exact ⟨rest, rfl⟩
    · simp [Except.mapError] at h

/-! ## More values read back -/

section ReadsBack

variable {s : Shape α}

/-- What the text is read as, behind white space. -/
theorem skipSpace_chars {space : List Char} (hspace : ∀ c ∈ space, Json.isSpace c = true)
    (l : Layout) (k : ℕ) (v : Json) (rest : List Char) :
    Json.skipSpace (space ++ v.chars l k ++ rest) = v.chars l k ++ rest := by
  obtain ⟨c, cs, hcs, hblank, -⟩ := Json.startsItem_chars l k v
  rw [List.append_assoc, Json.skipSpace_append hspace, hcs, List.cons_append,
    Json.skipSpace_cons hblank]

theorem readsBack_flag (b : Bool) : (Shape.leaf .flag).ReadsBack depth b := by
  have haccept : Leaf.flag.accept (.flag b) = .ok b := rfl
  refine readsBack_leaf (fun l k rest _ => ?_) haccept
  cases b <;> rfl

theorem readsBack_json {v : Json} (hv : v.Fits depth) (hfloat : v.isFloatFree = true) :
    Shape.json.ReadsBack depth v :=
  fun _ _ _ _ hl hspace hrest => Json.readValue_chars hv hfloat hl hspace hrest

theorem readsBack_none : (Shape.optional s).ReadsBack depth none := by
  intro l k space rest _ hspace _
  unfold Shape.readText
  rw [skipSpace_chars hspace]
  rfl

/-- A value whose text does not start like null is read back where null may stand. -/
theorem readsBack_some {a : α} (h : s.ReadsBack depth a)
    (hhead : ∀ l k, ((s.write a).chars l k).head? ≠ some 'n') :
    (Shape.optional s).ReadsBack depth (some a) := by
  intro l k space rest hl hspace hrest
  have hread : s.readText depth ((s.write a).chars l k ++ rest) = .ok (a, rest) :=
    h l k [] rest hl (by simp) hrest
  unfold Shape.readText
  rw [Shape.write, skipSpace_chars hspace]
  split
  · next heq =>
    obtain ⟨c, cs, hcs, -⟩ := Json.startsItem_chars l k (s.write a)
    refine absurd ?_ (hhead l k)
    rw [hcs, List.cons_append] at heq
    rw [hcs, (List.cons.inj heq).1]
    rfl
  · rw [hread]
    rfl

theorem readsBack_list {as : List α} (h : ∀ a ∈ as, s.ReadsBack depth a) :
    (Shape.list s).ReadsBack (depth + 1) as := by
  intro l k space rest hl hspace _
  have hitems : List.Forall₂ (Json.ReadsItem (s.readText depth) l (k + 1)) (as.map s.write) as := by
    refine List.forall₂_map_left_iff.mpr (List.forall₂_same.mpr fun a ha rest hrest => ?_)
    exact h a ha l (k + 1) [] rest hl (by simp) hrest
  obtain ⟨cs, hcs, hread⟩ := Json.readArray_chars hl hitems rest
  rw [Shape.write, Shape.readText, skipSpace_chars hspace, hcs]
  exact hread

end ReadsBack

end ChangeRelay
