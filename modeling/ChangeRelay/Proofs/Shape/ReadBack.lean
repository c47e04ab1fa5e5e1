import ChangeRelay.Proofs.Json.ReadBack
import ChangeRelay.Proofs.Time.Timestamp
import ChangeRelay.Shape.OfText
import ChangeRelay.Shape.ToJson
import Mathlib.Data.List.TakeWhile
/-!
# Documents read back

A value that is written by its shape is read from the text as the same value, in every layout that
puts white space between the parts. A record is read back when each of its fields is and no two of
them have one name.
-/

namespace ChangeRelay

open Json (EndsValue Feeds Layout)

variable {α β σ : Type} {depth k : ℕ} {l : Layout} {space rest : List Char}

/-- The value is read back wherever it stands, in every layout. -/
def Shape.ReadsBack (s : Shape α) (depth : ℕ) (a : α) : Prop :=
  ∀ (l : Layout) (k : ℕ) (space rest : List Char), l.Spaced → (∀ c ∈ space, Json.isSpace c = true) →
    EndsValue rest → s.readText depth (space ++ (s.write a).chars l k ++ rest) = .ok (a, rest)

/-- The value is read back whatever follows it. -/
def Shape.Delimited (s : Shape α) (depth : ℕ) (a : α) : Prop :=
  ∀ (l : Layout) (k : ℕ) (space rest : List Char), l.Spaced → (∀ c ∈ space, Json.isSpace c = true) →
    s.readText depth (space ++ (s.write a).chars l k ++ rest) = .ok (a, rest)

theorem Shape.Delimited.readsBack {s : Shape α} {a : α} (h : s.Delimited depth a) :
    s.ReadsBack depth a :=
  fun l k space rest hl hspace _ => h l k space rest hl hspace

/-- The text of a value, whatever its layout, gives the value. -/
theorem Shape.ofText_chars {s : Shape α} {a : α} (h : s.ReadsBack Json.depthLimit a)
    (hl : l.Spaced) : s.ofText (String.ofList ((s.write a).chars l 0)) = .ok a := by
  have hread := h l 0 [] [] hl (by simp) Json.endsValue_nil
  rw [List.nil_append, List.append_nil] at hread
  rw [Shape.ofText, String.toList_ofList, Json.readText, hread]
  rfl

/-- After a value that is read, nothing but white space may be left. -/
theorem Json.readText_of_left {read : List Char → Except Json.Failure (α × List Char)}
    {text : List Char} {a : α} {c : Char} (hread : read text = .ok (a, rest)) (hc : c ∈ rest)
    (hspace : Json.isSpace c = false) : ∃ fault, Json.readText read text = .error fault := by
  have hleft : Json.skipSpace rest ≠ [] := by
    intro hnil
    have hall := List.dropWhile_eq_nil_iff.mp hnil c hc
    simp [hspace] at hall
  obtain ⟨d, more, hmore⟩ := List.exists_cons_of_ne_nil hleft
  rw [Json.readText, Json.atEnd, hread]
  simp only [bind, Except.bind, hmore]
  exact ⟨_, rfl⟩

/-! ## Leaves -/

theorem Json.readScalarAs_of_readScalar? {expected : String} {accept : Scalar → Except Mismatch α}
    {cs : List Char} {sc : Scalar} {a : α} (hspace : ∀ c ∈ space, Json.isSpace c = true)
    (hread : Json.readScalar? cs = some (.ok (sc, rest))) (haccept : accept sc = .ok a) :
    Json.readScalarAs expected accept (space ++ cs) = .ok (a, rest) := by
  obtain ⟨c, cs, rfl, hblank, harray, hobject⟩ := Json.exists_head_of_readScalar? hread
  unfold Json.readScalarAs
  rw [Json.skipSpace_append hspace, Json.skipSpace_cons hblank]
  split
  · next heq => simp at heq
  · next heq => exact absurd (List.cons.inj heq).1 harray
  · next heq => exact absurd (List.cons.inj heq).1 hobject
  · next heq =>
    obtain ⟨rfl, rfl⟩ := List.cons.inj heq
    simp only [hread, bind, Except.bind, haccept]

/-- A leaf is read back when its text is that of a scalar it accepts as the value. -/
theorem readsBack_leaf {lf : Leaf α} {a : α} {sc : Scalar}
    (hread : ∀ (l : Layout) (k : ℕ) (rest : List Char), EndsValue rest →
      Json.readScalar? ((lf.write a).chars l k ++ rest) = some (.ok (sc, rest)))
    (haccept : lf.accept sc = .ok a) : (Shape.leaf lf).ReadsBack depth a := by
  intro l k space rest _ hspace hrest
  rw [List.append_assoc, Shape.write, Shape.readText]
  exact Json.readScalarAs_of_readScalar? hspace (hread l k rest hrest) haccept

theorem readScalar?_str (s : String) (l : Layout) (k : ℕ) (rest : List Char) :
    Json.readScalar? ((Json.str s).chars l k ++ rest) = some (.ok (.text s, rest)) := by
  rw [Json.chars]
  exact Json.readScalar?_quoted s rest

theorem readsBack_text (s : String) : (Shape.leaf .text).ReadsBack depth s :=
  readsBack_leaf (fun l k rest _ => readScalar?_str s l k rest) rfl

theorem readsBack_instant {t : Timestamp} (ht : t.Valid) :
    (Shape.leaf .instant).ReadsBack depth t := by
  have haccept : Leaf.instant.accept (.text t.text) = .ok t := by
    rw [Leaf.accept]
    simp only [Timestamp.read_text ht, Except.mapError]
  refine readsBack_leaf (fun l k rest _ => ?_) haccept
  rw [Leaf.write]
  exact readScalar?_str t.text l k rest

theorem accept_word (name : String) (n : UInt64) :
    (Leaf.word name).accept (.number (.int n.toNat)) = .ok n := by
  have hsize : (UInt64.size : Int) = 18446744073709551616 := rfl
  have hn : n.toNat < 18446744073709551616 := n.toNat_lt
  have hrange : (0 ≤ (n.toNat : Int) && (n.toNat : Int) ≤ UInt64.size - 1) = true := by
    rw [Bool.and_eq_true, decide_eq_true_eq, decide_eq_true_eq]
    omega
  unfold Leaf.accept integerIn
  simp only [hrange, if_true, Except.map, Int.toNat_natCast, UInt64.ofNat_toNat]

theorem readsBack_word (name : String) (n : UInt64) :
    (Shape.leaf (.word name)).ReadsBack depth n := by
  have hn : n.toNat < 18446744073709551616 := n.toNat_lt
  have hkeepable : Json.Keepable n.toNat := Json.keepable_iff.mpr ⟨by omega, by omega⟩
  refine readsBack_leaf (fun l k rest hrest => ?_) (accept_word name n)
  rw [Leaf.write, Json.ofNat, Json.chars]
  exact Json.readScalar?_integerChars hkeepable hrest

/-! ## Records -/

/-- The names of the fields. -/
def Fields.names : {β : Type} → Fields β → List String
  | _, .nil => []
  | _, .cons name _ _ rest => name :: rest.names

/-- Every field is read back. -/
def Fields.ReadBack : {β : Type} → Fields β → ℕ → β → Prop
  | _, .nil, _, _ => True
  | _, .cons _ s _ rest, depth, (a, b) => s.ReadsBack depth a ∧ rest.ReadBack depth b

/-- All fields found. -/
def Fields.full : {β : Type} → (fs : Fields β) → β → fs.Slots
  | _, .nil, _ => ()
  | _, .cons _ _ _ rest, (a, b) => (some a, rest.full b)

theorem Fields.collect_full : {β : Type} → (fs : Fields β) → (b : β) →
    fs.collect (fs.full b) = .ok b
  | _, .nil, _ => rfl
  | _, .cons name _ absent rest, (a, b) => by
    have hrest := rest.collect_full b
    show (do
      let a ← fieldValue name absent (some a)
      let b ← rest.collect (rest.full b)
      .ok (a, b)) = Except.ok (a, b)
    rw [hrest]
    rfl

variable {γ : Type} {name field : String} {s : Shape γ} {absent : Option γ} {fs : Fields β}

/-- A member of another name is left to the fields after the first. -/
theorem Fields.readNamed_of_ne (h : field ≠ name) (found : Option γ) (slots : fs.Slots)
    (cs : List Char) : (Fields.cons name s absent fs).readNamed depth (found, slots) field cs =
      (fs.readNamed depth slots field cs).map fun (more, cs) => ((found, more), cs) := by
  refine (if_neg h).trans ?_
  cases hread : fs.readNamed depth slots field cs with
  | error e => rfl
  | ok r => rfl

/-- A member of the first field's name fills it. -/
theorem Fields.readNamed_self (slots : fs.Slots) (cs : List Char) :
    (Fields.cons name s absent fs).readNamed depth (none, slots) name cs =
      (Json.lift (Json.readColon cs >>= s.readText depth)).map
        fun (a, cs) => ((some a, slots), cs) := by
  refine (if_pos rfl).trans ?_
  cases hread : Json.lift (Json.readColon cs >>= s.readText depth) with
  | error e => rfl
  | ok r => rfl

/-- Members that the first field does not have are read by the fields after it. -/
theorem Fields.feeds_cons {members : List (String × Json)} {slots slots' : fs.Slots}
    (found : Option γ) (hnames : ∀ m ∈ members, m.1 ≠ name)
    (h : Feeds (fs.readNamed depth) l k slots members slots') :
    Feeds ((Fields.cons name s absent fs).readNamed depth) l k (found, slots) members
      (found, slots') := by
  induction h with
  | nil slots => exact .nil _
  | @cons slots slots₁ slots₂ field v members hstep _ ih =>
    have hfield : field ≠ name := hnames (field, v) List.mem_cons_self
    refine .cons (fun rest hrest => ?_) (ih fun m hm => hnames m (List.mem_cons_of_mem _ hm))
    rw [Fields.readNamed_of_ne hfield, hstep rest hrest]
    rfl

theorem Fields.names_write : {β : Type} → (fs : Fields β) → (b : β) →
    (fs.write b).map (·.1) = fs.names
  | _, .nil, _ => rfl
  | _, .cons name _ _ rest, (_, b) => congrArg (name :: ·) (rest.names_write b)

/-- The value of a member is read behind its colon. -/
theorem Shape.ReadsBack.readColon {a : γ} (h : s.ReadsBack depth a) (hl : l.Spaced)
    (hrest : EndsValue rest) :
    (Json.readColon (l.colon ++ (s.write a).chars l k ++ rest) >>= s.readText depth) =
      .ok (a, rest) := by
  obtain ⟨space, hspace, hread⟩ := hl.readColon
  rw [List.append_assoc, hread, ← List.append_assoc]
  exact h l k space rest hl hspace hrest

/-- The fields of a record, as they are written, fill every slot. -/
theorem Fields.feeds_write (hl : l.Spaced) : {β : Type} → (fs : Fields β) → (b : β) →
    fs.names.Nodup → fs.ReadBack depth b →
    Feeds (fs.readNamed depth) l k fs.empty (fs.write b) (fs.full b)
  | _, .nil, (), _, _ => .nil _
  | _, .cons name s absent rest, (a, b), hnames, hread => by
    obtain ⟨ha, hb⟩ : s.ReadsBack _ a ∧ rest.ReadBack _ b := hread
    obtain ⟨hname, hnodup⟩ := List.nodup_cons.mp hnames
    have htail := Fields.feeds_write hl rest b hnodup hb
    refine .cons (fun tail htail => ?_) (Fields.feeds_cons (some a) (fun m hm heq => ?_) htail)
    · show (Fields.cons name s absent rest).readNamed depth (none, rest.empty) name _ = _
      rw [Fields.readNamed_self, ha.readColon hl htail]
      rfl
    · have hmem := List.mem_map_of_mem hm (f := Prod.fst)
      rw [rest.names_write b, heq] at hmem
      exact hname hmem

/-- A record is read back field by field, up to its closing bracket. -/
theorem delimited_record {title : String} {fields : Fields β} {build : β → α} {parts : α → β}
    {a : α} (hnames : fields.names.Nodup) (hfields : fields.ReadBack depth (parts a))
    (hbuild : build (parts a) = a) :
    (Shape.record title fields build parts).Delimited (depth + 1) a := by
  intro l k space rest hl hspace
  have hfinish : (fields.collect (fields.full (parts a))).map build = .ok a := by
    rw [Fields.collect_full, Except.map, hbuild]
  have hfeeds := Fields.feeds_write (k := k + 1) hl fields (parts a) hnames hfields
  obtain ⟨cs, hcs, hread⟩ : ∃ cs, Json.chars l k (.obj (fields.write (parts a))) ++ rest =
      '\x7b' :: cs ∧ Json.readObject (fields.readNamed depth) fields.empty
        (fun slots => (fields.collect slots).map build) cs = .ok (a, rest) :=
    Json.readObject_chars hl hfeeds hfinish rest
  rw [List.append_assoc, Shape.write, hcs, Shape.readText, Json.skipSpace_append hspace,
    Json.skipSpace_cons (by decide)]
  exact hread

theorem readsBack_record {title : String} {fields : Fields β} {build : β → α} {parts : α → β}
    {a : α} (hnames : fields.names.Nodup) (hfields : fields.ReadBack depth (parts a))
    (hbuild : build (parts a) = a) :
    (Shape.record title fields build parts).ReadsBack (depth + 1) a :=
  (delimited_record hnames hfields hbuild).readsBack

end ChangeRelay
