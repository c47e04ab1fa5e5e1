import ChangeRelay.Proofs.Json.Torn
import ChangeRelay.Proofs.Shape.ReadBack
/-!
# Documents that break off

A record whose text breaks off before its closing bracket is not read, if none of its fields leaves
anything behind what is read of its text when that breaks off.
-/

namespace ChangeRelay

open Json (Layout Refuses)

variable {α β γ : Type} {depth k : ℕ} {l : Layout} {space p rest : List Char}

/-- Nothing is left of a text of the value that breaks off, whatever is read of it. -/
def Shape.Exhausts (s : Shape α) (depth : ℕ) (a : α) : Prop :=
  ∀ (l : Layout) (k : ℕ) (space : List Char), l.Spaced → (∀ c ∈ space, Json.isSpace c = true) →
    Json.Exhausts (s.readText depth) (space ++ (s.write a).chars l k)

/-! ## Leaves -/

theorem Json.readScalarAs_blank {expected : String} {accept : Scalar → Except Mismatch α}
    {cs : List Char} (h : Json.skipSpace cs = []) (r : α × List Char) :
    Json.readScalarAs expected accept cs ≠ .ok r := by
  unfold Json.readScalarAs
  rw [h]
  simp

/-- A scalar is read from what stands behind the white space. -/
theorem Json.exists_of_readScalarAs {expected : String} {accept : Scalar → Except Mismatch α}
    {cs : List Char} {a : α} (h : Json.readScalarAs expected accept cs = .ok (a, rest)) :
    ∃ sc, Json.readScalar? (Json.skipSpace cs) = some (.ok (sc, rest)) := by
  unfold Json.readScalarAs at h
  split at h
  · simp at h
  · simp at h
  · simp at h
  · next heq =>
    rw [heq]
    split at h
    · simp at h
    · next hread =>
      obtain ⟨⟨sc, left⟩, hr, hsc⟩ := Json.bind_eq_ok.mp h
      cases haccept : accept sc with
      | error m => simp [haccept] at hsc
      | ok b =>
        simp only [haccept, Except.ok.injEq, Prod.mk.injEq] at hsc
        exact ⟨sc, by rw [hread, hr, hsc.2]⟩

/-- A leaf is used up when its text, which stands behind white space, is a scalar that is. -/
theorem exhausts_leaf {lf : Leaf α} {a : α}
    (h : ∀ (l : Layout) (k : ℕ) (p : List Char), p <+: (lf.write a).chars l k →
      Json.skipSpace p = p ∧ ∀ sc rest, Json.readScalar? p = some (.ok (sc, rest)) → rest = []) :
    (Shape.leaf lf).Exhausts depth a := by
  intro l k space _ hspace p hp b rest hread
  rw [Shape.readText] at hread
  rcases Json.prefix_append_cases hp with hp | ⟨q, rfl, hq⟩
  · exact absurd hread (Json.readScalarAs_blank (Json.skipSpace_of_isPrefix hspace hp) _)
  · obtain ⟨hskip, hrest⟩ := h l k q hq
    obtain ⟨sc, hsc⟩ := Json.exists_of_readScalarAs hread
    rw [Json.skipSpace_append hspace, hskip] at hsc
    exact hrest sc rest hsc

theorem skipSpace_of_isPrefix_cons {c : Char} {cs : List Char} (hc : Json.isSpace c = false)
    (h : p <+: c :: cs) : Json.skipSpace p = p := by
  rcases List.prefix_cons_iff.mp h with rfl | ⟨q, rfl, -⟩
  · rfl
  · exact Json.skipSpace_cons hc q

theorem exhausts_str {lf : Leaf α} {a : α} {s : String} (h : lf.write a = .str s) :
    (Shape.leaf lf).Exhausts depth a := by
  refine exhausts_leaf fun l k p hp => ?_
  rw [h, Json.chars] at hp
  exact ⟨skipSpace_of_isPrefix_cons (by decide) hp, fun sc rest => Json.exhausts_quoted s hp⟩

theorem exhausts_word (name : String) (n : UInt64) :
    (Shape.leaf (.word name)).Exhausts depth n := by
  refine exhausts_leaf fun l k p hp => ?_
  have hchars : ((Leaf.word name).write n).chars l k = Decimal.digitsOf n.toNat := by
    rw [Leaf.write, Json.ofNat, Json.chars]
    rfl
  have hdigits : ∀ c ∈ Decimal.digitsOf n.toNat, Json.isDigit c = true := by
    intro c hc
    rw [Json.isDigit_eq, Decimal.isDigit_of_mem_digitsOf hc]
  rw [hchars] at hp
  refine ⟨?_, fun sc rest => Json.exhausts_digits hdigits hp⟩
  cases p with
  | nil => rfl
  | cons c p =>
    have hc := hdigits c (hp.subset List.mem_cons_self)
    refine Json.skipSpace_cons (Bool.eq_false_iff.mpr fun hblank => ?_) p
    simp only [Json.isSpace, Bool.or_eq_true, decide_eq_true_eq] at hblank
    rcases hblank with ((rfl | rfl) | rfl) | rfl
    all_goals exact absurd hc (by decide)

/-! ## Records -/

/-- Of every field nothing is left. -/
def Fields.Exhausted : {β : Type} → Fields β → ℕ → β → Prop
  | _, .nil, _, _ => True
  | _, .cons _ s _ rest, depth, (a, b) => s.Exhausts depth a ∧ rest.Exhausted depth b

/-- Nothing is left of a member that breaks off behind its name. -/
theorem Shape.Exhausts.readColon {s : Shape γ} {a : γ} (h : s.Exhausts depth a) (hl : l.Spaced) :
    Json.Exhausts (fun cs => Json.readColon cs >>= s.readText depth)
      (l.colon ++ (s.write a).chars l k) := by
  obtain ⟨space, hcolon, hspace⟩ := hl.colon
  intro p hp b rest hread
  rw [hcolon, List.cons_append, List.prefix_cons_iff] at hp
  obtain ⟨cs, hcs, hread⟩ := Json.bind_eq_ok.mp hread
  rcases hp with rfl | ⟨q, rfl, hq⟩
  · simp [Json.readColon, Json.skipSpace] at hcs
  · rw [Json.readColon, Json.skipSpace_cons (by decide)] at hcs
    obtain rfl := Except.ok.inj hcs
    exact h l k space hl hspace q hq b rest hread

theorem Fields.exhausts_write (hl : l.Spaced) : {β : Type} → (fs : Fields β) → (b : β) →
    fs.names.Nodup → fs.Exhausted depth b → ∀ m ∈ fs.write b, ∀ slots : fs.Slots,
      Json.Exhausts (fs.readNamed depth slots m.1) (l.colon ++ m.2.chars l k)
  | _, .nil, (), _, _ => by simp [Fields.write]
  | _, .cons name s absent fs, (a, b), hnames, hfields => by
    obtain ⟨ha, hb⟩ : s.Exhausts depth a ∧ fs.Exhausted depth b := hfields
    obtain ⟨hname, hnodup⟩ := List.nodup_cons.mp hnames
    rintro m hm ⟨found, slots⟩ p hp slots' rest hread
    rcases List.mem_cons.mp hm with rfl | hlater
    · cases found with
      | some _ => simp [Fields.readNamed] at hread
      | none =>
        rw [Fields.readNamed_self] at hread
        obtain ⟨⟨c, left⟩, hc, heq⟩ := Json.map_eq_ok.mp hread
        obtain rfl := (Prod.mk.inj heq).2
        exact ha.readColon hl p hp c left (Json.lift_eq_ok.mp hc)
    · have hne : m.1 ≠ name := by
        rintro rfl
        exact hname (fs.names_write b ▸ List.mem_map_of_mem hlater)
      rw [Fields.readNamed_of_ne hne] at hread
      obtain ⟨⟨more, left⟩, hmore, heq⟩ := Json.map_eq_ok.mp hread
      obtain rfl := (Prod.mk.inj heq).2
      exact Fields.exhausts_write hl fs b hnodup hb m hlater slots p hp more left hmore

section Record

variable {title : String} {fields : Fields β} {build : β → α} {parts : α → β} {a : α}

/-- A record that breaks off is not read. -/
theorem refuses_record (hl : l.Spaced) (hspace : ∀ c ∈ space, Json.isSpace c = true)
    (hnames : fields.names.Nodup) (hread : fields.ReadBack depth (parts a))
    (hfields : fields.Exhausted depth (parts a)) :
    ∃ body, ((Shape.record title fields build parts).write a).chars l k = body ++ ['\x7d'] ∧
      Refuses ((Shape.record title fields build parts).readText (depth + 1)) (space ++ body) := by
  have hfeeds := Fields.feeds_write (k := k + 1) hl fields (parts a) hnames hread
  have hvalues := Fields.exhausts_write (k := k + 1) hl fields (parts a) hnames hfields
  obtain ⟨body, hbody, hrefuses⟩ : ∃ body, Json.chars l k (.obj (fields.write (parts a))) =
      '\x7b' :: body ++ ['\x7d'] ∧ Refuses (Json.readObject (fields.readNamed depth) fields.empty
        fun slots => (fields.collect slots).map build) body :=
    Json.refuses_readObject hl hfeeds hvalues
  refine ⟨'\x7b' :: body, hbody, fun p hp r hr => ?_⟩
  have hblank {q : List Char} (hq : Json.skipSpace q = []) :
      (Shape.record title fields build parts).readText (depth + 1) q ≠ .ok r := by
    rw [Shape.readText, hq]
    exact Json.readScalarAs_blank rfl r
  rcases Json.prefix_append_cases hp with hp | ⟨q, rfl, hq⟩
  · exact hblank (Json.skipSpace_of_isPrefix hspace hp) hr
  rcases List.prefix_cons_iff.mp hq with rfl | ⟨t, rfl, ht⟩
  · rw [List.append_nil] at hr
    exact hblank (Json.skipSpace_of_isPrefix hspace (List.prefix_refl _)) hr
  · rw [Shape.readText, Json.skipSpace_append hspace, Json.skipSpace_cons (by decide)] at hr
    exact hrefuses t ht r hr

theorem exhausts_record (hnames : fields.names.Nodup) (hread : fields.ReadBack depth (parts a))
    (hfields : fields.Exhausted depth (parts a)) (hbuild : build (parts a) = a) :
    (Shape.record title fields build parts).Exhausts (depth + 1) a := by
  intro l k space hl hspace p hp b rest hb
  obtain ⟨body, hbody, hrefuses⟩ :
      ∃ body, ((Shape.record title fields build parts).write a).chars l k = body ++ ['\x7d'] ∧
        Refuses ((Shape.record title fields build parts).readText (depth + 1)) (space ++ body) :=
    refuses_record hl hspace hnames hread hfields
  rw [hbody, ← List.append_assoc, List.prefix_concat_iff] at hp
  rcases hp with rfl | hp
  · -- the whole text is read, and nothing follows it
    have hdelimited : (Shape.record title fields build parts).Delimited (depth + 1) a :=
      delimited_record hnames hread hbuild
    have hwhole := hdelimited l k space [] hl hspace
    rw [hbody, List.append_nil, ← List.append_assoc, hb] at hwhole
    exact (Prod.mk.inj (Except.ok.inj hwhole)).2
  · exact absurd hb (hrefuses p hp _)

end Record

end ChangeRelay
