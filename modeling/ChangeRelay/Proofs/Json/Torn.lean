import ChangeRelay.Proofs.Json.Readable
import Mathlib.Data.List.TakeWhile
/-!
# Texts that break off

A text that was written may break off anywhere. Of what is there, no string and no object can be
read. A number can, as nothing tells where it should have ended; but then nothing is left behind it,
and the object that it stands in breaks off with it.
-/

namespace ChangeRelay.Json

/-! ## Beginnings of a text -/

section

variable {α β ε : Type}

/-- The reader gives nothing of any beginning of the text. -/
def Refuses (read : List Char → Except ε β) (text : List Char) : Prop :=
  ∀ p, p <+: text → ∀ b, read p ≠ .ok b

/-- The reader leaves nothing behind what it gives of a beginning of the text. -/
def Exhausts (read : List Char → Except ε (α × List Char)) (text : List Char) : Prop :=
  ∀ p, p <+: text → ∀ a rest, read p = .ok (a, rest) → rest = []

/-- A beginning of two texts ends in the first one or goes on in the second one. -/
theorem prefix_append_cases {p a b : List Char} (h : p <+: a ++ b) :
    p <+: a ∨ ∃ q, p = a ++ q ∧ q <+: b := by
  rcases List.prefix_or_prefix_of_prefix h (List.prefix_append a b) with hp | ⟨q, rfl⟩
  · exact .inl hp
  · exact .inr ⟨q, rfl, (List.prefix_append_right_inj a).mp h⟩

end

variable {p text space rest : List Char}

theorem skipSpace_of_isPrefix (hspace : ∀ c ∈ space, isSpace c = true) (h : p <+: space) :
    skipSpace p = [] :=
  List.dropWhile_eq_nil_iff.mpr fun c hc => hspace c (h.subset hc)

theorem EndsValue.of_isPrefix (h : EndsValue rest) (hp : p <+: rest) : EndsValue p := by
  obtain ⟨q, rfl⟩ := hp
  intro c hc
  cases p with
  | nil => simp at hc
  | cons d p => exact h c hc

/-! ## Strings -/

theorem readStringBody_nil (r : List Char × List Char) : readStringBody [] ≠ .ok r := by
  simp [readStringBody]

/-- A code unit takes four digits. -/
theorem readUnit_short (h : text.length < 4) (r : ℕ × List Char) : readUnit text ≠ .ok r := by
  unfold readUnit
  dsimp only
  split
  · simp
  · split
    · simp only [List.length_cons] at h
      omega
    · simp

theorem readStringBody_backslash_ne (h : ∀ r, readEscape text ≠ .ok r)
    (r : List Char × List Char) : readStringBody ('\\' :: text) ≠ .ok r := by
  rw [readStringBody]
  split
  · simp
  · next heq => exact absurd heq (h _)

/-- A character stands for itself, or it is written with a backslash and a letter or with its
code. -/
theorem escape_cases (c : Char) : escape c = [c] ∨ (∃ d, escape c = ['\\', d]) ∨
    ∃ a b, escape c = ['\\', 'u', '0', '0', a, b] := by
  unfold escape
  split
  iterate 7 exact .inr (.inl ⟨_, rfl⟩)
  · split
    · exact .inr (.inr ⟨_, _, rfl⟩)
    · exact .inl rfl

theorem refuses_escape (c : Char) : Refuses readStringBody (escape c) := by
  intro p hp r
  by_cases hwhole : p = escape c
  · have hread := readStringBody_escape c []
    rw [List.append_nil] at hread
    rw [hwhole, hread]
    simp [readStringBody, Except.map]
  -- a backslash is there, and not all of what should follow it
  rcases escape_cases c with hplain | ⟨d, hshort⟩ | ⟨a, b, hcode⟩
  · rw [hplain, List.prefix_cons_iff] at hp
    rcases hp with rfl | ⟨q, rfl, hq⟩
    · exact readStringBody_nil r
    · rw [List.prefix_nil.mp hq] at hwhole
      exact absurd hplain.symm hwhole
  · rw [hshort, List.prefix_cons_iff] at hp
    rcases hp with rfl | ⟨q, rfl, hq⟩
    · exact readStringBody_nil r
    rcases List.prefix_cons_iff.mp hq with rfl | ⟨t, rfl, ht⟩
    · exact readStringBody_backslash_ne (by simp [readEscape]) r
    · rw [List.prefix_nil.mp ht] at hwhole
      exact absurd hshort.symm hwhole
  · rw [hcode, List.prefix_cons_iff] at hp
    rcases hp with rfl | ⟨q, rfl, hq⟩
    · exact readStringBody_nil r
    refine readStringBody_backslash_ne (fun s hs => ?_) r
    rcases List.prefix_cons_iff.mp hq with rfl | ⟨t, rfl, ht⟩
    · simp [readEscape] at hs
    have hlength : t.length < 4 := by
      refine Nat.lt_of_le_of_ne ht.length_le fun hlength => hwhole ?_
      rw [hcode, ht.eq_of_length hlength]
    rw [readEscape, if_pos rfl, readCodePoint] at hs
    obtain ⟨u, hu, -⟩ := bind_eq_ok.mp hs
    exact readUnit_short hlength u hu

/-- Without its closing quote a string is none. -/
theorem refuses_flatMap_escape (cs : List Char) : Refuses readStringBody (cs.flatMap escape) := by
  induction cs with
  | nil =>
    intro p hp r
    rw [List.prefix_nil.mp hp]
    exact readStringBody_nil r
  | cons c cs ih =>
    intro p hp r hread
    rw [List.flatMap_cons] at hp
    rcases prefix_append_cases hp with hp | ⟨q, rfl, hq⟩
    · exact refuses_escape c p hp r hread
    · rw [readStringBody_escape] at hread
      obtain ⟨s, hs, -⟩ := map_eq_ok.mp hread
      exact ih q hq s hs

theorem refuses_readString (s : String) : Refuses readString (s.toList.flatMap escape) := by
  intro p hp r hread
  obtain ⟨t, ht, -⟩ := map_eq_ok.mp hread
  exact refuses_flatMap_escape s.toList p hp t ht

/-- Of a string in quotes that breaks off nothing is read. -/
theorem exhausts_quoted (s : String) {sc : Scalar} (hp : p <+: quoted s)
    (hread : readScalar? p = some (.ok (sc, rest))) : rest = [] := by
  rw [quoted, List.cons_append, List.prefix_cons_iff] at hp
  rcases hp with rfl | ⟨q, rfl, hq⟩
  · simp [readScalar?] at hread
  · obtain ⟨⟨t, left⟩, ht, heq⟩ := map_eq_ok.mp (Option.some.inj hread)
    obtain rfl := (Prod.mk.inj heq).2
    rcases prefix_append_cases hq with hq | ⟨tail, rfl, htail⟩
    · exact absurd ht (refuses_readString s _ hq _)
    · rcases List.prefix_cons_iff.mp htail with rfl | ⟨more, rfl, hmore⟩
      · rw [List.append_nil] at ht
        exact absurd ht (refuses_readString s _ (List.prefix_refl _) _)
      · rw [readString_escaped] at ht
        rw [← (Prod.mk.inj (Except.ok.inj ht)).2]
        exact List.prefix_nil.mp hmore

/-! ## Integers -/

theorem rest_of_readAfterWhole {negative : Bool} {digits : List Char} {n : Number}
    (h : readAfterWhole negative digits [] = .ok (n, rest)) : rest = [] := by
  have htoNumber {d : Decimal} (h : d.toNumber negative [] = .ok (n, rest)) : rest = [] := by
    unfold Decimal.toNumber at h
    split at h
    · exact (Prod.mk.inj (Except.ok.inj h)).2.symm
    · simp at h
  rw [readAfterWhole] at h
  rcases ite_eq_iff.mp h with ⟨-, hint⟩ | ⟨-, hfloat⟩
  · exact (Prod.mk.inj (Except.ok.inj hint)).2.symm
  · exact htoNumber hfloat

/-- Digits that break off are read to their end. -/
theorem exhausts_digits {digits : List Char} (hdigits : ∀ c ∈ digits, isDigit c = true)
    {sc : Scalar} (hp : p <+: digits) (hread : readScalar? p = some (.ok (sc, rest))) :
    rest = [] := by
  have hall : ∀ c ∈ p, isDigit c = true := fun c hc => hdigits c (hp.subset hc)
  cases p with
  | nil => simp [readScalar?] at hread
  | cons c cs =>
    obtain ⟨hc, hcs⟩ := List.forall_mem_cons.mp hall
    rw [readScalar?_numeral (.inr hc)] at hread
    obtain ⟨⟨n, left⟩, hn, heq⟩ := map_eq_ok.mp (Option.some.inj hread)
    obtain rfl := (Prod.mk.inj heq).2
    have hunsigned : readUnsigned false (c :: cs) = .ok (n, left) := by
      unfold readNumber at hn
      split at hn
      · next hminus =>
        rw [(List.cons.inj hminus).1] at hc
        exact absurd hc (by decide)
      · exact hn
    have htake : (c :: cs).takeWhile isDigit = c :: cs := List.takeWhile_eq_self_iff.mpr hall
    have hdrop : (c :: cs).dropWhile isDigit = [] := List.dropWhile_eq_nil_iff.mpr hall
    unfold readUnsigned at hunsigned
    split at hunsigned
    · next heq => simp at heq
    · next heq =>
      obtain ⟨-, rfl⟩ := List.cons.inj heq
      split at hunsigned
      · simp at hunsigned
      · next hnone =>
        cases cs with
        | nil => exact rest_of_readAfterWhole hunsigned
        | cons d cs => simp [hcs] at hnone
    · next heq =>
      obtain ⟨rfl, rfl⟩ := List.cons.inj heq
      rw [if_pos hc, htake, hdrop] at hunsigned
      exact rest_of_readAfterWhole hunsigned

/-! ## Members -/

section Members

variable {σ α : Type} {l : Layout} {k fuel : ℕ} {members : List (String × Json)} {s s' : σ}
  {step : σ → String → List Char → Except Trouble (σ × List Char)} {first : Bool}

/-- Reads a member behind the opening quote of its name, and the members after it. -/
def readOn (step : σ → String → List Char → Except Trouble (σ × List Char)) (fuel : ℕ) (s : σ)
    (cs : List Char) : Except Trouble (σ × List Char) := do
  let (name, cs) ← lift (readString cs)
  let (s, cs) ← step s name cs
  readMembers step fuel false s cs

theorem readMembers_succ (cs : List Char) : readMembers step (fuel + 1) first s cs =
    lift (nextMember first cs) >>= fun r => if r.1 then readOn step fuel s r.2 else .ok (s, r.2) :=
  rfl

/-- Where no member follows, there must at least be a closing bracket. -/
theorem nextMember_blank (h : skipSpace p = []) (r : Bool × List Char) :
    nextMember first p ≠ .ok r := by
  rw [nextMember, h]
  simp

theorem readMembers_blank (h : skipSpace p = []) (r : σ × List Char) :
    readMembers step fuel first s p ≠ .ok r := by
  cases fuel with
  | zero => simp [readMembers]
  | succ fuel =>
    intro hread
    obtain ⟨next, hnext, -⟩ := bind_eq_ok.mp hread
    exact nextMember_blank h next (lift_eq_ok.mp hnext)

/-- A name stands behind white space, and behind a comma unless it is the first one. -/
theorem refuses_of_readOn (hspace : ∀ c ∈ space, isSpace c = true)
    (h : Refuses (readOn step fuel s) text) :
    Refuses (readMembers step (fuel + 1) true s) (space ++ '"' :: text) ∧
      Refuses (readMembers step (fuel + 1) false s) (',' :: (space ++ '"' :: text)) := by
  have hcases (p : List Char) (hp : p <+: space ++ '"' :: text) :
      skipSpace p = [] ∨ ∃ q, p = space ++ '"' :: q ∧ q <+: text := by
    rcases prefix_append_cases hp with hp | ⟨q, rfl, hq⟩
    · exact .inl (skipSpace_of_isPrefix hspace hp)
    · rcases List.prefix_cons_iff.mp hq with rfl | ⟨t, rfl, ht⟩
      · rw [List.append_nil]
        exact .inl (skipSpace_of_isPrefix hspace (List.prefix_refl _))
      · exact .inr ⟨t, rfl, ht⟩
  constructor
  · intro p hp r
    rcases hcases p hp with hblank | ⟨q, rfl, hq⟩
    · exact readMembers_blank hblank r
    · rw [readMembers_succ, nextMember_first hspace]
      exact h q hq r
  · intro p hp r
    rcases List.prefix_cons_iff.mp hp with rfl | ⟨t, rfl, ht⟩
    · exact readMembers_blank rfl r
    rcases hcases t ht with hblank | ⟨q, rfl, hq⟩
    · intro hread
      obtain ⟨next, hnext, -⟩ := bind_eq_ok.mp hread
      have hcomma := lift_eq_ok.mp hnext
      rw [nextMember, skipSpace_cons (by decide)] at hcomma
      simp [hblank] at hcomma
    · rw [readMembers_succ, nextMember_comma hspace]
      exact h q hq r

/-- A member that breaks off, in its name or in its value, is not read, and neither are the members
after it. -/
theorem refuses_readOn {name : String} {v : Json} {more : List Char}
    (hstep : ∀ rest, EndsValue rest →
      step s name (l.colon ++ chars l k v ++ rest) = .ok (s', rest))
    (hvalue : Exhausts (step s name) (l.colon ++ chars l k v)) (hends : EndsValue more)
    (hmore : Refuses (readMembers step fuel false s') more) :
    Refuses (readOn step fuel s)
      (name.toList.flatMap escape ++ '"' :: (l.colon ++ chars l k v ++ more)) := by
  intro p hp r hread
  obtain ⟨⟨name', cs⟩, hname, hread⟩ := bind_eq_ok.mp hread
  have hname := lift_eq_ok.mp hname
  obtain ⟨⟨t, left⟩, ht, hread⟩ := bind_eq_ok.mp hread
  rcases prefix_append_cases hp with hp | ⟨q, rfl, hq⟩
  · exact refuses_readString name p hp _ hname
  rcases List.prefix_cons_iff.mp hq with rfl | ⟨value, rfl, hv⟩
  · rw [List.append_nil] at hname
    exact refuses_readString name _ (List.prefix_refl _) _ hname
  rw [readString_escaped] at hname
  obtain ⟨rfl, rfl⟩ := Prod.mk.inj (Except.ok.inj hname)
  rcases prefix_append_cases hv with hv | ⟨behind, rfl, hbehind⟩
  · obtain rfl := hvalue value hv t left ht
    exact readMembers_blank rfl r hread
  · rw [hstep behind (hends.of_isPrefix hbehind)] at ht
    obtain ⟨rfl, rfl⟩ := Prod.mk.inj (Except.ok.inj ht)
    exact hmore behind hbehind r hread

/-- Members without the closing bracket behind them are not read, wherever they break off. -/
theorem refuses_memberChars (hl : l.Spaced) (h : Feeds step l k s members s')
    (hvalues : ∀ m ∈ members, ∀ s, Exhausts (step s m.1) (l.colon ++ chars l k m.2))
    (hspace : ∀ c ∈ space, isSpace c = true) :
    Refuses (readMembers step fuel false s) (memberChars l k members ++ space) := by
  induction h generalizing fuel with
  | nil s =>
    intro p hp r
    exact readMembers_blank (skipSpace_of_isPrefix hspace hp) r
  | @cons s s₁ s₂ name v members hstep _ ih =>
    obtain ⟨hvalue, hvalues⟩ := List.forall_mem_cons.mp hvalues
    cases fuel with
    | zero =>
      intro p _ r
      simp [readMembers]
    | succ fuel =>
      have hends : EndsValue (memberChars l k members ++ space) :=
        (endsValue_members hspace members []).of_isPrefix (List.prefix_append _ _)
      have hmore : Refuses (readMembers step fuel false s₁) (memberChars l k members ++ space) :=
        ih hvalues
      have hread := refuses_readOn hstep (hvalue s) hends hmore
      have htext := (refuses_of_readOn (hl.gap k) hread).2
      rw [memberChars, quoted]
      simpa only [List.cons_append, List.append_assoc, List.nil_append] using htext

/-- An object without its closing bracket is not read, wherever it breaks off. -/
theorem refuses_readObject {finish : σ → Except Mismatch α} (hl : l.Spaced)
    (h : Feeds step l (k + 1) s members s')
    (hvalues : ∀ m ∈ members, ∀ s, Exhausts (step s m.1) (l.colon ++ chars l (k + 1) m.2)) :
    ∃ body, chars l k (.obj members) = '\x7b' :: body ++ ['\x7d'] ∧
      Refuses (readObject step s finish) body := by
  -- reading an object starts with reading its members
  have hobject {body : List Char}
      (hbody : ∀ fuel, Refuses (readMembers step (fuel + 1) true s) body) :
      Refuses (readObject step s finish) body := by
    intro p hp a hread
    unfold readObject closed at hread
    split at hread
    · next heq =>
      obtain ⟨r, hr, -⟩ := bind_eq_ok.mp heq
      exact hbody p.length p hp r hr
    · simp at hread
    · simp at hread
  cases h with
  | nil =>
    refine ⟨[], by rw [chars]; rfl, hobject fun fuel p hp r => ?_⟩
    rw [List.prefix_nil.mp hp]
    exact readMembers_blank rfl r
  | @cons _ s₁ _ name v members hstep htail =>
    obtain ⟨hvalue, hvalues⟩ := List.forall_mem_cons.mp hvalues
    refine ⟨l.gap (k + 1) ++ '"' :: (name.toList.flatMap escape ++ '"' :: (l.colon ++
      chars l (k + 1) v ++ (memberChars l (k + 1) members ++ l.gap k))), ?_, hobject fun fuel => ?_⟩
    · rw [chars, quoted]
      simp only [List.cons_append, List.append_assoc, List.nil_append]
    · have hends : EndsValue (memberChars l (k + 1) members ++ l.gap k) :=
        (endsValue_members (hl.gap k) members []).of_isPrefix (List.prefix_append _ _)
      have hmore : Refuses (readMembers step fuel false s₁)
          (memberChars l (k + 1) members ++ l.gap k) :=
        refuses_memberChars hl htail hvalues (hl.gap k)
      exact (refuses_of_readOn (hl.gap (k + 1)) (refuses_readOn hstep (hvalue s) hends hmore)).1

end Members

end ChangeRelay.Json
