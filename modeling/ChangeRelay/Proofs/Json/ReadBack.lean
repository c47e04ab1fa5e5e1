import ChangeRelay.Json.Container
import ChangeRelay.Json.Printer
import ChangeRelay.Proofs.Decimal.Digits
/-!
# Reading back what was written

The readers of strings, of integers and of the members of objects undo what the printer does, in
every layout that puts white space between the parts. What follows a value must not go on with it.
-/

namespace ChangeRelay.Json

/-! ## Strings -/

theorem digit?_digit : ∀ n < 16, Hex.digit? (Hex.digit n) = some n := by
  decide

/-- Every character has a byte at least. -/
theorem length_le_byteLength (cs : List Char) : cs.length ≤ Utf8.byteLength cs := by
  induction cs with
  | nil => exact Nat.le_refl 0
  | cons c cs ih =>
    have hpos := Char.utf8Size_pos c
    rw [Utf8.byteLength, List.length_cons]
    omega

/-- The four digits of a code unit below 256. -/
theorem readUnit_digits {n : ℕ} (hn : n < 256) (rest : List Char) :
    readUnit ('0' :: '0' :: Hex.digit (n / 16) :: Hex.digit (n % 16) :: rest) = .ok (n, rest) := by
  have hlong := length_le_byteLength
    ('0' :: '0' :: Hex.digit (n / 16) :: Hex.digit (n % 16) :: rest)
  have hzero : Hex.digit? '0' = some 0 := rfl
  simp only [List.length_cons] at hlong
  rw [readUnit, if_neg (by omega)]
  simp only [hzero, digit?_digit (n / 16) (by omega), digit?_digit (n % 16) (by omega)]
  rw [show ((16 * 0 + 0) * 16 + n / 16) * 16 + n % 16 = n by omega]

/-- A character below the space is written by its code and read back. -/
theorem readCodePoint_digits {c : Char} (hc : c.toNat < 32) (rest : List Char) :
    readCodePoint ('0' :: '0' :: Hex.digit (c.toNat / 16) :: Hex.digit (c.toNat % 16) :: rest) =
      .ok (c, rest) := by
  have hlow : isTrailing c.toNat = false ∧ isLeading c.toNat = false := by
    simp only [isTrailing, isLeading, Bool.and_eq_false_iff, decide_eq_false_iff_not]
    omega
  rw [readCodePoint, readUnit_digits (by omega)]
  simp only [bind, Except.bind, hlow, Bool.false_eq_true, if_false, Char.ofNat_toNat]

theorem readStringBody_backslash {cs rest : List Char} {c : Char}
    (h : readEscape cs = .ok (c, rest)) :
    readStringBody ('\\' :: cs) = (readStringBody rest).map fun (s, rest) => (c :: s, rest) := by
  rw [readStringBody]
  split
  · next f hf => simp [h] at hf
  · next d rest' hd =>
    obtain ⟨rfl, rfl⟩ : c = d ∧ rest = rest' := by simpa [h] using hd
    rfl

theorem readStringBody_plain {c : Char} (hquote : c ≠ '"') (hbackslash : c ≠ '\\')
    (hc : 32 ≤ c.toNat) (rest : List Char) :
    readStringBody (c :: rest) = (readStringBody rest).map fun (s, rest) => (c :: s, rest) := by
  rw [readStringBody]
  · rw [if_neg (by omega)]
  · exact fun h => hquote h
  · exact fun h => hbackslash h

/-- A character of a string is read back. -/
theorem readStringBody_escape (c : Char) (rest : List Char) :
    readStringBody (escape c ++ rest) = (readStringBody rest).map fun (s, rest) =>
      (c :: s, rest) := by
  unfold escape
  split
  iterate 7 exact readStringBody_backslash rfl
  · next hquote hbackslash _ _ _ _ _ =>
    split
    · next hlow => exact readStringBody_backslash (readCodePoint_digits hlow rest)
    · next hhigh => exact readStringBody_plain hquote hbackslash (by omega) rest

theorem readStringBody_escaped (cs rest : List Char) :
    readStringBody (cs.flatMap escape ++ '"' :: rest) = .ok (cs, rest) := by
  induction cs with
  | nil => simp [readStringBody]
  | cons c cs ih =>
    rw [List.flatMap_cons, List.append_assoc, readStringBody_escape, ih]
    rfl

theorem readString_escaped (s : String) (rest : List Char) :
    readString (s.toList.flatMap escape ++ '"' :: rest) = .ok (s, rest) := by
  rw [readString, readStringBody_escaped]
  simp [Except.map]

/-- A string is read back after its opening quote, and what follows it is left. -/
theorem readString_quoted (s : String) (rest : List Char) :
    ∃ cs, quoted s ++ rest = '"' :: cs ∧ readString cs = .ok (s, rest) :=
  ⟨s.toList.flatMap escape ++ '"' :: rest, by simp [quoted], readString_escaped s rest⟩

/-- Where a string ends, what follows it does not belong to it. -/
theorem quoted_append_inj {s s' : String} {rest rest' : List Char}
    (h : quoted s ++ rest = quoted s' ++ rest') : s = s' ∧ rest = rest' := by
  obtain ⟨cs, hcs, hs⟩ := readString_quoted s rest
  obtain ⟨cs', hcs', hs'⟩ := readString_quoted s' rest'
  rw [hcs, hcs'] at h
  obtain rfl := (List.cons.inj h).2
  rw [hs] at hs'
  exact Prod.mk.inj (Except.ok.inj hs')

/-! ## White space -/

/-- A layout that puts white space between the parts, besides the colon. -/
structure Layout.Spaced (l : Layout) : Prop where
  gap : ∀ depth, ∀ c ∈ l.gap depth, isSpace c = true
  colon : ∃ space, l.colon = ':' :: space ∧ ∀ c ∈ space, isSpace c = true

theorem spaced_indented : Layout.indented.Spaced where
  gap depth c hc := by
    rcases List.mem_cons.mp hc with rfl | hc
    · rfl
    · rw [List.eq_of_mem_replicate hc]
      rfl
  colon := ⟨[' '], rfl, by simp [isSpace]⟩

theorem spaced_compact : Layout.compact.Spaced where
  gap depth c hc := by simp [Layout.compact] at hc
  colon := ⟨[], rfl, by simp⟩

variable {space rest : List Char} {c : Char}

theorem skipSpace_append (h : ∀ c ∈ space, isSpace c = true) (cs : List Char) :
    skipSpace (space ++ cs) = skipSpace cs := by
  rw [skipSpace, List.dropWhile_append_of_pos h, skipSpace]

theorem skipSpace_cons (h : isSpace c = false) (cs : List Char) :
    skipSpace (c :: cs) = c :: cs := by
  rw [skipSpace, List.dropWhile_cons_of_neg (by simp [h])]

/-- What may follow a value. -/
def EndsValue (rest : List Char) : Prop :=
  ∀ c ∈ rest.head?, c = ',' ∨ c = ']' ∨ c = '\x7d' ∨ isSpace c = true

theorem endsValue_nil : EndsValue [] := by
  intro c hc
  simp at hc

theorem EndsValue.spaces (hspace : ∀ c ∈ space, isSpace c = true) (hrest : EndsValue rest) :
    EndsValue (space ++ rest) := by
  cases space with
  | nil => exact hrest
  | cons d space =>
    intro c hc
    obtain rfl : d = c := Option.some.inj hc
    exact Or.inr (Or.inr (Or.inr (hspace d List.mem_cons_self)))

/-- No number goes on with what may follow a value. -/
theorem EndsValue.not_numeral (h : EndsValue (c :: rest)) :
    isDigit c = false ∧ c ≠ '.' ∧ c ≠ 'e' ∧ c ≠ 'E' := by
  have hspace : isSpace c = true → c = ' ' ∨ c = '\n' ∨ c = '\t' ∨ c = '\r' := by
    intro hc
    simpa [isSpace, or_assoc] using hc
  have hc := h c rfl
  rcases hc with rfl | rfl | rfl | hc
  iterate 3 decide
  rcases hspace hc with rfl | rfl | rfl | rfl
  iterate 4 decide

/-! ## Integers -/

theorem isDigit_eq (c : Char) : isDigit c = c.isDigit :=
  Decimal.isDigit_iff c

theorem le_foldl_digits (digits : List Char) (n : ℕ) :
    n ≤ digits.foldl (fun v c => 10 * v + (c.toNat - '0'.toNat)) n := by
  induction digits generalizing n with
  | nil => exact Nat.le_refl n
  | cons d digits ih =>
    have := ih (10 * n + (d.toNat - '0'.toNat))
    rw [List.foldl_cons]
    omega

/-- Digits whose value stays below the limit are all taken. -/
theorem absorb_eq {digits : List Char} {n : ℕ}
    (h : digits.foldl (fun v c => 10 * v + (c.toNat - '0'.toNat)) n < significandLimit) :
    absorb n digits = (digits.foldl (fun v c => 10 * v + (c.toNat - '0'.toNat)) n, []) := by
  induction digits generalizing n with
  | nil => rfl
  | cons d digits ih =>
    rw [List.foldl_cons] at h ⊢
    have hnext := Nat.lt_of_le_of_lt (le_foldl_digits digits _) h
    rw [absorb]
    simp only [hnext, if_true]
    exact ih h

/-- An integer that the reader keeps as one: it fits 64 bits, signed or unsigned. -/
def Keepable (n : Int) : Prop :=
  leastInteger ≤ n ∧ n < significandLimit

theorem keepable_iff {n : Int} :
    Keepable n ↔ -9223372036854775808 ≤ n ∧ n < 18446744073709551616 := Iff.rfl

theorem readAfterWhole_digitsOf {negative : Bool} {n : ℕ} (hn : n < significandLimit)
    (hnegative : negative = true → n ≠ 0 ∧ leastInteger ≤ -(n : Int)) (hrest : EndsValue rest) :
    readAfterWhole negative (Decimal.digitsOf n) rest =
      .ok (.int (if negative then -(n : Int) else n), rest) := by
  have habsorb : absorb 0 (Decimal.digitsOf n) = (n, []) := by
    rw [absorb_eq (by rw [Decimal.foldl_digitsOf]; exact hn), Decimal.foldl_digitsOf]
  have hleast : leastInteger ≤ (if negative then -(n : Int) else n) := by
    have : leastInteger = -9223372036854775808 := rfl
    split
    · next h => exact (hnegative h).2
    · omega
  have hzero : (negative && decide (n = 0)) = false := by
    rw [Bool.and_eq_false_iff, decide_eq_false_iff_not]
    cases negative with
    | false => exact .inl rfl
    | true => exact .inr (hnegative rfl).1
  unfold readAfterWhole
  simp only [habsorb]
  split
  · exact absurd rfl hrest.not_numeral.2.1
  · exact absurd rfl hrest.not_numeral.2.2.1
  · exact absurd rfl hrest.not_numeral.2.2.2
  · simp [hleast, hzero]

/-- The digits of a number are read as it. -/
theorem readUnsigned_digitsOf {negative : Bool} {n : ℕ} (hn : n < significandLimit)
    (hnegative : negative = true → n ≠ 0 ∧ leastInteger ≤ -(n : Int)) (hrest : EndsValue rest) :
    readUnsigned negative (Decimal.digitsOf n ++ rest) =
      .ok (.int (if negative then -(n : Int) else n), rest) := by
  have hafter := readAfterWhole_digitsOf hn hnegative hrest
  have hall : ∀ c ∈ Decimal.digitsOf n, isDigit c = true := by
    intro c hc
    rw [isDigit_eq, Decimal.isDigit_of_mem_digitsOf hc]
  have hends : rest.takeWhile isDigit = [] ∧ rest.dropWhile isDigit = rest := by
    cases rest with
    | nil => exact ⟨rfl, rfl⟩
    | cons c rest =>
      have hc := hrest.not_numeral.1
      exact ⟨List.takeWhile_cons_of_neg (by simp [hc]), List.dropWhile_cons_of_neg (by simp [hc])⟩
  by_cases hzero : n = 0
  · subst hzero
    show readUnsigned negative ('0' :: rest) = _
    have hnone : (rest.head?.map isDigit).getD false = false := by
      cases rest with
      | nil => rfl
      | cons c rest => exact hrest.not_numeral.1
    rw [readUnsigned, if_neg (by simp [hnone])]
    exact hafter
  · have hhead := Decimal.head_digitsOf_ne (Nat.pos_of_ne_zero hzero)
    have htake : (Decimal.digitsOf n ++ rest).takeWhile isDigit = Decimal.digitsOf n := by
      rw [List.takeWhile_append_of_pos hall, hends.1, List.append_nil]
    have hdrop : (Decimal.digitsOf n ++ rest).dropWhile isDigit = rest := by
      rw [List.dropWhile_append_of_pos hall, hends.2]
    obtain ⟨d, digits, hdigits⟩ := List.exists_cons_of_ne_nil (Decimal.digitsOf_ne_nil n)
    rw [hdigits] at hafter hall hhead htake hdrop ⊢
    rw [List.cons_append] at htake hdrop ⊢
    unfold readUnsigned
    split
    · next heq => simp at heq
    · next heq => exact absurd (congrArg some (List.cons.inj heq).1) hhead
    · next c cs _ heq =>
      obtain ⟨rfl, rfl⟩ := List.cons.inj heq
      rw [if_pos (hall d List.mem_cons_self), htake, hdrop]
      exact hafter

/-- The text of a number starts with a digit or a minus sign. -/
theorem exists_head_integerChars (n : Int) :
    ∃ c cs, integerChars n = c :: cs ∧ (c = '-' ∨ isDigit c = true) := by
  cases n with
  | ofNat n =>
    obtain ⟨d, digits, hdigits⟩ := List.exists_cons_of_ne_nil (Decimal.digitsOf_ne_nil n)
    refine ⟨d, digits, hdigits, .inr ?_⟩
    rw [isDigit_eq, Decimal.isDigit_of_mem_digitsOf (hdigits ▸ List.mem_cons_self)]
  | negSucc n => exact ⟨'-', _, rfl, .inl rfl⟩

/-- An integer of 64 bits is read back, whatever its sign. -/
theorem readNumber_integerChars {n : Int} (hn : Keepable n) (hrest : EndsValue rest) :
    readNumber (integerChars n ++ rest) = .ok (.int n, rest) := by
  obtain ⟨hlow, hhigh⟩ := hn
  cases n with
  | ofNat n =>
    have hread : readUnsigned false (integerChars (.ofNat n) ++ rest) = .ok (.int n, rest) :=
      readUnsigned_digitsOf (Int.ofNat_lt.mp hhigh) (by simp) hrest
    obtain ⟨c, cs, hdigits⟩ := List.exists_cons_of_ne_nil (Decimal.digitsOf_ne_nil n)
    have hdigit : isDigit c = true := by
      rw [isDigit_eq, Decimal.isDigit_of_mem_digitsOf (hdigits ▸ List.mem_cons_self)]
    rw [integerChars, hdigits, List.cons_append] at hread ⊢
    unfold readNumber
    split
    · next heq =>
      rw [(List.cons.inj heq).1] at hdigit
      exact absurd hdigit (by decide)
    · exact hread
  | negSucc n =>
    have hn : n + 1 < significandLimit ∧ leastInteger ≤ -((n + 1 : ℕ) : Int) := by
      have hleast : leastInteger = -9223372036854775808 := rfl
      have hlimit : significandLimit = 18446744073709551616 := rfl
      omega
    exact readUnsigned_digitsOf hn.1 (fun _ => ⟨Nat.succ_ne_zero n, hn.2⟩) hrest

/-! ## Scalars -/

theorem readScalar?_quoted (s : String) (rest : List Char) :
    readScalar? (quoted s ++ rest) = some (.ok (.text s, rest)) := by
  obtain ⟨cs, hcs, hread⟩ := readString_quoted s rest
  rw [hcs, readScalar?, hread]
  rfl

theorem readScalar?_numeral {c : Char} (h : c = '-' ∨ isDigit c = true) (cs : List Char) :
    readScalar? (c :: cs) =
      some ((readNumber (c :: cs)).map fun (n, rest) => (.number n, rest)) := by
  have hne (d : Char) (hd : d ≠ '-' ∧ isDigit d = false) : c ≠ d := by
    rintro rfl
    rcases h with h | h
    · exact hd.1 h
    · simp [hd] at h
  unfold readScalar?
  split
  · next heq => exact absurd (List.cons.inj heq).1 (hne 'n' (by decide))
  · next heq => exact absurd (List.cons.inj heq).1 (hne 't' (by decide))
  · next heq => exact absurd (List.cons.inj heq).1 (hne 'f' (by decide))
  · next heq => exact absurd (List.cons.inj heq).1 (hne '"' (by decide))
  · next heq =>
    obtain ⟨rfl, rfl⟩ := List.cons.inj heq
    rw [if_pos (by simpa using h)]
  · next heq => simp at heq

theorem readScalar?_integerChars {n : Int} (hn : Keepable n) (hrest : EndsValue rest) :
    readScalar? (integerChars n ++ rest) = some (.ok (.number (.int n), rest)) := by
  have hread := readNumber_integerChars hn hrest
  obtain ⟨d, digits, hdigits, hd⟩ := exists_head_integerChars n
  rw [hdigits, List.cons_append] at hread ⊢
  rw [readScalar?_numeral hd, hread]
  rfl

/-- A text that starts with a scalar starts with neither white space nor a bracket. -/
theorem exists_head_of_readScalar? {cs : List Char} {r : Except Failure (Scalar × List Char)}
    (h : readScalar? cs = some r) :
    ∃ c rest, cs = c :: rest ∧ isSpace c = false ∧ c ≠ '[' ∧ c ≠ '\x7b' := by
  cases cs with
  | nil => simp [readScalar?] at h
  | cons c cs =>
    have hnot (d : Char) (hd : ∀ cs, readScalar? (d :: cs) = none) : c ≠ d := by
      rintro rfl
      simp [hd] at h
    have hblank : isSpace c = false := by
      simp only [isSpace, Bool.or_eq_false_iff, decide_eq_false_iff_not]
      exact ⟨⟨⟨hnot ' ' fun _ => rfl, hnot '\n' fun _ => rfl⟩, hnot '\t' fun _ => rfl⟩,
        hnot '\r' fun _ => rfl⟩
    exact ⟨c, cs, rfl, hblank, hnot '[' fun _ => rfl, hnot '\x7b' fun _ => rfl⟩

/-! ## Members -/

/-- The value of a member stands behind its colon. -/
theorem Layout.Spaced.readColon {l : Layout} (hl : l.Spaced) :
    ∃ space, (∀ c ∈ space, isSpace c = true) ∧
      ∀ cs, Json.readColon (l.colon ++ cs) = .ok (space ++ cs) := by
  obtain ⟨space, hcolon, hspace⟩ := hl.colon
  refine ⟨space, hspace, fun cs => ?_⟩
  rw [hcolon, List.cons_append, Json.readColon, skipSpace_cons (by decide)]
  rfl

section Members

variable {σ : Type} {α : Type} {l : Layout} {k fuel : ℕ} {members : List (String × Json)} {s s' : σ}
  {step : σ → String → List Char → Except Trouble (σ × List Char)}

/-- Reading the values of members, one after the other, takes one state to another. -/
inductive Feeds (step : σ → String → List Char → Except Trouble (σ × List Char)) (l : Layout)
    (k : ℕ) : σ → List (String × Json) → σ → Prop
  | nil (s : σ) : Feeds step l k s [] s
  | cons {s s' s'' : σ} {name : String} {v : Json} {members : List (String × Json)} :
    (∀ rest, EndsValue rest → step s name (l.colon ++ chars l k v ++ rest) = .ok (s', rest)) →
    Feeds step l k s' members s'' → Feeds step l k s ((name, v) :: members) s''

theorem nextMember_close (hspace : ∀ c ∈ space, isSpace c = true) (first : Bool)
    (rest : List Char) :
    nextMember first (space ++ '\x7d' :: rest) = .ok (false, '\x7d' :: rest) := by
  rw [nextMember, skipSpace_append hspace, skipSpace_cons (by decide)]
  rfl

theorem nextMember_first (hspace : ∀ c ∈ space, isSpace c = true) (rest : List Char) :
    nextMember true (space ++ '"' :: rest) = .ok (true, rest) := by
  rw [nextMember, skipSpace_append hspace, skipSpace_cons (by decide)]
  rfl

theorem nextMember_comma (hspace : ∀ c ∈ space, isSpace c = true) (rest : List Char) :
    nextMember false (',' :: (space ++ '"' :: rest)) = .ok (true, rest) := by
  have hquote : skipSpace (space ++ '"' :: rest) = '"' :: rest := by
    rw [skipSpace_append hspace, skipSpace_cons (by decide)]
  rw [nextMember, skipSpace_cons (by decide)]
  simp [hquote]

theorem endsValue_members (hspace : ∀ c ∈ space, isSpace c = true)
    (members : List (String × Json)) (rest : List Char) :
    EndsValue (memberChars l k members ++ space ++ '\x7d' :: rest) := by
  cases members with
  | nil =>
    rw [memberChars, List.nil_append]
    refine EndsValue.spaces hspace fun c hc => ?_
    obtain rfl : '\x7d' = c := Option.some.inj hc
    exact Or.inr (Or.inr (Or.inl rfl))
  | cons m members =>
    obtain ⟨name, v⟩ := m
    intro c hc
    obtain rfl : ',' = c := by simpa [memberChars] using hc
    exact Or.inl rfl

/-- The text of the members after the first goes on with the name and the value of the next. -/
theorem exists_memberChars_cons (name : String) (v : Json) (members : List (String × Json))
    (space rest : List Char) :
    ∃ cs, memberChars l k ((name, v) :: members) ++ space ++ '\x7d' :: rest =
        ',' :: (l.gap k ++ '"' :: cs) ∧
      readString cs = .ok (name,
        l.colon ++ chars l k v ++ (memberChars l k members ++ space ++ '\x7d' :: rest)) := by
  obtain ⟨cs, hquoted, hname⟩ := readString_quoted name
    (l.colon ++ chars l k v ++ (memberChars l k members ++ space ++ '\x7d' :: rest))
  refine ⟨cs, ?_, hname⟩
  rw [← hquoted, memberChars]
  simp only [List.cons_append, List.append_assoc]

/-- The members after the first are read up to the bracket. -/
theorem readMembers_memberChars (hl : l.Spaced) (h : Feeds step l k s members s')
    (hfuel : members.length < fuel) (hspace : ∀ c ∈ space, isSpace c = true) (rest : List Char) :
    readMembers step fuel false s (memberChars l k members ++ space ++ '\x7d' :: rest) =
      .ok (s', '\x7d' :: rest) := by
  induction h generalizing fuel with
  | nil s =>
    obtain ⟨fuel, rfl⟩ := Nat.exists_eq_succ_of_ne_zero (Nat.ne_zero_of_lt hfuel)
    rw [memberChars, List.nil_append, readMembers, nextMember_close hspace]
    rfl
  | @cons s s₁ s₂ name v members hstep _ ih =>
    obtain ⟨fuel, rfl⟩ := Nat.exists_eq_succ_of_ne_zero (Nat.ne_zero_of_lt hfuel)
    have hrest := endsValue_members (l := l) (k := k) hspace members rest
    obtain ⟨cs, htext, hname⟩ := exists_memberChars_cons (l := l) (k := k) name v members space rest
    rw [htext, readMembers, nextMember_comma (hl.gap k)]
    simp only [lift, Except.mapError, bind, Except.bind, if_true, hname, hstep _ hrest]
    exact ih (Nat.lt_of_succ_lt_succ hfuel)

theorem length_le_memberChars (members : List (String × Json)) :
    members.length ≤ (memberChars l k members).length := by
  induction members with
  | nil => exact Nat.zero_le _
  | cons m members ih =>
    obtain ⟨name, v⟩ := m
    rw [memberChars]
    simp only [List.length_cons, List.length_append]
    omega

/-- The text of an object starts with the name and the value of its first member. -/
theorem exists_chars_obj_cons (name : String) (v : Json) (members : List (String × Json))
    (rest : List Char) :
    ∃ cs, chars l k (.obj ((name, v) :: members)) ++ rest =
        '\x7b' :: (l.gap (k + 1) ++ '"' :: cs) ∧
      readString cs = .ok (name, l.colon ++ chars l (k + 1) v ++
        (memberChars l (k + 1) members ++ l.gap k ++ '\x7d' :: rest)) ∧
      members.length < (l.gap (k + 1) ++ '"' :: cs).length := by
  obtain ⟨cs, hquoted, hname⟩ := readString_quoted name
    (l.colon ++ chars l (k + 1) v ++ (memberChars l (k + 1) members ++ l.gap k ++ '\x7d' :: rest))
  refine ⟨cs, ?_, hname, ?_⟩
  · rw [← hquoted, chars]
    simp only [List.cons_append, List.append_assoc, List.nil_append]
  · have hle := length_le_memberChars (l := l) (k := k + 1) members
    have hlong := congrArg List.length hquoted
    simp only [List.length_append, List.length_cons, quoted] at hlong ⊢
    omega

theorem closeObject_brace (rest : List Char) : closeObject ('\x7d' :: rest) = ⟨rest, none⟩ := by
  rw [closeObject, skipSpace_cons (by decide)]
  rfl

/-- An object is read back behind its opening bracket. -/
theorem readObject_chars {finish : σ → Except Mismatch α} {a : α} (hl : l.Spaced)
    (h : Feeds step l (k + 1) s members s') (hfinish : finish s' = .ok a) (rest : List Char) :
    ∃ cs, chars l k (.obj members) ++ rest = '\x7b' :: cs ∧
      readObject step s finish cs = .ok (a, rest) := by
  suffices hread : ∃ cs, chars l k (.obj members) ++ rest = '\x7b' :: cs ∧
      readMembers step (cs.length + 1) true s cs = .ok (s', '\x7d' :: rest) by
    obtain ⟨cs, hcs, hmembers⟩ := hread
    refine ⟨cs, hcs, ?_⟩
    rw [readObject, hmembers]
    simp only [bind, Except.bind, hfinish, closed, closeObject_brace]
  cases h with
  | nil =>
    refine ⟨'\x7d' :: rest, by rw [chars]; rfl, ?_⟩
    rw [readMembers]
    have hnext : nextMember true ('\x7d' :: rest) = .ok (false, '\x7d' :: rest) :=
      @nextMember_close [] (by simp) true rest
    rw [hnext]
    rfl
  | @cons _ s₁ _ name v members hstep htail =>
    have hrest := endsValue_members (l := l) (k := k + 1) (hl.gap k) members rest
    obtain ⟨cs, htext, hname, hlength⟩ :=
      exists_chars_obj_cons (l := l) (k := k) name v members rest
    refine ⟨l.gap (k + 1) ++ '"' :: cs, htext, ?_⟩
    rw [readMembers, nextMember_first (hl.gap (k + 1))]
    simp only [lift, Except.mapError, bind, Except.bind, if_true, hname, hstep _ hrest]
    exact readMembers_memberChars hl htail hlength (hl.gap k) rest

end Members

end ChangeRelay.Json
