import ChangeRelay.Proofs.Json.NumberText
import ChangeRelay.Proofs.Json.Values
import Mathlib.Data.List.Forall2
/-!
# Values as they are read

What the reader makes of the text of any value: an array is read item by item, an object member by
member, and a number by its text alone. A value that is nested too deep, or holds a number that is
refused, is not read at all. A value that a text can hold, without floating-point numbers, is read
as it is.
-/

namespace ChangeRelay.Json

section

variable {ε α β : Type}

theorem toOption_bind (x : Except ε α) (f : α → Except ε β) :
    (x >>= f).toOption = x.toOption.bind fun a => (f a).toOption := by
  cases x <;> rfl

theorem toOption_map (x : Except ε α) (f : α → β) : (x.map f).toOption = x.toOption.map f := by
  cases x <;> rfl

theorem toOption_lift (x : Except Failure α) : (lift x).toOption = x.toOption := by
  cases x <;> rfl

theorem toOption_eq_some {x : Except ε α} {a : α} : x.toOption = some a ↔ x = .ok a := by
  cases x <;> simp [Except.toOption]

end

variable {l : Layout} {k depth : ℕ} {space rest : List Char}

/-! ## What is read -/

/-- What is read of the text of a number. -/
def numberAsRead (n : Number) : Option Json :=
  (readValue 0 (numberChars n)).toOption.map Prod.fst

/-- The members with their values as they are read. -/
def membersAsRead (read : Json → Option Json) (ms : List (String × Json)) :
    Option (List (String × Json)) :=
  ms.mapM fun m => (read m.2).map (m.1, ·)

/-- What is read of the text of a value by a reader that goes `depth` deep. -/
def asRead : ℕ → Json → Option Json
  | _, .null => some .null
  | _, .bool b => some (.bool b)
  | _, .num n => numberAsRead n
  | _, .str s => some (.str s)
  | 0, .arr _ => none
  | 0, .obj _ => none
  | depth + 1, .arr vs => (vs.mapM (asRead depth)).map .arr
  | depth + 1, .obj ms => (membersAsRead (asRead depth) ms).map object

/-! ## Numbers -/

theorem NumeralText.exists_cons {cs : List Char} (h : NumeralText cs) :
    ∃ c more, cs = c :: more ∧ (c = '-' ∨ isDigit c = true) := by
  obtain ⟨negative, hdigits, htail⟩ := h
  obtain ⟨c, more, rfl⟩ := List.exists_cons_of_ne_nil hdigits.ne_nil
  cases negative with
  | true => exact ⟨'-', _, rfl, .inl rfl⟩
  | false => exact ⟨c, _, rfl, .inr (hdigits.digit c List.mem_cons_self)⟩

theorem readValue_numeral {cs : List Char} (h : NumeralText cs) :
    ∃ o : Option Json, ∀ (depth : ℕ) (space rest : List Char), (∀ c ∈ space, isSpace c = true) →
      EndsValue rest → (readValue depth (space ++ (cs ++ rest))).toOption = o.map (·, rest) := by
  obtain ⟨o, ho⟩ := settles_readNumber h
  obtain ⟨c, more, rfl, hc⟩ := h.exists_cons
  refine ⟨o.map (.num ·), fun depth space rest hspace hrest => ?_⟩
  have hread := ho rest hrest
  rw [List.cons_append] at hread ⊢
  rw [readValue_of_readScalar? hspace (readScalar?_numeral hc (more ++ rest)), toOption_map,
    toOption_map, hread]
  cases o <;> rfl

/-- A number is read by its text, wherever it stands. -/
theorem readValue_number (n : Number) (hspace : ∀ c ∈ space, isSpace c = true)
    (hrest : EndsValue rest) :
    (readValue depth (space ++ (numberChars n ++ rest))).toOption =
      (numberAsRead n).map (·, rest) := by
  have hsettles : ∃ o : Option Json, ∀ (depth : ℕ) (space rest : List Char),
      (∀ c ∈ space, isSpace c = true) → EndsValue rest →
        (readValue depth (space ++ (numberChars n ++ rest))).toOption = o.map (·, rest) := by
    cases n with
    | int n => exact readValue_numeral (numeralText_integerChars n)
    | float x =>
      rw [numberChars]
      split
      · exact readValue_numeral (numeralText_floatChars x)
      · -- neither infinite numbers nor what is no number can be written
        refine ⟨some .null, fun depth space rest hspace _ => ?_⟩
        rw [readValue_scalar (s := .null) hspace rfl]
        rfl
  obtain ⟨o, ho⟩ := hsettles
  have halone := ho 0 [] [] (by simp) endsValue_nil
  rw [List.nil_append, List.append_nil] at halone
  have hsame : numberAsRead n = o := by
    rw [numberAsRead, halone]
    cases o <;> rfl
  rw [hsame]
  exact ho depth space rest hspace hrest

/-! ## Arrays -/

section Items

variable {α β : Type} {fuel : ℕ} {read : List Char → Except Failure (α × List Char)}
  {f : Json → Option α} {vs : List Json} {as : List α}

/-- The reader makes `f v` of the text of the item `v`, whatever may follow it. -/
def MakesItem (read : List Char → Except Failure (α × List Char)) (f : Json → Option α) (l : Layout)
    (k : ℕ) (v : Json) : Prop :=
  ∀ rest, EndsValue rest → (read (chars l k v ++ rest)).toOption = (f v).map (·, rest)

theorem toOption_closed {close : List Char → Closing} {r : Except Trouble (α × List Char)}
    {o : Option α} {tail : List Char} (hclose : close tail = ⟨rest, none⟩)
    (h : r.toOption = o.map (·, tail)) : (closed close r).toOption = o.map (·, rest) := by
  cases o with
  | none =>
    cases r with
    | ok a => simp [Except.toOption] at h
    | error t => cases t <;> rfl
  | some a =>
    obtain rfl := toOption_eq_some.mp h
    rw [closed]
    simp only [hclose]
    rfl

theorem mapM_cons_eq (f : α → Option β) (a : α) (as : List α) :
    (a :: as).mapM f = (f a).bind fun b => (as.mapM f).map (b :: ·) := by
  rw [List.mapM_cons]
  cases f a with
  | none => rfl
  | some b => cases h : as.mapM f <;> rfl

theorem mapM_eq_some_of_forall₂ {f : α → Option β} {as : List α} {bs : List β}
    (h : List.Forall₂ (fun a b => f a = some b) as bs) : as.mapM f = some bs := by
  induction h with
  | nil => rfl
  | cons hb _ ih =>
    rw [mapM_cons_eq, hb, ih]
    rfl

/-- The reader comes to an item, reads it and goes on behind it. -/
theorem toOption_readItems_more {first : Bool} {cs tail left : List Char} {v : Json}
    (hnext : nextItem first cs = .ok (true, chars l k v ++ tail)) (hv : MakesItem read f l k v)
    (htail : EndsValue tail)
    (hvs : (readItems read fuel false tail).toOption = (vs.mapM f).map (·, left)) :
    (readItems read (fuel + 1) first cs).toOption = ((v :: vs).mapM f).map (·, left) := by
  have hitem : readItems read (fuel + 1) first cs =
      read (chars l k v ++ tail) >>= fun item =>
        readItems read fuel false item.2 >>= fun more => .ok (item.1 :: more.1, more.2) := by
    rw [readItems, hnext]
    rfl
  rw [hitem, toOption_bind, hv tail htail, mapM_cons_eq]
  cases f v with
  | none => rfl
  | some a =>
    show (readItems read fuel false tail >>= fun more => .ok (a :: more.1, more.2)).toOption = _
    rw [toOption_bind, hvs]
    cases vs.mapM f <;> rfl

/-- The items after the first are read up to the bracket. -/
theorem toOption_readItems (hl : l.Spaced) (h : ∀ v ∈ vs, MakesItem read f l k v)
    (hfuel : vs.length < fuel) (hspace : ∀ c ∈ space, isSpace c = true) (rest : List Char) :
    (readItems read fuel false (itemChars l k vs ++ space ++ ']' :: rest)).toOption =
      (vs.mapM f).map (·, ']' :: rest) := by
  induction vs generalizing fuel with
  | nil =>
    obtain ⟨fuel, rfl⟩ := Nat.exists_eq_succ_of_ne_zero (Nat.ne_zero_of_lt hfuel)
    rw [itemChars, List.nil_append, readItems, nextItem_close hspace]
    rfl
  | cons v vs ih =>
    obtain ⟨fuel, rfl⟩ := Nat.exists_eq_succ_of_ne_zero (Nat.ne_zero_of_lt hfuel)
    obtain ⟨hv, hvs⟩ := List.forall_mem_cons.mp h
    have hrest := endsValue_items (l := l) (k := k) hspace vs rest
    have htext : itemChars l k (v :: vs) ++ space ++ ']' :: rest =
        ',' :: (l.gap k ++ (chars l k v ++ (itemChars l k vs ++ space ++ ']' :: rest))) := by
      rw [itemChars]
      simp only [List.cons_append, List.append_assoc]
    rw [htext]
    exact toOption_readItems_more (nextItem_comma (hl.gap k) ((startsItem_chars l k v).append _))
      hv hrest (ih hvs (Nat.lt_of_succ_lt_succ hfuel))

/-- An array is read item by item. -/
theorem toOption_readArray (hl : l.Spaced) (h : ∀ v ∈ vs, MakesItem read f l (k + 1) v)
    (rest : List Char) :
    ∃ cs, chars l k (.arr vs) ++ rest = '[' :: cs ∧
      (readArray read cs).toOption = (vs.mapM f).map (·, rest) := by
  suffices hread : ∃ cs, chars l k (.arr vs) ++ rest = '[' :: cs ∧
      (readItems read (cs.length + 1) true cs).toOption = (vs.mapM f).map (·, ']' :: rest) by
    obtain ⟨cs, hcs, hitems⟩ := hread
    refine ⟨cs, hcs, ?_⟩
    rw [readArray, toOption_closed (closeArray_bracket rest) (by rw [toOption_lift, hitems])]
  cases vs with
  | nil =>
    refine ⟨']' :: rest, by rw [chars]; rfl, ?_⟩
    have hnext : nextItem true (']' :: rest) = .ok (false, ']' :: rest) :=
      @nextItem_close [] (by simp) true rest
    rw [readItems, hnext]
    rfl
  | cons v vs =>
    obtain ⟨hv, hvs⟩ := List.forall_mem_cons.mp h
    have hrest := endsValue_items (l := l) (k := k + 1) (hl.gap k) vs rest
    have hlength : vs.length < (l.gap (k + 1) ++ (chars l (k + 1) v ++
        (itemChars l (k + 1) vs ++ l.gap k ++ ']' :: rest))).length := by
      have hle := length_le_itemChars (l := l) (k := k + 1) vs
      simp only [List.length_append, List.length_cons]
      omega
    refine ⟨l.gap (k + 1) ++ (chars l (k + 1) v ++
      (itemChars l (k + 1) vs ++ l.gap k ++ ']' :: rest)), ?_, ?_⟩
    · rw [chars]
      simp only [List.cons_append, List.append_assoc, List.nil_append]
    · exact toOption_readItems_more
        (nextItem_first (hl.gap (k + 1)) ((startsItem_chars l (k + 1) v).append _)) hv hrest
        (toOption_readItems hl hvs hlength (hl.gap k) rest)

/-- The text of a value is read as `a`, whatever may follow it. -/
def ReadsItem (read : List Char → Except Failure (α × List Char)) (l : Layout) (k : ℕ) (v : Json)
    (a : α) : Prop :=
  ∀ rest, EndsValue rest → read (chars l k v ++ rest) = .ok (a, rest)

/-- An array whose items are read is read. -/
theorem readArray_chars (hl : l.Spaced) (h : List.Forall₂ (ReadsItem read l (k + 1)) vs as)
    (rest : List Char) :
    ∃ cs, chars l k (.arr vs) ++ rest = '[' :: cs ∧ readArray read cs = .ok (as, rest) := by
  -- what an item is read as can be told from its text alone
  let f (v : Json) : Option α := (read (chars l (k + 1) v)).toOption.map Prod.fst
  have hf : ∀ v a, ReadsItem read l (k + 1) v a → f v = some a := by
    intro v a hread
    have halone := hread [] endsValue_nil
    rw [List.append_nil] at halone
    simp only [f, halone]
    rfl
  have hmakes : ∀ v ∈ vs, MakesItem read f l (k + 1) v := by
    intro v hv rest hrest
    obtain ⟨i, hi, rfl⟩ := List.getElem_of_mem hv
    have hlength : i < as.length := h.length_eq ▸ hi
    have hread : ReadsItem read l (k + 1) vs[i] as[i] := h.get hi hlength
    rw [hf _ _ hread]
    exact toOption_eq_some.mpr (hread rest hrest)
  obtain ⟨cs, hcs, hread⟩ := toOption_readArray hl hmakes rest
  rw [mapM_eq_some_of_forall₂ (h.imp hf)] at hread
  exact ⟨cs, hcs, toOption_eq_some.mp hread⟩

end Items

/-! ## Objects -/

section Members

variable {fuel : ℕ} {read : List Char → Except Failure (Json × List Char)} {f : Json → Option Json}
  {done ms : List (String × Json)}

/-- The reader makes `f v` of the text of `v`, wherever it stands. -/
def Reads (read : List Char → Except Failure (Json × List Char)) (f : Json → Option Json)
    (l : Layout) (k : ℕ) (v : Json) : Prop :=
  ∀ space rest, (∀ c ∈ space, isSpace c = true) → EndsValue rest →
    (read (space ++ (chars l k v ++ rest))).toOption = (f v).map (·, rest)

theorem Reads.item {v : Json} (h : Reads read f l k v) : MakesItem read f l k v :=
  fun rest hrest => h [] rest (by simp) hrest

/-- Members that are put at their places one after the other. -/
def stored (done ms : List (String × Json)) : List (String × Json) :=
  ms.foldl (fun sorted (n, v) => insertMember n v sorted) done

/-- Members in order are stored as they are. -/
theorem stored_eq_append (h : Listed (done ++ ms)) : stored done ms = done ++ ms := by
  induction ms generalizing done with
  | nil => rw [List.append_nil]; rfl
  | cons m ms ih =>
    obtain ⟨name, v⟩ := m
    have hlast : ∀ m ∈ done, m.1 < name := by
      intro m hm
      exact (List.pairwise_append.mp h).2.2 m hm _ List.mem_cons_self
    have happend : done ++ (name, v) :: ms = done ++ [(name, v)] ++ ms := by
      rw [List.append_assoc, List.singleton_append]
    rw [happend] at h ⊢
    show stored (insertMember name v done) ms = _
    rw [insertMember_eq_concat hlast, ih h]

theorem object_of_listed (h : Listed ms) : object ms = .obj ms := by
  show Json.obj (stored [] ms) = _
  rw [stored_eq_append (by rwa [List.nil_append]), List.nil_append]

theorem membersAsRead_cons (f : Json → Option Json) (name : String) (v : Json)
    (ms : List (String × Json)) : membersAsRead f ((name, v) :: ms) =
      (f v).bind fun w => (membersAsRead f ms).map ((name, w) :: ·) := by
  rw [membersAsRead, mapM_cons_eq, membersAsRead]
  cases f v <;> rfl

/-- The reader comes to a member, reads it and goes on behind it. -/
theorem toOption_readMembers_more {first : Bool} {cs cs' tail left : List Char} {name : String}
    {v : Json} (hl : l.Spaced) (hnext : nextMember first cs = .ok (true, cs'))
    (hname : readString cs' = .ok (name, l.colon ++ chars l k v ++ tail))
    (hv : Reads read f l k v) (htail : EndsValue tail)
    (hms : ∀ done, (readMembers (storeMember read) fuel false done tail).toOption =
      (membersAsRead f ms).map fun ms => (stored done ms, left)) :
    (readMembers (storeMember read) (fuel + 1) first done cs).toOption =
      (membersAsRead f ((name, v) :: ms)).map fun ms => (stored done ms, left) := by
  obtain ⟨space, hspace, hcolon⟩ := hl.readColon
  have hmember : readMembers (storeMember read) (fuel + 1) first done cs =
      lift (read (space ++ (chars l k v ++ tail))) >>= fun value =>
        readMembers (storeMember read) fuel false (insertMember name value.1 done) value.2 := by
    rw [readMembers, hnext]
    simp only [lift, Except.mapError, bind, Except.bind, if_true, hname, storeMember,
      List.append_assoc, hcolon]
    cases read (space ++ (chars l k v ++ tail)) <;> rfl
  rw [hmember, toOption_bind, toOption_lift, hv space tail hspace htail, membersAsRead_cons]
  cases f v with
  | none => rfl
  | some w =>
    show (readMembers (storeMember read) fuel false (insertMember name w done) tail).toOption = _
    rw [hms]
    cases membersAsRead f ms <;> rfl

/-- The members after the first are read up to the bracket. -/
theorem toOption_readMembers (hl : l.Spaced) (h : ∀ m ∈ ms, Reads read f l k m.2)
    (hfuel : ms.length < fuel) (hspace : ∀ c ∈ space, isSpace c = true) (rest : List Char) :
    (readMembers (storeMember read) fuel false done
        (memberChars l k ms ++ space ++ '\x7d' :: rest)).toOption =
      (membersAsRead f ms).map fun ms => (stored done ms, '\x7d' :: rest) := by
  induction ms generalizing fuel done with
  | nil =>
    obtain ⟨fuel, rfl⟩ := Nat.exists_eq_succ_of_ne_zero (Nat.ne_zero_of_lt hfuel)
    rw [memberChars, List.nil_append, readMembers, nextMember_close hspace]
    rfl
  | cons m ms ih =>
    obtain ⟨fuel, rfl⟩ := Nat.exists_eq_succ_of_ne_zero (Nat.ne_zero_of_lt hfuel)
    obtain ⟨name, v⟩ := m
    obtain ⟨hv, hms⟩ := List.forall_mem_cons.mp h
    have hrest := endsValue_members (l := l) (k := k) hspace ms rest
    obtain ⟨cs, htext, hname⟩ := exists_memberChars_cons (l := l) (k := k) name v ms space rest
    rw [htext]
    exact toOption_readMembers_more hl (nextMember_comma (hl.gap k) cs) hname hv hrest
      fun done => ih hms (Nat.lt_of_succ_lt_succ hfuel)

/-- An object is read member by member. -/
theorem toOption_readObject (hl : l.Spaced) (h : ∀ m ∈ ms, Reads read f l (k + 1) m.2)
    (rest : List Char) :
    ∃ cs, chars l k (.obj ms) ++ rest = '\x7b' :: cs ∧
      (readObject (storeMember read) [] finishObject cs).toOption =
        ((membersAsRead f ms).map object).map (·, rest) := by
  suffices hread : ∃ cs, chars l k (.obj ms) ++ rest = '\x7b' :: cs ∧
      (readMembers (storeMember read) (cs.length + 1) true [] cs).toOption =
        (membersAsRead f ms).map fun ms => (stored [] ms, '\x7d' :: rest) by
    obtain ⟨cs, hcs, hmembers⟩ := hread
    refine ⟨cs, hcs, ?_⟩
    rw [readObject]
    refine toOption_closed (closeObject_brace rest) ?_
    rw [toOption_bind, hmembers]
    cases membersAsRead f ms <;> rfl
  cases ms with
  | nil =>
    refine ⟨'\x7d' :: rest, by rw [chars]; rfl, ?_⟩
    have hnext : nextMember true ('\x7d' :: rest) = .ok (false, '\x7d' :: rest) :=
      @nextMember_close [] (by simp) true rest
    rw [readMembers, hnext]
    rfl
  | cons m ms =>
    obtain ⟨name, v⟩ := m
    obtain ⟨hv, hms⟩ := List.forall_mem_cons.mp h
    have hrest := endsValue_members (l := l) (k := k + 1) (hl.gap k) ms rest
    obtain ⟨cs, htext, hname, hlength⟩ := exists_chars_obj_cons (l := l) (k := k) name v ms rest
    exact ⟨l.gap (k + 1) ++ '"' :: cs, htext,
      toOption_readMembers_more hl (nextMember_first (hl.gap (k + 1)) cs) hname hv hrest
        fun done => toOption_readMembers hl hms hlength (hl.gap k) rest⟩

end Members

/-! ## Values -/

theorem toOption_readValue_flat (hspace : ∀ c ∈ space, isSpace c = true) (bracket : Char)
    (h : bracket = '[' ∨ bracket = '\x7b') (cs : List Char) :
    (readValue 0 (space ++ bracket :: cs)).toOption = none := by
  rcases h with rfl | rfl
  · rw [readValue, skipSpace_append hspace, skipSpace_cons (by decide)]
    rfl
  · rw [readValue, skipSpace_append hspace, skipSpace_cons (by decide)]
    rfl

/-- What the reader makes of the text of a value, wherever it stands. -/
theorem toOption_readValue (hl : l.Spaced) (v : Json) :
    Reads (readValue depth) (asRead depth) l k v := by
  induction depth using Nat.strongRecOn generalizing k v with
  | _ depth ih =>
    intro space rest hspace hrest
    cases v with
    | null =>
      rw [chars, readValue_scalar (s := .null) hspace rfl, asRead]
      rfl
    | bool b =>
      cases b with
      | false =>
        rw [chars, readValue_scalar (s := .flag false) hspace rfl, asRead]
        rfl
      | true =>
        rw [chars, readValue_scalar (s := .flag true) hspace rfl, asRead]
        rfl
    | num n =>
      rw [chars, asRead]
      exact readValue_number n hspace hrest
    | str s =>
      rw [chars, readValue_scalar hspace (readScalar?_quoted s rest), asRead]
      rfl
    | arr vs =>
      cases depth with
      | zero =>
        have hopen : ∃ cs, chars l k (.arr vs) = '[' :: cs := by
          cases vs <;> exact ⟨_, rfl⟩
        obtain ⟨cs, hcs⟩ := hopen
        rw [hcs, List.cons_append, toOption_readValue_flat hspace '[' (.inl rfl), asRead]
        rfl
      | succ depth =>
        obtain ⟨cs, hcs, hread⟩ := toOption_readArray hl
          (fun v _ => (ih depth (Nat.lt_succ_self depth) v).item) rest
        rw [hcs, readValue_array hspace, toOption_map, hread, asRead]
        cases vs.mapM (asRead depth) <;> rfl
    | obj ms =>
      cases depth with
      | zero =>
        have hopen : ∃ cs, chars l k (.obj ms) = '\x7b' :: cs := by
          cases ms <;> exact ⟨_, rfl⟩
        obtain ⟨cs, hcs⟩ := hopen
        rw [hcs, List.cons_append, toOption_readValue_flat hspace '\x7b' (.inr rfl), asRead]
        rfl
      | succ depth =>
        obtain ⟨cs, hcs, hread⟩ := toOption_readObject hl
          (fun m _ => ih depth (Nat.lt_succ_self depth) m.2) rest
        rw [hcs, readValue_object hspace, hread, asRead]

/-- A value that a text can hold, without floating-point numbers, is read as it is. -/
theorem asRead_of_fits {v : Json} (hv : v.Fits depth) (hfloat : v.isFloatFree = true) :
    v.asRead depth = some v := by
  induction hv with
  | null => simp only [asRead]
  | bool b => simp only [asRead]
  | @int depth n hn =>
    have hscalar := readScalar?_integerChars hn endsValue_nil
    have hread : readValue 0 ([] ++ (integerChars n ++ [])) = .ok (.num (.int n), []) :=
      readValue_scalar (by simp) hscalar
    rw [List.nil_append, List.append_nil] at hread
    rw [asRead, numberAsRead, numberChars, hread]
    rfl
  | float x => simp [isFloatFree] at hfloat
  | str s => simp only [asRead]
  | @arr depth vs _ ih =>
    have hsame : List.Forall₂ (fun v w => asRead depth v = some w) vs vs :=
      List.forall₂_same.mpr fun v hv => ih v hv (areFloatFree_iff.mp hfloat v hv)
    rw [asRead, mapM_eq_some_of_forall₂ hsame]
    rfl
  | @obj depth ms hlisted _ ih =>
    have hsame : List.Forall₂ (fun m m' => (asRead depth m.2).map (m.1, ·) = some m') ms ms := by
      refine List.forall₂_same.mpr fun m hm => ?_
      rw [ih m hm (haveFloatFree_iff.mp hfloat m hm)]
      rfl
    rw [asRead, membersAsRead, mapM_eq_some_of_forall₂ hsame]
    exact congrArg some (object_of_listed hlisted)

/-- A value that a text can hold, without floating-point numbers, is read back from its text. -/
theorem readValue_chars {v : Json} (hv : v.Fits depth) (hfloat : v.isFloatFree = true)
    (hl : l.Spaced) (hspace : ∀ c ∈ space, isSpace c = true) (hrest : EndsValue rest) :
    readValue depth (space ++ chars l k v ++ rest) = .ok (v, rest) := by
  have hread : (readValue depth (space ++ (chars l k v ++ rest))).toOption =
      (v.asRead depth).map (·, rest) := toOption_readValue hl v space rest hspace hrest
  rw [asRead_of_fits hv hfloat] at hread
  rw [List.append_assoc]
  exact toOption_eq_some.mp hread

/-- The whole text of a value is read as the value. -/
theorem toOption_parse_compact (v : Json) :
    (parse v.compact.toList).toOption = v.asRead depthLimit := by
  have hreads : Reads (readValue depthLimit) (asRead depthLimit) .compact 0 v :=
    toOption_readValue spaced_compact v
  have hread := hreads.item [] endsValue_nil
  rw [List.append_nil, toList_compact] at hread
  cases hv : asRead depthLimit v with
  | none =>
    rw [hv] at hread
    cases hr : readValue depthLimit v.compact.toList with
    | ok a => simp [hr, Except.toOption] at hread
    | error f =>
      rw [parse, readText, hr]
      rfl
  | some w =>
    rw [hv] at hread
    rw [parse, readText, toOption_eq_some.mp hread]
    rfl

end ChangeRelay.Json
