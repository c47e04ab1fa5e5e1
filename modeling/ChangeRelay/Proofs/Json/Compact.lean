import ChangeRelay.Proofs.Json.ReadBack
import Mathlib.Data.List.Basic
/-!
# Compact texts

Compact texts can stand in a row without getting mixed up: someone who only counts brackets and
watches for strings finds the end of a value, whatever follows it. So the text of an array
determines the texts of its items. A compact text has no control characters, so it is one line.
-/

namespace ChangeRelay.Json

/-- What is known of a text by counting its brackets: how many are open, and whether a string is. -/
inductive Stance
  | plain (depth : ℕ)
  | inString (depth : ℕ)
  /-- In a string, after a backslash. -/
  | escaped (depth : ℕ)
deriving DecidableEq, Repr

namespace Stance

/-- The stance after a character; `none` when a value ends before it. -/
def next : Stance → Char → Option Stance
  | .plain depth, c =>
    if c = '"' then some (.inString depth)
    else if c = '[' || c = '\x7b' then some (.plain (depth + 1))
    else if c = ']' || c = '\x7d' then
      match depth with
      | 0 => none
      | depth + 1 => some (.plain depth)
    else if c = ',' && depth = 0 then none
    else some (.plain depth)
  | .inString depth, c =>
    if c = '"' then some (.plain depth)
    else if c = '\\' then some (.escaped depth)
    else some (.inString depth)
  | .escaped depth, _ => some (.inString depth)

/-- The stance after some characters; `none` when a value ends before the last of them. -/
def after (s : Stance) (cs : List Char) : Option Stance :=
  cs.foldlM next s

@[simp] theorem after_nil (s : Stance) : s.after [] = some s := rfl

@[simp] theorem after_cons (s : Stance) (c : Char) (cs : List Char) :
    s.after (c :: cs) = (s.next c).bind fun s => s.after cs := rfl

theorem after_append (s : Stance) (a b : List Char) :
    s.after (a ++ b) = (s.after a).bind fun s => s.after b :=
  List.foldlM_append

/-- The start of a text up to where a value ends, and what follows it. -/
def extent : Stance → List Char → List Char × List Char
  | _, [] => ([], [])
  | s, c :: cs =>
    match s.next c with
    | none => ([], c :: cs)
    | some s => (c :: (extent s cs).1, (extent s cs).2)

theorem extent_append {s s' : Stance} {cs : List Char} (h : s.after cs = some s')
    (rest : List Char) :
    s.extent (cs ++ rest) = (cs ++ (s'.extent rest).1, (s'.extent rest).2) := by
  induction cs generalizing s with
  | nil =>
    obtain rfl := Option.some.inj h
    rfl
  | cons c cs ih =>
    obtain ⟨t, hnext, hafter⟩ := Option.bind_eq_some_iff.mp h
    rw [List.cons_append, extent, hnext]
    simp only [ih hafter, List.cons_append]

end Stance

open Stance

/-- Whether a text is empty, or starts with what ends a value. -/
def Stops (cs : List Char) : Prop :=
  (plain 0).extent cs = ([], cs)

theorem stops_comma (cs : List Char) : Stops (',' :: cs) := rfl

theorem stops_bracket (cs : List Char) : Stops (']' :: cs) := rfl

theorem stops_brace (cs : List Char) : Stops ('\x7d' :: cs) := rfl

/-! ## Scalars -/

/-- Whether a character can stand in a finite number. -/
def isNumeral (c : Char) : Bool :=
  c.isDigit || ['-', '+', '.', 'e'].contains c

/-- Whether a character can stand in a number or in one of the words. -/
def isBare (c : Char) : Bool :=
  c.isAlphanum || ['-', '+', '.'].contains c

theorem isNumeral_of_isDigit {c : Char} (h : c.isDigit = true) : isNumeral c = true := by
  rw [isNumeral, h, Bool.true_or]

theorem isBare_of_isNumeral {c : Char} (h : isNumeral c = true) : isBare c = true := by
  simp only [isNumeral, List.contains_cons, List.contains_nil, Bool.or_false, Bool.or_eq_true,
    beq_iff_eq] at h
  rcases h with h | rfl | rfl | rfl | rfl
  · simp [isBare, Char.isAlphanum, h]
  · decide
  · decide
  · decide
  · decide

/-- A bare character has a code above that of the space. -/
theorem le_toNat_of_isBare {c : Char} (h : isBare c = true) : 32 ≤ c.toNat := by
  have halpha : c.isAlpha = (c.isUpper || c.isLower) := rfl
  have hupper : c.isUpper = decide (c.val ≥ 65 ∧ c.val ≤ 90) := rfl
  have hlower : c.isLower = (decide (c.val ≥ 97) && decide (c.val ≤ 122)) := rfl
  simp only [isBare, Char.isAlphanum, halpha, hupper, hlower, Char.isDigit, Bool.or_eq_true,
    Bool.and_eq_true, decide_eq_true_eq, List.contains_cons, List.contains_nil, beq_iff_eq,
    Bool.or_false, UInt32.le_iff_toNat_le, ge_iff_le] at h
  change (((65 ≤ c.toNat ∧ c.toNat ≤ 90) ∨ (97 ≤ c.toNat ∧ c.toNat ≤ 122)) ∨
    (48 ≤ c.toNat ∧ c.toNat ≤ 57)) ∨ c = '-' ∨ c = '+' ∨ c = '.' at h
  rcases h with ((h | h) | h) | rfl | rfl | rfl
  · omega
  · omega
  · omega
  · decide
  · decide
  · decide

theorem after_bare {cs : List Char} (h : ∀ c ∈ cs, isBare c = true) (depth : ℕ) :
    (plain depth).after cs = some (plain depth) := by
  induction cs with
  | nil => rfl
  | cons c cs ih =>
    have hc : isBare c = true := h c List.mem_cons_self
    -- the characters that change the stance are not bare
    have hne (d : Char) (hd : isBare d = false) : c ≠ d := by
      rintro rfl
      simp [hd] at hc
    have hnext : (plain depth).next c = some (plain depth) := by
      simp [next, hne '"' rfl, hne '[' rfl, hne '\x7b' rfl, hne ']' rfl, hne '\x7d' rfl,
        hne ',' rfl]
    rw [after_cons, hnext]
    exact ih fun d hd => h d (List.mem_cons_of_mem _ hd)

theorem isNumeral_digitsOf (n : ℕ) : ∀ c ∈ Decimal.digitsOf n, isNumeral c = true := by
  intro c hc
  exact isNumeral_of_isDigit (Nat.isDigit_of_mem_toDigits (by decide) (by decide) hc)

theorem isNumeral_zeros (n : ℕ) : ∀ c ∈ Decimal.zeros n, isNumeral c = true := by
  intro c hc
  rw [List.eq_of_mem_replicate hc]
  rfl

theorem isNumeral_integerChars (n : Int) : ∀ c ∈ integerChars n, isNumeral c = true := by
  cases n with
  | ofNat n => exact isNumeral_digitsOf n
  | negSucc n => exact List.forall_mem_cons.mpr ⟨rfl, isNumeral_digitsOf _⟩

theorem isNumeral_placed {digits : List Char} (h : ∀ c ∈ digits, isNumeral c = true) (point : Int) :
    ∀ c ∈ Decimal.placed digits point, isNumeral c = true := by
  unfold Decimal.placed
  split
  · refine List.forall_mem_append.mpr ⟨?_, h⟩
    exact List.forall_mem_cons.mpr ⟨rfl, List.forall_mem_cons.mpr ⟨rfl, isNumeral_zeros _⟩⟩
  · split
    · refine List.forall_mem_append.mpr ⟨fun c hc => h c (List.mem_of_mem_take hc), ?_⟩
      exact List.forall_mem_cons.mpr ⟨rfl, fun c hc => h c (List.mem_of_mem_drop hc)⟩
    · exact List.forall_mem_append.mpr ⟨h, isNumeral_zeros _⟩

theorem isNumeral_exponentChars (e : Int) : ∀ c ∈ exponentChars e, isNumeral c = true := by
  refine List.forall_mem_cons.mpr ⟨rfl, List.forall_mem_cons.mpr ⟨?_, isNumeral_digitsOf _⟩⟩
  split <;> rfl

theorem isNumeral_floatChars (x : Binary64) : ∀ c ∈ floatChars x, isNumeral c = true := by
  have hsign : ∀ c ∈ (if x.isNegative then ['-'] else []), isNumeral c = true := by
    split
    · simp [isNumeral]
    · simp
  have hdigits := isNumeral_digitsOf (Decimal.shortest x).digits
  have hplaced (point : Int) := isNumeral_placed hdigits point
  unfold floatChars
  simp only
  generalize Decimal.digitsOf (Decimal.shortest x).digits = digits at hdigits hplaced ⊢
  split
  · refine List.forall_mem_append.mpr ⟨hsign, ?_⟩
    split
    · exact hplaced _
    · exact List.forall_mem_append.mpr ⟨hplaced _, by simp [isNumeral]⟩
  · split
    · next one _ =>
      refine List.forall_mem_append.mpr ⟨hsign, List.forall_mem_cons.mpr ⟨?_, ?_⟩⟩
      · exact hdigits one (List.mem_singleton_self one)
      · exact isNumeral_exponentChars _
    · next first more _ =>
      obtain ⟨hfirst, hmore⟩ := List.forall_mem_cons.mp hdigits
      refine List.forall_mem_append.mpr ⟨?_, isNumeral_exponentChars _⟩
      refine List.forall_mem_append.mpr ⟨hsign, List.forall_mem_cons.mpr ⟨hfirst, ?_⟩⟩
      exact List.forall_mem_cons.mpr ⟨rfl, hmore⟩
    · exact hsign

theorem isBare_numberChars (n : Number) : ∀ c ∈ numberChars n, isBare c = true := by
  cases n with
  | int n => exact fun c hc => isBare_of_isNumeral (isNumeral_integerChars n c hc)
  | float x =>
    unfold numberChars
    simp only
    split
    · exact fun c hc => isBare_of_isNumeral (isNumeral_floatChars x c hc)
    · exact List.all_eq_true.mp (by decide)

/-- The digits of a number below sixteen are letters and decimal digits. -/
theorem digit_ne_mark : ∀ n < 16, Hex.digit n ≠ '"' ∧ Hex.digit n ≠ '\\' := by
  decide

theorem after_escape (c : Char) (depth : ℕ) :
    (inString depth).after (escape c) = some (inString depth) := by
  unfold escape
  split
  iterate 7 rfl
  · next hquote hbackslash _ _ _ _ _ =>
    split
    · next hlow =>
      obtain ⟨hhigh, hhigh'⟩ := digit_ne_mark (c.toNat / 16) (by omega)
      obtain ⟨hlow, hlow'⟩ := digit_ne_mark (c.toNat % 16) (by omega)
      simp [next, hhigh, hhigh', hlow, hlow']
    · have hc : c ≠ '"' ∧ c ≠ '\\' := ⟨hquote, hbackslash⟩
      simp [next, hc]

theorem after_quoted (s : String) (depth : ℕ) :
    (plain depth).after (quoted s) = some (plain depth) := by
  have hbody (cs : List Char) :
      (inString depth).after (cs.flatMap escape) = some (inString depth) := by
    induction cs with
    | nil => rfl
    | cons c cs ih =>
      rw [List.flatMap_cons, after_append, after_escape]
      exact ih
  have hopen : (plain depth).next '"' = some (inString depth) := rfl
  rw [quoted, List.cons_append, after_cons, hopen, Option.bind_some, after_append, hbody]
  rfl

/-! ## Values -/

@[simp] theorem gap_compact (k : ℕ) : Layout.compact.gap k = [] := rfl

@[simp] theorem colon_compact : Layout.compact.colon = [':'] := rfl

theorem chars_compact_arr (k : ℕ) (v : Json) (rest : List Json) :
    chars .compact k (.arr (v :: rest)) =
      '[' :: (chars .compact (k + 1) v ++ (itemChars .compact (k + 1) rest ++ [']'])) := by
  simp [chars]

theorem chars_compact_obj (k : ℕ) (name : String) (v : Json) (rest : List (String × Json)) :
    chars .compact k (.obj ((name, v) :: rest)) =
      '\x7b' :: (quoted name ++ ':' :: (chars .compact (k + 1) v ++
        (memberChars .compact (k + 1) rest ++ ['\x7d']))) := by
  simp [chars]

theorem itemChars_compact (k : ℕ) (v : Json) (rest : List Json) :
    itemChars .compact k (v :: rest) =
      ',' :: (chars .compact k v ++ itemChars .compact k rest) := by
  simp [itemChars]

theorem memberChars_compact (k : ℕ) (name : String) (v : Json) (rest : List (String × Json)) :
    memberChars .compact k ((name, v) :: rest) =
      ',' :: (quoted name ++ ':' :: (chars .compact k v ++ memberChars .compact k rest)) := by
  simp [memberChars]

mutual

/-- How deep a value is nested does not show in its compact text. -/
theorem chars_compact_depth (k k' : ℕ) : (v : Json) → chars .compact k v = chars .compact k' v
  | .null | .bool true | .bool false | .num _ | .str _ | .arr [] | .obj [] => by simp only [chars]
  | .arr (v :: rest) => by
    rw [chars_compact_arr, chars_compact_arr, chars_compact_depth (k + 1) (k' + 1) v,
      itemChars_compact_depth (k + 1) (k' + 1) rest]
  | .obj ((name, v) :: rest) => by
    rw [chars_compact_obj, chars_compact_obj, chars_compact_depth (k + 1) (k' + 1) v,
      memberChars_compact_depth (k + 1) (k' + 1) rest]

theorem itemChars_compact_depth (k k' : ℕ) :
    (vs : List Json) → itemChars .compact k vs = itemChars .compact k' vs
  | [] => rfl
  | v :: rest => by
    rw [itemChars_compact, itemChars_compact, chars_compact_depth k k' v,
      itemChars_compact_depth k k' rest]

theorem memberChars_compact_depth (k k' : ℕ) :
    (ms : List (String × Json)) → memberChars .compact k ms = memberChars .compact k' ms
  | [] => rfl
  | (name, v) :: rest => by
    rw [memberChars_compact, memberChars_compact, chars_compact_depth k k' v,
      memberChars_compact_depth k k' rest]

end

mutual

/-- A value leaves as many brackets open as there were. -/
theorem after_chars (k depth : ℕ) :
    (v : Json) → (plain depth).after (chars .compact k v) = some (plain depth)
  | .null | .bool true | .bool false => by
    simp only [chars]
    exact after_bare (List.all_eq_true.mp (by decide)) depth
  | .num n => by
    simp only [chars]
    exact after_bare (isBare_numberChars n) depth
  | .str s => by
    simp only [chars]
    exact after_quoted s depth
  | .arr [] | .obj [] => by simp [chars, next]
  | .arr (v :: rest) => by
    have hopen : (plain depth).next '[' = some (plain (depth + 1)) := rfl
    rw [chars_compact_arr, after_cons, hopen, Option.bind_some, after_append,
      after_chars (k + 1) (depth + 1) v, Option.bind_some, after_append,
      after_itemChars (k + 1) depth rest]
    rfl
  | .obj ((name, v) :: rest) => by
    have hopen : (plain depth).next '\x7b' = some (plain (depth + 1)) := rfl
    have hcolon : (plain (depth + 1)).next ':' = some (plain (depth + 1)) := rfl
    rw [chars_compact_obj, after_cons, hopen, Option.bind_some, after_append, after_quoted,
      Option.bind_some, after_cons, hcolon, Option.bind_some, after_append,
      after_chars (k + 1) (depth + 1) v, Option.bind_some, after_append,
      after_memberChars (k + 1) depth rest]
    rfl

theorem after_itemChars (k depth : ℕ) : (vs : List Json) →
    (plain (depth + 1)).after (itemChars .compact k vs) = some (plain (depth + 1))
  | [] => rfl
  | v :: rest => by
    have hcomma : (plain (depth + 1)).next ',' = some (plain (depth + 1)) := rfl
    rw [itemChars_compact, after_cons, hcomma, Option.bind_some, after_append,
      after_chars k (depth + 1) v, Option.bind_some, after_itemChars k depth rest]

theorem after_memberChars (k depth : ℕ) : (ms : List (String × Json)) →
    (plain (depth + 1)).after (memberChars .compact k ms) = some (plain (depth + 1))
  | [] => rfl
  | (name, v) :: rest => by
    have hcomma : (plain (depth + 1)).next ',' = some (plain (depth + 1)) := rfl
    have hcolon : (plain (depth + 1)).next ':' = some (plain (depth + 1)) := rfl
    rw [memberChars_compact, after_cons, hcomma, Option.bind_some, after_append, after_quoted,
      Option.bind_some, after_cons, hcolon, Option.bind_some, after_append,
      after_chars k (depth + 1) v, Option.bind_some, after_memberChars k depth rest]

end

/-! ## No control characters -/

theorem le_toNat_digit : ∀ n < 16, 32 ≤ (Hex.digit n).toNat := by
  decide

theorem le_toNat_escape (c : Char) : ∀ d ∈ escape c, 32 ≤ d.toNat := by
  unfold escape
  split
  iterate 7 simp
  · split
    · next hlow =>
      have hhigh := le_toNat_digit (c.toNat / 16) (by omega)
      have hlast := le_toNat_digit (c.toNat % 16) (by omega)
      simp only [List.forall_mem_cons]
      exact ⟨by decide, by decide, by decide, by decide, hhigh, hlast, by simp⟩
    · next hhigh => simpa using hhigh

theorem le_toNat_quoted (s : String) : ∀ c ∈ quoted s, 32 ≤ c.toNat := by
  refine List.forall_mem_append.mpr ⟨List.forall_mem_cons.mpr ⟨by decide, fun c hc => ?_⟩, by simp⟩
  obtain ⟨d, -, hd⟩ := List.mem_flatMap.mp hc
  exact le_toNat_escape d c hd

mutual

/-- The compact text of a value is one line. -/
theorem le_toNat_chars (k : ℕ) : (v : Json) → ∀ c ∈ chars .compact k v, 32 ≤ c.toNat
  | .null | .bool true | .bool false | .arr [] | .obj [] => by
    simp [chars]
  | .num n => by
    simp only [chars]
    exact fun c hc => le_toNat_of_isBare (isBare_numberChars n c hc)
  | .str s => by
    simp only [chars]
    exact le_toNat_quoted s
  | .arr (v :: rest) => by
    rw [chars_compact_arr]
    simp only [List.forall_mem_cons, List.forall_mem_append]
    exact ⟨by decide, le_toNat_chars (k + 1) v, le_toNat_itemChars (k + 1) rest, by decide, by simp⟩
  | .obj ((name, v) :: rest) => by
    rw [chars_compact_obj]
    simp only [List.forall_mem_cons, List.forall_mem_append]
    exact ⟨by decide, le_toNat_quoted name, by decide, le_toNat_chars (k + 1) v,
      le_toNat_memberChars (k + 1) rest, by decide, by simp⟩

theorem le_toNat_itemChars (k : ℕ) :
    (vs : List Json) → ∀ c ∈ itemChars .compact k vs, 32 ≤ c.toNat
  | [] => by simp [itemChars]
  | v :: rest => by
    rw [itemChars_compact]
    simp only [List.forall_mem_cons, List.forall_mem_append]
    exact ⟨by decide, le_toNat_chars k v, le_toNat_itemChars k rest⟩

theorem le_toNat_memberChars (k : ℕ) :
    (ms : List (String × Json)) → ∀ c ∈ memberChars .compact k ms, 32 ≤ c.toNat
  | [] => by simp [memberChars]
  | (name, v) :: rest => by
    rw [memberChars_compact]
    simp only [List.forall_mem_cons, List.forall_mem_append]
    exact ⟨by decide, le_toNat_quoted name, by decide, le_toNat_chars k v,
      le_toNat_memberChars k rest⟩

end

/-! ## Compact texts in a row -/

theorem toList_compact (k : ℕ) (v : Json) : chars .compact k v = v.compact.toList := by
  rw [compact, String.toList_ofList, chars_compact_depth k 0]

theorem le_toNat_compact (v : Json) : ∀ c ∈ v.compact.toList, 32 ≤ c.toNat := by
  rw [← toList_compact 0]
  exact le_toNat_chars 0 v

theorem extent_compact (v : Json) {rest : List Char} (h : Stops rest) :
    (plain 0).extent (v.compact.toList ++ rest) = (v.compact.toList, rest) := by
  have hafter := after_chars 0 0 v
  rw [toList_compact] at hafter
  rw [extent_append hafter, h, List.append_nil]

/-- Where a value ends, what ends it does not belong to it. -/
theorem compact_append_inj {v w : Json} {rest rest' : List Char} (hrest : Stops rest)
    (hrest' : Stops rest') (h : v.compact.toList ++ rest = w.compact.toList ++ rest') :
    v.compact = w.compact ∧ rest = rest' := by
  have hextent := congrArg (plain 0).extent h
  rw [extent_compact v hrest, extent_compact w hrest', Prod.mk.injEq] at hextent
  exact ⟨String.toList_inj.mp hextent.1, hextent.2⟩

/-! ## Arrays and objects -/

theorem floatChars_ne_nil (x : Binary64) : floatChars x ≠ [] := by
  have hbody (body : List Char) :
      (if body.contains '.' then body else body ++ ['.', '0']) ≠ [] := by
    cases body with
    | nil => simp
    | cons c body => split <;> simp
  unfold floatChars
  simp only
  split
  · exact fun hnil => hbody _ (List.append_eq_nil_iff.mp hnil).2
  · split
    · simp
    · simp
    · next hdigits => exact absurd hdigits Nat.toDigits_ne_nil

theorem numberChars_ne_nil (n : Number) : numberChars n ≠ [] := by
  cases n with
  | int n =>
    cases n with
    | ofNat n => exact Nat.toDigits_ne_nil
    | negSucc n => simp [numberChars, integerChars]
  | float x =>
    unfold numberChars
    simp only
    split
    · exact floatChars_ne_nil x
    · simp

/-- Every value has a text. -/
theorem chars_ne_nil (k : ℕ) (v : Json) : chars .compact k v ≠ [] := by
  cases v with
  | null => simp [chars]
  | bool b => cases b <;> simp [chars]
  | num n =>
    rw [chars]
    exact numberChars_ne_nil n
  | str s => simp [chars, quoted]
  | arr vs => cases vs <;> simp [chars]
  | obj ms => cases ms <;> simp [chars]

theorem stops_itemChars (k : ℕ) (vs : List Json) {rest : List Char} (h : Stops rest) :
    Stops (itemChars .compact k vs ++ rest) := by
  cases vs with
  | nil => exact h
  | cons v vs =>
    rw [itemChars_compact]
    exact stops_comma _

theorem items_inj {k k' : ℕ} {vs ws : List Json} {rest rest' : List Char}
    (h : itemChars .compact k vs ++ ']' :: rest = itemChars .compact k' ws ++ ']' :: rest') :
    vs.map compact = ws.map compact := by
  induction vs generalizing ws with
  | nil =>
    cases ws with
    | nil => rfl
    | cons w ws => simp [itemChars] at h
  | cons v vs ih =>
    cases ws with
    | nil => simp [itemChars] at h
    | cons w ws =>
      rw [itemChars_compact, itemChars_compact, List.cons_append, List.cons_append,
        List.append_assoc, List.append_assoc, toList_compact, toList_compact] at h
      have hboth := compact_append_inj (stops_itemChars _ _ (stops_bracket _))
        (stops_itemChars _ _ (stops_bracket _)) (List.cons.inj h).2
      rw [List.map_cons, List.map_cons, hboth.1, ih hboth.2]

/-- The text of an array determines the texts of its items. -/
theorem map_compact_of_arr {vs ws : List Json} (h : (arr vs).compact = (arr ws).compact) :
    vs.map compact = ws.map compact := by
  have hchars := congrArg String.toList h
  rw [← toList_compact 0, ← toList_compact 0] at hchars
  -- the text of an item has at least one character, so no item is lost in an empty array
  have hempty (v : Json) (rest : List Json) :
      chars .compact 0 (arr (v :: rest)) ≠ chars .compact 0 (arr []) := by
    intro hsame
    have hlength := congrArg List.length hsame
    have hpos := List.length_pos_of_ne_nil (chars_ne_nil (0 + 1) v)
    have hbrackets : chars .compact 0 (arr []) = ['[', ']'] := by simp only [chars]
    rw [chars_compact_arr, hbrackets] at hlength
    simp only [List.length_cons, List.length_append, List.length_nil] at hlength
    omega
  cases vs with
  | nil =>
    cases ws with
    | nil => rfl
    | cons w ws => exact absurd hchars.symm (hempty w ws)
  | cons v vs =>
    cases ws with
    | nil => exact absurd hchars (hempty v vs)
    | cons w ws =>
      have hitems : itemChars .compact 1 (v :: vs) ++ [']'] =
          itemChars .compact 1 (w :: ws) ++ [']'] := by
        rw [itemChars_compact, itemChars_compact]
        simpa [chars_compact_arr] using hchars
      exact items_inj hitems

/-- Items have their own texts, with a comma before each of them. -/
theorem itemChars_eq_flatMap (k : ℕ) (vs : List Json) :
    itemChars .compact k vs = (vs.map compact).flatMap fun text => ',' :: text.toList := by
  induction vs with
  | nil => rfl
  | cons v vs ih =>
    rw [itemChars_compact, toList_compact, ih, List.map_cons, List.flatMap_cons, List.cons_append]

/-- The texts of the items determine the text of an array, and it determines them. -/
theorem compact_arr_eq_iff {vs ws : List Json} :
    (arr vs).compact = (arr ws).compact ↔ vs.map compact = ws.map compact := by
  refine ⟨map_compact_of_arr, fun h => String.toList_inj.mp ?_⟩
  rw [← toList_compact 0, ← toList_compact 0]
  cases vs with
  | nil =>
    cases ws with
    | nil => rfl
    | cons w ws => simp at h
  | cons v vs =>
    cases ws with
    | nil => simp at h
    | cons w ws =>
      rw [List.map_cons, List.map_cons, List.cons.injEq] at h
      rw [chars_compact_arr, chars_compact_arr, toList_compact, toList_compact,
        itemChars_eq_flatMap, itemChars_eq_flatMap, h.1, h.2]

/-- The text of an object with one member determines its name and the text of its value. -/
theorem compact_of_obj_singleton {name name' : String} {v w : Json}
    (h : (obj [(name, v)]).compact = (obj [(name', w)]).compact) :
    name = name' ∧ v.compact = w.compact := by
  have hchars := congrArg String.toList h
  rw [← toList_compact 0, ← toList_compact 0, chars_compact_obj, chars_compact_obj] at hchars
  obtain ⟨hname, hrest⟩ := quoted_append_inj (List.cons.inj hchars).2
  rw [toList_compact, toList_compact] at hrest
  have hvalue := compact_append_inj (stops_brace []) (stops_brace []) (List.cons.inj hrest).2
  exact ⟨hname, hvalue.1⟩

/-- The texts of two objects with one member each are equal exactly when name and value have equal
texts. -/
theorem compact_obj_singleton_eq_iff {name name' : String} {v w : Json} :
    (obj [(name, v)]).compact = (obj [(name', w)]).compact ↔
      name = name' ∧ v.compact = w.compact := by
  refine ⟨compact_of_obj_singleton, fun ⟨hname, hvalue⟩ => String.toList_inj.mp ?_⟩
  rw [← toList_compact 0, ← toList_compact 0, chars_compact_obj, chars_compact_obj, toList_compact,
    toList_compact, hname, hvalue]

/-- The text of a string determines it. -/
theorem compact_str_inj {s s' : String} (h : (str s).compact = (str s').compact) : s = s' := by
  have hchars := congrArg String.toList h
  rw [← toList_compact 0, ← toList_compact 0, chars, chars] at hchars
  have hquoted : quoted s ++ [] = quoted s' ++ [] := by rw [hchars]
  exact (quoted_append_inj hquoted).1

/-- A value whose text starts with a quote is a string. -/
theorem eq_str_of_head {v : Json} (h : v.compact.toList.head? = some '"') : ∃ s, v = .str s := by
  rw [← toList_compact 0] at h
  cases v with
  | null => simp [chars] at h
  | bool b => cases b <;> simp [chars] at h
  | num n =>
    rw [chars] at h
    have hbare := isBare_numberChars n '"' (List.mem_of_head? h)
    simp [isBare] at hbare
  | str s => exact ⟨s, rfl⟩
  | arr vs => cases vs <;> simp [chars] at h
  | obj ms => cases ms <;> simp [chars] at h

theorem head?_compact_str (s : String) : (str s).compact.toList.head? = some '"' := by
  rw [← toList_compact 0, chars, quoted]
  rfl

/-- Whether a value has a text of its own: JSON cannot write an infinite number or a NaN. -/
def isWritable : Json → Bool
  | .num (.float x) => x.isFinite
  | _ => true

/-- The text of null stands for nothing else. -/
theorem eq_null_of_compact {v : Json} (hv : v.isWritable = true)
    (h : v.compact = Json.null.compact) : v = .null := by
  have hchars : chars .compact 0 v = "null".toList := by
    rw [toList_compact, h, ← toList_compact 0, chars]
  cases v with
  | null => rfl
  | bool b => cases b <;> simp [chars] at hchars
  | num n =>
    -- a finite number has no letter of its own but the one of its exponent
    have hnumeral : ∀ c ∈ numberChars n, isNumeral c = true := by
      cases n with
      | int n => exact isNumeral_integerChars n
      | float x =>
        have hfinite : x.isFinite = true := hv
        simp only [numberChars, hfinite, if_true]
        exact isNumeral_floatChars x
    rw [chars] at hchars
    have hletter := hnumeral 'n' (by simp [hchars])
    simp [isNumeral] at hletter
  | str s => simp [chars, quoted] at hchars
  | arr vs => cases vs <;> simp [chars] at hchars
  | obj ms => cases ms <;> simp [chars] at hchars

end ChangeRelay.Json
