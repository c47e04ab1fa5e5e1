import ChangeRelay.Json.Reader
import ChangeRelay.Proofs.Json.ReadBack
/-!
# The texts of numbers

What the reader makes of the text of a number, floating-point numbers included, does not depend on
what follows the text, and nothing of the text is left.
-/

namespace ChangeRelay.Json

variable {α : Type} {digits tail rest : List Char} {negative : Bool} {d : Decimal}

/-! ## Texts that are used up -/

/-- Wherever a value may end behind it, the text is used up, with one and the same result. -/
def Settles (read : List Char → Except Failure (α × List Char)) (cs : List Char) : Prop :=
  ∃ o : Option α, ∀ rest, EndsValue rest → (read (cs ++ rest)).toOption = o.map (·, rest)

/-- No digit stands at the start. -/
def NoDigitFirst (cs : List Char) : Prop :=
  ∀ c ∈ cs.head?, isDigit c = false

theorem EndsValue.noDigitFirst (h : EndsValue rest) : NoDigitFirst rest := by
  cases rest with
  | nil =>
    intro c hc
    simp at hc
  | cons d rest =>
    intro c hc
    obtain rfl : d = c := Option.some.inj hc
    exact h.not_numeral.1

theorem noDigitFirst_cons {c : Char} (h : isDigit c = false) (cs : List Char) :
    NoDigitFirst (c :: cs) := by
  intro d hd
  obtain rfl : c = d := Option.some.inj hd
  exact h

/-- One digit or more. -/
structure IsDigits (digits : List Char) : Prop where
  ne_nil : digits ≠ []
  digit : ∀ c ∈ digits, isDigit c = true

theorem isDigits_digitsOf (n : ℕ) : IsDigits (Decimal.digitsOf n) where
  ne_nil := Decimal.digitsOf_ne_nil n
  digit c hc := by rw [isDigit_eq, Decimal.isDigit_of_mem_digitsOf hc]

theorem IsDigits.takeWhile (h : IsDigits digits) (hrest : NoDigitFirst rest) :
    (digits ++ rest).takeWhile isDigit = digits := by
  rw [List.takeWhile_append_of_pos h.digit]
  cases rest with
  | nil => rw [List.takeWhile_nil, List.append_nil]
  | cons c rest => rw [List.takeWhile_cons_of_neg (by simp [hrest c rfl]), List.append_nil]

theorem IsDigits.dropWhile (h : IsDigits digits) (hrest : NoDigitFirst rest) :
    (digits ++ rest).dropWhile isDigit = rest := by
  rw [List.dropWhile_append_of_pos h.digit]
  cases rest with
  | nil => rfl
  | cons c rest => rw [List.dropWhile_cons_of_neg (by simp [hrest c rfl])]

/-! ## From the end to the start -/

theorem toNumber_toOption (d : Decimal) (negative : Bool) (rest : List Char) :
    (d.toNumber negative rest).toOption =
      (((Binary64.ofDecimal negative d.significand.toUInt64 d.exponent).map .float).map
        (·, rest) : Option (Number × List Char)) := by
  unfold Decimal.toNumber
  cases Binary64.ofDecimal negative d.significand.toUInt64 d.exponent with
  | none => rfl
  | some x => rfl

theorem settles_toNumber (d : Decimal) (negative : Bool) : Settles (d.toNumber negative) [] :=
  ⟨_, fun rest _ => toNumber_toOption d negative rest⟩

/-- The exponent of a number behind its letter: a sign and digits. -/
theorem settles_readExponent (hdigits : IsDigits digits) (d : Decimal) (negative down : Bool) :
    Settles (readExponent negative d) ((if down then '-' else '+') :: digits) := by
  have hread (rest : List Char) (hrest : EndsValue rest) :
      readExponent negative d ((if down then '-' else '+') :: digits ++ rest) =
        (absorbExponent 0 digits).1.elim
          (if d.significand ≠ 0 && !down then
            .error (.before .numberOutOfRange ((absorbExponent 0 digits).2 ++ rest))
          else { significand := 0, exponent := 0 : Decimal }.toNumber negative rest)
          fun e => { d with exponent := if down then d.exponent - e else d.exponent + e }.toNumber
            negative rest := by
    have htake := hdigits.takeWhile hrest.noDigitFirst
    have hdrop := hdigits.dropWhile hrest.noDigitFirst
    have hsome : (digits ++ rest).isEmpty = false := by
      rw [List.isEmpty_eq_false_iff]
      exact List.append_ne_nil_of_left_ne_nil hdigits.ne_nil rest
    have hnonempty : digits.isEmpty = false := List.isEmpty_eq_false_iff.mpr hdigits.ne_nil
    cases down <;>
      simp only [readExponent, if_true, Bool.false_eq_true, if_false, List.cons_append, htake,
        hdrop, hsome, hnonempty] <;>
      rcases absorbExponent 0 digits with ⟨_ | e, unread⟩ <;>
      rfl
  -- the exponent is taken, or it is too large: then the number is zero or out of range
  rcases habsorb : absorbExponent 0 digits with ⟨e | e, unread⟩
  · by_cases hlarge : (decide (d.significand ≠ 0) && !down) = true
    · refine ⟨none, fun rest hrest => ?_⟩
      rw [hread rest hrest, habsorb]
      simp only [hlarge, if_true]
      rfl
    · obtain ⟨o, ho⟩ := settles_toNumber ⟨0, 0⟩ negative
      refine ⟨o, fun rest hrest => ?_⟩
      rw [hread rest hrest, habsorb, ← ho rest hrest]
      simp only [hlarge, Bool.false_eq_true, if_false, List.nil_append, Option.elim_none]
  · obtain ⟨o, ho⟩ := settles_toNumber
      { d with exponent := if down then d.exponent - e else d.exponent + e } negative
    refine ⟨o, fun rest hrest => ?_⟩
    rw [hread rest hrest, habsorb, ← ho rest hrest, List.nil_append, Option.elim_some]

/-- What may stand behind the digits of a number: nothing or an exponent. -/
inductive ExponentText : List Char → Prop
  | none : ExponentText []
  | some {digits : List Char} (down : Bool) (h : IsDigits digits) :
    ExponentText ('e' :: (if down then '-' else '+') :: digits)

theorem ExponentText.noDigitFirst (h : ExponentText tail) (hrest : EndsValue rest) :
    NoDigitFirst (tail ++ rest) := by
  cases h with
  | none => exact hrest.noDigitFirst
  | some down hdigits => exact noDigitFirst_cons (by decide) _

theorem settles_readAfterFraction (htail : ExponentText tail) (d : Decimal) (negative : Bool) :
    Settles (readAfterFraction negative d) tail := by
  cases htail with
  | none =>
    obtain ⟨o, ho⟩ := settles_toNumber d negative
    refine ⟨o, fun rest hrest => ?_⟩
    rw [← ho rest hrest, List.nil_append]
    unfold readAfterFraction
    split
    · exact absurd rfl hrest.not_numeral.2.2.1
    · exact absurd rfl hrest.not_numeral.2.2.2
    · rfl
  | some down hdigits => exact settles_readExponent hdigits d negative down

theorem settles_readFraction (hdigits : IsDigits digits) (htail : ExponentText tail) (d : Decimal)
    (negative : Bool) : Settles (readFraction negative d) (digits ++ tail) := by
  obtain ⟨o, ho⟩ := settles_readAfterFraction htail
    ⟨(absorb d.significand digits).1,
      d.exponent - ((digits.length - (absorb d.significand digits).2.length : ℕ) : Int)⟩ negative
  refine ⟨o, fun rest hrest => ?_⟩
  have hstart := htail.noDigitFirst hrest
  have hnonempty : digits.isEmpty = false := List.isEmpty_eq_false_iff.mpr hdigits.ne_nil
  rw [← ho rest hrest, List.append_assoc, readFraction, hdigits.takeWhile hstart,
    hdigits.dropWhile hstart]
  simp only [hnonempty, Bool.false_eq_true, if_false]

/-- What may stand behind the whole part of a number. -/
inductive PartsText : List Char → Prop
  | whole {tail : List Char} (h : ExponentText tail) : PartsText tail
  | fraction {digits tail : List Char} (hdigits : IsDigits digits) (h : ExponentText tail) :
    PartsText ('.' :: (digits ++ tail))

theorem PartsText.noDigitFirst (h : PartsText tail) (hrest : EndsValue rest) :
    NoDigitFirst (tail ++ rest) := by
  cases h with
  | whole h => exact h.noDigitFirst hrest
  | fraction hdigits h => exact noDigitFirst_cons (by decide) _

theorem settles_readAfterWhole (htail : PartsText tail) (negative : Bool) (digits : List Char) :
    Settles (readAfterWhole negative digits) tail := by
  rcases habsorb : absorb 0 digits with ⟨significand, dropped⟩
  cases htail with
  | fraction hfraction htail =>
    obtain ⟨o, ho⟩ := settles_readFraction hfraction htail ⟨significand, dropped.length⟩ negative
    refine ⟨o, fun rest hrest => ?_⟩
    rw [← ho rest hrest, List.cons_append, readAfterWhole]
    simp only [habsorb]
  | whole htail =>
    cases htail with
    | some down hexponent =>
      obtain ⟨o, ho⟩ := settles_readExponent hexponent ⟨significand, dropped.length⟩ negative down
      refine ⟨o, fun rest hrest => ?_⟩
      rw [← ho rest hrest, List.cons_append, readAfterWhole]
      simp only [habsorb]
    | none =>
      have hread (rest : List Char) (hrest : EndsValue rest) :
          readAfterWhole negative digits rest =
            let n : Int := if negative then -significand else significand
            if dropped.isEmpty && leastInteger ≤ n && !(negative && significand = 0) then
              .ok (.int n, rest)
            else Decimal.toNumber ⟨significand, dropped.length⟩ negative rest := by
        unfold readAfterWhole
        simp only [habsorb]
        split
        · exact absurd rfl hrest.not_numeral.2.1
        · exact absurd rfl hrest.not_numeral.2.2.1
        · exact absurd rfl hrest.not_numeral.2.2.2
        · rfl
      -- an integer when it fits, and a floating-point number otherwise
      generalize (if negative then -(significand : Int) else significand) = n at hread
      by_cases hkept : (dropped.isEmpty && leastInteger ≤ n && !(negative && significand = 0)) =
        true
      · refine ⟨some (.int n), fun rest hrest => ?_⟩
        rw [List.nil_append, hread rest hrest]
        simp only [hkept, if_true]
        rfl
      · obtain ⟨o, ho⟩ := settles_toNumber ⟨significand, dropped.length⟩ negative
        refine ⟨o, fun rest hrest => ?_⟩
        rw [← ho rest hrest, List.nil_append, hread rest hrest]
        simp only [hkept, Bool.false_eq_true, if_false]

theorem settles_readUnsigned (hdigits : IsDigits digits) (htail : PartsText tail)
    (negative : Bool) : Settles (readUnsigned negative) (digits ++ tail) := by
  obtain ⟨c, more, rfl⟩ := List.exists_cons_of_ne_nil hdigits.ne_nil
  have hc := hdigits.digit c List.mem_cons_self
  by_cases hzero : c = '0'
  · subst hzero
    cases more with
    | nil =>
      obtain ⟨o, ho⟩ := settles_readAfterWhole htail negative ['0']
      refine ⟨o, fun rest hrest => ?_⟩
      have hstart := htail.noDigitFirst hrest
      have hnone : ((tail ++ rest).head?.map isDigit).getD false = false := by
        cases h : tail ++ rest with
        | nil => rfl
        | cons d cs => exact hstart d (h ▸ rfl)
      rw [← ho rest hrest]
      show (readUnsigned negative ('0' :: (tail ++ rest))).toOption = _
      rw [readUnsigned, hnone, if_neg (by decide)]
    | cons d more =>
      -- a digit behind a zero is refused, whatever follows
      have hd : isDigit d = true := hdigits.digit d (by simp)
      refine ⟨none, fun rest _ => ?_⟩
      show (readUnsigned negative ('0' :: d :: (more ++ tail ++ rest))).toOption = _
      rw [readUnsigned, if_pos (by simp [hd])]
      rfl
  · obtain ⟨o, ho⟩ := settles_readAfterWhole htail negative (c :: more)
    refine ⟨o, fun rest hrest => ?_⟩
    have hstart := htail.noDigitFirst hrest
    have htake := hdigits.takeWhile hstart
    have hdrop := hdigits.dropWhile hstart
    rw [← ho rest hrest, List.append_assoc]
    rw [List.cons_append] at htake hdrop ⊢
    unfold readUnsigned
    split
    · next heq => simp at heq
    · next heq => exact absurd (List.cons.inj heq).1 hzero
    · next c' cs _ heq =>
      obtain ⟨rfl, rfl⟩ := List.cons.inj heq
      rw [if_pos hc, htake, hdrop]

/-- A number in full: a sign, a whole part and what may stand behind it. -/
inductive NumeralText : List Char → Prop
  | mk {digits tail : List Char} (negative : Bool) (hdigits : IsDigits digits)
    (h : PartsText tail) : NumeralText ((if negative then ['-'] else []) ++ (digits ++ tail))

theorem settles_readNumber {cs : List Char} (h : NumeralText cs) : Settles readNumber cs := by
  obtain ⟨negative, hdigits, htail⟩ := h
  obtain ⟨o, ho⟩ := settles_readUnsigned hdigits htail negative
  refine ⟨o, fun rest hrest => ?_⟩
  rw [← ho rest hrest]
  cases negative with
  | true => rfl
  | false =>
    obtain ⟨c, more, rfl⟩ := List.exists_cons_of_ne_nil hdigits.ne_nil
    have hc := hdigits.digit c List.mem_cons_self
    unfold readNumber
    split
    · next heq =>
      rw [(List.cons.inj heq).1] at hc
      exact absurd hc (by decide)
    · rfl

/-! ## What is written of a number -/

theorem IsDigits.append_zeros (h : IsDigits digits) (n : ℕ) :
    IsDigits (digits ++ Decimal.zeros n) where
  ne_nil := List.append_ne_nil_of_left_ne_nil h.ne_nil _
  digit c hc := by
    rcases List.mem_append.mp hc with hc | hc
    · exact h.digit c hc
    · rw [List.eq_of_mem_replicate hc]
      rfl

theorem IsDigits.zeros_append (h : IsDigits digits) (n : ℕ) :
    IsDigits (Decimal.zeros n ++ digits) where
  ne_nil := List.append_ne_nil_of_right_ne_nil _ h.ne_nil
  digit c hc := by
    rcases List.mem_append.mp hc with hc | hc
    · rw [List.eq_of_mem_replicate hc]
      rfl
    · exact h.digit c hc

theorem IsDigits.not_contains_point (h : IsDigits digits) : digits.contains '.' = false := by
  rw [List.contains_eq_mem, decide_eq_false_iff_not]
  intro hpoint
  exact absurd (h.digit '.' hpoint) (by decide)

/-- A number without an exponent has digits on both sides of its point. -/
theorem exists_placed (h : IsDigits digits) (point : Int) :
    ∃ whole fraction, IsDigits whole ∧ IsDigits fraction ∧
      (if (Decimal.placed digits point).contains '.' then Decimal.placed digits point
        else Decimal.placed digits point ++ ['.', '0']) = whole ++ '.' :: fraction := by
  have hzero : IsDigits ['0'] := ⟨by simp, fun c hc => by rw [List.mem_singleton.mp hc]; rfl⟩
  unfold Decimal.placed
  split
  · exact ⟨['0'], Decimal.zeros (-point).toNat ++ digits, hzero, h.zeros_append _, by simp⟩
  · split
    · next hpositive hinside =>
      refine ⟨digits.take point.toNat, digits.drop point.toNat, ⟨?_, ?_⟩, ⟨?_, ?_⟩, by simp⟩
      · intro hnil
        rcases List.take_eq_nil_iff.mp hnil with hzero | hnil
        · omega
        · exact h.ne_nil hnil
      · exact fun c hc => h.digit c (List.mem_of_mem_take hc)
      · intro hnil
        have := List.drop_eq_nil_iff.mp hnil
        omega
      · exact fun c hc => h.digit c (List.mem_of_mem_drop hc)
    · have hwhole := h.append_zeros (point.toNat - digits.length)
      refine ⟨_, ['0'], hwhole, hzero, ?_⟩
      rw [hwhole.not_contains_point]
      rfl

theorem exponentText_exponentChars (e : Int) : ExponentText (exponentChars e) := by
  unfold exponentChars
  split
  · exact .some false (isDigits_digitsOf e.natAbs)
  · exact .some true (isDigits_digitsOf e.natAbs)

theorem numeralText_floatChars (x : Binary64) : NumeralText (floatChars x) := by
  have hdigits := isDigits_digitsOf (Decimal.shortest x).digits
  have hnumeral {digits tail : List Char} := @NumeralText.mk digits tail x.isNegative
  simp only [floatChars]
  generalize (if x.isNegative = true then ['-'] else []) = sign at hnumeral ⊢
  split
  · obtain ⟨whole, fraction, hwhole, hfraction, hbody⟩ := exists_placed hdigits
      ((Decimal.digitsOf (Decimal.shortest x).digits).length + (Decimal.shortest x).exponent)
    have hparts := PartsText.fraction hfraction .none
    rw [List.append_nil] at hparts
    rw [hbody]
    exact hnumeral hwhole hparts
  · split
    · next one hone =>
      rw [hone] at hdigits
      exact hnumeral hdigits (.whole (exponentText_exponentChars _))
    · next first more hmore heq =>
      rw [heq] at hdigits
      have hfirst : IsDigits [first] :=
        ⟨by simp, by simpa using hdigits.digit first List.mem_cons_self⟩
      have hrest : IsDigits more := by
        refine ⟨?_, fun c hc => hdigits.digit c (List.mem_cons_of_mem _ hc)⟩
        rintro rfl
        exact hmore rfl
      rw [List.append_assoc, List.cons_append, List.cons_append]
      exact hnumeral hfirst (.fraction hrest (exponentText_exponentChars _))
    · next hnil => exact absurd hnil hdigits.ne_nil

theorem numeralText_integerChars (n : Int) : NumeralText (integerChars n) := by
  cases n with
  | ofNat n =>
    have h := NumeralText.mk false (isDigits_digitsOf n) (.whole .none)
    rwa [List.append_nil] at h
  | negSucc n =>
    have h := NumeralText.mk true (isDigits_digitsOf (n + 1)) (.whole .none)
    rwa [List.append_nil] at h

end ChangeRelay.Json
