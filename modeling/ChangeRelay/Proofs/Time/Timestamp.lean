import ChangeRelay.Proofs.Decimal.Digits
import ChangeRelay.Time.Timestamp
/-!
# Timestamps read back

The text of a point of time is read as that point of time.
-/

namespace ChangeRelay.Timestamp

/-! ## Numbers -/

variable {n width low high : ℕ} {rest digits : List Char}

/-- What follows a number does not go on with a digit. -/
def EndsNumber (rest : List Char) : Prop :=
  ∀ c ∈ rest.head?, c.isDigit = false

theorem isSome_digit? (c : Char) : (digit? c).isSome = c.isDigit := by
  rw [digit?, ← Decimal.isDigit_iff]
  split <;> simp_all

theorem not_isBlank_of_isDigit {c : Char} (h : c.isDigit = true) : isBlank c = false := by
  obtain ⟨hlow, hhigh⟩ := Char.isDigit_iff_toNat.mp h
  have hlow' : 48 ≤ c.toNat := hlow
  have hhigh' : c.toNat ≤ 57 := hhigh
  simp only [isBlank, blankRanges, List.any_cons, List.any_nil, Bool.or_false, Bool.or_eq_false_iff,
    Bool.and_eq_false_iff, decide_eq_false_iff_not]
  omega

theorem skipBlank_cons {c : Char} (h : isBlank c = false) (rest : List Char) :
    skipBlank (c :: rest) = c :: rest := by
  rw [skipBlank, List.dropWhile_cons_of_neg (by simp [h])]

theorem takeWhile_digits (hdigits : ∀ c ∈ digits, c.isDigit = true) (hrest : EndsNumber rest) :
    (digits ++ rest).takeWhile (fun c => (digit? c).isSome) = digits := by
  rw [List.takeWhile_append_of_pos fun c hc => by rw [isSome_digit?, hdigits c hc]]
  cases rest with
  | nil => rw [List.takeWhile_nil, List.append_nil]
  | cons c rest =>
    have hc : (digit? c).isSome = false := by
      rw [isSome_digit?]
      exact hrest c rfl
    rw [List.takeWhile_cons_of_neg (by simp [hc]), List.append_nil]

/-- Digits are read as their value; as many as are read at most, or what follows is no digit. -/
theorem number_append (hdigits : ∀ c ∈ digits, c.isDigit = true) (hne : digits ≠ [])
    (hwidth : digits.length ≤ width) (hrest : digits.length = width ∨ EndsNumber rest) :
    number width (digits ++ rest) = .ok (valueOf digits, rest) := by
  have htake : (digits ++ rest).take width = digits ++ rest.take (width - digits.length) := by
    rw [List.take_append, List.take_of_length_le hwidth]
  have hends : EndsNumber (rest.take (width - digits.length)) := by
    rcases hrest with hlength | hends
    · rw [hlength, Nat.sub_self, List.take_zero]
      intro c hc
      simp at hc
    · intro c hc
      cases rest with
      | nil => simp at hc
      | cons d rest =>
        cases hk : width - digits.length with
        | zero => simp [hk] at hc
        | succ k => exact hends c (by simpa [hk] using hc)
  have hread : ((digits ++ rest).take width).takeWhile (fun c => (digit? c).isSome) = digits := by
    rw [htake, takeWhile_digits hdigits hends]
  cases digits with
  | nil => exact absurd rfl hne
  | cons d digits =>
    have hdrop : (d :: digits ++ rest).drop (d :: digits).length = rest := List.drop_left
    unfold number
    simp only [hread]
    show Except.ok (valueOf (d :: digits), (d :: digits ++ rest).drop (d :: digits).length) = _
    rw [hdrop]

/-! ## Padded numbers -/

theorem padded_eq (width n : ℕ) : padded width n =
    Decimal.zeros (width - (Decimal.digitsOf n).length) ++ Decimal.digitsOf n :=
  rfl

theorem isDigit_of_mem_padded {c : Char} (h : c ∈ padded width n) : c.isDigit = true := by
  rw [padded_eq] at h
  rcases List.mem_append.mp h with h | h
  · rw [List.eq_of_mem_replicate h]
    rfl
  · exact Decimal.isDigit_of_mem_digitsOf h

theorem padded_ne_nil (width n : ℕ) : padded width n ≠ [] := by
  rw [padded_eq]
  exact List.append_ne_nil_of_right_ne_nil _ (Decimal.digitsOf_ne_nil n)

theorem valueOf_padded (width n : ℕ) : valueOf (padded width n) = n := by
  rw [valueOf, padded_eq, Decimal.foldl_zeros_append, Decimal.foldl_digitsOf]

theorem length_padded (hwidth : 0 < width) (hn : n < 10 ^ width) :
    (padded width n).length = width := by
  have hle := Decimal.length_digitsOf_le hwidth hn
  rw [padded_eq, List.length_append, Decimal.zeros, List.length_replicate]
  omega

/-- A number that fits its width is read back, whatever follows it. -/
theorem number_padded (hwidth : 0 < width) (hn : n < 10 ^ width) (rest : List Char) :
    number width (padded width n ++ rest) = .ok (n, rest) := by
  have hlength := length_padded hwidth hn
  rw [number_append (fun c hc => isDigit_of_mem_padded hc) (padded_ne_nil width n)
    (Nat.le_of_eq hlength) (Or.inl hlength), valueOf_padded]

theorem skipBlank_padded (width n : ℕ) (rest : List Char) :
    skipBlank (padded width n ++ rest) = padded width n ++ rest := by
  cases hpadded : padded width n with
  | nil => exact absurd hpadded (padded_ne_nil width n)
  | cons c cs =>
    have hc : c.isDigit = true := isDigit_of_mem_padded (hpadded ▸ List.mem_cons_self)
    exact skipBlank_cons (not_isBlank_of_isDigit hc) _

theorem field_padded (hwidth : 0 < width) (hn : n < 10 ^ width) (hlow : low ≤ n) (hhigh : n ≤ high)
    (rest : List Char) : field width low high (padded width n ++ rest) = .ok (n, rest) := by
  rw [field, skipBlank_padded, number_padded hwidth hn]
  simp [bind, Except.bind, hlow, hhigh]

/-! ## The parts of a timestamp -/

/-- A point of time that the calendar and the clock have. -/
structure Valid (t : Timestamp) : Prop where
  date : isDate t.year t.month t.day = true
  hour : t.hour ≤ 23
  minute : t.minute ≤ 59
  second : t.second ≤ 60
  nanos : t.nanos < 10 ^ 9

/-- Four digits without a sign are read as a year. -/
theorem yearField_padded {n : ℕ} (hn : n < 10 ^ 4) (rest : List Char) :
    yearField (padded 4 n ++ rest) = .ok ((n : Int), rest) := by
  have hnumber := number_padded (by decide) hn rest
  cases hpadded : padded 4 n with
  | nil => exact absurd hpadded (padded_ne_nil 4 n)
  | cons c cs =>
    have hc : c.isDigit = true := isDigit_of_mem_padded (hpadded ▸ List.mem_cons_self)
    rw [hpadded] at hnumber
    rw [yearField, List.cons_append, skipBlank_cons (not_isBlank_of_isDigit hc)]
    split
    · next heq => simp [(List.cons.inj heq).1] at hc
    · next heq => simp [(List.cons.inj heq).1] at hc
    · rw [← List.cons_append, hnumber]
      simp [bind, Except.bind]

theorem yearField_yearChars {year : Int} (hlow : yearRange.1 ≤ year) (hhigh : year ≤ yearRange.2)
    (rest : List Char) :
    yearField (yearChars year ++ '-' :: rest) = .ok (year, '-' :: rest) := by
  have hlimit : year.natAbs < yearLimit := by
    have hlow' : (-262143 : Int) ≤ year := hlow
    have hhigh' : year ≤ (262142 : Int) := hhigh
    show year.natAbs < 2147483648
    omega
  have hends : EndsNumber ('-' :: rest) := by
    intro c hc
    obtain rfl : '-' = c := Option.some.inj hc
    rfl
  -- a year with a sign may have any number of digits
  have hsigned : number (padded 4 year.natAbs ++ '-' :: rest).length
      (padded 4 year.natAbs ++ '-' :: rest) = .ok (year.natAbs, '-' :: rest) := by
    rw [number_append (fun c hc => isDigit_of_mem_padded hc) (padded_ne_nil 4 _)
      (by rw [List.length_append]; omega) (Or.inr hends), valueOf_padded]
  unfold yearChars
  split
  · next hfits =>
    have hrange : 0 ≤ year ∧ year ≤ 9999 := by simpa using hfits
    have habs : (year.natAbs : Int) = year := by omega
    rw [yearField_padded (by omega), habs]
  · next hwide =>
    split
    · next hneg =>
      have habs : -(year.natAbs : Int) = year := by omega
      show yearField ('-' :: (padded 4 year.natAbs ++ '-' :: rest)) = _
      rw [yearField, skipBlank_cons (by decide)]
      simp only [hsigned, bind, Except.bind]
      rw [if_pos (Nat.le_of_lt hlimit), habs]
    · next hpos =>
      have habs : (year.natAbs : Int) = year := by omega
      show yearField ('+' :: (padded 4 year.natAbs ++ '-' :: rest)) = _
      rw [yearField, skipBlank_cons (by decide)]
      simp only [hsigned, bind, Except.bind]
      rw [if_pos hlimit, habs]

/-- The fraction of a second is read back in front of what is no digit. -/
theorem fraction_fractionChars {nanos : ℕ} (hnanos : nanos < 10 ^ 9) (rest : List Char) :
    fraction (fractionChars nanos ++ 'Z' :: rest) = .ok (nanos, 'Z' :: rest) := by
  have hends : EndsNumber ('Z' :: rest) := by
    intro c hc
    obtain rfl : 'Z' = c := Option.some.inj hc
    rfl
  have hdigits {width n : ℕ} (hwidth : 0 < width) (hle : width ≤ 9) (hn : n < 10 ^ width) :
      fraction ('.' :: (padded width n ++ 'Z' :: rest)) =
        .ok (n * 10 ^ (9 - width), 'Z' :: rest) := by
    have hlength := length_padded hwidth hn
    have hnumber : number 9 (padded width n ++ 'Z' :: rest) = .ok (n, 'Z' :: rest) := by
      rw [number_append (fun c hc => isDigit_of_mem_padded hc) (padded_ne_nil width n)
        (by omega) (Or.inr hends), valueOf_padded]
    have hread : (padded width n ++ 'Z' :: rest).length - ('Z' :: rest).length = width := by
      rw [List.length_append, hlength]
      omega
    have hdrop : ('Z' :: rest).dropWhile (fun c => (digit? c).isSome) = 'Z' :: rest :=
      List.dropWhile_cons_of_neg (by decide)
    rw [fraction]
    simp only [hnumber, bind, Except.bind, hread, hdrop]
    rfl
  unfold fractionChars
  split
  · next hzero => subst hzero; rfl
  · split
    · next hmilli =>
      rw [List.cons_append, hdigits (by decide) (by decide) (by omega),
        show nanos / 1000000 * 10 ^ (9 - 3) = nanos by omega]
    · split
      · next hmicro =>
        rw [List.cons_append, hdigits (by decide) (by decide) (by omega),
          show nanos / 1000 * 10 ^ (9 - 6) = nanos by omega]
      · rw [List.cons_append, hdigits (by decide) (by decide) hnanos,
          show nanos * 10 ^ (9 - 9) = nanos by omega]

/-- In UTC the local fields are those of the point of time. -/
theorem ofLocal_zero {t : Timestamp} (ht : t.Valid) : ofLocal t 0 = t := by
  have hhour := ht.hour
  have hminute := ht.minute
  have hminutes : ((60 * t.hour + t.minute : ℕ) : Int) - 0 =
    (60 * t.hour + t.minute : ℕ) := by omega
  have hinDay : ((60 * t.hour + t.minute : ℕ) : Int) % 1440 = (60 * t.hour + t.minute : ℕ) := by
    omega
  rw [ofLocal]
  simp only [hminutes, hinDay, Int.toNat_natCast]
  rw [if_neg (by omega), if_neg (by omega), show (60 * t.hour + t.minute) / 60 = t.hour by omega,
    show (60 * t.hour + t.minute) % 60 = t.minute by omega]

theorem daysInMonth_le (year : Int) (month : ℕ) : daysInMonth year month ≤ 31 := by
  unfold daysInMonth
  split_ifs <;> decide

/-- The text of a point of time is read as it. -/
theorem read_text {t : Timestamp} (ht : t.Valid) : read t.text.toList = .ok t := by
  have hdate : yearRange.1 ≤ t.year ∧ t.year ≤ yearRange.2 ∧ 1 ≤ t.month ∧ t.month ≤ 12 ∧
      1 ≤ t.day ∧ t.day ≤ daysInMonth t.year t.month := by
    simpa [isDate, and_assoc] using ht.date
  obtain ⟨hyear, hyear', hmonth, hmonth', hday, hday'⟩ := hdate
  have hday'' := daysInMonth_le t.year t.month
  have hhour := ht.hour
  have hminute := ht.minute
  have hsecond := ht.second
  have hfield {n low high : ℕ} (hlow : low ≤ n) (hhigh : n ≤ high) (hn : n < 10 ^ 2)
      (rest : List Char) := field_padded (by decide) hn hlow hhigh rest
  have htext : t.text.toList = yearChars t.year ++ '-' :: (padded 2 t.month ++ '-' ::
      (padded 2 t.day ++ 'T' :: (padded 2 t.hour ++ ':' :: (padded 2 t.minute ++ ':' ::
        (padded 2 t.second ++ (fractionChars t.nanos ++ ['Z'])))))) := by
    simp [text, civilChars]
  have hzone : zone (skipBlank ['Z']) = .ok (0, []) := rfl
  have hdash (rest : List Char) : literal '-' (skipBlank ('-' :: rest)) = .ok rest := by
    rw [skipBlank_cons (by decide), literal, if_pos rfl]
  have hcolon (rest : List Char) : literal ':' (skipBlank (':' :: rest)) = .ok rest := by
    rw [skipBlank_cons (by decide), literal, if_pos rfl]
  have hseparator (rest : List Char) : separator ('T' :: rest) = .ok rest := rfl
  rw [htext, read, yearField_yearChars hyear hyear']
  simp only [bind, Except.bind, hdash, hcolon, hseparator, hzone,
    hfield hmonth hmonth' (by omega), hfield hday (Nat.le_trans hday' hday'') (by omega),
    hfield (Nat.zero_le _) hhour (by omega), hfield (Nat.zero_le _) hminute (by omega),
    hfield (Nat.zero_le _) hsecond (by omega), fraction_fractionChars ht.nanos]
  simp [skipBlank, ht.date, ofLocal_zero ht, hyear, hyear']

end ChangeRelay.Timestamp
