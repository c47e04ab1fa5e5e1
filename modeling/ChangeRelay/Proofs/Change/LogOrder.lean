import ChangeRelay.Proofs.Change.PositionOrder
import ChangeRelay.Proofs.Time.Timestamp
import ChangeRelay.Source.Basic
import Mathlib.Data.List.Lex
/-!
# Numbered logs

Logs are named by a base, a point and their number in at least six digits. Positions compare the
names as texts, which is the order of the numbers only while the longer number does not start
below the shorter one.
-/

namespace ChangeRelay

/-! ## Digits in text order -/

namespace Timestamp

variable {as bs cs : List Char}

theorem valueOf_append (as bs : List Char) :
    valueOf (as ++ bs) = valueOf as * 10 ^ bs.length + valueOf bs := by
  simp only [valueOf]
  rw [← Nat.ofDigitChars_eq_foldl, ← Nat.ofDigitChars_eq_foldl, ← Nat.ofDigitChars_eq_foldl,
    Nat.ofDigitChars_append, Nat.ofDigitChars_eq_ofDigitChars_zero, Nat.mul_comm]

theorem valueOf_cons (a : Char) (as : List Char) :
    valueOf (a :: as) = (a.toNat - '0'.toNat) * 10 ^ as.length + valueOf as := by
  have hone : valueOf [a] = a.toNat - '0'.toNat := by simp [valueOf]
  rw [show a :: as = [a] ++ as from rfl, valueOf_append, hone]

theorem valueOf_lt (h : ∀ c ∈ as, c.isDigit = true) : valueOf as < 10 ^ as.length := by
  induction as with
  | nil => exact Nat.one_pos
  | cons a as ih =>
    have has := ih fun c hc => h c (List.mem_cons_of_mem a hc)
    obtain ⟨hlow, hhigh⟩ := Char.isDigit_iff_toNat.mp (h a List.mem_cons_self)
    have hdigit : a.toNat - '0'.toNat ≤ 9 := by
      show a.toNat - 48 ≤ 9
      have : a.toNat ≤ 57 := hhigh
      omega
    have hle := Nat.mul_le_mul_right (10 ^ as.length) hdigit
    rw [valueOf_cons, List.length_cons, Nat.pow_succ]
    omega

/-- Digits of one length stand in the order of their values. -/
theorem lt_iff_valueOf_lt (hlength : as.length = bs.length) (has : ∀ c ∈ as, c.isDigit = true)
    (hbs : ∀ c ∈ bs, c.isDigit = true) : as < bs ↔ valueOf as < valueOf bs := by
  induction as generalizing bs with
  | nil =>
    obtain rfl : bs = [] := List.eq_nil_of_length_eq_zero hlength.symm
    simp
  | cons a as ih =>
    cases bs with
    | nil => simp at hlength
    | cons b bs =>
      have htail : as.length = bs.length := Nat.succ.inj hlength
      have has' : ∀ c ∈ as, c.isDigit = true := fun c hc => has c (List.mem_cons_of_mem a hc)
      have hbs' : ∀ c ∈ bs, c.isDigit = true := fun c hc => hbs c (List.mem_cons_of_mem b hc)
      have hvas := valueOf_lt has'
      have hvbs := valueOf_lt hbs'
      obtain ⟨hlowa, -⟩ := Char.isDigit_iff_toNat.mp (has a List.mem_cons_self)
      obtain ⟨hlowb, -⟩ := Char.isDigit_iff_toNat.mp (hbs b List.mem_cons_self)
      rw [List.cons_lt_cons_iff, ih htail has' hbs', valueOf_cons, valueOf_cons, htail]
      rw [htail] at hvas
      -- the first digits decide, unless they are the same
      rcases lt_trichotomy a b with hab | rfl | hab
      · have hstep : a.toNat - '0'.toNat + 1 ≤ b.toNat - '0'.toNat := by
          have : a.toNat < b.toNat := hab
          omega
        have hle := Nat.mul_le_mul_right (10 ^ bs.length) hstep
        rw [Nat.add_mul, Nat.one_mul] at hle
        refine iff_of_true (Or.inl hab) ?_
        omega
      · simp
      · have hstep : b.toNat - '0'.toNat + 1 ≤ a.toNat - '0'.toNat := by
          have : b.toNat < a.toNat := hab
          omega
        have hle := Nat.mul_le_mul_right (10 ^ bs.length) hstep
        rw [Nat.add_mul, Nat.one_mul] at hle
        refine iff_of_false ?_ (by omega)
        rintro (h | ⟨rfl, -⟩)
        · exact lt_asymm h hab
        · exact lt_irrefl _ hab

/-- A text goes before every longer one that does not start below it. -/
theorem lt_append_iff (hlength : as.length = bs.length) (hne : cs ≠ []) :
    as < bs ++ cs ↔ ¬bs < as := by
  induction as generalizing bs with
  | nil =>
    obtain rfl : bs = [] := List.eq_nil_of_length_eq_zero hlength.symm
    obtain ⟨c, cs, rfl⟩ := List.exists_cons_of_ne_nil hne
    simp
  | cons a as ih =>
    cases bs with
    | nil => simp at hlength
    | cons b bs =>
      rw [List.cons_append, List.cons_lt_cons_iff, List.cons_lt_cons_iff,
        ih (Nat.succ.inj hlength)]
      rcases lt_trichotomy a b with hab | rfl | hab
      · simp [hab, lt_asymm hab, ne_of_gt hab]
      · simp
      · simp [hab, lt_asymm hab, ne_of_gt hab]

/-- The value of the first digits. -/
theorem valueOf_take (hbs : ∀ c ∈ bs, c.isDigit = true) (k : ℕ) :
    valueOf (bs.take k) = valueOf bs / 10 ^ (bs.length - k) := by
  have hrest := valueOf_lt fun c hc => hbs c (List.mem_of_mem_drop (i := k) hc)
  have hvalue := valueOf_append (bs.take k) (bs.drop k)
  rw [List.take_append_drop] at hvalue
  rw [List.length_drop] at hrest hvalue
  rw [hvalue, Nat.add_comm, Nat.add_mul_div_right _ _ (Nat.pow_pos (by decide)),
    Nat.div_eq_of_lt hrest, Nat.zero_add]

/-- Shorter digits go before longer ones that do not start below them. -/
theorem lt_iff_valueOf_le (hlength : as.length < bs.length) (has : ∀ c ∈ as, c.isDigit = true)
    (hbs : ∀ c ∈ bs, c.isDigit = true) :
    as < bs ↔ valueOf as ≤ valueOf bs / 10 ^ (bs.length - as.length) := by
  have hstart : as.length = (bs.take as.length).length := by
    rw [List.length_take, Nat.min_eq_left (Nat.le_of_lt hlength)]
  have hrest : bs.drop as.length ≠ [] := by
    intro h
    have := List.drop_eq_nil_iff.mp h
    omega
  have htake : ∀ c ∈ bs.take as.length, c.isDigit = true :=
    fun c hc => hbs c (List.mem_of_mem_take hc)
  calc as < bs ↔ as < bs.take as.length ++ bs.drop as.length := by rw [List.take_append_drop]
    _ ↔ ¬bs.take as.length < as := lt_append_iff hstart hrest
    _ ↔ valueOf as ≤ valueOf (bs.take as.length) := by
      rw [lt_iff_valueOf_lt hstart.symm htake has, not_lt]
    _ ↔ valueOf as ≤ valueOf bs / 10 ^ (bs.length - as.length) := by rw [valueOf_take hbs]

end Timestamp

/-! ## Names of logs -/

namespace Position

variable {m n : ℕ}

/-- The name of the log with number `n`. -/
def logName (base : String) (n : ℕ) : String :=
  String.ofList (base.toList ++ '.' :: Timestamp.padded 6 n)

/-- How many digits the name of a log has. -/
def logDigits (n : ℕ) : ℕ :=
  (Timestamp.padded 6 n).length

/-- The longer of two log numbers does not start below the shorter one. -/
def InTextOrder (m n : ℕ) : Prop :=
  min m n ≤ max m n / 10 ^ (logDigits (max m n) - logDigits (min m n))

instance : Decidable (InTextOrder m n) :=
  inferInstanceAs (Decidable (_ ≤ _))

theorem logDigits_eq (n : ℕ) : logDigits n = max 6 (Decimal.digitsOf n).length := by
  rw [logDigits, Timestamp.padded_eq, List.length_append, Decimal.zeros, List.length_replicate]
  omega

theorem logDigits_mono (h : m ≤ n) : logDigits m ≤ logDigits n := by
  have hpos : 0 < (Decimal.digitsOf n).length := List.length_pos_iff.mpr (Decimal.digitsOf_ne_nil n)
  have hn : n < 10 ^ (Decimal.digitsOf n).length :=
    (Nat.length_toDigits_le_iff (by decide) hpos).mp (Nat.le_refl _)
  have hle := Decimal.length_digitsOf_le hpos (Nat.lt_of_le_of_lt h hn)
  rw [logDigits_eq, logDigits_eq]
  omega

theorem inTextOrder_comm : InTextOrder m n ↔ InTextOrder n m := by
  rw [InTextOrder, InTextOrder, min_comm, max_comm]

theorem inTextOrder_of_lt (h : m < n) :
    InTextOrder m n ↔ m ≤ n / 10 ^ (logDigits n - logDigits m) := by
  rw [InTextOrder, min_eq_left_of_lt h, max_eq_right_of_lt h]

theorem inTextOrder_of_logDigits_eq (h : logDigits m = logDigits n) : InTextOrder m n := by
  have hsame : logDigits (max m n) = logDigits (min m n) := by
    rcases le_total m n with hle | hle
    · rw [max_eq_right hle, min_eq_left hle, h]
    · rw [max_eq_left hle, min_eq_right hle, h]
  rw [InTextOrder, hsame, Nat.sub_self, Nat.pow_zero, Nat.div_one]
  exact min_le_max

theorem logName_lt_iff (base : String) :
    logName base m < logName base n ↔ Timestamp.padded 6 m < Timestamp.padded 6 n := by
  rw [String.lt_iff_toList_lt, logName, logName, String.toList_ofList, String.toList_ofList]
  induction base.toList with
  | nil => simp
  | cons c cs ih => simpa [List.cons_lt_cons_iff] using ih

/-- The names of two logs stand in the order of their numbers, or else the other way around. -/
theorem logName_lt_iff_of_lt (base : String) (h : m < n) :
    logName base m < logName base n ↔ InTextOrder m n := by
  have hm : ∀ c ∈ Timestamp.padded 6 m, c.isDigit = true :=
    fun c hc => Timestamp.isDigit_of_mem_padded hc
  have hn : ∀ c ∈ Timestamp.padded 6 n, c.isDigit = true :=
    fun c hc => Timestamp.isDigit_of_mem_padded hc
  rw [logName_lt_iff]
  rcases Nat.eq_or_lt_of_le (logDigits_mono (Nat.le_of_lt h)) with hsame | hlonger
  · rw [Timestamp.lt_iff_valueOf_lt hsame hm hn, Timestamp.valueOf_padded, Timestamp.valueOf_padded]
    exact iff_of_true h (inTextOrder_of_logDigits_eq hsame)
  · rw [Timestamp.lt_iff_valueOf_le hlonger hm hn, Timestamp.valueOf_padded,
      Timestamp.valueOf_padded]
    exact (inTextOrder_of_lt h).symm

theorem logName_injective (base : String) : Function.Injective (logName base) := by
  intro m n h
  have hchars := String.ofList_injective h
  have hpadded : Timestamp.padded 6 m = Timestamp.padded 6 n :=
    (List.cons.inj (List.append_cancel_left hchars)).2
  rw [← Timestamp.valueOf_padded 6 m, hpadded, Timestamp.valueOf_padded]

theorem compare_logName_of_lt (base : String) (h : m < n) :
    compare (logName base m) (logName base n) = if InTextOrder m n then .lt else .gt := by
  split
  · next horder => exact compare_lt_iff_lt.mpr ((logName_lt_iff_of_lt base h).mpr horder)
  · next horder =>
    have hnot : ¬logName base m < logName base n := fun hlt =>
      horder ((logName_lt_iff_of_lt base h).mp hlt)
    have hne : logName base m ≠ logName base n := fun heq =>
      Nat.ne_of_lt h (logName_injective base heq)
    exact compare_gt_iff_gt.mpr (lt_of_le_of_ne (not_lt.mp hnot) hne.symm)

/-- The names of two logs compare as the numbers, or else the other way around. -/
theorem compare_logName (base : String) (m n : ℕ) :
    compare (logName base m) (logName base n) =
      if InTextOrder m n then compare m n else compare n m := by
  rcases lt_trichotomy m n with h | rfl | h
  · rw [compare_logName_of_lt base h, compare_lt_iff_lt.mpr h, compare_gt_iff_gt.mpr h]
  · rw [compare_eq_iff_eq.mpr rfl, compare_eq_iff_eq.mpr rfl, ite_self]
  · rw [Std.OrientedOrd.eq_swap, compare_logName_of_lt base h, compare_lt_iff_lt.mpr h,
      compare_gt_iff_gt.mpr h]
    simp only [inTextOrder_comm]
    split <;> rfl

/-- In log order: the numbers of the logs first, then the offsets. -/
def logOrder (m : ℕ) (o : UInt64) (n : ℕ) (o' : UInt64) : Ordering :=
  (compare m n).then (compare o o')

theorem order_logName (base : String) (m n : ℕ) (o o' : UInt64) :
    order ⟨logName base m, o⟩ ⟨logName base n, o'⟩ =
      if InTextOrder m n then logOrder m o n o' else logOrder n o m o' := by
  rw [order, compare_logName]
  split <;> rfl

theorem logOrder_of_lt (h : m < n) (o o' : UInt64) : logOrder m o n o' = .lt := by
  rw [logOrder, compare_lt_iff_lt.mpr h]
  rfl

theorem logOrder_of_gt (h : n < m) (o o' : UInt64) : logOrder m o n o' = .gt := by
  rw [logOrder, compare_gt_iff_gt.mpr h]
  rfl

/-- An event is not behind the checkpoint: its log is an earlier one, or its offset in the same log
is no higher. -/
theorem logOrder_ne_gt_iff (m n : ℕ) (o o' : UInt64) :
    logOrder m o n o' ≠ .gt ↔ m < n ∨ m = n ∧ o ≤ o' := by
  rcases lt_trichotomy m n with h | rfl | h
  · simp [logOrder_of_lt h, h]
  · have hoffset : ¬compare o o' = .gt ↔ o ≤ o' := by
      rw [← Std.isLE_compare, Ordering.isLE_iff_ne_gt]
    simp [logOrder, Ordering.then, hoffset]
  · simp [logOrder_of_gt h, lt_asymm h, ne_of_gt h]

/-- Numbers that are not in text order differ, so the wrong order of the names is seen in the result
and in what the result says about the checkpoint. -/
theorem logOrder_swapped (h : ¬InTextOrder m n) (o o' : UInt64) :
    logOrder n o m o' ≠ logOrder m o n o' ∧
      ¬(logOrder n o m o' ≠ .gt ↔ logOrder m o n o' ≠ .gt) := by
  rcases lt_trichotomy m n with hlt | rfl | hlt
  · simp [logOrder_of_lt hlt, logOrder_of_gt hlt]
  · exact absurd (inTextOrder_of_logDigits_eq rfl) h
  · simp [logOrder_of_lt hlt, logOrder_of_gt hlt]

/-- Positions in two numbered logs compare as the numbers of the logs and then the offsets exactly
while the longer number does not start below the shorter one, and exactly then a source that goes on
behind the one passes over an event at the other if and only if the event stands up to it in the
log. Numbers of equally many digits always are in this order. -/
theorem order_eq_logOrder_iff (base : String) (m n : ℕ) (o o' : UInt64) (c : Change) :
    (order ⟨logName base m, o⟩ ⟨logName base n, o'⟩ = logOrder m o n o' ↔ InTextOrder m n) ∧
    ((Source.passesOver (some ⟨logName base n, o'⟩)
        { c with position := ⟨logName base m, o⟩ } = true ↔ m < n ∨ m = n ∧ o ≤ o') ↔
      InTextOrder m n) ∧
    (logDigits m = logDigits n → InTextOrder m n) := by
  have hpasses : Source.passesOver (some ⟨logName base n, o'⟩)
      { c with position := ⟨logName base m, o⟩ } = true ↔
        order ⟨logName base m, o⟩ ⟨logName base n, o'⟩ ≠ .gt := by
    simp [Source.passesOver, atOrBefore]
  rw [hpasses, order_logName, ← logOrder_ne_gt_iff]
  refine ⟨?_, ?_, inTextOrder_of_logDigits_eq⟩
  · split
    · next h => exact iff_of_true rfl h
    · next h => exact iff_of_false (logOrder_swapped h o o').1 h
  · split
    · next h => exact iff_of_true Iff.rfl h
    · next h => exact iff_of_false (logOrder_swapped h o o').2 h

/-- Logs 3 and 4 stand in log order. -/
theorem order_of_short_numbers :
    logDigits 3 = logDigits 4 ∧
      order ⟨logName "mysql-bin" 3, 900⟩ ⟨logName "mysql-bin" 4, 4⟩ = .lt := by
  have hdigits : logDigits 3 = logDigits 4 := by decide
  obtain ⟨horder, -, hsame⟩ := order_eq_logOrder_iff "mysql-bin" 3 4 900 4 default
  refine ⟨hdigits, ?_⟩
  rw [horder.mpr (hsame hdigits)]
  decide

/-- A checkpoint in log 999999 makes the source pass over an event of log 1000000. -/
theorem next_log_passed_over :
    order ⟨logName "mysql-bin" 1000000, 4⟩ ⟨logName "mysql-bin" 999999, 900⟩ = .lt ∧
      logOrder 1000000 4 999999 900 = .gt ∧
      Source.passesOver (some ⟨logName "mysql-bin" 999999, 900⟩)
        { (default : Change) with position := ⟨logName "mysql-bin" 1000000, 4⟩ } = true := by
  have hnot : ¬InTextOrder 1000000 999999 := by decide
  have horder : order ⟨logName "mysql-bin" 1000000, 4⟩ ⟨logName "mysql-bin" 999999, 900⟩ = .lt := by
    rw [order_logName, if_neg hnot]
    exact logOrder_of_lt (by decide) 4 900
  refine ⟨horder, logOrder_of_gt (by decide) 4 900, ?_⟩
  simp [Source.passesOver, atOrBefore, horder]

end Position
end ChangeRelay
