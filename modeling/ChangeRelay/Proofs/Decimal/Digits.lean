import ChangeRelay.Decimal.Shortest
import Mathlib.Algebra.Group.Nat.Defs
import Mathlib.Data.List.Basic
/-!
# Decimal digits

The digits of a number, their value, and that no zero stands before another digit.
-/

namespace ChangeRelay.Decimal

theorem isDigit_iff (c : Char) : ('0' ≤ c && c ≤ '9') = c.isDigit := by
  have hle (a b : Char) : a ≤ b ↔ a.toNat ≤ b.toNat := Iff.rfl
  rw [Bool.eq_iff_iff, Bool.and_eq_true, decide_eq_true_eq, decide_eq_true_eq, hle, hle,
    Char.isDigit_iff_toNat]

theorem digitsOf_ne_nil (n : ℕ) : digitsOf n ≠ [] :=
  List.length_pos_iff.mp Nat.length_toDigits_pos

theorem isDigit_of_mem_digitsOf {n : ℕ} {c : Char} (h : c ∈ digitsOf n) : c.isDigit = true :=
  Nat.isDigit_of_mem_toDigits (by decide) (by decide) h

/-- The value of digits, read from the left. -/
theorem foldl_digitsOf (n : ℕ) :
    (digitsOf n).foldl (fun v c => 10 * v + (c.toNat - '0'.toNat)) 0 = n := by
  rw [← Nat.ofDigitChars_eq_foldl]
  exact Nat.ofDigitChars_ten_toDigits

theorem foldl_zeros_append (k : ℕ) (digits : List Char) :
    (zeros k ++ digits).foldl (fun v c => 10 * v + (c.toNat - '0'.toNat)) 0 =
      digits.foldl (fun v c => 10 * v + (c.toNat - '0'.toNat)) 0 := by
  rw [← Nat.ofDigitChars_eq_foldl, ← Nat.ofDigitChars_eq_foldl, Nat.ofDigitChars_append, zeros,
    Nat.ofDigitChars_replicate_zero, Nat.mul_zero]

theorem length_digitsOf_le {n width : ℕ} (hwidth : 0 < width) (h : n < 10 ^ width) :
    (digitsOf n).length ≤ width :=
  (Nat.length_toDigits_le_iff (by decide) hwidth).mpr h

/-- The digits of a number above zero do not start with one. -/
theorem head_digitsOf_ne {n : ℕ} (hn : 0 < n) : (digitsOf n).head? ≠ some '0' := by
  -- the first digit stays when the last one is cut off
  induction n using Nat.strongRecOn with
  | ind n ih =>
    rw [digitsOf, Nat.toDigits_eq_if (by decide)]
    split
    · next hlt =>
      intro h
      have hzero : n.digitChar = '0' := Option.some.inj h
      have hvalue := Nat.toNat_digitChar_of_lt_ten hlt
      rw [hzero] at hvalue
      have : '0'.toNat = 48 := rfl
      omega
    · next hge =>
      show (digitsOf (n / 10) ++ [(n % 10).digitChar]).head? ≠ some '0'
      rw [List.head?_append_of_ne_nil _ (digitsOf_ne_nil (n / 10))]
      exact ih (n / 10) (by omega) (by omega)

end ChangeRelay.Decimal
