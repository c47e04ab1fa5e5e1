import ChangeRelay.Proofs.Record.InRange
import Mathlib.Algebra.BigOperators.Ring.Finset
import Mathlib.Data.List.GetD
import Mathlib.Data.List.Induction
import Mathlib.Tactic.Ring
/-!
# The polynomial hash in closed form

`KeyHash.ofText` takes the units of a text one after the other and keeps 32 bits at every step.
Over the integers, where nothing is lost, `k` units come to

  `u₀ * 31 ^ (k - 1) + u₁ * 31 ^ (k - 2) + … + uₖ₋₁`

and the hash is what a word with sign keeps of this sum. So the hash of a text follows from the
hashes of its parts, and producers that compute it in any other order place a key where it is placed
here.
-/

namespace ChangeRelay

namespace Utf16

/-! ## Spelling in units -/

/-- How characters are spelled in units: one of the basic plane is its own unit, any other one is a
high surrogate and a low one, with ten bits each of how far it is above that plane. -/
inductive Spelled : List Char → List ℕ → Prop
  | nil : Spelled [] []
  | basic {c : Char} {cs : List Char} {us : List ℕ} (hplane : c.toNat < 0x10000)
      (h : Spelled cs us) : Spelled (c :: cs) (c.toNat :: us)
  | pair {c : Char} {cs : List Char} {us : List ℕ} {high low : ℕ} (hhigh : high < 0x400)
      (hlow : low < 0x400) (hchar : c.toNat = 0x10000 + 0x400 * high + low) (h : Spelled cs us) :
      Spelled (c :: cs) ((0xD800 + high) :: (0xDC00 + low) :: us)

/-- There is one spelling, and `unitsOf` gives it. -/
theorem spelled_iff (cs : List Char) (us : List ℕ) : Spelled cs us ↔ us = cs.flatMap unitsOf := by
  constructor
  · intro h
    induction h with
    | nil => rfl
    | @basic c cs us hplane _ ih =>
      have hunits : unitsOf c = [c.toNat] := if_pos hplane
      rw [List.flatMap_cons, hunits, ih]
      rfl
    | @pair c cs us high low hhigh hlow hchar _ ih =>
      have hunits : unitsOf c = [0xD800 + high, 0xDC00 + low] := by
        unfold unitsOf
        rw [if_neg (by omega)]
        have hquotient : (c.toNat - 0x10000) / 0x400 = high := by omega
        have hremainder : (c.toNat - 0x10000) % 0x400 = low := by omega
        rw [hquotient, hremainder]
      rw [List.flatMap_cons, hunits, ih]
      rfl
  · rintro rfl
    induction cs with
    | nil => exact .nil
    | cons c cs ih =>
      rw [List.flatMap_cons]
      unfold unitsOf
      by_cases hplane : c.toNat < 0x10000
      · rw [if_pos hplane]
        exact .basic hplane ih
      · rw [if_neg hplane]
        have hrange := Utf8.toNat_range c
        apply Spelled.pair
        · omega
        · omega
        · omega
        · exact ih

theorem units_append (a b : String) : units (a ++ b) = units a ++ units b := by
  unfold units
  rw [String.toList_append, List.flatMap_append]

end Utf16

namespace KeyHash

/-! ## The hash over the integers -/

/-- What units come to without a bound: each counts with the power of the base that is left after
it. -/
def unbounded (us : List ℕ) : ℤ :=
  ∑ i ∈ Finset.range us.length, (us.getD i 0 : ℤ) * 31 ^ (us.length - 1 - i)

@[simp] theorem unbounded_nil : unbounded [] = 0 := rfl

/-- A further unit moves all others up by one power. -/
theorem unbounded_concat (us : List ℕ) (u : ℕ) :
    unbounded (us ++ [u]) = unbounded us * 31 + u := by
  unfold unbounded
  have hlength : (us ++ [u]).length = us.length + 1 := by simp
  have hlast : (us ++ [u]).getD us.length 0 = u := by simp
  rw [hlength, Finset.sum_range_succ, Finset.sum_mul, hlast]
  have hothers : ∀ i ∈ Finset.range us.length,
      ((us ++ [u]).getD i 0 : ℤ) * 31 ^ (us.length + 1 - 1 - i) =
        (us.getD i 0 : ℤ) * 31 ^ (us.length - 1 - i) * 31 := by
    intro i hi
    have hi : i < us.length := Finset.mem_range.mp hi
    have hpower : us.length + 1 - 1 - i = us.length - 1 - i + 1 := by omega
    rw [List.getD_append _ _ _ _ hi, hpower, pow_succ, mul_assoc]
  have hzero : us.length + 1 - 1 - us.length = 0 := by omega
  rw [Finset.sum_congr rfl hothers, hzero, pow_zero, mul_one]

/-- What stands before other units moves up by as many powers as there are of them. -/
theorem unbounded_append (us vs : List ℕ) :
    unbounded (us ++ vs) = unbounded us * 31 ^ vs.length + unbounded vs := by
  induction vs using List.reverseRecOn with
  | nil => simp
  | append_singleton vs v ih =>
    have hlength : (vs ++ [v]).length = vs.length + 1 := by simp
    rw [← List.append_assoc, unbounded_concat, ih, unbounded_concat, hlength, pow_succ]
    ring

/-! ## What a word keeps of it -/

/-- What stands before other units counts by what a word keeps of it. -/
theorem bmod_shifted (a b k : ℤ) :
    (a.bmod (2 ^ 32) * k + b).bmod (2 ^ 32) = (a * k + b).bmod (2 ^ 32) := by
  rw [← Int.bmod_add_bmod, Int.bmod_mul_bmod, Int.bmod_add_bmod]

/-- The steps of the hash keep the last 32 bits of the sum, whether or not they go over. -/
theorem toInt_foldl_units (us : List ℕ) :
    (us.foldl (fun h u => h * base + Int32.ofNat u) 0).toInt = (unbounded us).bmod (2 ^ 32) := by
  induction us using List.reverseRecOn with
  | nil => rfl
  | append_singleton us u ih =>
    rw [List.foldl_append, List.foldl_cons, List.foldl_nil, toInt_step, ih, unbounded_concat,
      bmod_shifted]

theorem toInt_ofText (text : String) :
    (ofText text).toInt = (unbounded (Utf16.units text)).bmod (2 ^ 32) :=
  toInt_foldl_units (Utf16.units text)

/-- The hash of a text that is put together is made of the hashes of its parts. -/
theorem toInt_ofText_append (a b : String) :
    (ofText (a ++ b)).toInt =
      ((ofText a).toInt * 31 ^ (Utf16.units b).length + (ofText b).toInt).bmod (2 ^ 32) := by
  rw [toInt_ofText, toInt_ofText a, toInt_ofText b, Utf16.units_append, unbounded_append,
    Int.add_bmod_bmod, bmod_shifted]

/-- The polynomial hash of a text is what 32 bits with sign keep of the sum over its UTF-16 units.
The hash of two texts in a row follows from their hashes and the length of the second one. The
partition of a key among two or more is the remainder of its hash by their number, without the sign
that it has from the hash. -/
theorem polynomial_partition_by_units :
    (∀ text : String, Utf16.Spelled text.toList (Utf16.units text) ∧
      (ofText text).toInt = (∑ i ∈ Finset.range (Utf16.units text).length,
        ((Utf16.units text).getD i 0 : ℤ) * 31 ^ ((Utf16.units text).length - 1 - i)).bmod
          (2 ^ 32)) ∧
      (∀ a b : String, (ofText (a ++ b)).toInt =
        ((ofText a).toInt * 31 ^ (Utf16.units b).length + (ofText b).toInt).bmod (2 ^ 32)) ∧
      ∀ (key : String) (count : Int32), 2 ≤ count.toInt →
        (KeyHash.polynomial.partition key count).toInt = |(ofText key).toInt.tmod count.toInt| := by
  refine ⟨fun text => ⟨?_, toInt_ofText text⟩, toInt_ofText_append, ?_⟩
  · exact (Utf16.spelled_iff _ _).mpr rfl
  · intro key count hcount
    rw [toInt_partition .polynomial key (by omega)]
    exact Int.natCast_natAbs _

/-- A key with a pair of surrogates, whose hash is negative. -/
theorem polynomial_partition_of_pair :
    2 ≤ (7 : Int32).toInt ∧
      Utf16.units "users-😀" = [117, 115, 101, 114, 115, 45, 0xD83D, 0xDE00] ∧
      (ofText "users-😀").toInt = -263845048 ∧
      (KeyHash.polynomial.partition "users-😀" 7).toInt = 5 := by
  have hhash : (ofText "users-😀").toInt = -263845048 := by decide
  refine ⟨by decide, by decide, hhash, ?_⟩
  rw [polynomial_partition_by_units.2.2 "users-😀" 7 (by decide), hhash]
  rfl

end KeyHash

end ChangeRelay
