import ChangeRelay.Proofs.Record.InRange
import Mathlib.Data.Nat.Bitwise
/-!
# The murmur2 hash by index

`Murmur2.hash` takes its bytes off the front of a list, four at a time. Other producers compute it
over an array: a loop over the index of every whole word, and for the bytes behind the last one a
fall-through over their number. Both are the same function, so a key is placed where those producers
place it.
-/

namespace ChangeRelay

namespace Murmur2

/-! ## The hash of an array -/

/-- The byte at an index, as a word. -/
def byteAt (bytes : List UInt8) (i : ℕ) : UInt32 :=
  (bytes.getD i 0).toUInt32

/-- The little-endian word of the four bytes from an index on. -/
def wordAt (bytes : List UInt8) (i : ℕ) : UInt32 :=
  .ofNat <| (byteAt bytes i).toNat + 2 ^ 8 * (byteAt bytes (i + 1)).toNat +
    2 ^ 16 * (byteAt bytes (i + 2)).toNat + 2 ^ 24 * (byteAt bytes (i + 3)).toNat

/-- The loop over all whole words. -/
def loopWords (bytes : List UInt8) (h : UInt32) : UInt32 :=
  (List.range (bytes.length / 4)).foldl (fun h i =>
    let k := wordAt bytes (4 * i)
    let k := k * 0x5bd1e995
    let k := k ^^^ (k >>> 24)
    let k := k * 0x5bd1e995
    h * 0x5bd1e995 ^^^ k) h

/-- The bytes behind the last whole word; three of them fall through to two, and two to one. -/
def fallThrough (bytes : List UInt8) (h : UInt32) : UInt32 :=
  let first := bytes.length.ldiff 3
  let h := if 3 ≤ bytes.length % 4 then h ^^^ (byteAt bytes (first + 2) <<< 16) else h
  let h := if 2 ≤ bytes.length % 4 then h ^^^ (byteAt bytes (first + 1) <<< 8) else h
  if 1 ≤ bytes.length % 4 then (h ^^^ byteAt bytes first) * 0x5bd1e995 else h

/-- The hash of an array. -/
def byIndex (bytes : List UInt8) : UInt32 :=
  let h := 0x9747b28c ^^^ UInt32.ofNat bytes.length
  let h := loopWords bytes h
  let h := fallThrough bytes h
  let h := h ^^^ (h >>> 13)
  let h := h * 0x5bd1e995
  h ^^^ (h >>> 15)

/-! ## Words and left-over bytes -/

theorem word_eq_ofNat (a b c d : UInt8) : word a b c d =
    .ofNat (a.toNat + 2 ^ 8 * b.toNat + 2 ^ 16 * c.toNat + 2 ^ 24 * d.toNat) := by
  have hword := toNat_word a b c d
  rw [numberOf] at hword
  rw [← hword, UInt32.ofNat_toNat]

theorem ldiff_three (n : ℕ) : n.ldiff 3 = n / 4 * 4 := by
  have hshifted : n / 4 * 4 = (n >>> 2) <<< 2 := by
    rw [Nat.shiftRight_eq_div_pow, Nat.shiftLeft_eq]
  refine Nat.eq_of_testBit_eq fun i => ?_
  rw [Nat.testBit_ldiff, hshifted, Nat.testBit_shiftLeft, Nat.testBit_shiftRight]
  by_cases hi : 2 ≤ i
  · have hthree : Nat.testBit 3 i = false := by
      refine Nat.testBit_lt_two_pow (Nat.lt_of_lt_of_le (by decide : 3 < 2 ^ 2) ?_)
      exact Nat.pow_le_pow_right (by decide) hi
    rw [hthree, Nat.add_sub_cancel' hi]
    simp [hi]
  · have hcases : i = 0 ∨ i = 1 := by omega
    have hthree : Nat.testBit 3 i = true := by
      rcases hcases with rfl | rfl
      · rfl
      · rfl
    rw [hthree]
    simp [hi]

variable (a b c d : UInt8) (rest : List UInt8) (h : UInt32)

theorem byteAt_word (i : ℕ) : byteAt (a :: b :: c :: d :: rest) (i + 4) = byteAt rest i :=
  rfl

theorem wordAt_zero : wordAt (a :: b :: c :: d :: rest) 0 = word a b c d := by
  rw [word_eq_ofNat]
  rfl

/-- The loop begins with the first word and goes on over the others. -/
theorem loopWords_word : loopWords (a :: b :: c :: d :: rest) h =
    loopWords rest (mix h (word a b c d)) := by
  have hcount : (a :: b :: c :: d :: rest).length / 4 = rest.length / 4 + 1 := by
    simp only [List.length_cons]
    omega
  have hword (i : ℕ) : wordAt (a :: b :: c :: d :: rest) (4 * i.succ) = wordAt rest (4 * i) := rfl
  rw [loopWords, hcount, List.range_succ_eq_map, List.foldl_cons, List.foldl_map]
  simp only [hword, Nat.mul_zero, wordAt_zero]
  rfl

/-- The bytes behind the last word are those of what follows the first one. -/
theorem fallThrough_word : fallThrough (a :: b :: c :: d :: rest) h = fallThrough rest h := by
  have hlength : (a :: b :: c :: d :: rest).length = rest.length + 4 := rfl
  have hfirst : (rest.length + 4).ldiff 3 = rest.length.ldiff 3 + 4 := by
    rw [ldiff_three, ldiff_three]
    omega
  have hbyte (i j : ℕ) :
      byteAt (a :: b :: c :: d :: rest) (i + 4 + j) = byteAt rest (i + j) := by
    rw [Nat.add_right_comm, byteAt_word]
  have hbyte' (i : ℕ) : byteAt (a :: b :: c :: d :: rest) (i + 4) = byteAt rest i := rfl
  simp only [fallThrough, hlength, hfirst, hbyte, hbyte', Nat.add_mod_right]

/-- Mixing from the front is the loop over the words and then the fall-through. -/
theorem mixBytes_eq (h : UInt32) (bytes : List UInt8) :
    mixBytes h bytes = fallThrough bytes (loopWords bytes h) := by
  induction h, bytes using mixBytes.induct with
  | case1 h a b c d rest ih => rw [mixBytes, ih, loopWords_word, fallThrough_word]
  | case2 h a b c => simp [mixBytes, fallThrough, loopWords, ldiff_three, byteAt, factor]
  | case3 h a b => simp [mixBytes, fallThrough, loopWords, ldiff_three, byteAt, factor]
  | case4 h a => simp [mixBytes, fallThrough, loopWords, ldiff_three, byteAt, factor]
  | case5 h => simp [mixBytes, fallThrough, loopWords]

theorem hash_eq (bytes : List UInt8) : hash bytes = byIndex bytes := by
  rw [hash, mixBytes_eq]
  rfl

end Murmur2

namespace KeyHash

/-- The hash without its sign bit. -/
theorem toNat_and_magnitudeMask (h : UInt32) : (h &&& magnitudeMask).toNat = h.toNat % 2 ^ 31 := by
  have hmask : magnitudeMask.toNat = 2 ^ 31 - 1 := rfl
  rw [UInt32.toNat_and, hmask, Nat.and_two_pow_sub_one_eq_mod]

/-- The hash of every byte sequence is the one by index, and the partition of a key among two or
more is that of its UTF-8 bytes, without its sign bit, modulo their number. -/
theorem murmur2_partition_by_index :
    (∀ bytes, Murmur2.hash bytes = Murmur2.byIndex bytes) ∧
      ∀ (key : String) (count : Int32), 2 ≤ count.toInt →
        (KeyHash.murmur2.partition key count).toInt =
          ((Murmur2.byIndex key.toUTF8.toList).toNat % 2 ^ 31 : ℕ) % count.toInt := by
  refine ⟨Murmur2.hash_eq, fun key count hcount => ?_⟩
  rw [toInt_partition .murmur2 key (by omega)]
  show ((Murmur2.hash key.toUTF8.toList &&& magnitudeMask).toNat : ℤ).tmod count.toInt = _
  rw [toNat_and_magnitudeMask, Murmur2.hash_eq, Int.tmod_eq_emod_of_nonneg (Int.natCast_nonneg _)]

/-- A key with a word and two bytes behind it, whose hash has the sign bit. -/
theorem murmur2_partition_of_foobar :
    2 ≤ (10 : Int32).toInt ∧ Murmur2.byIndex "foobar".toUTF8.toList = 3504634814 ∧
      (KeyHash.murmur2.partition "foobar" 10).toInt = 6 := by
  have hhash : Murmur2.byIndex "foobar".toUTF8.toList = 3504634814 := by
    rw [← Murmur2.hash_eq]
    decide +kernel
  refine ⟨by decide, hhash, ?_⟩
  rw [murmur2_partition_by_index.2 "foobar" 10 (by decide), hhash]
  rfl

end KeyHash

end ChangeRelay
