import ChangeRelay.Proofs.Hash.OverNaturals
import ChangeRelay.Proofs.Text.Utf8
import ChangeRelay.Record.Placement
import Mathlib.Algebra.Group.Nat.Defs
import Mathlib.Algebra.Order.Group.Unbundled.Int
/-!
# Partitions in range

A partition is computed in words of several types, and some of the steps could go wrong: a remainder
by zero or one whose quotient has no word, a magnitude that has no word, a number that is taken as a
word and is none. Here the same steps are taken over the integers, where a step that goes wrong has
no result. One step can go wrong: murmur2 takes the length of its key as a word of 32 bits. Where
the last bits of the length are enough, the steps always have a result, it is the one that the words
give, and it is a partition that the topic has.
-/

namespace ChangeRelay

/-! ## Steps that can go wrong -/

/-- The integers that a type of words can hold: from `least` on and below `bound`. -/
structure WordRange where
  least : ℤ
  bound : ℤ

namespace WordRange

/-- 32 bits with sign. -/
def signed : WordRange := ⟨-2 ^ 31, 2 ^ 31⟩

/-- 32 bits. -/
def unsigned : WordRange := ⟨0, 2 ^ 32⟩

/-- 64 bits. -/
def wide : WordRange := ⟨0, 2 ^ 64⟩

variable {w : WordRange} {a b n : ℤ}

/-- An integer as a word, if there is one. -/
def word? (w : WordRange) (n : ℤ) : Option ℤ :=
  if w.least ≤ n ∧ n < w.bound then some n else none

/-- The remainder that has the sign of the dividend; there is none by zero, and none when the
quotient has no word. -/
def remainder? (w : WordRange) (a b : ℤ) : Option ℤ :=
  if b = 0 then none
  else (w.word? (a.tdiv b)).bind fun _ => w.word? (a.tmod b)

theorem word?_eq_some (hleast : w.least ≤ n) (hbound : n < w.bound) : w.word? n = some n :=
  if_pos ⟨hleast, hbound⟩

/-- Division by a positive integer takes a word no farther from zero. -/
theorem remainder?_eq_some (hzero : w.least ≤ 0 ∧ 0 < w.bound) (hleast : w.least ≤ a)
    (hbound : a < w.bound) (hb : 0 < b) : w.remainder? a b = some (a.tmod b) := by
  have hnearer {x : ℤ} (hpos : 0 ≤ a → 0 ≤ x) (hneg : 0 ≤ -a → 0 ≤ -x)
      (habs : x.natAbs ≤ a.natAbs) : w.word? x = some x :=
    word?_eq_some (by omega) (by omega)
  have hquotient : w.word? (a.tdiv b) = some (a.tdiv b) := by
    refine hnearer (fun ha => Int.tdiv_nonneg ha hb.le) (fun ha => ?_)
      (Int.natAbs_tdiv_le_natAbs a b)
    rw [← Int.neg_tdiv]
    exact Int.tdiv_nonneg ha hb.le
  have hremainder : w.word? (a.tmod b) = some (a.tmod b) := by
    refine hnearer (fun ha => Int.tmod_nonneg b ha) (fun ha => ?_) ?_
    · rw [← Int.neg_tmod]
      exact Int.tmod_nonneg b ha
    · rw [Int.natAbs_tmod]
      exact Nat.mod_le _ _
  rw [remainder?, if_neg hb.ne', hquotient, Option.bind_some, hremainder]

/-- What is below a number of partitions is a word with sign. -/
theorem signed_word?_of_lt {count : Int32} (hsign : 0 ≤ n) (hlt : n < count.toInt) :
    signed.word? n = some n := by
  have hcount := count.toInt_lt
  exact word?_eq_some (by simp only [signed]; omega) (by simp only [signed]; omega)

end WordRange

open WordRange

/-! ## Partitions of keys -/

/-- A unit has sixteen bits. -/
theorem Utf16.lt_of_mem_units {text : String} {u : ℕ} (h : u ∈ Utf16.units text) : u < 2 ^ 16 := by
  obtain ⟨c, -, hu⟩ := List.mem_flatMap.mp h
  have hc := Utf8.toNat_range c
  unfold Utf16.unitsOf at hu
  by_cases hbasic : c.toNat < 0x10000
  · simp only [hbasic, if_true, List.mem_singleton] at hu
    omega
  · simp only [hbasic, if_false, List.mem_cons, List.not_mem_nil, or_false] at hu
    omega

namespace KeyHash

/-- The polynomial hash, with every unit as a word. Products and sums are meant to keep their last
32 bits only. -/
def checkedText? (text : String) : Option ℤ :=
  (Utf16.units text).foldlM
    (fun h (u : ℕ) => (signed.word? u).map fun u => (h * 31 + u).bmod (2 ^ 32)) 0

/-- The steps of `partition` over the integers; `length?` takes the length of a key as a word. -/
def checked? (length? : ℕ → Option ℕ) (hash : KeyHash) (key : String) (count : ℤ) : Option ℤ :=
  if count ≤ 1 then some 0
  else
    match hash with
    | .polynomial => do
      let h ← checkedText? key
      let r ← signed.remainder? h count
      signed.word? r.natAbs
    | .murmur2 => do
      let h ← Murmur2.checked? length? key.toUTF8.toList
      let n ← unsigned.word? count
      let r ← unsigned.remainder? (h &&& magnitudeMask.toNat : ℕ) n
      signed.word? r

/-- Whether the length of a key is cut to a word: murmur2 does so with all keys that have more bytes
than a word can count, if there is a choice of partitions. -/
def cutsLength (hash : KeyHash) (key : String) (count : Int32) : Bool :=
  hash = .murmur2 ∧ 1 < count ∧ 2 ^ 32 ≤ key.toUTF8.toList.length

/-- A step of the polynomial hash over the integers. -/
theorem toInt_step (h : Int32) (u : ℕ) :
    (h * base + Int32.ofNat u).toInt = (h.toInt * 31 + u).bmod (2 ^ 32) := by
  have hbase : base.toInt = 31 := rfl
  rw [Int32.toInt_add, Int32.toInt_mul, Int32.toInt_ofNat', hbase, Int.bmod_add_bmod]
  exact Int.add_bmod_bmod

theorem checkedText?_eq (text : String) : checkedText? text = some (ofText text).toInt := by
  have hfold (us : List ℕ) (hus : ∀ u ∈ us, u < 2 ^ 16) (h : Int32) :
      us.foldlM (fun h (u : ℕ) => (signed.word? u).map fun u => (h * 31 + u).bmod (2 ^ 32))
        h.toInt = some (us.foldl (fun h u => h * base + Int32.ofNat u) h).toInt := by
    induction us generalizing h with
    | nil => rfl
    | cons u us ih =>
      obtain ⟨hu, hus⟩ := List.forall_mem_cons.mp hus
      have hword : signed.word? u = some (u : ℤ) :=
        word?_eq_some (by simp only [signed]; omega) (by simp only [signed]; omega)
      rw [List.foldlM_cons, hword, Option.map_some, ← toInt_step, List.foldl_cons]
      exact ih hus _
  exact hfold _ (fun u => Utf16.lt_of_mem_units) 0

/-- A remainder is nearer to zero than the divisor. -/
theorem natAbs_tmod_lt (a : ℤ) {b : ℤ} (hb : 0 < b) : ((a.tmod b).natAbs : ℤ) < b := by
  have hlow := Int.lt_tmod_of_pos a hb
  have hhigh := Int.tmod_lt_of_pos a hb
  omega

/-- So the remainder of a word has a magnitude. -/
theorem toInt_abs_mod (h : Int32) {count : Int32} (hcount : 1 < count.toInt) :
    (h % count).abs.toInt = (h.toInt.tmod count.toInt).natAbs := by
  have hleast : (h % count).toBitVec ≠ BitVec.intMin 32 := by
    intro hmin
    have hvalue : (h % count).toInt = -2 ^ 31 := by
      rw [← Int32.toInt_toBitVec, hmin]
      rfl
    have hlt := natAbs_tmod_lt h.toInt (show 0 < count.toInt by omega)
    have hbound := count.toInt_lt
    rw [Int32.toInt_mod] at hvalue
    omega
  rw [← Int32.toInt_mod, ← Int32.toInt_toBitVec, Int32.toBitVec_abs,
    BitVec.toInt_abs_eq_natAbs_of_ne_intMin hleast, Int32.toInt_toBitVec]

/-- The remainder of a word without sign by a count fits into a word with sign. -/
theorem toInt_mod_toUInt32 (h : UInt32) {count : Int32} (hcount : 1 < count.toInt) :
    (h % count.toUInt32).toInt32.toInt = (h.toNat : ℤ).tmod count.toInt := by
  have hsign : 0 ≤ count := Int32.le_iff_toInt_le.mpr (by rw [Int32.toInt_zero]; omega)
  have hsame : (count.toUInt32.toNat : ℤ) = count.toInt := by
    rw [Int32.toNat_toUInt32_of_le hsign, ← Int32.toNat_toInt]
    omega
  have hremainder : (h % count.toUInt32).toNat = h.toNat % count.toUInt32.toNat :=
    UInt32.toNat_mod _ _
  have hlt := Nat.mod_lt h.toNat (show 0 < count.toUInt32.toNat by omega)
  have hcount' := count.toInt_lt
  have hword : (h % count.toUInt32).toInt32.toInt = (h % count.toUInt32).toNat := by
    show (h % count.toUInt32).toBitVec.toInt = (h % count.toUInt32).toBitVec.toNat
    exact BitVec.toInt_eq_toNat_of_lt (by rw [UInt32.toNat_toBitVec]; omega)
  rw [hword, hremainder, ← hsame, Int.tmod_eq_emod_of_nonneg (Int.natCast_nonneg _)]
  exact Int.natCast_emod _ _

theorem partition_of_le (hash : KeyHash) (key : String) {count : Int32} (hcount : count.toInt ≤ 1) :
    hash.partition key count = 0 := by
  unfold partition
  exact if_pos (Int32.le_iff_toInt_le.mpr hcount)

/-- The partition of a key among several is a remainder of its hash. -/
theorem toInt_partition (hash : KeyHash) (key : String) {count : Int32} (hcount : 1 < count.toInt) :
    (hash.partition key count).toInt =
      match hash with
      | .polynomial => (((ofText key).toInt.tmod count.toInt).natAbs : ℤ)
      | .murmur2 =>
        ((Murmur2.hash key.toUTF8.toList &&& magnitudeMask).toNat : ℤ).tmod count.toInt := by
  have hseveral : ¬ count ≤ 1 := fun hle => by
    have := Int32.le_iff_toInt_le.mp hle
    have hone : (1 : Int32).toInt = 1 := rfl
    omega
  unfold partition
  rw [if_neg hseveral]
  cases hash with
  | polynomial => exact toInt_abs_mod _ hcount
  | murmur2 => exact toInt_mod_toUInt32 _ hcount

theorem checked?_murmur2_of_lt {length? : ℕ → Option ℕ} {key : String} {count : ℤ}
    (hcount : 1 < count) : KeyHash.murmur2.checked? length? key count =
      (Murmur2.checked? length? key.toUTF8.toList).bind fun h =>
        (unsigned.word? count).bind fun n =>
          (unsigned.remainder? (h &&& magnitudeMask.toNat : ℕ) n).bind fun r => signed.word? r :=
  if_neg (not_le.mpr hcount)

theorem checked?_polynomial_of_lt {length? : ℕ → Option ℕ} {key : String} {count : ℤ}
    (hcount : 1 < count) : KeyHash.polynomial.checked? length? key count =
      (checkedText? key).bind fun h =>
        (signed.remainder? h count).bind fun r => signed.word? r.natAbs :=
  if_neg (not_le.mpr hcount)

/-- From the hash that murmur2 gives of a key, the other steps to its partition never go wrong. -/
theorem checked?_murmur2 {length? : ℕ → Option ℕ} {key : String} {count : Int32}
    (hcount : 1 < count.toInt)
    (hkey : Murmur2.checked? length? key.toUTF8.toList =
      some (Murmur2.hash key.toUTF8.toList).toNat) :
    KeyHash.murmur2.checked? length? key count.toInt =
      some (KeyHash.murmur2.partition key count).toInt := by
  have hpos : 0 < count.toInt := by omega
  have hbound := count.toInt_lt
  have hmask (h : UInt32) : h.toNat &&& magnitudeMask.toNat = (h &&& magnitudeMask).toNat :=
    (UInt32.toNat_and h magnitudeMask).symm
  rw [checked?_murmur2_of_lt hcount, hkey, Option.bind_some, hmask,
    toInt_partition .murmur2 key hcount]
  generalize Murmur2.hash key.toUTF8.toList &&& magnitudeMask = h
  have hmost := h.toNat_lt
  have hword : unsigned.word? count.toInt = some count.toInt :=
    word?_eq_some hpos.le (by simp only [unsigned]; omega)
  have hremainder : unsigned.remainder? h.toNat count.toInt =
      some ((h.toNat : ℤ).tmod count.toInt) :=
    remainder?_eq_some (by simp [unsigned]) (Int.natCast_nonneg _)
      (by simp only [unsigned]; omega) hpos
  rw [hword, Option.bind_some, hremainder, Option.bind_some,
    signed_word?_of_lt (Int.tmod_nonneg _ (Int.natCast_nonneg _)) (Int.tmod_lt_of_pos _ hpos)]

theorem checked?_polynomial (length? : ℕ → Option ℕ) (key : String) {count : Int32}
    (hcount : 1 < count.toInt) :
    KeyHash.polynomial.checked? length? key count.toInt =
      some (KeyHash.polynomial.partition key count).toInt := by
  have hpos : 0 < count.toInt := by omega
  have hleast := (ofText key).le_toInt
  have hmost := (ofText key).toInt_lt
  have hremainder : signed.remainder? (ofText key).toInt count.toInt =
      some ((ofText key).toInt.tmod count.toInt) :=
    remainder?_eq_some (by simp [signed]) (by simp only [signed]; omega)
      (by simp only [signed]; omega) hpos
  rw [checked?_polynomial_of_lt hcount, checkedText?_eq, Option.bind_some, hremainder,
    Option.bind_some, signed_word?_of_lt (Int.natCast_nonneg _) (natAbs_tmod_lt _ hpos),
    toInt_partition .polynomial key hcount]

theorem checked?_of_le (length? : ℕ → Option ℕ) (hash : KeyHash) (key : String) {count : Int32}
    (hcount : count.toInt ≤ 1) :
    hash.checked? length? key count.toInt = some (hash.partition key count).toInt := by
  unfold checked?
  rw [if_pos hcount, partition_of_le hash key hcount]
  rfl

/-- From the last bits of the length, no step goes wrong. -/
theorem checked?_lastBits (hash : KeyHash) (key : String) (count : Int32) :
    hash.checked? Murmur2.lastBits? key count.toInt = some (hash.partition key count).toInt := by
  rcases le_or_gt count.toInt 1 with hcount | hcount
  · exact checked?_of_le _ hash key hcount
  cases hash with
  | polynomial => exact checked?_polynomial _ key hcount
  | murmur2 => exact checked?_murmur2 hcount (Murmur2.checked?_lastBits _)

/-- From the length as it is, a step goes wrong exactly when the length is cut. -/
theorem checked?_whole (hash : KeyHash) (key : String) (count : Int32) :
    hash.checked? Murmur2.whole? key count.toInt =
      if hash.cutsLength key count then none else some (hash.partition key count).toInt := by
  have hone : (1 : Int32) < count ↔ 1 < count.toInt := Int32.lt_iff_toInt_lt
  rcases le_or_gt count.toInt 1 with hcount | hcount
  · have hfew : hash.cutsLength key count = false :=
      decide_eq_false fun h => not_lt.mpr hcount (hone.mp h.2.1)
    rw [hfew]
    exact checked?_of_le _ hash key hcount
  cases hash with
  | polynomial =>
    have hother : KeyHash.polynomial.cutsLength key count = false :=
      decide_eq_false fun h => KeyHash.noConfusion h.1
    rw [hother]
    exact checked?_polynomial _ key hcount
  | murmur2 =>
    have hkey := Murmur2.checked?_whole key.toUTF8.toList
    by_cases hlength : key.toUTF8.toList.length < 2 ^ 32
    · have hshort : KeyHash.murmur2.cutsLength key count = false :=
        decide_eq_false fun h => not_le.mpr hlength h.2.2
      rw [if_pos hlength] at hkey
      rw [hshort]
      exact checked?_murmur2 hcount hkey
    · have hlong : KeyHash.murmur2.cutsLength key count = true :=
        decide_eq_true ⟨rfl, hone.mpr hcount, not_lt.mp hlength⟩
      rw [if_neg hlength] at hkey
      rw [hlong, checked?_murmur2_of_lt hcount, hkey]
      rfl

/-- The partition of a key is one that the topic has. -/
theorem partition_mem (hash : KeyHash) (key : String) (count : Int32) :
    0 ≤ (hash.partition key count).toInt ∧
      (hash.partition key count).toInt < max count.toInt 1 := by
  by_cases hcount : count.toInt ≤ 1
  · rw [partition_of_le hash key hcount]
    exact ⟨le_refl 0, lt_max_of_lt_right Int.one_pos⟩
  have hpos : 0 < count.toInt := by omega
  rw [toInt_partition hash key (not_le.mp hcount)]
  cases hash with
  | polynomial =>
    exact ⟨Int.natCast_nonneg _, lt_max_of_lt_left (natAbs_tmod_lt _ hpos)⟩
  | murmur2 =>
    exact ⟨Int.tmod_nonneg _ (Int.natCast_nonneg _),
      lt_max_of_lt_left (Int.tmod_lt_of_pos _ hpos)⟩

-- the least word has no magnitude, its remainder has one
example : ofText "polygenelubricants" = Int32.minValue ∧
    KeyHash.polynomial.partition "polygenelubricants" 7 = 2 := by
  decide

end KeyHash

/-! ## Partitions of rows -/

namespace Placement

/-- The steps of `placeKeyless` over the integers. The turn is meant to start again at zero after
2^64 turns. -/
def checkedKeyless? (length? : ℕ → Option ℕ) (p : Placement) (turn : ℕ) (row : RowId) (count : ℤ) :
    Option (ℤ × ℕ) :=
  match p.keyless with
  | .first => some (0, turn)
  | .database => do return (← p.hash.checked? length? row.database count, turn)
  | .table => do return (← p.hash.checked? length? row.tableName count, turn)
  | .inTurn =>
    if count ≤ 1 then some (0, turn)
    else do
      let n ← wide.word? count
      let r ← wide.remainder? turn n
      let place ← signed.word? r
      return (place, (turn + 1) % 2 ^ 64)

/-- The steps of `place` over the integers. -/
def checked? (length? : ℕ → Option ℕ) (p : Placement) (turn : ℕ) (row : RowId) (count : ℤ) :
    Option (ℤ × ℕ) :=
  match p.key.text? row with
  | some key => do return (← p.hash.checked? length? key count, turn)
  | none => p.checkedKeyless? length? turn row count

/-- The text of a row that is hashed to place it. -/
def hashed? (p : Placement) (row : RowId) : Option String :=
  match p.key.text? row, p.keyless with
  | some key, _ => some key
  | none, .database => some row.database
  | none, .table => some row.tableName
  | none, .first => none
  | none, .inTurn => none

/-- Whether the length of the text that is hashed is cut to a word. -/
def cutsLength (p : Placement) (row : RowId) (count : Int32) : Bool :=
  (p.hashed? row).any (p.hash.cutsLength · count)

theorem toInt_toNatClampNeg {count : Int32} (hcount : 1 < count) :
    1 < count.toInt ∧ (count.toNatClampNeg : ℤ) = count.toInt := by
  have hseveral : (1 : Int32).toInt < count.toInt := Int32.lt_iff_toInt_lt.mp hcount
  have hone : (1 : Int32).toInt = 1 := rfl
  rw [← Int32.toNat_toInt]
  omega

/-- The place of a turn is the remainder of its number. -/
theorem toInt_ofNat_mod (k : ℕ) {count : Int32} (hcount : 1 < count) :
    (Int32.ofNat (k % count.toNatClampNeg)).toInt = (k : ℤ).tmod count.toInt := by
  obtain ⟨hseveral, hsame⟩ := toInt_toNatClampNeg hcount
  have hlt := Nat.mod_lt k (show 0 < count.toNatClampNeg by omega)
  have hbound := count.toNatClampNeg_lt
  rw [Int32.toInt_ofNat_of_lt (by omega), ← hsame,
    Int.tmod_eq_emod_of_nonneg (Int.natCast_nonneg _)]
  exact Int.natCast_emod _ _

/-- A row that is placed in turn takes the turn if there is a choice. -/
theorem placeKeyless_inTurn {p : Placement} (hturn : p.keyless = .inTurn) (turn : UInt64)
    (row : RowId) (count : Int32) :
    p.placeKeyless turn row count =
      if 1 < count then (Int32.ofNat (turn.toNat % count.toNatClampNeg), turn + 1)
      else (0, turn) := by
  unfold placeKeyless
  simp only [hturn]
  by_cases hcount : 1 < count
  · rw [if_neg (Int32.not_le.mpr hcount), if_pos hcount]
  · rw [if_pos (Int32.not_lt.mp hcount), if_neg hcount]

theorem checked?_inTurn {length? : ℕ → Option ℕ} {p : Placement} (hturn : p.keyless = .inTurn)
    (turn : UInt64) (row : RowId) (count : Int32) :
    p.checkedKeyless? length? turn.toNat row count.toInt =
      some ((p.placeKeyless turn row count).1.toInt, (p.placeKeyless turn row count).2.toNat) := by
  unfold checkedKeyless?
  simp only [hturn]
  rw [placeKeyless_inTurn hturn]
  by_cases hcount : 1 < count
  · obtain ⟨hseveral, -⟩ := toInt_toNatClampNeg hcount
    have hpos : 0 < count.toInt := by omega
    have hbound := count.toInt_lt
    have hlast := turn.toNat_lt
    have hcountWord : wide.word? count.toInt = some count.toInt :=
      word?_eq_some hpos.le (by simp only [wide]; omega)
    have hremainder : wide.remainder? turn.toNat count.toInt =
        some ((turn.toNat : ℤ).tmod count.toInt) :=
      remainder?_eq_some (by simp [wide]) (Int.natCast_nonneg _) (by simp only [wide]; omega) hpos
    have hplace : signed.word? ((turn.toNat : ℤ).tmod count.toInt) =
        some ((turn.toNat : ℤ).tmod count.toInt) :=
      signed_word?_of_lt (Int.tmod_nonneg _ (Int.natCast_nonneg _)) (Int.tmod_lt_of_pos _ hpos)
    rw [if_neg (not_le.mpr hseveral), if_pos hcount, toInt_ofNat_mod _ hcount, UInt64.toNat_add]
    show ((wide.word? count.toInt).bind fun n => (wide.remainder? turn.toNat n).bind fun r =>
      (signed.word? r).bind fun place => some (place, (turn.toNat + 1) % 2 ^ 64)) = _
    rw [hcountWord, Option.bind_some, hremainder, Option.bind_some, hplace, Option.bind_some]
    rfl
  · have hfew : count.toInt ≤ 1 := Int32.le_iff_toInt_le.mp (Int32.not_lt.mp hcount)
    rw [if_pos hfew, if_neg hcount]
    rfl

/-- The steps of a placement go wrong where those of the hash do, and nowhere else. -/
theorem checked?_of_hash (cut : String → Bool) {length? : ℕ → Option ℕ} {p : Placement}
    {count : Int32} (hcut : ∀ text, p.hash.checked? length? text count.toInt =
      if cut text then none else some (p.hash.partition text count).toInt)
    (turn : UInt64) (row : RowId) :
    p.checked? length? turn.toNat row count.toInt =
      if (p.hashed? row).any cut then none
      else some ((p.place turn row count).1.toInt, (p.place turn row count).2.toNat) := by
  have hhashed (text : String) :
      (do return (← p.hash.checked? length? text count.toInt, turn.toNat)) =
      if (some text).any cut then none
      else some ((p.hash.partition text count).toInt, turn.toNat) := by
    rw [hcut, Option.any_some]
    cases cut text <;> rfl
  unfold checked? hashed? place
  cases p.key.text? row with
  | some key => exact hhashed key
  | none =>
    cases hkeyless : p.keyless with
    | first =>
      simp only [checkedKeyless?, placeKeyless, hkeyless]
      rfl
    | database =>
      simp only [checkedKeyless?, placeKeyless, hkeyless]
      exact hhashed row.database
    | table =>
      simp only [checkedKeyless?, placeKeyless, hkeyless]
      exact hhashed row.tableName
    | inTurn => exact checked?_inTurn hkeyless turn row count

/-- From the last bits of the length of what is hashed, no step goes wrong. -/
theorem checked?_lastBits (p : Placement) (turn : UInt64) (row : RowId) (count : Int32) :
    p.checked? Murmur2.lastBits? turn.toNat row count.toInt =
      some ((p.place turn row count).1.toInt, (p.place turn row count).2.toNat) := by
  have hsteps := checked?_of_hash (fun _ => false)
    (fun text => p.hash.checked?_lastBits text count) turn row
  rw [hsteps, if_neg (by simp)]

/-- From the length as it is, a step goes wrong exactly when the length is cut. -/
theorem checked?_whole (p : Placement) (turn : UInt64) (row : RowId) (count : Int32) :
    p.checked? Murmur2.whole? turn.toNat row count.toInt =
      if p.cutsLength row count then none
      else some ((p.place turn row count).1.toInt, (p.place turn row count).2.toNat) :=
  checked?_of_hash _ (fun text => p.hash.checked?_whole text count) turn row

theorem placeKeyless_mem (p : Placement) (turn : UInt64) (row : RowId) (count : Int32) :
    0 ≤ (p.placeKeyless turn row count).1.toInt ∧
      (p.placeKeyless turn row count).1.toInt < max count.toInt 1 := by
  have hfirst : 0 ≤ (0 : Int32).toInt ∧ (0 : Int32).toInt < max count.toInt 1 :=
    ⟨le_refl 0, lt_max_of_lt_right Int.one_pos⟩
  cases hkeyless : p.keyless with
  | first => simpa only [placeKeyless, hkeyless] using hfirst
  | database => simpa only [placeKeyless, hkeyless] using p.hash.partition_mem row.database count
  | table => simpa only [placeKeyless, hkeyless] using p.hash.partition_mem row.tableName count
  | inTurn =>
    rw [placeKeyless_inTurn hkeyless]
    by_cases hcount : 1 < count
    · obtain ⟨hseveral, -⟩ := toInt_toNatClampNeg hcount
      rw [if_pos hcount, toInt_ofNat_mod _ hcount]
      exact ⟨Int.tmod_nonneg _ (Int.natCast_nonneg _),
        lt_max_of_lt_left (Int.tmod_lt_of_pos _ (by omega))⟩
    · rw [if_neg hcount]
      exact hfirst

theorem place_mem (p : Placement) (turn : UInt64) (row : RowId) (count : Int32) :
    0 ≤ (p.place turn row count).1.toInt ∧
      (p.place turn row count).1.toInt < max count.toInt 1 := by
  unfold place
  cases p.key.text? row with
  | some key => exact p.hash.partition_mem key count
  | none => exact p.placeKeyless_mem turn row count

/-- A row is placed on a partition that its topic has, and on the first one when there is no choice.
No step on the way overflows or divides by zero, and none loses bits but the one by which murmur2
takes the length of a text as a word: over the integers, where such a step has no result, the same
steps from the last bits of the length give the same partition and the same next turn, and from the
length as it is they do so exactly when it is not cut. -/
theorem placed_as_checked (p : Placement) (turn : UInt64) (row : RowId) (count : Int32) :
    p.checked? Murmur2.lastBits? turn.toNat row count.toInt =
        some ((p.place turn row count).1.toInt, (p.place turn row count).2.toNat) ∧
      (p.checked? Murmur2.whole? turn.toNat row count.toInt =
        if p.cutsLength row count then none
        else some ((p.place turn row count).1.toInt, (p.place turn row count).2.toNat)) ∧
      0 ≤ (p.place turn row count).1.toInt ∧
      (p.place turn row count).1.toInt < max count.toInt 1 :=
  ⟨p.checked?_lastBits turn row count, p.checked?_whole turn row count,
    p.place_mem turn row count⟩

/-- A row without a key in a database whose name has this many bytes. -/
def longNamed (bytes : ℕ) : RowId where
  database := String.ofList (List.replicate bytes 'a')
  table := none
  key := []

theorem length_longNamed (n : ℕ) : (longNamed n).database.toUTF8.toList.length = n := by
  have hbyte : (Utf8.encodeChar 'a').length = 1 := rfl
  rw [Utf8.toList_toUTF8, longNamed, String.toList_ofList]
  induction n with
  | zero => rfl
  | succ n ih =>
    rw [Utf8.encode, List.replicate_succ, List.flatMap_cons, List.length_append, hbyte,
      ← Utf8.encode, ih, Nat.add_comm]

/-- The hash of a name of 2^32 bytes begins with the last bits of its length, which are those of the
length of an empty name. -/
theorem length_cut_of_longNamed :
    Placement.checked? Murmur2.whole? ⟨.murmur2, .columns ["id"], .database⟩ 0
      (longNamed (2 ^ 32)) 2 = none := by
  have hcuts (n : ℕ) (h : 2 ^ 32 ≤ n) :
      Placement.cutsLength ⟨.murmur2, .columns ["id"], .database⟩ (longNamed n) 2 = true :=
    decide_eq_true ⟨rfl, by decide, (length_longNamed n).symm ▸ h⟩
  have hwhole := checked?_whole ⟨.murmur2, .columns ["id"], .database⟩ 0 (longNamed (2 ^ 32)) 2
  rw [hcuts _ le_rfl, if_pos rfl] at hwhole
  exact hwhole

end Placement

end ChangeRelay
