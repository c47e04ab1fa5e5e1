import ChangeRelay.Hash.Murmur2
import Mathlib.Data.Nat.Bitwise
/-!
# The murmur2 hash over the natural numbers

The steps of `Murmur2.hash`, taken on numbers of any size. Products keep their last 32 bits, as they
are meant to. Where a number is taken as a word, it has to be one: that is so of every byte, and of
the length of the bytes as long as there are fewer than 2^32 of them. A longer sequence has the hash
that comes from the last 32 bits of its length.
-/

namespace ChangeRelay.Murmur2

/-! ## Steps on numbers -/

/-- A number as a word, if it is one. -/
def whole? (n : ℕ) : Option ℕ :=
  if n < 2 ^ 32 then some n else none

/-- A number as the word of its last 32 bits. -/
def lastBits? (n : ℕ) : Option ℕ :=
  some (n % 2 ^ 32)

/-- A product by the factor, of which the last 32 bits are kept. -/
def scaled (n : ℕ) : ℕ :=
  n * factor.toNat % 2 ^ 32

/-- The number of four bytes, the lowest one first. -/
def numberOf (a b c d : UInt8) : ℕ :=
  a.toNat + 2 ^ 8 * b.toNat + 2 ^ 16 * c.toNat + 2 ^ 24 * d.toNat

/-- `mix` on numbers. -/
def mixed (h k : ℕ) : ℕ :=
  scaled h ^^^ scaled (scaled k ^^^ (scaled k >>> 24))

/-- `finish` on numbers. -/
def finished (h : ℕ) : ℕ :=
  scaled (h ^^^ (h >>> 13)) ^^^ (scaled (h ^^^ (h >>> 13)) >>> 15)

/-- `mixBytes` on numbers. A byte that has no word of its own is taken as one before it is moved to
its place. -/
def checkedBytes? (h : ℕ) : List UInt8 → Option ℕ
  | a :: b :: c :: d :: rest => checkedBytes? (mixed h (numberOf a b c d)) rest
  | [a, b, c] => do
    let h := h ^^^ ((← whole? c.toNat) <<< 16)
    let h := h ^^^ ((← whole? b.toNat) <<< 8)
    return scaled (h ^^^ (← whole? a.toNat))
  | [a, b] => do
    let h := h ^^^ ((← whole? b.toNat) <<< 8)
    return scaled (h ^^^ (← whole? a.toNat))
  | [a] => do return scaled (h ^^^ (← whole? a.toNat))
  | [] => some h

/-- `hash` on numbers; `length?` takes the length as a word. -/
def checked? (length? : ℕ → Option ℕ) (bytes : List UInt8) : Option ℕ := do
  let length ← length? bytes.length
  let h ← checkedBytes? (seed.toNat ^^^ length) bytes
  return finished h

/-! ## Words and numbers -/

theorem whole?_eq_some {n : ℕ} (h : n < 2 ^ 32) : whole? n = some n :=
  if_pos h

theorem whole?_eq_none {n : ℕ} (h : 2 ^ 32 ≤ n) : whole? n = none :=
  if_neg (Nat.not_lt.mpr h)

theorem whole?_byte (b : UInt8) : whole? b.toNat = some b.toNat := by
  have hb := b.toNat_lt
  exact whole?_eq_some (by omega)

theorem toNat_mul_factor (h : UInt32) : (h * factor).toNat = scaled h.toNat :=
  UInt32.toNat_mul h factor

/-- A byte keeps all its bits when it is moved to its place. -/
theorem toNat_byte_shiftLeft (x : UInt8) {s : UInt32} (hs : s.toNat ≤ 24) :
    (x.toUInt32 <<< s).toNat = x.toNat <<< s.toNat := by
  have hx : x.toNat < 2 ^ 8 := x.toNat_lt
  have hbound : x.toNat * 2 ^ s.toNat < 2 ^ 32 := calc
    x.toNat * 2 ^ s.toNat < 2 ^ 8 * 2 ^ 24 :=
      Nat.mul_lt_mul_of_lt_of_le hx (Nat.pow_le_pow_right (by decide) hs) (Nat.two_pow_pos 24)
    _ = 2 ^ 32 := by decide
  have hamount : s.toNat % 32 = s.toNat := Nat.mod_eq_of_lt (by omega)
  rw [UInt32.toNat_shiftLeft, UInt8.toNat_toUInt32, hamount, Nat.shiftLeft_eq,
    Nat.mod_eq_of_lt hbound]

/-- The four bytes of a word do not overlap. -/
theorem toNat_word (a b c d : UInt8) : (word a b c d).toNat = numberOf a b c d := by
  have ha : a.toNat < 2 ^ 8 := a.toNat_lt
  have hb : b.toNat < 2 ^ 8 := b.toNat_lt
  have hc : c.toNat < 2 ^ 8 := c.toNat_lt
  have hab : 2 ^ 8 * b.toNat + a.toNat < 2 ^ 16 := by omega
  have habc : 2 ^ 16 * c.toNat + (2 ^ 8 * b.toNat + a.toNat) < 2 ^ 24 := by omega
  have hplace (x : UInt8) (s : UInt32) (hs : s.toNat ≤ 24) :
      (x.toUInt32 <<< s).toNat = 2 ^ s.toNat * x.toNat := by
    rw [toNat_byte_shiftLeft x hs, Nat.shiftLeft_eq, Nat.mul_comm]
  have hor : a.toNat ||| 2 ^ 8 * b.toNat ||| 2 ^ 16 * c.toNat ||| 2 ^ 24 * d.toNat =
      2 ^ 24 * d.toNat + (2 ^ 16 * c.toNat + (2 ^ 8 * b.toNat + a.toNat)) := by
    rw [Nat.or_comm a.toNat, ← Nat.two_pow_add_eq_or_of_lt ha, Nat.or_comm _ (2 ^ 16 * _),
      ← Nat.two_pow_add_eq_or_of_lt hab, Nat.or_comm, ← Nat.two_pow_add_eq_or_of_lt habc]
  rw [word, UInt32.toNat_or, UInt32.toNat_or, UInt32.toNat_or, hplace b 8 (by decide),
    hplace c 16 (by decide), hplace d 24 (by decide), UInt8.toNat_toUInt32, numberOf]
  refine hor.trans ?_
  omega

theorem toNat_mix (h k : UInt32) : (mix h k).toNat = mixed h.toNat k.toNat := by
  rw [mix, mixed]
  simp only [UInt32.toNat_xor, UInt32.toNat_shiftRight, toNat_mul_factor]
  rfl

theorem toNat_finish (h : UInt32) : (finish h).toNat = finished h.toNat := by
  rw [finish, finished]
  simp only [UInt32.toNat_xor, UInt32.toNat_shiftRight, toNat_mul_factor]
  rfl

/-- Every byte is a word, so mixing bytes into a word never goes wrong. -/
theorem checkedBytes?_eq (h : UInt32) (bytes : List UInt8) :
    checkedBytes? h.toNat bytes = some (mixBytes h bytes).toNat := by
  have hsecond (b : UInt8) : (b.toUInt32 <<< 8).toNat = b.toNat <<< 8 :=
    toNat_byte_shiftLeft b (by decide)
  have hthird (c : UInt8) : (c.toUInt32 <<< 16).toNat = c.toNat <<< 16 :=
    toNat_byte_shiftLeft c (by decide)
  fun_induction mixBytes h bytes with
  | case1 h a b c d rest ih => rw [checkedBytes?, ← toNat_word, ← toNat_mix, ih]
  | case2 h a b c => simp [checkedBytes?, whole?_byte, scaled, hsecond, hthird]
  | case3 h a b => simp [checkedBytes?, whole?_byte, scaled, hsecond]
  | case4 h a => simp [checkedBytes?, whole?_byte, scaled]
  | case5 h => rfl

/-! ## The length -/

theorem checked?_of_length {length? : ℕ → Option ℕ} {bytes : List UInt8}
    (h : length? bytes.length = some (UInt32.ofNat bytes.length).toNat) :
    checked? length? bytes = some (hash bytes).toNat := by
  rw [checked?, h, Option.bind_eq_bind, Option.bind_some, ← UInt32.toNat_xor, checkedBytes?_eq,
    Option.bind_some, ← toNat_finish]
  rfl

/-- From the last bits of the length, the steps on numbers give the hash. -/
theorem checked?_lastBits (bytes : List UInt8) :
    checked? lastBits? bytes = some (hash bytes).toNat :=
  checked?_of_length (by rw [lastBits?, UInt32.toNat_ofNat'])

/-- From the length as it is they do so as long as it is a word, and that is the only thing that can
go wrong. -/
theorem checked?_whole (bytes : List UInt8) : checked? whole? bytes =
    if bytes.length < 2 ^ 32 then some (hash bytes).toNat else none := by
  by_cases hlength : bytes.length < 2 ^ 32
  · rw [if_pos hlength]
    refine checked?_of_length ?_
    rw [whole?_eq_some hlength, UInt32.toNat_ofNat_of_lt' hlength]
  · rw [if_neg hlength, checked?, whole?_eq_none (Nat.not_lt.mp hlength)]
    rfl

end ChangeRelay.Murmur2
