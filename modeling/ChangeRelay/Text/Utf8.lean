/-!
# UTF-8 bytes

`encode` writes characters as bytes and `decode` reads bytes back. A byte sequence that is not
UTF-8 is refused with the place and the length of its first bad sequence.
-/

namespace ChangeRelay.Utf8

/-- Where bytes stop being UTF-8. -/
structure Fault where
  /-- How many bytes before the bad sequence read well. -/
  validUpTo : Nat
  /-- The length of the bad sequence; `none` when the input ends inside a character. -/
  badLength : Option Nat
deriving DecidableEq, Repr

/-- The text of a fault. -/
def Fault.message (f : Fault) : String :=
  match f.badLength with
  | some n => s!"invalid utf-8 sequence of {n} bytes from index {f.validUpTo}"
  | none => s!"incomplete utf-8 byte sequence from index {f.validUpTo}"

/-- The bytes of one character. -/
def encodeChar (c : Char) : List UInt8 :=
  let n := c.toNat
  if n < 0x80 then [n.toUInt8]
  else if n < 0x800 then [(0xC0 + n / 0x40).toUInt8, (0x80 + n % 0x40).toUInt8]
  else if n < 0x10000 then
    [(0xE0 + n / 0x1000).toUInt8, (0x80 + n / 0x40 % 0x40).toUInt8, (0x80 + n % 0x40).toUInt8]
  else
    [(0xF0 + n / 0x40000).toUInt8, (0x80 + n / 0x1000 % 0x40).toUInt8,
      (0x80 + n / 0x40 % 0x40).toUInt8, (0x80 + n % 0x40).toUInt8]

/-- The bytes of a text. -/
def encode (cs : List Char) : List UInt8 :=
  cs.flatMap encodeChar

/-- The number of bytes of a text. -/
def byteLength : List Char → Nat
  | [] => 0
  | c :: rest => c.utf8Size + byteLength rest

/-- Whether `b` can continue a character. -/
def isContinuation (b : UInt8) : Bool :=
  0x80 ≤ b.toNat && b.toNat ≤ 0xBF

/-- The second bytes that may follow the first byte `b` of a sequence of three or four bytes: no
overlong form, no surrogate, nothing above the last code point. -/
def secondByteRange (b : UInt8) : Nat × Nat :=
  if b = 0xE0 then (0xA0, 0xBF)
  else if b = 0xED then (0x80, 0x9F)
  else if b = 0xF0 then (0x90, 0xBF)
  else if b = 0xF4 then (0x80, 0x8F)
  else (0x80, 0xBF)

/-- How many bytes the character that starts with `b` has; `none` when no character does. -/
def sequenceLength (b : UInt8) : Option Nat :=
  let n := b.toNat
  if n < 0x80 then some 1
  else if 0xC2 ≤ n && n ≤ 0xDF then some 2
  else if 0xE0 ≤ n && n ≤ 0xEF then some 3
  else if 0xF0 ≤ n && n ≤ 0xF4 then some 4
  else none

/-- The low six bits that a continuation byte adds. -/
def payload (b : UInt8) : Nat :=
  b.toNat - 0x80

/-- The first character of `bytes` and how many bytes it takes, or the length of the bad sequence
that `bytes` starts with. -/
def firstChar (first : UInt8) (rest : List UInt8) : Except (Option Nat) (Char × List UInt8) :=
  let second (b : UInt8) : Bool :=
    (secondByteRange first).1 ≤ b.toNat && b.toNat ≤ (secondByteRange first).2
  match sequenceLength first, rest with
  | none, _ => .error (some 1)
  | some 1, rest => .ok (Char.ofNat first.toNat, rest)
  | some 2, [] => .error none
  | some 2, b :: rest =>
    if isContinuation b then
      .ok (Char.ofNat ((first.toNat - 0xC0) * 0x40 + payload b), rest)
    else .error (some 1)
  | some 3, [] => .error none
  | some 3, [b] => if second b then .error none else .error (some 1)
  | some 3, b :: c :: rest =>
    if second b then
      if isContinuation c then
        .ok (Char.ofNat ((first.toNat - 0xE0) * 0x1000 + payload b * 0x40 + payload c), rest)
      else .error (some 2)
    else .error (some 1)
  | some _, [] => .error none
  | some _, [b] => if second b then .error none else .error (some 1)
  | some _, [b, c] =>
    if second b then
      if isContinuation c then .error none else .error (some 2)
    else .error (some 1)
  | some _, b :: c :: d :: rest =>
    if second b then
      if isContinuation c then
        if isContinuation d then
          .ok (Char.ofNat ((first.toNat - 0xF0) * 0x40000 + payload b * 0x1000 + payload c * 0x40
            + payload d), rest)
        else .error (some 3)
      else .error (some 2)
    else .error (some 1)

/-- A character is followed by fewer bytes than its first byte was. -/
theorem length_le_of_firstChar {first : UInt8} {rest rest' : List UInt8} {c : Char}
    (h : firstChar first rest = .ok (c, rest')) : rest'.length ≤ rest.length := by
  unfold firstChar at h
  split at h <;> (repeat' split at h) <;> simp_all <;> grind

/-- Reads `bytes`, of which `done` were read before. -/
def decodeFrom (done : Nat) (bytes : List UInt8) : Except Fault (List Char) :=
  match bytes with
  | [] => .ok []
  | first :: rest =>
    match h : firstChar first rest with
    | .error badLength => .error ⟨done, badLength⟩
    | .ok (c, rest') =>
      have := length_le_of_firstChar h
      (decodeFrom (done + c.utf8Size) rest').map (c :: ·)
termination_by bytes.length

/-- The text that `bytes` hold. -/
def decode (bytes : List UInt8) : Except Fault (List Char) :=
  decodeFrom 0 bytes

/-- The character that stands for bytes that are no text. -/
def replacement : Char :=
  '\uFFFD'

/-- The text that `bytes` hold, with one replacement for every bad sequence. -/
def decodeLossy (bytes : List UInt8) : List Char :=
  match bytes with
  | [] => []
  | first :: rest =>
    match h : firstChar first rest with
    | .error none => [replacement]
    | .error (some badLength) => replacement :: decodeLossy (rest.drop (badLength - 1))
    | .ok (c, rest') =>
      have := length_le_of_firstChar h
      c :: decodeLossy rest'
termination_by bytes.length

end ChangeRelay.Utf8
