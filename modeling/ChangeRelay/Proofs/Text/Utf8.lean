import ChangeRelay.Text.Utf8
import Mathlib.Data.List.Basic
/-!
# UTF-8 reads back

The bytes of a text decode to it, so they determine it, and a zero byte stands for a zero character
only.
-/

namespace ChangeRelay.Utf8

/-! ## The bytes of a string -/

theorem toList_loop (bytes : ByteArray) (i : ℕ) (done : List UInt8) :
    ByteArray.toList.loop bytes i done = done.reverse ++ bytes.data.toList.drop i := by
  -- the induction follows the loop, which has passed over `i` bytes
  fun_induction ByteArray.toList.loop bytes i done with
  | case1 i done h ih =>
    have hi : i < bytes.data.toList.length := by simpa using h
    rw [ih, List.drop_eq_getElem_cons hi]
    simp [ByteArray.get!, h]
  | case2 i done h =>
    rw [List.drop_eq_nil_of_le (by simpa using Nat.le_of_not_lt h), List.append_nil]

theorem toList_bytes (bytes : ByteArray) : bytes.toList = bytes.data.toList := by
  rw [ByteArray.toList, toList_loop]
  rfl

/-- The code points of characters leave out those of surrogates. -/
theorem toNat_range (c : Char) :
    c.toNat < 0xD800 ∨ (0xDFFF < c.toNat ∧ c.toNat < 0x110000) :=
  c.valid

/-- The bytes of one character are those that the library gives it. -/
theorem encodeChar_eq (c : Char) : encodeChar c = String.utf8EncodeChar c := by
  have hn : c.val.toNat = c.toNat := rfl
  have hrange := toNat_range c
  rw [encodeChar, String.utf8EncodeChar.eq_1, hn]
  by_cases hone : c.toNat < 0x80
  · rw [if_pos hone, if_pos (Nat.le_of_lt_succ hone)]
  rw [if_neg hone, if_neg (show ¬ c.toNat ≤ 0x7F by omega)]
  by_cases htwo : c.toNat < 0x800
  · rw [if_pos htwo, if_pos (show c.toNat ≤ 0x7FF by omega),
      Nat.mod_eq_of_lt (show c.toNat / 64 < 32 by omega), Nat.add_comm 0xC0, Nat.add_comm 0x80]
  rw [if_neg htwo, if_neg (show ¬ c.toNat ≤ 0x7FF by omega)]
  by_cases hthree : c.toNat < 0x10000
  · rw [if_pos hthree, if_pos (show c.toNat ≤ 0xFFFF by omega),
      Nat.mod_eq_of_lt (show c.toNat / 4096 < 16 by omega), Nat.add_comm 0xE0, Nat.add_comm 0x80,
      Nat.add_comm 0x80]
  · rw [if_neg hthree, if_neg (show ¬ c.toNat ≤ 0xFFFF by omega),
      Nat.mod_eq_of_lt (show c.toNat / 262144 < 8 by omega), Nat.add_comm 0xF0, Nat.add_comm 0x80,
      Nat.add_comm 0x80, Nat.add_comm 0x80]

/-- The bytes of a string are the bytes of its characters. -/
theorem toList_toUTF8 (s : String) : s.toUTF8.toList = encode s.toList := by
  have hencode : encodeChar = String.utf8EncodeChar := funext encodeChar_eq
  rw [String.toUTF8_eq_toByteArray, ← String.utf8Encode_toList, toList_bytes, encode, hencode,
    List.utf8Encode, List.toList_data_toByteArray]

/-! ## Decoding -/

theorem toNat_toUInt8 {n : ℕ} (h : n < 256) : n.toUInt8.toNat = n :=
  Nat.mod_eq_of_lt h

theorem toUInt8_eq_iff {n m : ℕ} (hn : n < 256) (hm : m < 256) :
    n.toUInt8 = m.toUInt8 ↔ n = m := by
  rw [← UInt8.toNat_inj, toNat_toUInt8 hn, toNat_toUInt8 hm]

theorem isContinuation_toUInt8 {n : ℕ} (h : n < 0x40) :
    isContinuation (0x80 + n).toUInt8 = true := by
  have hn : (0x80 + n).toUInt8.toNat = 0x80 + n := toNat_toUInt8 (by omega)
  simp only [isContinuation, hn, Bool.and_eq_true, decide_eq_true_eq]
  omega

theorem payload_toUInt8 {n : ℕ} (h : n < 0x40) : payload (0x80 + n).toUInt8 = n := by
  have hn : (0x80 + n).toUInt8.toNat = 0x80 + n := toNat_toUInt8 (by omega)
  unfold payload
  omega

/-- What a first byte and the bytes after it have to be for a character of three bytes. -/
theorem firstChar_three {first b c : UInt8} (rest : List UInt8)
    (hfirst : sequenceLength first = some 3)
    (hb : (secondByteRange first).1 ≤ b.toNat ∧ b.toNat ≤ (secondByteRange first).2)
    (hc : isContinuation c = true) :
    firstChar first (b :: c :: rest) =
      .ok (Char.ofNat ((first.toNat - 0xE0) * 0x1000 + payload b * 0x40 + payload c), rest) := by
  unfold firstChar
  simp only [hfirst, hb, hc, decide_true, Bool.and_self, if_true]

/-- What a first byte and the bytes after it have to be for a character of four bytes. -/
theorem firstChar_four {first b c d : UInt8} (rest : List UInt8)
    (hfirst : sequenceLength first = some 4)
    (hb : (secondByteRange first).1 ≤ b.toNat ∧ b.toNat ≤ (secondByteRange first).2)
    (hc : isContinuation c = true) (hd : isContinuation d = true) :
    firstChar first (b :: c :: d :: rest) =
      .ok (Char.ofNat ((first.toNat - 0xF0) * 0x40000 + payload b * 0x1000 + payload c * 0x40
        + payload d), rest) := by
  unfold firstChar
  simp only [hfirst, hb, hc, hd, decide_true, Bool.and_self, if_true]

theorem sequenceLength_toUInt8 {n : ℕ} (h : n < 256) : sequenceLength n.toUInt8 =
    if n < 0x80 then some 1
    else if 0xC2 ≤ n ∧ n ≤ 0xDF then some 2
    else if 0xE0 ≤ n ∧ n ≤ 0xEF then some 3
    else if 0xF0 ≤ n ∧ n ≤ 0xF4 then some 4
    else none := by
  simp only [sequenceLength, toNat_toUInt8 h, Bool.and_eq_true, decide_eq_true_eq]

theorem secondByteRange_toUInt8 {n : ℕ} (h : n < 256) : secondByteRange n.toUInt8 =
    if n = 0xE0 then (0xA0, 0xBF)
    else if n = 0xED then (0x80, 0x9F)
    else if n = 0xF0 then (0x90, 0xBF)
    else if n = 0xF4 then (0x80, 0x8F)
    else (0x80, 0xBF) := by
  have heq (m : ℕ) (hm : m < 256) : n.toUInt8 = m.toUInt8 ↔ n = m := toUInt8_eq_iff h hm
  unfold secondByteRange
  simp only [show (0xE0 : UInt8) = (0xE0 : ℕ).toUInt8 from rfl,
    show (0xED : UInt8) = (0xED : ℕ).toUInt8 from rfl,
    show (0xF0 : UInt8) = (0xF0 : ℕ).toUInt8 from rfl,
    show (0xF4 : UInt8) = (0xF4 : ℕ).toUInt8 from rfl, heq 0xE0 (by decide),
    heq 0xED (by decide), heq 0xF0 (by decide), heq 0xF4 (by decide)]

/-- Three bytes of a character are neither an overlong form nor those of a surrogate. -/
theorem secondByte_three {n : ℕ} (hlow : 0x800 ≤ n) (hhigh : n < 0x10000)
    (hsurrogate : n < 0xD800 ∨ 0xDFFF < n) :
    (secondByteRange (0xE0 + n / 0x1000).toUInt8).1 ≤ (0x80 + n / 0x40 % 0x40).toUInt8.toNat ∧
      (0x80 + n / 0x40 % 0x40).toUInt8.toNat ≤ (secondByteRange (0xE0 + n / 0x1000).toUInt8).2 := by
  rw [secondByteRange_toUInt8 (by omega), toNat_toUInt8 (by omega)]
  split_ifs <;> simp only <;> omega

/-- Four bytes of a character are neither an overlong form nor above the last code point. -/
theorem secondByte_four {n : ℕ} (hlow : 0x10000 ≤ n) (hhigh : n < 0x110000) :
    (secondByteRange (0xF0 + n / 0x40000).toUInt8).1 ≤ (0x80 + n / 0x1000 % 0x40).toUInt8.toNat ∧
      (0x80 + n / 0x1000 % 0x40).toUInt8.toNat ≤
        (secondByteRange (0xF0 + n / 0x40000).toUInt8).2 := by
  rw [secondByteRange_toUInt8 (by omega), toNat_toUInt8 (by omega)]
  split_ifs <;> simp only <;> omega

/-- The first character of its own bytes is the character. -/
theorem firstChar_encodeChar (c : Char) (rest : List UInt8) :
    ∃ first more, encodeChar c = first :: more ∧
      firstChar first (more ++ rest) = .ok (c, rest) := by
  have hrange := toNat_range c
  have hchar {n : ℕ} (hn : n = c.toNat) : Char.ofNat n = c := by rw [hn, Char.ofNat_toNat]
  have hlast : c.toNat % 0x40 < 0x40 := Nat.mod_lt _ (by decide)
  have hthird : c.toNat / 0x40 % 0x40 < 0x40 := Nat.mod_lt _ (by decide)
  have hsecond : c.toNat / 0x1000 % 0x40 < 0x40 := Nat.mod_lt _ (by decide)
  by_cases hone : c.toNat < 0x80
  · refine ⟨_, [], by rw [encodeChar, if_pos hone], ?_⟩
    have hfirst : sequenceLength c.toNat.toUInt8 = some 1 := by
      rw [sequenceLength_toUInt8 (by omega), if_pos hone]
    unfold firstChar
    simp only [hfirst, toNat_toUInt8 (show c.toNat < 256 by omega), Char.ofNat_toNat,
      List.nil_append]
  by_cases htwo : c.toNat < 0x800
  · refine ⟨_, [_], by rw [encodeChar, if_neg hone, if_pos htwo], ?_⟩
    have hb : 0xC0 + c.toNat / 0x40 < 256 := by omega
    have hfirst : sequenceLength (0xC0 + c.toNat / 0x40).toUInt8 = some 2 := by
      rw [sequenceLength_toUInt8 hb, if_neg (by omega), if_pos (by omega)]
    unfold firstChar
    simp only [hfirst, List.singleton_append, isContinuation_toUInt8 hlast, if_true,
      payload_toUInt8 hlast, toNat_toUInt8 hb]
    rw [hchar (by omega)]
  by_cases hthree : c.toNat < 0x10000
  · refine ⟨_, [_, _], by rw [encodeChar, if_neg hone, if_neg htwo, if_pos hthree], ?_⟩
    have hb : 0xE0 + c.toNat / 0x1000 < 256 := by omega
    have hfirst : sequenceLength (0xE0 + c.toNat / 0x1000).toUInt8 = some 3 := by
      rw [sequenceLength_toUInt8 hb, if_neg (by omega), if_neg (by omega), if_pos (by omega)]
    have hrestricted := secondByte_three (Nat.le_of_not_lt htwo) hthree (by omega)
    show firstChar _ (_ :: _ :: rest) = _
    rw [firstChar_three rest hfirst hrestricted (isContinuation_toUInt8 hlast),
      payload_toUInt8 hthird, payload_toUInt8 hlast, toNat_toUInt8 hb, hchar (by omega)]
  · refine ⟨_, [_, _, _], by rw [encodeChar, if_neg hone, if_neg htwo, if_neg hthree], ?_⟩
    have hb : 0xF0 + c.toNat / 0x40000 < 256 := by omega
    have hfirst : sequenceLength (0xF0 + c.toNat / 0x40000).toUInt8 = some 4 := by
      rw [sequenceLength_toUInt8 hb, if_neg (by omega), if_neg (by omega), if_neg (by omega),
        if_pos (by omega)]
    have hrestricted := secondByte_four (Nat.le_of_not_lt hthree) (by omega)
    show firstChar _ (_ :: _ :: _ :: rest) = _
    rw [firstChar_four rest hfirst hrestricted (isContinuation_toUInt8 hthird)
      (isContinuation_toUInt8 hlast), payload_toUInt8 hsecond, payload_toUInt8 hthird,
      payload_toUInt8 hlast, toNat_toUInt8 hb, hchar (by omega)]

/-- A character that is read is read whatever follows it. -/
theorem firstChar_append {first : UInt8} {rest rest' : List UInt8} {c : Char}
    (h : firstChar first rest = .ok (c, rest')) (more : List UInt8) :
    firstChar first (rest ++ more) = .ok (c, rest' ++ more) := by
  unfold firstChar at h ⊢
  split at h
  all_goals grind

theorem decodeFrom_cons {first : UInt8} {rest rest' : List UInt8} {c : Char}
    (h : firstChar first rest = .ok (c, rest')) (done : ℕ) :
    decodeFrom done (first :: rest) = (decodeFrom (done + c.utf8Size) rest').map (c :: ·) := by
  rw [decodeFrom]
  split
  · next heq => simp [h] at heq
  · next heq =>
    obtain ⟨rfl, rfl⟩ := Prod.mk.inj (Except.ok.inj (h.symm.trans heq))
    rfl

/-- Bytes that are a text decode to it whatever follows them. -/
theorem decodeFrom_append {done : ℕ} {bytes : List UInt8} {cs : List Char}
    (h : decodeFrom done bytes = .ok cs) (more : List UInt8) :
    decodeFrom done (bytes ++ more) = (decodeFrom (done + byteLength cs) more).map (cs ++ ·) := by
  -- the induction follows the decoder, character by character
  fun_induction decodeFrom done bytes generalizing cs with
  | case1 done =>
    obtain rfl := Except.ok.inj h
    rw [List.nil_append, byteLength, Nat.add_zero]
    cases decodeFrom done more <;> rfl
  | case2 done first rest badLength hfirst => simp at h
  | case3 done first rest c rest' hfirst _ ih =>
    cases hrest : decodeFrom (done + c.utf8Size) rest' with
    | error e => simp [hrest, Except.map] at h
    | ok ds =>
      rw [hrest] at h
      obtain rfl : c :: ds = cs := Except.ok.inj h
      rw [List.cons_append, decodeFrom_cons (firstChar_append hfirst more), ih hrest, byteLength,
        Nat.add_assoc]
      cases decodeFrom _ more <;> rfl

theorem decodeFrom_encode (done : ℕ) (cs : List Char) : decodeFrom done (encode cs) = .ok cs := by
  induction cs generalizing done with
  | nil => rw [encode, List.flatMap_nil, decodeFrom]
  | cons c cs ih =>
    obtain ⟨first, more, hbytes, hfirst⟩ := firstChar_encodeChar c (encode cs)
    rw [encode, List.flatMap_cons, ← encode, hbytes, List.cons_append, decodeFrom_cons hfirst, ih]
    rfl

/-- The bytes of a text decode to it. -/
theorem decode_encode (cs : List Char) : decode (encode cs) = .ok cs :=
  decodeFrom_encode 0 cs

theorem eq_nil_of_decodeFrom {done : ℕ} {bytes : List UInt8} (h : decodeFrom done bytes = .ok []) :
    bytes = [] := by
  cases bytes with
  | nil => rfl
  | cons first rest =>
    cases hfirst : firstChar first rest with
    | error badLength =>
      rw [decodeFrom] at h
      split at h
      · simp at h
      · next heq => simp [hfirst] at heq
    | ok r =>
      rw [decodeFrom_cons hfirst] at h
      cases hrest : decodeFrom (done + r.1.utf8Size) r.2
      all_goals simp [hrest, Except.map] at h

/-- Bytes that are cut off before the end of a text are no text, or a beginning of that text. -/
theorem isPrefix_of_decode_take {cs p : List Char} {k : ℕ} (hk : k < (encode cs).length)
    (h : decode ((encode cs).take k) = .ok p) : p <+: cs ∧ p ≠ cs := by
  have hwhole := decodeFrom_append h ((encode cs).drop k)
  rw [List.take_append_drop, decodeFrom_encode] at hwhole
  cases hleft : decodeFrom (0 + byteLength p) ((encode cs).drop k) with
  | error e =>
    rw [hleft] at hwhole
    simp [Except.map] at hwhole
  | ok q =>
    rw [hleft] at hwhole
    obtain rfl : cs = p ++ q := Except.ok.inj hwhole
    refine ⟨List.prefix_append p q, fun hsame => ?_⟩
    obtain rfl : q = [] := List.self_eq_append_right.mp hsame
    have hdrop := List.drop_eq_nil_iff.mp (eq_nil_of_decodeFrom hleft)
    omega

theorem encode_injective : Function.Injective encode := by
  intro cs ds h
  have hdecode := congrArg decode h
  rw [decode_encode, decode_encode] at hdecode
  exact Except.ok.inj hdecode

theorem encode_append (cs ds : List Char) : encode (cs ++ ds) = encode cs ++ encode ds :=
  List.flatMap_append

/-! ## Bytes of ASCII characters -/

/-- A character below 128 is one byte, and every byte of another one is at least 128. -/
theorem encodeChar_cases (c : Char) : (c.toNat < 0x80 ∧ encodeChar c = [c.toNat.toUInt8]) ∨
    ∀ b ∈ encodeChar c, 0x80 ≤ b.toNat := by
  have hrange := toNat_range c
  have hbyte {n : ℕ} (hn : n < 256) (hhigh : 0x80 ≤ n) : 0x80 ≤ n.toUInt8.toNat := by
    rw [toNat_toUInt8 hn]
    exact hhigh
  unfold encodeChar
  dsimp only
  split_ifs with hone htwo hthree
  · exact .inl ⟨hone, rfl⟩
  · simp only [List.forall_mem_cons]
    exact .inr ⟨hbyte (by omega) (by omega), hbyte (by omega) (by omega), by simp⟩
  · simp only [List.forall_mem_cons]
    exact .inr ⟨hbyte (by omega) (by omega), hbyte (by omega) (by omega),
      hbyte (by omega) (by omega), by simp⟩
  · simp only [List.forall_mem_cons]
    exact .inr ⟨hbyte (by omega) (by omega), hbyte (by omega) (by omega),
      hbyte (by omega) (by omega), hbyte (by omega) (by omega), by simp⟩

theorem toNat_of_mem_encodeChar {c : Char} {b : UInt8} (h : b ∈ encodeChar c)
    (hb : b.toNat < 0x80) : c.toNat = b.toNat := by
  rcases encodeChar_cases c with ⟨hc, hbytes⟩ | hbytes
  · rw [hbytes, List.mem_singleton] at h
    rw [h, toNat_toUInt8 (by omega)]
  · exact absurd (hbytes b h) (by omega)

/-- A byte below 128 stands for a character of its own. -/
theorem exists_mem_of_mem_encode {cs : List Char} {b : UInt8} (h : b ∈ encode cs)
    (hb : b.toNat < 0x80) : ∃ c ∈ cs, c.toNat = b.toNat := by
  obtain ⟨c, hc, hmem⟩ := List.mem_flatMap.mp h
  exact ⟨c, hc, toNat_of_mem_encodeChar hmem hb⟩

theorem le_of_isContinuation {b : UInt8} (h : isContinuation b = true) : 0x80 ≤ b.toNat := by
  simp only [isContinuation, Bool.and_eq_true, decide_eq_true_eq] at h
  exact h.1

theorem le_secondByteRange (b : UInt8) : 0x80 ≤ (secondByteRange b).1 := by
  unfold secondByteRange
  split_ifs <;> decide

theorem le_of_sequenceLength {b : UInt8} {k : ℕ} (h : sequenceLength b = some k) (hk : k ≠ 1) :
    0x80 ≤ b.toNat := by
  by_contra hlow
  rw [sequenceLength, if_pos (Nat.lt_of_not_le hlow)] at h
  exact hk (Option.some.inj h).symm

/-- The first byte is the first character, or all bytes of that character are at least 128. -/
theorem firstChar_cases {first : UInt8} {rest rest' : List UInt8} {c : Char}
    (h : firstChar first rest = .ok (c, rest')) :
    (c = Char.ofNat first.toNat ∧ rest' = rest) ∨
      (0x80 ≤ first.toNat ∧ ∃ more, rest = more ++ rest' ∧ ∀ b ∈ more, 0x80 ≤ b.toNat) := by
  have hsecond {b : UInt8} (h : (secondByteRange first).1 ≤ b.toNat) : 0x80 ≤ b.toNat :=
    Nat.le_trans (le_secondByteRange first) h
  unfold firstChar at h
  simp only [Bool.and_eq_true, decide_eq_true_eq] at h
  split at h
  case h_2 =>
    obtain ⟨rfl, rfl⟩ := Prod.mk.inj (Except.ok.inj h)
    exact .inl ⟨rfl, rfl⟩
  case h_4 b rest hlength =>
    split_ifs at h with hb
    obtain ⟨_, rfl⟩ := Prod.mk.inj (Except.ok.inj h)
    refine .inr ⟨le_of_sequenceLength hlength (by decide), [b], rfl, ?_⟩
    simpa using le_of_isContinuation hb
  case h_7 b c rest hlength =>
    split_ifs at h with hb hc
    obtain ⟨_, rfl⟩ := Prod.mk.inj (Except.ok.inj h)
    refine .inr ⟨le_of_sequenceLength hlength (by decide), [b, c], rfl, ?_⟩
    simpa using ⟨hsecond hb.1, le_of_isContinuation hc⟩
  case h_11 k b c d rest hone _ _ hlength =>
    split_ifs at h with hb hc hd
    obtain ⟨_, rfl⟩ := Prod.mk.inj (Except.ok.inj h)
    refine .inr ⟨le_of_sequenceLength hlength hone, [b, c, d], rfl, ?_⟩
    simpa using ⟨hsecond hb.1, le_of_isContinuation hc, le_of_isContinuation hd⟩
  -- there is no character, whatever the bytes are
  all_goals grind

/-- A byte below 128 is decoded as the character it stands for. -/
theorem mem_of_decodeFrom {done : ℕ} {bytes : List UInt8} {cs : List Char} {b : UInt8}
    (h : decodeFrom done bytes = .ok cs) (hmem : b ∈ bytes) (hb : b.toNat < 0x80) :
    Char.ofNat b.toNat ∈ cs := by
  -- the induction follows the decoder, character by character
  fun_induction decodeFrom done bytes generalizing cs with
  | case1 => simp at hmem
  | case2 done first rest badLength hfirst => simp at h
  | case3 done first rest c rest' hfirst _ ih =>
    cases hrest : decodeFrom (done + c.utf8Size) rest' with
    | error e => simp [hrest, Except.map] at h
    | ok ds =>
      rw [hrest] at h
      obtain rfl : c :: ds = cs := Except.ok.inj h
      rcases firstChar_cases hfirst with ⟨rfl, rfl⟩ | ⟨hhigh, more, rfl, hmore⟩
      · rcases List.mem_cons.mp hmem with rfl | hmem
        · exact List.mem_cons_self
        · exact List.mem_cons_of_mem _ (ih hrest hmem)
      · rcases List.mem_cons.mp hmem with rfl | hmem
        · omega
        · rcases List.mem_append.mp hmem with hmem | hmem
          · have := hmore b hmem
            omega
          · exact List.mem_cons_of_mem _ (ih hrest hmem)

/-- A text with a zero byte has a zero character. -/
theorem zero_mem_encode {cs : List Char} (h : 0 ∈ encode cs) : '\x00' ∈ cs := by
  obtain ⟨c, hc, hcode⟩ := exists_mem_of_mem_encode h (by decide)
  have hchar : c = '\x00' := Char.toNat_inj.mp hcode
  exact hchar ▸ hc

end ChangeRelay.Utf8
