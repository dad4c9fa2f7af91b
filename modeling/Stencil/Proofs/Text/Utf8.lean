import Stencil.Encoding

/-!
# Decoding what was encoded

The bytes of a text are read as that text, strictly or not (`Encoding.decode_toUTF8`): each of its characters is read off the
bytes it is encoded as, whatever follows (`front_of_utf8EncodeChar`).
-/

namespace Stencil

namespace Text.Utf8

private theorem toNat_byte {n : Nat} (hn : n < 256) : (UInt8.ofNat n).toNat = n := by
  rw [UInt8.toNat_ofNat', Nat.mod_eq_of_lt hn]

/-- A byte behind the first holds six bits. -/
private theorem follow_byte {low high : UInt8} {n : Nat} (hn : n < 64) (hlow : low.toNat ≤ n + 128)
    (hhigh : n + 128 ≤ high.toNat) (ranges : List (UInt8 × UInt8)) (code : Nat) (s : List UInt8) :
    follow ((low, high) :: ranges) code (UInt8.ofNat (n + 128) :: s) = follow ranges (code * 64 + n) s := by
  have hbyte : (UInt8.ofNat (n + 128)).toNat = n + 128 := toNat_byte (by omega)
  have hrange : low ≤ UInt8.ofNat (n + 128) ∧ UInt8.ofNat (n + 128) ≤ high := by
    rw [UInt8.le_iff_toNat_le, UInt8.le_iff_toNat_le, hbyte]
    exact ⟨hlow, hhigh⟩
  have hbits : (n + 128) % 64 = n := by omega
  rw [follow, if_pos hrange, hbyte, hbits]

private theorem follow_tail {n : Nat} (hn : n < 64) (ranges : List (UInt8 × UInt8)) (code : Nat) (s : List UInt8) :
    follow ((0x80, 0xBF) :: ranges) code (UInt8.ofNat (n + 128) :: s) = follow ranges (code * 64 + n) s := by
  apply follow_byte hn
  · change 128 ≤ n + 128
    omega
  · change n + 128 ≤ 191
    omega

private theorem front_of_follow {c : Char} {b : UInt8} {s rest : List UInt8} {ranges : List (UInt8 × UInt8)}
    (hranges : followers? b = some ranges) (hfollow : follow ranges (leadValue b) s = .ok (c.toNat, rest)) :
    front b s = .char c rest := by
  rw [front, hranges]
  simp only [hfollow, Char.ofNat_toNat]

private theorem first_of_one : ∀ n < 128,
    followers? (UInt8.ofNat n) = some [] ∧ leadValue (UInt8.ofNat n) = n := by decide

private theorem first_of_two : ∀ n < 32, 2 ≤ n →
    followers? (UInt8.ofNat (n + 192)) = some [(0x80, 0xBF)] ∧ leadValue (UInt8.ofNat (n + 192)) = n := by decide

private theorem first_of_three : ∀ n < 16,
    followers? (UInt8.ofNat (n + 224)) =
      some [(if n = 0 then 0xA0 else 0x80, if n = 13 then 0x9F else 0xBF), (0x80, 0xBF)] ∧
      leadValue (UInt8.ofNat (n + 224)) = n := by decide

private theorem first_of_four : ∀ n < 5,
    followers? (UInt8.ofNat (n + 240)) =
      some [(if n = 0 then 0x90 else 0x80, if n = 4 then 0x8F else 0xBF), (0x80, 0xBF), (0x80, 0xBF)] ∧
      leadValue (UInt8.ofNat (n + 240)) = n := by decide

section Front

variable {c : Char}

private theorem front_of_one (hcode : c.toNat ≤ 127) (rest : List UInt8) :
    front (UInt8.ofNat c.toNat) rest = .char c rest := by
  obtain ⟨hranges, hlead⟩ := first_of_one c.toNat (by omega)
  apply front_of_follow hranges
  rw [hlead, follow]

private theorem front_of_two (hlow : ¬ c.toNat ≤ 127) (hhigh : c.toNat ≤ 2047) (rest : List UInt8) :
    front (UInt8.ofNat (c.toNat / 64 % 32 + 192)) (UInt8.ofNat (c.toNat % 64 + 128) :: rest) = .char c rest := by
  obtain ⟨hranges, hlead⟩ := first_of_two (c.toNat / 64 % 32) (by omega) (by omega)
  have hbits : c.toNat % 64 < 64 := by omega
  have hcode : c.toNat / 64 % 32 * 64 + c.toNat % 64 = c.toNat := by omega
  apply front_of_follow hranges
  rw [hlead, follow_tail hbits, follow, hcode]

private theorem front_of_three (hlow : ¬ c.toNat ≤ 2047) (hhigh : c.toNat ≤ 65535) (rest : List UInt8) :
    front (UInt8.ofNat (c.toNat / 4096 % 16 + 224))
      (UInt8.ofNat (c.toNat / 64 % 64 + 128) :: UInt8.ofNat (c.toNat % 64 + 128) :: rest) = .char c rest := by
  have hvalid : c.toNat < 0xD800 ∨ 0xDFFF < c.toNat ∧ c.toNat < 0x110000 := c.valid
  obtain ⟨hranges, hlead⟩ := first_of_three (c.toNat / 4096 % 16) (by omega)
  have hbits : c.toNat / 64 % 64 < 64 := by omega
  have hbits' : c.toNat % 64 < 64 := by omega
  have hcode : (c.toNat / 4096 % 16 * 64 + c.toNat / 64 % 64) * 64 + c.toNat % 64 = c.toNat := by omega
  apply front_of_follow hranges
  rw [hlead, follow_byte hbits, follow_tail hbits', follow, hcode]
  · -- A character that fits into two bytes is not encoded as three.
    split
    · change 160 ≤ c.toNat / 64 % 64 + 128
      omega
    · change 128 ≤ c.toNat / 64 % 64 + 128
      omega
  · -- No character is a surrogate.
    split
    · change c.toNat / 64 % 64 + 128 ≤ 159
      omega
    · change c.toNat / 64 % 64 + 128 ≤ 191
      omega

private theorem front_of_four (hlow : ¬ c.toNat ≤ 65535) (rest : List UInt8) :
    front (UInt8.ofNat (c.toNat / 262144 % 8 + 240))
      (UInt8.ofNat (c.toNat / 4096 % 64 + 128) :: UInt8.ofNat (c.toNat / 64 % 64 + 128) ::
        UInt8.ofNat (c.toNat % 64 + 128) :: rest) = .char c rest := by
  have hvalid : c.toNat < 0xD800 ∨ 0xDFFF < c.toNat ∧ c.toNat < 0x110000 := c.valid
  obtain ⟨hranges, hlead⟩ := first_of_four (c.toNat / 262144 % 8) (by omega)
  have hbits : c.toNat / 4096 % 64 < 64 := by omega
  have hbits' : c.toNat / 64 % 64 < 64 := by omega
  have hbits'' : c.toNat % 64 < 64 := by omega
  have hcode : ((c.toNat / 262144 % 8 * 64 + c.toNat / 4096 % 64) * 64 + c.toNat / 64 % 64) * 64 + c.toNat % 64 =
      c.toNat := by omega
  apply front_of_follow hranges
  rw [hlead, follow_byte hbits, follow_tail hbits', follow_tail hbits'', follow, hcode]
  · split
    · change 144 ≤ c.toNat / 4096 % 64 + 128
      omega
    · change 128 ≤ c.toNat / 4096 % 64 + 128
      omega
  · -- The last character of all is the last one below 0x110000.
    split
    · change c.toNat / 4096 % 64 + 128 ≤ 143
      omega
    · change c.toNat / 4096 % 64 + 128 ≤ 191
      omega

end Front

theorem front_of_utf8EncodeChar (c : Char) :
    ∃ b bytes, String.utf8EncodeChar c = b :: bytes ∧ ∀ rest, front b (bytes ++ rest) = .char c rest := by
  rw [String.utf8EncodeChar]
  by_cases hone : c.val.toNat ≤ 127
  · exact ⟨_, _, if_pos hone, front_of_one hone⟩
  rw [if_neg hone]
  by_cases htwo : c.val.toNat ≤ 2047
  · exact ⟨_, _, if_pos htwo, front_of_two hone htwo⟩
  rw [if_neg htwo]
  by_cases hthree : c.val.toNat ≤ 65535
  · exact ⟨_, _, if_pos hthree, front_of_three htwo hthree⟩
  · exact ⟨_, _, if_neg hthree, front_of_four hthree⟩

theorem decodeFrom_of_char {b : UInt8} {s rest : List UInt8} {c : Char} (h : front b s = .char c rest) (index : Nat) :
    decodeFrom index (b :: s) = (decodeFrom (index + (s.length + 1 - rest.length)) rest).map (c :: ·) := by
  rw [decodeFrom]
  split
  · next c' rest' hfront =>
    obtain ⟨rfl, rfl⟩ := Front.char.inj (h.symm.trans hfront)
    rfl
  · next hfront =>
    rw [h] at hfront
    cases hfront
  · next hfront =>
    rw [h] at hfront
    cases hfront

theorem replacing_of_char {b : UInt8} {s rest : List UInt8} {c : Char} (h : front b s = .char c rest) :
    replacing (b :: s) = c :: replacing rest := by
  rw [replacing]
  split
  · next c' rest' hfront =>
    obtain ⟨rfl, rfl⟩ := Front.char.inj (h.symm.trans hfront)
    rfl
  · next hfront =>
    rw [h] at hfront
    cases hfront
  · next hfront =>
    rw [h] at hfront
    cases hfront

theorem decodeFrom_encoded (index : Nat) (s : List Char) : decodeFrom index (s.flatMap String.utf8EncodeChar) = .ok s := by
  induction s generalizing index with
  | nil => rw [List.flatMap_nil, decodeFrom]
  | cons c s ih =>
    obtain ⟨b, bytes, hbytes, hfront⟩ := front_of_utf8EncodeChar c
    rw [List.flatMap_cons, hbytes, List.cons_append, decodeFrom_of_char (hfront _), ih]
    rfl

theorem replacing_encoded (s : List Char) : replacing (s.flatMap String.utf8EncodeChar) = s := by
  induction s with
  | nil => rw [List.flatMap_nil, replacing]
  | cons c s ih =>
    obtain ⟨b, bytes, hbytes, hfront⟩ := front_of_utf8EncodeChar c
    rw [List.flatMap_cons, hbytes, List.cons_append, replacing_of_char (hfront _), ih]

theorem toList_toUTF8 (s : String) : s.toUTF8.data.toList = s.toList.flatMap String.utf8EncodeChar := by
  have hbytes : s.toUTF8 = s.toList.utf8Encode := by
    rw [← String.toByteArray_ofList, String.ofList_toList, String.toUTF8]
  rw [hbytes, List.utf8Encode, List.toList_data_toByteArray]

theorem decode_toUTF8 (s : String) : decode s.toUTF8.data.toList = .ok s := by
  rw [decode, toList_toUTF8, decodeFrom_encoded]
  exact congrArg Except.ok String.ofList_toList

theorem decodeLossy_toUTF8 (s : String) : decodeLossy s.toUTF8.data.toList = s := by
  rw [decodeLossy, toList_toUTF8, replacing_encoded, String.ofList_toList]

end Text.Utf8

/-- The bytes of a text are read as the text, strictly or not. -/
theorem Encoding.decode_toUTF8 (encoding : Encoding) (s : String) :
    encoding.decode s.toUTF8.data.toList = .ok s := by
  cases encoding with
  | utf8 => exact Text.Utf8.decode_toUTF8 s
  | utf8Lossy => exact congrArg Except.ok (Text.Utf8.decodeLossy_toUTF8 s)

end Stencil
