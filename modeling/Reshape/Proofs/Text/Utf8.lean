import Reshape.Text.Utf8

/-!
# Encoding and decoding

The bytes of a text are decoded to its characters. A text seems to begin with a byte order mark only
if its first character is one.

## Main statements

* `Utf8.toList_toUTF8`: the bytes of a text, character by character.
* `Utf8.decodeFrom_utf8EncodeChar`: one character is read.
* `Utf8.decode_toUTF8`: decoding undoes encoding.
* `Utf8.dropMark_toUTF8`: without a mark nothing is dropped.
-/

namespace Reshape.Utf8

/-! ## Bytes -/

/-- The bytes from an index on, behind those that were taken. -/
theorem toList_loop (bytes : ByteArray) (i : Nat) (taken : List UInt8) :
    ByteArray.toList.loop bytes i taken = taken.reverse ++ bytes.data.toList.drop i := by
  fun_induction ByteArray.toList.loop bytes i taken with
  | case1 i taken hi ih =>
    have hlt : i < bytes.data.toList.length := by simpa using hi
    have hget : bytes.get! i = bytes.data.toList[i] := by simp [ByteArray.get!, hi]
    rw [ih, hget, List.reverse_cons, List.append_assoc, List.singleton_append,
      ← List.drop_eq_getElem_cons hlt]
  | case2 i taken hi =>
    have hle : bytes.data.toList.length ≤ i := by simpa using hi
    rw [List.drop_eq_nil_of_le hle, List.append_nil]

/-- The bytes of a text are those of its characters, one after the other. -/
theorem toList_toUTF8 (s : String) : s.toUTF8.toList = s.toList.flatMap String.utf8EncodeChar := by
  have hlist : ∀ cs : List Char, cs.utf8Encode.data.toList = cs.flatMap String.utf8EncodeChar := by
    intro cs
    induction cs with
    | nil => rfl
    | cons c cs ih =>
      rw [List.utf8Encode_cons, List.utf8Encode_singleton, ByteArray.toList_data_append,
        List.toList_data_toByteArray, ih, List.flatMap_cons]
  rw [String.toUTF8, ← String.utf8Encode_toList, ByteArray.toList, toList_loop, List.reverse_nil,
    List.nil_append, List.drop_zero, hlist]

/-! ## Characters of several bytes -/

/-- The bits of a number that a byte in the middle of a character carries. -/
def following (x : Nat) : UInt8 := UInt8.ofNat (x % 64 + 128)

theorem toNat_following (x : Nat) : (following x).toNat = x % 64 + 128 := by
  simp only [following, UInt8.toNat_ofNat']
  omega

variable {index taken low high code x : Nat} {rest : List UInt8}

/-- The last byte of a character. -/
theorem decodeFrom_last (hlow : low ≤ x % 64 + 128) (hhigh : x % 64 + 128 ≤ high) :
    decodeFrom index (some ⟨taken, 0, low, high, code⟩) (following x :: rest) =
      (decodeFrom (index + taken + 1) none rest).map (Char.ofNat (code * 64 + x % 64) :: ·) := by
  rw [decodeFrom, toNat_following, if_pos ⟨hlow, hhigh⟩, Nat.add_sub_cancel]
  rcases decodeFrom (index + taken + 1) none rest with e | cs <;> rfl

/-- A byte of a character that is not the last one. -/
theorem decodeFrom_following {missing : Nat} (hlow : low ≤ x % 64 + 128)
    (hhigh : x % 64 + 128 ≤ high) :
    decodeFrom index (some ⟨taken, missing + 1, low, high, code⟩) (following x :: rest) =
      decodeFrom index (some ⟨taken + 1, missing, 0x80, 0xBF, code * 64 + x % 64⟩) rest := by
  rw [decodeFrom, toNat_following, if_pos ⟨hlow, hhigh⟩, Nat.add_sub_cancel]

/-- The first byte of a character of several bytes. -/
theorem decodeFrom_lead {b : Nat} {p : Partial} (hb : 0x80 ≤ b) (hb' : b < 256)
    (hlead : lead? b = some p) :
    decodeFrom index none (UInt8.ofNat b :: rest) = decodeFrom index (some p) rest := by
  have hnat : (UInt8.ofNat b).toNat = b := by
    rw [UInt8.toNat_ofNat']
    omega
  rw [decodeFrom, hnat, if_neg (Nat.not_lt.mpr hb), hlead]

/-- The first of two bytes. -/
theorem lead?_two {v : Nat} (hlow : 0x7F < v) (hhigh : v ≤ 0x7FF) :
    lead? (v / 64 % 32 + 192) = some ⟨1, 0, 0x80, 0xBF, v / 64⟩ := by
  have hcode : v / 64 % 32 + 192 - 0xC0 = v / 64 := by omega
  rw [lead?, if_pos (by omega), hcode]

/-- The first of three bytes. The second one is neither part of an overlong form nor of a
surrogate. -/
theorem lead?_three {v : Nat} (hlow : 0x7FF < v) (hhigh : v ≤ 0xFFFF)
    (hscalar : v < 0xD800 ∨ 0xDFFF < v) :
    ∃ low high, lead? (v / 4096 % 16 + 224) = some ⟨1, 1, low, high, v / 4096⟩ ∧
      low ≤ v / 64 % 64 + 128 ∧ v / 64 % 64 + 128 ≤ high := by
  have hcode : v / 4096 % 16 + 224 - 0xE0 = v / 4096 := by omega
  rw [lead?, if_neg (by omega)]
  by_cases hfirst : v / 4096 % 16 + 224 = 0xE0
  · rw [if_pos hfirst]
    exact ⟨0xA0, 0xBF, by simp; omega, by omega, by omega⟩
  rw [if_neg hfirst]
  by_cases hsurrogate : v / 4096 % 16 + 224 = 0xED
  · rw [if_pos hsurrogate]
    exact ⟨0x80, 0x9F, by simp; omega, by omega, by omega⟩
  rw [if_neg hsurrogate, if_pos (by omega), hcode]
  exact ⟨0x80, 0xBF, rfl, by omega, by omega⟩

/-- The first of four bytes. The second one is neither part of an overlong form nor of a number that
is too large. -/
theorem lead?_four {v : Nat} (hlow : 0xFFFF < v) (hhigh : v < 0x110000) :
    ∃ low high, lead? (v / 262144 % 8 + 240) = some ⟨1, 2, low, high, v / 262144⟩ ∧
      low ≤ v / 4096 % 64 + 128 ∧ v / 4096 % 64 + 128 ≤ high := by
  have hcode : v / 262144 % 8 + 240 - 0xF0 = v / 262144 := by omega
  rw [lead?, if_neg (by omega), if_neg (by omega), if_neg (by omega), if_neg (by omega)]
  by_cases hfirst : v / 262144 % 8 + 240 = 0xF0
  · rw [if_pos hfirst]
    exact ⟨0x90, 0xBF, by simp; omega, by omega, by omega⟩
  rw [if_neg hfirst]
  by_cases hlast : v / 262144 % 8 + 240 = 0xF4
  · rw [if_neg (by omega), if_pos hlast]
    exact ⟨0x80, 0x8F, by simp; omega, by omega, by omega⟩
  rw [if_pos (by omega), hcode]
  exact ⟨0x80, 0xBF, rfl, by omega, by omega⟩

/-! ## Decoding -/

/-- The bytes of a character are read as the character. -/
theorem decodeFrom_utf8EncodeChar (index : Nat) (c : Char) (rest : List UInt8) :
    ∃ index', decodeFrom index none (String.utf8EncodeChar c ++ rest) =
      (decodeFrom index' none rest).map (c :: ·) := by
  have hscalar : c.toNat < 0xD800 ∨ 0xDFFF < c.toNat ∧ c.toNat < 0x110000 := c.valid
  have hofNat : Char.ofNat c.toNat = c := Char.ofNat_toNat c
  have hbytes : String.utf8EncodeChar c =
      if c.toNat ≤ 0x7F then [UInt8.ofNat c.toNat]
      else if c.toNat ≤ 0x7FF then [UInt8.ofNat (c.toNat / 64 % 32 + 192), following c.toNat]
      else if c.toNat ≤ 0xFFFF then
        [UInt8.ofNat (c.toNat / 4096 % 16 + 224), following (c.toNat / 64), following c.toNat]
      else
        [UInt8.ofNat (c.toNat / 262144 % 8 + 240), following (c.toNat / 4096),
          following (c.toNat / 64), following c.toNat] := rfl
  rw [hbytes]
  generalize c.toNat = v at hscalar hofNat
  by_cases hone : v ≤ 0x7F
  · refine ⟨index + 1, ?_⟩
    have hnat : (UInt8.ofNat v).toNat = v := by
      rw [UInt8.toNat_ofNat']
      omega
    rw [if_pos hone, List.singleton_append, decodeFrom, hnat, if_pos (by omega), hofNat]
    rcases decodeFrom (index + 1) none rest with e | cs <;> rfl
  rw [if_neg hone]
  by_cases htwo : v ≤ 0x7FF
  · have hcode : v / 64 * 64 + v % 64 = v := by omega
    refine ⟨index + 2, ?_⟩
    rw [if_pos htwo, List.cons_append, List.singleton_append,
      decodeFrom_lead (by omega) (by omega) (lead?_two (by omega) htwo),
      decodeFrom_last (by omega) (by omega), hcode, hofNat]
  rw [if_neg htwo]
  by_cases hthree : v ≤ 0xFFFF
  · obtain ⟨low, high, hlead, hlow, hhigh⟩ := lead?_three (by omega) hthree (by omega)
    have hcode : (v / 4096 * 64 + v / 64 % 64) * 64 + v % 64 = v := by omega
    refine ⟨index + 3, ?_⟩
    rw [if_pos hthree, List.cons_append, List.cons_append, List.singleton_append,
      decodeFrom_lead (by omega) (by omega) hlead, decodeFrom_following hlow hhigh,
      decodeFrom_last (by omega) (by omega), hcode, hofNat]
  rw [if_neg hthree]
  obtain ⟨low, high, hlead, hlow, hhigh⟩ := lead?_four (v := v) (by omega) (by omega)
  have hcode : ((v / 262144 * 64 + v / 4096 % 64) * 64 + v / 64 % 64) * 64 + v % 64 = v := by omega
  refine ⟨index + 4, ?_⟩
  rw [List.cons_append, List.cons_append, List.cons_append, List.singleton_append,
    decodeFrom_lead (by omega) (by omega) hlead, decodeFrom_following hlow hhigh,
    decodeFrom_following (by omega) (by omega), decodeFrom_last (by omega) (by omega),
    hcode, hofNat]

/-- Decoding undoes encoding. -/
theorem decode_toUTF8 (s : String) : decode s.toUTF8.toList = .ok s.toList := by
  have hlist : ∀ (cs : List Char) (index : Nat),
      decodeFrom index none (cs.flatMap String.utf8EncodeChar) = .ok cs := by
    intro cs
    induction cs with
    | nil => exact fun _ => by rw [List.flatMap_nil, decodeFrom]
    | cons c cs ih =>
      intro index
      obtain ⟨index', hread⟩ :=
        decodeFrom_utf8EncodeChar index c (cs.flatMap String.utf8EncodeChar)
      rw [List.flatMap_cons, hread, ih index']
      rfl
  rw [decode, toList_toUTF8, hlist]

/-- A text that does not begin with a byte order mark has no mark to drop. -/
theorem dropMark_toUTF8 {s : String} (h : s.toList.head? ≠ some '\uFEFF') :
    dropMark s.toUTF8.toList = s.toUTF8.toList := by
  have hdecode := decode_toUTF8 s
  unfold dropMark
  split
  · next rest hbytes =>
    -- The three bytes are those of the mark, which would be the first character.
    obtain ⟨index, hread⟩ := decodeFrom_utf8EncodeChar 0 '\uFEFF' rest
    have hmark : (decodeFrom index none rest).map ('\uFEFF' :: ·) = .ok s.toList := by
      rw [← hread, ← hdecode, hbytes]
      rfl
    rcases hrest : decodeFrom index none rest with e | cs
    · rw [hrest] at hmark
      cases hmark
    · rw [hrest] at hmark
      exact absurd (congrArg List.head? (Except.ok.inj hmark)).symm h
  · rfl

end Reshape.Utf8
