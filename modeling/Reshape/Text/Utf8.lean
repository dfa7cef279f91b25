/-!
# UTF-8

Decoding bytes to characters, one byte at a time. A fault names the character that it spoils: the
index of its first byte, and how many bytes could still be read as the beginning of a character.

## Main definitions

* `Utf8.Fault`: where and how a byte sequence fails to be UTF-8.
* `Utf8.decode`: the characters of a byte sequence.
* `Utf8.dropMark`: a byte sequence without one leading byte order mark.
-/

namespace Reshape.Utf8

/-- Where a byte sequence stops being UTF-8. -/
structure Fault where
  /-- The index of the first byte of the spoiled character. -/
  index : Nat
  /-- How many bytes make up the ill-formed beginning, or nothing when the bytes end inside a
  character that is well formed so far. -/
  length : Option Nat
deriving DecidableEq, Repr

/-- The wording of a fault. -/
def Fault.message (f : Fault) : String :=
  match f.length with
  | some n => "invalid utf-8 sequence of " ++ toString n ++ " bytes from index " ++ toString f.index
  | none => "incomplete utf-8 byte sequence from index " ++ toString f.index

/-- A character of which only some bytes were read. -/
structure Partial where
  /-- How many bytes were read. -/
  taken : Nat
  /-- How many bytes are missing, less one. -/
  missing : Nat
  /-- The least value the next byte may have. -/
  low : Nat
  /-- The greatest value the next byte may have. -/
  high : Nat
  /-- The bits of the code point read so far. -/
  code : Nat
deriving DecidableEq, Repr

/-- What the first byte of a character of several bytes announces. The second byte is restricted
where it would lead to an overlong form, a surrogate or a code point out of range. -/
def lead? (b : Nat) : Option Partial :=
  if 0xC2 ≤ b ∧ b ≤ 0xDF then some ⟨1, 0, 0x80, 0xBF, b - 0xC0⟩
  else if b = 0xE0 then some ⟨1, 1, 0xA0, 0xBF, 0⟩
  else if b = 0xED then some ⟨1, 1, 0x80, 0x9F, 0xD⟩
  else if 0xE1 ≤ b ∧ b ≤ 0xEF then some ⟨1, 1, 0x80, 0xBF, b - 0xE0⟩
  else if b = 0xF0 then some ⟨1, 2, 0x90, 0xBF, 0⟩
  else if 0xF1 ≤ b ∧ b ≤ 0xF3 then some ⟨1, 2, 0x80, 0xBF, b - 0xF0⟩
  else if b = 0xF4 then some ⟨1, 2, 0x80, 0x8F, 4⟩
  else none

/-- Decode from a state: `index` counts the bytes of the characters finished so far, and `open?`
holds the character begun since. -/
def decodeFrom (index : Nat) : Option Partial → List UInt8 → Except Fault (List Char)
  | none, [] => .ok []
  | some _, [] => .error ⟨index, none⟩
  | none, b :: rest =>
    if b.toNat < 0x80 then do
      let cs ← decodeFrom (index + 1) none rest
      return Char.ofNat b.toNat :: cs
    else
      match lead? b.toNat with
      | some p => decodeFrom index (some p) rest
      | none => .error ⟨index, some 1⟩
  | some p, b :: rest =>
    if p.low ≤ b.toNat ∧ b.toNat ≤ p.high then
      let code := p.code * 0x40 + (b.toNat - 0x80)
      match p.missing with
      | 0 => do
        let cs ← decodeFrom (index + p.taken + 1) none rest
        return Char.ofNat code :: cs
      | m + 1 => decodeFrom index (some ⟨p.taken + 1, m, 0x80, 0xBF, code⟩) rest
    else .error ⟨index, some p.taken⟩

/-- The characters that a byte sequence encodes. -/
def decode (bytes : List UInt8) : Except Fault (List Char) :=
  decodeFrom 0 none bytes

/-- Bytes without one leading byte order mark. -/
def dropMark : List UInt8 → List UInt8
  | 0xEF :: 0xBB :: 0xBF :: rest => rest
  | bytes => bytes

example : decode [0x61, 0xF0, 0x9F, 0x98, 0x80] = .ok ['a', '😀'] := rfl

example : decode [0x61, 0xE2, 0x82] = .error ⟨1, none⟩ := rfl

example : decode [0xE2, 0x82, 0x41] = .error ⟨0, some 2⟩ := rfl

end Reshape.Utf8
