/-! # Reading UTF-8

Bytes are read as UTF-8, with U+FFFD for what is not: one replacement for each longest run of bytes
that starts a character and breaks off, and one for each byte that starts none. Writing is the core
library's `String.toUTF8`. -/

namespace OverrideElision.Text

/-- The character that stands for bytes that spell none. -/
def replacement : Char := Char.ofNat 0xFFFD

/-- What a first byte promises: how many bytes follow it, the range that the next one must lie in,
and the bits of the code point that it holds itself. -/
structure LeadByte where
  following : Nat
  low : Nat
  high : Nat
  bits : Nat

/-- The promise of a byte that starts a character of several bytes. The narrower ranges after
`E0`, `ED`, `F0` and `F4` leave out over-long forms, surrogates and codes beyond U+10FFFF. -/
def leadByte? (b : Nat) : Option LeadByte :=
  if 0xC2 ≤ b ∧ b ≤ 0xDF then some ⟨1, 0x80, 0xBF, b % 0x20⟩
  else if b = 0xE0 then some ⟨2, 0xA0, 0xBF, 0⟩
  else if b = 0xED then some ⟨2, 0x80, 0x9F, 0xD⟩
  else if 0xE1 ≤ b ∧ b ≤ 0xEF then some ⟨2, 0x80, 0xBF, b % 0x10⟩
  else if b = 0xF0 then some ⟨3, 0x90, 0xBF, 0⟩
  else if 0xF1 ≤ b ∧ b ≤ 0xF3 then some ⟨3, 0x80, 0xBF, b % 8⟩
  else if b = 0xF4 then some ⟨3, 0x80, 0x8F, 4⟩
  else none

/-- Reads `following` continuation bytes, the first of them from `low` to `high`, onto the bits read
so far. Gives the character, or a replacement where the bytes break off, and the bytes after it. -/
def continueChar (following low high bits : Nat) : List UInt8 → Char × List UInt8
  | [] => if following = 0 then (Char.ofNat bits, []) else (replacement, [])
  | b :: rest =>
    match following with
    | 0 => (Char.ofNat bits, b :: rest)
    | more + 1 =>
      if low ≤ b.toNat ∧ b.toNat ≤ high then
        continueChar more 0x80 0xBF (bits * 0x40 + b.toNat % 0x40) rest
      else (replacement, b :: rest)

theorem length_continueChar_le (following low high bits : Nat) (bytes : List UInt8) :
    (continueChar following low high bits bytes).2.length ≤ bytes.length := by
  induction bytes generalizing following low high bits with
  | nil => unfold continueChar; split <;> simp
  | cons b rest ih =>
    unfold continueChar
    split
    · simp
    · split
      · exact Nat.le_succ_of_le (ih _ _ _ _)
      · simp

/-- The text that the bytes spell, with replacements for what is not UTF-8. -/
def decodeUtf8 : List UInt8 → List Char
  | [] => []
  | b :: rest =>
    if b.toNat < 0x80 then Char.ofNat b.toNat :: decodeUtf8 rest
    else match leadByte? b.toNat with
      | none => replacement :: decodeUtf8 rest
      | some lead =>
        let next := continueChar lead.following lead.low lead.high lead.bits rest
        next.1 :: decodeUtf8 next.2
termination_by bytes => bytes.length
decreasing_by
  · simp
  · simp
  · exact Nat.lt_succ_of_le (length_continueChar_le ..)

/-- The text of the bytes from `start` up to, not including, `stop`. A stop beyond the end is the
end, and nothing lies between a start and an earlier stop. -/
def sliceUtf8 (bytes : ByteArray) (start stop : Nat) : String :=
  String.ofList (decodeUtf8 (bytes.extract start stop).toList)

end OverrideElision.Text
