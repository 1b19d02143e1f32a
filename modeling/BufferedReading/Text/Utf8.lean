import BufferedReading.Bytes

/-!
# Decoding UTF-8 with replacement

`Utf8.decode` turns any byte string into characters. Well-formed parts are decoded; each maximal
part of an ill-formed sequence that could still have become a character is replaced by one
replacement character, and so is each byte that can begin none.
-/

namespace BufferedReading

namespace Utf8

/-- The character that stands for bytes which do not decode. -/
def replacement : Char := '\uFFFD'

/-- What the first byte of a character says about it. -/
structure Lead where
  /-- The number of bytes that follow. -/
  following : Nat
  /-- The least value of the byte after the first. -/
  low : UInt8
  /-- The greatest value of the byte after the first. -/
  high : UInt8
  /-- The bits of the character that the first byte holds. -/
  bits : Nat

/-- The ways in which a character may begin. Bytes that could only begin a longer form than needed,
a surrogate or a number beyond the last character are excluded, here or by the range of the byte
after. -/
def lead? (b : UInt8) : Option Lead :=
  if b < 0x80 then some ⟨0, 0x80, 0xBF, b.toNat⟩
  else if b < 0xC2 then none
  else if b < 0xE0 then some ⟨1, 0x80, 0xBF, b.toNat - 0xC0⟩
  else if b = 0xE0 then some ⟨2, 0xA0, 0xBF, 0⟩
  else if b = 0xED then some ⟨2, 0x80, 0x9F, 0xD⟩
  else if b < 0xF0 then some ⟨2, 0x80, 0xBF, b.toNat - 0xE0⟩
  else if b = 0xF0 then some ⟨3, 0x90, 0xBF, 0⟩
  else if b < 0xF4 then some ⟨3, 0x80, 0xBF, b.toNat - 0xF0⟩
  else if b = 0xF4 then some ⟨3, 0x80, 0x8F, 4⟩
  else none

/-- The character whose remaining bytes begin at an index, with the bits of the bytes before it, and
the index behind it. A byte out of range ends the character early. -/
def complete (bytes : Bytes) : Nat → UInt8 → UInt8 → Nat → Nat → Char × Nat
  | 0, _, _, bits, i => (Char.ofNat bits, i)
  | following + 1, low, high, bits, i =>
    match bytes[i]? with
    | none => (replacement, i)
    | some b =>
      if low ≤ b ∧ b ≤ high then
        complete bytes following 0x80 0xBF (bits * 64 + (b.toNat - 0x80)) (i + 1)
      else (replacement, i)

/-- The character at an index that holds the given byte, and the index behind it. -/
def character (bytes : Bytes) (b : UInt8) (i : Nat) : Char × Nat :=
  match lead? b with
  | none => (replacement, i + 1)
  | some lead => complete bytes lead.following lead.low lead.high lead.bits (i + 1)

/-- The rest of a character lies at or behind its index. -/
theorem le_complete (bytes : Bytes) (following : Nat) (low high : UInt8) (bits i : Nat) :
    i ≤ (complete bytes following low high bits i).2 := by
  induction following generalizing low high bits i with
  | zero => exact Nat.le_refl _
  | succ following ih =>
    unfold complete
    split
    · exact Nat.le_refl _
    · split
      · exact Nat.le_trans (Nat.le_succ i) (ih ..)
      · exact Nat.le_refl _

/-- A character takes at least one byte. -/
theorem lt_character (bytes : Bytes) (b : UInt8) (i : Nat) : i < (character bytes b i).2 := by
  unfold character
  split
  · exact Nat.lt_succ_self i
  · exact Nat.lt_of_lt_of_le (Nat.lt_succ_self i) (le_complete ..)

/-- Adds the characters from an index on. -/
def decodeFrom (bytes : Bytes) (i : Nat) (chars : Array Char) : Array Char :=
  if h : i < bytes.size then
    let next := character bytes bytes[i] i
    decodeFrom bytes next.2 (chars.push next.1)
  else chars
termination_by bytes.size - i
decreasing_by
  have := lt_character bytes bytes[i] i
  omega

/-- The characters of a byte string. -/
def decode (bytes : Bytes) : Array Char := decodeFrom bytes 0 #[]

end Utf8

end BufferedReading
