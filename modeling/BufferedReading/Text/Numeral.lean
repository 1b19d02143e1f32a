/-!
# Numerals

`Numeral.parse` reads a decimal numeral that is to fit into 64 bits: ASCII digits, with a plus sign
in front if one likes. It reads from left to right, and of several faults the first one counts.
`Numeral.column` writes a number at the right end of a column.
-/

namespace BufferedReading

namespace Numeral

/-- Why a text is no numeral. -/
inductive Fault where
  /-- There is no text. -/
  | empty
  /-- A character is no digit, or there is no digit behind the sign. -/
  | invalidDigit
  /-- The number does not fit. -/
  | overflow
  deriving DecidableEq, Repr, Inhabited

/-- The least number that does not fit. -/
def bound : Nat := UInt64.size

/-- Reads digits onto a number. -/
def parseDigits (value : Nat) : List Char → Except Fault Nat
  | [] => .ok value
  | c :: rest =>
    if c.isDigit then
      let value := value * 10 + (c.toNat - '0'.toNat)
      if value < bound then parseDigits value rest else .error .overflow
    else .error .invalidDigit

/-- Reads a numeral. -/
def parse (s : String) : Except Fault Nat :=
  match s.toList with
  | [] => .error .empty
  | '+' :: [] => .error .invalidDigit
  | '+' :: digits => parseDigits 0 digits
  | digits => parseDigits 0 digits

/-- A number in decimal digits, with spaces in front up to the given width. -/
def column (width n : Nat) : String :=
  let digits := toString n
  String.ofList (List.replicate (width - digits.length) ' ') ++ digits

end Numeral

end BufferedReading
