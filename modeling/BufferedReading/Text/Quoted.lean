/-!
# Quoted text

Text between quotation marks, with the marks, backslashes and control characters in it escaped. All
other characters stand for themselves.
-/

namespace BufferedReading

namespace Quoted

/-- A character as it stands between marks of the given kind. -/
def escape (mark : Char) (c : Char) : String :=
  if c = '\x00' then "\\0"
  else if c = '\t' then "\\t"
  else if c = '\n' then "\\n"
  else if c = '\r' then "\\r"
  else if c = '\\' then "\\\\"
  else if c = mark then "\\" ++ String.singleton c
  else if c.toNat < 0x20 || c.toNat = 0x7F then
    "\\u\x7b" ++ String.ofList (Nat.toDigits 16 c.toNat) ++ "\x7d"
  else String.singleton c

/-- Text between double quotation marks. -/
def ofChars (chars : Array Char) : String :=
  "\"" ++ chars.foldl (fun s c => s ++ escape '\x22' c) "" ++ "\""

/-- Text between double quotation marks. -/
def ofString (s : String) : String := ofChars s.toList.toArray

/-- A character between single quotation marks. -/
def ofChar (c : Char) : String := "'" ++ escape '\x27' c ++ "'"

end Quoted

end BufferedReading
