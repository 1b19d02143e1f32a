import BufferedReading.Bytes

/-!
# Lines

A delimiter read yields a `Line`: the bytes taken, and whether the delimiter was met. A complete
line ends with its delimiter; `Line.content` is the line without it.
-/

namespace BufferedReading

/-- The byte that ends a line of text. -/
def newline : UInt8 := 0x0A

/-- The outcome of a delimiter read. -/
structure Line where
  /-- The bytes taken, the delimiter included if it was met. -/
  data : Bytes
  /-- Whether the delimiter was met. -/
  complete : Bool
  deriving DecidableEq, Repr, Inhabited

namespace Line

/-- The number of bytes of a line. -/
def size (line : Line) : Nat := line.data.size

/-- Whether a line holds no byte. -/
def isEmpty (line : Line) : Bool := line.data.isEmpty

/-- The bytes of a line without its delimiter. A partial line, and a line that ends with another
byte, is returned whole. -/
def content (line : Line) (delim : UInt8) : Bytes :=
  if line.complete && line.data.back? == some delim then line.data.pop else line.data

/-- The description of a line: its length, and a remark if it is partial. -/
def describe (line : Line) : String :=
  s!"Line({line.size} bytes" ++ (if line.complete then ")" else ", partial)")

end Line

end BufferedReading
