import BufferedReading.Text.Blank
import BufferedReading.Text.Utf8

/-!
# Text of a line

How the bytes of a line are shown to people.
-/

namespace BufferedReading

/-- The text of a byte string without the blanks at its end, a line end among them. -/
def trimmedText (bytes : Bytes) : String := String.ofList (trimEnd (Utf8.decode bytes)).toList

end BufferedReading
