import BufferedReading.LineStream
import BufferedReading.Program.Transcript
import BufferedReading.Source.Cursor
import BufferedReading.Text.Utf8

/-!
# Headers of a request

The program that reads the lines of a request as they come and shows each under its number.
-/

namespace BufferedReading

namespace Headers

/-- The request. -/
def request : Bytes :=
  "GET / HTTP/1.1\r\nHost: example.com\r\nAccept: */*\r\n\r\ntrailing".toUTF8.data

/-- What is shown for the line of the given number. -/
def entry (number : Nat) (line : Line) : String :=
  Numeral.column 2 number ++ ": " ++ Quoted.ofChars (Utf8.decode (line.content newline)) ++
    (if line.complete then "" else " (no delimiter)") ++ "\n"

/-- Shows items behind the text printed so far, when `count` lines have been shown already. -/
def showItems : List Item → Nat → String → Transcript
  | [], count, output => { output := output ++ s!"\n{count} lines\n" }
  | .ok line :: items, count, output =>
    match checkedAdd counterSize count 1 with
    | .ok count => showItems items count (output ++ entry count line)
    | .error fault => { output, diagnostic := some (.faulted fault) }
  | .error e :: _, _, output => { output, diagnostic := some (.unread e) }

/-- Shows the lines of a byte string. -/
def showLines (bytes : Bytes) : Transcript :=
  showItems (LineStream.ofSource ({ bytes } : Cursor) newline).collect.1.toList 0 ""

/-- Runs the program. -/
def run : Transcript := showLines request

end Headers

end BufferedReading
