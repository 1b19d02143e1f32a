import BufferedReading.Program.Transcript
import BufferedReading.Reader.Finite
import BufferedReading.Source.Cursor
import BufferedReading.Text.Trimmed

/-!
# Replies of a server

The program that takes apart a few replies of a key-value server: bytes, lines and buffers are read
in turn through a window so small that each read has to refill it. A reply is a byte for its type
and a line; in a bulk reply the line is the length of the text that follows.
-/

namespace BufferedReading

namespace Replies

/-- The replies. -/
def replies : Bytes := "+PONG\r\n:42\r\n$5\r\nhello\r\n-ERR unknown\r\n".toUTF8.data

/-- The capacity of the window. -/
def capacity : Nat := 8

variable {σ : Type} [FiniteSource σ]

/-- What is shown for a reply of the given type, and the reader behind it. -/
def describe (r : Reader σ) (type : UInt8) (header : String) :
    Except (Stop ReadError) String × Reader σ :=
  if type = '+'.toUInt8 then (.ok ("status  " ++ header), r)
  else if type = ':'.toUInt8 then (.ok ("integer " ++ header), r)
  else if type = '-'.toUInt8 then (.ok ("error   " ++ header), r)
  else if type = '$'.toUInt8 then
    let length := (Numeral.parse header).toOption.getD 0
    let call := r.readExact (Array.replicate (length + 2) 0)
    (call.result.map fun () =>
      "bulk    " ++ Quoted.ofChars (Utf8.decode (call.buffer.extract 0 length)), call.reader)
  else (.ok ("unknown type byte " ++ Quoted.ofChar (Char.ofNat type.toNat)), r)

/-- Reads a reply, if there is one, and shows it. -/
def showNext (r : Reader σ) : Except (Stop ReadError) (Option String) × Reader σ :=
  match r.readByte with
  | (.error e, r) => (.error (.failed e), r)
  | (.ok none, r) => (.ok none, r)
  | (.ok (some type), r) =>
    match r.readLine newline with
    | (.error e, r) => (.error (.failed e), r)
    | (.ok header, r) =>
      match describe r type (trimmedText (header.content newline)) with
      | (.error stop, r) => (.error stop, r)
      | (.ok text, r) =>
        (.ok (some (text ++ s!"\n        ({r.buffered} bytes still buffered)\n")), r)

/-- Shows replies up to the end of the stream, but at most so many, behind the text printed so
far. -/
def showAll : Nat → Reader σ → String → Transcript × Reader σ
  | 0, r, output => ({ output }, r)
  | count + 1, r, output =>
    match showNext r with
    | (.error stop, r) => ({ output, diagnostic := some (.ofStop stop) }, r)
    | (.ok none, r) => ({ output }, r)
    | (.ok (some text), r) => showAll count r (output ++ text)

/-- Tries two more reads at the end of the stream, behind the text printed so far. -/
def showEnd (r : Reader σ) (output : String) : Transcript :=
  match r.read (Array.replicate 4 0) with
  | ⟨.error e, _, _⟩ => { output, diagnostic := some (.unread e) }
  | ⟨.ok count, _, r⟩ =>
    let output := output ++ s!"\nread after end: {count} bytes\n"
    match (r.readLine newline).1 with
    | .error e => { output, diagnostic := some (.unread e) }
    | .ok line => { output := output ++ "line after end: " ++ line.describe ++ "\n" }

/-- Shows the replies that a byte string holds. There are no more replies than bytes. -/
def showReplies (bytes : Bytes) : Transcript :=
  let r : Reader Cursor := .ofCapacity { bytes } capacity
  let (shown, r) :=
    showAll bytes.size r s!"Reading replies through a {r.capacity} byte window\n\n"
  if shown.diagnostic.isSome then shown else showEnd r shown.output

/-- Runs the program. -/
def run : Transcript := showReplies replies

end Replies

end BufferedReading
