import BufferedReading.Program.Transcript
import BufferedReading.Source.File
import BufferedReading.Splitter

/-!
# Line statistics

The program that counts the lines and bytes of a file and looks for its longest line. It is called
with the path of the file and, if one likes, the capacity of the window. Bytes are counted in a
word, lines in a counter of half its size.
-/

namespace BufferedReading

namespace LineStatistics

/-- What is known about the lines seen so far. -/
structure Tally where
  /-- The number of lines. -/
  lines : Nat := 0
  /-- The number of bytes, delimiters included. -/
  bytes : Nat := 0
  /-- The length of the longest line, delimiter not included. -/
  longest : Nat := 0
  /-- Whether the last line is partial. -/
  unterminated : Bool := false
  deriving DecidableEq, Repr, Inhabited

namespace Tally

/-- The tally with one more line. -/
def add (t : Tally) (line : Line) : Except Fault Tally :=
  match checkedAdd counterSize t.lines 1, checkedAdd wordSize t.bytes line.size with
  | .ok lines, .ok bytes =>
    .ok
      { lines
        bytes
        longest := max t.longest (line.content newline).size
        unterminated := !line.complete }
  | .error fault, _ | _, .error fault => .error fault

/-- The report on a tally. -/
def report (t : Tally) : String :=
  s!"Lines:        {t.lines}\nBytes:        {t.bytes}\nLongest line: {t.longest} bytes\n" ++
    if t.unterminated then "Last line has no trailing newline\n" else ""

end Tally

/-- A tally with one more item; an error or a fault takes its place. -/
def addItem (tally : Except (Stop ReadError) Tally) (item : Item) : Except (Stop ReadError) Tally :=
  match tally, item with
  | .error stop, _ => .error stop
  | .ok _, .error e => .error (.failed e)
  | .ok tally, .ok line =>
    match tally.add line with
    | .ok tally => .ok tally
    | .error fault => .error (.faulted fault)

/-- The tally of all lines of a reader, or what stopped it. -/
def tally {σ : Type} [FiniteSource σ] (r : Reader σ) : Except (Stop ReadError) Tally :=
  ((r.split newline).fold addItem (.ok {})).1

/-- How the program is called. -/
def synopsis : String := "sync_file <path> [capacity]"

/-- The report on a file read through a window of the capacity asked for. -/
def report (path : String) (file : File) (capacity : Nat) : Transcript :=
  match Reader.ofConfig? file (.ofCapacity capacity) with
  | .error stop => .refusal (.ofStop stop)
  | .ok r =>
    let heading := fileHeading path r.capacity
    match tally r with
    | .ok tally => { output := heading ++ tally.report }
    | .error stop => { output := heading, diagnostic := some (.ofStop stop) }

/-- Runs the program. A capacity that is no numeral is refused before the file is opened. -/
def run (open? : String → Except Failure File) (args : List String) : Transcript :=
  match args with
  | [] => .refusal (.usage synopsis)
  | path :: rest =>
    match rest.head?.elim (.ok 0) Numeral.parse with
    | .error fault => .refusal (.numeral fault)
    | .ok capacity =>
      match open? path with
      | .error cause => .refusal (.unopened cause)
      | .ok file => report path file capacity

end LineStatistics

end BufferedReading
