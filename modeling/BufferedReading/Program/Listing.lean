import BufferedReading.Program.Transcript
import BufferedReading.Reader.FinitePolled
import BufferedReading.Source.File
import BufferedReading.Text.Trimmed

/-!
# Listing a file

The program that shows the first lines of a file and counts all of them. It reads the file by
polling, and gives up at a line that is too long. Lines are counted in a counter of half a word.
-/

namespace BufferedReading

namespace Listing

/-- The number of lines shown. -/
def shown : Nat := 5

/-- The configuration of the reader. -/
def config : Config := (Config.ofCapacity (16 * 1024)).withLineLimit (1024 * 1024)

/-- The text of a line under its number. -/
def entry (number : Nat) (line : Bytes) : String :=
  Numeral.column 2 number ++ ": " ++ trimmedText line ++ "\n"

/-- What is known about the lines read so far. -/
structure Survey where
  /-- The number of lines. -/
  count : Nat := 0
  /-- The entries of the lines shown. -/
  entries : String := ""
  /-- What stopped the reading before the end of the stream, if anything did. -/
  stop : Option (Stop ReadError) := none
  deriving DecidableEq, Repr, Inhabited

namespace Survey

/-- The survey with one more line. -/
def add (s : Survey) (line : Bytes) : Except Fault Survey :=
  match checkedAdd counterSize s.count 1 with
  | .ok count =>
    .ok
      { s with
        count
        entries := if count ≤ shown then s.entries ++ entry count line else s.entries }
  | .error fault => .error fault

/-- What the program prints for a survey. -/
def transcript (heading : String) (s : Survey) : Transcript :=
  match s.stop with
  | none => { output := heading ++ s.entries ++ s!"\n{s.count} lines total\n" }
  | some stop => { output := heading ++ s.entries, diagnostic := some (.ofStop stop) }

end Survey

/-- Adds the lines that a reader has still to deliver to a survey. -/
def surveyFrom {σ : Type} [FinitePolledSource σ] (r : Reader σ) (s : Survey) : Survey :=
  match _h : r.awaitLine (.start newline r.config.lineLimit) #[] with
  | ⟨.error e, _, _⟩ => { s with stop := some (.failed e) }
  | ⟨.ok complete, line, r⟩ =>
    if line.isEmpty then s
    else
      match s.add line with
      | .error fault => { s with stop := some (.faulted fault) }
      | .ok s => if _hc : complete then surveyFrom r s else s
termination_by r.pollStock
decreasing_by
  have hr := congrArg Call.result _h
  have := Reader.pollStock_awaitLine_lt (hr.trans (by rw [_hc]))
  simpa only [_h] using this

/-- How the program is called. -/
def synopsis : String := "async_tokio <path>"

/-- The listing of a file. -/
def list (path : String) (file : File) : Transcript :=
  match Reader.ofConfig? file config with
  | .error stop => .refusal (.ofStop stop)
  | .ok r => (surveyFrom r {}).transcript (fileHeading path r.capacity)

/-- Runs the program. -/
def run (open? : String → Except Failure File) (args : List String) : Transcript :=
  match args with
  | [] => .refusal (.usage synopsis)
  | path :: _ =>
    match open? path with
    | .error cause => .refusal (.unopened cause)
    | .ok file => list path file

end Listing

end BufferedReading
