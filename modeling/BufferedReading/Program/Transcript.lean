import BufferedReading.Program.Diagnostic

/-!
# Runs of a program

A program prints text and may then give up. A `Transcript` holds both, and from them follow the exit
code and the text on the error stream.
-/

namespace BufferedReading

/-- What a run of a program came to. -/
structure Transcript where
  /-- The text printed. -/
  output : String := ""
  /-- Why the program gave up, if it did. -/
  diagnostic : Option Diagnostic := none
  deriving DecidableEq, Repr, Inhabited

namespace Transcript

/-- The run that prints nothing and gives up. -/
def refusal (diagnostic : Diagnostic) : Transcript := { diagnostic := some diagnostic }

/-- The exit code of a run, zero if the program did not give up. -/
def exitCode (t : Transcript) : Nat :=
  match t.diagnostic with
  | none => 0
  | some (.faulted _) => 101
  | some _ => 1

/-- The text on the error stream. -/
def errorOutput (t : Transcript) : String :=
  match t.diagnostic with
  | none => ""
  | some (.faulted fault) => fault.message ++ "\n"
  | some diagnostic => "Error: " ++ diagnostic.text ++ "\n"

end Transcript

/-- The heading under which a program reports on a file. -/
def fileHeading (path : String) (capacity : Nat) : String :=
  s!"File: {path} (window {capacity} bytes)\n\n"

end BufferedReading
