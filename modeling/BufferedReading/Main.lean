import BufferedReading.Program.Headers
import BufferedReading.Program.LineStatistics
import BufferedReading.Program.Listing
import BufferedReading.Program.Replies

/-!
# The command line

The first argument names a program and the others are its own. This module opens files and prints;
what is printed is decided by the programs.
-/

namespace BufferedReading

namespace CommandLine

/-- The programs, by name, as functions of an opened file and their arguments. -/
def program? (name : String) : Option (Except Failure File → List String → Transcript) :=
  match name with
  | "sync_basic" => some fun _ _ => Replies.run
  | "sync_file" => some fun file args => LineStatistics.run (fun _ => file) args
  | "async_stream" => some fun _ _ => Headers.run
  | "async_tokio" => some fun file args => Listing.run (fun _ => file) args
  | _ => none

/-- The failure that an error of the system stands for. -/
def failureOf : IO.Error → Failure
  | .noFileOrDirectory .. => File.missing
  | .permissionDenied .. => .system 13 .permissionDenied "Permission denied"
  | e => .described .other (toString e)

/-- Opens the file of the given path. -/
def openFile (path : String) : IO (Except Failure File) := do
  try
    return .ok (.ofBytes (← IO.FS.readBinFile path).data)
  catch
    | .inappropriateType .. => return .ok .directory
    | e => return .error (failureOf e)

/-- Runs the program that the arguments name and prints its transcript. -/
def run (args : List String) : IO UInt32 := do
  match args.head?.bind program? with
  | none =>
    IO.eprintln "usage: (sync_basic | sync_file | async_stream | async_tokio) [argument ...]"
    return 2
  | some program =>
    let transcript := program (← openFile (args.tail.headD "")) args.tail
    IO.print transcript.output
    IO.eprint transcript.errorOutput
    return transcript.exitCode.toUInt32

end CommandLine

end BufferedReading

/-- Runs the command line. -/
def main (args : List String) : IO UInt32 := BufferedReading.CommandLine.run args
