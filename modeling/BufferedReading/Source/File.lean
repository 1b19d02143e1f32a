import BufferedReading.Source.Cursor

/-!
# Opened files

An opened `File` serves its contents, unless it is a directory: that can be opened, and every
request to it fails.
-/

namespace BufferedReading

/-- An opened file. -/
inductive File where
  /-- A file with contents. -/
  | regular (contents : Cursor)
  /-- A directory. -/
  | directory
  deriving DecidableEq, Repr, Inhabited

namespace File

/-- The failure of opening a file that does not exist. -/
def missing : Failure := .system 2 .notFound "No such file or directory"

/-- The failure of a request to a directory. -/
def unreadable : Failure := .system 21 .isADirectory "Is a directory"

/-- A file with the given contents. -/
def ofBytes (bytes : Bytes) : File := .regular { bytes }

/-- The answer to a request, and the file behind it. -/
def serve : File → Nat → Answer × File
  | regular contents, count => ((contents.serve count).1, .regular (contents.serve count).2)
  | directory, _ => (.failed unreadable, .directory)

/-- The number of bytes not yet served. -/
def remaining : File → Nat
  | regular contents => contents.remaining
  | directory => 0

/-- Serving a positive number of bytes leaves fewer. -/
theorem remaining_serve_lt (f : File) (count : Nat) (h : (f.serve count).1.isFinal = false) :
    (f.serve count).2.remaining < f.remaining := by
  cases f with
  | regular contents => exact contents.remaining_serve_lt count h
  | directory => simp [serve, Answer.isFinal, unreadable, Failure.isInterruption, Failure.kind] at h

instance : ByteSource File := ⟨serve⟩

instance : FiniteSource File where
  supply := remaining
  supply_read_lt := remaining_serve_lt

/-- A file is always ready. -/
instance : PolledSource File where
  poll f count := (.ready (f.serve count).1, (f.serve count).2)

instance : FinitePolledSource File where
  pollSupply := remaining
  pollSupply_poll_lt f count h := remaining_serve_lt f count (h _ rfl)

end File

end BufferedReading
