import BufferedReading.Failure

/-!
# The journal of a reader

A reader notes what it does with its source. A `Record` is one such note, and `Record.text` the line
under which a log shows it, the level first.
-/

namespace BufferedReading

/-- One note in the journal of a reader. -/
inductive Record where
  /-- A refill asked for `requested` bytes and the source claims to have produced `produced`. -/
  | refill (requested produced : Nat)
  /-- A refill met the end of the stream. -/
  | endOfStream
  /-- A read of `size` bytes is about to go to the source past the window. -/
  | bypass (size : Nat)
  /-- The source failed, or claimed more bytes than a refill could take. -/
  | sourceFailed (cause : Failure)
  deriving DecidableEq, Repr, Inhabited

namespace Record

/-- The line under which a log shows a record. -/
def text : Record → String
  | refill requested produced =>
    s!"TRACE refill: requested {requested} bytes, source produced {produced}"
  | endOfStream => "DEBUG source reached end-of-stream"
  | bypass size => s!"DEBUG bypass: {size} byte read goes straight to source"
  | sourceFailed cause => s!"DEBUG source read failed: {cause.text}"

end Record

/-- The records of a reader, oldest first. -/
abbrev Journal := Array Record

end BufferedReading
