import BufferedReading.Failure

/-!
# Errors of a read

A read fails because its source failed, because a line outgrew the limit set for it, or because the
reader was configured in a way that makes no sense. `ReadError.message` is the text of an error,
`ReadError.toFailure` the form in which callers that know only failures see it.
-/

namespace BufferedReading

/-- Why a read did not succeed. -/
inductive ReadError where
  /-- The source failed. -/
  | source (cause : Failure)
  /-- No delimiter came within the first `limit` bytes of a line. -/
  | lineTooLong (limit : Nat)
  /-- The configuration was refused. -/
  | invalidConfig (reason : String)
  deriving DecidableEq, Repr, Inhabited

namespace ReadError

/-- The text of an error. -/
def message : ReadError → String
  | source cause => s!"io error: {cause.text}"
  | lineTooLong limit => s!"line too long: no delimiter within {limit} bytes"
  | invalidConfig reason => s!"invalid config: {reason}"

/-- The failure behind an error, if the source is to blame. -/
def cause? : ReadError → Option Failure
  | source cause => some cause
  | _ => none

/-- An error as a failure: a failure of the source as it is, any other error under its text. -/
def toFailure : ReadError → Failure
  | source cause => cause
  | e@(lineTooLong _) => .described .invalidData e.message
  | e@(invalidConfig _) => .described .invalidInput e.message

/-- A failure taken for an error of the source loses nothing. -/
@[simp] theorem toFailure_source (cause : Failure) : (source cause).toFailure = cause := rfl

end ReadError

end BufferedReading
