import BufferedReading.Fault
import BufferedReading.ReadError
import BufferedReading.Text.Numeral
import BufferedReading.Text.Quoted

/-!
# Diagnostics

What a program says when it gives up. A `Diagnostic` is the cause, and `Diagnostic.text` shows how
the cause is made up: the name of a constructor, then its parts in parentheses, or under their names
in braces.
-/

namespace BufferedReading

/-- A name with named parts, in the order given. -/
def showFields (name : String) (fields : List (String × String)) : String :=
  name ++ " \x7b " ++
    String.intercalate ", " (fields.map fun (field, value) => field ++ ": " ++ value) ++ " \x7d"

/-- A name with one part. -/
def showPart (name part : String) : String := name ++ "(" ++ part ++ ")"

namespace Failure

/-- The make-up of a failure. -/
def structureText : Failure → String
  | bare kind => showPart "Kind" kind.name
  | described kind message =>
    showFields "Custom" [("kind", kind.name), ("error", Quoted.ofString message)]
  | system code kind message =>
    showFields "Os"
      [("code", toString code), ("kind", kind.name), ("message", Quoted.ofString message)]

end Failure

namespace ReadError

/-- The make-up of an error. -/
def structureText : ReadError → String
  | source cause => showPart "Io" cause.structureText
  | lineTooLong limit => showFields "LineTooLong" [("limit", toString limit)]
  | invalidConfig reason => showFields "InvalidConfig" [("message", Quoted.ofString reason)]

end ReadError

namespace Numeral.Fault

/-- The name of a fault. -/
def name : Fault → String
  | empty => "Empty"
  | invalidDigit => "InvalidDigit"
  | overflow => "PosOverflow"

end Numeral.Fault

namespace Fault

/-- What is said of a fault. -/
def message : Fault → String
  | slice => "range end index out of range"
  | length => "copy of the wrong length"
  | underflow => "attempt to subtract with overflow"
  | overflow => "attempt to add with overflow"
  | assertion => "assertion failed"
  | capacity => "capacity overflow"

end Fault

/-- Why a program gave up. -/
inductive Diagnostic where
  /-- It was called in another way than the one shown. -/
  | usage (synopsis : String)
  /-- An argument is no numeral. -/
  | numeral (fault : Numeral.Fault)
  /-- A file could not be opened. -/
  | unopened (cause : Failure)
  /-- A read failed. -/
  | unread (error : ReadError)
  /-- The machine refused to go on. -/
  | faulted (fault : Fault)
  deriving DecidableEq, Repr, Inhabited

namespace Diagnostic

/-- What stopped a read. -/
def ofStop : Stop ReadError → Diagnostic
  | .failed error => unread error
  | .faulted fault => faulted fault

/-- The text of a diagnostic. -/
def text : Diagnostic → String
  | usage synopsis => Quoted.ofString ("usage: " ++ synopsis)
  | numeral fault => showFields "ParseIntError" [("kind", fault.name)]
  | unopened cause => cause.structureText
  | unread error => error.structureText
  | faulted fault => fault.message

end Diagnostic

end BufferedReading
