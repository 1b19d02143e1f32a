/-!
# Failures of a source

A source may refuse to answer. A `Failure` says of what kind the refusal is and, where there is one,
gives a message of its own; `Failure.text` is the text shown for it. A failure without a message of
its own is shown by the standard text of its kind, and a failure reported by the operating system
by the system's message and number.
-/

namespace BufferedReading

/-- The kinds of failure that a source may report. -/
inductive FailureKind where
  | notFound
  | permissionDenied
  | connectionRefused
  | connectionReset
  | connectionAborted
  | notConnected
  | addrInUse
  | addrNotAvailable
  | brokenPipe
  | alreadyExists
  | wouldBlock
  | isADirectory
  | invalidInput
  | invalidData
  | timedOut
  | writeZero
  | interrupted
  | unsupported
  | unexpectedEof
  | outOfMemory
  | other
  deriving DecidableEq, Repr, Inhabited

namespace FailureKind

/-- Every kind, in the order of declaration. -/
def all : List FailureKind :=
  [notFound, permissionDenied, connectionRefused, connectionReset, connectionAborted, notConnected,
    addrInUse, addrNotAvailable, brokenPipe, alreadyExists, wouldBlock, isADirectory, invalidInput,
    invalidData, timedOut, writeZero, interrupted, unsupported, unexpectedEof, outOfMemory, other]

/-- The name of a kind, as diagnostics show it. -/
def name : FailureKind → String
  | notFound => "NotFound"
  | permissionDenied => "PermissionDenied"
  | connectionRefused => "ConnectionRefused"
  | connectionReset => "ConnectionReset"
  | connectionAborted => "ConnectionAborted"
  | notConnected => "NotConnected"
  | addrInUse => "AddrInUse"
  | addrNotAvailable => "AddrNotAvailable"
  | brokenPipe => "BrokenPipe"
  | alreadyExists => "AlreadyExists"
  | wouldBlock => "WouldBlock"
  | isADirectory => "IsADirectory"
  | invalidInput => "InvalidInput"
  | invalidData => "InvalidData"
  | timedOut => "TimedOut"
  | writeZero => "WriteZero"
  | interrupted => "Interrupted"
  | unsupported => "Unsupported"
  | unexpectedEof => "UnexpectedEof"
  | outOfMemory => "OutOfMemory"
  | other => "Other"

/-- The kind of the given name. -/
def ofName? (s : String) : Option FailureKind :=
  all.find? fun kind => kind.name == s

/-- The text shown for a failure of this kind that brings no message of its own. -/
def text : FailureKind → String
  | notFound => "entity not found"
  | permissionDenied => "permission denied"
  | connectionRefused => "connection refused"
  | connectionReset => "connection reset"
  | connectionAborted => "connection aborted"
  | notConnected => "not connected"
  | addrInUse => "address in use"
  | addrNotAvailable => "address not available"
  | brokenPipe => "broken pipe"
  | alreadyExists => "entity already exists"
  | wouldBlock => "operation would block"
  | isADirectory => "is a directory"
  | invalidInput => "invalid input parameter"
  | invalidData => "invalid data"
  | timedOut => "timed out"
  | writeZero => "write zero"
  | interrupted => "operation interrupted"
  | unsupported => "unsupported"
  | unexpectedEof => "unexpected end of file"
  | outOfMemory => "out of memory"
  | other => "other error"

end FailureKind

/-- Why a source did not answer. -/
inductive Failure where
  /-- A failure of the kind, with no message of its own. -/
  | bare (kind : FailureKind)
  /-- A failure of the kind, with a message. -/
  | described (kind : FailureKind) (message : String)
  /-- A failure reported by the operating system under a number. -/
  | system (code : Nat) (kind : FailureKind) (message : String)
  deriving DecidableEq, Repr, Inhabited

namespace Failure

/-- The kind of a failure. -/
def kind : Failure → FailureKind
  | bare kind => kind
  | described kind _ => kind
  | system _ kind _ => kind

/-- The text shown for a failure. -/
def text : Failure → String
  | bare kind => kind.text
  | described _ message => message
  | system code _ message => s!"{message} (os error {code})"

/-- An interruption is the one failure after which a retrying loop asks again. -/
def isInterruption (f : Failure) : Bool :=
  f.kind == .interrupted

/-- The failure of a read that has to fill a buffer when the source ends before that. -/
def bufferNotFilled : Failure :=
  .described .unexpectedEof "failed to fill whole buffer"

/-- The failure of a refill whose source claims more bytes than the free space could take. -/
def overcount (reported free : Nat) : Failure :=
  .described .invalidData s!"source reported {reported} bytes into {free} free"

end Failure

end BufferedReading
