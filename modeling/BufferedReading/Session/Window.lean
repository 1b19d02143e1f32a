import BufferedReading.Scan
import BufferedReading.Window.Fill

/-!
# Sessions with a bare window

A `WindowSession` holds a window, a source to refill it from, a search and the accumulator of the
search. `WindowSession.perform` carries out one operation of the window or of the search; every one
of them comes to an end over any source.
-/

namespace BufferedReading

/-- What may be done with a bare window and with a search over it. -/
inductive WindowOperation where
  /-- Refill the window from the source. -/
  | fill
  /-- Pass over unread bytes. -/
  | consume (count : Nat)
  /-- Take bytes from the front. -/
  | take (count : Nat)
  /-- Take the first byte. -/
  | pop
  /-- Look for a byte among the first unread ones. -/
  | find (delim : UInt8) (reach : Nat)
  /-- Move the unread bytes to the start of the arena. -/
  | compact
  /-- Compact the window, write bytes into its free space and report a count. -/
  | put (bytes : Bytes) (count : Nat)
  /-- Report a count of bytes in the free space. -/
  | commit (count : Nat)
  /-- Begin another search with an empty accumulator. -/
  | search (delim : UInt8) (limit : Option Nat)
  /-- Begin the search anew. -/
  | reset
  /-- Take a step of the search. -/
  | advance
  deriving DecidableEq, Repr, Inhabited

/-- What an operation on a window answers. -/
inductive WindowReply where
  /-- What a refill or a reported count brought. -/
  | filled (outcome : Except Failure Fill)
  /-- The operation has nothing to answer. -/
  | done
  /-- Bytes taken. -/
  | taken (bytes : Bytes)
  /-- A byte, if there was one. -/
  | byte (byte : Option UInt8)
  /-- An index, if the byte was found. -/
  | index (index : Option Nat)
  /-- What a reported count brought, and how many bytes could have been written. -/
  | written (free : Nat) (outcome : Except Failure Fill)
  /-- How far the search has come, and the accumulator. -/
  | advanced (verdict : Verdict) (out : Bytes)
  /-- The operation was not carried out. -/
  | faulted (fault : Fault)

/-- A window with a source, a search and an accumulator. -/
structure WindowSession (σ : Type) where
  /-- The window. -/
  window : Window
  /-- The source it is refilled from. -/
  source : σ
  /-- The search. -/
  scan : Scan
  /-- The accumulator of the search. -/
  out : Bytes := #[]
  /-- The records taken so far. -/
  journal : Journal := #[]

namespace WindowSession

variable {σ : Type}

/-- A session with an empty window and a search for the end of a text line. -/
def start (capacity : Nat) (source : σ) : WindowSession σ :=
  { window := .ofCapacity capacity, source, scan := .start 10 none }

/-- Carries out an operation. -/
def perform [ByteSource σ] (s : WindowSession σ) :
    WindowOperation → WindowReply × WindowSession σ
  | .fill =>
    let refill := s.window.fillFrom s.source
    (.filled refill.outcome,
      { s with
        window := refill.window
        source := refill.source
        journal := s.journal ++ refill.note.toArray })
  | .consume count =>
    match s.window.consume count with
    | .ok window => (.done, { s with window })
    | .error fault => (.faulted fault, s)
  | .take count =>
    (.taken (s.window.front count), { s with window := s.window.skip count })
  | .pop => (.byte s.window.pop.1, { s with window := s.window.pop.2 })
  | .find delim reach => (.index (s.window.find? delim reach), s)
  | .compact => (.done, { s with window := s.window.compact })
  | .put bytes count =>
    let window := s.window.compact
    if window.free = 0 then (.filled (.ok .full), { s with window })
    else
      let (outcome, filled) := (window.stage bytes).commit count
      (.written window.free outcome, { s with window := filled })
  | .commit count =>
    let (outcome, window) := s.window.commit count
    (.filled outcome, { s with window })
  | .search delim limit => (.done, { s with scan := .start delim limit, out := #[] })
  | .reset => (.done, { s with scan := s.scan.reset })
  | .advance =>
    let step := s.scan.advance s.window s.out
    (.advanced step.verdict step.out,
      { s with window := step.window, scan := step.scan, out := step.out })

/-- Carries out operations in turn, and lists their replies. -/
def performAll [ByteSource σ] (s : WindowSession σ) :
    List WindowOperation → List WindowReply × WindowSession σ
  | [] => ([], s)
  | op :: ops =>
    let (reply, s) := s.perform op
    let (replies, s) := performAll s ops
    (reply :: replies, s)

end WindowSession

end BufferedReading
