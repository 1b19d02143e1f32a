import BufferedReading.Machine.Checked
import BufferedReading.Scan

/-!
# The window of a machine

A `RawWindow` has the fields of a `Window` and nothing that says how they are related. Its
operations are those of a window as a machine carries them out, cursor by cursor and slice by slice,
each with the assertion behind it that the cursors are in order. `Scan.advanceRaw` is a step of a
search in such a window, and behind it stands the assertion that the search is within its limit.
-/

namespace BufferedReading

/-- An arena of bytes with a read cursor and a write cursor, wherever they stand. -/
structure RawWindow where
  /-- All bytes of the window. -/
  arena : Bytes
  /-- The place of the first unread byte. -/
  readPos : Nat
  /-- The place after the last unread byte. -/
  writePos : Nat
  deriving DecidableEq, Repr

namespace RawWindow

/-- The cursors are in order and inside the arena, and the arena has room for a byte. -/
structure Ordered (w : RawWindow) : Prop where
  readPos_le_writePos : w.readPos ≤ w.writePos
  writePos_le_size : w.writePos ≤ w.arena.size
  size_pos : 1 ≤ w.arena.size

/-- Asserts that the cursors are in order and inside the arena. -/
def check (w : RawWindow) : Checked Unit :=
  .assert (w.readPos ≤ w.writePos ∧ w.writePos ≤ w.arena.size)

/-- Whether every byte has been read. -/
def isEmpty (w : RawWindow) : Bool := w.readPos == w.writePos

/-- The number of unread bytes. -/
def buffered (w : RawWindow) : Checked Nat := .sub w.writePos w.readPos

/-- The unread bytes. -/
def unread (w : RawWindow) : Checked Bytes := .slice w.arena w.readPos w.writePos

/-- Passes over so many unread bytes, or over all if there are fewer. -/
def consume (w : RawWindow) (count : Nat) : Checked RawWindow := do
  let target ← Checked.add w.readPos count
  let after := { w with readPos := min target w.writePos }
  after.check
  Checked.tally (after.readPos - w.readPos)
  pure after

/-- Copies as many unread bytes as there is room for into a buffer and passes over them. -/
def copyTo (w : RawWindow) (buffer : Bytes) : Checked (Nat × Bytes × RawWindow) := do
  let buffered ← w.buffered
  let count := min buffer.size buffered
  let stop ← Checked.add w.readPos count
  let front ← Checked.slice w.arena w.readPos stop
  let buffer ← Checked.copy buffer 0 count front
  let after ← w.consume count
  pure (count, buffer, after)

/-- Takes the first unread byte, if there is one. -/
def pop (w : RawWindow) : Checked (Option UInt8 × RawWindow) := do
  let unread ← w.unread
  match unread[0]? with
  | none => pure (none, w)
  | some byte => do
    let after ← w.consume 1
    pure (some byte, after)

/-- The index of the first `delim` among the first `reach` unread bytes. -/
def find? (w : RawWindow) (delim : UInt8) (reach : Nat) : Checked (Option Nat) := do
  let unread ← w.unread
  let near ← Checked.slice unread 0 (min unread.size reach)
  pure (near.toList.idxOf? delim)

/-- Moves the unread bytes to the start of the arena. -/
def compact (w : RawWindow) : Checked RawWindow :=
  if w.readPos = 0 then pure w
  else do
    let unread ← Checked.slice w.arena w.readPos w.writePos
    let arena ← Checked.copy w.arena 0 unread.size unread
    let writePos ← Checked.sub w.writePos w.readPos
    let after : RawWindow := ⟨arena, 0, writePos⟩
    after.check
    pure after

/-- Compacts the window. The result is the number of bytes in the free space behind the unread ones,
unless there is none. -/
def prepareFill (w : RawWindow) : Checked (Option Nat × RawWindow) := do
  let w ← w.compact
  if w.arena.size ≤ w.writePos then pure (none, w)
  else do
    let tail ← Checked.slice w.arena w.writePos w.arena.size
    pure (some tail.size, w)

/-- The window with what a source has written into the free space. -/
def stage (w : RawWindow) (bytes : Bytes) : RawWindow :=
  { w with arena := w.arena.overwrite w.writePos bytes }

/-- Makes the first `count` bytes of the free space readable. -/
def commit (w : RawWindow) (count : Nat) : Checked (Except Failure Fill × RawWindow) :=
  if count = 0 then pure (.ok .ended, w)
  else do
    let free ← Checked.sub w.arena.size w.writePos
    if free < count then pure (.error (.overcount count free), w)
    else do
      let writePos ← Checked.add w.writePos count
      let after := { w with writePos }
      after.check
      pure (.ok (.added count), after)

end RawWindow

/-- The window as a machine has it. -/
def Window.raw (w : Window) : RawWindow := ⟨w.arena, w.readPos, w.writePos⟩

@[simp] theorem Window.arena_raw (w : Window) : w.raw.arena = w.arena := rfl

@[simp] theorem Window.readPos_raw (w : Window) : w.raw.readPos = w.readPos := rfl

@[simp] theorem Window.writePos_raw (w : Window) : w.raw.writePos = w.writePos := rfl

@[simp] theorem Window.isEmpty_raw (w : Window) : w.raw.isEmpty = w.isEmpty := rfl

/-- One step of a search in the window of a machine. -/
structure RawAdvance where
  /-- How far the search has come. -/
  verdict : Verdict
  /-- The search after the step. -/
  scan : Scan
  /-- The window without the bytes taken. -/
  window : RawWindow
  /-- The accumulator with the bytes taken. -/
  out : Bytes

/-- The step as a machine has it. -/
def Advance.raw (step : Advance) : RawAdvance :=
  ⟨step.verdict, step.scan, step.window.raw, step.out⟩

namespace Scan

/-- A search has taken no more than its limit allows. -/
def WithinLimit (scan : Scan) : Prop := ∀ limit, scan.limit = some limit → scan.taken ≤ limit

/-- Asserts that a search has taken no more than its limit allows. -/
def check (scan : Scan) : Checked Unit := .assert (scan.limit.all (scan.taken ≤ ·))

/-- The number of bytes that a search may still take; without a limit, the greatest number there
is. -/
def budget (scan : Scan) : Checked Nat :=
  match scan.limit with
  | none => pure (wordSize - 1)
  | some limit => .sub limit scan.taken

/-- Takes so many unread bytes and counts them. -/
def takeRaw (scan : Scan) (w : RawWindow) (count : Nat) (out : Bytes) :
    Checked (Scan × RawWindow × Bytes) := do
  let unread ← w.unread
  let front ← Checked.slice unread 0 count
  let after ← w.consume count
  let taken ← Checked.add scan.taken count
  let scan := { scan with taken }
  scan.check
  pure (scan, after, out ++ front)

/-- Takes the bytes up to the first delimiter within the budget, or all bytes within it if there is
none. -/
def advanceRaw (scan : Scan) (w : RawWindow) (out : Bytes) : Checked RawAdvance := do
  let budget ← scan.budget
  match ← w.find? scan.delim budget with
  | some i => do
    let count ← Checked.add i 1
    let (scan, after, out) ← scan.takeRaw w count out
    pure ⟨.found, scan, after, out⟩
  | none => do
    let buffered ← w.buffered
    let (scan, after, out) ← scan.takeRaw w (min buffered budget) out
    pure ⟨scan.unmet, scan, after, out⟩

end Scan

end BufferedReading
