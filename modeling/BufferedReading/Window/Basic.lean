import BufferedReading.Bytes
import BufferedReading.Failure
import BufferedReading.Fault

/-!
# The window

A `Window` is a fixed arena of bytes with two cursors. The bytes between the cursors are unread; the
bytes before them have been consumed, and the bytes after them are free space that a refill may
write to. The arena never grows, starts out as zeros and keeps whatever was written to it: consumed
bytes stay until they are written over, and `Window.commit` makes readable whatever stands after the
write cursor.

That the cursors are in order and inside the arena is part of the type.

Bytes are taken in two ways. The operations of this library pass over bytes that they have counted
(`Window.skip`); a caller names a number of its own (`Window.consume`), and the place so far behind
the read cursor may lie beyond every word.
-/

namespace BufferedReading

/-- A fixed arena of bytes with a read cursor and a write cursor. -/
structure Window where
  /-- All bytes of the window, whatever their state. -/
  arena : Bytes
  /-- The place of the first unread byte. -/
  readPos : Nat
  /-- The place after the last unread byte. -/
  writePos : Nat
  readPos_le_writePos : readPos ≤ writePos
  writePos_le_size : writePos ≤ arena.size
  size_pos : 0 < arena.size
  deriving DecidableEq, Repr

/-- What a refill brought. -/
inductive Fill where
  /-- So many bytes, at least one, were added. -/
  | added (count : Nat)
  /-- The source is at its end. -/
  | ended
  /-- The window had no room, and the source was not asked. -/
  | full
  deriving DecidableEq, Repr, Inhabited

namespace Window

/-- An empty window of the given capacity, and of capacity one if that is zero. -/
def ofCapacity (capacity : Nat) : Window where
  arena := Array.replicate (max capacity 1) 0
  readPos := 0
  writePos := 0
  readPos_le_writePos := Nat.le_refl 0
  writePos_le_size := Nat.zero_le _
  size_pos := by simp only [Array.size_replicate]; omega

instance : Inhabited Window := ⟨ofCapacity 1⟩

/-! ### What a window holds -/

/-- The number of bytes that a window can hold. -/
def capacity (w : Window) : Nat := w.arena.size

/-- The number of unread bytes. -/
def buffered (w : Window) : Nat := w.writePos - w.readPos

/-- The number of bytes that may be written after the unread ones. -/
def free (w : Window) : Nat := w.arena.size - w.writePos

/-- Whether every byte has been read. -/
def isEmpty (w : Window) : Bool := w.readPos == w.writePos

/-- The unread bytes. -/
def unread (w : Window) : Bytes := w.arena.extract w.readPos w.writePos

/-- The unread bytes as a list. -/
def toList (w : Window) : List UInt8 := w.unread.toList

/-- The index, among the unread bytes, of the first `delim` within the first `reach` of them. -/
def find? (w : Window) (delim : UInt8) (reach : Nat) : Option Nat :=
  (w.arena.indexIn? delim w.readPos (min w.buffered reach)).map (· - w.readPos)

/-! ### Taking bytes out -/

/-- Passes over `count` unread bytes, or over all of them if there are fewer. -/
def skip (w : Window) (count : Nat) : Window where
  arena := w.arena
  readPos := min (w.readPos + count) w.writePos
  writePos := w.writePos
  readPos_le_writePos := Nat.min_le_right ..
  writePos_le_size := w.writePos_le_size
  size_pos := w.size_pos

/-- Passes over as many unread bytes as a caller says, or over all of them if there are fewer. The
place that the caller means is computed before it is compared with the write cursor, so no number is
too large for the window, but one may be too large for a word. -/
def consume (w : Window) (count : Nat) : Except Fault Window :=
  if w.readPos + count < wordSize then .ok (w.skip count) else .error .overflow

/-- What `Window.consume` comes to where sums are not checked: a sum too large for a word starts
again from zero, and the read cursor goes back. -/
def consumeWrapping (w : Window) (count : Nat) : Window where
  arena := w.arena
  readPos := min ((w.readPos + count) % wordSize) w.writePos
  writePos := w.writePos
  readPos_le_writePos := Nat.min_le_right ..
  writePos_le_size := w.writePos_le_size
  size_pos := w.size_pos

/-- The first `count` unread bytes, or all of them if there are fewer. -/
def front (w : Window) (count : Nat) : Bytes :=
  w.arena.extract w.readPos (w.readPos + min count w.buffered)

/-- The first unread byte, if there is one, and the window after it. -/
def pop (w : Window) : Option UInt8 × Window :=
  if w.isEmpty then (none, w) else (w.arena[w.readPos]?, w.skip 1)

/-! ### Putting bytes in -/

/-- Moves the unread bytes to the start of the arena. The bytes behind them stay as they are, and
nothing moves if no byte has been consumed. -/
def compact (w : Window) : Window :=
  if w.readPos = 0 then w
  else
    { arena := w.arena.overwrite 0 w.unread
      readPos := 0
      writePos := w.buffered
      readPos_le_writePos := Nat.zero_le _
      writePos_le_size := by
        have := w.writePos_le_size
        simp only [Bytes.size_overwrite, buffered]
        omega
      size_pos := by
        have := w.size_pos
        simpa only [Bytes.size_overwrite] using this }

/-- Writes bytes into the free space, as far as it goes, without making them readable. -/
def stage (w : Window) (bytes : Bytes) : Window where
  arena := w.arena.overwrite w.writePos bytes
  readPos := w.readPos
  writePos := w.writePos
  readPos_le_writePos := w.readPos_le_writePos
  writePos_le_size := by simpa only [Bytes.size_overwrite] using w.writePos_le_size
  size_pos := by simpa only [Bytes.size_overwrite] using w.size_pos

/-- The window with `count` more bytes readable, if they fit. -/
def extend (w : Window) (count : Nat) (h : count ≤ w.free) : Window where
  arena := w.arena
  readPos := w.readPos
  writePos := w.writePos + count
  readPos_le_writePos := Nat.le_trans w.readPos_le_writePos (Nat.le_add_right ..)
  writePos_le_size := by
    have := w.writePos_le_size
    unfold free at h
    omega
  size_pos := w.size_pos

/-- Makes the first `count` bytes of the free space readable. A count of zero is the end of the
stream, and a count beyond the free space is a failure; both leave the window as it is. -/
def commit (w : Window) (count : Nat) : Except Failure Fill × Window :=
  if count = 0 then (.ok .ended, w)
  else if h : count ≤ w.free then (.ok (.added count), w.extend count h)
  else (.error (.overcount count w.free), w)

end Window

end BufferedReading
