import BufferedReading.Window.Lemmas

/-!
# Resumable search for a delimiter

A `Scan` looks for a delimiter in a window and moves the bytes it has passed into an accumulator. It
counts the bytes taken since it was started, so that a limit holds over several windows, and it
lives outside the window: a search that runs out of unread bytes is taken up again once the window
has been refilled.
-/

namespace BufferedReading

/-- A search for a delimiter: the delimiter, the greatest number of bytes it may take, if any, and
the number it has taken. -/
structure Scan where
  /-- The byte looked for. -/
  delim : UInt8
  /-- The greatest number of bytes to take, the delimiter included. -/
  limit : Option Nat
  /-- The number of bytes taken since the start. -/
  taken : Nat := 0
  deriving DecidableEq, Repr, Inhabited

/-- How far a search has come. -/
inductive Verdict where
  /-- The delimiter was taken. -/
  | found
  /-- The window ran out. -/
  | starved
  /-- The limit was reached without the delimiter. -/
  | overlong (limit : Nat)
  deriving DecidableEq, Repr, Inhabited

/-- One step of a search: how far it has come, and what it leaves behind. -/
structure Advance where
  /-- How far the search has come. -/
  verdict : Verdict
  /-- The search after the step. -/
  scan : Scan
  /-- The window without the bytes taken. -/
  window : Window
  /-- The accumulator with the bytes taken. -/
  out : Bytes

namespace Scan

/-- A search that has taken nothing. -/
def start (delim : UInt8) (limit : Option Nat) : Scan := { delim, limit }

/-- The search begun anew. -/
def reset (scan : Scan) : Scan := { scan with taken := 0 }

/-- The number of unread bytes of a window that the search may still take. -/
def reach (scan : Scan) (w : Window) : Nat :=
  match scan.limit with
  | none => w.buffered
  | some limit => min w.buffered (limit - scan.taken)

/-- The search after it has taken `count` more bytes. -/
def add (scan : Scan) (count : Nat) : Scan := { scan with taken := scan.taken + count }

/-- The verdict on a search that has not met its delimiter. -/
def unmet (scan : Scan) : Verdict :=
  match scan.limit with
  | none => .starved
  | some limit => if limit ≤ scan.taken then .overlong limit else .starved

/-- Takes the bytes up to the first delimiter within reach, or all bytes within reach if there is
none. -/
def advance (scan : Scan) (w : Window) (out : Bytes) : Advance :=
  match w.find? scan.delim (scan.reach w) with
  | some i => ⟨.found, scan.add (i + 1), w.skip (i + 1), out ++ w.front (i + 1)⟩
  | none =>
    let count := scan.reach w
    ⟨(scan.add count).unmet, scan.add count, w.skip count, out ++ w.front count⟩

/-! ### Facts about a step -/

variable (scan : Scan) (w : Window) (out : Bytes)

/-- A search takes no more than is unread. -/
theorem reach_le_buffered : scan.reach w ≤ w.buffered := by
  unfold reach
  split
  · exact Nat.le_refl _
  · exact Nat.min_le_left ..

/-- A step changes neither the delimiter nor the limit, and keeps the size of the window. -/
theorem advance_keeps :
    (scan.advance w out).scan.delim = scan.delim ∧ (scan.advance w out).scan.limit = scan.limit ∧
      (scan.advance w out).window.capacity = w.capacity := by
  unfold advance
  split <;> simp [add]

/-- A step leaves no more bytes unread than there were. -/
theorem buffered_advance_le : (scan.advance w out).window.buffered ≤ w.buffered := by
  unfold advance
  split <;> simp

/-- A step that has found the delimiter has taken at least one byte. -/
theorem buffered_advance_lt_of_found (h : (scan.advance w out).verdict = .found) :
    (scan.advance w out).window.buffered < w.buffered := by
  unfold advance at h ⊢
  split at h
  · next i hi =>
    have := (List.getElem?_eq_some_iff.1 ((w.find?_eq_some_iff).1 hi).2.1).1
    rw [Window.length_toList] at this
    simp only [Window.buffered_skip]
    omega
  · next hn =>
    simp only [unmet] at h
    split at h
    · simp at h
    · split at h <;> simp at h

/-- A step that wants more bytes has taken every unread one. -/
theorem buffered_advance_eq_zero_of_starved (h : (scan.advance w out).verdict = .starved) :
    (scan.advance w out).window.buffered = 0 := by
  unfold advance at h ⊢
  split at h
  · simp at h
  · simp only [Window.buffered_skip]
    cases hl : scan.limit with
    | none => simp [reach, hl]
    | some limit =>
      simp only [unmet, add, reach, hl] at h ⊢
      split at h
      · simp at h
      · omega

end Scan

end BufferedReading
