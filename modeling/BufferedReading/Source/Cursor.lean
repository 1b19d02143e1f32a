import BufferedReading.Source.Basic

/-!
# Bytes in memory as a source

A `Cursor` serves a byte string from a place in it, as much as fits into each buffer. It never
delays an answer and never fails.
-/

namespace BufferedReading

/-- A byte string and the place up to which it has been served. -/
structure Cursor where
  /-- The whole byte string. -/
  bytes : Bytes
  /-- The place of the first byte not yet served. -/
  position : Nat := 0
  deriving DecidableEq, Repr, Inhabited

namespace Cursor

/-- The number of bytes not yet served. -/
def remaining (c : Cursor) : Nat := c.bytes.size - c.position

/-- The next `count` bytes, or all that are left, and the cursor behind them. -/
def serve (c : Cursor) (count : Nat) : Answer × Cursor :=
  let served := c.bytes.extract c.position (c.position + count)
  (.honest served, { c with position := c.position + served.size })

/-- Serving a positive number of bytes leaves fewer. -/
theorem remaining_serve_lt (c : Cursor) (count : Nat) (h : (c.serve count).1.isFinal = false) :
    (c.serve count).2.remaining < c.remaining := by
  simp only [serve, Answer.honest, Answer.isFinal, beq_eq_false_iff_ne] at h
  simp only [serve, remaining, Array.size_extract] at h ⊢
  omega

instance : ByteSource Cursor := ⟨serve⟩

instance : FiniteSource Cursor where
  supply := remaining
  supply_read_lt := remaining_serve_lt

/-- A cursor is always ready. -/
instance : PolledSource Cursor where
  poll c count :=
    let (answer, rest) := c.serve count
    (.ready answer, rest)

instance : FinitePolledSource Cursor where
  pollSupply := remaining
  pollSupply_poll_lt c count h := remaining_serve_lt c count (h _ rfl)

end Cursor

end BufferedReading
