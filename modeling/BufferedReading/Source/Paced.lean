import BufferedReading.Source.Basic

/-!
# Bytes served in pieces

A `Paced` source serves a byte string in pieces whose greatest sizes come from a list of cuts, one
for each request: a cut `c` allows `c + 1` bytes. When the cuts are used up every piece may have 256
bytes.
-/

namespace BufferedReading

/-- A byte string, the place up to which it has been served, and the cuts still to be used. -/
structure Paced where
  /-- The whole byte string. -/
  bytes : Bytes
  /-- The place of the first byte not yet served. -/
  position : Nat := 0
  /-- The sizes of the pieces to come, less one. -/
  cuts : List UInt8
  deriving DecidableEq, Repr, Inhabited

namespace Paced

/-- The number of bytes not yet served. -/
def remaining (p : Paced) : Nat := p.bytes.size - p.position

/-- The greatest size of the next piece. -/
def pace (p : Paced) : Nat := (p.cuts.headD 255).toNat + 1

/-- The next piece, cut to `count` bytes, and the source behind it. -/
def serve (p : Paced) (count : Nat) : Answer × Paced :=
  let served := p.bytes.extract p.position (p.position + min p.pace count)
  (.honest served, { p with position := p.position + served.size, cuts := p.cuts.tail })

/-- Serving a positive number of bytes leaves fewer. -/
theorem remaining_serve_lt (p : Paced) (count : Nat) (h : (p.serve count).1.isFinal = false) :
    (p.serve count).2.remaining < p.remaining := by
  simp only [serve, Answer.honest, Answer.isFinal, beq_eq_false_iff_ne] at h
  simp only [serve, remaining, Array.size_extract] at h ⊢
  omega

instance : ByteSource Paced := ⟨serve⟩

instance : FiniteSource Paced where
  supply := remaining
  supply_read_lt := remaining_serve_lt

end Paced

end BufferedReading
