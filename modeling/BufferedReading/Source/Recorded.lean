import BufferedReading.Source.Basic

/-!
# Sources under observation

`Recorded σ` is a source of type `σ` together with the history of what was asked of it and what it
answered. Watching a source changes none of its answers.
-/

namespace BufferedReading

/-- One request and its answer. -/
structure Exchange where
  /-- The size of the buffer. -/
  asked : Nat
  /-- The answer. -/
  answer : Poll Answer
  deriving DecidableEq, Repr, Inhabited

/-- A source and the requests made of it so far, oldest first. -/
structure Recorded (σ : Type) where
  /-- The source itself. -/
  source : σ
  /-- What was asked and answered. -/
  history : Array Exchange := #[]
  deriving DecidableEq, Repr

namespace Recorded

variable {σ : Type}

/-- The sizes of the buffers that the source was given. -/
def asked (r : Recorded σ) : Array Nat := r.history.map (·.asked)

/-- The source behind an answer, with the exchange added to the history. -/
def note (r : Recorded σ) (asked : Nat) (answer : Poll Answer) (source : σ) : Recorded σ :=
  ⟨source, r.history.push ⟨asked, answer⟩⟩

instance [ByteSource σ] : ByteSource (Recorded σ) where
  read r n :=
    let (answer, source) := ByteSource.read r.source n
    (answer, r.note n (.ready answer) source)

instance [FiniteSource σ] : FiniteSource (Recorded σ) where
  supply r := supply r.source
  supply_read_lt r n h := FiniteSource.supply_read_lt r.source n h

instance [PolledSource σ] : PolledSource (Recorded σ) where
  poll r n :=
    let (answer, source) := PolledSource.poll r.source n
    (answer, r.note n answer source)

instance [FinitePolledSource σ] : FinitePolledSource (Recorded σ) where
  pollSupply r := pollSupply r.source
  pollSupply_poll_lt r n h := FinitePolledSource.pollSupply_poll_lt r.source n h

end Recorded

end BufferedReading
