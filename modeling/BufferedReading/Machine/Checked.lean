import BufferedReading.Fault
import BufferedReading.Source.Basic

/-!
# Computing in machine words

The readers of this library count in natural numbers, and the bounds of their windows are part of a
type. A machine counts in words and knows nothing of its data: a sum may not fit in a word, a
difference may be negative, a slice may lie outside its array and an assertion may fail.
`Checked` is a computation that stops with a `Fault` where that happens.

A checked computation also counts the bytes that have been taken since it began, and it stops with
an `Excuse` where nothing is promised any more: when that count does not fit in a word, when a
source reports more bytes than the caller's own buffer has room for, and when a caller passes over
so many bytes that no word holds the place behind them. The count is not part of what the machine
computes; nothing but `Checked.tally` looks at it.
-/

namespace BufferedReading

/-- What a machine is not answerable for. -/
inductive Excuse where
  /-- More bytes have been taken in all than a word counts. -/
  | exhausted
  /-- A source has reported more bytes than there was room for in the caller's buffer. -/
  | dishonest
  /-- A caller has passed over bytes up to a place that no word holds. -/
  | farConsume
  deriving DecidableEq, Repr

/-- Why a computation has stopped. -/
inductive Halt where
  | fault (fault : Fault)
  | excused (excuse : Excuse)
  deriving DecidableEq, Repr

/-- A computation in machine words. Its state is the number of bytes taken so far. -/
abbrev Checked (α : Type) := StateT Nat (Except Halt) α

namespace Checked

variable {α ς : Type}

/-- Stops with a fault. -/
def fail (fault : Fault) : Checked α := fun _ => .error (.fault fault)

/-- Stops with an excuse. -/
def excuse (excuse : Excuse) : Checked α := fun _ => .error (.excused excuse)

/-- Counts bytes that are taken. -/
def tally (count : Nat) : Checked Unit := fun taken =>
  if taken + count < wordSize then .ok ((), taken + count) else .error (.excused .exhausted)

/-- The sum of two words. -/
def add (a b : Nat) : Checked Nat := if a + b < wordSize then pure (a + b) else fail .overflow

/-- The difference of two words. -/
def sub (a b : Nat) : Checked Nat := if b ≤ a then pure (a - b) else fail .underflow

/-- The slice of an array from `start` up to and without `stop`. -/
def slice (bytes : Bytes) (start stop : Nat) : Checked Bytes :=
  if start ≤ stop ∧ stop ≤ bytes.size then pure (bytes.extract start stop) else fail .slice

/-- Copies an array into the slice of another one from `start` up to and without `stop`. -/
def copy (bytes : Bytes) (start stop : Nat) (src : Bytes) : Checked Bytes :=
  if start ≤ stop ∧ stop ≤ bytes.size then
    if src.size = stop - start then pure (bytes.overwrite start src) else fail .length
  else fail .slice

/-- Asserts a condition. -/
def assert (p : Prop) [Decidable p] : Checked Unit := if p then pure () else fail .assertion

/-- Makes at most so many attempts, as `Poll.drive` does. -/
def drive (attempt : ς → Checked (Option (Poll α × ς))) :
    Nat → ς → Checked (Option (Poll α × ς))
  | 0, s => pure (some (.pending, s))
  | attempts + 1, s => do
    match ← attempt s with
    | none => pure none
    | some (.pending, s) => drive attempt attempts s
    | some (.ready a, s) => pure (some (.ready a, s))

end Checked

end BufferedReading
