import BufferedReading.Check.Finding
import BufferedReading.Reader.Finite
import BufferedReading.Source.Paced

/-!
# Checking that reads of all kinds join up

A byte string that comes in pieces is read by bytes, lines and buffers in turn, as a cycle of
numbers says. The bytes read, joined, are the byte string: nothing is lost and nothing comes twice.
On the way the unread bytes never outgrow the window, and a complete line ends with its delimiter.
-/

namespace BufferedReading

namespace MixedCheck

/-- What one read took. -/
structure Taken where
  /-- The bytes. -/
  bytes : Bytes
  /-- Whether the read met the end of the stream. -/
  ended : Bool
  deriving DecidableEq, Repr, Inhabited

variable {σ : Type} [FiniteSource σ]

/-- Reads a byte. -/
def takeByte (r : Reader σ) : Option Taken × Reader σ :=
  match r.readByte with
  | (.ok (some b), r) => (some ⟨#[b], false⟩, r)
  | (.ok none, r) => (some ⟨#[], true⟩, r)
  | (.error _, r) => (none, r)

/-- Reads a line. -/
def takeLine (r : Reader σ) (delim : UInt8) : Option Taken × Reader σ :=
  match r.readLine delim with
  | (.ok line, r) =>
    if line.complete && line.data.back? != some delim then (none, r)
    else (some ⟨line.data, !line.complete⟩, r)
  | (.error _, r) => (none, r)

/-- Reads into a buffer of the given size. -/
def takeBuffer (r : Reader σ) (size : Nat) : Option Taken × Reader σ :=
  match r.read (Array.replicate size 0) with
  | ⟨.ok count, buffer, r⟩ =>
    if buffer.size < count then (none, r)
    else (some ⟨buffer.extract 0 count, count == 0 && size != 0⟩, r)
  | ⟨.error _, _, r⟩ => (none, r)

/-- One read, picked by a number: its remainder by three tells bytes, lines and buffers apart, and
the number itself is the delimiter or the size. There is nothing to show for a read that breaks a
rule. -/
def take (r : Reader σ) (pick : UInt8) : Option Taken × Reader σ :=
  if pick % 3 = 0 then takeByte r
  else if pick % 3 = 1 then takeLine r pick
  else takeBuffer r pick.toNat

/-- Reads at most so many times, as a cycle of picks says, until a read meets the end of the stream.
The picks of the current turn come first. -/
def takeCycle (picks : List UInt8) : Nat → List UInt8 → Reader σ → Bytes → Option Bytes × Reader σ
  | 0, _, r, taken => (some taken, r)
  | reads + 1, turn, r, taken =>
    match if turn.isEmpty then picks else turn with
    | [] => (some taken, r)
    | pick :: turn =>
      match take r pick with
      | (none, r) => (none, r)
      | (some next, r) =>
        if r.capacity < r.buffered then (none, r)
        else if next.ended then (some (taken ++ next.bytes), r)
        else takeCycle picks reads turn r (taken ++ next.bytes)

/-- Reads buffers of 64 bytes until one stays empty. -/
def drain (r : Reader σ) (taken : Bytes) : Option Bytes × Reader σ :=
  match _hc : r.read (Array.replicate 64 0) with
  | ⟨.error _, _, r⟩ => (none, r)
  | ⟨.ok count, buffer, r⟩ =>
    if _hz : count = 0 then (some taken, r)
    else if buffer.size < count then (none, r)
    else drain r (taken ++ buffer.extract 0 count)
termination_by r.stock
decreasing_by
  have := Reader.stock_read_lt (congrArg Call.result _hc) (by omega)
  simpa only [_hc] using this

/-- Reads a byte string that comes in pieces as the picks say, then what is left of it. There are at
most twice as many picked reads as there are bytes, and sixteen more. The capacity is the value of a
byte. -/
def run (capacity : UInt8) (bytes : Bytes) (cuts picks : List UInt8) : Finding :=
  let r := Reader.ofCapacity ({ bytes, cuts } : Paced) capacity.toNat
  match takeCycle picks (2 * bytes.size + 16) picks r #[] with
  | (none, r) => ⟨false, r.journal⟩
  | (some taken, r) =>
    let (taken, r) := drain r taken
    ⟨taken == some bytes, r.journal⟩

end MixedCheck

end BufferedReading
