import BufferedReading.Check.Finding
import BufferedReading.Source.Cursor
import BufferedReading.Splitter

/-!
# Checking that lines come back whole

The lines split from a byte string, joined again, are the byte string, and there are as many as it
has pieces. Read under a limit, no line is longer than the limit, a line refused has given up
exactly as many bytes as the limit allows, and all bytes joined are the byte string again.
-/

namespace BufferedReading

namespace LineCheck

/-- The number of pieces of a byte string that end with the delimiter, the bytes behind the last one
being a piece too. -/
def pieces (delim : UInt8) (bytes : Bytes) : Nat :=
  bytes.count delim + if bytes.isEmpty || bytes.back? == some delim then 0 else 1

/-- The bytes of a list of lines joined, unless an error is among them. -/
def joined? (items : Array Item) : Option Bytes :=
  items.foldl (fun bytes item => do return (← bytes) ++ (← item.toOption).data) (some #[])

/-- Splits a byte string without a limit. -/
def withoutLimit (capacity : Nat) (bytes : Bytes) : Finding :=
  let (items, s) := ((Reader.ofCapacity ({ bytes } : Cursor) capacity).split newline).collect
  ⟨joined? items == some bytes && items.size == pieces newline bytes, s.reader.journal⟩

/-- Reads lines under a limit until one is incomplete, at most so many. The bytes taken are missing
if a line breaks a rule. -/
def takeWithin {σ : Type} [FiniteSource σ] (limit : Nat) :
    Nat → Reader σ → Bytes → Option Bytes × Reader σ
  | 0, r, _ => (none, r)
  | lines + 1, r, taken =>
    match r.readLineInto newline #[] with
    | ⟨.ok complete, line, r⟩ =>
      if limit < line.size then (none, r)
      else if complete then takeWithin limit lines r (taken ++ line)
      else (some (taken ++ line), r)
    | ⟨.error (.lineTooLong allowed), line, r⟩ =>
      if line.size = allowed then takeWithin limit lines r (taken ++ line) else (none, r)
    | ⟨.error _, _, r⟩ => (none, r)

/-- Splits a byte string under a limit. Every line but the last takes a byte, so one line more than
there are bytes is enough. -/
def withLimit (capacity limit : Nat) (bytes : Bytes) : Finding :=
  let config := (Config.ofCapacity capacity).withLineLimit limit
  match Reader.ofConfig? ({ bytes } : Cursor) config with
  | .error _ => ⟨false, #[]⟩
  | .ok r =>
    let (taken, r) := takeWithin limit (bytes.size + 1) r #[]
    ⟨taken == some bytes, r.journal⟩

/-- Splits a byte string without a limit and then, if one is given, under a limit. Capacity and
limit are the values of bytes. -/
def run (capacity limit : UInt8) (bytes : Bytes) : Finding :=
  if limit = 0 then withoutLimit capacity.toNat bytes
  else
    (withoutLimit capacity.toNat bytes).andThen (withLimit capacity.toNat limit.toNat bytes)

end LineCheck

end BufferedReading
