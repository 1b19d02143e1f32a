import BufferedReading.Machine.Window
import BufferedReading.Reader.Polled

/-!
# The reader of a machine

A `RawReader` is a source behind the window of a machine. Its operations are attempts at a source
that is polled; a source that is waited for is one that never asks to be tried again, so that the
same operations serve both (`PolledSource.ofWaited`). A journal is not kept.
-/

namespace BufferedReading

/-- A source behind the window of a machine. -/
structure RawReader (σ : Type) where
  /-- Where bytes come from. -/
  source : σ
  /-- The bytes taken from the source and not yet delivered. -/
  window : RawWindow
  /-- What the reader was built from. -/
  config : Config

/-- The window is in order and of the size that was asked for, which fits in a word. -/
structure RawReader.InOrder {σ : Type} (r : RawReader σ) : Prop where
  ordered : r.window.Ordered
  size_eq : r.window.arena.size = r.config.capacity
  size_lt : r.window.arena.size < wordSize

/-- The reader as a machine has it. -/
def Reader.raw {σ : Type} (r : Reader σ) : RawReader σ := ⟨r.source, r.window.raw, r.config⟩

@[simp] theorem Reader.source_raw {σ : Type} (r : Reader σ) : r.raw.source = r.source := rfl

@[simp] theorem Reader.window_raw {σ : Type} (r : Reader σ) : r.raw.window = r.window.raw := rfl

@[simp] theorem Reader.config_raw {σ : Type} (r : Reader σ) : r.raw.config = r.config := rfl

/-- The call as a machine has it. -/
def Call.raw {σ α : Type} (call : Call (Reader σ) α) : Call (RawReader σ) α :=
  ⟨call.result, call.buffer, call.reader.raw⟩

/-- The attempt as a machine has it. -/
def LineAttempt.raw {σ : Type} (attempt : LineAttempt σ) :
    Poll (Except ReadError Bool) × (Scan × Bytes) × RawReader σ :=
  (attempt.result, (attempt.scan, attempt.out), attempt.reader.raw)

/-- The attempt as a machine has it: the two parts of the buffer are one, and the size of the first
is the number of bytes filled. -/
def FillAttempt.raw {σ : Type} (attempt : FillAttempt σ) :
    Poll (Except (Stop ReadError) Unit) × (Bytes × Nat) × RawReader σ :=
  (attempt.result, (attempt.done ++ attempt.rest, attempt.done.size), attempt.reader.raw)

namespace RawReader

variable {σ : Type} [PolledSource σ]

/-- Polls the source once to fill the free space of the window. -/
def pollRefill (r : RawReader σ) : Checked (Poll (Except ReadError Fill) × RawReader σ) := do
  let (room?, w) ← r.window.prepareFill
  match room? with
  | none => pure (.ready (.ok .full), { r with window := w })
  | some room =>
    match PolledSource.poll r.source room with
    | (.pending, source) => pure (.pending, { r with window := w, source })
    | (.ready (.failed cause), source) =>
      pure (.ready (.error (.source cause)), { r with window := w, source })
    | (.ready (.supplied written count), source) => do
      let (outcome, w) ← (w.stage written).commit count
      pure (.ready (outcome.mapError .source), { r with window := w, source })

/-- Polls the source with the whole buffer, past the window. -/
def pollBypass (r : RawReader σ) (buffer : Bytes) :
    Checked (Call (RawReader σ) (Poll (Except ReadError Nat))) :=
  match PolledSource.poll r.source buffer.size with
  | (.pending, source) => pure ⟨.pending, buffer, { r with source }⟩
  | (.ready (.failed cause), source) =>
    pure ⟨.ready (.error (.source cause)), buffer, { r with source }⟩
  | (.ready (.supplied written count), source) =>
    if buffer.size < count then .excuse .dishonest
    else do
      Checked.tally count
      pure ⟨.ready (.ok count), buffer.overwrite 0 written, { r with source }⟩

/-- Delivers unread bytes into a buffer. -/
def deliver (r : RawReader σ) (buffer : Bytes) :
    Checked (Call (RawReader σ) (Poll (Except ReadError Nat))) := do
  let (count, buffer, window) ← r.window.copyTo buffer
  pure ⟨.ready (.ok count), buffer, { r with window }⟩

/-- An attempt to read some bytes into a buffer. -/
def pollRead (r : RawReader σ) (buffer : Bytes) :
    Checked (Call (RawReader σ) (Poll (Except ReadError Nat))) :=
  if buffer.size = 0 then pure ⟨.ready (.ok 0), buffer, r⟩
  else if r.window.isEmpty then
    if r.window.arena.size ≤ buffer.size then r.pollBypass buffer
    else do
      match ← r.pollRefill with
      | (.pending, r) => pure ⟨.pending, buffer, r⟩
      | (.ready (.error e), r) => pure ⟨.ready (.error e), buffer, r⟩
      | (.ready (.ok .ended), r) => pure ⟨.ready (.ok 0), buffer, r⟩
      | (.ready (.ok _), r) => r.deliver buffer
  else r.deliver buffer

/-- An attempt to ask the source itself, past the reader. -/
def pollSource (r : RawReader σ) (buffer : Bytes) :
    Checked (Call (RawReader σ) (Poll (Except Failure Nat))) :=
  match PolledSource.poll r.source buffer.size with
  | (.pending, source) => pure ⟨.pending, buffer, { r with source }⟩
  | (.ready (.supplied written count), source) =>
    pure ⟨.ready (.ok count), buffer.overwrite 0 written, { r with source }⟩
  | (.ready (.failed cause), source) => pure ⟨.ready (.error cause), buffer, { r with source }⟩

/-- Takes the next unread byte. -/
def pop (r : RawReader σ) : Checked (Poll (Except ReadError (Option UInt8)) × RawReader σ) := do
  let (byte?, window) ← r.window.pop
  pure (.ready (.ok byte?), { r with window })

/-- An attempt to read the next byte. -/
def pollByte (r : RawReader σ) : Checked (Poll (Except ReadError (Option UInt8)) × RawReader σ) :=
  if r.window.isEmpty then do
    match ← r.pollRefill with
    | (.pending, r) => pure (.pending, r)
    | (.ready (.error e), r) => pure (.ready (.error e), r)
    | (.ready (.ok _), r) => r.pop
  else r.pop

/-- Looks at the unread bytes. -/
def look (r : RawReader σ) : Checked (Poll (Except Failure Bytes) × RawReader σ) := do
  let unread ← r.window.unread
  pure (.ready (.ok unread), r)

/-- An attempt to look at the unread bytes, after a refill if there were none. -/
def pollFillBuffer (r : RawReader σ) : Checked (Poll (Except Failure Bytes) × RawReader σ) :=
  if r.window.isEmpty then do
    match ← r.pollRefill with
    | (.pending, r) => pure (.pending, r)
    | (.ready (.error e), r) => pure (.ready (.error e.toFailure), r)
    | (.ready (.ok _), r) => r.look
  else r.look

/-- An attempt at a delimiter read that takes up a search where it was left, in at most `rounds`
rounds of a search and a refill. -/
def pollLine : Nat → RawReader σ → Scan → Bytes →
    Checked (Option (Poll (Except ReadError Bool) × (Scan × Bytes) × RawReader σ))
  | 0, _, _, _ => pure none
  | rounds + 1, r, scan, out => do
    let step ← scan.advanceRaw r.window out
    let r := { r with window := step.window }
    match step.verdict with
    | .found => pure (some (.ready (.ok true), (step.scan, step.out), r))
    | .overlong limit =>
      pure (some (.ready (.error (.lineTooLong limit)), (step.scan, step.out), r))
    | .starved =>
      match ← r.pollRefill with
      | (.pending, r) => pure (some (.pending, (step.scan, step.out), r))
      | (.ready (.error e), r) => pure (some (.ready (.error e), (step.scan, step.out), r))
      | (.ready (.ok (.added _)), r) => pollLine rounds r step.scan step.out
      | (.ready (.ok _), r) => pure (some (.ready (.ok false), (step.scan, step.out), r))

/-- An attempt to go on filling a buffer whose first `filled` bytes are there. -/
def pollExact (r : RawReader σ) (buffer : Bytes) (filled : Nat) :
    Checked (Poll (Except (Stop ReadError) Unit) × (Bytes × Nat) × RawReader σ) :=
  if _h : filled < buffer.size then do
    let tail ← Checked.slice buffer filled buffer.size
    let call ← r.pollRead tail
    let buffer' := buffer.overwrite filled call.buffer
    match call.result with
    | .pending => pure (.pending, (buffer', filled), call.reader)
    | .ready (.error e) => pure (.ready (.error (.failed e)), (buffer', filled), call.reader)
    | .ready (.ok 0) =>
      pure (.ready (.error (.failed (.source .bufferNotFilled))), (buffer', filled), call.reader)
    | .ready (.ok (count + 1)) => do
      let _ ← Checked.add filled (count + 1)
      pollExact call.reader buffer' (filled + (count + 1))
  else pure (.ready (.ok ()), (buffer, filled), r)
termination_by buffer.size - filled
decreasing_by
  simp only [Bytes.size_overwrite]
  omega

/-! ### Loops that callers make of reads -/

/-- Reads until `rest`, the part of a buffer behind the bytes `done`, is full, in at most `rounds`
attempts, and tries again after an interruption. -/
def fill : Nat → RawReader σ → Bytes → Bytes →
    Checked (Option (Poll (Except (Stop Failure) Unit) × Bytes × RawReader σ))
  | 0, _, _, _ => pure none
  | rounds + 1, r, done, rest =>
    if rest.size = 0 then pure (some (.ready (.ok ()), done ++ rest, r))
    else do
      let call ← r.pollRead rest
      match call.result with
      | .pending => pure (some (.pending, done ++ call.buffer, call.reader))
      | .ready (.error e) =>
        if e.toFailure.isInterruption then fill rounds call.reader done call.buffer
        else pure (some (.ready (.error (.failed e.toFailure)), done ++ call.buffer, call.reader))
      | .ready (.ok count) =>
        if count = 0 then
          pure (some (.ready (.error (.failed .bufferNotFilled)), done ++ call.buffer, call.reader))
        else do
          let rest ← Checked.slice call.buffer count call.buffer.size
          fill rounds call.reader (done ++ call.buffer.extract 0 count) rest

/-- Appends the bytes up to the delimiter to `out`, in at most `rounds` attempts, counts them from
`count` on, and tries again after an interruption. -/
def readUntil (delim : UInt8) : Nat → RawReader σ → Bytes → Nat →
    Checked (Option (Poll (Except Failure Nat) × Bytes × RawReader σ))
  | 0, _, _, _ => pure none
  | rounds + 1, r, out, count => do
    match ← r.pollFillBuffer with
    | (.pending, r) => pure (some (.pending, out, r))
    | (.ready (.error cause), r) =>
      if cause.isInterruption then readUntil delim rounds r out count
      else pure (some (.ready (.error cause), out, r))
    | (.ready (.ok available), r) =>
      match available.indexIn? delim 0 available.size with
      | some i => do
        let used ← Checked.add i 1
        let front ← Checked.slice available 0 used
        let window ← r.window.consume used
        let count ← Checked.add count used
        pure (some (.ready (.ok count), out ++ front, { r with window }))
      | none => do
        let window ← r.window.consume available.size
        let count ← Checked.add count available.size
        if available.size = 0 then
          pure (some (.ready (.ok count), out ++ available, { r with window }))
        else readUntil delim rounds { r with window } (out ++ available) count

end RawReader

end BufferedReading
