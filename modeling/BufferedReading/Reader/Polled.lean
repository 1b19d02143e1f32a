import BufferedReading.Reader.Basic
import BufferedReading.Scan
import BufferedReading.Line

/-!
# Reading from a source that is polled

The operations of a `Reader` whose source may answer "not yet". Each is an attempt: it goes on as
far as the source lets it and is then pending, having taken nothing from the source in the request
that was put off. What an attempt has to remember until the next one is a value of its own, kept by
the caller: the search and the accumulator of a delimiter read, the two parts of a buffer to be
filled. A caller that gives up loses nothing but that value.

A delimiter read without a limit may go on for ever even in one attempt; `Reader.pollLineWithin`
gives up after a number of rounds, and `BufferedReading.Reader.FinitePolled` has the attempts over
finite sources.
-/

namespace BufferedReading

/-- An attempt at a delimiter read. -/
structure LineAttempt (σ : Type) where
  /-- Whether the delimiter was met, if the read has come to its end. -/
  result : Poll (Except ReadError Bool)
  /-- The search to be taken up again. -/
  scan : Scan
  /-- The bytes taken so far. -/
  out : Bytes
  /-- The reader after the attempt. -/
  reader : Reader σ

/-- An attempt at filling a buffer. -/
structure FillAttempt (σ : Type) where
  /-- Whether the buffer was filled, if the read has come to its end. -/
  result : Poll (Except (Stop ReadError) Unit)
  /-- The bytes read so far. -/
  done : Bytes
  /-- The part of the buffer behind them. -/
  rest : Bytes
  /-- The reader after the attempt. -/
  reader : Reader σ

namespace Reader

variable {σ : Type} [PolledSource σ]

/-- Polls the source once to fill the free space of the window. -/
def pollRefill (r : Reader σ) : Poll (Except ReadError Fill) × Reader σ :=
  let w := r.window.compact
  if w.free = 0 then (.ready (.ok .full), { r with window := w })
  else
    match PolledSource.poll r.source w.free with
    | (.pending, source) => (.pending, { r with window := w, source })
    | (.ready (.failed cause), source) =>
      (.ready (.error (.source cause)),
        { r with window := w, source }.note (.sourceFailed cause))
    | (.ready (.supplied written count), source) =>
      let (outcome, filled) := (w.stage written).commit count
      let r := { r with window := filled, source }.note (.refill w.free count)
      match outcome with
      | .ok .ended => (.ready (.ok .ended), r.note .endOfStream)
      | .ok fill => (.ready (.ok fill), r)
      | .error cause => (.ready (.error (.source cause)), r.note (.sourceFailed cause))

/-- Polls the source with the whole buffer, past the window. -/
def pollBypass (r : Reader σ) (buffer : Bytes) : Call (Reader σ) (Poll (Except ReadError Nat)) :=
  let r := r.note (.bypass buffer.size)
  match PolledSource.poll r.source buffer.size with
  | (.pending, source) => ⟨.pending, buffer, { r with source }⟩
  | (.ready (.supplied written count), source) =>
    ⟨.ready (.ok count), buffer.overwrite 0 written, { r with source }⟩
  | (.ready (.failed cause), source) =>
    ⟨.ready (.error (.source cause)), buffer, { r with source }.note (.sourceFailed cause)⟩

/-- An attempt to read some bytes into a buffer. A pending attempt leaves the buffer and the unread
bytes as they were. -/
def pollRead (r : Reader σ) (buffer : Bytes) : Call (Reader σ) (Poll (Except ReadError Nat)) :=
  if buffer.size = 0 then ⟨.ready (.ok 0), buffer, r⟩
  else if r.window.isEmpty then
    if r.capacity ≤ buffer.size then r.pollBypass buffer
    else
      match r.pollRefill with
      | (.pending, r) => ⟨.pending, buffer, r⟩
      | (.ready (.error e), r) => ⟨.ready (.error e), buffer, r⟩
      | (.ready (.ok .ended), r) => ⟨.ready (.ok 0), buffer, r⟩
      | (.ready (.ok _), r) =>
        let call := r.deliver buffer
        ⟨.ready call.result, call.buffer, call.reader⟩
  else
    let call := r.deliver buffer
    ⟨.ready call.result, call.buffer, call.reader⟩

/-- An attempt to read the next byte. -/
def pollByte (r : Reader σ) : Poll (Except ReadError (Option UInt8)) × Reader σ :=
  if r.window.isEmpty then
    match r.pollRefill with
    | (.pending, r) => (.pending, r)
    | (.ready (.error e), r) => (.ready (.error e), r)
    | (.ready (.ok _), r) => (.ready (.ok r.window.pop.1), { r with window := r.window.pop.2 })
  else (.ready (.ok r.window.pop.1), { r with window := r.window.pop.2 })

/-- An attempt to look at the unread bytes, after a refill if there were none. -/
def pollFillBuffer (r : Reader σ) : Poll (Except Failure Bytes) × Reader σ :=
  if r.window.isEmpty then
    match r.pollRefill with
    | (.pending, r) => (.pending, r)
    | (.ready (.error e), r) => (.ready (.error e.toFailure), r)
    | (.ready (.ok _), r) => (.ready (.ok r.unread), r)
  else (.ready (.ok r.unread), r)

/-- An attempt at a delimiter read that takes up a search where it was left, in at most `rounds`
rounds of a search and a refill. -/
def pollLineWithin : Nat → Reader σ → Scan → Bytes → Option (LineAttempt σ)
  | 0, _, _, _ => none
  | rounds + 1, r, scan, out =>
    let step := scan.advance r.window out
    let r := { r with window := step.window }
    match step.verdict with
    | .found => some ⟨.ready (.ok true), step.scan, step.out, r⟩
    | .overlong limit => some ⟨.ready (.error (.lineTooLong limit)), step.scan, step.out, r⟩
    | .starved =>
      match r.pollRefill with
      | (.pending, r) => some ⟨.pending, step.scan, step.out, r⟩
      | (.ready (.error e), r) => some ⟨.ready (.error e), step.scan, step.out, r⟩
      | (.ready (.ok (.added _)), r) => pollLineWithin rounds r step.scan step.out
      | (.ready (.ok _), r) => some ⟨.ready (.ok false), step.scan, step.out, r⟩

/-! ### Sizes -/

/-- An attempt at a refill keeps the size of the window. -/
@[simp] theorem capacity_pollRefill (r : Reader σ) :
    r.pollRefill.2.window.capacity = r.window.capacity := by
  unfold pollRefill
  simp only
  split
  · exact Window.capacity_compact _
  · split
    · exact Window.capacity_compact _
    · exact Window.capacity_compact _
    · next written count source _ =>
      have hc : ((r.window.compact.stage written).commit count).2.capacity = r.window.capacity := by
        unfold Window.commit
        split
        · simp
        · split <;> simp
      split <;> exact hc

/-- An attempt at a read keeps the size of the buffer. -/
@[simp] theorem size_buffer_pollRead (r : Reader σ) (buffer : Bytes) :
    (r.pollRead buffer).buffer.size = buffer.size := by
  unfold pollRead
  split
  · rfl
  · split
    · split
      · unfold pollBypass
        simp only
        split <;> simp
      · split <;> simp [deliver]
    · simp [deliver]

/-! ### Filling a buffer -/

/-- An attempt to go on filling a buffer whose part `rest` is still to be filled. Counts are added
up as in `Reader.readExactFrom`. -/
def pollExact (r : Reader σ) (done rest : Bytes) : FillAttempt σ :=
  if _h : rest.size = 0 then ⟨.ready (.ok ()), done, rest, r⟩
  else
    match _hc : r.pollRead rest with
    | ⟨.pending, buffer, r⟩ => ⟨.pending, done, buffer, r⟩
    | ⟨.ready (.error e), buffer, r⟩ => ⟨.ready (.error (.failed e)), done, buffer, r⟩
    | ⟨.ready (.ok count), buffer, r⟩ =>
      if _hz : count = 0 then
        ⟨.ready (.error (.failed (.source .bufferNotFilled))), done, buffer, r⟩
      else if rest.size < count ∧ wordSize ≤ done.size + count then
        ⟨.ready (.error (.faulted .overflow)), done ++ buffer.extract 0 count,
          buffer.extract count buffer.size, r⟩
      else pollExact r (done ++ buffer.extract 0 count) (buffer.extract count buffer.size)
termination_by rest.size
decreasing_by
  have hs := congrArg (fun call => call.buffer.size) _hc
  simp only [size_buffer_pollRead] at hs
  simp only [Array.size_extract]
  omega

end Reader

end BufferedReading
