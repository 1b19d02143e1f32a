import BufferedReading.Reader.Basic
import BufferedReading.Scan
import BufferedReading.Line

/-!
# Reading from a source that is waited for

The operations of a `Reader` whose source answers every request at once. Each refill asks the source
once and has one of three outcomes: bytes, the end of the stream, or a failure; a failure is never
taken for the end of the stream.

A delimiter read asks again and again until its source gives it the delimiter, the end of the stream
or a failure, so for a source that never does it has no result. `Reader.lineWithin` is the read
given up after a number of rounds; `BufferedReading.Reader.Finite` has the reads of finite sources.
-/

namespace BufferedReading

namespace Reader

variable {σ : Type} [ByteSource σ]

/-- Asks the source once to fill the free space of the window. -/
def refill (r : Reader σ) : Except ReadError Fill × Reader σ :=
  let refill := r.window.fillFrom r.source
  let r := r.settle refill
  match refill.outcome with
  | .ok .ended => (.ok .ended, r.note .endOfStream)
  | .ok fill => (.ok fill, r)
  | .error cause => (.error (.source cause), r.note (.sourceFailed cause))

/-- Hands the whole buffer to the source, past the window. The count that the source reports is the
result as it is. -/
def bypass (r : Reader σ) (buffer : Bytes) : Call (Reader σ) (Except ReadError Nat) :=
  let r := r.note (.bypass buffer.size)
  match ByteSource.read r.source buffer.size with
  | (.supplied written count, source) =>
    ⟨.ok count, buffer.overwrite 0 written, { r with source }⟩
  | (.failed cause, source) =>
    ⟨.error (.source cause), buffer, { r with source }.note (.sourceFailed cause)⟩

/-- Reads some bytes into a buffer, with at most one request to the source, and none while bytes are
unread. A buffer no smaller than the window is filled past it. The result is zero at the end of the
stream and for an empty buffer only. -/
def read (r : Reader σ) (buffer : Bytes) : Call (Reader σ) (Except ReadError Nat) :=
  if buffer.size = 0 then ⟨.ok 0, buffer, r⟩
  else if r.window.isEmpty then
    if r.capacity ≤ buffer.size then r.bypass buffer
    else
      match r.refill with
      | (.ok .ended, r) => ⟨.ok 0, buffer, r⟩
      | (.ok _, r) => r.deliver buffer
      | (.error e, r) => ⟨.error e, buffer, r⟩
  else r.deliver buffer

/-- Reads the next byte, or none at the end of the stream. -/
def readByte (r : Reader σ) : Except ReadError (Option UInt8) × Reader σ :=
  if r.window.isEmpty then
    match r.refill with
    | (.ok _, r) => (.ok r.window.pop.1, { r with window := r.window.pop.2 })
    | (.error e, r) => (.error e, r)
  else (.ok r.window.pop.1, { r with window := r.window.pop.2 })

/-- The unread bytes, after a refill if there were none. An empty result means that the stream is at
its end. -/
def fillBuffer (r : Reader σ) : Except Failure Bytes × Reader σ :=
  if r.window.isEmpty then
    match r.refill with
    | (.ok _, r) => (.ok r.unread, r)
    | (.error e, r) => (.error e.toFailure, r)
  else (.ok r.unread, r)

/-- Takes bytes up to the delimiter into the accumulator, in at most `rounds` rounds of a search and
a refill. The result says whether the delimiter was met before the end of the stream; the bytes
taken stay in the accumulator whatever the result. -/
def lineWithin : Nat → Scan → Reader σ → Bytes →
    Option (Call (Reader σ) (Except ReadError Bool))
  | 0, _, _, _ => none
  | rounds + 1, scan, r, out =>
    let step := scan.advance r.window out
    let r := { r with window := step.window }
    match step.verdict with
    | .found => some ⟨.ok true, step.out, r⟩
    | .overlong limit => some ⟨.error (.lineTooLong limit), step.out, r⟩
    | .starved =>
      match r.refill with
      | (.ok (.added _), r) => lineWithin rounds step.scan r step.out
      | (.ok _, r) => some ⟨.ok false, step.out, r⟩
      | (.error e, r) => some ⟨.error e, step.out, r⟩

/-! ### Sizes -/

/-- A refill keeps the size of the window. -/
@[simp] theorem capacity_refill (r : Reader σ) :
    r.refill.2.window.capacity = r.window.capacity := by
  unfold refill
  simp only
  split <;> simp [settle, note]

/-- The window behind a refill is the one that the refill left. -/
theorem window_refill (r : Reader σ) : r.refill.2.window = (r.window.fillFrom r.source).window := by
  unfold refill
  simp only
  split <;> rfl

/-- The source behind a refill is the one that the refill left. -/
theorem source_refill (r : Reader σ) : r.refill.2.source = (r.window.fillFrom r.source).source := by
  unfold refill
  simp only
  split <;> rfl

/-- A refill succeeds with the outcome of filling the window. -/
theorem refill_eq_ok_iff {r : Reader σ} {fill : Fill} :
    r.refill.1 = .ok fill ↔ (r.window.fillFrom r.source).outcome = .ok fill := by
  unfold refill
  simp only
  split <;> simp_all

/-- A refill fails as filling the window does. -/
theorem refill_eq_error_iff {r : Reader σ} {e : ReadError} :
    r.refill.1 = .error e ↔
      ∃ cause, e = .source cause ∧ (r.window.fillFrom r.source).outcome = .error cause := by
  unfold refill
  simp only
  cases h : (r.window.fillFrom r.source).outcome with
  | ok fill => cases fill <;> simp
  | error cause => simp [eq_comm]

/-- A bypassing read keeps the size of the buffer. -/
@[simp] theorem size_buffer_bypass (r : Reader σ) (buffer : Bytes) :
    (r.bypass buffer).buffer.size = buffer.size := by
  unfold bypass
  simp only
  split <;> simp

/-- A read keeps the size of the buffer. -/
@[simp] theorem size_buffer_read (r : Reader σ) (buffer : Bytes) :
    (r.read buffer).buffer.size = buffer.size := by
  unfold read
  split
  · rfl
  · split
    · split
      · exact size_buffer_bypass ..
      · split <;> simp [deliver]
    · simp [deliver]

/-- The bytes that a look at the window yields are its unread bytes. -/
theorem unread_fillBuffer {r : Reader σ} {available : Bytes}
    (h : r.fillBuffer.1 = .ok available) : r.fillBuffer.2.unread = available := by
  unfold fillBuffer at h ⊢
  split at h
  · next he =>
    rw [if_pos he]
    split at h
    · simpa using h
    · simp at h
  · next he =>
    rw [if_neg he]
    simpa using h

/-! ### Filling a buffer -/

/-- Reads until `rest`, the part of the buffer behind the bytes `done`, is full. The counts of the
reads are added up without a look at what there was room for. A count within the room gives a place
in the buffer; a false one may give a place that no word holds. -/
def readExactFrom (r : Reader σ) (done rest : Bytes) :
    Call (Reader σ) (Except (Stop ReadError) Unit) :=
  if _h : rest.size = 0 then ⟨.ok (), done ++ rest, r⟩
  else
    match _hc : r.read rest with
    | ⟨.error e, buffer, r⟩ => ⟨.error (.failed e), done ++ buffer, r⟩
    | ⟨.ok count, buffer, r⟩ =>
      if _hz : count = 0 then ⟨.error (.failed (.source .bufferNotFilled)), done ++ buffer, r⟩
      else if rest.size < count ∧ wordSize ≤ done.size + count then
        ⟨.error (.faulted .overflow), done ++ buffer, r⟩
      else
        readExactFrom r (done ++ buffer.extract 0 count) (buffer.extract count buffer.size)
termination_by rest.size
decreasing_by
  have hs := congrArg (fun call => call.buffer.size) _hc
  simp only [size_buffer_read] at hs
  simp only [Array.size_extract]
  omega

/-- Fills the whole buffer. If the stream ends or the source fails before that, the bytes read so
far stand at the start of the buffer and the rest is as before. -/
def readExact (r : Reader σ) (buffer : Bytes) : Call (Reader σ) (Except (Stop ReadError) Unit) :=
  r.readExactFrom #[] buffer

end Reader

end BufferedReading
