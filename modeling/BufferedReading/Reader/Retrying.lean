import BufferedReading.Reader.Blocking

/-!
# Reads that try again after an interruption

Callers that know a reader only as a source of bytes see its errors as failures, and loop over it in
their own way: an interrupted attempt is made again, any other failure ends the loop. The two loops
of this module fill a buffer and take bytes up to a delimiter in that way. They know nothing of a
limit on lines, and they use only `Reader.readPlain`, `Reader.fillBuffer` and `Reader.skip`. The
loop that fills a buffer cuts off what a read says it has filled; if that is more than there is, the
slice is a fault.
-/

namespace BufferedReading

namespace Reader

variable {σ : Type} [ByteSource σ]

/-- A read whose error is reported as a failure. -/
def readPlain (r : Reader σ) (buffer : Bytes) : Call (Reader σ) (Except Failure Nat) :=
  let call := r.read buffer
  ⟨call.result.mapError ReadError.toFailure, call.buffer, call.reader⟩

/-- A plain read succeeds only as the read does. -/
theorem read_eq_ok_of_readPlain {r : Reader σ} {buffer : Bytes} {count : Nat}
    (h : (r.readPlain buffer).result = .ok count) : (r.read buffer).result = .ok count := by
  change (r.read buffer).result.mapError ReadError.toFailure = .ok count at h
  revert h
  cases (r.read buffer).result with
  | ok n => exact fun h => congrArg Except.ok (Except.ok.inj h)
  | error e => exact nofun

/-- A plain read fails only as the read does. -/
theorem read_eq_error_of_readPlain {r : Reader σ} {buffer : Bytes} {cause : Failure}
    (h : (r.readPlain buffer).result = .error cause) :
    ∃ e : ReadError, (r.read buffer).result = .error e ∧ e.toFailure = cause := by
  change (r.read buffer).result.mapError ReadError.toFailure = .error cause at h
  revert h
  cases (r.read buffer).result with
  | ok n => exact nofun
  | error e => exact fun h => ⟨e, rfl, Except.error.inj h⟩

/-- Reads until `rest`, the part of the buffer behind the bytes `done`, is full, in at most `rounds`
attempts. -/
def fillWithin : Nat → Reader σ → Bytes → Bytes →
    Option (Call (Reader σ) (Except (Stop Failure) Unit))
  | 0, _, _, _ => none
  | rounds + 1, r, done, rest =>
    if rest.size = 0 then some ⟨.ok (), done ++ rest, r⟩
    else
      match r.readPlain rest with
      | ⟨.ok count, buffer, r⟩ =>
        if count = 0 then some ⟨.error (.failed .bufferNotFilled), done ++ buffer, r⟩
        else if rest.size < count then some ⟨.error (.faulted .slice), done ++ buffer, r⟩
        else
          fillWithin rounds r (done ++ buffer.extract 0 count)
            (buffer.extract count buffer.size)
      | ⟨.error cause, buffer, r⟩ =>
        if cause.isInterruption then fillWithin rounds r done buffer
        else some ⟨.error (.failed cause), done ++ buffer, r⟩

/-- Appends the bytes up to the delimiter to `out`, in at most `rounds` attempts, and counts them
from `count` on. The end of the stream ends the read with what there was. -/
def untilWithin (delim : UInt8) : Nat → Reader σ → Bytes → Nat →
    Option (Call (Reader σ) (Except Failure Nat))
  | 0, _, _, _ => none
  | rounds + 1, r, out, count =>
    match r.fillBuffer with
    | (.ok available, r) =>
      match available.indexIn? delim 0 available.size with
      | some i =>
        some ⟨.ok (count + (i + 1)), out ++ available.extract 0 (i + 1), r.skip (i + 1)⟩
      | none =>
        if available.size = 0 then some ⟨.ok count, out, r⟩
        else
          untilWithin delim rounds (r.skip available.size) (out ++ available)
            (count + available.size)
    | (.error cause, r) =>
      if cause.isInterruption then untilWithin delim rounds r out count
      else some ⟨.error cause, out, r⟩

end Reader

end BufferedReading
